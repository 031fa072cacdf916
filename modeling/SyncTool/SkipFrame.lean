import SyncTool.LocalFootprint

set_option autoImplicit false

namespace SyncTool

open SyncTool.Path LinuxFileUtil FileSync

/-- A directory is not listed to its end. -/
inductive Op.Unlisted : (op : Op) → World → Res op → Prop where
  | readdir {path : Bytes} {w : World} {names : List Name} :
      names.Sublist (w.fs.readdir path) → Unlisted (.readdir path) w names

/-- Every call but `stat` may fail. -/
def sighted : Handler Op Res World where
  exec op w answer w' := (∃ choice, op.run choice w = (answer, w')) ∨ op.Unlisted w answer ∧ w' = w
  spins := True

theorem sighted_faulty (op : Op) (w : World) (answer : Res op) (w' : World)
    (ran : sighted.exec op w answer w') : faulty.exec op w answer w' := by
  rcases ran with done | ⟨unlisted, same⟩
  · exact .inl done
  · right
    refine ⟨?_, same⟩
    cases unlisted with
    | readdir short => exact .readdir short

theorem sighted_stat {path : Bytes} {w w' : World} {answer : Option Node}
    (ran : sighted.exec (.stat path) w answer w') : answer = w.fs.stat path ∧ w' = w := by
  rcases ran with ⟨choice, ran⟩ | ⟨unlisted, -⟩
  · cases ran
    exact ⟨rfl, rfl⟩
  · cases unlisted

theorem sighted_mkdir {path : Bytes} {mode : UInt32} {w w' : World} {made : Bool}
    (ran : sighted.exec (.mkdir path mode) w made w') :
    ∃ choice, (Op.mkdir path mode).run choice w = (made, w') := by
  rcases ran with done | ⟨unlisted, -⟩
  · exact done
  · cases unlisted

/-- A place that is not named like a progress record. -/
def Ordinary (p : Path) : Prop := ∀ init name, p = init ++ [name] → ¬ progressSuffix <:+ name

/-- Every file that is not named like a progress record has the bytes it had. -/
def Kept (fs fs' : FileSystem) : Prop :=
  ∀ p content, Ordinary p → fs.entry p = some (.file content) → fs'.entry p = some (.file content)

/-- A program that runs alone and keeps what the file system had at first. -/
def keeping (fs : FileSystem) : Interference World :=
  .alone (fun w w' => Kept fs w.fs → Kept fs w'.fs) fun _ => id

section

variable {fs fs₁ fs₂ : FileSystem} {w : World}

theorem Kept.grown (kept : Kept fs fs₁) (grown : FileSync.Grown fs₁ fs₂) : Kept fs fs₂ := by
  intro p content ordinary file
  have still := kept p content ordinary file
  rw [grown.tree p (by simp [still]), still]

theorem Kept.same (kept : Kept fs fs₁) (same : fs₂.entry = fs₁.entry) : Kept fs fs₂ := by
  intro p content ordinary file
  rw [same]
  exact kept p content ordinary file

theorem stat_grown {path : Bytes} (grown : FileSync.Grown fs₁ fs₂) (exist : fs₁.stat path ≠ none) :
    fs₂.stat path ≠ none := by
  obtain ⟨p, found, occupied⟩ := FileSystem.stat_ne_none.mp exist
  apply FileSystem.stat_ne_none.mpr
  refine ⟨p, grown.dirs.resolve found, ?_⟩
  rwa [grown.tree p occupied]

theorem stat_made {path : Bytes} {mode : UInt32} {choice : Choice} {w' : World}
    (ran : (Op.mkdir path mode).run choice w = (true, w')) : w'.fs.stat path ≠ none := by
  simp only [Op.run, World.attempt] at ran
  split at ran
  · split at ran
    · next fs made =>
        obtain rfl := (Prod.mk.inj ran).2
        obtain ⟨p, found, missing, cwd, tree⟩ := FileSystem.mkdir_effect made
        have kept := FileSystem.dirsKept_of_update cwd tree fun _ => rfl
        apply FileSystem.stat_ne_none.mpr
        refine ⟨p, kept.resolve found, ?_⟩
        rw [tree, Function.update_self]
        exact Option.some_ne_none _
    · cases ran
  · cases ran

/-- Whatever fails, `createDirectory` only adds directories, and where it succeeds everything on
the way is there. -/
theorem createEach_keeps (mode : UInt32) (paths : List Bytes) :
    Program.Sat sighted (keeping fs) (createEach mode paths)
      (fun made w' => FileSync.Grown w.fs w'.fs ∧
        (made = true → ∀ path ∈ paths, path ≠ [] → w'.fs.stat path ≠ none)) w := by
  induction paths generalizing w with
  | nil =>
      rintro w' rfl
      exact ⟨.refl _, fun _ path member => absurd member List.not_mem_nil⟩
  | cons path paths ih =>
      -- once the first one is there, it stays
      have rest : ∀ w₁ : World, FileSync.Grown w.fs w₁.fs → (path ≠ [] → w₁.fs.stat path ≠ none) →
          Program.Sat sighted (keeping fs) (createEach mode paths)
            (fun made w' => FileSync.Grown w.fs w'.fs ∧
              (made = true → ∀ other ∈ path :: paths, other ≠ [] →
                w'.fs.stat other ≠ none)) w₁ := by
        intro w₁ sofar there
        apply ih.weaken
        intro made w₂ both
        obtain ⟨more, others⟩ := both
        refine ⟨sofar.trans more, ?_⟩
        intro right other member nonempty
        rcases List.mem_cons.mp member with same | later
        · subst same
          exact stat_grown more (there nonempty)
        · exact others right other later nonempty
      rw [createEach]
      apply Program.Sat.ite
      · exact fun blank => rest w (.refl _) fun nonempty => absurd blank nonempty
      · intro nonempty
        simp only [ensureDirectory, Program.ask_bind, Program.call_bind, Program.sat_call]
        intro w₁ same statbuf w₂ ran
        obtain rfl : w = w₁ := same
        obtain ⟨seen, rfl⟩ := sighted_stat ran
        refine ⟨id, ?_⟩
        cases statbuf with
        | some node =>
            show Program.Sat sighted (keeping fs) (createEach mode paths) _ w₂
            apply rest w₂ (.refl _)
            intro _
            rw [← seen]
            exact Option.some_ne_none node
        | none =>
            show Program.Sat sighted (keeping fs) (.call (.mkdir path mode) fun made =>
              if made then createEach mode paths else pure false) _ w₂
            intro w₃ same made w₄ ran
            obtain rfl : w₂ = w₃ := same
            obtain ⟨choice, ran⟩ := sighted_mkdir ran
            have grown : FileSync.Grown w₂.fs w₄.fs := by
              have step := run_mkdir_grown w₂ choice path mode
              rwa [ran] at step
            refine ⟨fun kept => kept.grown grown, ?_⟩
            cases made with
            | true => exact rest w₄ grown fun _ => stat_made ran
            | false =>
                rintro w₅ rfl
                exact ⟨grown, fun impossible => absurd impossible Bool.false_ne_true⟩

theorem createDirectory_keeps (path : Bytes) (mode : UInt32) :
    Program.Sat sighted (keeping fs) (createDirectory path mode)
      (fun made w' => FileSync.Grown w.fs w'.fs ∧
        (made = true → path ≠ [] → w'.fs.stat path ≠ none)) w := by
  apply (createEach_keeps mode _).weaken
  intro made w' both
  obtain ⟨grown, there⟩ := both
  refine ⟨grown, fun right nonempty => ?_⟩
  exact there right path (by simp) nonempty

/-- Where a directory is there and `stat` finds nothing of a name in it, there is nothing. -/
theorem free_of_stat {parent : Bytes} {name : Name} (proper : ProperName name)
    (nonempty : parent ≠ []) (there : fs.stat parent ≠ none)
    (missing : fs.stat (parent ++ slash :: name) = none) :
    fs.entry (place fs.cwd (parent ++ slash :: name)) = none := by
  obtain ⟨top, found, -⟩ := FileSystem.stat_ne_none.mp there
  have below_ : place fs.cwd (parent ++ slash :: name) = top ++ [name] := by
    have split : parent ++ slash :: name = parent ++ below [name] := by simp
    rw [split, place_below fs.cwd nonempty (by simpa using proper),
      FileSystem.resolve_eq_place found]
  rw [below_]
  by_contra exist
  have isDir : fs.entry top = some .dir := FileSystem.entry_of_append (by simp) exist
  have whole := FileSystem.resolve_slash found isDir proper.2.1
  rw [enter_of_proper proper] at whole
  exact FileSystem.stat_ne_none.mpr ⟨_, whole, exist⟩ missing

variable {self : FileSync} {fuel : Nat} {srcPath parent : Bytes} {name : Name}

/-- A copy to a place that was free keeps everything else. -/
theorem copyOrResume_keeps (proper : ProperName name) (kept : Kept fs w.fs)
    (free : w.fs.entry (place w.fs.cwd (parent ++ slash :: name)) = none) (mode : UInt32) :
    Program.Sat sighted (keeping fs) (copyOrResume self fuel srcPath (parent ++ slash :: name) mode)
      (fun _ _ => True) w := by
  have split : components (parent ++ slash :: name) = components parent ++ [name] := by
    rw [components_append_slash, components_of_notMem proper.2.1]
  have record := @place_append w.fs.cwd _ progressSuffix _ _ split
    ⟨proper.1, proper.2.2.2.1, proper.2.2.2.2⟩ (by decide) (by decide)
  -- what the copy may touch is neither an old file nor an ordinary one
  have spared : ∀ w' : World, w'.fs.cwd = w.fs.cwd →
      (∀ q, place w.fs.cwd (parent ++ slash :: name) ≠ q →
        place w.fs.cwd (getProgressFilePath (parent ++ slash :: name)) ≠ q →
        w'.fs.entry q = w.fs.entry q) → Kept fs w'.fs := by
    intro w' _ others p content ordinary file
    have before := kept p content ordinary file
    rw [others p, before]
    · intro here
      rw [here, before] at free
      cases free
    · intro here
      rw [getProgressFilePath, record] at here
      exact ordinary _ _ here.symm (List.suffix_append name progressSuffix)
  apply ((copyOrResume_calls fuel mode).sat (fun w' : World => w'.fs.cwd = w.fs.cwd ∧
    ∀ q, place w.fs.cwd (parent ++ slash :: name) ≠ q →
      place w.fs.cwd (getProgressFilePath (parent ++ slash :: name)) ≠ q →
      w'.fs.entry q = w.fs.entry q) ⟨rfl, fun _ _ _ => rfl⟩ ?_ ?_ trivial).weaken
  · exact fun _ _ _ => trivial
  · rintro w₁ w₂ rfl now
    exact now
  · intro op w₁ answer w₂ calls now ran
    obtain ⟨cwd, others⟩ := now
    have after : w₂.fs.cwd = w.fs.cwd ∧ ∀ q, place w.fs.cwd (parent ++ slash :: name) ≠ q →
        place w.fs.cwd (getProgressFilePath (parent ++ slash :: name)) ≠ q →
        w₂.fs.entry q = w.fs.entry q := by
      refine ⟨?_, fun q notDest notRecord => ?_⟩
      · rcases ran with ⟨choice, ran⟩ | ⟨-, rfl⟩
        · have frame := (run_frame op choice w₁).1
          rw [ran] at frame
          exact frame.trans cwd
        · exact cwd
      · have apart : ∀ path ∈ op.marks, place w₁.fs.cwd path ≠ q := by
          intro path member
          rw [cwd]
          rcases calls path member with rfl | rfl
          · exact notDest
          · exact notRecord
        have same := (faulty_seen (sighted_faulty _ _ _ _ ran) apart).2
        rw [entry_eq_of_seen same, others q notDest notRecord]
    exact ⟨fun _ => spared w₂ after.1 after.2, after⟩

/-- The task of a file, when an existing destination is to be skipped. -/
theorem syncFile_keeps (skips : self.conflictStrategy = .skip) (proper : ProperName name)
    (nonempty : parent ≠ []) (kept : Kept fs w.fs) (mode : UInt32) :
    Program.Sat sighted (keeping fs) (syncFile self fuel srcPath (parent ++ slash :: name) mode)
      (fun _ _ => True) w := by
  simp only [syncFile, fileExists, Program.ask_bind, Program.call_bind, Program.pure_eq,
    Program.done_bind, Program.sat_call]
  intro w₁ same statbuf w₂ ran
  obtain rfl : w = w₁ := same
  obtain ⟨-, rfl⟩ := sighted_stat ran
  refine ⟨id, ?_⟩
  apply Program.Sat.ite
  · exact fun _ _ _ => trivial
  · intro _
    rw [parentPath_append_slash proper.2.1]
    apply Program.Sat.bind
    apply (createDirectory_keeps parent 0o755).weaken
    intro made w₃ both
    obtain ⟨grown, there⟩ := both
    apply Program.Sat.ite
    · intro right
      have kept₃ := kept.grown grown
      simp only [resolveConflict, fileExists, Program.ask_bind, Program.call_bind, Program.pure_eq,
        Program.done_bind, Program.sat_call, handleConflict, skips]
      intro w₄ same statbuf w₅ ran
      obtain rfl : w₃ = w₄ := same
      obtain ⟨seen, rfl⟩ := sighted_stat ran
      refine ⟨id, ?_⟩
      cases statbuf with
      | some node => exact fun _ _ => trivial
      | none =>
          apply copyOrResume_keeps proper kept₃
          exact free_of_stat proper nonempty (there right nonempty) seen.symm
    · exact fun _ _ _ => trivial

theorem syncDirectory_keeps (path : Bytes) (mode : UInt32) :
    Program.Sat sighted (keeping fs) (syncDirectory path mode) (fun _ _ => True) w := by
  rw [syncDirectory]
  apply Program.Sat.bind
  apply (createDirectory_keeps path 0o755).weaken
  intro made w₁ _
  apply Program.Sat.ite
  · intro _ w₂ same changed w₃ ran
    obtain rfl : w₁ = w₂ := same
    refine ⟨fun kept => ?_, fun _ _ => trivial⟩
    rcases ran with ⟨choice, ran⟩ | ⟨-, rfl⟩
    · have mode_only := @run_chmod_same w₁ choice path mode
      rw [ran] at mode_only
      exact kept.same mode_only.tree
    · exact kept
  · exact fun _ _ _ => trivial

/-- A task for something below the source. -/
theorem executeSyncTask_keeps (skips : self.conflictStrategy = .skip) {destDir : Bytes}
    (nonempty : destDir ≠ []) {task : SyncTask} {names : Path} (some_ : names ≠ [])
    (proper : ∀ name ∈ names, ProperName name) (image : task.destPath = destDir ++ below names)
    (kept : Kept fs w.fs) :
    Program.Sat sighted (keeping fs) (executeSyncTask self fuel task) (fun _ _ => True) w := by
  unfold executeSyncTask
  apply Program.Sat.ite
  · exact fun _ => syncDirectory_keeps task.destPath task.mode
  · intro _
    obtain ⟨init, name, rfl⟩ := (List.eq_nil_or_concat' names).resolve_left some_
    have whole : task.destPath = (destDir ++ below init) ++ slash :: name := by
      simp [image, below_append]
    rw [whole]
    exact syncFile_keeps skips (proper name (by simp)) (by simp [nonempty]) kept task.mode

end

/-- Skipping what exists: whatever fails but `stat`, a sync with one worker leaves every file that
was there, progress records apart, with its bytes. -/
theorem SyncManager.syncLocal_keeps {self : FileSync} {fuel : Nat}
    {srcDir destDir : Bytes} {w w' : World}
    (skips : self.conflictStrategy = .skip) (nonempty : destDir ≠ [])
    (run : Relation.ReflTransGen (SyncManager.StepUnder self fuel sighted.exec)
      (.detecting (detectChanges self fuel srcDir destDir) w) (.returned w' : SyncManager 1)) :
    Kept w.fs w'.fs := by
  have scan := (@detectChanges_found srcDir destDir w self fuel).restrict sighted_faulty
    fun _ => trivial
  obtain ⟨tasks, w₁, pool, ⟨each, rfl⟩, work, -, rfl⟩ := SyncManager.phase_of_runs scan run
  have works : ∀ task ∈ tasks, ∀ w₂ : World, Kept w₁.fs w₂.fs →
      Program.Sat sighted (keeping w₁.fs) (executeSyncTask self fuel task)
        (fun _ _ => True) w₂ := by
    intro task member w₂ kept
    obtain ⟨names, some_, there, image⟩ := each task member
    obtain ⟨node, here⟩ := Option.ne_none_iff_exists'.mp there
    exact executeSyncTask_keeps skips nonempty some_ (proper_of_under here) image kept
  exact ThreadPool.run_alone (by decide) (fun _ _ promised => promised) works
    (fun _ _ _ file => file) work

end SyncTool
