import SyncTool.SkipFrame
import SyncTool.TaskOrder

set_option autoImplicit false

namespace SyncTool

open SyncTool.Path LinuxFileUtil FileSync

/-- Below a directory that is named, the disk space can be asked for. -/
theorem measured_below {destDir : Bytes} (named : destDir ≠ []) {names : Path}
    (nonempty : names ≠ []) (noSlash : ∀ name ∈ names, slash ∉ name) :
    Measured (destDir ++ below names) := by
  obtain ⟨init, name, rfl⟩ := (List.eq_nil_or_concat' names).resolve_left nonempty
  have split : destDir ++ below (init ++ [name]) = (destDir ++ below init) ++ slash :: name := by
    rw [below_append, below_cons, below_nil, List.append_nil, List.append_assoc]
  rw [Measured, split, parentPath_append_slash (noSlash name (by simp))]
  simp [named]

/-- No name of the source ends like a record's, and no file of the source has a record already. -/
structure Unrecorded (fs : FileSystem) (src dest : Path) : Prop where
  source : ∀ names name, fs.entry (src ++ (names ++ [name])) ≠ none → ¬ progressSuffix <:+ name
  records : ∀ names content, fs.entry (src ++ names) = some (.file content) →
    fs.entry (dest ++ suffixed progressSuffix names) = none

/-- A file of the source that the destination lacks. -/
structure Lacking (fs : FileSystem) (src dest names : Path) : Prop where
  file : ∃ content, fs.entry (src ++ names) = some (.file content)
  missing : fs.entry (dest ++ names) = none

/-- What the task of such a file leaves of it. -/
def Fetched (self : FileSync) (space : Nat → Prop) (fs : FileSystem) (destDir : Bytes)
    (src dest names : Path) (fs' : FileSystem) : Prop :=
  Lacking fs src dest names → ∀ content, fs.entry (src ++ names) = some (.file content) →
    ∃ f, fs'.entry (dest ++ names) = some (.file f) ∧
      FreshImage self space (destDir ++ below names) content f

namespace Unrecorded

variable {fs : FileSystem} {srcDir destDir : Bytes} {src dest names names' : Path}
  (clean : Unrecorded fs src dest) (overlay : Overlay fs srcDir destDir src dest)

include overlay in
omit clean in
theorem ne_nil_of_lacking (lacking : Lacking fs src dest names) : names ≠ [] := by
  intro first
  obtain ⟨content, file⟩ := lacking.file
  rw [first, List.append_nil, overlay.srcIsDir] at file
  cases file

include clean

/-- The source has nothing at the name of a record. -/
theorem suffixed_free (nonempty : names ≠ []) :
    fs.entry (src ++ suffixed progressSuffix names) = none := by
  obtain ⟨init, name, rfl⟩ := (List.eq_nil_or_concat' names).resolve_left nonempty
  rw [suffixed_concat]
  by_contra exist
  exact clean.source init _ exist (List.suffix_append name progressSuffix)

/-- What the task for `names` has to itself: the place and the record of a file that is lacking.
Whatever is a file already is read only. -/
def share (names : Path) : Estate where
  writes := {p | Lacking fs src dest names ∧
    (p = dest ++ names ∨ p = dest ++ suffixed progressSuffix names)}
  reads := {p | fs.entry p ≠ none ∧ p ∉ growth fs src dest}
  grows := growth fs src dest
  keys := {key | key = destDir ++ below names ∧ ∀ name ∈ names, slash ∉ name}
  unwritten p grown := by
    rintro ⟨lacking, rfl | rfl⟩
    · have isDir := overlay.dest_mem_growth grown
      obtain ⟨content, file⟩ := lacking.file
      rw [file] at isDir
      cases isDir
    · have isDir := overlay.dest_mem_growth grown
      rw [clean.suffixed_free (ne_nil_of_lacking overlay lacking)] at isDir
      cases isDir
  unread _ grown inside := inside.2 grown
  proper _ grown := growth_proper grown

/-- Tasks write only where nothing was. -/
theorem free_of_writes {p : Path} (own : p ∈ (clean.share overlay names).writes) :
    fs.entry p = none := by
  obtain ⟨lacking, rfl | rfl⟩ := own
  · exact lacking.missing
  · obtain ⟨content, file⟩ := lacking.file
    exact clean.records names content file

/-- The tasks of different nodes do not touch each other's places. -/
theorem share_apart (other : names ≠ names') :
    Estate.Apart (clean.share overlay names) (clean.share overlay names') where
  writes p own := by
    have free := clean.free_of_writes overlay own
    refine ⟨?_, fun inside => inside.1 free, fun grown => ?_⟩
    · intro own'
      obtain ⟨lacking, which⟩ := own
      obtain ⟨lacking', which'⟩ := own'
      have nonempty := ne_nil_of_lacking overlay lacking
      have nonempty' := ne_nil_of_lacking overlay lacking'
      -- the place of a file is not that of another's record
      have notRecord : ∀ {first second : Path}, Lacking fs src dest first → second ≠ [] →
          dest ++ first ≠ dest ++ suffixed progressSuffix second := by
        intro first second present some_ same
        obtain ⟨content, file⟩ := present.file
        rw [List.append_cancel_left same, clean.suffixed_free some_] at file
        cases file
      rcases which with rfl | rfl <;> rcases which' with same | same
      · exact other (List.append_cancel_left same)
      · exact notRecord lacking nonempty' same
      · exact notRecord lacking' nonempty same.symm
      · exact other (suffixed_injective nonempty nonempty' (List.append_cancel_left same))
    · exact (clean.share overlay names).unwritten p grown own
  grows p grown := ⟨(clean.share overlay names').unwritten p grown, fun inside => inside.2 grown⟩
  keys := by
    rintro key ⟨rfl, noSlash⟩ ⟨same, noSlash'⟩
    exact other (below_injective noSlash noSlash' (List.append_cancel_left same))

variable {self : FileSync} {policy : Policy} {spins : Prop} {space : Nat → Prop}
  {I : Interference World} {w₀ w w' : World}

/-- What is fetched stays so while others work. -/
theorem fetched_rely (drift : (clean.share overlay names).Rely w w')
    (fetched : Fetched self space fs destDir src dest names w.fs) :
    Fetched self space fs destDir src dest names w'.fs := by
  intro lacking content file
  obtain ⟨f, there, image⟩ := fetched lacking content file
  exact ⟨f, (drift.writes _ ⟨lacking, .inl rfl⟩).trans there, image⟩

/-- A file of either tree is read by every task. -/
theorem file_reads {p : Path} {content : Bytes} (file : fs.entry p = some (.file content)) :
    p ∈ (clean.share overlay names).reads := by
  refine ⟨by simp [file], fun grown => ?_⟩
  rcases overlay.growth_notFile grown with missing | isDir
  · rw [file] at missing
    cases missing
  · rw [file] at isDir
    cases isDir

/-- The task of a file: it fetches the file if it is lacking, and else leaves it. -/
theorem file_fetched (sound : ∀ op choice w, policy op choice w → Policy.reliable space op choice w)
    (skips : self.conflictStrategy = .skip) (different : src ≠ dest) {content : Bytes}
    (file : fs.entry (src ++ names) = some (.file content)) {fuel : Nat}
    (enough : Enough spins content.length fuel) (le : I.Le (clean.share overlay names).interference)
    (unraced : Unraced policy I) (start : w₀.fs = fs)
    (drift : (clean.share overlay names).Rely w₀ w) (mode : UInt32) :
    Program.Sat (handler policy spins) I
      (syncFile self fuel (srcDir ++ below names) (destDir ++ below names) mode)
      (fun _ w' => Fetched self space fs destDir src dest names w'.fs) w := by
  have nonempty : names ≠ [] := by
    intro first
    rw [first, List.append_nil, overlay.srcIsDir] at file
    cases file
  obtain ⟨init, name, rfl⟩ := (List.eq_nil_or_concat' names).resolve_left nonempty
  have source : (overlay.copy different file).src ∈ (clean.share overlay (init ++ [name])).reads :=
    clean.file_reads overlay file
  have record_eq : (overlay.copy different file).record =
      dest ++ suffixed progressSuffix (init ++ [name]) := by
    rw [suffixed_concat]
    rfl
  cases there : fs.contentAt (dest ++ (init ++ [name])) with
  | none =>
      have missing : fs.entry (dest ++ (init ++ [name])) = none := by
        rw [overlay.entry_dest file, there]
        rfl
      have lacking : Lacking fs src dest (init ++ [name]) := ⟨⟨content, file⟩, missing⟩
      have own : (overlay.copy different file).Owned (clean.share overlay (init ++ [name])) := by
        refine ⟨⟨lacking, .inl rfl⟩, ⟨lacking, .inr record_eq⟩, source, ⟨rfl, ?_⟩⟩
        exact fun other inside => (FileSystem.proper_below file other inside).2.1
      have record : fs.entry (dest ++ (init ++ [name ++ progressSuffix])) =
          (none : Option Bytes).map .file := by
        rw [← suffixed_concat]
        exact clean.records _ content file
      have ready := overlay.ready different rfl start file drift source own.dest own.record record
      rw [there] at ready
      apply (syncFile_absent sound le unraced own ready enough mode).weaken
      rintro ok w₁ ⟨-, f, held, image, now⟩ _ content' file'
      obtain rfl : content = content' := by simpa [file] using file'
      exact ⟨f, now.dest, image⟩
  | some f =>
      have exist := FileSystem.contentAt_eq_some.mp there
      have spared : (overlay.copy different file).dest ∈
          (clean.share overlay (init ++ [name])).reads :=
        clean.file_reads overlay exist
      have existNow : w.fs.entry (overlay.copy different file).dest = some (.file f) := by
        refine (drift.reads _ spared).trans ?_
        rw [start]
        exact exist
      have refused : ∀ b, ¬ Proceeds self (some f) b := fun b allowed => (allowed (by simp)).1 skips
      apply (syncFile_declined sound le unraced source spared
        (overlay.approach different rfl start file drift source) existNow (refused _)).weaken
      intro ok w₁ _ lacking
      have missing := lacking.missing
      rw [exist] at missing
      cases missing

/-- The task of any node. -/
theorem task_fetched (sound : ∀ op choice w, policy op choice w → Policy.reliable space op choice w)
    (skips : self.conflictStrategy = .skip) (different : src ≠ dest) {node : Node}
    (here : fs.lookup (src ++ names) = some node) {fuel : Nat}
    (enough : ∀ content, node.entry = .file content → Enough spins content.length fuel)
    (le : I.Le (clean.share overlay names).interference) (unraced : Unraced policy I)
    (start : w₀.fs = fs) (drift : (clean.share overlay names).Rely w₀ w) :
    Program.Sat (handler policy spins) I
      (executeSyncTask self fuel (taskFor srcDir destDir names node))
      (fun _ w' => Fetched self space fs destDir src dest names w'.fs) w := by
  have entry_eq : fs.entry (src ++ names) = some node.entry := by simp [FileSystem.entry, here]
  cases kind : node.entry with
  | dir =>
      rw [kind] at entry_eq
      simp only [executeSyncTask, taskFor, kind, decide_true, ↓reduceIte]
      apply (overlay.syncDirectory_sat sound rfl le unraced entry_eq start drift _).weaken
      intro ok w' _ lacking
      obtain ⟨content, file⟩ := lacking.file
      rw [entry_eq] at file
      cases file
  | file content =>
      rw [kind] at entry_eq
      simp only [executeSyncTask, taskFor, kind, reduceCtorEq, decide_false, Bool.false_eq_true,
        ↓reduceIte]
      exact clean.file_fetched overlay sound skips different entry_eq
        (enough content kind) le unraced start drift _

end Unrecorded

namespace SyncManager

section

variable {self : FileSync} {fuel : Nat} {srcDir destDir : Bytes} {src dest : Path} {w w₁ w' : World}
  {policy : Policy} {space : Nat → Prop} {tasks : List SyncTask}

/-- The tasks of a detection: one for every node of the source that is not spared. -/
structure Detected (self : FileSync) (srcDir destDir : Bytes) (src : Path) (w : World)
    (tasks : List SyncTask) (w₁ : World) : Prop where
  jobs : ∃ jobs : List Path, tasks = jobs.map (taskAt w.fs srcDir destDir src) ∧ jobs.Nodup ∧
    ∀ names, names ∈ jobs ↔ names ∈ tasked self.md5 w.fs srcDir destDir
  still : w₁ = w

theorem detected_sat {spins : Prop}
    (sound : ∀ op choice w, policy op choice w → Policy.reliable space op choice w)
    (found : w.fs.resolve srcDir = some src) (source : Scannable spins w.fs srcDir fuel fuel)
    (target : Scannable spins w.fs destDir fuel fuel) :
    Program.Sat (handler policy spins) Interference.free (detectChanges self fuel srcDir destDir)
      (Detected self srcDir destDir src w) w := by
  apply (detectChanges_tasks (Policy.scanning_of_reliable sound) (fun _ _ same => Eq.symm same)
    source target).weaken
  rintro tasks w₁ ⟨members, distinct, same⟩
  exact ⟨jobs_of_tasks found members distinct, same⟩

/-- What the pool is to achieve, and what it has to do with the nodes of the source. -/
theorem fetching {spins : Prop} (sound : ∀ op choice w, policy op choice w →
      Policy.reliable space op choice w) (skips : self.conflictStrategy = .skip)
    (overlay : Overlay w.fs srcDir destDir src dest) (clean : Unrecorded w.fs src dest)
    (different : src ≠ dest) (detected : Detected self srcDir destDir src w tasks w₁)
    (enough : ∀ names content, w.fs.entry (src ++ names) = some (.file content) →
      Enough spins content.length fuel)
    {pool : ThreadPool Op Res World SyncTask 1}
    (run : Relation.ReflTransGen
      (ThreadPool.Step (handler policy spins).exec (executeSyncTask self fuel))
        (.boot tasks w₁) pool) :
    ThreadPool.Sound tasks pool ∧
      ThreadPool.Working (namesOf srcDir) (fun names => (clean.share overlay names).interference)
        (fun names => (clean.share overlay names).interference.solo)
        (fun names w' => Fetched self space w.fs destDir src dest names w'.fs)
          (handler policy spins) tasks w₁
        pool := by
  obtain ⟨⟨jobs, rfl, distinct, members⟩, rfl⟩ := detected
  have nodes : ∀ names ∈ tasked self.md5 w₁.fs srcDir destDir, names ≠ [] ∧
      w₁.fs.entry (src ++ names) ≠ none :=
    tasked_nodes overlay.srcFound
  have there : ∀ names ∈ jobs, w₁.fs.entry (src ++ names) ≠ none := fun names member =>
    (nodes names ((members names).mp member)).2
  apply ThreadPool.run_working _ _ _ (.inl (by decide)) _ _ _ run
  · intro names names' other w₂ w₃ did
    exact did.rely (clean.share_apart overlay other.symm)
  · exact fun names w₂ w₃ drift fetched => clean.fetched_rely overlay drift fetched
  · exact fun names w₂ w₃ promised => promised
  · intro task member w₂ drift
    obtain ⟨names, job, rfl⟩ := List.mem_map.mp member
    obtain ⟨node, here⟩ := Option.ne_none_iff_exists'.mp
      (FileSystem.entry_ne_none.mp (there names job))
    rw [namesOf_taskAt (there names job)] at drift ⊢
    rw [taskAt, here, Option.getD_some]
    apply clean.task_fetched overlay sound skips different here _ (Interference.solo_le _)
      (.inl fun _ _ same => Eq.symm same) rfl drift
    intro content file
    exact enough names content (by simp [FileSystem.entry, here, file])
  · exact taskAt_apart there
  · exact taskAt_once there distinct

/-- When the pool has finished, every file that was lacking has been fetched. -/
theorem fetched_all {spins : Prop} (sound : ∀ op choice w, policy op choice w →
      Policy.reliable space op choice w) (skips : self.conflictStrategy = .skip)
    (overlay : Overlay w.fs srcDir destDir src dest) (clean : Unrecorded w.fs src dest)
    (different : src ≠ dest) (detected : Detected self srcDir destDir src w tasks w₁)
    (enough : ∀ names content, w.fs.entry (src ++ names) = some (.file content) →
      Enough spins content.length fuel)
    {pool : ThreadPool Op Res World SyncTask 1}
    (run : Relation.ReflTransGen
      (ThreadPool.Step (handler policy spins).exec (executeSyncTask self fuel))
        (.boot tasks w₁) pool)
    (finished : pool.Finished) (names : Path) :
    Fetched self space w.fs destDir src dest names pool.state.fs := by
  obtain ⟨books, working⟩ := fetching sound skips overlay clean different detected enough run
  obtain ⟨goals, -⟩ := working.finished books finished
  intro lacking
  obtain ⟨content, file⟩ := lacking.file
  have there : w.fs.entry (src ++ names) ≠ none := by simp [file]
  have member : names ∈ tasked self.md5 w.fs srcDir destDir :=
    tasked_of_missing overlay (Unrecorded.ne_nil_of_lacking overlay lacking) there lacking.missing
  obtain ⟨⟨jobs, rfl, -, members⟩, -⟩ := detected
  have goal := goals _ (List.mem_map_of_mem ((members names).mpr member))
  rw [namesOf_taskAt there] at goal
  exact goal lacking

/-- Nothing needs a task when the destination is the source. -/
theorem not_tasked_of_same {fs : FileSystem} {md5 : Md5}
    (overlay : Overlay fs srcDir destDir src src) (names : Path) :
    names ∉ tasked md5 fs srcDir destDir := by
  intro member
  obtain ⟨-, there, different⟩ := member
  apply different
  obtain ⟨node, here⟩ := Option.ne_none_iff_exists'.mp there
  have same : fs.under destDir names = some node := by
    rcases overlay.dest_found with ⟨found, -⟩ | ⟨-, missing⟩
    · rw [FileSystem.under_of_resolve found, ← FileSystem.under_of_resolve overlay.srcFound, here]
    · rw [overlay.srcIsDir] at missing
      cases missing
  refine ⟨node, node, here, same, ?_⟩
  simp [needSync, describe]

/-- With fuel enough, and room on the disk, there is a run that returns; it leaves of every lacking
file what a copy makes of it. -/
theorem exists_run (skips : self.conflictStrategy = .skip)
    (overlay : Overlay w.fs srcDir destDir src dest)
    (clean : Unrecorded w.fs src dest) (source : Scannable False w.fs srcDir fuel fuel)
    (target : Scannable False w.fs destDir fuel fuel)
    (enough : ∀ names content, w.fs.entry (src ++ names) = some (.file content) →
      Enough False content.length fuel) :
    ∃ w' : World, Runs self fuel (Policy.reliable fun _ => True) srcDir destDir w
        (.returned w' : SyncManager 1) ∧
      ∀ names content, w.fs.entry (src ++ names) = some (.file content) →
        w.fs.entry (dest ++ names) = none →
        w'.fs.entry (dest ++ names) =
          some (.file (freshOf self (destDir ++ below names) content)) := by
  obtain ⟨bound, -, files⟩ := w.fs.exists_bound
  have sound : ∀ op choice w', Policy.reliable (Roomy w.fs) op choice w' →
      Policy.reliable (Roomy w.fs) op choice w' := fun _ _ _ allowed => allowed
  have answered : ∀ op w₁, ∃ answer w₂,
      (handler (Policy.reliable (Roomy w.fs)) False).exec op w₁ answer w₂ := fun op w₁ =>
    ⟨_, _, Policy.quietly_reliable (Roomy w.fs) False bound
      (fun p content file => (files p content file).le) op w₁⟩
  -- the run of the scan
  have scan : Program.Sat (handler (Policy.reliable (Roomy w.fs)) False) Interference.free
      (detectChanges self fuel srcDir destDir) (Detected self srcDir destDir src w) w :=
    detected_sat sound overlay.srcFound source target
  obtain ⟨tasks, w₁, scanned, detected⟩ := (scan.returns id answered).exists_run
  -- the run of the tasks
  have worked : ∃ pool : ThreadPool Op Res World SyncTask 1,
      Relation.ReflTransGen (ThreadPool.Step (handler (Policy.reliable (Roomy w.fs)) False).exec
        (executeSyncTask self fuel)) (.boot tasks w₁) pool ∧ pool.Finished := by
    by_cases different : src = dest
    · subst different
      obtain ⟨⟨jobs, rfl, -, members⟩, -⟩ := detected
      have blank : jobs = [] := by
        apply List.eq_nil_iff_forall_not_mem.mpr
        exact fun names member => not_tasked_of_same overlay names ((members names).mp member)
      rw [blank]
      exact ⟨_, .refl, rfl, rfl⟩
    · apply ThreadPool.exists_finished 0
      intro pool task p run held
      obtain ⟨-, working⟩ := fetching sound skips overlay clean different detected enough run
      obtain ⟨verdict, w₂, ended, -⟩ :=
        ((working.running 0 task p held).returns id answered).exists_run
      exact ⟨verdict, w₂, ended⟩
  obtain ⟨pool, work, finished⟩ := worked
  have run :
      Runs self fuel (Policy.reliable (Roomy w.fs)) srcDir destDir w (.returned pool.state) :=
    run_of_phases scanned work finished
  refine ⟨pool.state, ?_, fun names content file missing => ?_⟩
  · refine run.lift id fun manager manager' one => ?_
    apply StepUnder.mono _ one
    rintro op w₂ answer w₃ ⟨choice, allowed, ran⟩
    exact ⟨choice, Policy.reliable_mono (fun _ _ => trivial) _ _ _ allowed, ran⟩
  · have different : src ≠ dest := by
      rintro rfl
      rw [file] at missing
      cases missing
    obtain ⟨f, there, image⟩ := fetched_all sound skips overlay clean different detected enough work
      finished names ⟨⟨content, file⟩, missing⟩ content file
    rw [there, image.eq_freshOf fun amount roomy => roomy _ _ file]

/-- Skip strategy, with one worker: whatever fails, no file of the destination loses its bytes, and
if nothing fails every file that it lacked arrives exactly, if and only if no such file is so large
that its chunks are miscounted. -/
theorem syncLocal_skip (skips : self.conflictStrategy = .skip)
    (overlay : Overlay w.fs srcDir destDir src dest) (clean : Unrecorded w.fs src dest) :
    ∃ enough, ∀ fuel, enough ≤ fuel →
      (∃ w' : World, Runs self fuel (Policy.reliable fun _ => True) srcDir destDir w
        (.returned w' : SyncManager 1)) ∧
      (((∀ w' : World, Relation.ReflTransGen (StepUnder self fuel sighted.exec)
            (.detecting (detectChanges self fuel srcDir destDir) w) (.returned w' : SyncManager 1) →
          Kept w.fs w'.fs) ∧
        ∀ w' : World, Runs self fuel (Policy.reliable fun _ => True) srcDir destDir w
            (.returned w' : SyncManager 1) →
          ∀ names content, w.fs.entry (src ++ names) = some (.file content) →
            w.fs.entry (dest ++ names) = none →
            w'.fs.entry (dest ++ names) = some (.file content)) ↔
      ∀ names content, w.fs.entry (src ++ names) = some (.file content) →
        w.fs.entry (dest ++ names) = none → self.Large content → ChunksCover content) := by
  obtain ⟨bound, scannable⟩ := exists_scannable w.fs
  obtain ⟨size, -, files⟩ := w.fs.exists_bound
  refine ⟨bound + size + ASYNC_CHUNK_SIZE + 1, fun fuel more => ?_⟩
  have enough : ∀ names content, w.fs.entry (src ++ names) = some (.file content) →
      Enough False content.length fuel := by
    intro names content file
    have short := files _ content file
    exact enough_of_lt (by omega)
  have ran := exists_run skips overlay clean (scannable fuel (by omega) srcDir)
    (scannable fuel (by omega) destDir) enough
  refine ⟨ran.imp fun w' both => both.1, ?_⟩
  constructor
  · intro claims names content file missing large
    obtain ⟨w', run, leaves⟩ := ran
    have exact := claims.2 w' run names content file missing
    rw [leaves names content file missing] at exact
    have same : freshOf self (destDir ++ below names) content = content := by simpa using exact
    have measured := measured_below overlay.destNonempty
      (Unrecorded.ne_nil_of_lacking overlay ⟨⟨content, file⟩, missing⟩)
      fun name member => (FileSystem.proper_below file name member).2.1
    rw [freshOf, if_pos ⟨large, measured⟩] at same
    exact asyncImage_eq_iff.mp same
  · intro covers
    refine ⟨fun w' run => syncLocal_keeps skips overlay.destNonempty run, ?_⟩
    intro w' run names content file missing
    have different : src ≠ dest := by
      rintro rfl
      rw [file] at missing
      cases missing
    have sound : ∀ op choice w', Policy.reliable (fun _ => True) op choice w' →
        Policy.reliable (fun _ => True) op choice w' := fun _ _ _ allowed => allowed
    have scan : Program.Sat (handler (Policy.reliable fun _ => True) True) Interference.free
        (detectChanges self fuel srcDir destDir) (Detected self srcDir destDir src w) w :=
      detected_sat sound overlay.srcFound scannable_true scannable_true
    obtain ⟨tasks, w₁, pool, detected, work, finished, rfl⟩ := phase_of_runs scan run
    obtain ⟨f, there, image⟩ := fetched_all sound skips overlay clean different detected
      (fun _ _ _ => .inl trivial) work finished names ⟨⟨content, file⟩, missing⟩ content file
    rw [there]
    cases image with
    | plain small => rfl
    | cramped amount room short => rfl
    | parallel amount large measured room fits =>
        rw [asyncImage_eq_iff.mpr (covers names content file missing large)]

end

def skipping : FileSync := { managed with conflictStrategy := .skip }

theorem pair_unrecorded : Unrecorded pairFs [[115]] [[100]] where
  source names name exist := pair_site.noRecords names name (.inl exist)
  records names content file := by
    rcases List.eq_nil_or_concat' names with rfl | ⟨init, name, rfl⟩
    · rw [List.append_nil, pair_site.srcIsDir] at file
      cases file
    · rw [suffixed_concat]
      exact (pair_site.record_free init name).2

/-- `/d/a` is skipped, and `/s/b` arrives. -/
theorem syncLocal_skip_pair : ∃ enough, ∀ fuel, enough ≤ fuel →
    (∃ w' : World, Runs skipping fuel (Policy.reliable fun _ => True) [47, 115] [47, 100]
      (World.boot pairFs) (.returned w' : SyncManager 1)) ∧
    (((∀ w' : World, Relation.ReflTransGen (StepUnder skipping fuel sighted.exec)
          (.detecting (detectChanges skipping fuel [47, 115] [47, 100]) (World.boot pairFs))
          (.returned w' : SyncManager 1) → Kept pairFs w'.fs) ∧
      ∀ w' : World, Runs skipping fuel (Policy.reliable fun _ => True) [47, 115] [47, 100]
          (World.boot pairFs) (.returned w' : SyncManager 1) →
        ∀ names content, pairFs.entry ([[115]] ++ names) = some (.file content) →
          pairFs.entry ([[100]] ++ names) = none →
          w'.fs.entry ([[100]] ++ names) = some (.file content)) ↔
    ∀ names content, pairFs.entry ([[115]] ++ names) = some (.file content) →
      pairFs.entry ([[100]] ++ names) = none → skipping.Large content → ChunksCover content) :=
  syncLocal_skip (w := World.boot pairFs) rfl pair_site.trees.overlay pair_unrecorded

/-- `/s/a` holds `content`, and there is no `/d`. -/
def loneFs (content : Bytes) : FileSystem :=
  (FileSystem.empty.put [[115]] (.dir 4096 0o755 0)).put [[115], [97]] (.file content 0o644 1)

/-- A sparse file, its first byte written, of more chunks than a 32-bit count holds. -/
def hugeContent : Bytes := 1 :: List.replicate (2 ^ 31 * ASYNC_CHUNK_SIZE) 0

section

variable {content : Bytes}

theorem loneFs_source : (loneFs content).entry ([[115]] ++ [[97]]) = some (.file content) := rfl

theorem loneFs_below {names : Path} (nonempty : names ≠ [])
    (exist : (loneFs content).entry ([[115]] ++ names) ≠ none) : names = [[97]] := by
  have keys : (loneFs content).nodes.keys = [[[115], [97]], [[115]], []] := rfl
  have member := FileSystem.mem_keys_of_entry exist
  rw [keys] at member
  simpa [nonempty] using member

theorem loneFs_absent (names : Path) : (loneFs content).entry ([[100]] ++ names) = none := by
  have keys : (loneFs content).nodes.keys = [[[115], [97]], [[115]], []] := rfl
  by_contra exist
  have member := FileSystem.mem_keys_of_entry exist
  rw [keys] at member
  simp at member

theorem lone_overlay : Overlay (loneFs content) [47, 115] [47, 100] [[115]] [[100]] where
  srcFound := rfl
  srcIsDir := rfl
  destNonempty := by decide
  destPlace := rfl
  destProper := by decide
  home := rfl
  way := by
    have steps : trail (loneFs content).cwd [47, 100] = [[], [], [[100]]] := rfl
    rw [steps]
    intro p member
    have which : p = [] ∨ p = [[100]] := by simpa using member
    rcases which with rfl | rfl
    · exact .inl rfl
    · exact .inr ⟨loneFs_absent [], List.prefix_rfl⟩
  kinds names _ entry entry' _ there := by
    rw [loneFs_absent] at there
    cases there

theorem lone_unrecorded : Unrecorded (loneFs content) [[115]] [[100]] where
  source names name exist := by
    have only := loneFs_below (by simp) exist
    have last : name = [97] := by simpa using congrArg List.getLast? only
    rw [last]
    decide
  records _ _ _ := loneFs_absent _

end

theorem hugeContent_large : skipping.Large hugeContent := by
  refine ⟨?_, rfl⟩
  rw [hugeContent, List.length_cons, List.length_replicate]
  decide

/-- None of its chunks is counted. -/
theorem hugeContent_uncovered : ¬ ChunksCover hugeContent := by
  intro covers
  have count : chunkCount hugeContent.length = 0 := by
    rw [hugeContent, List.length_cons, List.length_replicate]
    decide +kernel
  have inside : (1 : UInt8) ∈ hugeContent.drop (chunkStart (chunkCount hugeContent.length)) := by
    rw [count, chunkStart, Nat.zero_mul, List.drop_zero, hugeContent]
    exact List.mem_cons_self
  exact absurd (covers 1 inside) (by decide)

/-- Nothing fails, and yet the huge file does not arrive. -/
theorem syncLocal_skip_huge : ∃ (fuel : Nat) (w' : World),
    Runs skipping fuel (Policy.reliable fun _ => True) [47, 115] [47, 100]
      (World.boot (loneFs hugeContent)) (.returned w' : SyncManager 1) ∧
    (loneFs hugeContent).entry ([[115]] ++ [[97]]) = some (.file hugeContent) ∧
    (loneFs hugeContent).entry ([[100]] ++ [[97]]) = none ∧
    w'.fs.entry ([[100]] ++ [[97]]) ≠ some (.file hugeContent) := by
  obtain ⟨bound, scannable⟩ := exists_scannable (loneFs hugeContent)
  obtain ⟨size, -, files⟩ := (loneFs hugeContent).exists_bound
  have enough : ∀ names content, (loneFs hugeContent).entry ([[115]] ++ names) =
      some (.file content) →
      Enough False content.length (bound + size + ASYNC_CHUNK_SIZE + 1) := by
    intro names content file
    have short := files _ content file
    exact enough_of_lt (by omega)
  have skips : skipping.conflictStrategy = .skip := rfl
  obtain ⟨w', run, leaves⟩ := exists_run (w := World.boot (loneFs hugeContent)) skips lone_overlay
    lone_unrecorded (scannable _ (by omega) _) (scannable _ (by omega) _) enough
  refine ⟨_, w', run, loneFs_source, loneFs_absent _, ?_⟩
  rw [leaves [[97]] hugeContent loneFs_source (loneFs_absent _)]
  intro same
  have image : freshOf skipping ([47, 100] ++ below [[97]]) hugeContent = hugeContent := by
    simpa using same
  rw [freshOf, if_pos ⟨hugeContent_large, by decide⟩] at image
  exact hugeContent_uncovered (asyncImage_eq_iff.mp image)

end SyncManager

end SyncTool
