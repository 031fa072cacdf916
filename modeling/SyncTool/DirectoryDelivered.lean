import SyncTool.SkipFrame

set_option autoImplicit false

namespace SyncTool.LinuxFileUtil

open SyncTool.Path FileSync

/-- A path string without `.` and `..` on the way. -/
def Plain (path : Bytes) : Prop := ∀ name ∈ components path, name ≠ dot ∧ name ≠ dotdot

instance (path : Bytes) : Decidable (Plain path) :=
  inferInstanceAs (Decidable (∀ name ∈ components path, _))

/-- Empty names lead nowhere. -/
theorem foldl_enter_plain {names : List Name} (plain : ∀ name ∈ names, name ≠ dot ∧ name ≠ dotdot)
    (here : Path) : ∃ more, names.foldl enter here = here ++ more := by
  induction names generalizing here with
  | nil => exact ⟨[], by simp⟩
  | cons name names ih =>
      obtain ⟨notDot, notDotdot⟩ := plain name List.mem_cons_self
      have rest := ih fun other member => plain other (List.mem_cons_of_mem _ member)
      rw [List.foldl_cons, enter]
      by_cases blank : name = []
      · rw [if_pos (.inl blank)]
        exact rest here
      · rw [if_neg (by tauto), if_neg notDotdot]
        obtain ⟨more, reached⟩ := rest (here ++ [name])
        refine ⟨name :: more, ?_⟩
        rw [reached]
        simp

/-- The prefixes that `createDirectory` goes through name the path and its ancestors. -/
theorem place_of_mem_prefixes {cwd : Path} {path whole : Bytes} (plain : Plain whole)
    (member : path ∈ slashPrefixes [] whole ++ [whole]) (nonempty : path ≠ []) :
    place cwd path <+: place cwd whole := by
  rcases List.mem_append.mp member with before | last
  · obtain ⟨more, split⟩ := mem_slashPrefixes before
    rw [List.nil_append] at split
    subst split
    have later : ∀ name ∈ components more, name ≠ dot ∧ name ≠ dotdot := by
      intro name inMore
      refine plain name ?_
      rw [components_append_slash]
      exact List.mem_append_right _ inMore
    obtain ⟨rest, reached⟩ := foldl_enter_plain later (place cwd path)
    refine ⟨rest, ?_⟩
    show _ = (components (path ++ slash :: more)).foldl enter (origin cwd (path ++ slash :: more))
    rw [components_append_slash, List.foldl_append, origin_append cwd nonempty]
    exact reached.symm
  · rw [List.mem_singleton.mp last]

/-- What is left alone can be walked to as before, if only directories are new. -/
theorem walk_of_kept {fs fs' : FileSystem} {names : List Name} {here p : Path}
    (plain : ∀ name ∈ names, name ≠ dot ∧ name ≠ dotdot)
    (walked : fs'.walk here names = some p) (exist : fs.entry p ≠ none)
    (same : fs'.entry p = fs.entry p) : fs.walk here names = some p := by
  induction names generalizing here with
  | nil => exact walked
  | cons name names ih =>
      obtain ⟨more, reached⟩ := foldl_enter_plain plain here
      rw [← FileSystem.walk_eq_foldl walked] at reached
      have rest := @ih (enter here name) fun other member =>
        plain other (List.mem_cons_of_mem _ member)
      unfold FileSystem.walk at walked ⊢
      split at walked
      · next isDir =>
          have wasDir : fs.entry here = some .dir := by
            by_cases arrived : more = []
            · rw [arrived, List.append_nil] at reached
              rw [← reached, ← same, reached]
              exact isDir
            · rw [reached] at exist
              exact FileSystem.entry_of_append arrived exist
          rw [if_pos wasDir]
          exact rest walked
      · cases walked

theorem resolve_of_kept {fs fs' : FileSystem} {path : Bytes} {p : Path} (plain : Plain path)
    (cwd : fs'.cwd = fs.cwd) (found : fs'.resolve path = some p) (exist : fs.entry p ≠ none)
    (same : fs'.entry p = fs.entry p) : fs.resolve path = some p := by
  unfold FileSystem.resolve at found ⊢
  split at found
  · cases found
  · next nonempty =>
      rw [if_neg nonempty]
      rw [cwd] at found
      exact walk_of_kept plain found exist same

/-- Nothing has changed but that empty directories were made at `top` and on the way to it. -/
structure Raised (top : Path) (w w' : World) : Prop where
  others : w' = { w with fs := w'.fs }
  cwd : w'.fs.cwd = w.fs.cwd
  tree : ∀ q, w'.fs.entry q = w.fs.entry q ∨
    w.fs.entry q = none ∧ w'.fs.entry q = some .dir ∧ q <+: top

theorem Raised.refl (top : Path) (w : World) : Raised top w w := ⟨rfl, rfl, fun _ => .inl rfl⟩

/-- What is in a new directory is new itself. -/
theorem Raised.empty {top q : Path} {name : Name} {w w' : World} (raised : Raised top w w')
    (missing : w.fs.entry q = none) (inside : w'.fs.entry (q ++ [name]) ≠ none) :
    w'.fs.entry (q ++ [name]) = some .dir ∧ q ++ [name] <+: top := by
  rcases raised.tree (q ++ [name]) with same | ⟨-, new⟩
  · rw [same] at inside
    have parent := FileSystem.entry_of_append (List.cons_ne_nil name []) inside
    rw [missing] at parent
    cases parent
  · exact new

theorem Raised.mkdir {top : Path} {w w₁ : World} (raised : Raised top w w₁) {path : Bytes}
    (onWay : place w.fs.cwd path <+: top) (mode : UInt32) (choice : Choice) :
    Raised top w ((Op.mkdir path mode).run choice w₁).2 := by
  simp only [Op.run, World.attempt]
  split
  · split
    · next fs made =>
        obtain ⟨p, found, missing, cwd, tree⟩ := FileSystem.mkdir_effect made
        have here := FileSystem.resolve_eq_place found
        rw [raised.cwd] at here
        refine ⟨?_, cwd.trans raised.cwd, fun q => ?_⟩
        · show ({ w₁ with fs := fs } : World) = _
          rw [raised.others]
        · show fs.entry q = w.fs.entry q ∨ _ ∧ fs.entry q = some .dir ∧ _
          rw [tree]
          by_cases same : q = p
          · subst same
            rw [Function.update_self]
            right
            refine ⟨?_, rfl, here ▸ onWay⟩
            rcases raised.tree q with same | ⟨-, isDir, -⟩
            · rw [← same, missing]
            · rw [missing] at isDir
              cases isDir
          · rw [Function.update_of_ne same]
            exact raised.tree q
    · exact raised
  · exact raised

section

variable {w : World} {path : Bytes} {mode : UInt32}

theorem createDirectory_raised (plain : Plain path) :
    Program.Sat (handler (fun _ _ _ => True) True) .free (createDirectory path mode)
      (fun _ w' => Raised (place w.fs.cwd path) w w') w := by
  have calls : (createDirectory path mode).All fun op => (∃ other, op = .stat other) ∨
      ∃ other ∈ slashPrefixes [] path ++ [path], other ≠ [] ∧ op = .mkdir other mode := by
    apply createEach_all
    · exact fun other => .inl ⟨other, rfl⟩
    · exact fun other member nonempty => .inr ⟨other, member, nonempty, rfl⟩
  apply calls.sat (fun w' => Raised (place w.fs.cwd path) w w') (.refl _ w)
  · rintro w₁ w₂ rfl raised
    exact raised
  · intro op w₁ answer w₂ asked raised ran
    obtain ⟨choice, -, ran⟩ := ran
    refine ⟨trivial, ?_⟩
    rcases asked with ⟨other, rfl⟩ | ⟨other, member, nonempty, rfl⟩
    · cases ran
      exact raised
    · have more := raised.mkdir (place_of_mem_prefixes plain member nonempty) mode choice
      rwa [ran] at more
  · trivial

/-- What is said of a call that has returned: the path and its ancestors name directories if it
says so, and nothing has changed but that missing ones were made, with nothing else in them. -/
structure DirectoryDelivered (path : Bytes) (w : World) (made : Bool) (w' : World) : Prop where
  raised : Raised (place w.fs.cwd path) w w'
  empty : ∀ q name, w.fs.entry q = none → w'.fs.entry (q ++ [name]) ≠ none →
    w'.fs.entry (q ++ [name]) = some .dir ∧ q ++ [name] <+: place w.fs.cwd path
  there : made = true → w'.fs.resolve path = some (place w.fs.cwd path) ∧
    ∀ q, q <+: place w.fs.cwd path → w'.fs.entry q = some .dir

/-- That holds of every run, however its `mkdir`s fail. -/
def Delivers (path : Bytes) (mode : UInt32) (w : World) : Prop :=
  ∀ made w', Program.Reach (handler (fun _ _ _ => True) False).exec Eq (createDirectory path mode) w
    (.done made) w' → DirectoryDelivered path w made w'

theorem createDirectory_present_run (exist : w.fs.stat path ≠ none) (mode : UInt32) :
    Program.Reach (handler (fun _ _ _ => True) False).exec Eq (createDirectory path mode) w
      (.done true) w := by
  have present :
      Program.Sat (handler (fun _ _ _ => True) False) .free (createDirectory path mode) _ w :=
    createDirectory_present (fun _ _ same => Eq.symm same) exist mode
  obtain ⟨made, w', run, rfl, rfl⟩ :=
    (present.returns id fun op s => ⟨_, _, ⟨0, .none, none, []⟩, trivial, rfl⟩).exists_run
  exact run

/-- Where a regular file is in the place of the directory, it is reported as made. -/
theorem not_delivers {content : Bytes} (read : w.fs.read path = some content) (mode : UInt32) :
    ¬ Delivers path mode w := by
  intro delivers
  obtain ⟨p, found, here⟩ := FileSystem.read_eq_some.mp read
  have exist : w.fs.stat path ≠ none := FileSystem.stat_ne_none.mpr ⟨p, found, by simp [here]⟩
  have isDir := ((delivers true w (createDirectory_present_run exist mode)).there rfl).2 _
    List.prefix_rfl
  rw [← FileSystem.resolve_eq_place found, here] at isDir
  cases isDir

theorem entry_of_raised {w' : World} (plain : Plain path) (free : w.fs.read path = none)
    (raised : Raised (place w.fs.cwd path) w w') (exist : w'.fs.stat path ≠ none) :
    w'.fs.resolve path = some (place w.fs.cwd path) ∧
      w'.fs.entry (place w.fs.cwd path) = some .dir := by
  obtain ⟨p, found, occupied⟩ := FileSystem.stat_ne_none.mp exist
  have here := FileSystem.resolve_eq_place found
  rw [raised.cwd] at here
  subst here
  refine ⟨found, ?_⟩
  by_contra notDir
  rcases raised.tree (place w.fs.cwd path) with same | ⟨-, isDir, -⟩
  · -- a file that was there before: it is the one that could not be read
    have before : w.fs.entry (place w.fs.cwd path) ≠ none := same ▸ occupied
    have foundBefore := resolve_of_kept plain raised.cwd found before same
    have file := FileSystem.entry_of_notDir notDir
    cases content : w'.fs.contentAt (place w.fs.cwd path) with
    | none => exact occupied (by rw [file, content, Option.map_none])
    | some content' =>
        have read : w.fs.read path = some content' := by
          apply FileSystem.read_eq_some.mpr
          refine ⟨_, foundBefore, ?_⟩
          rw [← same, file, content, Option.map_some]
        rw [free] at read
        cases read
  · exact notDir isDir

/-- `createDirectory` delivers a directory, whatever `mkdir` does, exactly if its path does not name
a regular file. -/
theorem createDirectory_delivers_iff (nonempty : path ≠ []) (plain : Plain path) (mode : UInt32) :
    Delivers path mode w ↔ w.fs.read path = none := by
  constructor
  · intro delivers
    by_contra file
    obtain ⟨content, read⟩ := Option.ne_none_iff_exists'.mp file
    exact not_delivers read mode delivers
  · intro free made w' run
    have raised : Raised (place w.fs.cwd path) w w' :=
      (createDirectory_raised plain).returned run
    refine ⟨raised, fun q name missing inside => raised.empty missing inside, ?_⟩
    intro right
    have kept :
        Program.Sat (handler (fun _ _ _ => True) True) (keeping w.fs)
          (createDirectory path mode) _ w :=
      (createDirectory_keeps path mode).restrict
        (fun op s answer s' ⟨choice, _, ran⟩ => .inl ⟨choice, ran⟩) id
    have exist := (kept.returned run).2 right nonempty
    obtain ⟨found, isDir⟩ := entry_of_raised plain free raised exist
    refine ⟨found, fun q onWay => ?_⟩
    obtain ⟨rest, whole⟩ := onWay
    by_cases last : rest = []
    · rw [last, List.append_nil] at whole
      rw [whole, isDir]
    · exact FileSystem.entry_of_append last (by rw [whole, isDir]; exact Option.some_ne_none _)

end

/-- `/f` is a regular file. -/
def occupiedFs : FileSystem := FileSystem.empty.put [[102]] (.file [120] 0o644 0)

theorem createDirectory_delivers_free : Delivers [47, 47, 100, 47] 0o755 (World.boot occupiedFs) :=
  (createDirectory_delivers_iff (List.cons_ne_nil _ _) (by decide +kernel) 0o755).mpr
    (by decide +kernel)

/-- The file is taken for the directory. -/
theorem createDirectory_occupied : ¬ Delivers [47, 102] 0o755 (World.boot occupiedFs) :=
  @not_delivers _ _ [120] (by decide +kernel) 0o755

end SyncTool.LinuxFileUtil
