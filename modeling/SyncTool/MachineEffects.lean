import SyncTool.Machine

set_option autoImplicit false

namespace SyncTool

open SyncTool.Path

namespace World

/-- Nothing differs but the entry at one place and what an open stream holds back from it. -/
structure Change (p : Path) (entry : Option Entry) (held : Bytes) (w w' : World) : Prop where
  cwd : w'.fs.cwd = w.fs.cwd
  tree : w'.fs.entry = Function.update w.fs.entry p entry
  pending : w'.pending = Function.update w.pending p held
  shared : w'.shared = w.shared

/-- Neither the tree, nor the open streams, nor the shared memory differ. -/
structure Same (w w' : World) : Prop where
  cwd : w'.fs.cwd = w.fs.cwd
  tree : w'.fs.entry = w.fs.entry
  pending : w'.pending = w.pending
  shared : w'.shared = w.shared

theorem Same.refl (w : World) : Same w w := ⟨rfl, rfl, rfl, rfl⟩

variable {w w' : World} {p : Path} {entry : Option Entry} {held : Bytes}

@[simp] theorem Change.entry_self (change : Change p entry held w w') : w'.fs.entry p = entry := by
  rw [change.tree, Function.update_self]

theorem Change.entry_ne (change : Change p entry held w w') {q : Path} (other : q ≠ p) :
    w'.fs.entry q = w.fs.entry q := by
  rw [change.tree, Function.update_of_ne other]

theorem Change.pending_self (change : Change p entry held w w') : w'.pending p = held := by
  rw [change.pending, Function.update_self]

theorem Change.pending_ne (change : Change p entry held w w') {q : Path} (other : q ≠ p) :
    w'.pending q = w.pending q := by
  rw [change.pending, Function.update_of_ne other]

theorem Change.dirsKept (change : Change p entry held w w')
    (free : w.fs.entry p = some .dir → entry = some .dir) : FileSystem.DirsKept w.fs w'.fs :=
  FileSystem.dirsKept_of_update change.cwd change.tree free

theorem Same.dirsKept (same : Same w w') : FileSystem.DirsKept w.fs w'.fs :=
  ⟨same.cwd, fun q isDir => by rw [same.tree, isDir]⟩

end World

section Effects

open World

variable {w : World} {choice : Choice} {path : Bytes} {p : Path}

theorem run_mkdir_free (ok : choice.fault = .none) (found : w.fs.resolve path = some p)
    (missing : w.fs.entry p = none) (proper : ∀ name ∈ p, ProperName name) (mode : UInt32) :
    ((Op.mkdir path mode).run choice w).1 = true ∧
      Change p (some .dir) (w.pending p) w ((Op.mkdir path mode).run choice w).2 := by
  obtain ⟨fs, made⟩ := Option.isSome_iff_exists.mp
    (FileSystem.mkdir_of_free found missing proper mode choice.time)
  obtain ⟨q, foundAgain, -, cwd, tree⟩ := FileSystem.mkdir_effect made
  have same : p = q := Option.some.inj (found.symm.trans foundAgain)
  subst same
  simp only [Op.run, World.attempt, ok, made, ↓reduceIte]
  exact ⟨trivial, cwd, tree, by simp, rfl⟩

theorem run_openOut (ok : choice.fault = .none) (found : w.fs.resolve path = some p)
    (notDir : w.fs.entry p ≠ some .dir) (proper : ∀ name ∈ p, ProperName name) (append : Bool) :
    ((Op.openOut path append).run choice w).1 = true ∧
      Change p (some (.file (if append then (w.fs.contentAt p).getD [] else []))) [] w
        ((Op.openOut path append).run choice w).2 := by
  have opens : (w.fs.open_ path (if append then .append else .trunc) true 0o666
      choice.time).isSome := by
    cases here : w.fs.entry p with
    | none => exact FileSystem.open_of_free found here proper _ _ _
    | some entry =>
        cases entry with
        | dir => exact absurd here notDir
        | file content => exact FileSystem.open_of_file found here _ _ _ _
  obtain ⟨fs, opened⟩ := Option.isSome_iff_exists.mp opens
  obtain ⟨q, foundAgain, -, cwd, tree⟩ := FileSystem.open_effect opened
  have same : p = q := Option.some.inj (found.symm.trans foundAgain)
  subst same
  have kept : FileSystem.DirsKept w.fs fs :=
    FileSystem.dirsKept_of_update cwd tree fun isDir => absurd isDir notDir
  simp only [Op.run, World.attempt, ok, opened, ↓reduceIte, World.fresh, kept.resolve found]
  refine ⟨trivial, cwd, ?_, rfl, rfl⟩
  cases append <;> simpa using tree

theorem run_openFd (ok : choice.fault = .none) (found : w.fs.resolve path = some p)
    (notDir : w.fs.entry p ≠ some .dir) (proper : ∀ name ∈ p, ProperName name)
    (how : FileSystem.Mode) :
    ((Op.openFd path how true).run choice w).1 = true ∧
      Change p (some (.file (if how = .trunc then [] else (w.fs.contentAt p).getD [])))
        (w.pending p) w ((Op.openFd path how true).run choice w).2 := by
  have opens : (w.fs.open_ path how true 0o644 choice.time).isSome := by
    cases here : w.fs.entry p with
    | none => exact FileSystem.open_of_free found here proper _ _ _
    | some entry =>
        cases entry with
        | dir => exact absurd here notDir
        | file content => exact FileSystem.open_of_file found here _ _ _ _
  obtain ⟨fs, opened⟩ := Option.isSome_iff_exists.mp opens
  obtain ⟨q, foundAgain, -, cwd, tree⟩ := FileSystem.open_effect opened
  have same : p = q := Option.some.inj (found.symm.trans foundAgain)
  subst same
  simp only [Op.run, World.attempt, ok, opened, ↓reduceIte]
  exact ⟨trivial, cwd, tree, by simp, rfl⟩

/-- A flush moves a prefix of what is held back and of the new data to the file. -/
theorem flush_effect (ok : choice.fault = .none) (found : w.fs.resolve path = some p)
    {content : Bytes} (file : w.fs.entry p = some (.file content)) (data : Bytes) :
    (w.flush choice path data).1 = true ∧ ∃ through held,
      through ++ held = w.pending p ++ data ∧ (choice.count = none → held = []) ∧
      Change p (some (.file (content ++ through))) held w (w.flush choice path data).2 := by
  obtain ⟨fs, edited⟩ := Option.isSome_iff_exists.mp (FileSystem.edit_of_file found file
    (· ++ (w.pending p ++ data).take (choice.limit (w.pending p ++ data).length)) choice.time)
  obtain ⟨q, old, foundAgain, here, cwd, tree⟩ := FileSystem.edit_effect edited
  have same : p = q := Option.some.inj (found.symm.trans foundAgain)
  subst same
  have content_eq : content = old := by
    rw [file] at here
    cases here
    rfl
  subst content_eq
  simp only [World.flush, found, edited, ok, ↓reduceIte]
  refine ⟨trivial, _, _, List.take_append_drop _ _, ?_, cwd, tree, rfl, rfl⟩
  intro all
  simp [Choice.limit, all]

/-- Whether or not it succeeds, opening a stream leaves a file there or everything as it is. -/
theorem run_openOut_touches (found : w.fs.resolve path = some p) (append : Bool) :
    ((Op.openOut path append).run choice w).2 = w ∨ ∃ content,
      Change p (some (.file content)) [] w ((Op.openOut path append).run choice w).2 := by
  by_cases ok : choice.fault = .none
  · cases opened : w.fs.open_ path (if append then .append else .trunc) true 0o666 choice.time with
    | none => exact .inl (by simp [Op.run, World.attempt, opened])
    | some fs =>
        obtain ⟨q, foundAgain, notDir, cwd, tree⟩ := FileSystem.open_effect opened
        have same : p = q := Option.some.inj (found.symm.trans foundAgain)
        subst same
        have kept : FileSystem.DirsKept w.fs fs :=
          FileSystem.dirsKept_of_update cwd tree fun isDir => absurd isDir notDir
        simp only [Op.run, World.attempt, ok, opened, ↓reduceIte, World.fresh, kept.resolve found]
        exact .inr ⟨_, cwd, tree, rfl, rfl⟩
  · exact .inl (by simp [Op.run, World.attempt, ok])

/-- The same of a flush. -/
theorem flush_touches (found : w.fs.resolve path = some p) (data : Bytes) :
    (w.flush choice path data).2 = w ∨ ∃ content held,
      Change p (some (.file content)) held w (w.flush choice path data).2 := by
  simp only [World.flush, found]
  cases edited : w.fs.edit path
      (· ++ (w.pending p ++ data).take (choice.limit (w.pending p ++ data).length)) choice.time with
  | none => exact .inl rfl
  | some fs =>
      obtain ⟨q, old, foundAgain, -, cwd, tree⟩ := FileSystem.edit_effect edited
      have same : p = q := Option.some.inj (found.symm.trans foundAgain)
      subst same
      right
      by_cases ok : choice.fault = .none
      · simp only [ok, ↓reduceIte]
        exact ⟨_, _, cwd, tree, rfl, rfl⟩
      · simp only [ok, ↓reduceIte]
        exact ⟨_, _, cwd, tree, rfl, rfl⟩

theorem run_remove_file (ok : choice.fault = .none) (found : w.fs.resolve path = some p)
    {content : Bytes} (file : w.fs.entry p = some (.file content)) :
    ((Op.remove path).run choice w).1 = true ∧
      Change p none (w.pending p) w ((Op.remove path).run choice w).2 := by
  obtain ⟨fs, removed⟩ := Option.isSome_iff_exists.mp
    (FileSystem.remove_of_file found file choice.time)
  obtain ⟨q, foundAgain, -, -, cwd, tree⟩ := FileSystem.remove_effect removed
  have same : p = q := Option.some.inj (found.symm.trans foundAgain)
  subst same
  simp only [Op.run, World.attempt, ok, removed, ↓reduceIte]
  exact ⟨trivial, cwd, tree, by simp, rfl⟩

theorem run_remove_missing (found : w.fs.resolve path = some p) (missing : w.fs.entry p = none) :
    (Op.remove path).run choice w = (false, w) := by
  simp [Op.run, World.attempt, FileSystem.remove, found, missing]

theorem edit_change (change : Bytes → Bytes) {content : Bytes}
    (found : w.fs.resolve path = some p) (file : w.fs.entry p = some (.file content)) (time : Int) :
    ∃ fs, w.fs.edit path change time = some fs ∧
      Change p (some (.file (change content))) (w.pending p) w { w with fs := fs } := by
  obtain ⟨fs, edited⟩ := Option.isSome_iff_exists.mp
    (FileSystem.edit_of_file found file change time)
  obtain ⟨q, old, foundAgain, here, cwd, tree⟩ := FileSystem.edit_effect edited
  have same : p = q := Option.some.inj (found.symm.trans foundAgain)
  subst same
  have content_eq : content = old := by
    rw [file] at here
    cases here
    rfl
  subst content_eq
  exact ⟨fs, edited, cwd, tree, by simp, rfl⟩

theorem run_ftruncate (ok : choice.fault = .none) (found : w.fs.resolve path = some p)
    {content : Bytes} (file : w.fs.entry p = some (.file content)) (size : Nat) :
    ((Op.ftruncate path size).run choice w).1 = true ∧
      Change p (some (.file (resize content size))) (w.pending p) w
        ((Op.ftruncate path size).run choice w).2 := by
  obtain ⟨fs, edited, change⟩ := edit_change (resize · size) found file choice.time
  simp only [Op.run, World.attempt, ok, edited, ↓reduceIte]
  exact ⟨trivial, change⟩

theorem run_pwrite (ok : choice.fault = .none) (found : w.fs.resolve path = some p)
    {content : Bytes} (file : w.fs.entry p = some (.file content)) (pos : Nat) (data : Bytes) :
    ((Op.pwrite path pos data).run choice w).1 = .ok (choice.limit data.length) ∧
      Change p (some (.file (splice content pos (data.take (choice.limit data.length)))))
        (w.pending p) w ((Op.pwrite path pos data).run choice w).2 := by
  obtain ⟨fs, edited, change⟩ := edit_change
    (splice · pos (data.take (choice.limit data.length))) found file choice.time
  simp only [Op.run, ok, edited]
  exact ⟨trivial, change⟩

/-- Whether or not it succeeds, `pwrite` changes nothing or does what it says. -/
theorem run_pwrite_cases (found : w.fs.resolve path = some p) {content : Bytes}
    (file : w.fs.entry p = some (.file content)) (pos : Nat) (data : Bytes) :
    (Op.pwrite path pos data).run choice w = (.eintr, w) ∨
      (Op.pwrite path pos data).run choice w = (.error, w) ∨ ∃ n, n ≤ data.length ∧
        ((Op.pwrite path pos data).run choice w).1 = .ok n ∧
        Change p (some (.file (splice content pos (data.take n)))) (w.pending p) w
          ((Op.pwrite path pos data).run choice w).2 := by
  cases fault : choice.fault with
  | none => exact .inr (.inr ⟨_, choice.limit_le _, run_pwrite fault found file pos data⟩)
  | eintr => exact .inl (by simp only [Op.run, fault])
  | error => exact .inr (.inl (by simp only [Op.run, fault]))

theorem run_pread_cases (path : Bytes) (pos count : Nat) :
    (Op.pread path pos count).run choice w = (.eintr, w) ∨
      (Op.pread path pos count).run choice w = (.error, w) ∨ ∃ n,
        (Op.pread path pos count).run choice w =
          (.ok ((slice ((w.fs.read path).getD []) pos count).take n), w) := by
  cases fault : choice.fault with
  | none => exact .inr (.inr ⟨_, by simp only [Op.run, fault]; rfl⟩)
  | eintr => exact .inl (by simp only [Op.run, fault])
  | error => exact .inr (.inl (by simp only [Op.run, fault]))

theorem run_chmod_same (path : Bytes) (mode : UInt32) :
    Same w ((Op.chmod path mode).run choice w).2 := by
  simp only [Op.run, World.attempt]
  split
  · split
    · rename_i fs changed
      obtain ⟨cwd, tree⟩ := FileSystem.chmod_effect changed
      exact ⟨cwd, tree, rfl, rfl⟩
    · exact .refl w
  · exact .refl w

theorem run_chmod_true (ok : choice.fault = .none) (found : w.fs.resolve path = some p)
    (exist : w.fs.entry p ≠ none) (mode : UInt32) :
    ((Op.chmod path mode).run choice w).1 = true := by
  obtain ⟨fs, changed⟩ := Option.isSome_iff_exists.mp
    (FileSystem.chmod_of_exist found exist mode)
  simp only [Op.run, World.attempt, ok, changed, ↓reduceIte]

end Effects

/-- What a piece of work has to itself, what it only reads, and the places where anybody may
make a directory. -/
structure Estate where
  writes : Set Path
  reads : Set Path
  grows : Set Path
  keys : Set Bytes
  unwritten : ∀ p ∈ grows, p ∉ writes
  unread : ∀ p ∈ grows, p ∉ reads
  proper : ∀ p ∈ grows, ∀ name ∈ p, ProperName name

namespace Estate

open FileSystem

variable (e : Estate)

/-- What others may do meanwhile. -/
structure Rely (w w' : World) : Prop where
  dirs : DirsKept w.fs w'.fs
  writes : ∀ p ∈ e.writes, w'.fs.entry p = w.fs.entry p
  pending : ∀ p ∈ e.writes, w'.pending p = w.pending p
  reads : ∀ p ∈ e.reads, w'.fs.entry p = w.fs.entry p
  grows : ∀ p ∈ e.grows, w.fs.entry p = none →
    w'.fs.entry p = none ∨ w'.fs.entry p = some .dir
  keys : ∀ key ∈ e.keys, w'.shared key = w.shared key

/-- What the work itself does. -/
structure Guar (w w' : World) : Prop where
  dirs : DirsKept w.fs w'.fs
  tree : ∀ p ∉ e.writes, w'.fs.entry p = w.fs.entry p ∨
    p ∈ e.grows ∧ w.fs.entry p = none ∧ w'.fs.entry p = some .dir
  pending : ∀ p ∉ e.writes, w'.pending p = w.pending p
  keys : ∀ key ∉ e.keys, w'.shared key = w.shared key

theorem Rely.refl (w : World) : e.Rely w w :=
  ⟨.refl _, fun _ _ => rfl, fun _ _ => rfl, fun _ _ => rfl, fun _ _ h => .inl h, fun _ _ => rfl⟩

theorem Guar.refl (w : World) : e.Guar w w :=
  ⟨.refl _, fun _ _ => .inl rfl, fun _ _ => rfl, fun _ _ => rfl⟩

theorem Rely.trans {w₁ w₂ w₃ : World} (first : e.Rely w₁ w₂) (second : e.Rely w₂ w₃) :
    e.Rely w₁ w₃ where
  dirs := first.dirs.trans second.dirs
  writes p member := (second.writes p member).trans (first.writes p member)
  pending p member := (second.pending p member).trans (first.pending p member)
  reads p member := (second.reads p member).trans (first.reads p member)
  grows p member missing := by
    rcases first.grows p member missing with still | isDir
    · exact second.grows p member still
    · exact .inr (second.dirs.2 p isDir)
  keys key member := (second.keys key member).trans (first.keys key member)

def interference : Interference World where
  rely := e.Rely
  guar := e.Guar
  rely_refl := Rely.refl e
  rely_trans _ _ _ := Rely.trans e
  guar_refl := Guar.refl e

variable {e} {w w' : World} {p : Path} {entry : Option Entry} {held : Bytes}

theorem guar_of_change (change : World.Change p entry held w w') (own : p ∈ e.writes)
    (free : w.fs.entry p = some .dir → entry = some .dir) : e.Guar w w' where
  dirs := change.dirsKept free
  tree q other := .inl (change.entry_ne fun same => other (same ▸ own))
  pending q other := change.pending_ne fun same => other (same ▸ own)
  keys _ _ := by rw [change.shared]

theorem guar_of_same (same : World.Same w w') : e.Guar w w' where
  dirs := same.dirsKept
  tree _ _ := .inl (by rw [same.tree])
  pending _ _ := by rw [same.pending]
  keys _ _ := by rw [same.shared]

/-- A change of one's own counters. -/
theorem guar_of_key {key : Bytes} (own : key ∈ e.keys) (fs : w'.fs = w.fs)
    (pending : w'.pending = w.pending)
    (others : ∀ other, other ≠ key → w'.shared other = w.shared other) : e.Guar w w' where
  dirs := by rw [fs]; exact .refl _
  tree _ _ := .inl (by rw [fs])
  pending _ _ := by rw [pending]
  keys other notMine := others other fun same => notMine (same ▸ own)

/-- A directory is there, or anybody may make it. -/
def Open (e : Estate) (w : World) (p : Path) : Prop :=
  w.fs.entry p = some .dir ∨ p ∈ e.grows ∧ w.fs.entry p = none

theorem Open.rely (here : e.Open w p) (drift : e.Rely w w') : e.Open w' p := by
  rcases here with isDir | ⟨mine, missing⟩
  · exact .inl (drift.dirs.2 p isDir)
  · rcases drift.grows p mine missing with still | isDir
    · exact .inr ⟨mine, still⟩
    · exact .inl isDir

/-- A directory made at such a place disturbs nobody. -/
theorem rely_of_grow (change : World.Change p (some .dir) (w.pending p) w w') (mine : p ∈ e.grows) :
    e.Rely w w' where
  dirs := change.dirsKept fun _ => rfl
  writes q own := change.entry_ne fun same => e.unwritten p mine (same ▸ own)
  pending q own := change.pending_ne fun same => e.unwritten p mine (same ▸ own)
  reads q own := change.entry_ne fun same => e.unread p mine (same ▸ own)
  grows q _ missing := by
    by_cases same : q = p
    · subst same
      exact .inr change.entry_self
    · exact .inl ((change.entry_ne same).trans missing)
  keys _ _ := by rw [change.shared]

/-- A directory made at a place where anybody may make one. -/
theorem guar_of_grow (change : World.Change p (some .dir) (w.pending p) w w') (mine : p ∈ e.grows)
    (missing : w.fs.entry p = none) : e.Guar w w' where
  dirs := change.dirsKept fun _ => rfl
  tree q _ := by
    by_cases same : q = p
    · subst same
      exact .inr ⟨mine, missing, change.entry_self⟩
    · exact .inl (change.entry_ne same)
  pending q _ := by
    by_cases same : q = p
    · subst same
      exact change.pending_self
    · exact change.pending_ne same
  keys _ _ := by rw [change.shared]

/-- The same work while it makes directories: it writes no file yet. -/
def quiet (e : Estate) : Estate where
  writes := ∅
  reads := e.writes ∪ e.reads
  grows := e.grows
  keys := ∅
  unwritten _ _ := id
  unread p mine other := other.elim (e.unwritten p mine) (e.unread p mine)
  proper := e.proper

theorem interference_le_quiet (e : Estate) : e.interference.Le e.quiet.interference := by
  refine ⟨fun w w' drift => ?_, fun w w' did => ?_⟩
  · exact {
      dirs := drift.dirs
      writes := fun _ impossible => impossible.elim
      pending := fun _ impossible => impossible.elim
      reads := fun p member => member.elim (drift.writes p) (drift.reads p)
      grows := drift.grows
      keys := fun _ impossible => impossible.elim }
  · exact {
      dirs := did.dirs
      tree := fun p _ => did.tree p id
      pending := fun p _ => did.pending p id
      keys := fun key _ => did.keys key id }

/-- Making directories disturbs nobody. -/
theorem quiet_rely (did : e.quiet.Guar w w') : e.quiet.Rely w w' where
  dirs := did.dirs
  writes _ impossible := impossible.elim
  pending _ impossible := impossible.elim
  reads p member := by
    rcases did.tree p id with same | ⟨mine, -, -⟩
    · exact same
    · exact absurd member (e.quiet.unread p mine)
  grows p mine missing := by
    rcases did.tree p id with same | ⟨-, -, isDir⟩
    · exact .inl (same.trans missing)
    · exact .inr isDir
  keys _ impossible := impossible.elim

/-- Two pieces of work that do not touch each other's places. -/
structure Apart (e₁ e₂ : Estate) : Prop where
  writes : ∀ p ∈ e₁.writes, p ∉ e₂.writes ∧ p ∉ e₂.reads ∧ p ∉ e₂.grows
  grows : ∀ p ∈ e₁.grows, p ∉ e₂.writes ∧ p ∉ e₂.reads
  keys : ∀ key ∈ e₁.keys, key ∉ e₂.keys

theorem Guar.rely {e₁ e₂ : Estate} (apart : Apart e₁ e₂) (did : e₁.Guar w w') : e₂.Rely w w' where
  dirs := did.dirs
  writes p mine := by
    rcases did.tree p fun member => (apart.writes p member).1 mine with same | ⟨grow, -, -⟩
    · exact same
    · exact absurd mine (apart.grows p grow).1
  pending p mine := did.pending p fun member => (apart.writes p member).1 mine
  reads p mine := by
    rcases did.tree p fun member => (apart.writes p member).2.1 mine with same | ⟨grow, -, -⟩
    · exact same
    · exact absurd mine (apart.grows p grow).2
  grows p mine missing := by
    rcases did.tree p fun member => (apart.writes p member).2.2 mine with same | ⟨-, -, isDir⟩
    · exact .inl (same.trans missing)
    · exact .inr isDir
  keys key mine := did.keys key fun member => apart.keys key member mine

end Estate

end SyncTool
