import SyncTool.SyncFileFailure

set_option autoImplicit false

namespace SyncTool

open SyncTool.Path LinuxFileUtil

namespace FileSystem

/-- What is at a place, and its mode. -/
def seen (fs : FileSystem) (q : Path) : Option (Entry × UInt32) :=
  (fs.lookup q).map fun node => (node.entry, node.st_mode)

section

variable {fs fs' : FileSystem} {p q : Path} {path : Bytes} {time : Int}

@[simp] theorem seen_put (other : q ≠ p) (node : Node) : (fs.put p node).seen q = fs.seen q := by
  by_cases ok : fs.Accepts p node
  · rw [seen, lookup_put ok, if_neg other, seen]
  · rw [put, dif_neg ok]

/-- The time of a directory is not looked at. -/
@[simp] theorem seen_touch : (fs.touch p time).seen q = fs.seen q := by
  by_cases here : q = p
  · subst here
    unfold touch
    split
    · next size perm mtime found =>
        rw [seen, lookup_put (accepts_of_lookup found fun _ => rfl), if_pos rfl, seen, found]
        rfl
    · rfl
  · rw [seen, lookup_touch fs here, seen]

@[simp] theorem seen_erase (other : q ≠ p) : (fs.erase p).seen q = fs.seen q := by
  by_cases ok : p ≠ [] ∧ fs.Childless p
  · rw [seen, lookup_erase ok.1 ok.2, if_neg other, seen]
  · rw [erase, dif_neg ok]

/-- A place that is not what a path string denotes is not where the string resolves to. -/
theorem ne_of_resolve (found : fs.resolve path = some p) (other : place fs.cwd path ≠ q) :
    q ≠ p := by
  intro same
  apply other
  rw [same, resolve_eq_place found]

theorem mkdir_seen {mode : UInt32} (made : fs.mkdir path mode time = some fs')
    (other : place fs.cwd path ≠ q) : fs'.seen q = fs.seen q := by
  unfold mkdir at made
  split at made
  · cases made
  · next p found =>
      split at made
      · cases made
        have ne := ne_of_resolve found other
        simp [ne]
      · cases made

theorem open_seen {how : Mode} {create : Bool} {perm : UInt32}
    (opened : fs.open_ path how create perm time = some fs') (other : place fs.cwd path ≠ q) :
    fs'.seen q = fs.seen q := by
  unfold open_ at opened
  split at opened
  · cases opened
  · next p found =>
      have ne := ne_of_resolve found other
      split at opened
      · cases opened
      · split at opened <;> cases opened
        · simp [ne]
        · rfl
      · split at opened <;> cases opened
        simp [ne]

theorem edit_seen {change : Bytes → Bytes} (edited : fs.edit path change time = some fs')
    (other : place fs.cwd path ≠ q) : fs'.seen q = fs.seen q := by
  unfold edit at edited
  split at edited
  · cases edited
  · next p found =>
      have ne := ne_of_resolve found other
      split at edited <;> cases edited
      simp [ne]

theorem chmod_seen {mode : UInt32} (changed : fs.chmod path mode = some fs')
    (other : place fs.cwd path ≠ q) : fs'.seen q = fs.seen q := by
  unfold chmod at changed
  split at changed
  · cases changed
  · next p found =>
      have ne := ne_of_resolve found other
      split at changed <;> cases changed
      simp [ne]

theorem remove_seen (removed : fs.remove path time = some fs') (other : place fs.cwd path ≠ q) :
    fs'.seen q = fs.seen q := by
  unfold remove at removed
  split at removed
  · cases removed
  · next p found =>
      have ne := ne_of_resolve found other
      split at removed <;> cases removed
      simp [ne]

theorem rename_seen {new : Bytes} (renamed : fs.rename path new time = some fs')
    (other : place fs.cwd path ≠ q) (apart : place fs.cwd new ≠ q) : fs'.seen q = fs.seen q := by
  unfold rename at renamed
  split at renamed
  · next p p' found found' =>
      have ne := ne_of_resolve found other
      have ne' := ne_of_resolve found' apart
      split at renamed
      · cases renamed
      · split at renamed
        · cases renamed
          rfl
        · split at renamed <;> cases renamed
          simp [ne, ne']
      · cases renamed
  · cases renamed

end

end FileSystem

section

open FileSystem

variable {w : World} {choice : Choice} {q : Path}

theorem attempt_seen {result : Option FileSystem}
    (each : ∀ fs, result = some fs → fs.seen q = w.fs.seen q) :
    (w.attempt choice result).2.fs.seen q = w.fs.seen q := by
  unfold World.attempt
  split
  · split
    · exact each _ rfl
    · rfl
  · rfl

theorem flush_seen {path : Bytes} (other : place w.fs.cwd path ≠ q) (data : Bytes) :
    (w.flush choice path data).2.fs.seen q = w.fs.seen q := by
  unfold World.flush
  split
  · rfl
  · simp only
    split
    · rfl
    · next fs edited => split <;> exact edit_seen edited other

/-- However a call ends, what it does not mark looks as before. -/
theorem run_seen (op : Op) (choice : Choice) (w : World)
    (others : ∀ path ∈ op.marks, place w.fs.cwd path ≠ q) :
    (op.run choice w).2.fs.seen q = w.fs.seen q := by
  cases op with
  | mkdir path mode =>
      exact attempt_seen fun fs made =>
        mkdir_seen made (others path (by simp [Op.marks, Op.writes]))
  | chmod path mode =>
      exact attempt_seen fun fs changed => chmod_seen changed (others path (by simp [Op.marks]))
  | remove path =>
      exact attempt_seen fun fs removed =>
        remove_seen removed (others path (by simp [Op.marks, Op.writes]))
  | rename old new =>
      exact attempt_seen fun fs renamed =>
        rename_seen renamed (others old (by simp [Op.marks, Op.writes]))
          (others new (by simp [Op.marks, Op.writes]))
  | openOut path append =>
      have opened := @attempt_seen w choice q (w.fs.open_ path
        (if append then .append else .trunc) true 0o666 choice.time)
        fun fs opened => open_seen opened (others path (by simp [Op.marks, Op.writes]))
      simp only [Op.run]
      generalize w.attempt choice (w.fs.open_ path (if append then .append else .trunc) true 0o666
        choice.time) = result at opened
      split
      · rw [fresh_fs]
        exact opened
      · exact opened
  | put path data => exact flush_seen (others path (by simp [Op.marks, Op.writes])) data
  | closeOut path => exact flush_seen (others path (by simp [Op.marks, Op.writes])) []
  | openFd path how create =>
      exact attempt_seen fun fs opened =>
        open_seen opened (others path (by simp [Op.marks, Op.writes]))
  | ftruncate path size =>
      exact attempt_seen fun fs edited =>
        edit_seen edited (others path (by simp [Op.marks, Op.writes]))
  | pwrite path pos data =>
      have apart := others path (by simp [Op.marks, Op.writes])
      simp only [Op.run]
      split
      · exact edit_seen ‹_› apart
      · rfl
      · rfl
  | write path append pos data =>
      have apart := others path (by simp [Op.marks, Op.writes])
      simp only [Op.run]
      split
      · exact edit_seen ‹_› apart
      · rfl
      · rfl
  | pread path pos count =>
      simp only [Op.run]
      split <;> rfl
  | send data =>
      simp only [Op.run]
      split <;> rfl
  | recv count =>
      simp only [Op.run]
      split <;> rfl
  | stat | ctime | readdir | statvfs | openIn | seek | seekEnd | get | getAll | lseekEnd | connect
  | closeSocket
  | initShared | loadError | storeError | fetchAdd | pushTask | countTask | sleep => rfl

end

/-- A file is not found, or a directory is not listed to its end. -/
inductive Op.Misses : (op : Op) → World → Res op → Prop where
  | stat {path : Bytes} {w : World} : Misses (.stat path) w none
  | readdir {path : Bytes} {w : World} {names : List Name} :
      names.Sublist (w.fs.readdir path) → Misses (.readdir path) w names

/-- Every call may fail. -/
def faulty : Handler Op Res World where
  exec op w answer w' := (∃ choice, op.run choice w = (answer, w')) ∨ op.Misses w answer ∧ w' = w
  spins := True

/-- What the places of some path strings had is all that a call may have changed. -/
theorem faulty_seen {op : Op} {w w' : World} {answer : Res op} {q : Path}
    (ran : faulty.exec op w answer w') (others : ∀ path ∈ op.marks, place w.fs.cwd path ≠ q) :
    w'.fs.cwd = w.fs.cwd ∧ w'.fs.seen q = w.fs.seen q := by
  rcases ran with ⟨choice, ran⟩ | ⟨-, rfl⟩
  · have cwd := (run_frame op choice w).1
    have same := run_seen op choice w others
    rw [ran] at cwd same
    exact ⟨cwd, same⟩
  · exact ⟨rfl, rfl⟩

end SyncTool
