import SyncTool.PosixFiles

set_option autoImplicit false

namespace SyncTool

open SyncTool.Path

namespace FileSystem

def stat (fs : FileSystem) (path : Bytes) : Option Node := (fs.resolve path).bind fs.lookup

/-- The content of the regular file a path string names. -/
def read (fs : FileSystem) (path : Bytes) : Option Bytes :=
  match (fs.resolve path).bind fs.entry with
  | some (.file content) => some content
  | _ => none

/-- `mkdir`, which takes the permission bits and the sticky bit of the mode. A missing directory
is never asked for with a slash at the end of its name, so that spelling is not treated apart. -/
def mkdir (fs : FileSystem) (path : Bytes) (mode : UInt32) (time : Int) : Option FileSystem :=
  match fs.resolve path with
  | none => none
  | some p =>
      if fs.entry p = none ∧ ∀ name ∈ p, ProperName name then
        some ((fs.put p (.dir 4096 (mode &&& 0o1777 &&& ~~~fs.umask) time)).touch p.dropLast time)
      else none

/-- How a file is opened for writing: `O_TRUNC`, `O_APPEND`, or neither, and whether
`O_CREAT` is given. -/
inductive Mode where
  | trunc
  | append
  | keep
deriving DecidableEq

def open_ (fs : FileSystem) (path : Bytes) (how : Mode) (create : Bool) (perm : UInt32)
    (time : Int) : Option FileSystem :=
  match fs.resolve path with
  | none => none
  | some p =>
      match fs.lookup p with
      | some (.dir _ _ _) => none
      | some (.file _ old _) => if how = .trunc then some (fs.put p (.file [] old time))
          else some fs
      | none =>
          if create = true ∧ ∀ name ∈ p, ProperName name then
            some ((fs.put p (.file [] (perm &&& ~~~fs.umask) time)).touch p.dropLast time)
          else none

/-- Rewrite the content of the regular file a path string names. -/
def edit (fs : FileSystem) (path : Bytes) (change : Bytes → Bytes) (time : Int) :
    Option FileSystem :=
  match fs.resolve path with
  | none => none
  | some p =>
      match fs.lookup p with
      | some (.file content perm _) => some (fs.put p (.file (change content) perm time))
      | _ => none

def chmod (fs : FileSystem) (path : Bytes) (mode : UInt32) : Option FileSystem :=
  match fs.resolve path with
  | none => none
  | some p =>
      match fs.lookup p with
      | some node => some (fs.put p (node.chmod mode))
      | none => none

/-- `remove`: a regular file is unlinked, an empty directory is removed. -/
def remove (fs : FileSystem) (path : Bytes) (time : Int) : Option FileSystem :=
  match fs.resolve path with
  | none => none
  | some p =>
      if fs.entry p ≠ none ∧ p ≠ [] ∧ fs.Childless p then
        some ((fs.erase p).touch p.dropLast time)
      else none

/-- `rename` of a regular file, over a regular file or to a free name. -/
def rename (fs : FileSystem) (old new : Bytes) (time : Int) : Option FileSystem :=
  match fs.resolve old, fs.resolve new with
  | some p, some q =>
      match fs.lookup p, fs.entry q with
      | some (.file _ _ _), some .dir => none
      | some (.file content perm mtime), _ =>
          if p = q then some fs
          else if ∀ name ∈ q, ProperName name then
            some (((((fs.put q (.file content perm mtime)).touch q.dropLast time).erase p).touch
              p.dropLast time))
          else none
      | _, _ => none
  | _, _ => none

/-- The names in a directory, in the order `readdir` gives them. -/
def children (fs : FileSystem) (p : Path) : List Name :=
  fs.nodes.keys.filterMap fun q => if q ≠ [] ∧ q.dropLast = p then q.getLast? else none

def readdir (fs : FileSystem) (path : Bytes) : List Name :=
  match fs.resolve path with
  | some p => if fs.entry p = some .dir then fs.children p else []
  | none => []

/-- What has names in it is a directory. -/
theorem stat_of_readdir {fs : FileSystem} {path : Bytes} (some_ : fs.readdir path ≠ []) :
    ∃ node, fs.stat path = some node ∧ node.entry = .dir := by
  unfold readdir at some_
  split at some_
  · next p found =>
    split at some_
    · next isDir =>
      obtain ⟨node, here, kind⟩ := Option.map_eq_some_iff.mp isDir
      exact ⟨node, by rw [stat, found, Option.bind_some, here], kind⟩
    · exact absurd rfl some_
  · exact absurd rfl some_

/-- The content of the regular file at a place. -/
def contentAt (fs : FileSystem) (p : Path) : Option Bytes :=
  match fs.entry p with
  | some (.file content) => some content
  | _ => none

@[simp] theorem contentAt_eq_some {fs : FileSystem} {p : Path} {content : Bytes} :
    fs.contentAt p = some content ↔ fs.entry p = some (.file content) := by
  unfold contentAt
  split
  · rename_i found
    simp [found]
  · rename_i other
    simpa using other content

/-- What is no directory is a file or nothing. -/
theorem entry_of_notDir {fs : FileSystem} {p : Path} (notDir : fs.entry p ≠ some .dir) :
    fs.entry p = (fs.contentAt p).map .file := by
  cases there : fs.entry p with
  | none => simp [contentAt, there]
  | some entry =>
      cases entry with
      | dir => exact absurd there notDir
      | file content => simp [contentAt, there]

theorem contentAt_of_entry {fs : FileSystem} {p : Path} {d : Option Bytes}
    (here : fs.entry p = d.map .file) : fs.contentAt p = d := by
  cases d <;> simp [contentAt, here]

theorem read_eq_some {fs : FileSystem} {path content : Bytes} :
    fs.read path = some content ↔
      ∃ p, fs.resolve path = some p ∧ fs.entry p = some (.file content) := by
  unfold read
  cases fs.resolve path with
  | none => simp
  | some p =>
      simp only [Option.bind_some, Option.some.injEq, exists_eq_left']
      exact contentAt_eq_some

theorem stat_eq_some {fs : FileSystem} {path : Bytes} {node : Node} :
    fs.stat path = some node ↔ ∃ p, fs.resolve path = some p ∧ fs.lookup p = some node :=
  Option.bind_eq_some_iff

theorem cString_of_read {fs : FileSystem} {path content : Bytes}
    (read : fs.read path = some content) : cString path = path := by
  obtain ⟨p, found, file⟩ := read_eq_some.mp read
  exact cString_of_resolve found (by simp [file])

theorem stat_ne_none {fs : FileSystem} {path : Bytes} :
    fs.stat path ≠ none ↔ ∃ p, fs.resolve path = some p ∧ fs.entry p ≠ none := by
  simp [stat, entry, Option.bind_eq_none_iff]

/-- What can be read is there. -/
theorem exists_of_read {fs : FileSystem} {path content : Bytes}
    (read : fs.read path = some content) :
    (fs.stat path).isSome = true := by
  rw [Option.isSome_iff_ne_none, stat_ne_none]
  obtain ⟨p, found, file⟩ := read_eq_some.mp read
  exact ⟨p, found, by simp [file]⟩

theorem stat_of_read {fs : FileSystem} {path content : Bytes} (read : fs.read path = some content) :
    ∃ perm mtime, fs.stat path = some (.file content perm mtime) := by
  obtain ⟨p, found, file⟩ := read_eq_some.mp read
  obtain ⟨node, looked, kind⟩ := Option.map_eq_some_iff.mp file
  cases node with
  | dir size perm mtime => cases kind
  | file now perm mtime =>
      cases kind
      exact ⟨perm, mtime, stat_eq_some.mpr ⟨p, found, looked⟩⟩

theorem read_of_stat {fs : FileSystem} {path : Bytes} {node : Node}
    (stat : fs.stat path = some node) (notDir : node.entry ≠ .dir) :
    ∃ content, fs.read path = some content := by
  obtain ⟨p, found, looked⟩ := stat_eq_some.mp stat
  cases node with
  | dir size perm mtime => exact absurd rfl notDir
  | file content perm mtime =>
      exact ⟨content, read_eq_some.mpr ⟨p, found, by simp [entry, looked, Node.entry]⟩⟩

/-- Every directory is still one, and relative paths still start at the same one. -/
def DirsKept (fs fs' : FileSystem) : Prop :=
  fs'.cwd = fs.cwd ∧ ∀ q, fs.entry q = some .dir → fs'.entry q = some .dir

theorem DirsKept.refl (fs : FileSystem) : DirsKept fs fs := ⟨rfl, fun _ h => h⟩

theorem DirsKept.trans {fs₁ fs₂ fs₃ : FileSystem} (first : DirsKept fs₁ fs₂)
    (second : DirsKept fs₂ fs₃) : DirsKept fs₁ fs₃ :=
  ⟨second.1.trans first.1, fun q h => second.2 q (first.2 q h)⟩

theorem DirsKept.resolve {fs fs' : FileSystem} (kept : DirsKept fs fs') {path : Bytes} {p : Path}
    (found : fs.resolve path = some p) : fs'.resolve path = some p :=
  resolve_mono kept.1 kept.2 found

theorem dirsKept_of_update {fs fs' : FileSystem} {p : Path} {entry : Option Entry}
    (cwd : fs'.cwd = fs.cwd) (tree : fs'.entry = Function.update fs.entry p entry)
    (free : fs.entry p = some .dir → entry = some .dir) : DirsKept fs fs' := by
  refine ⟨cwd, fun q wasDir => ?_⟩
  rw [tree]
  by_cases same : q = p
  · subst same
    simpa using free wasDir
  · simpa [same] using wasDir

theorem accepts_new {fs : FileSystem} {path : Bytes} {p : Path} {node : Node}
    (found : fs.resolve path = some p) (missing : fs.entry p = none)
    (proper : ∀ name ∈ p, ProperName name) : fs.Accepts p node :=
  ⟨proper, fun _ => (parent_of_resolve found missing).2, fun isDir => by simp [missing] at isDir⟩

theorem mkdir_effect {fs fs' : FileSystem} {path : Bytes} {mode : UInt32} {time : Int}
    (made : fs.mkdir path mode time = some fs') :
    ∃ p, fs.resolve path = some p ∧ fs.entry p = none ∧ fs'.cwd = fs.cwd ∧
      fs'.entry = Function.update fs.entry p (some .dir) := by
  unfold mkdir at made
  split at made
  · cases made
  · rename_i p found
    split at made
    · rename_i ok
      obtain ⟨missing, proper⟩ := ok
      cases made
      refine ⟨p, found, missing, by simp, ?_⟩
      rw [entry_touch, entry_put (accepts_new found missing proper)]
      rfl
    · cases made

theorem mkdir_of_free {fs : FileSystem} {path : Bytes} {p : Path}
    (found : fs.resolve path = some p) (missing : fs.entry p = none)
    (proper : ∀ name ∈ p, ProperName name) (mode : UInt32) (time : Int) :
    (fs.mkdir path mode time).isSome := by
  unfold mkdir
  rw [found]
  simp only [missing, true_and]
  rw [if_pos proper]
  rfl

theorem open_effect {fs fs' : FileSystem} {path : Bytes} {how : Mode} {create : Bool}
    {perm : UInt32} {time : Int} (opened : fs.open_ path how create perm time = some fs') :
    ∃ p, fs.resolve path = some p ∧ fs.entry p ≠ some .dir ∧ fs'.cwd = fs.cwd ∧
      fs'.entry = Function.update fs.entry p
        (some (.file (if how = .trunc then [] else (fs.contentAt p).getD []))) := by
  unfold open_ at opened
  split at opened
  · cases opened
  rename_i p found
  split at opened
  · cases opened
  · rename_i content old mtime node
    have here : fs.entry p = some (.file content) := by simp [entry, node, Node.entry]
    refine ⟨p, found, by simp [here], ?_⟩
    split at opened <;> cases opened
    · rename_i trunc
      refine ⟨by simp, ?_⟩
      rw [entry_put (accepts_of_lookup node fun isDir => by cases isDir)]
      simp [trunc, Node.entry]
    · rename_i notTrunc
      refine ⟨rfl, ?_⟩
      rw [if_neg notTrunc, contentAt_eq_some.mpr here, Option.getD_some, ← here,
        Function.update_eq_self]
  · rename_i node
    have missing : fs.entry p = none := by simp [entry, node]
    split at opened
    · rename_i ok
      cases opened
      refine ⟨p, found, by simp [missing], by simp, ?_⟩
      rw [entry_touch, entry_put (accepts_new found missing ok.2)]
      simp [contentAt, missing, Node.entry]
    · cases opened

theorem open_of_file {fs : FileSystem} {path : Bytes} {p : Path} {content : Bytes}
    (found : fs.resolve path = some p) (file : fs.entry p = some (.file content)) (how : Mode)
    (create : Bool) (perm : UInt32) (time : Int) :
    (fs.open_ path how create perm time).isSome := by
  unfold entry at file
  obtain ⟨node, looked, kind⟩ := Option.map_eq_some_iff.mp file
  unfold open_
  rw [found]
  cases node with
  | dir size old mtime => cases kind
  | file content old mtime =>
      simp only [looked]
      split <;> rfl

theorem open_of_free {fs : FileSystem} {path : Bytes} {p : Path}
    (found : fs.resolve path = some p) (missing : fs.entry p = none)
    (proper : ∀ name ∈ p, ProperName name) (how : Mode) (perm : UInt32) (time : Int) :
    (fs.open_ path how true perm time).isSome := by
  have looked : fs.lookup p = none := by simpa [entry] using missing
  unfold open_
  rw [found]
  simp only [looked, true_and]
  rw [if_pos proper]
  rfl

theorem edit_effect {fs fs' : FileSystem} {path : Bytes} {change : Bytes → Bytes} {time : Int}
    (edited : fs.edit path change time = some fs') :
    ∃ p content, fs.resolve path = some p ∧ fs.entry p = some (.file content) ∧
      fs'.cwd = fs.cwd ∧ fs'.entry =
        Function.update fs.entry p (some (.file (change content))) := by
  unfold edit at edited
  split at edited
  · cases edited
  rename_i p found
  split at edited
  · rename_i content perm mtime node
    cases edited
    refine ⟨p, content, found, by simp [entry, node, Node.entry], by simp, ?_⟩
    rw [entry_put (accepts_of_lookup node fun isDir => by cases isDir)]
    rfl
  · cases edited

theorem edit_of_file {fs : FileSystem} {path : Bytes} {p : Path} {content : Bytes}
    (found : fs.resolve path = some p) (file : fs.entry p = some (.file content))
    (change : Bytes → Bytes) (time : Int) : (fs.edit path change time).isSome := by
  unfold entry at file
  obtain ⟨node, looked, kind⟩ := Option.map_eq_some_iff.mp file
  unfold edit
  rw [found]
  cases node with
  | dir size old mtime => cases kind
  | file content old mtime => simp only [looked]; rfl

theorem chmod_effect {fs fs' : FileSystem} {path : Bytes} {mode : UInt32}
    (changed : fs.chmod path mode = some fs') : fs'.cwd = fs.cwd ∧ fs'.entry = fs.entry := by
  unfold chmod at changed
  split at changed
  · cases changed
  rename_i p found
  split at changed
  · rename_i node looked
    cases changed
    refine ⟨by simp, ?_⟩
    rw [entry_put (accepts_of_lookup looked (by simp)), Node.entry_chmod]
    have here : fs.entry p = some node.entry := by simp [entry, looked]
    rw [← here, Function.update_eq_self]
  · cases changed

theorem chmod_of_exist {fs : FileSystem} {path : Bytes} {p : Path}
    (found : fs.resolve path = some p) (exist : fs.entry p ≠ none) (mode : UInt32) :
    (fs.chmod path mode).isSome := by
  obtain ⟨node, looked⟩ := Option.ne_none_iff_exists'.mp
    (show fs.lookup p ≠ none from fun missing => exist (by simp [entry, missing]))
  simp [chmod, found, looked]

theorem remove_effect {fs fs' : FileSystem} {path : Bytes} {time : Int}
    (removed : fs.remove path time = some fs') :
    ∃ p, fs.resolve path = some p ∧ fs.entry p ≠ none ∧ fs.Childless p ∧ fs'.cwd = fs.cwd ∧
      fs'.entry = Function.update fs.entry p none := by
  unfold remove at removed
  split at removed
  · cases removed
  rename_i p found
  split at removed
  · rename_i ok
    obtain ⟨exist, notRoot, childless⟩ := ok
    cases removed
    refine ⟨p, found, exist, childless, by simp, ?_⟩
    rw [entry_touch, entry_erase notRoot childless]
  · cases removed

theorem remove_of_file {fs : FileSystem} {path : Bytes} {p : Path} {content : Bytes}
    (found : fs.resolve path = some p) (file : fs.entry p = some (.file content)) (time : Int) :
    (fs.remove path time).isSome := by
  unfold remove
  rw [found]
  simp only
  rw [if_pos ⟨by simp [file], ne_root_of_file file, childless_of_file file⟩]
  rfl

section Rename

variable {fs : FileSystem} {old new : Bytes} {p q : Path} {content : Bytes} {time : Int}

theorem lookup_of_file (file : fs.entry p = some (.file content)) :
    ∃ perm mtime, fs.lookup p = some (.file content perm mtime) := by
  obtain ⟨node, looked, kind⟩ := Option.map_eq_some_iff.mp file
  cases node with
  | dir size perm mtime => cases kind
  | file content' perm mtime =>
      cases kind
      exact ⟨perm, mtime, looked⟩

/-- A file is not renamed over a directory. -/
theorem rename_dir (foundOld : fs.resolve old = some p) (foundNew : fs.resolve new = some q)
    (file : fs.entry p = some (.file content)) (isDir : fs.entry q = some .dir) :
    fs.rename old new time = none := by
  obtain ⟨perm, mtime, node⟩ := lookup_of_file file
  simp [rename, foundOld, foundNew, node, isDir]

/-- That is the only thing that stops it. -/
theorem rename_free (foundOld : fs.resolve old = some p) (foundNew : fs.resolve new = some q)
    (file : fs.entry p = some (.file content)) (notDir : fs.entry q ≠ some .dir)
    (proper : ∀ name ∈ q, ProperName name) : (fs.rename old new time).isSome := by
  obtain ⟨perm, mtime, node⟩ := lookup_of_file file
  simp only [rename, foundOld, foundNew, node]
  split
  · rfl
  · rfl

end Rename

theorem rename_effect {fs fs' : FileSystem} {old new : Bytes} {time : Int}
    (renamed : fs.rename old new time = some fs') :
    ∃ p q content, fs.resolve old = some p ∧ fs.resolve new = some q ∧
      fs.entry p = some (.file content) ∧ fs.entry q ≠ some .dir ∧ fs'.cwd = fs.cwd ∧
      fs'.entry = if p = q then fs.entry else
        Function.update (Function.update fs.entry q (some (.file content))) p none := by
  unfold rename at renamed
  split at renamed
  swap
  · cases renamed
  rename_i p q foundOld foundNew
  split at renamed
  · cases renamed
  · rename_i content perm mtime node notDir
    have here : fs.entry p = some (.file content) := by simp [entry, node, Node.entry]
    refine ⟨p, q, content, foundOld, foundNew, here, notDir, ?_⟩
    split at renamed
    · rename_i same
      cases renamed
      simp [same]
    · rename_i other
      split at renamed
      · rename_i proper
        cases renamed
        have accepts : fs.Accepts q (.file content perm mtime) := by
          refine ⟨proper, fun _ => ?_, fun isDir => absurd isDir notDir⟩
          by_cases missing : fs.entry q = none
          · exact (parent_of_resolve foundNew missing).2
          · exact entry_dropLast missing
        have moved : ((fs.put q (.file content perm mtime)).touch q.dropLast time).entry =
            Function.update fs.entry q (some (.file content)) := by
          rw [entry_touch, entry_put accepts]
          rfl
        have still : ((fs.put q (.file content perm mtime)).touch q.dropLast time).entry p =
            some (.file content) := by
          rw [moved, Function.update_of_ne other]
          exact here
        refine ⟨by simp, ?_⟩
        rw [entry_touch, entry_erase (ne_root_of_file still) (childless_of_file still), moved,
          if_neg other]
      · cases renamed
  · cases renamed

end FileSystem

end SyncTool
