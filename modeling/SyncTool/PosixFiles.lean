import Mathlib.Data.List.AList
import SyncTool.PosixPath

set_option autoImplicit false

namespace SyncTool

open SyncTool.Path

/-- What is at a place, its owner's bookkeeping left out. -/
inductive Entry where
  | dir
  | file (content : Bytes)
deriving DecidableEq

/-- An inode: a regular file or a directory, with what `stat` reports of it. -/
inductive Node where
  | file (content : Bytes) (perm : UInt32) (mtime : Int)
  | dir (size : Nat) (perm : UInt32) (mtime : Int)
deriving DecidableEq

namespace Node

def entry : Node → Entry
  | .file content _ _ => .file content
  | .dir _ _ _ => .dir

def chmod (mode : UInt32) : Node → Node
  | .file content _ mtime => .file content (mode &&& 0o7777) mtime
  | .dir size _ mtime => .dir size (mode &&& 0o7777) mtime

@[simp] theorem entry_chmod (mode : UInt32) (node : Node) :
    (node.chmod mode).entry = node.entry := by
  cases node <;> rfl

end Node

/-- A file system without symbolic or hard links. Its places form a tree: every place but the
root lies in a directory, and its names are names a directory can hold. -/
structure FileSystem where
  cwd : Path
  umask : UInt32
  nodes : AList fun _ : Path => Node
  rooted : (nodes.lookup []).map Node.entry = some .dir
  closed : ∀ p ∈ nodes.keys, p ≠ [] → (nodes.lookup p.dropLast).map Node.entry = some .dir
  proper : ∀ p ∈ nodes.keys, ∀ name ∈ p, ProperName name

namespace FileSystem

/-- A file system with nothing in it but the root. -/
def empty : FileSystem where
  cwd := []
  umask := 0o022
  nodes := AList.singleton [] (.dir 4096 0o755 0)
  rooted := rfl
  closed p member notRoot := absurd (List.mem_singleton.mp member) notRoot
  proper p member := by
    rw [List.mem_singleton.mp member]
    simp

def lookup (fs : FileSystem) (p : Path) : Option Node := fs.nodes.lookup p

def entry (fs : FileSystem) (p : Path) : Option Entry := (fs.lookup p).map Node.entry

theorem entry_ne_none {fs : FileSystem} {p : Path} : fs.entry p ≠ none ↔ fs.lookup p ≠ none := by
  simp [entry]

@[simp] theorem entry_root (fs : FileSystem) : fs.entry [] = some .dir := fs.rooted

theorem mem_keys_of_entry {fs : FileSystem} {p : Path} (exist : fs.entry p ≠ none) :
    p ∈ fs.nodes.keys := by
  rw [← AList.mem_keys, ← AList.lookup_isSome, Option.isSome_iff_ne_none]
  intro missing
  exact exist (by simp [entry, lookup, missing])

theorem entry_ne_none_of_mem {fs : FileSystem} {p : Path} (member : p ∈ fs.nodes.keys) :
    fs.entry p ≠ none := by
  have present := AList.lookup_isSome.mpr (AList.mem_keys.mpr member)
  obtain ⟨node, found⟩ := Option.isSome_iff_exists.mp present
  simp [entry, lookup, found]

/-- The directory a place lies in. -/
theorem entry_dropLast {fs : FileSystem} {p : Path} (exist : fs.entry p ≠ none) :
    fs.entry p.dropLast = some .dir := by
  by_cases root : p = []
  · simp [root]
  · exact fs.closed p (mem_keys_of_entry exist) root

theorem entry_proper {fs : FileSystem} {p : Path} (exist : fs.entry p ≠ none) :
    ∀ name ∈ p, ProperName name :=
  fs.proper p (mem_keys_of_entry exist)

theorem proper_below {fs : FileSystem} {p names : Path} {entry : Entry}
    (here : fs.entry (p ++ names) = some entry) : ∀ name ∈ names, ProperName name := by
  intro name member
  have exist : fs.entry (p ++ names) ≠ none := by simp [here]
  exact entry_proper exist name (List.mem_append_right p member)

/-- Every place on the way to an existing one is a directory. -/
theorem entry_of_append {fs : FileSystem} {p rest : Path} (more : rest ≠ [])
    (exist : fs.entry (p ++ rest) ≠ none) : fs.entry p = some .dir := by
  induction rest using List.reverseRecOn with
  | nil => exact absurd rfl more
  | append_singleton rest name ih =>
      have parent := entry_dropLast exist
      rw [← List.append_assoc, List.dropLast_concat] at parent
      by_cases last : rest = []
      · simpa only [last, List.append_nil] using parent
      · exact ih last (by simp [parent])

/-- A node may be put at a place below a directory; a directory stays one. -/
def Accepts (fs : FileSystem) (p : Path) (node : Node) : Prop :=
  (∀ name ∈ p, ProperName name) ∧ (p ≠ [] → fs.entry p.dropLast = some .dir) ∧
    (fs.entry p = some .dir → node.entry = .dir)

instance (fs : FileSystem) (p : Path) (node : Node) : Decidable (fs.Accepts p node) :=
  inferInstanceAs (Decidable (_ ∧ _))

def put (fs : FileSystem) (p : Path) (node : Node) : FileSystem :=
  if ok : fs.Accepts p node then
    { fs with
      nodes := fs.nodes.insert p node
      rooted := by
        by_cases root : p = []
        · subst root
          simpa using ok.2.2 fs.entry_root
        · rw [AList.lookup_insert_ne (Ne.symm root)]
          exact fs.rooted
      closed := by
        intro q member notRoot
        rw [← AList.mem_keys, AList.mem_insert] at member
        by_cases child : q.dropLast = p
        · have old : q ∈ fs.nodes := by
            rcases member with rfl | old
            · have := congrArg List.length child
              have := List.length_pos_iff.mpr notRoot
              simp only [List.length_dropLast] at *
              omega
            · exact old
          rw [child, AList.lookup_insert]
          have wasDir := fs.closed q (AList.mem_keys.mp old) notRoot
          rw [child] at wasDir
          simpa using ok.2.2 wasDir
        · rw [AList.lookup_insert_ne child]
          rcases member with rfl | old
          · exact ok.2.1 notRoot
          · exact fs.closed q (AList.mem_keys.mp old) notRoot
      proper := by
        intro q member
        rw [← AList.mem_keys, AList.mem_insert] at member
        rcases member with rfl | old
        · exact ok.1
        · exact fs.proper q (AList.mem_keys.mp old) }
  else fs

@[simp] theorem put_cwd (fs : FileSystem) (p : Path) (node : Node) :
    (fs.put p node).cwd = fs.cwd := by
  unfold put
  split <;> rfl

@[simp] theorem put_umask (fs : FileSystem) (p : Path) (node : Node) :
    (fs.put p node).umask = fs.umask := by
  unfold put
  split <;> rfl

theorem lookup_put {fs : FileSystem} {p : Path} {node : Node} (ok : fs.Accepts p node) (q : Path) :
    (fs.put p node).lookup q = if q = p then some node else fs.lookup q := by
  simp only [put, ok, ↓reduceDIte, lookup]
  split
  · rename_i same
    rw [same, AList.lookup_insert]
  · rename_i other
    rw [AList.lookup_insert_ne other]

theorem entry_put {fs : FileSystem} {p : Path} {node : Node} (ok : fs.Accepts p node) :
    (fs.put p node).entry = Function.update fs.entry p (some node.entry) := by
  funext q
  rw [entry, lookup_put ok]
  by_cases same : q = p
  · simp [same]
  · simp [same, entry]

/-- A node may always be replaced by one of its kind. -/
theorem accepts_of_lookup {fs : FileSystem} {p : Path} {old node : Node}
    (found : fs.lookup p = some old) (kind : old.entry = .dir → node.entry = .dir) :
    fs.Accepts p node := by
  have exist : fs.entry p ≠ none := by simp [entry, found]
  refine ⟨entry_proper exist, fun _ => entry_dropLast exist, fun wasDir => kind ?_⟩
  simpa [entry, found] using wasDir

/-- The directory at `p` is marked as modified. -/
def touch (fs : FileSystem) (p : Path) (time : Int) : FileSystem :=
  match fs.lookup p with
  | some (.dir size perm _) => fs.put p (.dir size perm time)
  | _ => fs

@[simp] theorem touch_cwd (fs : FileSystem) (p : Path) (time : Int) :
    (fs.touch p time).cwd = fs.cwd := by
  unfold touch
  split
  · exact put_cwd _ _ _
  · rfl

@[simp] theorem touch_umask (fs : FileSystem) (p : Path) (time : Int) :
    (fs.touch p time).umask = fs.umask := by
  unfold touch
  split
  · exact put_umask _ _ _
  · rfl

@[simp] theorem entry_touch (fs : FileSystem) (p : Path) (time : Int) :
    (fs.touch p time).entry = fs.entry := by
  unfold touch
  split
  · rename_i size perm mtime found
    rw [entry_put (accepts_of_lookup found fun _ => rfl)]
    have here : fs.entry p = some .dir := by simp [entry, found, Node.entry]
    simp only [Node.entry, ← here, Function.update_eq_self]
  · rfl

theorem lookup_touch (fs : FileSystem) {p q : Path} (other : q ≠ p) (time : Int) :
    (fs.touch p time).lookup q = fs.lookup q := by
  unfold touch
  split
  · rename_i size perm mtime found
    rw [lookup_put (accepts_of_lookup found fun _ => rfl)]
    simp [other]
  · rfl

/-- Nothing lies below the place. -/
def Childless (fs : FileSystem) (p : Path) : Prop :=
  ∀ q ∈ fs.nodes.keys, q ≠ [] → q.dropLast ≠ p

instance (fs : FileSystem) (p : Path) : Decidable (fs.Childless p) :=
  inferInstanceAs (Decidable (∀ q ∈ fs.nodes.keys, _))

def erase (fs : FileSystem) (p : Path) : FileSystem :=
  if ok : p ≠ [] ∧ fs.Childless p then
    { fs with
      nodes := fs.nodes.erase p
      rooted := by
        rw [AList.lookup_erase_ne (Ne.symm ok.1)]
        exact fs.rooted
      closed := by
        intro q member notRoot
        rw [← AList.mem_keys, AList.mem_erase] at member
        have old := AList.mem_keys.mp member.2
        rw [AList.lookup_erase_ne (ok.2 q old notRoot)]
        exact fs.closed q old notRoot
      proper := by
        intro q member
        rw [← AList.mem_keys, AList.mem_erase] at member
        exact fs.proper q (AList.mem_keys.mp member.2) }
  else fs

@[simp] theorem erase_cwd (fs : FileSystem) (p : Path) : (fs.erase p).cwd = fs.cwd := by
  unfold erase
  split <;> rfl

theorem lookup_erase {fs : FileSystem} {p : Path} (notRoot : p ≠ []) (childless : fs.Childless p)
    (q : Path) : (fs.erase p).lookup q = if q = p then none else fs.lookup q := by
  have ok : p ≠ [] ∧ fs.Childless p := ⟨notRoot, childless⟩
  rw [erase, dif_pos ok]
  simp only [lookup]
  split
  · rename_i same
    rw [same, AList.lookup_erase]
  · rename_i other
    rw [AList.lookup_erase_ne other]

theorem entry_erase {fs : FileSystem} {p : Path} (notRoot : p ≠ []) (childless : fs.Childless p) :
    (fs.erase p).entry = Function.update fs.entry p none := by
  funext q
  rw [entry, lookup_erase notRoot childless]
  by_cases same : q = p
  · simp [same]
  · simp [same, entry]

theorem childless_of_file {fs : FileSystem} {p : Path} {content : Bytes}
    (file : fs.entry p = some (.file content)) : fs.Childless p := by
  intro q member notRoot same
  have parent := entry_dropLast (entry_ne_none_of_mem member)
  rw [same, file] at parent
  cases parent

theorem ne_root_of_file {fs : FileSystem} {p : Path} {content : Bytes}
    (file : fs.entry p = some (.file content)) : p ≠ [] := by
  rintro rfl
  rw [entry_root] at file
  cases file

/-- Follow the components of a path string; each is looked up in a directory. -/
def walk (fs : FileSystem) (here : Path) : List Name → Option Path
  | [] => some here
  | name :: rest => if fs.entry here = some .dir then fs.walk (enter here name) rest else none

/-- The place a path string names; whether anything is there is left open. -/
def resolve (fs : FileSystem) (path : Bytes) : Option Path :=
  if path = [] then none else fs.walk (origin fs.cwd path) (components path)

theorem walk_eq_foldl {fs : FileSystem} {here p : Path} {names : List Name}
    (found : fs.walk here names = some p) : p = names.foldl enter here := by
  induction names generalizing here with
  | nil => exact (Option.some.inj found).symm
  | cons name rest ih =>
      unfold walk at found
      split at found
      · exact ih found
      · cases found

theorem resolve_eq_place {fs : FileSystem} {path : Bytes} {p : Path}
    (found : fs.resolve path = some p) : p = place fs.cwd path := by
  unfold resolve at found
  split at found
  · cases found
  · exact walk_eq_foldl found

theorem walk_append (fs : FileSystem) (here : Path) (first second : List Name) :
    fs.walk here (first ++ second) = (fs.walk here first).bind fun p => fs.walk p second := by
  induction first generalizing here with
  | nil => rfl
  | cons name rest ih =>
      simp only [List.cons_append, walk]
      split
      · exact ih _
      · rfl

theorem walk_mono {fs fs' : FileSystem} {here p : Path} {names : List Name}
    (dirs : ∀ q, fs.entry q = some .dir → fs'.entry q = some .dir)
    (found : fs.walk here names = some p) : fs'.walk here names = some p := by
  induction names generalizing here with
  | nil => exact found
  | cons name rest ih =>
      unfold walk at found ⊢
      split at found
      · rename_i isDir
        rw [if_pos (dirs _ isDir)]
        exact ih found
      · cases found

theorem resolve_mono {fs fs' : FileSystem} {path : Bytes} {p : Path} (cwd : fs'.cwd = fs.cwd)
    (dirs : ∀ q, fs.entry q = some .dir → fs'.entry q = some .dir)
    (found : fs.resolve path = some p) : fs'.resolve path = some p := by
  unfold resolve at found ⊢
  split at found
  · cases found
  · rename_i nonempty
    rw [if_neg nonempty, cwd]
    exact walk_mono dirs found

/-- The place a path string names is there already or lies in a directory. -/
theorem parent_of_resolve {fs : FileSystem} {path : Bytes} {p : Path}
    (found : fs.resolve path = some p) (missing : fs.entry p = none) :
    p ≠ [] ∧ fs.entry p.dropLast = some .dir := by
  have notRoot : p ≠ [] := by
    rintro rfl
    rw [entry_root] at missing
    cases missing
  refine ⟨notRoot, ?_⟩
  unfold resolve at found
  split at found
  · cases found
  obtain ⟨names, last, split⟩ : ∃ names last, components path = names ++ [last] :=
    ⟨_, _, (List.dropLast_append_getLast (components_ne_nil path)).symm⟩
  rw [split, walk_append] at found
  obtain ⟨here, -, final⟩ := Option.bind_eq_some_iff.mp found
  unfold walk at final
  split at final
  · rename_i isDir
    have reached : enter here last = p := Option.some.inj final
    unfold enter at reached
    split at reached
    · rw [reached, missing] at isDir
      cases isDir
    · split at reached
      · have parent := @entry_dropLast fs here (by simp [isDir])
        rw [reached, missing] at parent
        cases parent
      · rw [← reached, List.dropLast_concat]
        exact isDir
  · cases final

theorem walk_proper {fs : FileSystem} {here : Path} {names : Path}
    (proper : ∀ name ∈ names, ProperName name)
    (dirs : ∀ k < names.length, fs.entry (here ++ names.take k) = some .dir) :
    fs.walk here names = some (here ++ names) := by
  induction names generalizing here with
  | nil => simp [walk]
  | cons name rest ih =>
      have first := dirs 0 (by simp)
      rw [List.take_zero, List.append_nil] at first
      rw [walk, if_pos first, enter_of_proper (proper name (by simp)), ih]
      · simp
      · exact fun other member => proper other (by simp [member])
      · intro k bound
        have next := dirs (k + 1) (by simpa using bound)
        simpa using next

/-- A walk to what is there goes by names without zero bytes. -/
theorem zero_notMem_of_walk {fs : FileSystem} {here p : Path} {names : List Name}
    (found : fs.walk here names = some p) (exist : fs.entry p ≠ none) :
    ∀ name ∈ names, 0 ∉ name := by
  induction names generalizing here with
  | nil => simp
  | cons name rest ih =>
      unfold walk at found
      split at found
      swap
      · cases found
      refine List.forall_mem_cons.mpr ⟨?_, ih found⟩
      have there : fs.entry (enter here name) ≠ none := by
        cases rest with
        | nil =>
            obtain rfl : enter here name = p := Option.some.inj found
            exact exist
        | cons next rest =>
            unfold walk at found
            split at found
            · next isDir => simp [isDir]
            · cases found
      exact zero_notMem_of_enter (entry_proper there)

/-- A walk through directories only arrives. -/
theorem walk_of_scanl {fs : FileSystem} {names : List Name} {here : Path}
    (dirs : ∀ p ∈ names.scanl enter here, fs.entry p = some .dir) :
    fs.walk here names = some (names.foldl enter here) := by
  induction names generalizing here with
  | nil => rfl
  | cons name names ih =>
      rw [List.scanl_cons] at dirs
      rw [walk, if_pos (dirs here (by simp)), List.foldl_cons]
      exact ih fun p member => dirs p (by simp [member])

/-- A path string that names what is there has no zero byte, so that no call cuts it. -/
theorem cString_of_resolve {fs : FileSystem} {path : Bytes} {p : Path}
    (found : fs.resolve path = some p) (exist : fs.entry p ≠ none) : cString path = path := by
  unfold resolve at found
  split at found
  · cases found
  · rw [cString_eq_self]
    intro zero
    obtain ⟨name, member, inside⟩ := exists_mem_components zero (by decide)
    exact zero_notMem_of_walk found exist name member inside

/-- Going down by names from a directory that a path string names. -/
theorem resolve_below {fs : FileSystem} {path : Bytes} {root : Path} {names : Path}
    (found : fs.resolve path = some root) (proper : ∀ name ∈ names, ProperName name)
    (dirs : ∀ k < names.length, fs.entry (root ++ names.take k) = some .dir) :
    fs.resolve (path ++ below names) = some (root ++ names) := by
  unfold resolve at found ⊢
  split at found
  · cases found
  · rename_i nonempty
    have noSlash : ∀ name ∈ names, slash ∉ name := fun name member => (proper name member).2.1
    rw [if_neg (by simp [nonempty]), origin_append _ nonempty, components_below noSlash,
      walk_append, found, Option.bind_some, walk_proper proper dirs]

/-- The last component of a path string that does not name a directory is the name of the
place, in a directory the others lead to. -/
theorem resolve_not_dir {fs : FileSystem} {path : Bytes} {p : Path}
    (found : fs.resolve path = some p) (notDir : fs.entry p ≠ some .dir) :
    ∃ front name, components path = front ++ [name] ∧ (name ≠ [] ∧ name ≠ dot ∧ name ≠ dotdot) ∧
      fs.walk (origin fs.cwd path) front = some (front.foldl enter (origin fs.cwd path)) ∧
      fs.entry (front.foldl enter (origin fs.cwd path)) = some .dir ∧
      p = front.foldl enter (origin fs.cwd path) ++ [name] := by
  unfold resolve at found
  split at found
  · cases found
  obtain ⟨front, name, split⟩ : ∃ front name, components path = front ++ [name] :=
    ⟨_, _, (List.dropLast_append_getLast (components_ne_nil path)).symm⟩
  rw [split, walk_append] at found
  obtain ⟨here, walked, final⟩ := Option.bind_eq_some_iff.mp found
  obtain rfl := walk_eq_foldl walked
  unfold walk at final
  split at final
  · rename_i isDir
    have reached := Option.some.inj final
    have ordinary : name ≠ [] ∧ name ≠ dot ∧ name ≠ dotdot := by
      refine ⟨?_, ?_, ?_⟩ <;> rintro rfl <;> refine notDir ?_ <;> rw [← reached]
      · exact isDir
      · exact isDir
      · exact entry_dropLast (by simp [isDir])
    refine ⟨front, name, split, ordinary, walked, isDir, ?_⟩
    rw [← reached, enter, if_neg (by simp [ordinary]), if_neg ordinary.2.2]
  · cases final

/-- One more component of a path string. -/
theorem resolve_slash {fs : FileSystem} {path : Bytes} {here : Path} {name : Name}
    (found : fs.resolve path = some here) (isDir : fs.entry here = some .dir)
    (noSlash : slash ∉ name) : fs.resolve (path ++ slash :: name) = some (enter here name) := by
  unfold resolve at found ⊢
  split at found
  · cases found
  · rename_i nonempty
    rw [if_neg (by simp), origin_append _ nonempty, components_append_slash,
      components_of_notMem noSlash, walk_append, found, Option.bind_some, walk, if_pos isDir]
    rfl

theorem resolve_root_slash (fs : FileSystem) {name : Name} (noSlash : slash ∉ name) :
    fs.resolve (slash :: name) = some (enter [] name) := by
  have split : components (slash :: name) = [[], name] := by
    have := components_append_slash [] name
    simpa [components_of_notMem noSlash, @components_of_notMem [] (by simp)] using this
  simp [resolve, split, origin, walk, enter]

theorem resolve_of_notMem {fs : FileSystem} {name : Name} (nonempty : name ≠ [])
    (noSlash : slash ∉ name) (home : fs.entry fs.cwd = some .dir) :
    fs.resolve name = some (enter fs.cwd name) := by
  have relative : origin fs.cwd name = fs.cwd := by
    unfold origin
    rw [if_neg]
    intro absolute
    exact noSlash (List.mem_of_mem_head? absolute)
  rw [resolve, if_neg nonempty, components_of_notMem noSlash, relative, walk, if_pos home]
  rfl

end FileSystem

end SyncTool
