import SyncTool.Descent
import SyncTool.Machine
import SyncTool.TreeScan

set_option autoImplicit false

namespace SyncTool

open SyncTool.Path

/-- A symbolic link: the place it leads to in the end, and how many links are followed
on the way. -/
structure Symlink where
  target : Path
  count : Nat

/-- Directories and files, and symbolic links among them. On the way of one path string at most
`limit` links are followed; without a limit, as many as there are. -/
structure LinkedFs where
  tree : FileSystem
  links : AList fun _ : Path => Symlink
  limit : Option Nat
  placed : ∀ p ∈ links.keys, p ≠ [] ∧ tree.entry p = none ∧ tree.entry p.dropLast = some .dir ∧
    ∀ name ∈ p, ProperName name

/-- How far the resolution of a path string has come. -/
structure Spot where
  place : Path
  followed : Nat
deriving DecidableEq

namespace LinkedFs

variable (fs : LinkedFs)

def within (count : Nat) : Prop := ∀ limit, fs.limit = some limit → count ≤ limit

instance (count : Nat) : Decidable (fs.within count) :=
  match unlimited : fs.limit with
  | none => isTrue fun limit some => by rw [unlimited] at some; cases some
  | some bound => decidable_of_iff (count ≤ bound) (by simp [within, unlimited])

/-- One component of a path string. -/
def step (here : Spot) (name : Name) : Option Spot :=
  if fs.tree.entry here.place = some .dir then
    match fs.links.lookup (enter here.place name) with
    | none => some ⟨enter here.place name, here.followed⟩
    | some link =>
        if fs.within (here.followed + link.count) then
          some ⟨link.target, here.followed + link.count⟩
        else none
  else none

def resolve (path : Bytes) : Option Spot :=
  if path = [] then none else Descent.leads fs.step ⟨origin fs.tree.cwd path, 0⟩ (components path)

/-- The directory that a name in a directory stands for. -/
def into (here : Spot) (name : Name) : Option Spot :=
  if ProperName name then (fs.step here name).filter fun next =>
    fs.tree.entry next.place = some .dir
  else none

def linkNames (p : Path) : List Name :=
  fs.links.keys.filterMap fun q => if q ≠ [] ∧ q.dropLast = p then q.getLast? else none

def stat (path : Bytes) : Option Node :=
  (fs.resolve path).bind fun here => fs.tree.lookup here.place

def read (path : Bytes) : Option Bytes :=
  (fs.resolve path).bind fun here => fs.tree.contentAt here.place

def readdir (path : Bytes) : List Name :=
  match fs.resolve path with
  | some here =>
      if fs.tree.entry here.place = some .dir then fs.tree.children here.place ++
        fs.linkNames here.place
      else []
  | none => []

/-- The real directories. -/
def directories : List Path := fs.tree.nodes.keys.filter fun p => fs.tree.entry p = some .dir

variable {fs} {here next : Spot} {name : Name} {path stem : Bytes}

theorem step_isDir (stepped : fs.step here name = some next) :
    fs.tree.entry here.place = some .dir := by
  unfold step at stepped
  split at stepped
  · next isDir => exact isDir
  · cases stepped

/-- No name at all leads nowhere else. -/
theorem step_nil (isDir : fs.tree.entry here.place = some .dir) : fs.step here [] = some here := by
  have unlinked : fs.links.lookup here.place = none := by
    rw [AList.lookup_eq_none]
    intro linked
    have missing := (fs.placed _ (AList.mem_keys.mp linked)).2.1
    rw [isDir] at missing
    cases missing
  have stays : enter here.place [] = here.place := by simp [enter]
  rw [step, if_pos isDir, stays, unlinked]

theorem into_eq_some : fs.into here name = some next ↔
    ProperName name ∧ fs.step here name = some next ∧ fs.tree.entry next.place = some .dir := by
  unfold into
  split
  · next proper => simp [Option.filter_eq_some_iff, proper]
  · next improper => simp [improper]

/-- Descents go through directories only. -/
theorem leads_isDir {names : List Name} (isDir : fs.tree.entry here.place = some .dir)
    (led : Descent.leads fs.into here names = some next) :
    fs.tree.entry next.place = some .dir := by
  induction names generalizing here with
  | nil =>
      obtain rfl := Option.some.inj led
      exact isDir
  | cons name names ih =>
      obtain ⟨child, one, rest⟩ := Option.bind_eq_some_iff.mp led
      exact ih (into_eq_some.mp one).2.2 rest

theorem leads_proper {names : List Name} (led : Descent.leads fs.into here names = some next) :
    ∀ name ∈ names, ProperName name := by
  induction names generalizing here with
  | nil => simp
  | cons name names ih =>
      obtain ⟨child, one, rest⟩ := Option.bind_eq_some_iff.mp led
      exact List.forall_mem_cons.mpr ⟨(into_eq_some.mp one).1, ih rest⟩

/-- A name that leads to what is there has no zero byte. -/
theorem zero_notMem_of_step (stepped : fs.step here name = some next)
    (exist : fs.tree.entry next.place ≠ none) : 0 ∉ name := by
  unfold step at stepped
  split at stepped
  · split at stepped
    · obtain rfl := Option.some.inj stepped
      exact zero_notMem_of_enter (FileSystem.entry_proper exist)
    · next link linked =>
      have member := AList.mem_keys.mp (AList.lookup_isSome.mp (Option.isSome_of_mem linked))
      exact zero_notMem_of_enter (fs.placed _ member).2.2.2
  · cases stepped

theorem zero_notMem_of_leads {names : List Name}
    (led : Descent.leads fs.step here names = some next) (exist : fs.tree.entry next.place ≠ none) :
    ∀ name ∈ names, 0 ∉ name := by
  induction names generalizing here with
  | nil => simp
  | cons name names ih =>
      obtain ⟨child, one, rest⟩ := Option.bind_eq_some_iff.mp led
      refine List.forall_mem_cons.mpr ⟨zero_notMem_of_step one ?_, ih rest⟩
      cases names with
      | nil =>
          obtain rfl := Option.some.inj rest
          exact exist
      | cons name' names =>
          obtain ⟨_, two, -⟩ := Option.bind_eq_some_iff.mp rest
          simp [step_isDir two]

/-- A path string that names what is there has no zero byte, so that no call cuts it. -/
theorem cString_of_resolve (found : fs.resolve path = some here)
    (exist : fs.tree.entry here.place ≠ none) : cString path = path := by
  unfold resolve at found
  split at found
  · cases found
  · rw [cString_eq_self]
    intro zero
    obtain ⟨name, member, inside⟩ := exists_mem_components zero (by decide)
    exact zero_notMem_of_leads found exist name member inside

/-- The last name of a path string is read where the others lead to. -/
theorem resolve_slash (path : Bytes) (noSlash : slash ∉ name) : fs.resolve (path ++ slash :: name) =
    (Descent.leads fs.step ⟨origin fs.tree.cwd (path ++ [slash]), 0⟩ (components path)).bind
      (fs.step · name) := by
  have front : origin fs.tree.cwd (path ++ slash :: name) =
      origin fs.tree.cwd (path ++ [slash]) := by
    rw [← List.singleton_append, ← List.append_assoc, origin_append _ (by simp)]
  have whole : components (path ++ slash :: name) = components path ++ [name] := by
    rw [components_append_slash, components_of_notMem noSlash]
  rw [resolve, if_neg (by simp), front, whole, Descent.leads_append]
  congr
  funext here
  simp [Descent.leads]

/-- A string that names in a directory can be put behind. -/
structure Opens (fs : LinkedFs) (stem : Bytes) (here : Spot) : Prop where
  found : fs.resolve stem = some here
  isDir : fs.tree.entry here.place = some .dir
  names : ∀ name, slash ∉ name → fs.resolve (stem ++ name) = fs.step here name

theorem Opens.cString (opens : fs.Opens stem here) : SyncTool.cString stem = stem :=
  cString_of_resolve opens.found (by simp [opens.isDir])

theorem opens_of_slash (found : fs.resolve (path ++ [slash]) = some here)
    (isDir : fs.tree.entry here.place = some .dir) : fs.Opens (path ++ [slash]) here := by
  have split := found
  rw [resolve_slash path (by simp)] at split
  obtain ⟨parent, led, last⟩ := Option.bind_eq_some_iff.mp split
  rw [step_nil (step_isDir last)] at last
  obtain rfl := Option.some.inj last
  refine ⟨found, isDir, fun name noSlash => ?_⟩
  rw [List.append_assoc, List.singleton_append, resolve_slash path noSlash, led, Option.bind_some]

theorem opens_slash (found : fs.resolve path = some here)
    (isDir : fs.tree.entry here.place = some .dir) :
    fs.Opens (path ++ [slash]) here := by
  apply opens_of_slash _ isDir
  unfold resolve at found
  split at found
  · cases found
  · next nonempty =>
      rw [resolve_slash path (by simp), origin_append _ nonempty, found,
        Option.bind_some, step_nil isDir]

theorem Opens.into (opens : fs.Opens stem here) (one : fs.into here name = some next) :
    fs.resolve (stem ++ name) = some next ∧ fs.Opens (stem ++ name ++ [slash]) next := by
  obtain ⟨proper, stepped, isDir⟩ := into_eq_some.mp one
  have found : fs.resolve (stem ++ name) = some next := by
    rw [opens.names name proper.2.1, stepped]
  exact ⟨found, opens_slash found isDir⟩

theorem mem_linkNames {p : Path} : name ∈ fs.linkNames p ↔ p ++ [name] ∈ fs.links := by
  simp only [linkNames, List.mem_filterMap]
  constructor
  · intro ⟨q, member, given⟩
    split at given
    · next split =>
        have whole : q = p ++ [name] := by
          rw [← split.2]
          exact (List.dropLast_append_getLast? name given).symm
        rw [AList.mem_keys, ← whole]
        exact member
    · cases given
  · intro linked
    exact ⟨p ++ [name], AList.mem_keys.mp linked, by simp⟩

/-- A name that stands for a directory is in the listing. -/
theorem Opens.mem_readdir (opens : fs.Opens stem here) (one : fs.into here name = some next)
    {listed : Bytes} (same : fs.resolve listed = some here) : name ∈ fs.readdir listed := by
  obtain ⟨proper, stepped, isDir⟩ := into_eq_some.mp one
  have listing : fs.readdir listed = fs.tree.children here.place ++ fs.linkNames here.place := by
    simp [readdir, same, opens.isDir]
  rw [listing, List.mem_append]
  rw [step, if_pos opens.isDir, enter_of_proper proper] at stepped
  split at stepped
  · next unlinked =>
      left
      obtain rfl := Option.some.inj stepped
      exact FileSystem.mem_children.mpr (by simp [isDir])
  · next link linked =>
      right
      exact mem_linkNames.mpr (AList.lookup_isSome.mp (by simp [linked]))

theorem readdir_proper (member : name ∈ fs.readdir path) : ProperName name := by
  unfold readdir at member
  split at member
  · next here found =>
      split at member
      · rcases List.mem_append.mp member with child | linked
        · exact FileSystem.entry_proper (FileSystem.mem_children.mp child) name (by simp)
        · have placed := fs.placed _ (AList.mem_keys.mp (mem_linkNames.mp linked))
          exact placed.2.2.2 name (by simp)
      · cases member
  · cases member

theorem mem_directories {p : Path} : p ∈ fs.directories ↔ fs.tree.entry p = some .dir := by
  rw [directories, List.mem_filter, decide_eq_true_eq]
  constructor
  · exact And.right
  · intro isDir
    exact ⟨FileSystem.mem_keys_of_entry (by simp [isDir]), isDir⟩

end LinkedFs

end SyncTool
