import Mathlib.Data.List.Basic
import Mathlib.Data.List.Infix
import Mathlib.Data.List.TakeWhile

set_option autoImplicit false

namespace SyncTool

abbrev Bytes := List UInt8

/-- A file name; path strings are cut into names at their slashes. -/
abbrev Name := Bytes

/-- Where a file lives: the names that lead to it from the root. -/
abbrev Path := List Name

/-- The text that a pointer to bytes stands for. -/
def cString (bytes : Bytes) : Bytes := bytes.takeWhile (· ≠ 0)

theorem length_cString (text : Bytes) : (cString text).length ≤ text.length :=
  (List.takeWhile_sublist _).length_le

theorem cString_eq_self {text : Bytes} : cString text = text ↔ 0 ∉ text := by
  unfold cString
  rw [List.takeWhile_eq_self_iff]
  constructor
  · intro all member
    have := all 0 member
    simp at this
  · intro absent byte member
    simp only [ne_eq, decide_eq_true_eq]
    rintro rfl
    exact absent member

/-- Nothing behind a zero byte is seen. -/
theorem cString_append {text : Bytes} (zero : 0 ∈ text) (more : Bytes) :
    cString (text ++ more) = cString text := by
  unfold cString
  rw [List.takeWhile_append, if_neg]
  intro whole
  have all := List.takeWhile_eq_self_iff.mp ((List.takeWhile_prefix _).eq_of_length whole)
  simpa using all 0 zero

namespace Path

def slash : UInt8 := 47
def dot : Name := [46]
def dotdot : Name := [46, 46]

/-- A name a directory can hold. -/
def ProperName (name : Name) : Prop :=
  name ≠ [] ∧ slash ∉ name ∧ 0 ∉ name ∧ name ≠ dot ∧ name ≠ dotdot

instance (name : Name) : Decidable (ProperName name) :=
  inferInstanceAs (Decidable (_ ∧ _))

def components (path : Bytes) : List Name := path.splitOn slash

/-- Where a path string starts from: the root, or the working directory. -/
def origin (cwd : Path) (path : Bytes) : Path :=
  if path.head? = some slash then [] else cwd

/-- One component of a path string, read against the place reached so far. -/
def enter (here : Path) (name : Name) : Path :=
  if name = [] ∨ name = dot then here
  else if name = dotdot then here.dropLast
  else here ++ [name]

/-- The place a path string denotes where no symbolic link is on the way. -/
def place (cwd : Path) (path : Bytes) : Path :=
  (components path).foldl enter (origin cwd path)

/-- The string that leads from a directory down to a place below it. -/
def below (names : Path) : Bytes := names.flatMap fun name => slash :: name

@[simp] theorem below_nil : below [] = [] := rfl

@[simp] theorem below_cons (name : Name) (names : Path) :
    below (name :: names) = slash :: name ++ below names := rfl

theorem exists_below_eq {names : Path} (nonempty : names ≠ []) :
    ∃ rest, below names = slash :: rest := by
  obtain ⟨first, later, rfl⟩ := List.exists_cons_of_ne_nil nonempty
  exact ⟨first ++ below later, by simp⟩

theorem below_append (first second : Path) :
    below (first ++ second) = below first ++ below second := by
  simp only [below, List.flatMap_append]

theorem components_append_slash (path rest : Bytes) :
    components (path ++ slash :: rest) = components path ++ components rest :=
  List.splitOn_append_cons_self path rest

theorem components_of_notMem {name : Name} (noSlash : slash ∉ name) : components name = [name] :=
  List.splitOn_eq_singleton noSlash

/-- What is no slash is in one of the names. -/
theorem exists_mem_components {path : Bytes} {byte : UInt8} (member : byte ∈ path)
    (other : byte ≠ slash) : ∃ name ∈ components path, byte ∈ name := by
  rw [← @List.intercalate_splitOn _ path _ _ slash] at member
  change byte ∈ [slash].intercalate (components path) at member
  generalize components path = names at member ⊢
  induction names with
  | nil => cases member
  | cons name names ih =>
      by_cases last : names = []
      · rw [last, List.intercalate_singleton] at member
        exact ⟨name, List.mem_cons_self, member⟩
      · rw [List.intercalate_cons_of_ne_nil last, List.mem_append, List.mem_append] at member
        rcases member with (here | cut) | later
        · exact ⟨name, List.mem_cons_self, here⟩
        · exact absurd (List.mem_singleton.mp cut) other
        · obtain ⟨name', inside, holds⟩ := ih later
          exact ⟨name', List.mem_cons_of_mem _ inside, holds⟩

theorem components_ne_nil (path : Bytes) : components path ≠ [] :=
  List.splitOn_ne_nil slash path

theorem components_below {path : Bytes} {names : Path} (noSlash : ∀ name ∈ names, slash ∉ name) :
    components (path ++ below names) = components path ++ names := by
  induction names generalizing path with
  | nil => simp
  | cons name names ih =>
      have first := noSlash name (by simp)
      have rest : ∀ other ∈ names, slash ∉ other :=
        fun other member => noSlash other (by simp [member])
      have split : path ++ below (name :: names) = (path ++ slash :: name) ++ below names := by
        simp
      rw [split, ih rest, components_append_slash, components_of_notMem first]
      simp

theorem origin_append (cwd : Path) {path : Bytes} (nonempty : path ≠ []) (rest : Bytes) :
    origin cwd (path ++ rest) = origin cwd path := by
  cases path with
  | nil => exact absurd rfl nonempty
  | cons byte path => rfl

theorem enter_of_proper {name : Name} (proper : ProperName name) (here : Path) :
    enter here name = here ++ [name] := by
  obtain ⟨nonempty, -, -, notDot, notDotdot⟩ := proper
  simp only [enter, nonempty, notDot, notDotdot, or_self, ↓reduceIte]

/-- A name that leads to a place with proper names has no zero byte. -/
theorem zero_notMem_of_enter {here : Path} {name : Name}
    (proper : ∀ other ∈ enter here name, ProperName other) : 0 ∉ name := by
  unfold enter at proper
  split at proper
  · next stays =>
    rcases stays with rfl | rfl
    · decide
    · decide
  · split at proper
    · next up =>
      subst up
      decide
    · exact (proper name (by simp)).2.2.1

theorem foldl_enter_of_proper {names : Path} (proper : ∀ name ∈ names, ProperName name)
    (here : Path) : names.foldl enter here = here ++ names := by
  induction names generalizing here with
  | nil => simp
  | cons name names ih =>
      have rest : ∀ other ∈ names, ProperName other :=
        fun other member => proper other (by simp [member])
      rw [List.foldl_cons, enter_of_proper (proper name (by simp)), ih rest]
      simp

/-- The places that proper names lead through. -/
theorem mem_scanl_enter {names : Path} (proper : ∀ name ∈ names, ProperName name) {here p : Path}
    (member : p ∈ names.scanl enter here) : ∃ front, front <+: names ∧ p = here ++ front := by
  induction names generalizing here with
  | nil => exact ⟨[], List.nil_prefix, by simpa using member⟩
  | cons name names ih =>
      have rest : ∀ other ∈ names, ProperName other :=
        fun other member => proper other (by simp [member])
      rw [List.scanl_cons, enter_of_proper (proper name (by simp))] at member
      rcases List.mem_cons.mp member with rfl | later
      · exact ⟨[], List.nil_prefix, by simp⟩
      · obtain ⟨front, before, rfl⟩ := ih rest later
        exact ⟨name :: front, List.cons_prefix_cons.mpr ⟨rfl, before⟩, by simp⟩

theorem place_below (cwd : Path) {path : Bytes} (nonempty : path ≠ []) {names : Path}
    (proper : ∀ name ∈ names, ProperName name) :
    place cwd (path ++ below names) = place cwd path ++ names := by
  have noSlash : ∀ name ∈ names, slash ∉ name := fun name member => (proper name member).2.1
  rw [place, components_below noSlash, List.foldl_append, origin_append cwd nonempty,
    foldl_enter_of_proper proper]
  rfl

/-- A path string is its components with slashes between them. -/
theorem eq_append_below {path : Bytes} {first : Name} {names : List Name}
    (split : components path = first :: names) : path = first ++ below names := by
  have joined : [slash].intercalate (components path) = path := List.intercalate_splitOn slash
  rw [split] at joined
  rw [← joined]
  clear split joined
  induction names generalizing first with
  | nil => simp [List.intercalate]
  | cons name names ih =>
      rw [below_cons, List.cons_append, ← ih]
      simp [List.intercalate, List.intersperse]

theorem eq_of_components {path : Bytes} {name : Name} (split : components path = [name]) :
    path = name := by
  rw [eq_append_below split]
  exact List.append_nil name

theorem components_cons (byte : UInt8) (path : Bytes) :
    components (byte :: path) =
      if byte = slash then [] :: components path
      else (components path).modifyHead (byte :: ·) := by
  simp [components, List.splitOn, List.splitOnP_cons_eq_if_modifyHead]

theorem notMem_of_mem_components (path : Bytes) {name : Name}
    (member : name ∈ components path) : slash ∉ name := by
  induction path generalizing name with
  | nil =>
      have only : name = [] := by simpa [components] using member
      simp [only]
  | cons byte path ih =>
      rw [components_cons] at member
      split at member
      · rcases List.mem_cons.mp member with rfl | later
        · simp
        · exact ih later
      · rename_i notSlash
        obtain ⟨first, rest, split⟩ := List.exists_cons_of_ne_nil (components_ne_nil path)
        rw [split, List.modifyHead_cons] at member
        rcases List.mem_cons.mp member with rfl | later
        · have old := @ih first (by simp [split])
          simp [old, Ne.symm notSlash]
        · exact ih (by simp [split, later])

/-- The last component of a path string, and what stands before the slash in front of it. -/
theorem eq_append_slash {path : Bytes} {init : List Name} {last : Name}
    (split : components path = init ++ [last]) (some : init ≠ []) :
    ∃ parent, path = parent ++ slash :: last ∧ components parent = init := by
  obtain ⟨first, rest, rfl⟩ := List.exists_cons_of_ne_nil some
  have noSlash : ∀ name ∈ first :: rest, slash ∉ name := fun name member =>
    notMem_of_mem_components path (by rw [split]; exact List.mem_append_left _ member)
  refine ⟨first ++ below rest, ?_, ?_⟩
  · have whole : path = first ++ below (rest ++ [last]) := eq_append_below (by simpa using split)
    rw [whole, below_append]
    simp
  · rw [components_below fun name member => noSlash name (by simp [member]),
      components_of_notMem (noSlash first (by simp))]
    rfl

/-- A suffix without a slash goes to the last component. -/
theorem components_append {path suffix : Bytes} {front : List Name} {name : Name}
    (split : components path = front ++ [name]) (noSlash : slash ∉ suffix) :
    components (path ++ suffix) = front ++ [name ++ suffix] := by
  have cut : slash ∉ name := notMem_of_mem_components path (by simp [split])
  have whole : slash ∉ name ++ suffix := by simp [cut, noSlash]
  by_cases relative : front = []
  · subst relative
    have same : path = name := eq_of_components split
    rw [same, components_of_notMem whole]
    rfl
  · obtain ⟨parent, same, comps⟩ := eq_append_slash split relative
    rw [same, List.append_assoc, List.cons_append, components_append_slash,
      components_of_notMem whole, comps]

/-- The place of a path string with a suffix lies beside the place of the path string. -/
theorem place_append {cwd : Path} {path suffix : Bytes} {front : List Name} {name : Name}
    (split : components path = front ++ [name])
    (ordinary : name ≠ [] ∧ name ≠ dot ∧ name ≠ dotdot) (noSlash : slash ∉ suffix)
    (long : 2 < suffix.length) :
    place cwd (path ++ suffix) = front.foldl enter (origin cwd path) ++ [name ++ suffix] := by
  have nonempty : path ≠ [] := by
    rintro rfl
    have only : front ++ [name] = [] ++ [[]] := split.symm
    obtain ⟨-, last⟩ := List.append_inj' only rfl
    exact ordinary.1 (by simpa using last)
  have longer : 2 < (name ++ suffix).length := by
    rw [List.length_append]
    omega
  rw [place, components_append split noSlash, origin_append _ nonempty, List.foldl_append,
    List.foldl_cons, List.foldl_nil, enter, if_neg, if_neg]
  · intro same
    rw [same] at longer
    exact absurd longer (by decide)
  · rintro (same | same) <;> rw [same] at longer <;> exact absurd longer (by decide)

end Path

end SyncTool
