import SyncTool.LinuxFileUtil
import SyncTool.MachineEffects

set_option autoImplicit false

namespace SyncTool.LinuxFileUtil

open SyncTool.Path

/-- A path string and what it becomes as names are added to it one by one. -/
def stages (path : Bytes) : List Name → List Bytes
  | [] => [path]
  | name :: names => path :: stages (path ++ slash :: name) names

theorem slashPrefixes_name {name : Name} (noSlash : slash ∉ name) (seen rest : Bytes) :
    slashPrefixes seen (name ++ slash :: rest) =
      (seen ++ name) :: slashPrefixes (seen ++ name ++ [slash]) rest := by
  induction name generalizing seen with
  | nil => simp [slashPrefixes]
  | cons byte name ih =>
      have notSlash : byte ≠ slash := fun same => noSlash (by simp [same])
      have tail : slash ∉ name := fun member => noSlash (by simp [member])
      rw [List.cons_append, slashPrefixes, if_neg notSlash, ih tail]
      simp

theorem slashPrefixes_of_notMem {name : Name} (noSlash : slash ∉ name) (seen : Bytes) :
    slashPrefixes seen name = [] := by
  induction name generalizing seen with
  | nil => rfl
  | cons byte name ih =>
      have notSlash : byte ≠ slash := fun same => noSlash (by simp [same])
      have tail : slash ∉ name := fun member => noSlash (by simp [member])
      rw [slashPrefixes, if_neg notSlash, ih tail]

theorem slashPrefixes_below {name : Name} {names : List Name} (noSlash : slash ∉ name)
    (rest : ∀ other ∈ names, slash ∉ other) (seen : Bytes) :
    slashPrefixes seen (name ++ below names) ++ [seen ++ (name ++ below names)] =
      stages (seen ++ name) names := by
  induction names generalizing seen name with
  | nil => simp [stages, slashPrefixes_of_notMem noSlash]
  | cons next names ih =>
      have first := rest next (by simp)
      have later : ∀ other ∈ names, slash ∉ other := fun other member =>
        rest other (by simp [member])
      rw [below_cons, List.cons_append, slashPrefixes_name noSlash, stages, List.cons_append]
      have following := ih first later (seen ++ name ++ [slash])
      simp only [List.append_assoc, List.cons_append, List.nil_append] at following ⊢
      rw [following]

/-- `createDirectory` goes through the components of its path. -/
theorem createDirectory_eq {path : Bytes} {first : Name} {names : List Name}
    (split : components path = first :: names) (mode : UInt32) :
    createDirectory path mode = createEach mode (stages first names) := by
  have noSlash : ∀ name ∈ first :: names, slash ∉ name := fun name member =>
    notMem_of_mem_components path (split ▸ member)
  have later : ∀ other ∈ names, slash ∉ other := fun other member =>
    noSlash other (by simp [member])
  have all := slashPrefixes_below (noSlash first (by simp)) later []
  rw [createDirectory, eq_append_below split]
  simpa using congrArg (createEach mode) all

theorem mem_slashPrefixes {path seen rest : Bytes} (member : path ∈ slashPrefixes seen rest) :
    ∃ more, seen ++ rest = path ++ slash :: more := by
  induction rest generalizing seen with
  | nil => cases member
  | cons byte rest ih =>
      unfold slashPrefixes at member
      split at member
      · next same =>
          rcases List.mem_cons.mp member with rfl | later
          · exact ⟨rest, by rw [same]⟩
          · obtain ⟨more, whole⟩ := ih later
            exact ⟨more, by simpa using whole⟩
      · obtain ⟨more, whole⟩ := ih member
        exact ⟨more, by simpa using whole⟩

/-- What a path string leads through is there if the string leads to something. -/
theorem stat_of_mem_prefixes {fs : FileSystem} {path whole : Bytes} (exist : fs.stat whole ≠ none)
    (member : path ∈ slashPrefixes [] whole ++ [whole]) (nonempty : path ≠ []) :
    fs.stat path ≠ none := by
  rcases List.mem_append.mp member with before | last
  · obtain ⟨more, split⟩ := mem_slashPrefixes before
    rw [List.nil_append] at split
    obtain ⟨p, found, -⟩ := FileSystem.stat_ne_none.mp exist
    obtain ⟨name, names, rest⟩ := List.exists_cons_of_ne_nil (components_ne_nil more)
    rw [split, FileSystem.resolve, if_neg (by simp), components_append_slash, rest,
      FileSystem.walk_append, origin_append _ nonempty] at found
    obtain ⟨here, walked, further⟩ := Option.bind_eq_some_iff.mp found
    unfold FileSystem.walk at further
    split at further
    · next isDir =>
        apply FileSystem.stat_ne_none.mpr
        refine ⟨here, ?_, by simp [isDir]⟩
        rw [FileSystem.resolve, if_neg nonempty, walked]
    · cases further
  · rw [List.mem_singleton.mp last]
    exact exist

/-- There is nothing to do for a path that leads to something. -/
theorem createDirectory_present {policy : Policy} {spins : Prop} {I : Interference World}
    {w : World} (still : ∀ w w', I.rely w w' → w' = w) {path : Bytes}
    (exist : w.fs.stat path ≠ none) (mode : UInt32) :
    Program.Sat (handler policy spins) I (createDirectory path mode)
      (fun made w' => made = true ∧ w' = w) w := by
  have all : ∀ other ∈ slashPrefixes [] path ++ [path], other ≠ [] → w.fs.stat other ≠ none :=
    fun other member nonempty => stat_of_mem_prefixes exist member nonempty
  unfold createDirectory
  generalize slashPrefixes [] path ++ [path] = paths at all
  induction paths with
  | nil => exact fun w' drift => ⟨rfl, still _ _ drift⟩
  | cons other paths ih =>
      have rest := ih fun later member => all later (List.mem_cons_of_mem _ member)
      rw [createEach]
      split
      · exact rest
      · next nonempty =>
          simp only [ensureDirectory, Program.ask_bind, Program.call_bind]
          refine Program.sat_read (fun _ _ => rfl) fun w₁ drift₁ _ _ => ?_
          rw [still _ _ drift₁]
          have there := Option.isSome_iff_ne_none.mpr (all other List.mem_cons_self nonempty)
          rw [if_pos there]
          exact rest

/-- No `mkdir` finds its name taken since the `stat` before it. -/
def Unraced (policy : Policy) (I : Interference World) : Prop :=
  (∀ w w', I.rely w w' → w' = w) ∨
    ∀ path mode choice w, policy (.mkdir path mode) choice w →
      ∀ p, w.fs.resolve path = some p → w.fs.entry p = none

section

variable {policy : Policy} {spins : Prop} {space : Nat → Prop} {I : Interference World}
  {e : Estate} {w : World}

theorem ensureDirectory_sat (sound : ∀ op choice w, policy op choice w →
      Policy.reliable space op choice w)
    (le : I.Le e.interference) (unraced : Unraced policy I) {path : Bytes} {p : Path}
    (found : w.fs.resolve path = some p) (here : e.Open w p) (mode : UInt32) :
    Program.Sat (handler policy spins) I (ensureDirectory path mode)
      (fun made w' => made = true ∧ w'.fs.entry p = some .dir ∧ e.Rely w w') w := by
  simp only [ensureDirectory, Program.ask_bind]
  refine Program.sat_read (fun _ _ => rfl) fun w₁ drift₁ _ _ => ?_
  have rely₁ := le.1 _ _ drift₁
  have found₁ := rely₁.dirs.resolve found
  by_cases exist : (w₁.fs.stat path).isSome = true
  · rw [if_pos exist]
    obtain ⟨q, foundAgain, occupied⟩ :=
      FileSystem.stat_ne_none.mp (Option.isSome_iff_ne_none.mp exist)
    have same : p = q := Option.some.inj (found₁.symm.trans foundAgain)
    subst same
    have isDir : w₁.fs.entry p = some .dir := by
      rcases here.rely rely₁ with isDir | ⟨-, missing⟩
      · exact isDir
      · exact absurd missing occupied
    intro w₂ drift₂
    have rely₂ := le.1 _ _ drift₂
    exact ⟨rfl, rely₂.dirs.2 p isDir, rely₁.trans e rely₂⟩
  · rw [if_neg exist]
    have missing : w₁.fs.entry p = none := by
      by_contra occupied
      exact exist (Option.isSome_iff_ne_none.mpr
        (FileSystem.stat_ne_none.mpr ⟨p, found₁, occupied⟩))
    refine Program.sat_op.mpr fun w₂ drift₂ choice allowed => ?_
    have rely₂ := le.1 _ _ drift₂
    have found₂ := rely₂.dirs.resolve found₁
    have still : w₂.fs.entry p = none := by
      rcases unraced with alone | free
      · rw [alone _ _ drift₂, missing]
      · exact free _ _ _ _ allowed p found₂
    have mine : p ∈ e.grows := by
      rcases here.rely (rely₁.trans e rely₂) with isDir | ⟨mine, -⟩
      · rw [still] at isDir
        cases isDir
      · exact mine
    obtain ⟨made, change⟩ :=
      run_mkdir_free (sound _ _ _ allowed).1 found₂ still (e.proper p mine) mode
    refine ⟨le.2 _ _ (Estate.guar_of_grow change mine still), fun w₃ drift₃ => ?_⟩
    have rely₃ := le.1 _ _ drift₃
    exact ⟨made, rely₃.dirs.2 p change.entry_self,
      rely₁.trans e (rely₂.trans e ((Estate.rely_of_grow change mine).trans e rely₃))⟩

/-- The rounds of `createDirectory` from one stage of the path on. -/
theorem createStages_sat (sound : ∀ op choice w, policy op choice w →
      Policy.reliable space op choice w)
    (le : I.Le e.interference) (unraced : Unraced policy I) {path : Bytes} {p : Path}
    {names : List Name} (noSlash : ∀ name ∈ names, slash ∉ name)
    (found : path = [] ∧ p = [] ∨ path ≠ [] ∧ w.fs.resolve path = some p)
    (way : ∀ q ∈ names.scanl enter p, e.Open w q) (mode : UInt32) :
    Program.Sat (handler policy spins) I (createEach mode (stages path names))
      (fun made w' => made = true ∧ w'.fs.entry (names.foldl enter p) = some .dir ∧
        (path ++ below names ≠ [] →
          w'.fs.resolve (path ++ below names) = some (names.foldl enter p)) ∧ e.Rely w w') w := by
  induction names generalizing path p w with
  | nil =>
      simp only [stages, createEach, List.foldl_nil, below_nil, List.append_nil]
      rcases found with ⟨rfl, rfl⟩ | ⟨nonempty, found⟩
      · rw [if_pos rfl]
        intro w' drift
        exact ⟨rfl, w'.fs.entry_root, fun h => absurd rfl h, le.1 _ _ drift⟩
      · rw [if_neg nonempty]
        refine Program.Sat.bind ((ensureDirectory_sat sound le unraced found
          (way p (by simp)) mode).weaken ?_)
        rintro made w₁ ⟨rfl, isDir, rely₁⟩ w₂ drift₂
        have rely₂ := le.1 _ _ drift₂
        exact ⟨rfl, rely₂.dirs.2 p isDir,
          fun _ => rely₂.dirs.resolve (rely₁.dirs.resolve found), rely₁.trans e rely₂⟩
  | cons name names ih =>
      have here : e.Open w p := way p (by simp [List.scanl_cons])
      have rest : ∀ q ∈ names.scanl enter (enter p name), e.Open w q := fun q member =>
        way q (by simp [List.scanl_cons, member])
      have first := noSlash name (by simp)
      have later : ∀ other ∈ names, slash ∉ other := fun other member =>
        noSlash other (by simp [member])
      have joined : path ++ below (name :: names) = path ++ slash :: name ++ below names := by simp
      rw [joined, List.foldl_cons]
      simp only [stages, createEach]
      rcases found with ⟨rfl, rfl⟩ | ⟨nonempty, found⟩
      · rw [if_pos rfl]
        exact ih later (.inr ⟨by simp, w.fs.resolve_root_slash first⟩) rest
      · rw [if_neg nonempty]
        refine Program.Sat.bind ((ensureDirectory_sat sound le unraced found here mode).weaken ?_)
        rintro made w₁ ⟨rfl, isDir, rely₁⟩
        have next := FileSystem.resolve_slash (rely₁.dirs.resolve found) isDir first
        refine (ih later (.inr ⟨by simp, next⟩) fun q member =>
          (rest q member).rely rely₁).weaken ?_
        rintro made w₂ ⟨rfl, reached, resolved, rely₂⟩
        exact ⟨rfl, reached, resolved, rely₁.trans e rely₂⟩

/-- The places a path string leads through, from where it starts to where it ends. -/
def trail (cwd : Path) (path : Bytes) : List Path :=
  (components path).scanl enter (origin cwd path)

theorem place_mem_trail (cwd : Path) (path : Bytes) : place cwd path ∈ trail cwd path := by
  rw [place, trail]
  exact List.mem_of_getLast? List.getLast?_scanl

/-- Unless its `mkdir`s are raced, `createDirectory` makes every directory on the way. -/
theorem createDirectory_sat (sound : ∀ op choice w, policy op choice w →
      Policy.reliable space op choice w)
    (le : I.Le e.interference) (unraced : Unraced policy I) {path : Bytes} (nonempty : path ≠ [])
    (home : w.fs.entry (origin w.fs.cwd path) = some .dir)
    (way : ∀ q ∈ trail w.fs.cwd path, e.Open w q) (mode : UInt32) :
    Program.Sat (handler policy spins) I (createDirectory path mode)
      (fun made w' => made = true ∧ w'.fs.entry (place w.fs.cwd path) = some .dir ∧
        w'.fs.resolve path = some (place w.fs.cwd path) ∧ e.Rely w w') w := by
  obtain ⟨first, names, split⟩ := List.exists_cons_of_ne_nil (components_ne_nil path)
  have noSlash : ∀ name ∈ first :: names, slash ∉ name := fun name member =>
    notMem_of_mem_components path (split ▸ member)
  have whole := eq_append_below split
  have start : first = [] ∧ enter (origin w.fs.cwd path) first = [] ∨
      first ≠ [] ∧ w.fs.resolve first = some (enter (origin w.fs.cwd path) first) := by
    by_cases blank : first = []
    · subst blank
      have absolute : origin w.fs.cwd path = [] := by
        cases names with
        | nil => exact absurd whole nonempty
        | cons name names => simp [origin, whole]
      exact .inl ⟨rfl, by simp [absolute, enter]⟩
    · have relative : origin w.fs.cwd path = w.fs.cwd := by
        have same := origin_append w.fs.cwd blank (below names)
        rw [← whole] at same
        rw [same, origin, if_neg]
        intro absolute
        exact noSlash first (by simp) (List.mem_of_mem_head? absolute)
      rw [relative] at home ⊢
      exact .inr ⟨blank, FileSystem.resolve_of_notMem blank (noSlash first (by simp)) home⟩
  have after : ∀ q ∈ names.scanl enter (enter (origin w.fs.cwd path) first), e.Open w q := by
    intro q member
    refine way q ?_
    rw [trail, split, List.scanl_cons]
    exact List.mem_cons_of_mem _ member
  rw [createDirectory_eq split]
  refine (createStages_sat sound le unraced
    (fun other member => noSlash other (by simp [member])) start after mode).weaken ?_
  rintro made w' ⟨rfl, reached, resolved, drift⟩
  have here : place w.fs.cwd path = names.foldl enter (enter (origin w.fs.cwd path) first) := by
    rw [place, split, List.foldl_cons]
  rw [here]
  rw [← whole] at resolved
  exact ⟨rfl, reached, resolved nonempty, drift⟩

end

end SyncTool.LinuxFileUtil
