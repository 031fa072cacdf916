import SyncTool.SyncLocalTurn
import SyncTool.TreeSettled

set_option autoImplicit false

namespace SyncTool

open SyncTool.Path LinuxFileUtil FileSync

/-- The nodes that a detection of changes gives tasks for. -/
def tasked (md5 : Md5) (fs : FileSystem) (srcDir destDir : Bytes) : Set Path :=
  {names | names ≠ [] ∧ fs.under srcDir names ≠ none ∧ ¬ Spared md5 fs srcDir destDir names}

/-- What holds once all tasks have been executed. -/
structure Executed (sync : FileSync) (fs : FileSystem) (destDir : Bytes) (src dest : Path)
    (tasked : Set Path) (fs' : FileSystem) : Prop where
  settled : ∀ names ∈ tasked, Settled sync fs destDir src dest names fs'
  kept : FileSystem.DirsKept fs fs'
  others : ∀ p, p ∉ growth fs src dest → (∀ names, ¬ Written sync fs src dest tasked names p) →
    fs'.entry p = fs.entry p

/-- What the tasks of a plan must cover: there are some, all for nodes of the source, and every
directory that the destination lacks has one. -/
structure CoversTree (fs : FileSystem) (src dest : Path) (tasked : Set Path) : Prop where
  inhabited : tasked.Nonempty
  nodes : ∀ names ∈ tasked, names ≠ [] ∧ fs.entry (src ++ names) ≠ none
  dirs : ∀ names, names ≠ [] → fs.entry (src ++ names) = some .dir →
    fs.entry (dest ++ names) = none →
    names ∈ tasked

namespace Executed

section

variable {self : FileSync} {fs fs₁ fs₂ : FileSystem} {srcDir destDir : Bytes} {src dest : Path}
  {tasked : Set Path}

/-- What is missing on the way to the destination has been made for the tasks. -/
theorem way_made (covers : CoversTree fs src dest tasked)
    (executed : Executed self fs destDir src dest tasked fs₁) {p : Path} (before : p <+: dest)
    (missing : fs.entry p = none) : fs₁.entry p = some .dir := by
  obtain ⟨rest, rfl⟩ := before
  obtain ⟨names, member⟩ := covers.inhabited
  obtain ⟨nonempty, there⟩ := covers.nodes names member
  have more : rest ++ names ≠ [] := by simp [nonempty]
  have free : fs.entry (p ++ rest ++ names) = none := by
    by_contra exist
    rw [List.append_assoc] at exist
    rw [FileSystem.entry_of_append more exist] at missing
    cases missing
  apply FileSystem.entry_of_append more
  rw [← List.append_assoc]
  obtain ⟨entry, kind⟩ := Option.ne_none_iff_exists'.mp there
  cases entry with
  | dir =>
      rw [(executed.settled names member).dir kind]
      exact Option.some_ne_none _
  | file content =>
      have blank : fs.contentAt (p ++ rest ++ names) = none := FileSystem.contentAt_of_entry free
      have proceeds : CopyProceeds self fs src (p ++ rest) names :=
        ⟨⟨content, kind⟩, fun exist => absurd blank exist⟩
      rw [((executed.settled names member).copied content kind proceeds).1]
      exact Option.some_ne_none _

/-- Wherever directories may be made, there is one afterwards. -/
theorem growth_made (trees : Trees fs srcDir destDir src dest)
    (covers : CoversTree fs src dest tasked)
    (executed : Executed self fs destDir src dest tasked fs₁) {p : Path}
    (member : p ∈ growth fs src dest) :
    fs₁.entry p = some .dir := by
  rcases trees.overlay.growth_notFile member with missing | isDir
  · obtain ⟨-, before | ⟨names, rfl, sourceDir⟩⟩ := member
    · exact executed.way_made covers before missing
    · by_cases first : names = []
      · rw [first, List.append_nil] at missing ⊢
        exact executed.way_made covers List.prefix_rfl missing
      · exact (executed.settled names (covers.dirs names first sourceDir missing)).dir sourceDir
  · exact executed.kept.2 p isDir

/-- The outcome is determined by the tasks. -/
theorem unique (trees : Trees fs srcDir destDir src dest) (covers : CoversTree fs src dest tasked)
    (first : Executed self fs destDir src dest tasked fs₁)
    (second : Executed self fs destDir src dest tasked fs₂) (p : Path) :
    fs₁.entry p = fs₂.entry p := by
  by_cases written : ∃ names, Written self fs src dest tasked names p
  · obtain ⟨names, written⟩ := written
    cases written with
    | dest member proceeds =>
        obtain ⟨content, file⟩ := proceeds.1
        rw [((first.settled names member).copied content file proceeds).1,
          ((second.settled names member).copied content file proceeds).1]
    | record member proceeds =>
        obtain ⟨content, file⟩ := proceeds.1
        rw [((first.settled names member).copied content file proceeds).2.1,
          ((second.settled names member).copied content file proceeds).2.1]
    | backup member proceeds renames =>
        obtain ⟨content, file⟩ := proceeds.1
        rw [((first.settled names member).copied content file proceeds).2.2 renames,
          ((second.settled names member).copied content file proceeds).2.2 renames]
  · by_cases grown : p ∈ growth fs src dest
    · rw [first.growth_made trees covers grown, second.growth_made trees covers grown]
    · rw [first.others p grown (not_exists.mp written),
        second.others p grown (not_exists.mp written)]

end

end Executed

namespace Separate

variable {self : FileSync} {fs : FileSystem} {srcDir destDir : Bytes} {src dest : Path}
  {tasked : Set Path} {w w' : World}

/-- Somebody without a task, looking at a place that no task touches. -/
def bystander (self : FileSync) (fs : FileSystem) (src dest : Path) (tasked : Set Path) (q : Path) :
    Estate where
  writes := ∅
  reads := {p | p = q ∧ p ∉ growth fs src dest ∧ ∀ names, ¬ Written self fs src dest tasked names p}
  grows := growth fs src dest
  keys := ∅
  unwritten _ _ := id
  unread _ grown inside := inside.2.1 grown
  proper _ grown := growth_proper grown

variable (separate : Separate self fs src dest tasked) (trees : Trees fs srcDir destDir src dest)

/-- The tasks have their shares; all the rest is left to bystanders. -/
def part : Path ⊕ Path → Estate
  | .inl names => separate.share trees names
  | .inr q => bystander self fs src dest tasked q

theorem part_apart (nonempty : ∀ names ∈ tasked, names ≠ []) {i j : Path ⊕ Path} (other : i ≠ j) :
    Estate.Apart (separate.part trees i) (separate.part trees j) := by
  cases i with
  | inl names =>
      cases j with
      | inl names' =>
          exact separate.share_apart trees nonempty fun same => other (congrArg Sum.inl same)
      | inr q =>
          constructor
          · intro p written
            refine ⟨id, fun inside => inside.2.2 names written, ?_⟩
            exact separate.written_notMem_growth trees written
          · exact fun p grown => ⟨id, fun inside => inside.2.1 grown⟩
          · exact fun key _ => id
  | inr q =>
      cases j with
      | inl names =>
          constructor
          · exact fun p impossible => impossible.elim
          · intro p grown
            refine ⟨fun written => separate.written_notMem_growth trees written grown, ?_⟩
            exact fun watched => watched_notMem_growth trees watched grown
          · exact fun key impossible => impossible.elim
      | inr q' =>
          constructor
          · exact fun p impossible => impossible.elim
          · exact fun p grown => ⟨id, fun inside => inside.2.1 grown⟩
          · exact fun key impossible => impossible.elim

/-- What everybody is to reach. -/
def Goal (self : FileSync) (fs : FileSystem) (destDir : Bytes) (src dest : Path)
    (tasked : Set Path) :
    Path ⊕ Path → World → Prop
  | .inl names, w' => names ∈ tasked → Settled self fs destDir src dest names w'.fs
  | .inr _, _ => True

theorem goal_rely {i : Path ⊕ Path} (drift : (separate.part trees i).Rely w w')
    (reached : Goal self fs destDir src dest tasked i w) :
    Goal self fs destDir src dest tasked i w' := by
  cases i with
  | inl names => exact fun member => separate.settled_rely trees member (reached member) drift
  | inr q => trivial

/-- When everybody has reached their goal, the tasks have been executed. -/
theorem executed_of (start : w.fs = fs) (jobs : List Path) (all : ∀ names ∈ tasked, names ∈ jobs)
    (goals : ∀ names ∈ jobs, Goal self fs destDir src dest tasked (.inl names) w')
    (rest : ∀ q, (separate.part trees (.inr q)).Rely w w') :
    Executed self fs destDir src dest tasked w'.fs where
  settled names member := goals names (all names member) member
  kept := start ▸ (rest []).dirs
  others p notGrown unwritten := start ▸ (rest p).reads p ⟨rfl, notGrown, unwritten⟩

variable {policy : Policy} {spins : Prop} {fuel : Nat}

/-- The task of a job, run alone. -/
theorem works (nonempty : ∀ names ∈ tasked, names ≠ [])
    (sound : ∀ op choice w, policy op choice w → Policy.reliable (Roomy fs) op choice w)
    (enough : ∀ names content, fs.entry (src ++ names) = some (.file content) →
      Enough spins content.length fuel)
    {names : Path} (member : names ∈ tasked) (there : fs.entry (src ++ names) ≠ none)
    (start : w.fs = fs) (drift : (separate.part trees (.inl names)).Rely w w') :
    Program.Sat (handler policy spins) (separate.part trees (.inl names)).interference.solo
      (executeSyncTask self fuel (taskAt fs srcDir destDir src names))
      (fun ok w'' => (ok = true ↔ Succeeds self fs src dest names) ∧
        Goal self fs destDir src dest tasked (.inl names) w'') w' := by
  obtain ⟨node, here⟩ : ∃ node, fs.lookup (src ++ names) = some node := by
    apply Option.ne_none_iff_exists'.mp
    intro missing
    exact there (by simp [FileSystem.entry, missing])
  have alone : ∀ w w', (separate.part trees (.inl names)).interference.solo.rely w w' → w' = w :=
    fun _ _ same => Eq.symm same
  rw [taskAt, here, Option.getD_some]
  apply (separate.task_settles trees nonempty sound member here ?_ (Interference.solo_le _)
    (.inl alone) start drift).weaken
  · rintro ok w'' ⟨told, settled⟩
    exact ⟨told, fun _ => settled⟩
  · intro content file
    exact enough names content (by simp [FileSystem.entry, here, file])

/-- What everybody runs. -/
def job (self : FileSync) (fuel : Nat) (fs : FileSystem) (srcDir destDir : Bytes) (src : Path) :
    Path ⊕ Path → Prog Bool
  | .inl names => executeSyncTask self fuel (taskAt fs srcDir destDir src names)
  | .inr _ => pure true

variable {jobs : List Path}

include separate trees in
/-- The jobs of a plan, run one after the other whatever they return. -/
theorem inOrder_executed (nodes : ∀ names ∈ tasked, names ≠ [] ∧ fs.entry (src ++ names) ≠ none)
    (sound : ∀ op choice w, policy op choice w → Policy.reliable (Roomy fs) op choice w)
    (enough : ∀ names content, fs.entry (src ++ names) = some (.file content) →
      Enough spins content.length fuel)
    (distinct : jobs.Nodup) (same : ∀ names, names ∈ jobs ↔ names ∈ tasked) (start : w.fs = fs) :
    Program.Sat (handler policy spins) Interference.free
      (Program.inOrder (jobs.map fun names =>
        executeSyncTask self fuel (taskAt fs srcDir destDir src names)))
      (fun _ w' => Executed self fs destDir src dest tasked w'.fs) w := by
  have nonempty : ∀ names ∈ tasked, names ≠ [] := fun names member => (nodes names member).1
  have programs :
      (jobs.map fun names => executeSyncTask self fuel (taskAt fs srcDir destDir src names)) =
      (jobs.map Sum.inl).map (job self fuel fs srcDir destDir src) := by
    rw [List.map_map]
    rfl
  rw [programs]
  apply (Program.inOrder_sat (fun i => (separate.part trees i).interference)
    (Goal self fs destDir src dest tasked) ?_ ?_ ?_ (distinct.map Sum.inl_injective)).weaken
  · rintro _ w' ⟨goals, rest⟩
    apply separate.executed_of trees start jobs fun names member => (same names).mpr member
    · exact fun names member => goals _ (List.mem_map_of_mem member)
    · exact fun q => rest (.inr q) (by simp)
  · intro i j other w₁ w₂ did
    exact did.rely (separate.part_apart trees nonempty other.symm)
  · exact fun i w₁ w₂ drift reached => separate.goal_rely trees drift reached
  · intro i member w₁ drift
    obtain ⟨names, inside, rfl⟩ := List.mem_map.mp member
    have task := (same names).mp inside
    apply (separate.works trees nonempty sound enough task (nodes names task).2 start drift).weaken
    rintro ok w₂ ⟨-, reached⟩
    exact reached

include separate trees in
/-- The same as long as they return true. -/
theorem inTurn_executed (nodes : ∀ names ∈ tasked, names ≠ [] ∧ fs.entry (src ++ names) ≠ none)
    (sound : ∀ op choice w, policy op choice w → Policy.reliable (Roomy fs) op choice w)
    (enough : ∀ names content, fs.entry (src ++ names) = some (.file content) →
      Enough spins content.length fuel)
    (distinct : jobs.Nodup) (same : ∀ names, names ∈ jobs ↔ names ∈ tasked) (start : w.fs = fs) :
    Program.Sat (handler policy spins) Interference.free
      (Program.inTurn (jobs.map fun names =>
        executeSyncTask self fuel (taskAt fs srcDir destDir src names)))
      (fun ok w' => (ok = true ↔ ∀ names ∈ tasked, Succeeds self fs src dest names) ∧
        (ok = true → Executed self fs destDir src dest tasked w'.fs)) w := by
  have nonempty : ∀ names ∈ tasked, names ≠ [] := fun names member => (nodes names member).1
  have programs :
      (jobs.map fun names => executeSyncTask self fuel (taskAt fs srcDir destDir src names)) =
      (jobs.map Sum.inl).map (job self fuel fs srcDir destDir src) := by
    rw [List.map_map]
    rfl
  rw [programs]
  apply (Program.inTurn_verdict (fun i => (separate.part trees i).interference)
    (Goal self fs destDir src dest tasked) (Sum.elim (Succeeds self fs src dest) fun _ => True)
    ?_ ?_ ?_ (distinct.map Sum.inl_injective)).weaken
  · rintro ok w' ⟨verdict, outcome⟩
    constructor
    · rw [verdict]
      constructor
      · intro each names member
        exact each _ (List.mem_map_of_mem ((same names).mpr member))
      · intro each i member
        obtain ⟨names, inside, rfl⟩ := List.mem_map.mp member
        exact each names ((same names).mp inside)
    · intro right
      obtain ⟨goals, rest⟩ := outcome right
      apply separate.executed_of trees start jobs fun names member => (same names).mpr member
      · exact fun names member => goals _ (List.mem_map_of_mem member)
      · exact fun q => rest (.inr q) (by simp)
  · intro i j other w₁ w₂ did
    exact did.rely (separate.part_apart trees nonempty other.symm)
  · exact fun i w₁ w₂ drift reached => separate.goal_rely trees drift reached
  · intro i member w₁ drift
    obtain ⟨names, inside, rfl⟩ := List.mem_map.mp member
    have task := (same names).mp inside
    exact separate.works trees nonempty sound enough task (nodes names task).2 start drift

end Separate

end SyncTool
