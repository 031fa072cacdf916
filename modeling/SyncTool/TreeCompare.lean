import SyncTool.ProgramRuns
import SyncTool.TreePlan

set_option autoImplicit false

namespace SyncTool

open SyncTool.Path LinuxFileUtil FileSync

namespace FileSystem

/-- The node at some names below the directory a path string names. -/
def under (fs : FileSystem) (directory : Bytes) (names : Path) : Option Node :=
  (fs.resolve directory).bind fun p => fs.lookup (p ++ names)

end FileSystem

/-- A scan of a directory: an entry for every node below it, and no others. -/
structure Mirrors (md5 : Md5) (fs : FileSystem) (directory : Bytes) (map : MetadataMap) : Prop where
  sound : ∀ key entry, map.lookup key = some entry → ∃ names node, names ≠ [] ∧
    key = directory ++ below names ∧ fs.under directory names = some node ∧
      entry = describe md5 key node
  complete : ∀ names node, names ≠ [] → fs.under directory names = some node →
    map.lookup (directory ++ below names) = some (describe md5 (directory ++ below names) node)

/-- The comparison finds the same at some names below both directories. -/
def Spared (md5 : Md5) (fs : FileSystem) (srcDir destDir : Bytes) (names : Path) : Prop :=
  ∃ node node', fs.under srcDir names = some node ∧ fs.under destDir names = some node' ∧
    needSync (describe md5 (srcDir ++ below names) node)
      (describe md5 (destDir ++ below names) node') = false

section

variable {md5 : Md5} {fs : FileSystem} {directory srcDir destDir : Bytes} {p : Path}
  {map other : MetadataMap}

theorem noSlash_of_under {names : Path} {node : Node}
    (here : fs.under directory names = some node) :
    ∀ name ∈ names, slash ∉ name := by
  obtain ⟨p, -, looked⟩ := Option.bind_eq_some_iff.mp here
  exact noSlash_of_lookup looked

theorem proper_of_under {names : Path} {node : Node} (here : fs.under directory names = some node) :
    ∀ name ∈ names, ProperName name := by
  obtain ⟨p, -, looked⟩ := Option.bind_eq_some_iff.mp here
  intro name member
  have exist : fs.entry (p ++ names) ≠ none := by simp [FileSystem.entry, looked]
  exact FileSystem.entry_proper exist name (by simp [member])

/-- The path string of what is below a directory names it. -/
theorem stat_of_under {names : Path} {node : Node} (here : fs.under directory names = some node) :
    fs.stat (directory ++ below names) = some node := by
  obtain ⟨p, found, looked⟩ := Option.bind_eq_some_iff.mp here
  apply FileSystem.stat_eq_some.mpr
  refine ⟨p ++ names, FileSystem.resolve_below found (proper_of_under here) ?_, looked⟩
  intro k inside
  apply FileSystem.entry_of_append (show names.drop k ≠ [] by simpa using inside)
  rw [List.append_assoc, List.take_append_drop]
  simp [FileSystem.entry, looked]

theorem Scanned.mirrors (scan : Scanned md5 fs directory p map)
    (found : fs.resolve directory = some p) :
    Mirrors md5 fs directory map where
  sound key entry inside := by
    obtain ⟨names, node, nonempty, key_eq, here, described⟩ := scan.sound key entry inside
    refine ⟨names, node, nonempty, key_eq, ?_, described⟩
    rw [FileSystem.under, found, Option.bind_some, here]
  complete names node nonempty here := by
    rw [FileSystem.under, found, Option.bind_some] at here
    have present : directory ++ below names ∈ map := by
      obtain ⟨name, rest, rfl⟩ := List.exists_cons_of_ne_nil nonempty
      exact scan.complete name rest (by simp [FileSystem.entry, here])
    obtain ⟨entry, inside⟩ := Option.isSome_iff_exists.mp (AList.lookup_isSome.mpr present)
    obtain ⟨node', here', rfl⟩ := scan.names (noSlash_of_lookup here) inside
    obtain rfl : node = node' := Option.some.inj (here.symm.trans here')
    exact inside

/-- There is nothing below what is no directory. -/
theorem mirrors_blank (notDir : ∀ p, fs.resolve directory = some p → fs.entry p ≠ some .dir) :
    Mirrors md5 fs directory ∅ where
  sound key entry inside := by simp at inside
  complete names node nonempty here := by
    exfalso
    obtain ⟨p, found, looked⟩ := Option.bind_eq_some_iff.mp here
    apply notDir p found
    exact FileSystem.entry_of_append nonempty (by simp [FileSystem.entry, looked])

theorem Mirrors.lookup (mirrors : Mirrors md5 fs directory map) {names : Path}
    (nonempty : names ≠ []) (noSlash : ∀ name ∈ names, slash ∉ name) :
    map.lookup (directory ++ below names) =
      (fs.under directory names).map (describe md5 (directory ++ below names)) := by
  cases here : fs.under directory names with
  | some node => exact mirrors.complete names node nonempty here
  | none =>
      cases inside : map.lookup (directory ++ below names) with
      | none => rfl
      | some entry =>
          obtain ⟨names', node, -, key_eq, here', -⟩ := mirrors.sound _ _ inside
          obtain rfl := below_injective noSlash (noSlash_of_under here')
            (List.append_cancel_left key_eq)
          rw [here] at here'
          cases here'

/-- The tasks are for what is below the source and is not spared. -/
theorem mem_compareMetadata {self : FileSync} (mirrors : Mirrors self.md5 fs srcDir map)
    (mirrors' : Mirrors self.md5 fs destDir other) {task : SyncTask} :
    task ∈ compareMetadata self map other srcDir destDir ↔ ∃ names node, names ≠ [] ∧
      fs.under srcDir names = some node ∧ ¬ Spared self.md5 fs srcDir destDir names ∧
      task = taskFor srcDir destDir names node := by
  -- the comparison at one node of the source
  have compared : ∀ names node, names ≠ [] → fs.under srcDir names = some node →
      (compareEntry other srcDir destDir
        ⟨srcDir ++ below names, describe self.md5 (srcDir ++ below names) node⟩ = some task ↔
      ¬ Spared self.md5 fs srcDir destDir names ∧ task = taskFor srcDir destDir names node) := by
    intro names node nonempty here
    rw [compareEntry_eq, mirrors'.lookup nonempty (noSlash_of_under here)]
    cases there : fs.under destDir names with
    | none =>
        have notSpared : ¬ Spared self.md5 fs srcDir destDir names := by
          rintro ⟨_, node', -, found, -⟩
          rw [there] at found
          cases found
        simp [notSpared, eq_comm]
    | some node' =>
        have spared : Spared self.md5 fs srcDir destDir names ↔
            needSync (describe self.md5 (srcDir ++ below names) node)
              (describe self.md5 (destDir ++ below names) node') = false := by
          constructor
          · rintro ⟨first, second, found, found', same⟩
            obtain rfl := Option.some.inj (here.symm.trans found)
            obtain rfl := Option.some.inj (there.symm.trans found')
            exact same
          · exact fun same => ⟨node, node', here, there, same⟩
        rw [spared]
        show (if needSync _ (describe self.md5 (destDir ++ below names) node')
          then _ else none) = _ ↔ _
        cases needSync (describe self.md5 (srcDir ++ below names) node)
            (describe self.md5 (destDir ++ below names) node') with
        | true => simp [eq_comm]
        | false => simp
  constructor
  · intro member
    obtain ⟨⟨key, entry⟩, listed, given⟩ := List.mem_filterMap.mp member
    have inside := AList.mem_lookup_iff.mpr ((self.order.perm _).mem_iff.mp listed)
    obtain ⟨names, node, nonempty, rfl, here, rfl⟩ := mirrors.sound _ _ inside
    exact ⟨names, node, nonempty, here, (compared names node nonempty here).mp given⟩
  · rintro ⟨names, node, nonempty, here, told⟩
    have inside := mirrors.complete names node nonempty here
    have listed := (self.order.perm _).mem_iff.mpr (AList.mem_lookup_iff.mp inside)
    exact List.mem_filterMap.mpr ⟨_, listed, (compared names node nonempty here).mpr told⟩

section

variable {policy : Policy} {spins : Prop} {I : Interference World} {w : World} {self : FileSync}
  {fuel depth : Nat}

/-- The fuel is enough to scan whatever a path string names. -/
structure Scannable (spins : Prop) (fs : FileSystem) (directory : Bytes) (fuel depth : Nat) :
    Prop where
  affords : ∀ p, fs.resolve directory = some p → Affords spins fs p fuel depth
  positive : spins ∨ 0 < depth

theorem scannable_true : Scannable True fs directory fuel depth where
  affords _ _ := ⟨.inl trivial, .inl trivial⟩
  positive := .inl trivial

/-- There is fuel enough for any path string. -/
theorem exists_scannable (fs : FileSystem) : ∃ enough, ∀ fuel, enough ≤ fuel → ∀ directory,
    Scannable False fs directory fuel fuel := by
  obtain ⟨bound, paths, files⟩ := fs.exists_bound
  refine ⟨bound + 1, fun fuel more directory => ⟨fun p _ => ⟨.inr ?_, .inr ?_⟩, .inr (by omega)⟩⟩
  · intro names content file
    have short := files _ content file
    omega
  · intro names exist
    have short := paths _ exist
    rw [List.length_append] at short
    omega

/-- The scan of whatever a path string names, while nothing moves. -/
theorem collectMetadata_mirrors (scanning : policy.Scanning) (still : ∀ w w', I.rely w w' → w' = w)
    (scannable : Scannable spins w.fs directory fuel depth) :
    Program.Sat (handler policy spins) I (collectMetadata self fuel depth directory)
      (fun map w' => Mirrors self.md5 w.fs directory map ∧ w' = w) w := by
  by_cases isDir : ∃ p, w.fs.resolve directory = some p ∧ w.fs.entry p = some .dir
  · obtain ⟨p, found, isDir⟩ := isDir
    apply (collectMetadata_sat scanning still found isDir (scannable.affords p found)).weaken
    rintro map w' ⟨scan, same⟩
    exact ⟨scan.mirrors found, same⟩
  · have notDir : ∀ p, w.fs.resolve directory = some p → w.fs.entry p ≠ some .dir :=
      fun p found is => isDir ⟨p, found, is⟩
    have names : w.fs.readdir directory = [] := by
      unfold FileSystem.readdir
      split
      · next p found => rw [if_neg (notDir p found)]
      · rfl
    apply (collectMetadata_missing still names scannable.positive).weaken
    rintro map w' ⟨rfl, same⟩
    exact ⟨mirrors_blank notDir, same⟩

/-- The detection of changes, while nothing moves: a task for every node below the source that is
not spared. -/
theorem detectChanges_tasks (scanning : policy.Scanning) (still : ∀ w w', I.rely w w' → w' = w)
    (source : Scannable spins w.fs srcDir fuel fuel)
    (target : Scannable spins w.fs destDir fuel fuel) :
    Program.Sat (handler policy spins) I (detectChanges self fuel srcDir destDir)
      (fun tasks w' => (∀ task, task ∈ tasks ↔ ∃ names node, names ≠ [] ∧
          w.fs.under srcDir names = some node ∧ ¬ Spared self.md5 w.fs srcDir destDir names ∧
          task = taskFor srcDir destDir names node) ∧
        tasks.Pairwise (fun task other => task.srcPath ≠ other.srcPath) ∧ w' = w) w := by
  unfold detectChanges
  apply Program.Sat.bind
  apply (collectMetadata_mirrors scanning still source).weaken
  rintro map w₁ ⟨mirrors, rfl⟩
  apply Program.Sat.bind
  apply (collectMetadata_mirrors scanning still target).weaken
  rintro other w₂ ⟨mirrors', rfl⟩ w₃ drift
  exact ⟨fun task => mem_compareMetadata mirrors mirrors',
    compareMetadata_distinct, still _ _ drift⟩

end

/-- A node is not spared if the destination has none at its place, or one that differs. -/
theorem not_spared_iff {names : Path} {node : Node} (here : fs.under srcDir names = some node) :
    ¬ Spared md5 fs srcDir destDir names ↔ fs.under destDir names = none ∨
      ∃ node', fs.under destDir names = some node' ∧
        needSync (describe md5 (srcDir ++ below names) node)
          (describe md5 (destDir ++ below names) node') = true := by
  cases there : fs.under destDir names with
  | none =>
      have absent : ¬ Spared md5 fs srcDir destDir names := by
        rintro ⟨_, node', -, found, -⟩
        rw [there] at found
        cases found
      simp [absent]
  | some node' =>
      constructor
      · intro notSpared
        right
        refine ⟨node', rfl, ?_⟩
        by_contra same
        exact notSpared ⟨node, node', here, there, by simpa using same⟩
      · rintro (absent | ⟨other, present, differs⟩) ⟨first, second, found, found', same⟩
        · cases absent
        · obtain rfl := Option.some.inj present
          obtain rfl := Option.some.inj (here.symm.trans found)
          obtain rfl := Option.some.inj (there.symm.trans found')
          rw [differs] at same
          cases same

/-- Changes are detected exactly: there is one task for each name below the source that the
destination lacks or that differs there, and none besides; it is for the path under which the
scan of the destination lists what is there. -/
theorem detectChanges_exact (self : FileSync) (srcDir destDir : Bytes) (w : World) :
    ∃ enough, ∀ fuel, enough ≤ fuel →
      Program.Returns (handler (Policy.reliable fun _ => True) False).exec
        (fun tasks w' => w' = w ∧
          (∀ task, task ∈ tasks ↔ ∃ names node, names ≠ [] ∧ w.fs.under srcDir names = some node ∧
            (w.fs.under destDir names = none ∨
              ∃ node', w.fs.under destDir names = some node' ∧
                needSync (describe self.md5 (srcDir ++ below names) node)
                  (describe self.md5 (destDir ++ below names) node') = true) ∧
            task = taskFor srcDir destDir names node) ∧
          tasks.Pairwise (fun task other => task.srcPath ≠ other.srcPath) ∧
          ∀ task ∈ tasks, task.destPath = destDir ++ task.srcPath.drop srcDir.length)
        (detectChanges self fuel srcDir destDir) w ∧
      Program.Returns (handler (Policy.reliable fun _ => True) False).exec
        (fun map w' => w' = w ∧ Mirrors self.md5 w.fs destDir map)
        (collectMetadata self fuel fuel destDir) w := by
  obtain ⟨enough, scannable⟩ := exists_scannable w.fs
  refine ⟨enough, fun fuel more => ?_⟩
  have scanning : (Policy.reliable fun _ => True).Scanning :=
    Policy.scanning_of_reliable fun _ _ _ allowed => allowed
  have still : ∀ s s' : World, (Interference.free : Interference World).rely s s' → s' = s :=
    fun _ _ same => Eq.symm same
  have answered : ∀ op s, ∃ answer s',
      (handler (Policy.reliable fun _ => True) False).exec op s answer s' :=
    fun op s => ⟨_, _, Policy.quietly_reliable (fun _ => True) False 0 trivial op s⟩
  constructor
  · have holds : Program.Sat (handler (Policy.reliable fun _ => True) False) .free
        (detectChanges self fuel srcDir destDir) _ w :=
      detectChanges_tasks scanning still (scannable fuel more srcDir) (scannable fuel more destDir)
    apply (holds.weaken _).returns id answered
    rintro tasks w' ⟨members, distinct, same⟩
    refine ⟨same, fun task => ?_, distinct, fun task member => ?_⟩
    · rw [members task]
      constructor
      · rintro ⟨names, node, nonempty, here, notSpared, told⟩
        exact ⟨names, node, nonempty, here, (not_spared_iff here).mp notSpared, told⟩
      · rintro ⟨names, node, nonempty, here, differs, told⟩
        exact ⟨names, node, nonempty, here, (not_spared_iff here).mpr differs, told⟩
    · obtain ⟨names, node, -, -, -, rfl⟩ := (members task).mp member
      simp only [taskFor, List.drop_left]
  · have holds : Program.Sat (handler (Policy.reliable fun _ => True) False) .free
        (collectMetadata self fuel fuel destDir) _ w :=
      collectMetadata_mirrors scanning still (scannable fuel more destDir)
    apply (holds.weaken _).returns id answered
    rintro map w' ⟨mirrors, same⟩
    exact ⟨same, mirrors⟩

end

end SyncTool
