import SyncTool.TreeExecuted

set_option autoImplicit false

namespace SyncTool

open SyncTool.Path LinuxFileUtil FileSync

section

variable {md5 : Md5} {fs : FileSystem} {srcDir destDir : Bytes} {src dest names : Path}
  {tasks : List SyncTask}

theorem FileSystem.under_of_resolve (found : fs.resolve srcDir = some src) :
    fs.under srcDir names = fs.lookup (src ++ names) := by
  rw [FileSystem.under, found, Option.bind_some]

/-- The tasks of a detection are those of the nodes that need one. -/
theorem jobs_of_tasks (found : fs.resolve srcDir = some src)
    (members : ∀ task, task ∈ tasks ↔ ∃ names node, names ≠ [] ∧ fs.under srcDir names = some node ∧
      ¬ Spared md5 fs srcDir destDir names ∧ task = taskFor srcDir destDir names node)
    (distinct : tasks.Pairwise fun task other => task.srcPath ≠ other.srcPath) :
    ∃ jobs : List Path, tasks = jobs.map (taskAt fs srcDir destDir src) ∧ jobs.Nodup ∧
      ∀ names, names ∈ jobs ↔ names ∈ tasked md5 fs srcDir destDir := by
  have each : ∀ task ∈ tasks, ∃ names, names ∈ tasked md5 fs srcDir destDir ∧
      task = taskAt fs srcDir destDir src names := by
    intro task member
    obtain ⟨names, node, nonempty, here, different, rfl⟩ := (members task).mp member
    refine ⟨names, ⟨nonempty, by simp [here], different⟩, ?_⟩
    rw [FileSystem.under_of_resolve found] at here
    rw [taskAt, here, Option.getD_some]
  obtain ⟨jobs, rfl, sound⟩ := exists_map_of_forall each
  refine ⟨jobs, rfl, ?_, fun names => ⟨sound names, fun member => ?_⟩⟩
  · apply (List.pairwise_map.mp distinct).imp
    intro names names' different same
    exact different (by rw [same])
  · obtain ⟨nonempty, there, different⟩ := member
    obtain ⟨node, here⟩ := Option.ne_none_iff_exists'.mp there
    have listed := (members _).mpr ⟨names, node, nonempty, here, different, rfl⟩
    obtain ⟨names', inside, same⟩ := List.mem_map.mp listed
    obtain ⟨-, there', -⟩ := sound names' inside
    obtain ⟨node', here'⟩ := Option.ne_none_iff_exists'.mp there'
    have keys : srcDir ++ below names' = srcDir ++ below names := congrArg SyncTask.srcPath same
    have equal := below_injective (noSlash_of_under here') (noSlash_of_under here)
      (List.append_cancel_left keys)
    exact equal ▸ inside

theorem tasked_nodes (found : fs.resolve srcDir = some src) :
    ∀ names ∈ tasked md5 fs srcDir destDir, names ≠ [] ∧ fs.entry (src ++ names) ≠ none := by
  rintro names ⟨nonempty, there, -⟩
  rw [FileSystem.under_of_resolve found] at there
  exact ⟨nonempty, FileSystem.entry_ne_none.mpr there⟩

/-- A node that the destination lacks needs a task. -/
theorem tasked_of_missing (overlay : Overlay fs srcDir destDir src dest) (nonempty : names ≠ [])
    (there : fs.entry (src ++ names) ≠ none) (missing : fs.entry (dest ++ names) = none) :
    names ∈ tasked md5 fs srcDir destDir := by
  refine ⟨nonempty, ?_, ?_⟩
  · rw [FileSystem.under_of_resolve overlay.srcFound]
    exact FileSystem.entry_ne_none.mp there
  · rintro ⟨node, node', -, here', -⟩
    obtain ⟨p, found, looked⟩ := Option.bind_eq_some_iff.mp here'
    have at_ : p = dest := (FileSystem.resolve_eq_place found).trans overlay.destPlace
    rw [at_] at looked
    simp [FileSystem.entry, looked] at missing

theorem tasked_covers (trees : Trees fs srcDir destDir src dest)
    (inhabited : (tasked md5 fs srcDir destDir).Nonempty) :
    CoversTree fs src dest (tasked md5 fs srcDir destDir) where
  inhabited := inhabited
  nodes := tasked_nodes trees.srcFound
  dirs names nonempty isDir missing := by
    apply tasked_of_missing trees.overlay nonempty _ missing
    rw [isDir]
    exact Option.some_ne_none _

/-- Where no name of either tree ends like a record's or a backup's, no copy is disturbed. -/
theorem Site.separate {self : FileSync} (site : Site fs srcDir destDir src dest)
    (noBackups : ∀ names name, (fs.entry (src ++ (names ++ [name])) ≠ none ∨
      fs.entry (dest ++ (names ++ [name])) ≠ none) → ¬ bakSuffix <:+ name) :
    Separate self fs src dest (tasked md5 fs srcDir destDir) := by
  have untasked : ∀ names, fs.entry (src ++ names) = none →
      names ∉ tasked md5 fs srcDir destDir := by
    intro names missing member
    exact (tasked_nodes site.srcFound names member).2 missing
  constructor
  · rintro names ⟨nonempty, -, -⟩ -
    obtain ⟨init, name, rfl⟩ := (List.eq_nil_or_concat' names).resolve_left nonempty
    obtain ⟨noSource, noDest⟩ := site.record_free init name
    rw [suffixed_concat]
    exact ⟨untasked _ noSource, by simp [noSource], by simp [noDest]⟩
  · rintro names ⟨nonempty, -, -⟩ - -
    obtain ⟨init, name, rfl⟩ := (List.eq_nil_or_concat' names).resolve_left nonempty
    have noSource : fs.entry (src ++ (init ++ [name ++ bakSuffix])) = none := by
      by_contra exist
      exact noBackups init _ (.inl exist) (List.suffix_append name bakSuffix)
    rw [suffixed_concat]
    exact ⟨untasked _ noSource, by simp [noSource]⟩

/-- Executed tasks leave the same, whoever executed them. -/
theorem exists_outcome {self : FileSync} (trees : Trees fs srcDir destDir src dest)
    (inhabited : (tasked md5 fs srcDir destDir).Nonempty) : ∃ outcome : Path → Option Entry, ∀ fs',
      Executed self fs destDir src dest (tasked md5 fs srcDir destDir) fs' →
      fs'.entry = outcome := by
  by_cases some_ : ∃ fs', Executed self fs destDir src dest (tasked md5 fs srcDir destDir) fs'
  · obtain ⟨fs₁, first⟩ := some_
    refine ⟨fs₁.entry, fun fs₂ second => funext fun p => ?_⟩
    exact second.unique trees (tasked_covers trees inhabited) first p
  · exact ⟨fun _ => none, fun fs' executed => absurd ⟨fs', executed⟩ some_⟩

variable {self : FileSync} {scanFuel : Nat} {w w₀ : World}

/-- The tasks of one detection, executed in any order, all return, and leave the same paths, kinds
and bytes, if every copy that goes ahead has its record and its backup to itself. -/
theorem executeSyncTask_order (trees : Trees w.fs srcDir destDir src dest)
    (separate : Separate self w.fs src dest (tasked self.md5 w.fs srcDir destDir))
    (detected : Program.Reach (handler (Policy.reliable (Roomy w.fs)) True).exec Eq
      (detectChanges self scanFuel srcDir destDir) w (.done tasks) w₀) :
    ∃ (outcome : Path → Option Entry) (enough : Nat), ∀ fuel, enough ≤ fuel →
      ∀ order : List SyncTask, order.Perm tasks →
        Program.Returns (handler (Policy.reliable (Roomy w.fs)) False).exec
          (fun _ w' => w'.fs.entry = outcome)
          (Program.inOrder (order.map (executeSyncTask self fuel))) w₀ := by
  have sound : ∀ op choice w', Policy.reliable (Roomy w.fs) op choice w' →
      Policy.reliable (Roomy w.fs) op choice w' := fun _ _ _ allowed => allowed
  have found : Program.Sat (handler (Policy.reliable (Roomy w.fs)) True) Interference.free
      (detectChanges self scanFuel srcDir destDir) _ w :=
    detectChanges_tasks (Policy.scanning_of_reliable sound) (fun _ _ same => Eq.symm same)
      scannable_true scannable_true
  obtain ⟨members, distinct, rfl⟩ := found.returned detected
  have plan : ∀ order : List SyncTask, order.Perm tasks →
      ∃ jobs : List Path, order = jobs.map (taskAt w₀.fs srcDir destDir src) ∧ jobs.Nodup ∧
        ∀ names, names ∈ jobs ↔ names ∈ tasked self.md5 w₀.fs srcDir destDir := by
    intro order same
    apply jobs_of_tasks trees.srcFound fun task => same.mem_iff.trans (members task)
    exact (same.pairwise_iff fun different => different.symm).mpr distinct
  obtain ⟨bound, -, files⟩ := w₀.fs.exists_bound
  by_cases inhabited : (tasked self.md5 w₀.fs srcDir destDir).Nonempty
  · obtain ⟨outcome, same⟩ := @exists_outcome _ _ _ _ _ _ self trees inhabited
    refine ⟨outcome, bound + ASYNC_CHUNK_SIZE + 1, fun fuel more order permuted => ?_⟩
    obtain ⟨jobs, rfl, once, only⟩ := plan order permuted
    have enough : ∀ names content, w₀.fs.entry (src ++ names) = some (.file content) →
        Enough False content.length fuel := by
      intro names content file
      have short := files _ content file
      exact enough_of_lt (by omega)
    rw [List.map_map]
    have holds := separate.inOrder_executed trees (tasked_nodes trees.srcFound) sound enough once
      only (w := w₀) rfl
    have weakened := holds.weaken fun _ w' executed => same w'.fs executed
    exact weakened.returns id fun op s =>
      ⟨_, _, Policy.quietly_reliable (Roomy w₀.fs) False bound
        (fun p content file => (files p content file).le) op s⟩
  · refine ⟨w₀.fs.entry, 0, fun fuel _ order permuted => ?_⟩
    obtain ⟨jobs, rfl, -, only⟩ := plan order permuted
    have blank : jobs = [] := by
      apply List.eq_nil_iff_forall_not_mem.mpr
      intro names member
      exact inhabited ⟨names, (only names).mp member⟩
    rw [blank]
    exact .done rfl

end

theorem roomy_of_keys {fs : FileSystem} {amount : Nat}
    (small : ∀ p ∈ fs.nodes.keys, ((fs.contentAt p).getD []).length ≤ amount) :
    Roomy fs amount := by
  intro p content file
  have here := small p (FileSystem.mem_keys_of_entry (by simp [file]))
  rwa [FileSystem.contentAt_eq_some.mpr file] at here

theorem pair_noBackups (names : Path) (name : Name)
    (exist : pairFs.entry ([[115]] ++ (names ++ [name])) ≠ none ∨
      pairFs.entry ([[100]] ++ (names ++ [name])) ≠ none) : ¬ bakSuffix <:+ name := by
  rcases pairFs_last exist with rfl | rfl
  · decide
  · decide

theorem executeSyncTask_order_pair : ∃ (tasks : List SyncTask) (w₀ : World),
    Program.Reach (handler (Policy.reliable (Roomy pairFs)) True).exec Eq
      (detectChanges plainSync 3 [47, 115] [47, 100]) (World.boot pairFs) (.done tasks) w₀ ∧
    ∃ (outcome : Path → Option Entry) (enough : Nat), ∀ fuel, enough ≤ fuel →
      ∀ order : List SyncTask, order.Perm tasks →
        Program.Returns (handler (Policy.reliable (Roomy pairFs)) False).exec
          (fun _ w' => w'.fs.entry = outcome)
          (Program.inOrder (order.map (executeSyncTask plainSync fuel))) w₀ := by
  have roomy : Roomy pairFs 2 := roomy_of_keys (by decide +kernel)
  obtain ⟨w₀, detected, -⟩ := Program.reach_of_play Eq
    (Policy.quietly_reliable (Roomy pairFs) True 2 roomy)
    (detectChanges plainSync 3 [47, 115] [47, 100]) (World.boot pairFs)
    [⟨[47, 115, 47, 97], [47, 100, 47, 97], false, 0o100644⟩,
      ⟨[47, 115, 47, 98], [47, 100, 47, 98], false, 0o100644⟩] (fun _ => ()) () (by decide +kernel)
  refine ⟨_, w₀, detected, ?_⟩
  exact executeSyncTask_order (w := World.boot pairFs) pair_site.trees
    (pair_site.separate pair_noBackups) detected

/-- `/s/a` and `/s/a.sync_progress`, and an empty `/d`. -/
def sidecarFs : FileSystem :=
  (((FileSystem.empty.put [[115]] (.dir 4096 0o755 0)).put [[115], [97]] (.file [65] 0o644 1)).put
    [[115], [97] ++ progressSuffix] (.file [66] 0o644 1)).put [[100]] (.dir 4096 0o755 0)

def sidecarTasks : List SyncTask :=
  [⟨[47, 115, 47, 97], [47, 100, 47, 97], false, 0o100644⟩,
    ⟨[47, 115, 47, 97] ++ progressSuffix, [47, 100, 47, 97] ++ progressSuffix, false, 0o100644⟩]

/-- In one order both files arrive; in the other, the task of the first takes the second for its
record and removes it. -/
theorem executeSyncTask_reordered : ∃ w₀ w₁ w₂ : World,
    Program.Reach (handler (Policy.reliable (Roomy sidecarFs)) True).exec Eq
      (detectChanges plainSync 3 [47, 115] [47, 100]) (World.boot sidecarFs)
        (.done sidecarTasks) w₀ ∧
    Program.Reach (handler (Policy.reliable (Roomy sidecarFs)) True).exec Eq
      (Program.inOrder (sidecarTasks.map (executeSyncTask plainSync 3))) w₀ (.done ()) w₁ ∧
    Program.Reach (handler (Policy.reliable (Roomy sidecarFs)) True).exec Eq
      (Program.inOrder (sidecarTasks.reverse.map (executeSyncTask plainSync 3))) w₀ (.done ()) w₂ ∧
    w₁.fs.entry [[100], [97] ++ progressSuffix] = some (.file [66]) ∧
    w₂.fs.entry [[100], [97] ++ progressSuffix] = none := by
  have roomy : Roomy sidecarFs 1 := roomy_of_keys (by decide +kernel)
  have allowed := Policy.quietly_reliable (Roomy sidecarFs) True 1 roomy
  obtain ⟨w₀, detected, -⟩ := Program.reach_of_play Eq allowed
    (detectChanges plainSync 3 [47, 115] [47, 100]) (World.boot sidecarFs) sidecarTasks
      (fun _ => ()) ()
    (by decide +kernel)
  have found : Program.Sat (handler (Policy.reliable (Roomy sidecarFs)) True) Interference.free
      (detectChanges plainSync 3 [47, 115] [47, 100]) _ (World.boot sidecarFs) :=
    detectChanges_tasks (Policy.scanning_of_reliable fun _ _ _ fine => fine)
      (fun _ _ same => Eq.symm same) scannable_true scannable_true
  obtain ⟨-, -, rfl⟩ := found.returned detected
  obtain ⟨w₁, run₁, seen₁⟩ := Program.reach_of_play Eq allowed
    (Program.inOrder (sidecarTasks.map (executeSyncTask plainSync 3))) (World.boot sidecarFs) ()
    (fun w => w.fs.entry [[100], [97] ++ progressSuffix]) (some (.file [66])) (by decide +kernel)
  obtain ⟨w₂, run₂, seen₂⟩ := Program.reach_of_play Eq allowed
    (Program.inOrder (sidecarTasks.reverse.map (executeSyncTask plainSync 3)))
      (World.boot sidecarFs) ()
    (fun w => w.fs.entry [[100], [97] ++ progressSuffix]) none (by decide +kernel)
  exact ⟨_, w₁, w₂, detected, run₁, run₂, seen₁, seen₂⟩

end SyncTool
