import SyncTool.FileSyncLocal
import SyncTool.ProgramCrew
import SyncTool.TreeTasks

set_option autoImplicit false

namespace SyncTool

open SyncTool.Path LinuxFileUtil FileSync

/-- `executeAll` executes its tasks in turn. -/
theorem FileSync.executeAll_eq (self : FileSync) (fuel : Nat) (tasks : List SyncTask) :
    executeAll self fuel tasks = Program.inTurn (tasks.map (executeSyncTask self fuel)) := by
  induction tasks with
  | nil => rfl
  | cons task tasks ih =>
      rw [executeAll, List.map_cons, Program.inTurn, ih]

section

variable {fs : FileSystem} {srcDir destDir : Bytes} {src dest : Path} {tasks : List SyncTask}

/-- The task for whatever the source has at `names`. -/
def taskAt (fs : FileSystem) (srcDir destDir : Bytes) (src names : Path) : SyncTask :=
  taskFor srcDir destDir names ((fs.lookup (src ++ names)).getD (.dir 0 0 0))

theorem exists_map_of_forall {α β : Type} {f : α → β} {P : α → Prop} {list : List β}
    (each : ∀ b ∈ list, ∃ a, P a ∧ b = f a) :
    ∃ jobs : List α, list = jobs.map f ∧ ∀ a ∈ jobs, P a := by
  induction list with
  | nil => exact ⟨[], rfl, by simp⟩
  | cons b list ih =>
      obtain ⟨a, holds, same⟩ := each b (by simp)
      obtain ⟨jobs, rest, all⟩ := ih fun b member => each b (by simp [member])
      refine ⟨a :: jobs, by rw [List.map_cons, same, rest], ?_⟩
      intro a' member
      rcases List.mem_cons.mp member with rfl | member
      · exact holds
      · exact all a' member

/-- The nodes that the tasks of a plan are for; all the others are done. -/
theorem Plan.jobs (plan : Plan fs srcDir destDir src dest tasks) :
    ∃ jobs : List Path, tasks = jobs.map (taskAt fs srcDir destDir src) ∧ jobs.Nodup ∧
      (∀ names ∈ jobs, ∃ node, fs.lookup (src ++ names) = some node) ∧
      ∀ names, names ≠ [] → names ∉ jobs → Site.Done fs src dest names fs := by
  have each : ∀ task ∈ tasks, ∃ names, (∃ node, fs.lookup (src ++ names) = some node) ∧
      task = taskAt fs srcDir destDir src names := by
    intro task member
    obtain ⟨names, node, -, here, same⟩ := plan.only task member
    exact ⟨names, ⟨node, here⟩, by rw [same, taskAt, here, Option.getD_some]⟩
  obtain ⟨jobs, rfl, nodes⟩ := exists_map_of_forall each
  have distinct : jobs.Nodup := by
    apply (List.pairwise_map.mp plan.distinct).imp
    intro names names' different same
    exact different (by rw [same])
  refine ⟨jobs, rfl, distinct, nodes, ?_⟩
  intro names nonempty outside entry here
  obtain ⟨node, found⟩ : ∃ node, fs.lookup (src ++ names) = some node := by
    rw [← Option.ne_none_iff_exists']
    intro missing
    simp [FileSystem.entry, missing] at here
  have entry_eq : node.entry = entry := by simpa [FileSystem.entry, found] using here
  rcases plan.covers names node nonempty found with member | same
  · obtain ⟨names', member', task_eq⟩ := List.mem_map.mp member
    obtain ⟨node', found'⟩ := nodes names' member'
    have keys : srcDir ++ below names' = srcDir ++ below names := congrArg SyncTask.srcPath task_eq
    have equal := below_injective (noSlash_of_lookup found') (noSlash_of_lookup found)
      (List.append_cancel_left keys)
    exact absurd (equal ▸ member') outside
  · rw [same, entry_eq]

variable {self : FileSync} {policy : Policy} {spins : Prop} {space : Nat → Prop} {w : World}

/-- Executing the tasks of a plan in turn gets everything done. -/
theorem executeAll_sat (sound : ∀ op choice w, policy op choice w →
      Policy.reliable space op choice w) (overwrites : Overwrites self)
    (site : Site w.fs srcDir destDir src dest) (plan : Plan w.fs srcDir destDir src dest tasks)
    {fuel : Nat}
    (small : ∀ names content, w.fs.entry (src ++ names) = some (.file content) →
      content.length ≤ (2 ^ 31 - 1) * ASYNC_CHUNK_SIZE ∧ Enough spins content.length fuel) :
    Program.Sat (handler policy spins) Interference.free (executeAll self fuel tasks)
      (fun ok w' => ok = true ∧
        ∀ names, names ≠ [] → Site.Done w.fs src dest names w'.fs) w := by
  obtain ⟨jobs, rfl, distinct, nodes, others⟩ := plan.jobs
  rw [executeAll_eq, List.map_map]
  apply (Program.inTurn_sat (fun names => (site.share names).interference)
    (fun names w' => Site.Done w.fs src dest names w'.fs) ?_ ?_ ?_ distinct).weaken
  · rintro ok w' ⟨rfl, goals, rest⟩
    refine ⟨rfl, fun names nonempty => ?_⟩
    by_cases member : names ∈ jobs
    · exact goals names member
    · exact site.done_rely (others names nonempty member) (rest names member)
  · intro names names' other w₁ w₂ did
    exact did.rely (site.share_apart other.symm)
  · intro names w₁ w₂ drift done
    exact site.done_rely done drift
  · intro names member w₁ drift
    obtain ⟨node, here⟩ := nodes names member
    have alone : ∀ w w', (site.share names).interference.solo.rely w w' → w' = w :=
      fun _ _ same => Eq.symm same
    have task_eq : taskAt w.fs srcDir destDir src names = taskFor srcDir destDir names node := by
      rw [taskAt, here, Option.getD_some]
    show Program.Sat _ _ (executeSyncTask self fuel (taskAt w.fs srcDir destDir src names)) _ _
    rw [task_eq]
    apply site.task_sat sound overwrites here ?_ (Interference.solo_le _) (.inl alone) rfl drift
    intro content file
    exact small names content (by simp [FileSystem.entry, here, file])

/-- The way to the destination, for the time when it is made. -/
def ground (dest : Path) : Estate where
  writes := ∅
  reads := {p | ¬ p <+: dest}
  grows := {p | (∀ name ∈ p, ProperName name) ∧ p <+: dest}
  keys := ∅
  unwritten _ _ := id
  unread _ grown other := other grown.2
  proper _ grown := grown.1

/-- A place below another one is not on the way to it. -/
theorem not_prefix_below {names : Path} (nonempty : names ≠ []) : ¬ dest ++ names <+: dest := by
  intro before
  have short := before.length_le
  have some := List.length_pos_iff.mpr nonempty
  rw [List.length_append] at short
  omega

/-- Making the destination leaves the rest of the site as it was. -/
theorem Site.ground {w' : World} (site : Site w.fs srcDir destDir src dest)
    (drift : (ground dest).Rely w w') : Site w'.fs srcDir destDir src dest := by
  have cwd : w'.fs.cwd = w.fs.cwd := drift.dirs.1
  have below_src : ∀ names, w'.fs.entry (src ++ names) = w.fs.entry (src ++ names) := by
    intro names
    apply drift.reads
    intro before
    exact site.apart.1 ((List.prefix_append src names).trans before)
  have below_dest : ∀ names, names ≠ [] →
      w'.fs.entry (dest ++ names) = w.fs.entry (dest ++ names) :=
    fun names nonempty => drift.reads _ (not_prefix_below nonempty)
  exact {
    srcFound := drift.dirs.resolve site.srcFound
    srcIsDir := drift.dirs.2 _ site.srcIsDir
    destNonempty := site.destNonempty
    destPlace := cwd ▸ site.destPlace
    destProper := site.destProper
    home := by
      rw [cwd]
      exact drift.dirs.2 _ site.home
    way := by
      intro p member
      rw [cwd] at member
      rcases site.way p member with isDir | ⟨missing, before⟩
      · exact .inl (drift.dirs.2 p isDir)
      · have proper : ∀ name ∈ p, ProperName name := fun name inside =>
          site.destProper name (before.subset inside)
        rcases drift.grows p ⟨proper, before⟩ missing with still | isDir
        · exact .inr ⟨still, before⟩
        · exact .inl isDir
    apart := site.apart
    kinds := by
      intro names nonempty entry entry' here there
      rw [below_src] at here
      rw [below_dest names nonempty] at there
      exact site.kinds names nonempty entry entry' here there
    noRecords := by
      intro names name exist
      rw [below_src, below_dest _ (by simp)] at exist
      exact site.noRecords names name exist }

/-- Enough fuel for all of a file system affords the scan of any part of it. -/
theorem affords_of_bound {fs fs' : FileSystem} {p : Path} {bound fuel : Nat}
    (paths : ∀ p, fs.entry p ≠ none → p.length < bound)
    (files : ∀ p content, fs.entry p = some (.file content) → content.length < bound)
    (same : ∀ names, names ≠ [] → fs'.entry (p ++ names) = fs.entry (p ++ names))
    (notFile : ∀ content, fs'.entry p ≠ some (.file content)) (more : bound < fuel) :
    Affords False fs' p fuel fuel where
  blocks := by
    right
    intro names content file
    by_cases first : names = []
    · rw [first, List.append_nil] at file
      exact absurd file (notFile content)
    · rw [same names first] at file
      have := files _ content file
      omega
  depth := by
    right
    intro names exist
    by_cases first : names = []
    · rw [first, List.length_nil]
      omega
    · rw [same names first] at exist
      have := paths _ exist
      rw [List.length_append] at this
      omega

/-- Local sync with overwrite, without failing calls, returns, reports success and leaves at
the destination whatever the source has. -/
theorem syncLocal_converges (overwrites : self.conflictStrategy = .overwrite)
    (site : Site w.fs srcDir destDir src dest)
    (collisionFree : CollisionFree self.md5 w.fs src dest)
    (small : ∀ names content, w.fs.entry (src ++ names) = some (.file content) →
      content.length ≤ (2 ^ 31 - 1) * ASYNC_CHUNK_SIZE) :
    ∃ enough, ∀ fuel, enough ≤ fuel →
      Program.Returns (handler (Policy.reliable fun _ => True) False).exec
        (fun ok w' => ok = true ∧ ∀ names, names ≠ [] → ∀ entry,
          w.fs.entry (src ++ names) = some entry → w'.fs.entry (dest ++ names) = some entry)
        (syncLocal self fuel srcDir destDir) w := by
  obtain ⟨bound, paths, files⟩ := w.fs.exists_bound
  refine ⟨bound + ASYNC_CHUNK_SIZE + 1, fun fuel more => ?_⟩
  have sound : ∀ op choice w, Policy.reliable (fun _ => True) op choice w →
      Policy.reliable (fun _ => True) op choice w := fun _ _ _ h => h
  have way : ∀ p ∈ trail w.fs.cwd destDir, (ground dest).Open w p := by
    intro p member
    rcases site.way p member with isDir | ⟨missing, before⟩
    · exact .inl isDir
    · exact .inr ⟨⟨fun name inside => site.destProper name (before.subset inside), before⟩, missing⟩
  have holds : Program.Sat (handler (Policy.reliable fun _ => True) False) Interference.free
      (syncLocal self fuel srcDir destDir) (fun ok w' => ok = true ∧ ∀ names, names ≠ [] →
        ∀ entry, w.fs.entry (src ++ names) = some entry → w'.fs.entry (dest ++ names) = some entry)
      w := by
    rw [syncLocal]
    apply Program.Sat.bind
    apply (createDirectory_sat sound (Interference.free_le (ground dest).interference)
      (unraced_free _) site.destNonempty site.home way _).weaken
    rintro made w₁ ⟨rfl, made, found, drift⟩
    simp only [↓reduceIte]
    have site₁ := site.ground drift
    rw [site.destPlace] at made found
    have inSrc : ∀ names, w₁.fs.entry (src ++ names) = w.fs.entry (src ++ names) := by
      intro names
      apply drift.reads
      intro before
      exact site.apart.1 ((List.prefix_append src names).trans before)
    have inDest : ∀ names, names ≠ [] → w₁.fs.entry (dest ++ names) = w.fs.entry (dest ++ names) :=
      fun names nonempty => drift.reads _ (not_prefix_below nonempty)
    have affords : Affords False w₁.fs src fuel fuel := by
      apply affords_of_bound paths files (fun names _ => inSrc names) _ (by omega)
      intro content file
      rw [site₁.srcIsDir] at file
      cases file
    have affords' : Affords False w₁.fs dest fuel fuel := by
      apply affords_of_bound paths files inDest _ (by omega)
      intro content file
      rw [made] at file
      cases file
    have collisionFree₁ : CollisionFree self.md5 w₁.fs src dest := by
      intro names content other here there same
      by_cases first : names = []
      · rw [first, List.append_nil, site₁.srcIsDir] at here
        cases here
      · rw [inSrc] at here
        rw [inDest names first] at there
        exact collisionFree names content other here there same
    apply Program.Sat.bind
    apply (detectChanges_sat sound (fun _ _ same => Eq.symm same) site₁.srcFound site₁.srcIsDir
      (.inl ⟨found, made⟩) collisionFree₁ affords affords').weaken
    rintro tasks w₂ ⟨plan, rfl⟩
    apply (executeAll_sat sound (.inl overwrites) site₁ plan ?_).weaken
    · rintro ok w₃ ⟨rfl, done⟩
      refine ⟨rfl, fun names nonempty entry here => done names nonempty entry ?_⟩
      rw [inSrc, here]
    · intro names content file
      rw [inSrc] at file
      have short := files _ content file
      exact ⟨small names content file, enough_of_lt (by omega)⟩
  exact holds.returns id fun op s =>
    ⟨_, _, Policy.quietly_reliable (fun _ => True) False 0 trivial op s⟩

end

/-- `/s/a` holds `A` and `/s/b` holds `B`; `/d/a` is older and longer, and there is no `/d/b`. -/
def pairFs : FileSystem :=
  ((((FileSystem.empty.put [[115]] (.dir 4096 0o755 0)).put [[115], [97]] (.file [65] 0o644 1)).put
    [[115], [98]] (.file [66] 0o644 1)).put [[100]] (.dir 4096 0o755 0)).put
    [[100], [97]] (.file [67, 67] 0o644 0)

theorem pairFs_below {top : Name} {names : Path} (nonempty : names ≠ [])
    (exist : pairFs.entry (top :: names) ≠ none) : names = [[97]] ∨ names = [[98]] := by
  have keys : pairFs.nodes.keys =
      [[[100], [97]], [[100]], [[115], [98]], [[115], [97]], [[115]], []] := by
    decide +kernel
  have member := FileSystem.mem_keys_of_entry exist
  rw [keys] at member
  simp only [List.mem_cons, List.cons.injEq, nonempty, and_false, reduceCtorEq, List.not_mem_nil,
    or_false, false_or] at member
  rcases member with ⟨-, same⟩ | ⟨-, same⟩ | ⟨-, same⟩
  · exact .inl same
  · exact .inr same
  · exact .inl same

theorem pair_source_a : pairFs.entry ([[115]] ++ [[97]]) = some (.file [65]) := by decide +kernel

theorem pair_source_b : pairFs.entry ([[115]] ++ [[98]]) = some (.file [66]) := by decide +kernel

theorem pair_older : pairFs.entry ([[100]] ++ [[97]]) = some (.file [67, 67]) := by decide +kernel

theorem pair_missing : pairFs.entry ([[100]] ++ [[98]]) = none := by decide +kernel

theorem pairFs_last {names : Path} {name : Name}
    (exist : pairFs.entry ([[115]] ++ (names ++ [name])) ≠ none ∨
      pairFs.entry ([[100]] ++ (names ++ [name])) ≠ none) : name = [97] ∨ name = [98] := by
  have only : names ++ [name] = [[97]] ∨ names ++ [name] = [[98]] := by
    rcases exist with exist | exist <;> exact pairFs_below (by simp) exist
  apply only.imp
  · intro same
    simpa using congrArg List.getLast? same
  · intro same
    simpa using congrArg List.getLast? same

theorem pair_site : Site pairFs [47, 115] [47, 100] [[115]] [[100]] where
  srcFound := by decide +kernel
  srcIsDir := by decide +kernel
  destNonempty := by decide
  destPlace := by decide +kernel
  destProper := by decide
  home := by decide +kernel
  way := by decide +kernel
  apart := by decide
  kinds := by
    intro names nonempty entry entry' here there
    rcases pairFs_below nonempty (Option.ne_none_iff_exists'.mpr ⟨_, here⟩) with rfl | rfl
    · rw [pair_source_a] at here
      rw [pair_older] at there
      cases here
      cases there
      simp
    · rw [pair_missing] at there
      cases there
  noRecords := by
    intro names name exist
    rcases pairFs_last exist with rfl | rfl
    · decide
    · decide

/-- The bytes of `/d/a` are replaced by those of `/s/a`, and `/d/b` is made. -/
theorem syncLocal_converges_pair : ∃ enough, ∀ fuel, enough ≤ fuel →
    Program.Returns (handler (Policy.reliable fun _ => True) False).exec
      (fun ok w' => ok = true ∧ ∀ names, names ≠ [] → ∀ entry,
        pairFs.entry ([[115]] ++ names) = some entry → w'.fs.entry ([[100]] ++ names) = some entry)
      (syncLocal plainSync fuel [47, 115] [47, 100]) (World.boot pairFs) := by
  have only : ∀ names content, pairFs.entry ([[115]] ++ names) = some (.file content) →
      names = [[97]] ∧ content = [65] ∨ names = [[98]] ∧ content = [66] := by
    intro names content here
    by_cases first : names = []
    · rw [first, List.append_nil, pair_site.srcIsDir] at here
      cases here
    · rcases pairFs_below first (Option.ne_none_iff_exists'.mpr ⟨_, here⟩) with rfl | rfl
      · rw [pair_source_a] at here
        cases here
        exact .inl ⟨rfl, rfl⟩
      · rw [pair_source_b] at here
        cases here
        exact .inr ⟨rfl, rfl⟩
  refine syncLocal_converges (w := World.boot pairFs) rfl pair_site ?_ ?_
  · intro names content other here there same
    rcases only names content here with ⟨rfl, rfl⟩ | ⟨rfl, rfl⟩
    · have there' : pairFs.entry ([[100]] ++ [[97]]) = some (.file other) := there
      rw [pair_older] at there'
      cases there'
      exact absurd same (by decide)
    · have there' : pairFs.entry ([[100]] ++ [[98]]) = some (.file other) := there
      rw [pair_missing] at there'
      cases there'
  · intro names content here
    rcases only names content here with ⟨-, rfl⟩ | ⟨-, rfl⟩
    · simp [ASYNC_CHUNK_SIZE]
    · simp [ASYNC_CHUNK_SIZE]

end SyncTool
