import SyncTool.SyncLocalTurn
import SyncTool.ThreadPool

set_option autoImplicit false

namespace SyncTool

open SyncTool.Path LinuxFileUtil FileSync

/-- `SyncManager::syncLocal` under way: the calling thread detects the changes, then submits
the tasks to the pool and waits for it, then returns true. -/
inductive SyncManager (n : Nat) where
  | detecting (p : Prog (List SyncTask)) (w : World)
  | processing (pool : ThreadPool Op Res World SyncTask n)
  | returned (w : World)

namespace SyncManager

variable {n : Nat}

/-- `processSyncTask` disregards what `executeSyncTask` returns. -/
inductive StepUnder (self : FileSync) (fuel : Nat)
    (exec : (op : Op) → World → Res op → World → Prop) :
    SyncManager n → SyncManager n → Prop where
  | detect {p p' : Prog (List SyncTask)} {w w' : World} :
      Program.Step exec p w p' w' →
      StepUnder self fuel exec (.detecting p w) (.detecting p' w')
  | submit {tasks : List SyncTask} {w : World} :
      StepUnder self fuel exec (.detecting (.done tasks) w) (.processing (.boot tasks w))
  | process {pool pool' : ThreadPool Op Res World SyncTask n} :
      ThreadPool.Step exec (executeSyncTask self fuel) pool pool' →
      StepUnder self fuel exec (.processing pool) (.processing pool')
  | wake {pool : ThreadPool Op Res World SyncTask n} : pool.Finished →
      StepUnder self fuel exec (.processing pool) (.returned pool.state)

/-- Calls that may do more give the sync more steps. -/
theorem StepUnder.mono {self : FileSync} {fuel : Nat}
    {exec exec' : (op : Op) → World → Res op → World → Prop} {manager manager' : SyncManager n}
    (le : ∀ op w answer w', exec op w answer w' → exec' op w answer w')
    (one : StepUnder self fuel exec manager manager') :
    StepUnder self fuel exec' manager manager' := by
  cases one with
  | detect one => exact .detect (one.mono le)
  | submit => exact .submit
  | process one => exact .process (one.mono le)
  | wake finished => exact .wake finished

abbrev Step (self : FileSync) (fuel : Nat) (policy : Policy) :
    SyncManager n → SyncManager n → Prop :=
  StepUnder self fuel (handler policy True).exec

/-- The runs of `syncLocal`, under every schedule of the workers. -/
def Runs (self : FileSync) (fuel : Nat) (policy : Policy) (srcDir destDir : Bytes) (w : World)
    (manager : SyncManager n) : Prop :=
  Relation.ReflTransGen (Step self fuel policy)
    (.detecting (detectChanges self fuel srcDir destDir) w) manager

/-- Nothing fails, and no `mkdir` finds that its name has been taken meanwhile. -/
def mkdirFree : Policy := fun op choice w =>
  Policy.reliable (fun _ => True) op choice w ∧
    ∀ path mode, op = .mkdir path mode → ∀ p, w.fs.resolve path = some p → w.fs.entry p = none

theorem unraced_mkdirFree (I : Interference World) : Unraced mkdirFree I :=
  .inr fun path mode _ _ allowed p found => allowed.2 path mode rfl p found

/-- The names of the node that a task is for. -/
def namesOf (srcDir : Bytes) (task : SyncTask) : Path :=
  (components (task.srcPath.drop srcDir.length)).tail

theorem namesOf_taskFor {srcDir destDir : Bytes} {names : Path} {node : Node}
    (noSlash : ∀ name ∈ names, slash ∉ name) :
    namesOf srcDir (taskFor srcDir destDir names node) = names := by
  have cut : components ([] ++ below names) = components [] ++ names := components_below noSlash
  rw [List.nil_append] at cut
  rw [namesOf, taskFor, List.drop_left, cut]
  rfl

variable {fs : FileSystem} {srcDir destDir : Bytes} {src dest : Path}
  {self : FileSync} {w w' : World} {fuel : Nat} {manager : SyncManager n}

theorem namesOf_taskAt {names : Path} (there : fs.entry (src ++ names) ≠ none) :
    namesOf srcDir (taskAt fs srcDir destDir src names) = names := by
  obtain ⟨node, here⟩ := Option.ne_none_iff_exists'.mp (FileSystem.entry_ne_none.mp there)
  rw [taskAt, here, Option.getD_some]
  exact namesOf_taskFor (noSlash_of_lookup here)

section

variable {jobs : List Path} (there : ∀ names ∈ jobs, fs.entry (src ++ names) ≠ none)

include there

/-- Different tasks are for different nodes. -/
theorem taskAt_apart : ∀ task ∈ jobs.map (taskAt fs srcDir destDir src),
    ∀ other ∈ jobs.map (taskAt fs srcDir destDir src), namesOf srcDir task = namesOf srcDir other →
      task = other := by
  intro task member other member' same
  obtain ⟨names, job, rfl⟩ := List.mem_map.mp member
  obtain ⟨names', job', rfl⟩ := List.mem_map.mp member'
  rw [namesOf_taskAt (there names job), namesOf_taskAt (there names' job')] at same
  rw [same]

theorem taskAt_once (distinct : jobs.Nodup) : (jobs.map (taskAt fs srcDir destDir src)).Nodup := by
  apply distinct.map_on
  intro names job names' job' same
  rw [← namesOf_taskAt (there names job), same, namesOf_taskAt (there names' job')]

end

/-- What a run has reached: the scan, a pool at the tasks of a plan, or the end of it. -/
inductive Reached (self : FileSync) (fuel : Nat) (policy : Policy) (srcDir destDir : Bytes)
    (src dest : Path) (w : World) : SyncManager n → Prop where
  | detecting {p : Prog (List SyncTask)} {w₁ : World} :
      Program.Sat (handler policy True) Interference.free p
        (fun tasks w' => Plan w.fs srcDir destDir src dest tasks ∧ w' = w) w₁ →
      Reached self fuel policy srcDir destDir src dest w (.detecting p w₁)
  | processing {tasks : List SyncTask} {pool : ThreadPool Op Res World SyncTask n} :
      Plan w.fs srcDir destDir src dest tasks →
      Relation.ReflTransGen (ThreadPool.Step (handler policy True).exec (executeSyncTask self fuel))
        (.boot tasks w) pool →
      Reached self fuel policy srcDir destDir src dest w (.processing pool)
  | returned {tasks : List SyncTask} {pool : ThreadPool Op Res World SyncTask n} :
      Plan w.fs srcDir destDir src dest tasks →
      Relation.ReflTransGen (ThreadPool.Step (handler policy True).exec (executeSyncTask self fuel))
        (.boot tasks w) pool →
      pool.Finished → Reached self fuel policy srcDir destDir src dest w (.returned pool.state)

theorem Reached.step {policy : Policy} {manager' : SyncManager n}
    (reached : Reached self fuel policy srcDir destDir src dest w manager)
    (one : Step self fuel policy manager manager') :
    Reached self fuel policy srcDir destDir src dest w manager' := by
  cases one with
  | detect one =>
      cases reached with
      | detecting holds => exact .detecting (holds.step one).2
  | submit =>
      cases reached with
      | detecting holds =>
          obtain ⟨plan, rfl⟩ := holds _ rfl
          exact .processing plan .refl
  | process one =>
      cases reached with
      | processing plan run => exact .processing plan (run.tail one)
  | wake finished =>
      cases reached with
      | processing plan run => exact .returned plan run finished

theorem Reached.at_return {policy : Policy}
    (reached : Reached self fuel policy srcDir destDir src dest w (.returned w' : SyncManager n)) :
    ∃ (tasks : List SyncTask) (pool : ThreadPool Op Res World SyncTask n),
      Plan w.fs srcDir destDir src dest tasks ∧
      Relation.ReflTransGen (ThreadPool.Step (handler policy True).exec (executeSyncTask self fuel))
        (.boot tasks w) pool ∧ pool.Finished ∧ w' = pool.state := by
  cases reached with
  | returned plan work finished => exact ⟨_, _, plan, work, finished, rfl⟩

theorem reached_of_runs {policy : Policy}
    (scan : Program.Sat (handler policy True) Interference.free
      (detectChanges self fuel srcDir destDir)
      (fun tasks w' => Plan w.fs srcDir destDir src dest tasks ∧ w' = w) w)
    (run : Runs self fuel policy srcDir destDir w manager) :
    Reached self fuel policy srcDir destDir src dest w manager := by
  induction run with
  | refl => exact .detecting scan
  | tail _ one ih => exact ih.step one

/-- Where a run is: the scan, a pool at the tasks it has found, or the end of it. -/
def Phase (self : FileSync) (fuel : Nat) (H : Handler Op Res World) (I : Interference World)
    (Q : List SyncTask → World → Prop) : SyncManager n → Prop
  | .detecting p w₁ => Program.Sat H I p Q w₁
  | .processing pool => ∃ tasks w₁, Q tasks w₁ ∧
      Relation.ReflTransGen (ThreadPool.Step H.exec (executeSyncTask self fuel))
        (.boot tasks w₁) pool
  | .returned w₂ =>
  ∃ (tasks : List SyncTask) (w₁ : World) (pool : ThreadPool Op Res World SyncTask n),
      Q tasks w₁ ∧
      Relation.ReflTransGen (ThreadPool.Step H.exec (executeSyncTask self fuel))
        (.boot tasks w₁) pool ∧
      pool.Finished ∧ w₂ = pool.state

section

variable {H : Handler Op Res World} {I : Interference World} {Q : List SyncTask → World → Prop}

theorem Phase.step {manager' : SyncManager n} (phase : Phase self fuel H I Q manager)
    (one : StepUnder self fuel H.exec manager manager') : Phase self fuel H I Q manager' := by
  cases one with
  | detect one =>
      have scan : Program.Sat H I _ Q _ := phase
      exact (scan.step one).2
  | submit => exact ⟨_, _, phase _ (I.rely_refl _), .refl⟩
  | process one =>
      obtain ⟨tasks, w₁, found, run⟩ := phase
      exact ⟨tasks, w₁, found, run.tail one⟩
  | wake finished =>
      obtain ⟨tasks, w₁, found, run⟩ := phase
      exact ⟨tasks, w₁, _, found, run, finished, rfl⟩

/-- A run that has returned went through its scan and through all the tasks found there. -/
theorem phase_of_runs (scan : Program.Sat H I (detectChanges self fuel srcDir destDir) Q w)
    (run : Relation.ReflTransGen (StepUnder self fuel H.exec)
      (.detecting (detectChanges self fuel srcDir destDir) w) manager) :
    Phase self fuel H I Q manager := by
  induction run with
  | refl => exact scan
  | tail _ one ih => exact ih.step one

theorem run_of_phases {exec : (op : Op) → World → Res op → World → Prop} {tasks : List SyncTask}
    {w₁ : World} {pool : ThreadPool Op Res World SyncTask n}
    (scanned : Program.Reach exec Eq (detectChanges self fuel srcDir destDir) w (.done tasks) w₁)
    (worked : Relation.ReflTransGen (ThreadPool.Step exec (executeSyncTask self fuel))
      (.boot tasks w₁) pool) (finished : pool.Finished) :
    Relation.ReflTransGen (StepUnder self fuel exec)
      (.detecting (detectChanges self fuel srcDir destDir) w)
        (.returned pool.state : SyncManager n) := by
  have detected : ∀ p w₁, Program.Reach exec Eq (detectChanges self fuel srcDir destDir) w p w₁ →
      Relation.ReflTransGen (StepUnder self fuel exec)
        (.detecting (detectChanges self fuel srcDir destDir) w : SyncManager n)
          (.detecting p w₁) := by
    intro p w₁ run
    induction run with
    | refl => exact .refl
    | step _ one ih => exact ih.tail (.detect one)
    | env _ same ih => exact same ▸ ih
  have processing : ∀ pool : ThreadPool Op Res World SyncTask n,
      Relation.ReflTransGen (ThreadPool.Step exec (executeSyncTask self fuel))
        (.boot tasks w₁) pool →
      Relation.ReflTransGen (StepUnder self fuel exec)
        (.detecting (detectChanges self fuel srcDir destDir) w) (.processing pool) := by
    intro pool run
    induction run with
    | refl => exact (detected _ _ scanned).tail .submit
    | tail _ one ih => exact ih.tail (.process one)
  exact (processing pool worked).tail (.wake finished)

end

/-- When the pool has finished with the tasks of a plan, everything is done. -/
theorem processed {policy : Policy} {space : Nat → Prop} {tasks : List SyncTask}
    {pool : ThreadPool Op Res World SyncTask n}
    (sound : ∀ op choice w, policy op choice w → Policy.reliable space op choice w)
    (unraced : ∀ I, Unraced policy I) (overwrites : Overwrites self)
    (site : Site w.fs srcDir destDir src dest) (plan : Plan w.fs srcDir destDir src dest tasks)
    (small : ∀ names content, w.fs.entry (src ++ names) = some (.file content) →
      content.length ≤ (2 ^ 31 - 1) * ASYNC_CHUNK_SIZE)
    (run : Relation.ReflTransGen
      (ThreadPool.Step (handler policy True).exec (executeSyncTask self fuel)) (.boot tasks w) pool)
    (finished : pool.Finished) :
    ∀ names, names ≠ [] → Site.Done w.fs src dest names pool.state.fs := by
  obtain ⟨jobs, rfl, distinct, nodes, others⟩ := plan.jobs
  have there : ∀ names ∈ jobs, w.fs.entry (src ++ names) ≠ none := by
    intro names member
    obtain ⟨node, here⟩ := nodes names member
    exact FileSystem.entry_ne_none.mpr (by simp [here])
  have works : ∀ task ∈ jobs.map (taskAt w.fs srcDir destDir src), ∀ w₁,
      (site.share (namesOf srcDir task)).Rely w w₁ →
      Program.Sat (handler policy True) (site.share (namesOf srcDir task)).interference
        (executeSyncTask self fuel task)
        (fun _ w' => Site.Done w.fs src dest (namesOf srcDir task) w'.fs) w₁ := by
    intro task member w₁ drift
    obtain ⟨names, job, rfl⟩ := List.mem_map.mp member
    obtain ⟨node, here⟩ := nodes names job
    rw [namesOf_taskAt (there names job)] at drift ⊢
    rw [taskAt, here, Option.getD_some]
    apply (site.task_sat sound overwrites here ?_ (Interference.Le.refl _)
      (unraced _) rfl drift).weaken
    · rintro ok w₂ ⟨-, done⟩
      exact done
    · intro content file
      exact ⟨small names content (by simp [FileSystem.entry, here, file]), .inl trivial⟩
  obtain ⟨goals, rest⟩ := ThreadPool.run_finished (namesOf srcDir)
    (fun names => (site.share names).interference)
    (fun names w' => Site.Done w.fs src dest names w'.fs)
    (fun names names' other _ _ did => did.rely (site.share_apart other.symm))
    (fun names _ _ drift done => site.done_rely done drift) works (taskAt_apart there)
    (taskAt_once there distinct) run finished
  intro names nonempty
  by_cases job : names ∈ jobs
  · have goal := goals _ (List.mem_map_of_mem job)
    rwa [namesOf_taskAt (there names job)] at goal
  · refine site.done_rely (others names nonempty job) (rest names ?_)
    intro task member same
    obtain ⟨names', job', rfl⟩ := List.mem_map.mp member
    rw [namesOf_taskAt (there names' job')] at same
    exact job (same ▸ job')

/-- Parallel local sync: in every run in which each `mkdir` finds its name free, whatever the
source has is at the destination when `syncLocal` returns. -/
theorem syncLocal_complete (overwrites : self.conflictStrategy = .overwrite)
    (site : Site w.fs srcDir destDir src dest)
    (empty : ∀ names, names ≠ [] → w.fs.entry (dest ++ names) = none)
    (small : ∀ names content, w.fs.entry (src ++ names) = some (.file content) →
      content.length < LARGE_FILE_THRESHOLD)
    (run : Runs self fuel mkdirFree srcDir destDir w (.returned w' : SyncManager n)) :
    ∀ names, names ≠ [] → ∀ entry, w.fs.entry (src ++ names) = some entry →
      w'.fs.entry (dest ++ names) = some entry := by
  have sound : ∀ op choice w, mkdirFree op choice w → Policy.reliable (fun _ => True) op choice w :=
    fun _ _ _ allowed => allowed.1
  have collisionFree : CollisionFree self.md5 w.fs src dest := by
    intro names content other here there
    by_cases first : names = []
    · rw [first, List.append_nil, site.srcIsDir] at here
      cases here
    · rw [empty names first] at there
      cases there
  have scan : Program.Sat (handler mkdirFree True) Interference.free
      (detectChanges self fuel srcDir destDir)
      (fun tasks w' => Plan w.fs srcDir destDir src dest tasks ∧ w' = w) w :=
    detectChanges_sat sound (fun _ _ same => Eq.symm same) site.srcFound site.srcIsDir
      site.trees.overlay.dest_found collisionFree ⟨.inl trivial, .inl trivial⟩
        ⟨.inl trivial, .inl trivial⟩
  obtain ⟨tasks, pool, plan, work, finished, rfl⟩ := (reached_of_runs scan run).at_return
  refine processed sound unraced_mkdirFree (.inl overwrites) site plan ?_ work finished
  intro names content file
  have short := small names content file
  simp only [LARGE_FILE_THRESHOLD, ASYNC_CHUNK_SIZE] at short ⊢
  omega

/-- Who moves in a run in which nothing is held back: the calling thread, or a worker. -/
inductive Move (n : Nat) where
  | main
  | worker (i : Fin n)

/-- One call of a program, if the guard lets it. -/
def callOnce (guard : Op → World → Bool) {α : Type} : Prog α → World → Option (Prog α × World)
  | .call op next, w =>
      if guard op w then some (next (Policy.quietly 0 op w).1, (Policy.quietly 0 op w).2) else none
  | _, _ => none

def workerMove (self : FileSync) (fuel : Nat) (guard : Op → World → Bool)
    (pool : ThreadPool Op Res World SyncTask n) (i : Fin n) :
    Option (ThreadPool Op Res World SyncTask n) :=
  match pool.threads i with
  | none =>
      match pool.taskQueue with
      | [] => none
      | task :: rest => some { pool with
          taskQueue := rest
          threads := Function.update pool.threads i (some (task, executeSyncTask self fuel task)) }
  | some (task, .done _) => some { pool with
      threads := Function.update pool.threads i none
      activeTasks := pool.activeTasks - 1
      completed := pool.completed ++ [task] }
  | some (task, p) => (callOnce guard p pool.state).map fun r => { pool with
      threads := Function.update pool.threads i (some (task, r.1))
      state := r.2 }

def mainMove (guard : Op → World → Bool) : SyncManager n → Option (SyncManager n)
  | .detecting (.done tasks) w => some (.processing (.boot tasks w))
  | .detecting p w => (callOnce guard p w).map fun r => .detecting r.1 r.2
  | .processing pool =>
      match pool.tasks with
      | task :: rest => some (.processing { pool with
          tasks := rest
          taskQueue := pool.taskQueue ++ [task]
          activeTasks := pool.activeTasks + 1 })
      | [] => if pool.activeTasks = 0 then some (.returned pool.state) else none
  | .returned _ => none

def move (self : FileSync) (fuel : Nat) (guard : Op → World → Bool) (manager : SyncManager n) :
    Move n → Option (SyncManager n)
  | .main => mainMove guard manager
  | .worker i =>
      match manager with
      | .processing pool => (workerMove self fuel guard pool i).map .processing
      | _ => none

def moves (self : FileSync) (fuel : Nat) (guard : Op → World → Bool) :
    SyncManager n → List (Move n) → Option (SyncManager n)
  | manager, [] => some manager
  | manager, m :: rest => (move self fuel guard manager m).bind fun next =>
      moves self fuel guard next rest

/-- What a finished run has left. -/
def leaves {γ : Type} (observe : World → γ) : SyncManager n → Option γ
  | .returned w => some (observe w)
  | _ => none

/-- The policy admits the calls that the guard lets through. -/
def Admits (policy : Policy) (guard : Op → World → Bool) : Prop :=
  ∀ op w, guard op w = true →
    (handler policy True).exec op w (Policy.quietly 0 op w).1 (Policy.quietly 0 op w).2

section Moves

variable {policy : Policy} {guard : Op → World → Bool} {manager' : SyncManager n}

theorem callOnce_step {α : Type} {p : Prog α} {w : World} {r : Prog α × World}
    (admits : Admits policy guard) (moved : callOnce guard p w = some r) :
    Program.Step (handler policy True).exec p w r.1 r.2 := by
  cases p with
  | call op next =>
      simp only [callOnce] at moved
      split at moved
      · next free =>
          cases moved
          exact .call (admits op w free)
      · cases moved
  | done value => cases moved
  | fork count child join => cases moved
  | spin => cases moved

theorem workerMove_step {pool pool' : ThreadPool Op Res World SyncTask n} {i : Fin n}
    (admits : Admits policy guard) (moved : workerMove self fuel guard pool i = some pool') :
    ThreadPool.Step (handler policy True).exec (executeSyncTask self fuel) pool pool' := by
  unfold workerMove at moved
  split at moved
  · next idle =>
      split at moved
      · cases moved
      · next queue =>
          cases moved
          exact .take i idle queue
  · next held =>
      cases moved
      exact .finish i held
  · next _ held =>
      obtain ⟨r, called, rfl⟩ := Option.map_eq_some_iff.mp moved
      exact .work i held (callOnce_step admits called)

theorem mainMove_step (admits : Admits policy guard)
    (moved : mainMove guard manager = some manager') : Step self fuel policy manager manager' := by
  unfold mainMove at moved
  split at moved
  · cases moved
    exact .submit
  · obtain ⟨r, called, rfl⟩ := Option.map_eq_some_iff.mp moved
    exact .detect (callOnce_step admits called)
  · split at moved
    · next tasks =>
        cases moved
        exact .process (.submit tasks)
    · next tasks =>
        split at moved
        · next idle =>
            cases moved
            exact .wake ⟨tasks, idle⟩
        · cases moved
  · cases moved

theorem move_step {m : Move n} (admits : Admits policy guard)
    (moved : move self fuel guard manager m = some manager') :
    Step self fuel policy manager manager' := by
  cases m with
  | main => exact mainMove_step admits moved
  | worker i =>
      cases manager with
      | detecting p w => cases moved
      | processing pool =>
          obtain ⟨pool', worked, rfl⟩ := Option.map_eq_some_iff.mp moved
          exact .process (workerMove_step admits worked)
      | returned w => cases moved

theorem moves_run {schedule : List (Move n)} (admits : Admits policy guard)
    (moved : moves self fuel guard manager schedule = some manager') :
    Relation.ReflTransGen (Step self fuel policy) manager manager' := by
  induction schedule generalizing manager with
  | nil =>
      cases moved
      exact .refl
  | cons m rest ih =>
      obtain ⟨next, first, later⟩ := Option.bind_eq_some_iff.mp moved
      exact .head (move_step admits first) (ih later)

/-- A run of which only a part of what it leaves is looked at. -/
theorem runs_of_moves {γ : Type} (admits : Admits policy guard) (self : FileSync) (fuel : Nat)
    (srcDir destDir : Bytes) (w : World) (schedule : List (Move n)) (observe : World → γ) (seen : γ)
    (left : (moves self fuel guard (.detecting (detectChanges self fuel srcDir destDir) w)
      schedule).bind (leaves observe) = some seen) :
    ∃ w' : World, Runs self fuel policy srcDir destDir w (.returned w' : SyncManager n) ∧
      observe w' = seen := by
  obtain ⟨manager, moved, last⟩ := Option.bind_eq_some_iff.mp left
  cases manager with
  | returned w' =>
      cases last
      exact ⟨w', moves_run admits moved, rfl⟩
  | detecting p w' => cases last
  | processing pool => cases last

end Moves

/-- The names that `mkdir` is asked to make are free. -/
def nameFree : Op → World → Bool
  | .mkdir path _, w => (w.fs.resolve path).all fun p => (w.fs.entry p).isNone
  | _, _ => true

theorem admits_nameFree : Admits mkdirFree nameFree := by
  intro op w free
  obtain ⟨choice, allowed, ran⟩ := Policy.quietly_reliable (fun _ => True) True 0 trivial op w
  refine ⟨choice, ⟨allowed, ?_⟩, ran⟩
  rintro path mode rfl p found
  simpa [nameFree, found] using free

theorem admits_all : Admits (Policy.reliable fun _ => True) fun _ _ => true :=
  fun op w _ => Policy.quietly_reliable (fun _ => True) True 0 trivial op w

def managed : FileSync := { plainSync with threadPool := true }

def twoFs : FileSystem :=
  ((FileSystem.empty.put [[115]] (.dir 4096 0o755 0)).put [[115], [97]] (.file [65] 0o644 1)).put
    [[115], [98]] (.file [66] 0o644 1)

/-- The calling thread scans and submits both tasks, then the workers move as given, then the
calling thread finds the pool idle. -/
def scheduled (workers : List (Move 2)) : List (Move 2) :=
  List.replicate 11 .main ++ workers ++ [.main]

/-- One worker after the other. -/
def oneByOne : List (Move 2) :=
  scheduled (List.replicate 16 (.worker 0) ++ List.replicate 15 (.worker 1))

/-- Both workers look for the destination directory before either makes it. -/
def racing : List (Move 2) :=
  scheduled (List.replicate 3 (.worker 0) ++ List.replicate 3 (.worker 1) ++
    List.replicate 13 (.worker 0) ++ List.replicate 2 (.worker 1))

theorem twoFs_keys : twoFs.nodes.keys = [[[115], [98]], [[115], [97]], [[115]], []] := by
  decide +kernel

theorem twoFs_a : twoFs.entry ([[115]] ++ [[97]]) = some (.file [65]) := by decide +kernel

theorem twoFs_b : twoFs.entry ([[115]] ++ [[98]]) = some (.file [66]) := by decide +kernel

theorem twoFs_below {names : Path} (nonempty : names ≠ [])
    (exist : twoFs.entry ([[115]] ++ names) ≠ none) : names = [[98]] ∨ names = [[97]] := by
  have member := FileSystem.mem_keys_of_entry exist
  rw [twoFs_keys] at member
  simpa [nonempty] using member

theorem twoFs_absent (names : Path) : twoFs.entry ([[100]] ++ names) = none := by
  by_contra exist
  have member := FileSystem.mem_keys_of_entry exist
  rw [twoFs_keys] at member
  simp at member

theorem twoFs_small (names : Path) (content : Bytes)
    (here : twoFs.entry ([[115]] ++ names) = some (.file content)) :
    content.length < LARGE_FILE_THRESHOLD := by
  by_cases first : names = []
  · have top : twoFs.entry ([[115]] ++ names) = some .dir := by
      rw [first]
      decide +kernel
    rw [top] at here
    cases here
  · rcases twoFs_below first (Option.ne_none_iff_exists'.mpr ⟨_, here⟩) with rfl | rfl
    · rw [twoFs_b] at here
      cases here
      decide
    · rw [twoFs_a] at here
      cases here
      decide

theorem two_site : Site twoFs [47, 115] [47, 100] [[115]] [[100]] where
  srcFound := by decide +kernel
  srcIsDir := by decide +kernel
  destNonempty := by decide
  destPlace := by decide +kernel
  destProper := by decide
  home := by decide +kernel
  way := by decide +kernel
  apart := by decide
  kinds := by
    intro names _ entry entry' _ there
    rw [twoFs_absent] at there
    cases there
  noRecords := by
    intro names name exist
    have here : twoFs.entry ([[115]] ++ (names ++ [name])) ≠ none := by
      apply exist.resolve_right
      intro there
      exact there (twoFs_absent _)
    rcases twoFs_below (by simp) here with only | only <;>
    · have last := congrArg List.getLast? only
      simp only [List.getLast?_append, List.getLast?_singleton, Option.some_or,
        Option.some.injEq] at last
      rw [last]
      decide

/-- Worked off one after the other, both files arrive. -/
theorem syncLocal_complete_two : ∃ w' : World,
    Runs managed 3 mkdirFree [47, 115] [47, 100] (World.boot twoFs) (.returned w' : SyncManager 2) ∧
    ∀ names, names ≠ [] → ∀ entry, twoFs.entry ([[115]] ++ names) = some entry →
      w'.fs.entry ([[100]] ++ names) = some entry := by
  obtain ⟨w', run, -⟩ := runs_of_moves admits_nameFree managed 3 [47, 115] [47, 100]
    (World.boot twoFs) oneByOne (fun _ => ()) () (by decide +kernel)
  refine ⟨w', run, ?_⟩
  exact syncLocal_complete (w := World.boot twoFs) rfl two_site (fun names _ => twoFs_absent names)
    twoFs_small run

/-- Both workers find the destination directory missing; the slower `mkdir` finds it made, its
task is given up, and `syncLocal` returns true without the file. -/
theorem syncLocal_race : ∃ w' : World,
    Runs managed 3 (Policy.reliable fun _ => True) [47, 115] [47, 100] (World.boot twoFs)
      (.returned w' : SyncManager 2) ∧
    twoFs.entry [[115], [98]] = some (.file [66]) ∧ w'.fs.entry [[100], [98]] = none := by
  obtain ⟨w', run, seen⟩ := runs_of_moves admits_all managed 3 [47, 115] [47, 100]
    (World.boot twoFs) racing (fun w' => w'.fs.entry [[100], [98]]) none (by decide +kernel)
  exact ⟨w', run, by decide +kernel, seen⟩

end SyncManager

end SyncTool
