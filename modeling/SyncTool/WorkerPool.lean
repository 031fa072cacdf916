import Mathlib.Data.List.Perm.Subperm
import Mathlib.Logic.Relation

set_option autoImplicit false

namespace SyncTool

/-- Where a thread is in `workerThread`. -/
inductive Worker (ι : Type) where
  /-- At the head of the loop, before it tests `running`. -/
  | testing
  | locking
  /-- It holds the mutex and is to evaluate the predicate of the wait. -/
  | evaluating
  /-- It has found the predicate false, and is to unlock and block. -/
  | parking
  | blocked
  /-- It has been woken, and needs the mutex again. -/
  | notified
  /-- It has found the predicate true. -/
  | choosing
  | working (task : ι)
  /-- The task has returned or thrown; `activeTasks` is still to be lowered. -/
  | counting (task : ι)
  | returned
deriving DecidableEq

/-- Where a thread that submits tasks is: between two calls of `submit`, behind `emplace`, or
behind the locked block. -/
inductive Submitter (ι : Type) where
  | ready (todo : List ι)
  | emplaced (task : ι) (todo : List ι)
  | counted (task : ι) (todo : List ι)
deriving DecidableEq

/-- The calls of the thread that owns the pool. -/
inductive Command where
  | stop
  | setThreadCount (threadCount : Nat)
deriving DecidableEq

/-- Where the owner is: between two calls, behind `running = false`, behind `notify_all`, or
creating threads. `next` is the count that `setThreadCount` stops the pool for. -/
inductive Control where
  | free (commands : List Command)
  | cleared (next : Option Nat) (commands : List Command)
  | joining (next : Option Nat) (commands : List Command)
  | spawning (left : Nat) (commands : List Command)
deriving DecidableEq

/-- A `ThreadPool` with the threads that use it, and what has become of the tasks: `submitted` in
the order of `emplace`, `accepted` those whose `submit` has returned, `popped`, and `finished`
those that have been run to their end. -/
structure WorkerPool (ι : Type) where
  threads : List (Worker ι)
  taskQueue : List ι
  locked : Bool
  running : Bool
  activeTasks : Nat
  submitters : List (Submitter ι)
  control : Control
  submitted : List ι
  accepted : List ι
  popped : List ι
  finished : List ι
deriving DecidableEq

variable {ι : Type}

namespace Worker

/-- It holds `queueMutex`. -/
def holds : Worker ι → Bool
  | evaluating | parking | choosing => true
  | _ => false

/-- It has a task that is still counted. -/
def busy : Worker ι → Bool
  | working _ | counting _ => true
  | _ => false

/-- It is past the test of the loop and has not left the wait with a task. -/
def waiting : Worker ι → Bool
  | locking | evaluating | parking | blocked | notified | choosing => true
  | _ => false

/-- The task it is running. -/
def job : Worker ι → List ι
  | working task => [task]
  | _ => []

def wake : Worker ι → Worker ι
  | blocked => notified
  | worker => worker

end Worker

namespace Submitter

/-- It holds `queueMutex`: the task is in the queue and not yet counted. -/
def holds : Submitter ι → Bool
  | emplaced _ _ => true
  | _ => false

/-- The task it is submitting. -/
def job : Submitter ι → List ι
  | emplaced task _ | counted task _ => [task]
  | ready _ => []

end Submitter

namespace WorkerPool

/-- The constructor, before it creates its threads. -/
def boot (threadCount : Nat) (todos : List (List ι)) (commands : List Command) : WorkerPool ι where
  threads := []
  taskQueue := []
  locked := false
  running := true
  activeTasks := 0
  submitters := todos.map .ready
  control := .spawning threadCount commands
  submitted := []
  accepted := []
  popped := []
  finished := []

end WorkerPool

/-- What a worker does to itself and to the rest of the pool. -/
inductive Worker.Step : Worker ι → WorkerPool ι → Worker ι → WorkerPool ι → Prop where
  | enter {pool : WorkerPool ι} : pool.running = true → Step .testing pool .locking pool
  | leave {pool : WorkerPool ι} : pool.running = false → Step .testing pool .returned pool
  | lock {pool : WorkerPool ι} : pool.locked = false →
      Step .locking pool .evaluating { pool with locked := true }
  | wait {pool : WorkerPool ι} : pool.running = true → pool.taskQueue = [] →
      Step .evaluating pool .parking pool
  | proceed {pool : WorkerPool ι} : pool.running = false ∨ pool.taskQueue ≠ [] →
      Step .evaluating pool .choosing pool
  | block {pool : WorkerPool ι} : Step .parking pool .blocked { pool with locked := false }
  | relock {pool : WorkerPool ι} : pool.locked = false →
      Step .notified pool .evaluating { pool with locked := true }
  | quit {pool : WorkerPool ι} : pool.running = false → pool.taskQueue = [] →
      Step .choosing pool .returned { pool with locked := false }
  | pop {pool : WorkerPool ι} {task : ι} {rest : List ι} : pool.taskQueue = task :: rest →
      Step .choosing pool (.working task)
        { pool with taskQueue := rest, locked := false, popped := pool.popped ++ [task] }
  | run {pool : WorkerPool ι} {task : ι} : Step (.working task) pool (.counting task)
      { pool with finished := pool.finished ++ [task] }
  | count {pool : WorkerPool ι} {task : ι} : Step (.counting task) pool .testing
      { pool with activeTasks := pool.activeTasks - 1 }

namespace WorkerPool

/-- The steps of all threads. -/
inductive Step : WorkerPool ι → WorkerPool ι → Prop where
  | worker {pool pool' : WorkerPool ι} {front back : List (Worker ι)} {worker worker' : Worker ι} :
      pool.threads = front ++ worker :: back → Worker.Step worker pool worker' pool' →
      Step pool { pool' with threads := front ++ worker' :: back }
  -- `submit`
  | emplace {pool : WorkerPool ι} {front back : List (Submitter ι)} {task : ι} {todo : List ι} :
      pool.submitters = front ++ .ready (task :: todo) :: back → pool.locked = false → Step pool
        { pool with
          submitters := front ++ .emplaced task todo :: back
          locked := true
          taskQueue := pool.taskQueue ++ [task]
          submitted := pool.submitted ++ [task] }
  | raise {pool : WorkerPool ι} {front back : List (Submitter ι)} {task : ι} {todo : List ι} :
      pool.submitters = front ++ .emplaced task todo :: back → Step pool
        { pool with
          submitters := front ++ .counted task todo :: back
          activeTasks := pool.activeTasks + 1
          locked := false }
  | notifyNone {pool : WorkerPool ι} {front back : List (Submitter ι)} {task : ι} {todo : List ι} :
      pool.submitters = front ++ .counted task todo :: back → .blocked ∉ pool.threads → Step pool
        { pool with
          submitters := front ++ .ready todo :: back
          accepted := pool.accepted ++ [task] }
  | notifyOne {pool : WorkerPool ι} {front back : List (Submitter ι)} {task : ι} {todo : List ι}
      {first later : List (Worker ι)} : pool.submitters = front ++ .counted task todo :: back →
      pool.threads = first ++ .blocked :: later → Step pool
        { pool with
          submitters := front ++ .ready todo :: back
          accepted := pool.accepted ++ [task]
          threads := first ++ .notified :: later }
  -- `stop` and `setThreadCount`
  | clear {pool : WorkerPool ι} {commands : List Command} :
      pool.control = .free (.stop :: commands) → Step pool
        { pool with control := .cleared none commands, running := false }
  | same {pool : WorkerPool ι} {commands : List Command} {threadCount : Nat} :
      pool.control = .free (.setThreadCount threadCount :: commands) →
      threadCount = pool.threads.length → Step pool { pool with control := .free commands }
  | other {pool : WorkerPool ι} {commands : List Command} {threadCount : Nat} :
      pool.control = .free (.setThreadCount threadCount :: commands) →
      threadCount ≠ pool.threads.length → Step pool
        { pool with control := .cleared (some threadCount) commands, running := false }
  | notifyAll {pool : WorkerPool ι} {next : Option Nat} {commands : List Command} :
      pool.control = .cleared next commands → Step pool
        { pool with control := .joining next commands, threads := pool.threads.map Worker.wake }
  | joined {pool : WorkerPool ι} {commands : List Command} :
      pool.control = .joining none commands → (∀ worker ∈ pool.threads, worker = .returned) →
      Step pool { pool with control := .free commands }
  | restart {pool : WorkerPool ι} {commands : List Command} {threadCount : Nat} :
      pool.control = .joining (some threadCount) commands →
      (∀ worker ∈ pool.threads, worker = .returned) → Step pool
        { pool with control := .spawning threadCount commands, running := true, threads := [] }
  | spawn {pool : WorkerPool ι} {commands : List Command} {left : Nat} :
      pool.control = .spawning (left + 1) commands → Step pool
        { pool with control := .spawning left commands, threads := pool.threads ++ [.testing] }
  | spawned {pool : WorkerPool ι} {commands : List Command} :
      pool.control = .spawning 0 commands → Step pool { pool with control := .free commands }

/-- A state that a pool comes to from its constructor on. -/
def Reachable (pool : WorkerPool ι) : Prop :=
  ∃ threadCount todos commands, Relation.ReflTransGen Step (boot threadCount todos commands) pool

/-- Every task is in one place, and the counter counts those that are submitted and not done,
but for one that is just being put into the queue. -/
structure Books (pool : WorkerPool ι) : Prop where
  mutex : pool.threads.countP Worker.holds + pool.submitters.countP Submitter.holds =
    if pool.locked then 1 else 0
  order : pool.submitted = pool.popped ++ pool.taskQueue
  count : pool.activeTasks + pool.submitters.countP Submitter.holds =
    pool.taskQueue.length + pool.threads.countP Worker.busy
  last : ∀ task todo, .emplaced task todo ∈ pool.submitters →
    ∃ before, pool.taskQueue = before ++ [task]
  runs : pool.popped.Perm (pool.finished ++ pool.threads.flatMap Worker.job)
  accepted : pool.submitted.Perm (pool.accepted ++ pool.submitters.flatMap Submitter.job)

theorem books_boot (threadCount : Nat) (todos : List (List ι)) (commands : List Command) :
    Books (boot threadCount todos commands) where
  mutex := by
    have none_holds : (todos.map Submitter.ready).countP Submitter.holds = 0 := by
      simp [Submitter.holds]
    simp [boot, none_holds]
  order := rfl
  count := by
    have none_holds : (todos.map Submitter.ready).countP Submitter.holds = 0 := by
      simp [Submitter.holds]
    simp [boot, none_holds]
  last := by simp [boot]
  runs := .nil
  accepted := by
    have nothing : (todos.map Submitter.ready).flatMap Submitter.job = [] := by
      simp [List.flatMap_map, Submitter.job]
    simp [boot, nothing]

section

variable {pool pool' : WorkerPool ι} {front back : List (Worker ι)} {worker worker' : Worker ι}

/-- While a worker has the mutex, no task is just being put into the queue. -/
theorem Books.alone (books : Books pool) (member : worker ∈ pool.threads)
    (holds : worker.holds = true) :
    pool.locked = true ∧ pool.submitters.countP Submitter.holds = 0 := by
  have mutex := books.mutex
  have positive : 0 < pool.threads.countP Worker.holds :=
    List.countP_pos_iff.mpr ⟨worker, member, holds⟩
  cases locked : pool.locked with
  | true =>
      simp only [locked, ↓reduceIte] at mutex
      exact ⟨rfl, by omega⟩
  | false =>
      simp only [locked, Bool.false_eq_true, ↓reduceIte] at mutex
      omega

theorem Books.not_emplaced (none_holds : pool.submitters.countP Submitter.holds = 0) (task : ι)
    (todo : List ι) : .emplaced task todo ∉ pool.submitters := fun member =>
  List.countP_eq_zero.mp none_holds _ member rfl

/-- The counter is above zero as long as a task is still counted: it is never lowered below. -/
theorem Books.positive (books : Books pool) (member : worker ∈ pool.threads)
    (busy : worker.busy = true) : 0 < pool.activeTasks := by
  have count := books.count
  have mutex := books.mutex
  have some : 0 < pool.threads.countP Worker.busy := List.countP_pos_iff.mpr ⟨worker, member, busy⟩
  by_cases none_holds : pool.submitters.countP Submitter.holds = 0
  · omega
  · obtain ⟨submitter, inside, holds⟩ :=
      List.countP_pos_iff.mp (Nat.pos_of_ne_zero none_holds)
    cases submitter with
    | emplaced task todo =>
        obtain ⟨before, queue⟩ := books.last task todo inside
        have length := congrArg List.length queue
        simp only [List.length_append, List.length_singleton] at length
        split at mutex <;> omega
    | ready todo => cases holds
    | counted task todo => cases holds

/-- A worker's step that leaves the queue and the counter alone. -/
theorem Books.quiet (books : Books pool) (split : pool.threads = front ++ worker :: back)
    {locked : Bool} (mutex : (if locked then 1 else 0) + (if worker.holds then 1 else 0) =
      (if pool.locked then 1 else 0) + if worker'.holds then 1 else 0)
    (busy : worker'.busy = worker.busy) (job : worker'.job = worker.job) :
    Books { pool with locked := locked, threads := front ++ worker' :: back } where
  mutex := by
    have before := books.mutex
    rw [split] at before
    simp only [List.countP_append, List.countP_cons] at before ⊢
    omega
  order := books.order
  count := by
    have before := books.count
    rw [split] at before
    simpa only [List.countP_append, List.countP_cons, busy] using before
  last := books.last
  runs := by
    have before := books.runs
    rw [split] at before
    simpa only [List.flatMap_append, List.flatMap_cons, job] using before
  accepted := books.accepted

theorem Books.workerStep (books : Books pool) (split : pool.threads = front ++ worker :: back)
    (one : Worker.Step worker pool worker' pool') :
    Books { pool' with threads := front ++ worker' :: back } := by
  have member : worker ∈ pool.threads := by simp [split]
  have count := books.count
  have runs := books.runs
  rw [split] at count runs
  cases one with
  | enter running => exact books.quiet split (by simp [Worker.holds]) rfl rfl
  | leave stopped => exact books.quiet split (by simp [Worker.holds]) rfl rfl
  | lock free => exact books.quiet split (by simp [Worker.holds, free]) rfl rfl
  | wait running empty => exact books.quiet split (by simp [Worker.holds]) rfl rfl
  | proceed ready => exact books.quiet split (by simp [Worker.holds]) rfl rfl
  | block =>
      have alone := books.alone member rfl
      exact books.quiet split (by simp [Worker.holds, alone.1]) rfl rfl
  | relock free => exact books.quiet split (by simp [Worker.holds, free]) rfl rfl
  | quit stopped empty =>
      have alone := books.alone member rfl
      exact books.quiet split (by simp [Worker.holds, alone.1]) rfl rfl
  | @pop _ task rest first =>
      obtain ⟨locked, none_holds⟩ := books.alone member rfl
      have mutex := books.mutex
      rw [split] at mutex
      rw [first] at count
      simp only [List.countP_append, List.countP_cons, Worker.holds, Worker.busy, locked,
        none_holds, ↓reduceIte, Bool.false_eq_true, List.length_cons] at mutex count
      exact {
        mutex := by
          simp only [List.countP_append, List.countP_cons, Worker.holds, none_holds,
            Bool.false_eq_true, ↓reduceIte]
          omega
        order := by
          have order := books.order
          rw [first] at order
          simpa using order
        count := by
          simp only [List.countP_append, List.countP_cons, Worker.busy, none_holds, ↓reduceIte]
          omega
        last := fun task todo inside => absurd inside (Books.not_emplaced none_holds task todo)
        runs := by
          have moved : (pool.popped ++ [task]).Perm
              (task :: (pool.finished ++ (front ++ back).flatMap Worker.job)) := by
            refine (List.perm_append_singleton _ _).trans (List.Perm.cons _ ?_)
            simpa [Worker.job] using runs
          refine moved.trans ?_
          simp only [List.flatMap_append, List.flatMap_cons, Worker.job, List.singleton_append]
          rw [← List.append_assoc, ← List.append_assoc]
          exact List.perm_middle.symm
        accepted := books.accepted }
  | @run _ task =>
      exact {
        mutex := by
          have mutex := books.mutex
          rw [split] at mutex
          simpa [List.countP_append, List.countP_cons, Worker.holds] using mutex
        order := books.order
        count := by simpa [List.countP_append, List.countP_cons, Worker.busy] using count
        last := books.last
        runs := by
          refine runs.trans ?_
          simp only [List.flatMap_append, List.flatMap_cons, Worker.job, List.nil_append,
            List.append_assoc]
          apply List.Perm.append_left
          exact List.perm_append_comm_assoc _ _ _
        accepted := books.accepted }
  | @count _ task =>
      exact {
        mutex := by
          have mutex := books.mutex
          rw [split] at mutex
          simpa [List.countP_append, List.countP_cons, Worker.holds] using mutex
        order := books.order
        count := by
          have positive := books.positive member rfl
          simp only [List.countP_append, List.countP_cons, Worker.busy, ↓reduceIte,
            Bool.false_eq_true] at count ⊢
          omega
        last := books.last
        runs := by simpa [Worker.job] using runs
        accepted := books.accepted }

theorem countP_eq (p : Worker ι → Bool) (threads : List (Worker ι)) :
    threads.countP p = (threads.map p).countP id := by
  rw [List.countP_map]
  rfl

/-- Waking workers leaves the books alone. -/
theorem Books.wake (books : Books pool) {threads : List (Worker ι)}
    (holds : threads.map Worker.holds = pool.threads.map Worker.holds)
    (busy : threads.map Worker.busy = pool.threads.map Worker.busy)
    (job : threads.map Worker.job = pool.threads.map Worker.job) :
    Books { pool with threads := threads } where
  mutex := by
    have same : threads.countP Worker.holds = pool.threads.countP Worker.holds := by
      rw [countP_eq, holds, ← countP_eq]
    rw [same]
    exact books.mutex
  order := books.order
  count := by
    have same : threads.countP Worker.busy = pool.threads.countP Worker.busy := by
      rw [countP_eq, busy, ← countP_eq]
    rw [same]
    exact books.count
  last := books.last
  runs := by
    have same : threads.flatMap Worker.job = pool.threads.flatMap Worker.job := by
      rw [List.flatMap_def, job, ← List.flatMap_def]
    rw [same]
    exact books.runs
  accepted := books.accepted

/-- A submission that is over, for the task is already counted. -/
theorem Books.accept (books : Books pool) {first later : List (Submitter ι)} {task : ι}
    {todo : List ι} (split : pool.submitters = first ++ .counted task todo :: later) :
    Books { pool with
      submitters := first ++ .ready todo :: later
      accepted := pool.accepted ++ [task] } where
  mutex := by
    have mutex := books.mutex
    rw [split] at mutex
    simpa [List.countP_append, List.countP_cons, Submitter.holds] using mutex
  order := books.order
  count := by
    have count := books.count
    rw [split] at count
    simpa [List.countP_append, List.countP_cons, Submitter.holds] using count
  last := by
    intro other todo' inside
    apply books.last other todo'
    rw [split]
    simpa using inside
  runs := books.runs
  accepted := by
    refine books.accepted.trans ?_
    rw [split]
    simp only [List.flatMap_append, List.flatMap_cons, Submitter.job, List.nil_append,
      List.append_assoc]
    apply List.Perm.append_left
    exact List.perm_append_comm_assoc _ _ _

theorem Books.step (books : Books pool) (one : Step pool pool') : Books pool' := by
  cases one with
  | worker split one => exact books.workerStep split one
  | @emplace first later task todo split free =>
      have mutex := books.mutex
      have count := books.count
      have accepted := books.accepted
      rw [split] at mutex count accepted
      simp only [free, List.countP_append, List.countP_cons, Submitter.holds, Bool.false_eq_true,
        ↓reduceIte] at mutex count
      exact {
        mutex := by
          simp only [List.countP_append, List.countP_cons, Submitter.holds, ↓reduceIte]
          omega
        order := by rw [books.order, List.append_assoc]
        count := by
          simp only [List.countP_append, List.countP_cons, Submitter.holds, ↓reduceIte,
            List.length_append, List.length_singleton]
          omega
        last := by
          intro other todo' inside
          have none_first : first.countP Submitter.holds = 0 := by omega
          have none_later : later.countP Submitter.holds = 0 := by omega
          rcases List.mem_append.mp inside with before | after
          · exact absurd rfl (List.countP_eq_zero.mp none_first _ before)
          · rcases List.mem_cons.mp after with same | after
            · cases same
              exact ⟨_, rfl⟩
            · exact absurd rfl (List.countP_eq_zero.mp none_later _ after)
        runs := books.runs
        accepted := by
          refine (accepted.append_right [task]).trans ?_
          simp only [List.flatMap_append, List.flatMap_cons, Submitter.job, List.nil_append,
            List.append_assoc]
          apply List.Perm.append_left
          apply List.Perm.append_left
          exact List.perm_append_comm }
  | @raise first later task todo split =>
      have mutex := books.mutex
      have count := books.count
      rw [split] at mutex count
      simp only [List.countP_append, List.countP_cons, Submitter.holds, ↓reduceIte] at mutex count
      exact {
        mutex := by
          simp only [List.countP_append, List.countP_cons, Submitter.holds, Bool.false_eq_true,
            ↓reduceIte]
          split at mutex <;> omega
        order := books.order
        count := by
          simp only [List.countP_append, List.countP_cons, Submitter.holds, Bool.false_eq_true,
            ↓reduceIte]
          omega
        last := by
          intro other todo' inside
          apply books.last other todo'
          rw [split]
          rcases List.mem_append.mp inside with before | after
          · exact List.mem_append_left _ before
          · rcases List.mem_cons.mp after with same | after
            · cases same
            · exact List.mem_append_right _ (List.mem_cons_of_mem _ after)
        runs := books.runs
        accepted := by
          have accepted := books.accepted
          rw [split] at accepted
          simpa [Submitter.job] using accepted }
  | notifyNone split _ => exact books.accept split
  | notifyOne split blocked =>
      have woken := books.accept split
      apply woken.wake
      · simp [blocked, Worker.holds]
      · simp [blocked, Worker.busy]
      · simp [blocked, Worker.job]
  | clear _ => exact ⟨books.mutex, books.order, books.count, books.last, books.runs, books.accepted⟩
  | same _ _ => exact ⟨books.mutex, books.order, books.count, books.last,
      books.runs, books.accepted⟩
  | other _ _ => exact ⟨books.mutex, books.order, books.count, books.last, books.runs,
      books.accepted⟩
  | notifyAll _ =>
      have woken : ∀ worker : Worker ι, worker.wake.holds = worker.holds ∧
          worker.wake.busy = worker.busy ∧ worker.wake.job = worker.job := by
        intro worker
        cases worker <;> exact ⟨rfl, rfl, rfl⟩
      have books' : Books { pool with threads := pool.threads.map Worker.wake } := by
        apply books.wake
        · rw [List.map_map]
          exact List.map_congr_left fun worker _ => (woken worker).1
        · rw [List.map_map]
          exact List.map_congr_left fun worker _ => (woken worker).2.1
        · rw [List.map_map]
          exact List.map_congr_left fun worker _ => (woken worker).2.2
      exact ⟨books'.mutex, books'.order, books'.count, books'.last, books'.runs, books'.accepted⟩
  | joined _ _ => exact ⟨books.mutex, books.order, books.count, books.last, books.runs,
      books.accepted⟩
  | restart _ gone =>
      have still : ∀ p : Worker ι → Bool, p .returned = false → pool.threads.countP p = 0 := by
        intro p blank
        apply List.countP_eq_zero.mpr
        intro worker member
        rw [gone worker member, blank]
        exact Bool.false_ne_true
      have mutex := books.mutex
      have count := books.count
      have runs := books.runs
      have nothing : pool.threads.flatMap Worker.job = [] := by
        apply List.flatMap_eq_nil_iff.mpr
        intro worker member
        rw [gone worker member]
        rfl
      rw [still Worker.holds rfl] at mutex
      rw [still Worker.busy rfl] at count
      rw [nothing] at runs
      exact ⟨mutex, books.order, count, books.last, runs, books.accepted⟩
  | spawn _ =>
      have mutex := books.mutex
      have count := books.count
      have runs := books.runs
      exact {
        mutex := by simpa [Worker.holds] using mutex
        order := books.order
        count := by simpa [Worker.busy] using count
        last := books.last
        runs := by simpa [Worker.job] using runs
        accepted := books.accepted }
  | spawned _ => exact ⟨books.mutex, books.order, books.count, books.last,
      books.runs, books.accepted⟩

theorem Reachable.step (reach : pool.Reachable) (one : Step pool pool') : pool'.Reachable := by
  obtain ⟨threadCount, todos, commands, run⟩ := reach
  exact ⟨threadCount, todos, commands, run.tail one⟩

theorem Reachable.run (reach : pool.Reachable) (run : Relation.ReflTransGen Step pool pool') :
    pool'.Reachable := by
  obtain ⟨threadCount, todos, commands, before⟩ := reach
  exact ⟨threadCount, todos, commands, before.trans run⟩

theorem Reachable.books (reach : pool.Reachable) : Books pool := by
  obtain ⟨threadCount, todos, commands, run⟩ := reach
  induction run with
  | refl => exact books_boot threadCount todos commands
  | tail _ one ih => exact ih.step one

theorem accepted_step (one : Step pool pool') : pool.accepted <+: pool'.accepted := by
  cases one with
  | worker _ one => cases one <;> exact List.prefix_rfl
  | notifyNone _ _ => exact List.prefix_append _ _
  | notifyOne _ _ => exact List.prefix_append _ _
  | _ => exact List.prefix_rfl

theorem accepted_run (run : Relation.ReflTransGen Step pool pool') :
    pool.accepted <+: pool'.accepted := by
  induction run with
  | refl => exact List.prefix_rfl
  | tail _ one ih => exact ih.trans (accepted_step one)

/-- When the counter is at zero, all whose `submit` has returned have been run to their end. -/
theorem Books.finished (books : Books pool) (zero : pool.activeTasks = 0) :
    pool.accepted.Subperm pool.finished := by
  have count := books.count
  have mutex := books.mutex
  have order := books.order
  have runs := books.runs
  have accepted := books.accepted
  have most : pool.submitters.countP Submitter.holds ≤ 1 := by split at mutex <;> omega
  -- a worker that has a task would keep the counter above zero
  have idle : pool.threads.countP Worker.busy = 0 := by
    by_contra busy
    obtain ⟨worker, member, busy⟩ := List.countP_pos_iff.mp (Nat.pos_of_ne_zero busy)
    have positive := books.positive member busy
    omega
  have nothing : pool.threads.flatMap Worker.job = [] := by
    apply List.flatMap_eq_nil_iff.mpr
    intro worker member
    have quiet := List.countP_eq_zero.mp idle worker member
    cases worker with
    | working task => exact absurd rfl quiet
    | _ => rfl
  rw [nothing, List.append_nil] at runs
  by_cases none_holds : pool.submitters.countP Submitter.holds = 0
  · have empty : pool.taskQueue = [] := List.eq_nil_of_length_eq_zero (by omega)
    rw [order, empty, List.append_nil] at accepted
    exact ((List.sublist_append_left _ _).subperm).trans ((accepted.symm.trans runs).subperm)
  · obtain ⟨submitter, inside, holds⟩ := List.countP_pos_iff.mp (Nat.pos_of_ne_zero none_holds)
    cases submitter with
    | ready todo => cases holds
    | counted task todo => cases holds
    | emplaced task todo =>
        -- the one task in the queue is that of the submission under way
        obtain ⟨before, queue⟩ := books.last task todo inside
        have length := congrArg List.length queue
        rw [List.length_append, List.length_singleton] at length
        have blank : before = [] := List.eq_nil_of_length_eq_zero (by omega)
        obtain ⟨first, later, split⟩ := List.append_of_mem inside
        rw [order, queue, blank, split] at accepted
        simp only [List.nil_append, List.flatMap_append, List.flatMap_cons, Submitter.job,
          List.singleton_append] at accepted
        have moved : (task :: pool.popped).Perm
            (task :: (pool.accepted ++
              (first.flatMap Submitter.job ++ later.flatMap Submitter.job))) := by
          refine (List.perm_append_singleton _ _).symm.trans (accepted.trans ?_)
          rw [← List.append_assoc, ← List.append_assoc]
          exact List.perm_middle
        have rest := moved.cons_inv
        exact ((List.sublist_append_left _ _).subperm).trans ((rest.symm.trans runs).subperm)

/-- The pool accounts for every task, whatever its threads do. The counter is that of the tasks
queued and under way, less one while a `submit` is between its `emplace` and its count; it is not
lowered below zero; tasks are popped in the order they were submitted in and run once; and when
`waitForCompletion` finds the counter at zero, all that had been submitted when it was called have
been run. -/
theorem reachable_accounts (reach : pool.Reachable) :
    pool.activeTasks + pool.submitters.countP Submitter.holds =
        pool.taskQueue.length + pool.threads.countP Worker.busy ∧
      (∀ worker ∈ pool.threads, worker.busy = true → 0 < pool.activeTasks) ∧
      pool.popped <+: pool.submitted ∧
      pool.popped.Perm (pool.finished ++ pool.threads.flatMap Worker.job) ∧
      ∀ later, Relation.ReflTransGen Step pool later → later.activeTasks = 0 →
        pool.accepted.Subperm later.finished := by
  have books := reach.books
  refine ⟨books.count, fun worker => books.positive, ?_, books.runs, ?_⟩
  · rw [books.order]
    exact List.prefix_append _ _
  · intro later run zero
    have finished := (reach.run run).books.finished zero
    exact ((accepted_run run).sublist.subperm).trans finished

end

/-- The thread is running the first of two tasks, and the second one is queued. -/
def twoSubmitted : WorkerPool Nat :=
  { (boot 1 [[7, 8]] [] : WorkerPool Nat) with
    threads := [.working 7]
    taskQueue := [8]
    activeTasks := 2
    submitters := [.ready []]
    control := .free []
    submitted := [7, 8]
    accepted := [7, 8]
    popped := [7] }

theorem twoSubmitted_reachable : twoSubmitted.Reachable := by
  have run := Relation.ReflTransGen.refl (r := Step) (a := (boot 1 [[7, 8]] [] : WorkerPool Nat))
    |>.tail (.spawn rfl) |>.tail (.spawned rfl)
    |>.tail (@Step.emplace _ _ [] [] 7 [8] rfl rfl) |>.tail (@Step.raise _ _ [] [] 7 [8] rfl)
    |>.tail (@Step.notifyNone _ _ [] [] 7 [8] rfl (by decide))
    |>.tail (@Step.emplace _ _ [] [] 8 [] rfl rfl) |>.tail (@Step.raise _ _ [] [] 8 [] rfl)
    |>.tail (@Step.notifyNone _ _ [] [] 8 [] rfl (by decide))
    |>.tail (@Step.worker _ _ _ [] [] _ _ rfl (.enter rfl))
    |>.tail (@Step.worker _ _ _ [] [] _ _ rfl (.lock rfl))
    |>.tail (@Step.worker _ _ _ [] [] _ _ rfl (.proceed (.inr (by decide))))
    |>.tail (@Step.worker _ _ _ [] [] _ _ rfl (.pop rfl))
  exact ⟨1, [[7, 8]], [], run⟩

theorem reachable_accounts_working :
    twoSubmitted.activeTasks + twoSubmitted.submitters.countP Submitter.holds =
        twoSubmitted.taskQueue.length + twoSubmitted.threads.countP Worker.busy ∧
      (∀ worker ∈ twoSubmitted.threads, worker.busy = true → 0 < twoSubmitted.activeTasks) ∧
      twoSubmitted.popped <+: twoSubmitted.submitted ∧
      twoSubmitted.popped.Perm
        (twoSubmitted.finished ++ twoSubmitted.threads.flatMap Worker.job) ∧
      ∀ later, Relation.ReflTransGen Step twoSubmitted later → later.activeTasks = 0 →
        twoSubmitted.accepted.Subperm later.finished :=
  reachable_accounts twoSubmitted_reachable

/-- A pool of one thread, to which one task is submitted. -/
def one : WorkerPool Nat := boot 1 [[7]] []

/-- The task is in the queue and is not counted. -/
def oneEmplaced : WorkerPool Nat :=
  { one with
    submitters := [.emplaced 7 []]
    locked := true
    taskQueue := [7]
    submitted := [7] }

theorem one_emplaced : oneEmplaced.Reachable :=
  ⟨1, [[7]], [], Relation.ReflTransGen.single (@Step.emplace _ one [] [] 7 [] rfl rfl)⟩

/-- Between the two, the counter is behind the queue. -/
theorem emplaced_uncounted : ∃ pool : WorkerPool Nat, pool.Reachable ∧
    pool.activeTasks ≠ pool.taskQueue.length + pool.threads.countP Worker.busy :=
  ⟨oneEmplaced, one_emplaced, by decide⟩

end WorkerPool

end SyncTool
