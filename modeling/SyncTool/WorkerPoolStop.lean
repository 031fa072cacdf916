import SyncTool.WorkerPool

set_option autoImplicit false

namespace SyncTool

variable {ι : Type}

namespace WorkerPool

/-- The step with which `stop` notifies all. -/
def NotifiesAll (pool pool' : WorkerPool ι) : Prop :=
  ∃ next commands, pool.control = .cleared next commands ∧ pool'.control = .joining next commands

/-- A step, where no worker is between the predicate of its wait and its block when `stop`
notifies all. -/
def Careful (pool pool' : WorkerPool ι) : Prop :=
  Step pool pool' ∧ (NotifiesAll pool pool' → .parking ∉ pool.threads)

/-- What holds of a pool whose `stop` is careful. -/
structure Awake (pool : WorkerPool ι) : Prop where
  stopped : ∀ next commands, pool.control = .cleared next commands ∨
    pool.control = .joining next commands → pool.running = false
  sure : .choosing ∈ pool.threads → pool.running = false ∨ pool.taskQueue ≠ []
  parked : ∀ next commands, pool.control = .joining next commands →
    .parking ∉ pool.threads ∧ .blocked ∉ pool.threads

/-- Some worker can go on, or the mutex is with a thread that submits and can go on. -/
def Progress (pool : WorkerPool ι) : Prop :=
  (∃ front worker back worker' pool', pool.threads = front ++ worker :: back ∧
    Worker.Step worker pool worker' pool') ∨
  ∃ task todo, .emplaced task todo ∈ pool.submitters

section

variable {pool pool' : WorkerPool ι} {front back : List (Worker ι)} {worker worker' : Worker ι}

theorem awake_boot (threadCount : Nat) (todos : List (List ι)) (commands : List Command) :
    Awake (boot threadCount todos commands) where
  stopped := by simp [boot]
  sure := by simp [boot]
  parked := by simp [boot]

/-- A worker's step leaves the owner of the pool and its flag alone. -/
theorem control_of_workerStep (one : Worker.Step worker pool worker' pool') :
    pool'.control = pool.control ∧ pool'.running = pool.running := by
  cases one <;> exact ⟨rfl, rfl⟩

theorem Awake.workerStep (awake : Awake pool) (books : Books pool)
    (split : pool.threads = front ++ worker :: back) (one : Worker.Step worker pool worker' pool') :
    Awake { pool' with threads := front ++ worker' :: back } := by
  obtain ⟨control, running⟩ := control_of_workerStep one
  have member : worker ∈ pool.threads := by simp [split]
  have others : ∀ other, other ∈ front ++ worker' :: back → other = worker' ∨
      other ∈ pool.threads := by
    intro other inside
    rw [split]
    simp only [List.mem_append, List.mem_cons] at inside ⊢
    tauto
  exact {
    stopped := by
      intro next commands at_
      rw [control] at at_
      rw [running]
      exact awake.stopped next commands at_
    sure := by
      intro inside
      have before : worker' ≠ .choosing → .choosing ∈ pool.threads := by
        intro differs
        exact (others _ inside).resolve_left fun same => differs same.symm
      cases one with
      | proceed ready => exact ready
      | pop first =>
          -- no second worker has the mutex
          have mutex := books.mutex
          rw [split, List.countP_append, List.countP_cons] at mutex
          have second : 0 < front.countP Worker.holds + back.countP Worker.holds := by
            rw [← List.countP_append]
            apply List.countP_pos_iff.mpr
            exact ⟨.choosing, by simpa using inside, rfl⟩
          simp only [Worker.holds, ↓reduceIte] at mutex
          split at mutex <;> omega
      | _ => exact awake.sure (before (by simp))
    parked := by
      intro next commands at_
      have joining : pool.control = .joining next commands := control ▸ at_
      have stopped := awake.stopped next commands (.inr joining)
      obtain ⟨unparked, unblocked⟩ := awake.parked next commands joining
      constructor
      · intro inside
        rcases others _ inside with same | before
        · subst same
          cases one with
          | wait run _ => exact absurd (stopped.symm.trans run) Bool.false_ne_true
        · exact unparked before
      · intro inside
        rcases others _ inside with same | before
        · subst same
          cases one with
          | block => exact unparked member
        · exact unblocked before }

theorem Awake.step (awake : Awake pool) (books : Books pool) (one : Careful pool pool') :
    Awake pool' := by
  obtain ⟨one, careful⟩ := one
  cases one with
  | worker split one => exact awake.workerStep books split one
  | emplace split free =>
      exact {
        stopped := awake.stopped
        sure := fun _ => .inr (by simp)
        parked := awake.parked }
  | raise split => exact ⟨awake.stopped, awake.sure, awake.parked⟩
  | notifyNone split _ => exact ⟨awake.stopped, awake.sure, awake.parked⟩
  | @notifyOne first later task todo front back split blocked =>
      have before : ∀ worker ≠ Worker.notified, worker ∈ front ++ .notified :: back →
          worker ∈ pool.threads := by
        intro worker differs inside
        rw [blocked]
        simp only [List.mem_append, List.mem_cons, differs, false_or] at inside ⊢
        tauto
      exact {
        stopped := awake.stopped
        sure := fun inside => awake.sure (before _ (by simp) inside)
        parked := fun next commands at_ =>
          ⟨fun inside => (awake.parked next commands at_).1 (before _ (by simp) inside),
            fun inside => (awake.parked next commands at_).2 (before _ (by simp) inside)⟩ }
  | clear _ => exact ⟨fun _ _ _ => rfl, fun _ => .inl rfl, by simp⟩
  | same _ _ => exact ⟨by simp, awake.sure, by simp⟩
  | other _ _ => exact ⟨fun _ _ _ => rfl, fun _ => .inl rfl, by simp⟩
  | @notifyAll next commands at_ =>
      have stopped := awake.stopped next commands (.inl at_)
      have unparked := careful ⟨next, commands, at_, rfl⟩
      refine ⟨fun _ _ _ => stopped, fun _ => .inl stopped, fun _ _ _ => ⟨?_, ?_⟩⟩
      · intro inside
        obtain ⟨worker, member, woken⟩ := List.mem_map.mp inside
        cases worker with
        | parking => exact unparked member
        | _ => cases woken
      · intro inside
        obtain ⟨worker, member, woken⟩ := List.mem_map.mp inside
        cases worker <;> cases woken
  | joined _ _ => exact ⟨by simp, awake.sure, by simp⟩
  | restart _ _ => exact ⟨by simp, by simp, by simp⟩
  | spawn _ =>
      refine ⟨by simp, fun inside => awake.sure ?_, by simp⟩
      simpa using inside
  | spawned _ => exact ⟨by simp, awake.sure, by simp⟩

/-- While the owner joins, whoever has not returned can go on, or waits for one who can. -/
theorem Awake.progress (awake : Awake pool) (books : Books pool) {next : Option Nat}
    {commands : List Command} (joining : pool.control = .joining next commands)
    (member : worker ∈ pool.threads) (left : worker ≠ .returned) : Progress pool := by
  have stopped := awake.stopped next commands (.inr joining)
  obtain ⟨unparked, unblocked⟩ := awake.parked next commands joining
  -- one who has the mutex can go on
  have holder : ∀ other ∈ pool.threads, other.holds = true → Progress pool := by
    intro other inside holds
    obtain ⟨front, back, split⟩ := List.append_of_mem inside
    cases other with
    | evaluating => exact .inl ⟨front, _, back, _, _, split, .proceed (.inl stopped)⟩
    | parking => exact absurd inside unparked
    | choosing =>
        cases queue : pool.taskQueue with
        | nil => exact .inl ⟨front, _, back, _, _, split, .quit stopped queue⟩
        | cons task rest => exact .inl ⟨front, _, back, _, _, split, .pop queue⟩
    | _ => cases holds
  have locked : pool.locked = true → Progress pool := by
    intro locked
    have mutex := books.mutex
    simp only [locked, ↓reduceIte] at mutex
    by_cases nobody : pool.threads.countP Worker.holds = 0
    · have some : 0 < pool.submitters.countP Submitter.holds := by omega
      obtain ⟨submitter, inside, holds⟩ := List.countP_pos_iff.mp some
      cases submitter with
      | emplaced task todo => exact .inr ⟨task, todo, inside⟩
      | _ => cases holds
    · obtain ⟨other, inside, holds⟩ := List.countP_pos_iff.mp (Nat.pos_of_ne_zero nobody)
      exact holder other inside holds
  obtain ⟨front, back, split⟩ := List.append_of_mem member
  cases worker with
  | testing => exact .inl ⟨front, _, back, _, _, split, .leave stopped⟩
  | locking =>
      cases free : pool.locked with
      | true => exact locked free
      | false => exact .inl ⟨front, _, back, _, _, split, .lock free⟩
  | evaluating => exact holder _ member rfl
  | parking => exact absurd member unparked
  | blocked => exact absurd member unblocked
  | notified =>
      cases free : pool.locked with
      | true => exact locked free
      | false => exact .inl ⟨front, _, back, _, _, split, .relock free⟩
  | choosing => exact holder _ member rfl
  | working task => exact .inl ⟨front, _, back, _, _, split, .run⟩
  | counting task => exact .inl ⟨front, _, back, _, _, split, .count⟩
  | returned => exact absurd rfl left

/-- Where `stop` never notifies all between a worker's look at the predicate and its block, no
worker is left blocked behind its back, and the joins cannot deadlock. -/
theorem stop_awake {threadCount : Nat} {todos : List (List ι)} {commands : List Command}
    (run : Relation.ReflTransGen Careful (boot threadCount todos commands) pool) {next : Option Nat}
    {rest : List Command} (joining : pool.control = .joining next rest) :
    .blocked ∉ pool.threads ∧ ((∀ worker ∈ pool.threads, worker = .returned) ∨ Progress pool) := by
  have both : Awake pool ∧ Books pool := by
    clear joining
    induction run with
    | refl => exact ⟨awake_boot _ _ _, books_boot _ _ _⟩
    | tail _ one ih => exact ⟨ih.1.step ih.2 one, ih.2.step one.1⟩
  refine ⟨(both.1.parked next rest joining).2, ?_⟩
  by_contra stuck
  obtain ⟨unfinished, still⟩ := not_or.mp stuck
  apply unfinished
  intro worker member
  by_contra left
  exact still (both.1.progress both.2 joining member left)

end

/-- A pool of one thread without tasks, which is stopped while the thread waits: it is woken. -/
theorem stop_awake_woken : ∃ pool : WorkerPool Nat,
    Relation.ReflTransGen Careful (boot 1 [] [.stop]) pool ∧
    pool.threads = [.notified] ∧ pool.control = .joining none [] ∧
    .blocked ∉ pool.threads ∧ ((∀ worker ∈ pool.threads, worker = .returned) ∨ Progress pool) := by
  have run := Relation.ReflTransGen.refl (r := Careful)
      (a := (boot 1 [] [.stop] : WorkerPool Nat))
    |>.tail ⟨.spawn rfl, fun _ => by decide⟩
    |>.tail ⟨.spawned rfl, fun _ => by decide⟩
    |>.tail ⟨@Step.worker _ _ _ [] [] _ _ rfl (.enter rfl), fun _ => by decide⟩
    |>.tail ⟨@Step.worker _ _ _ [] [] _ _ rfl (.lock rfl), fun _ => by decide⟩
    |>.tail ⟨@Step.worker _ _ _ [] [] _ _ rfl (.wait rfl rfl), fun _ => by decide⟩
    |>.tail ⟨@Step.worker _ _ _ [] [] _ _ rfl .block, fun all => nomatch all⟩
    |>.tail ⟨.clear rfl, fun _ => by decide⟩
    |>.tail ⟨.notifyAll rfl, fun _ => by decide⟩
  exact ⟨_, run, rfl, rfl, stop_awake run rfl⟩

/-- With its only thread blocked and nobody to notify it, a pool is stuck in `stop`. -/
theorem stuck_of_blocked {pool pool' : WorkerPool ι} {next : Option Nat} {commands : List Command}
    (threads : pool.threads = [.blocked]) (submitters : pool.submitters = [])
    (joining : pool.control = .joining next commands) : ¬ Step pool pool' := by
  have member : .blocked ∈ pool.threads := by simp [threads]
  have nobody : ∀ {first later : List (Submitter ι)} {submitter : Submitter ι},
      pool.submitters ≠ first ++ submitter :: later := by
    intro first later submitter split
    rw [submitters] at split
    simp at split
  intro one
  cases one with
  | @worker _ front back worker worker' split one =>
      have inside : worker ∈ pool.threads := by simp [split]
      rw [threads, List.mem_singleton] at inside
      subst inside
      cases one
  | emplace split _ => exact nobody split
  | raise split => exact nobody split
  | notifyNone split _ => exact nobody split
  | notifyOne split _ => exact nobody split
  | joined _ gone => cases gone _ member
  | restart _ gone => cases gone _ member
  | clear at_ => rw [joining] at at_; cases at_
  | same at_ _ => rw [joining] at at_; cases at_
  | other at_ _ => rw [joining] at at_; cases at_
  | notifyAll at_ => rw [joining] at at_; cases at_
  | spawn at_ => rw [joining] at at_; cases at_
  | spawned at_ => rw [joining] at at_; cases at_

/-- The flag falls and all are notified between the predicate of a worker's wait and its block:
it blocks for good, and `stop` waits for it. -/
theorem stop_strands : ∃ pool : WorkerPool Nat, pool.Reachable ∧
    pool.control = .joining none [] ∧ .blocked ∈ pool.threads ∧ ∀ pool', ¬ Step pool pool' := by
  have run := Relation.ReflTransGen.refl (r := Step) (a := (boot 1 [] [.stop] : WorkerPool Nat))
    |>.tail (.spawn rfl) |>.tail (.spawned rfl)
    |>.tail (@Step.worker _ _ _ [] [] _ _ rfl (.enter rfl))
    |>.tail (@Step.worker _ _ _ [] [] _ _ rfl (.lock rfl))
    |>.tail (@Step.worker _ _ _ [] [] _ _ rfl (.wait rfl rfl))
    |>.tail (.clear rfl) |>.tail (.notifyAll rfl)
    |>.tail (@Step.worker _ _ _ [] [] _ _ rfl .block)
  exact ⟨_, ⟨_, _, _, run⟩, rfl, by decide, fun _ => stuck_of_blocked rfl rfl rfl⟩

/-- The owner is in the `stop` that it goes on from with `commands`. -/
def Stopping (commands : List Command) (pool : WorkerPool ι) : Prop :=
  pool.control = .cleared none commands ∨ pool.control = .joining none commands

/-- A step of a pool within a `stop`. -/
def StopStep (commands : List Command) (pool pool' : WorkerPool ι) : Prop :=
  Step pool pool' ∧ Stopping commands pool'

/-- Nobody submits any more. -/
def Quiescent (pool : WorkerPool ι) : Prop := ∀ submitter ∈ pool.submitters, submitter = .ready []

/-- The workers that can still take a task are enough for the queue. -/
def Enough (pool : WorkerPool ι) : Prop :=
  pool.taskQueue.length ≤ pool.threads.countP Worker.waiting

section

variable {pool pool' : WorkerPool ι} {commands : List Command}

theorem Quiescent.nobody (quiescent : Quiescent pool) {first later : List (Submitter ι)}
    {submitter : Submitter ι} (split : pool.submitters = first ++ submitter :: later) :
    submitter = .ready [] :=
  quiescent submitter (by simp [split])

/-- While a pool stops, a worker takes a task for good: neither the workers that can take one nor
the tasks become more. -/
theorem enough_step (stopped : pool.running = false) (quiescent : Quiescent pool)
    (stopping : Stopping commands pool) (one : StopStep commands pool pool') :
    (Enough pool' ↔ Enough pool) ∧ pool'.running = false ∧ Quiescent pool' ∧
      pool'.submitted = pool.submitted := by
  obtain ⟨one, after⟩ := one
  cases one with
  | @worker _ front back worker worker' split one =>
      have before : Enough pool ↔ pool.taskQueue.length ≤
          front.countP Worker.waiting + (back.countP Worker.waiting +
            if worker.waiting then 1 else 0) := by
        rw [Enough, split, List.countP_append, List.countP_cons]
      rw [before]
      unfold Enough
      simp only [List.countP_append, List.countP_cons]
      cases one with
      | enter running => rw [stopped] at running; cases running
      | wait running _ => rw [stopped] at running; cases running
      | quit _ empty =>
          refine ⟨?_, stopped, quiescent, rfl⟩
          simp [empty]
      | pop first =>
          refine ⟨?_, stopped, quiescent, rfl⟩
          rw [first]
          simp only [Worker.waiting, List.length_cons, Bool.false_eq_true, ↓reduceIte]
          omega
      | _ =>
          refine ⟨?_, stopped, quiescent, rfl⟩
          simp [Worker.waiting]
  | emplace split _ => cases quiescent.nobody split
  | raise split => cases quiescent.nobody split
  | notifyNone split _ => cases quiescent.nobody split
  | notifyOne split _ => cases quiescent.nobody split
  | clear at_ => rcases stopping with at' | at' <;> rw [at'] at at_ <;> cases at_
  | same at_ _ => rcases stopping with at' | at' <;> rw [at'] at at_ <;> cases at_
  | other at_ _ => rcases stopping with at' | at' <;> rw [at'] at at_ <;> cases at_
  | notifyAll at_ =>
      refine ⟨?_, stopped, quiescent, rfl⟩
      have woken : ∀ worker : Worker ι, worker.wake.waiting = worker.waiting := by
        intro worker
        cases worker <;> rfl
      unfold Enough
      rw [List.countP_map]
      simp only [Function.comp_def, woken]
  | joined _ _ => rcases after with after | after <;> cases after
  | restart _ _ => rcases after with after | after <;> cases after
  | spawn _ => rcases after with after | after <;> cases after
  | spawned _ => rcases after with after | after <;> cases after

/-- The owner comes out of `stop` when all threads are joined. -/
theorem stop_returns (stopping : Stopping commands pool) (one : Step pool pool')
    (returned : pool'.control = .free commands) :
    (∀ worker ∈ pool.threads, worker = .returned) ∧
      pool' = { pool with control := .free commands } := by
  have inside : pool.control ≠ .free commands := by
    intro free
    rcases stopping with at_ | at_ <;> rw [at_] at free <;> cases free
  cases one with
  | worker split one => exact absurd ((control_of_workerStep one).1.symm.trans returned) inside
  | emplace split _ => exact absurd returned inside
  | raise split => exact absurd returned inside
  | notifyNone split _ => exact absurd returned inside
  | notifyOne split _ => exact absurd returned inside
  | clear _ => cases returned
  | @same commands' threadCount at_ _ =>
      rcases stopping with at' | at' <;> rw [at'] at at_ <;> cases at_
  | other _ _ => cases returned
  | notifyAll _ => cases returned
  | joined at_ gone =>
      cases returned
      exact ⟨gone, rfl⟩
  | restart _ _ => cases returned
  | spawn _ => cases returned
  | spawned at_ => rcases stopping with at' | at' <;> rw [at'] at at_ <;> cases at_

/-- A `stop` that returns leaves nothing undone just if, when it clears the flag, no more tasks are
queued than there are workers that are past the test of their loop and have yet to take one. -/
theorem stop_drains_iff (reach : pool.Reachable) (quiescent : Quiescent pool)
    (called : pool.control = .free (.stop :: commands)) {last : WorkerPool ι}
    (run : Relation.ReflTransGen (StopStep commands)
      { pool with control := .cleared none commands, running := false } last)
    (returns : Step last pool') (returned : pool'.control = .free commands) :
    (pool'.taskQueue = [] ∧ pool'.finished.Perm pool.submitted ∧ pool'.activeTasks = 0) ↔
      pool.taskQueue.length ≤ pool.threads.countP Worker.waiting := by
  have kept : Stopping commands last ∧ (Enough last ↔ Enough pool) ∧ last.running = false ∧
      Quiescent last ∧ last.submitted = pool.submitted := by
    clear returns
    induction run with
    | refl => exact ⟨.inl rfl, Iff.rfl, rfl, quiescent, rfl⟩
    | tail _ one ih =>
        obtain ⟨stopping, same, stopped, quiet, submitted⟩ := ih
        obtain ⟨enough, stopped', quiet', submitted'⟩ := enough_step stopped quiet stopping one
        exact ⟨one.2, enough.trans same, stopped', quiet', submitted'.trans submitted⟩
  obtain ⟨stopping, enough, -, quiet, submitted⟩ := kept
  obtain ⟨gone, rfl⟩ := stop_returns stopping returns returned
  have books : Books last := by
    apply Reachable.books
    apply (reach.step (.clear called)).run
    exact Relation.ReflTransGen.mono (fun _ _ one => one.1) _ _ run
  have nobody : ∀ p : Worker ι → Bool, p .returned = false → last.threads.countP p = 0 := by
    intro p blank
    apply List.countP_eq_zero.mpr
    intro worker member
    rw [gone worker member, blank]
    exact Bool.false_ne_true
  have enough' : Enough pool ↔ last.taskQueue = [] := by
    rw [← enough, Enough, nobody Worker.waiting rfl, Nat.le_zero, List.length_eq_zero_iff]
  show _ ↔ Enough pool
  rw [enough']
  constructor
  · exact fun all => all.1
  · intro empty
    have count := books.count
    have runs := books.runs
    have order := books.order
    have nothing : last.threads.flatMap Worker.job = [] := by
      apply List.flatMap_eq_nil_iff.mpr
      intro worker member
      rw [gone worker member]
      rfl
    have still : last.submitters.countP Submitter.holds = 0 := by
      apply List.countP_eq_zero.mpr
      intro submitter member
      rw [quiet submitter member]
      exact Bool.false_ne_true
    rw [nothing, List.append_nil] at runs
    rw [empty, List.append_nil, submitted] at order
    rw [still, empty, nobody Worker.busy rfl] at count
    refine ⟨empty, ?_, by simpa using count⟩
    rw [order]
    exact runs.symm

end

/-- A pool whose only thread is at `worker`, with the only task submitted and in the queue. -/
def submittedTo (worker : Worker Nat) : WorkerPool Nat :=
  { one with
    threads := [worker]
    taskQueue := [7]
    activeTasks := 1
    submitters := [.ready []]
    control := .free [.stop]
    submitted := [7]
    accepted := [7] }

theorem submitted_testing : (submittedTo .testing).Reachable := by
  have run := Relation.ReflTransGen.refl (r := Step) (a := (boot 1 [[7]] [.stop] : WorkerPool Nat))
    |>.tail (.spawn rfl) |>.tail (.spawned rfl)
    |>.tail (@Step.emplace _ _ [] [] 7 [] rfl rfl) |>.tail (@Step.raise _ _ [] [] 7 [] rfl)
    |>.tail (@Step.notifyNone _ _ [] [] 7 [] rfl (by decide))
  exact ⟨1, [[7]], [.stop], run⟩

theorem submitted_locking : (submittedTo .locking).Reachable :=
  submitted_testing.step (@Step.worker _ _ _ [] [] _ _ rfl (.enter rfl))

/-- The thread has entered its loop when the pool is stopped, and takes the task. -/
theorem stop_drains_entered : ∃ pool' : WorkerPool Nat,
    pool'.control = .free [] ∧
    ((pool'.taskQueue = [] ∧ pool'.finished.Perm (submittedTo .locking).submitted ∧
        pool'.activeTasks = 0) ↔
      (submittedTo .locking).taskQueue.length ≤
        (submittedTo .locking).threads.countP Worker.waiting) := by
  have run := Relation.ReflTransGen.refl (r := StopStep [])
      (a := { submittedTo .locking with control := .cleared none [], running := false })
    |>.tail ⟨.notifyAll rfl, .inr rfl⟩
    |>.tail ⟨@Step.worker _ _ _ [] [] _ _ rfl (.lock rfl), .inr rfl⟩
    |>.tail ⟨@Step.worker _ _ _ [] [] _ _ rfl (.proceed (.inl rfl)), .inr rfl⟩
    |>.tail ⟨@Step.worker _ _ _ [] [] _ _ rfl (.pop rfl), .inr rfl⟩
    |>.tail ⟨@Step.worker _ _ _ [] [] _ _ rfl .run, .inr rfl⟩
    |>.tail ⟨@Step.worker _ _ _ [] [] _ _ rfl .count, .inr rfl⟩
    |>.tail ⟨@Step.worker _ _ _ [] [] _ _ rfl (.leave rfl), .inr rfl⟩
  exact ⟨_, rfl, stop_drains_iff submitted_locking (by simp [Quiescent, submittedTo]) rfl run
    (.joined rfl (by simp)) rfl⟩

/-- The thread is at the head of its loop when the pool is stopped: it leaves, and the task stays in
the queue. -/
theorem stop_drops : ∃ last pool' : WorkerPool Nat, (submittedTo .testing).Reachable ∧
    Quiescent (submittedTo .testing) ∧ (submittedTo .testing).control = .free [.stop] ∧
    Relation.ReflTransGen (StopStep [])
      { submittedTo .testing with control := .cleared none [], running := false } last ∧
    Step last pool' ∧ pool'.control = .free [] ∧ pool'.taskQueue = [7] ∧ pool'.activeTasks = 1 ∧
    pool'.finished = [] := by
  have run := Relation.ReflTransGen.refl (r := StopStep [])
      (a := { submittedTo .testing with control := .cleared none [], running := false })
    |>.tail ⟨.notifyAll rfl, .inr rfl⟩
    |>.tail ⟨@Step.worker _ _ _ [] [] _ _ rfl (.leave rfl), .inr rfl⟩
  exact ⟨_, _, submitted_testing, by simp [Quiescent, submittedTo], rfl, run,
    .joined rfl (by simp), rfl, rfl, rfl, rfl⟩

end WorkerPool

end SyncTool
