import SyncTool.ThreadPool
import SyncTool.WorkerPool

set_option autoImplicit false

namespace SyncTool

open Program

variable {Op : Type} {Res : Op → Type} {σ ι : Type} {n : Nat}

/-- A `WorkerPool` whose tasks are programs: `left` is what each thread has left of its task, and
`state` what the programs share. -/
structure ProgramPool (Op : Type) (Res : Op → Type) (σ ι : Type) where
  pool : WorkerPool ι
  left : Nat → Program Op Res Bool
  state : σ

/-- The task that a worker has. -/
def Worker.task? : Worker ι → Option ι
  | working task | counting task => some task
  | _ => none

namespace ProgramPool

/-- The steps of the pool. A task that has been popped is a program, and the worker is through with
it when the program has returned. -/
inductive Step (exec : (op : Op) → σ → Res op → σ → Prop) (prog : ι → Program Op Res Bool) :
    ProgramPool Op Res σ ι → ProgramPool Op Res σ ι → Prop where
  | pool {m : ProgramPool Op Res σ ι} {pool' : WorkerPool ι} : WorkerPool.Step m.pool pool' →
      pool'.popped = m.pool.popped → pool'.finished = m.pool.finished →
      Step exec prog m { m with pool := pool' }
  | pop {m : ProgramPool Op Res σ ι} {pool' : WorkerPool ι} {front back : List (Worker ι)}
      {task : ι} : m.pool.threads = front ++ .choosing :: back →
      Worker.Step .choosing m.pool (.working task) pool' → Step exec prog m
        { m with
          pool := { pool' with threads := front ++ .working task :: back }
          left := Function.update m.left front.length (prog task) }
  | work {m : ProgramPool Op Res σ ι} {front back : List (Worker ι)} {task : ι}
      {p' : Program Op Res Bool} {state : σ} : m.pool.threads = front ++ .working task :: back →
      Program.Step exec (m.left front.length) m.state p' state → Step exec prog m
        { m with
          left := Function.update m.left front.length p'
          state := state }
  | through {m : ProgramPool Op Res σ ι} {pool' : WorkerPool ι} {front back : List (Worker ι)}
      {task : ι} {verdict : Bool} : m.pool.threads = front ++ .working task :: back →
      m.left front.length = .done verdict →
        Worker.Step (.working task) m.pool (.counting task) pool' →
      Step exec prog m { m with pool := { pool' with threads := front ++ .counting task :: back } }

variable {exec : (op : Op) → σ → Res op → σ → Prop} {prog : ι → Program Op Res Bool}
  {m m' : ProgramPool Op Res σ ι}

/-- Without the programs, a step is one of the pool or leaves it alone. -/
theorem Step.under (one : Step exec prog m m') :
    Relation.ReflGen WorkerPool.Step m.pool m'.pool := by
  cases one with
  | pool one _ _ => exact .single one
  | pop split one => exact .single (.worker split one)
  | work _ _ => exact .refl
  | through split _ one => exact .single (.worker split one)

end ProgramPool

namespace WorkerPool

/-- What one thread submits, and where the tasks of its call are by now: a task that is in the queue
and not counted still counts as not submitted. -/
inductive Submits : List (Submitter ι) → List ι → List ι → List ι → Prop where
  | none {taskQueue : List ι} : Submits [] taskQueue [] taskQueue
  | ready {todo taskQueue : List ι} : Submits [.ready todo] taskQueue todo taskQueue
  | emplaced {task : ι} {todo taskQueue : List ι} :
      Submits [.emplaced task todo] (taskQueue ++ [task]) (task :: todo) taskQueue
  | counted {task : ι} {todo taskQueue : List ι} :
      Submits [.counted task todo] taskQueue todo taskQueue

section

variable {todo taskQueue tasks taskQueue' : List ι} {task : ι}

theorem submits_ready : Submits [.ready todo] taskQueue tasks taskQueue' ↔
    tasks = todo ∧ taskQueue' = taskQueue := by
  constructor
  · rintro (_ | _)
    exact ⟨rfl, rfl⟩
  · rintro ⟨rfl, rfl⟩
    exact .ready

theorem submits_emplaced : Submits [.emplaced task todo] taskQueue tasks taskQueue' ↔
    tasks = task :: todo ∧ taskQueue' ++ [task] = taskQueue := by
  constructor
  · rintro (_ | _)
    exact ⟨rfl, rfl⟩
  · rintro ⟨rfl, rfl⟩
    exact .emplaced

theorem submits_counted : Submits [.counted task todo] taskQueue tasks taskQueue' ↔
    tasks = todo ∧ taskQueue' = taskQueue := by
  constructor
  · rintro (_ | _)
    exact ⟨rfl, rfl⟩
  · rintro ⟨rfl, rfl⟩
    exact .counted

/-- While nobody has just put a task into it, the queue is the same to both. -/
theorem Submits.free {submitters : List (Submitter ι)}
    (submits : Submits submitters taskQueue tasks taskQueue')
    (nobody : submitters.countP Submitter.holds = 0) :
    taskQueue' = taskQueue ∧ ∀ queue, Submits submitters queue tasks queue := by
  cases submits with
  | none => exact ⟨rfl, fun _ => .none⟩
  | ready => exact ⟨rfl, fun _ => .ready⟩
  | emplaced => simp [Submitter.holds] at nobody
  | counted => exact ⟨rfl, fun _ => .counted⟩

/-- Nobody else submits. -/
theorem Submits.alone {first later : List (Submitter ι)} {submitter : Submitter ι}
    (submits : Submits (first ++ submitter :: later) taskQueue tasks taskQueue') :
    first = [] ∧ later = [] ∧ Submits [submitter] taskQueue tasks taskQueue' := by
  cases first with
  | nil => cases submits <;> exact ⟨rfl, rfl, by constructor⟩
  | cons other rest => cases rest <;> cases submits

end

/-- The threads when one of them has moved. -/
theorem getElem?_moved {front back : List (Worker ι)} (worker worker' : Worker ι) (i : Nat) :
    (front ++ worker' :: back)[i]? =
      if i = front.length then some worker' else (front ++ worker :: back)[i]? := by
  have moved : front ++ worker' :: back = (front ++ worker :: back).set front.length worker' := by
    rw [List.set_append_right _ _ (le_refl _), Nat.sub_self, List.set_cons_zero]
  have inside : front.length < (front ++ worker :: back).length := by
    rw [List.length_append, List.length_cons]
    omega
  rw [moved, List.getElem?_set]
  by_cases same : front.length = i
  · rw [if_pos same, if_pos same.symm, if_pos (same ▸ inside)]
  · rw [if_neg same, if_neg (Ne.symm same)]

theorem exists_split {threads : List (Worker ι)} {worker : Worker ι} {i : Nat}
    (here : threads[i]? = some worker) :
    ∃ front back, threads = front ++ worker :: back ∧ front.length = i := by
  obtain ⟨inside, rfl⟩ := List.getElem?_eq_some_iff.mp here
  refine ⟨threads.take i, threads.drop (i + 1), ?_, ?_⟩
  · rw [List.getElem_cons_drop, List.take_append_drop]
  · rw [List.length_take]
    omega

theorem getElem?_mover {front back : List (Worker ι)} (worker : Worker ι) :
    (front ++ worker :: back)[front.length]? = some worker := by
  rw [getElem?_moved worker worker, if_pos rfl]

end WorkerPool

namespace ProgramPool

/-- The pool with its mutex, its condition and its flags, and the plain pool of `n` threads that it
behaves as. -/
structure Simulates (m : ProgramPool Op Res σ ι) (plain : ThreadPool Op Res σ ι n) : Prop where
  books : m.pool.Books
  running : m.pool.running = true
  size : (∃ missing, m.pool.control = .spawning missing [] ∧ m.pool.threads.length + missing = n) ∨
    m.pool.control = .free [] ∧ m.pool.threads.length = n
  threads : ∀ i : Fin n, plain.threads i =
    (m.pool.threads[i.val]?.bind Worker.task?).map fun task => (task, m.left i)
  counted : ∀ (i : Nat) (task : ι), m.pool.threads[i]? = some (.counting task) →
    ∃ verdict, m.left i = .done verdict
  active : plain.activeTasks = m.pool.activeTasks
  submits : WorkerPool.Submits m.pool.submitters m.pool.taskQueue plain.tasks plain.taskQueue
  state : plain.state = m.state

section

variable {exec : (op : Op) → σ → Res op → σ → Prop} {prog : ι → Program Op Res Bool}
  {m m' : ProgramPool Op Res σ ι} {plain : ThreadPool Op Res σ ι n} {pool' : WorkerPool ι}
  {front back : List (Worker ι)} {worker worker' : Worker ι}

theorem Simulates.length_le (sim : Simulates m plain) : m.pool.threads.length ≤ n := by
  rcases sim.size with ⟨missing, -, size⟩ | ⟨-, size⟩ <;> omega

theorem Simulates.index_lt (sim : Simulates m plain)
    (split : m.pool.threads = front ++ worker :: back) : front.length < n := by
  have all := sim.length_le
  rw [split, List.length_append, List.length_cons] at all
  omega

/-- What the plain pool does not see. -/
theorem Simulates.stutter (sim : Simulates m plain) (books : pool'.Books)
    (running : pool'.running = m.pool.running) (control : pool'.control = m.pool.control)
    (length : pool'.threads.length = m.pool.threads.length)
    (threads : ∀ i : Nat, pool'.threads[i]?.bind Worker.task? =
      m.pool.threads[i]?.bind Worker.task?)
    (counted : ∀ (i : Nat) (task : ι), pool'.threads[i]? = some (.counting task) →
      m.pool.threads[i]? = some (.counting task))
    (active : pool'.activeTasks = m.pool.activeTasks)
    (submits : WorkerPool.Submits pool'.submitters pool'.taskQueue plain.tasks plain.taskQueue) :
    Simulates { m with pool := pool' } plain where
  books := books
  running := running.trans sim.running
  size := by
    rw [control, length]
    exact sim.size
  threads i := by
    rw [threads]
    exact sim.threads i
  counted i task here := sim.counted i task (counted i task here)
  active := by rw [active, sim.active]
  submits := submits
  state := sim.state

/-- A worker that has no task moves and still has none. -/
theorem Simulates.idle (sim : Simulates m plain) (split : m.pool.threads = front ++ worker :: back)
    (before : worker.task? = none) (after : worker'.task? = none) {locked : Bool}
    (books : WorkerPool.Books
      { m.pool with locked := locked, threads := front ++ worker' :: back }) :
    Simulates
      { m with pool := { m.pool with locked := locked, threads := front ++ worker' :: back } }
        plain := by
  apply sim.stutter books rfl rfl
  · simp [split]
  · intro i
    rw [split, WorkerPool.getElem?_moved worker worker']
    by_cases same : i = front.length
    · rw [if_pos same, same, WorkerPool.getElem?_mover]
      simp [before, after]
    · rw [if_neg same]
  · intro i task here
    have here : (front ++ worker' :: back)[i]? = some (.counting task) := here
    rw [WorkerPool.getElem?_moved worker worker'] at here
    by_cases same : i = front.length
    · rw [if_pos same] at here
      cases here
      cases after
    · rw [if_neg same] at here
      rwa [split]
  · rfl
  · exact sim.submits

/-- The worker's task in the plain pool. -/
theorem Simulates.held (sim : Simulates m plain) (split : m.pool.threads = front ++ worker :: back)
    {task : ι} (has : worker.task? = some task) :
    plain.threads ⟨front.length, sim.index_lt split⟩ = some (task, m.left front.length) := by
  rw [sim.threads, split]
  simp only [WorkerPool.getElem?_mover, Option.bind_some, has, Option.map_some]

/-- What the plain pool sees when one worker has moved. -/
theorem Simulates.threads_moved (sim : Simulates m plain) (worker' : Worker ι)
    (split : m.pool.threads = front ++ worker :: back) (left : Nat → Program Op Res Bool)
    (others : ∀ i, i ≠ front.length → left i = m.left i) (i : Fin n) :
    Function.update plain.threads ⟨front.length, sim.index_lt split⟩
        (worker'.task?.map fun task => (task, left front.length)) i =
      ((front ++ worker' :: back)[i.val]?.bind Worker.task?).map fun task => (task, left i) := by
  rw [WorkerPool.getElem?_moved worker worker']
  by_cases same : i.val = front.length
  · obtain rfl : i = ⟨front.length, sim.index_lt split⟩ := Fin.ext same
    rw [Function.update_self, if_pos rfl, Option.bind_some]
  · have other : i ≠ ⟨front.length, sim.index_lt split⟩ :=
      fun equal => same (congrArg Fin.val equal)
    rw [Function.update_of_ne other, if_neg same, sim.threads, split, others _ same]

/-- A step of a worker that neither takes a task nor ends one, in the plain pool. -/
theorem Simulates.workerStep (sim : Simulates m plain)
    (split : m.pool.threads = front ++ worker :: back)
    (one : Worker.Step worker m.pool worker' pool') (popped : pool'.popped = m.pool.popped)
    (finished : pool'.finished = m.pool.finished) :
    ∃ plain', Relation.ReflGen (ThreadPool.Step exec prog) plain plain' ∧
      Simulates { m with pool := { pool' with threads := front ++ worker' :: back } } plain' := by
  have books := sim.books.workerStep split one
  have running := sim.running
  cases one with
  | enter _ => exact ⟨plain, .refl, sim.idle split rfl rfl books⟩
  | leave stopped =>
      rw [running] at stopped
      cases stopped
  | lock _ => exact ⟨plain, .refl, sim.idle split rfl rfl books⟩
  | wait _ _ => exact ⟨plain, .refl, sim.idle split rfl rfl books⟩
  | proceed _ => exact ⟨plain, .refl, sim.idle split rfl rfl books⟩
  | block => exact ⟨plain, .refl, sim.idle split rfl rfl books⟩
  | relock _ => exact ⟨plain, .refl, sim.idle split rfl rfl books⟩
  | quit stopped _ =>
      rw [running] at stopped
      cases stopped
  | pop _ =>
      have longer := congrArg List.length popped
      simp at longer
  | run =>
      have longer := congrArg List.length finished
      simp at longer
  | @count _ task =>
      have here : m.pool.threads[front.length]? = some (.counting task) := by
        rw [split, WorkerPool.getElem?_mover]
      obtain ⟨verdict, done⟩ := sim.counted _ _ here
      have held := sim.held split rfl
      rw [done] at held
      refine ⟨_, .single (.finish _ held), ?_⟩
      exact {
        books := books
        running := running
        size := by
          have size := sim.size
          rw [split] at size
          simpa using size
        threads := fun i => sim.threads_moved .testing split m.left (fun _ _ => rfl) i
        counted := by
          intro i other found
          have found : (front ++ .testing :: back)[i]? = some (.counting other) := found
          rw [WorkerPool.getElem?_moved (.counting task) .testing] at found
          by_cases same : i = front.length
          · rw [if_pos same] at found
            cases found
          · rw [if_neg same, ← split] at found
            exact sim.counted i other found
        active := by
          show plain.activeTasks - 1 = m.pool.activeTasks - 1
          rw [sim.active]
        submits := sim.submits
        state := sim.state }

/-- A submission that is over, and has or has not woken a thread. -/
theorem Simulates.notified (sim : Simulates m plain) {before later : List (Submitter ι)} {task : ι}
    {todo : List ι} (split : m.pool.submitters = before ++ .counted task todo :: later)
    {threads : List (Worker ι)} (length : threads.length = m.pool.threads.length)
    (tasks : ∀ i : Nat, threads[i]?.bind Worker.task? = m.pool.threads[i]?.bind Worker.task?)
    (counted : ∀ (i : Nat) (other : ι), threads[i]? = some (.counting other) →
      m.pool.threads[i]? = some (.counting other))
    (books : WorkerPool.Books { m.pool with
      submitters := before ++ .ready todo :: later
      accepted := m.pool.accepted ++ [task]
      threads := threads }) :
    Simulates
      { m with
        pool := { m.pool with
          submitters := before ++ .ready todo :: later
          accepted := m.pool.accepted ++ [task]
          threads := threads } } plain := by
  apply sim.stutter books rfl rfl length tasks counted rfl
  have submits := sim.submits
  rw [split] at submits
  obtain ⟨rfl, rfl, submits⟩ := submits.alone
  exact WorkerPool.submits_ready.mpr (WorkerPool.submits_counted.mp submits)

/-- Each step is one of the plain pool, or none. -/
theorem Simulates.step (sim : Simulates m plain) (one : Step exec prog m m') :
    ∃ plain', Relation.ReflGen (ThreadPool.Step exec prog) plain plain' ∧ Simulates m' plain' := by
  cases one with
  | @pool pool' one popped finished =>
      have books := sim.books.step one
      have submits := sim.submits
      have control := sim.size
      cases one with
      | worker split one => exact sim.workerStep split one popped finished
      | @emplace first later task todo split free =>
          rw [split] at submits
          obtain ⟨rfl, rfl, submits⟩ := submits.alone
          obtain ⟨tasks, queue⟩ := WorkerPool.submits_ready.mp submits
          refine ⟨plain, .refl, sim.stutter books rfl rfl rfl (fun _ => rfl) (fun _ _ => id) rfl ?_⟩
          apply WorkerPool.submits_emplaced.mpr
          exact ⟨tasks, by rw [queue]⟩
      | @raise first later task todo split =>
          rw [split] at submits
          obtain ⟨rfl, rfl, submits⟩ := submits.alone
          obtain ⟨tasks, queue⟩ := WorkerPool.submits_emplaced.mp submits
          refine ⟨_, .single (.submit tasks), ?_⟩
          exact {
            books := books
            running := sim.running
            size := sim.size
            threads := sim.threads
            counted := sim.counted
            active := by
              show plain.activeTasks + 1 = m.pool.activeTasks + 1
              rw [sim.active]
            submits := WorkerPool.submits_counted.mpr ⟨rfl, queue⟩
            state := sim.state }
      | notifyNone split _ =>
          exact ⟨plain, .refl, sim.notified split rfl (fun _ => rfl) (fun _ _ => id) books⟩
      | @notifyOne before after task todo first later split blocked =>
          refine ⟨plain, .refl, sim.notified split ?_ ?_ ?_ books⟩
          · simp [blocked]
          · intro i
            rw [blocked, WorkerPool.getElem?_moved .blocked .notified]
            by_cases same : i = first.length
            · rw [if_pos same, same, WorkerPool.getElem?_mover]
              rfl
            · rw [if_neg same]
          · intro i other here
            rw [WorkerPool.getElem?_moved .blocked .notified] at here
            by_cases same : i = first.length
            · rw [if_pos same] at here
              cases here
            · rwa [if_neg same, ← blocked] at here
      | clear free => simp [free] at control
      | same free _ => simp [free] at control
      | other free _ => simp [free] at control
      | notifyAll cleared => simp [cleared] at control
      | joined joining _ => simp [joining] at control
      | restart joining _ => simp [joining] at control
      | @spawn commands missing spawning =>
          refine ⟨plain, .refl, ?_⟩
          have grown : ∀ i : Nat, (m.pool.threads ++ [.testing])[i]? =
              if i = m.pool.threads.length then some .testing else m.pool.threads[i]? := by
            intro i
            rw [List.getElem?_append]
            grind
          exact {
            books := books
            running := sim.running
            size := by
              simp only [spawning, Control.spawning.injEq, reduceCtorEq, false_and,
                or_false] at control
              obtain ⟨missing', ⟨rfl, rfl⟩, total⟩ := control
              refine .inl ⟨missing, rfl, ?_⟩
              rw [List.length_append, List.length_singleton]
              omega
            threads := by
              intro i
              show plain.threads i =
                ((m.pool.threads ++ [.testing])[i.val]?.bind Worker.task?).map _
              rw [grown, sim.threads]
              by_cases last : i.val = m.pool.threads.length
              · rw [if_pos last, last, List.getElem?_eq_none (le_refl _)]
                rfl
              · rw [if_neg last]
            counted := by
              intro i task here
              have here : (m.pool.threads ++ [.testing])[i]? = some (.counting task) := here
              rw [grown] at here
              by_cases last : i = m.pool.threads.length
              · rw [if_pos last] at here
                cases here
              · rw [if_neg last] at here
                exact sim.counted i task here
            active := sim.active
            submits := sim.submits
            state := sim.state }
      | @spawned commands spawning =>
          refine ⟨plain, .refl, ?_⟩
          exact {
            books := books
            running := sim.running
            size := by
              simp only [spawning, Control.spawning.injEq, reduceCtorEq, false_and,
                or_false] at control
              obtain ⟨missing, ⟨rfl, rfl⟩, total⟩ := control
              exact .inr ⟨rfl, total⟩
            threads := sim.threads
            counted := sim.counted
            active := sim.active
            submits := sim.submits
            state := sim.state }
  | @pop pool' front back task split one =>
      have books := sim.books.workerStep split one
      have member : .choosing ∈ m.pool.threads := by simp [split]
      obtain ⟨-, nobody⟩ := sim.books.alone member rfl
      cases one with
      | @pop _ _ rest first =>
          obtain ⟨queue, submits⟩ := sim.submits.free nobody
          rw [first] at queue
          have idle : plain.threads ⟨front.length, sim.index_lt split⟩ = none := by
            rw [sim.threads, split]
            simp only [WorkerPool.getElem?_mover]
            rfl
          have held : Function.update m.left front.length (prog task) front.length = prog task :=
            Function.update_self _ _ _
          refine ⟨_, .single (.take _ idle queue), ?_⟩
          exact {
            books := books
            running := sim.running
            size := by
              have size := sim.size
              rw [split] at size
              simpa using size
            threads := by
              intro i
              have moved := sim.threads_moved (.working task) split
                (Function.update m.left front.length (prog task))
                  (fun _ other => Function.update_of_ne other _ _) i
              simpa only [Worker.task?, Option.map_some, held] using moved
            counted := by
              intro i other found
              have found : (front ++ .working task :: back)[i]? = some (.counting other) := found
              rw [WorkerPool.getElem?_moved .choosing (.working task)] at found
              by_cases same : i = front.length
              · rw [if_pos same] at found
                cases found
              · rw [if_neg same, ← split] at found
                show ∃ verdict, Function.update m.left front.length (prog task) i = .done verdict
                rw [Function.update_of_ne same]
                exact sim.counted i other found
            active := sim.active
            submits := submits rest
            state := sim.state }
  | @work front back task p' state split one =>
      have held := sim.held split rfl
      rw [← sim.state] at one
      have moved : Function.update m.left front.length p' front.length = p' :=
        Function.update_self _ _ _
      refine ⟨_, .single (.work _ held one), ?_⟩
      exact {
        books := sim.books
        running := sim.running
        size := sim.size
        threads := by
          intro i
          have seen := sim.threads_moved (.working task) split
            (Function.update m.left front.length p')
            (fun _ other => Function.update_of_ne other _ _) i
          rw [← split] at seen
          simpa only [Worker.task?, Option.map_some, moved] using seen
        counted := by
          intro i other found
          have found : m.pool.threads[i]? = some (.counting other) := found
          by_cases same : i = front.length
          · rw [split, same, WorkerPool.getElem?_mover] at found
            cases found
          · show ∃ verdict, Function.update m.left front.length p' i = .done verdict
            rw [Function.update_of_ne same]
            exact sim.counted i other found
        active := sim.active
        submits := sim.submits
        state := rfl }
  | @through pool' front back task verdict split done one =>
      have books := sim.books.workerStep split one
      cases one with
      | run =>
          refine ⟨plain, .refl, ?_⟩
          exact {
            books := books
            running := sim.running
            size := by
              have size := sim.size
              rw [split] at size
              simpa using size
            threads := by
              intro i
              show plain.threads i = ((front ++ .counting task :: back)[i.val]?.bind
                Worker.task?).map _
              rw [WorkerPool.getElem?_moved (.working task), sim.threads, split]
              by_cases same : i.val = front.length
              · rw [if_pos same, same, WorkerPool.getElem?_mover]
                rfl
              · rw [if_neg same]
            counted := by
              intro i other found
              have found : (front ++ .counting task :: back)[i]? = some (.counting other) := found
              rw [WorkerPool.getElem?_moved (.working task)] at found
              by_cases same : i = front.length
              · exact ⟨verdict, same ▸ done⟩
              · rw [if_neg same, ← split] at found
                exact sim.counted i other found
            active := sim.active
            submits := sim.submits
            state := sim.state }

/-- The pool while no thread is between two places: those that have no task are at the head of their
loop, and the mutex is free. -/
structure Stands (m : ProgramPool Op Res σ ι) (plain : ThreadPool Op Res σ ι n) : Prop where
  running : m.pool.running = true
  free : m.pool.locked = false
  submitters : m.pool.submitters = [.ready plain.tasks]
  queue : m.pool.taskQueue = plain.taskQueue
  active : m.pool.activeTasks = plain.activeTasks
  length : m.pool.threads.length = n
  threads : ∀ i : Fin n,
    m.pool.threads[i.val]? = some (((plain.threads i).map fun job => .working job.1).getD .testing)
  left : ∀ (i : Fin n) task p, plain.threads i = some (task, p) → m.left i = p
  state : m.state = plain.state

theorem reach_pool {pool₁ pool₂ pool₃ pool₄ : WorkerPool ι} {left : Nat → Program Op Res Bool}
    {state : σ} (first : WorkerPool.Step pool₁ pool₂) (second : WorkerPool.Step pool₂ pool₃)
    (third : WorkerPool.Step pool₃ pool₄)
    (popped : ∀ pool ∈ [pool₂, pool₃, pool₄], pool.popped = pool₁.popped)
    (finished : ∀ pool ∈ [pool₂, pool₃, pool₄], pool.finished = pool₁.finished) :
    Relation.ReflTransGen (Step exec prog) ⟨pool₁, left, state⟩ ⟨pool₄, left, state⟩ := by
  have one : Step exec prog ⟨pool₁, left, state⟩ ⟨pool₂, left, state⟩ :=
    .pool first (popped _ (by simp)) (finished _ (by simp))
  have two : Step exec prog ⟨pool₂, left, state⟩ ⟨pool₃, left, state⟩ := by
    apply Step.pool second
    · exact (popped pool₃ (by simp)).trans (popped pool₂ (by simp)).symm
    · exact (finished pool₃ (by simp)).trans (finished pool₂ (by simp)).symm
  have three : Step exec prog ⟨pool₃, left, state⟩ ⟨pool₄, left, state⟩ := by
    apply Step.pool third
    · exact (popped pool₄ (by simp)).trans (popped pool₃ (by simp)).symm
    · exact (finished pool₄ (by simp)).trans (finished pool₃ (by simp)).symm
  exact ((Relation.ReflTransGen.single one).tail two).tail three

/-- A thread at the head of its loop comes by the first task of the queue. -/
theorem reach_working (prog : ι → Program Op Res Bool) {task : ι} {rest : List ι}
    (running : m.pool.running = true) (free : m.pool.locked = false)
    (split : m.pool.threads = front ++ .testing :: back) (first : m.pool.taskQueue = task :: rest) :
    Relation.ReflTransGen (Step exec prog) m
      { m with
        pool := { m.pool with
          threads := front ++ .working task :: back
          taskQueue := rest
          locked := false
          popped := m.pool.popped ++ [task] }
        left := Function.update m.left front.length (prog task) } := by
  let entered : WorkerPool ι := { m.pool with threads := front ++ .locking :: back }
  let locked : WorkerPool ι :=
    { m.pool with threads := front ++ .evaluating :: back, locked := true }
  let chosen : WorkerPool ι := { m.pool with threads := front ++ .choosing :: back, locked := true }
  have enters : WorkerPool.Step m.pool entered := .worker split (.enter running)
  have locks : WorkerPool.Step entered locked :=
    .worker rfl (.lock (show entered.locked = false from free))
  have nonempty : locked.taskQueue ≠ [] := by simp [locked, first]
  have proceeds : WorkerPool.Step locked chosen := .worker rfl (.proceed (.inr nonempty))
  have pops : Worker.Step .choosing chosen (.working task) _ :=
    .pop (show chosen.taskQueue = task :: rest from first)
  have popped : Step exec prog { m with pool := chosen } _ := .pop rfl pops
  have chooses : Relation.ReflTransGen (Step exec prog) m { m with pool := chosen } :=
    reach_pool enters locks proceeds (by simp [entered, locked, chosen])
      (by simp [entered, locked, chosen])
  exact chooses.tail popped

theorem Stands.found (stands : Stands m plain) (i : Fin n) : ∃ front back,
    m.pool.threads = front ++
      ((plain.threads i).map fun job => .working job.1).getD .testing :: back ∧
      front.length = i.val :=
  WorkerPool.exists_split (stands.threads i)

/-- No thread waits on the condition. -/
theorem Stands.awake (stands : Stands m plain) : .blocked ∉ m.pool.threads := by
  intro member
  obtain ⟨i, here⟩ := List.getElem?_of_mem member
  have inside : i < n := by
    rw [← stands.length]
    exact (List.getElem?_eq_some_iff.mp here).1
  have known := stands.threads ⟨i, inside⟩
  rw [here] at known
  cases held : plain.threads ⟨i, inside⟩ with
  | none => simp [held] at known
  | some job => simp [held] at known

/-- One thread has moved. -/
theorem Stands.threads_moved (stands : Stands m plain) {i : Fin n}
    (split : m.pool.threads = front ++ worker :: back) (length : front.length = i.val)
    (job : Option (ι × Program Op Res Bool)) (j : Fin n) :
    (front ++ (job.map fun job => .working job.1).getD .testing :: back)[j.val]? =
      some (((Function.update plain.threads i job j).map fun job => .working job.1).getD
        .testing) := by
  rw [WorkerPool.getElem?_moved worker, ← split]
  by_cases same : j = i
  · rw [if_pos (by rw [same, length]), same, Function.update_self]
  · have other : j.val ≠ front.length := by
      rw [length]
      exact fun equal => same (Fin.ext equal)
    rw [if_neg other, stands.threads, Function.update_of_ne same]

/-- A step of the plain pool can be made by the pool. -/
theorem Stands.step {plain' : ThreadPool Op Res σ ι n} (stands : Stands m plain)
    (one : ThreadPool.Step exec prog plain plain') :
    ∃ m', Relation.ReflTransGen (Step exec prog) m m' ∧ Stands m' plain' := by
  cases one with
  | @submit task rest first =>
      have ready : m.pool.submitters = [] ++ .ready (task :: rest) :: [] := by
        rw [stands.submitters, first]
        rfl
      let emplaced : WorkerPool ι :=
        { m.pool with
          submitters := [.emplaced task rest]
          locked := true
          taskQueue := m.pool.taskQueue ++ [task]
          submitted := m.pool.submitted ++ [task] }
      let raised : WorkerPool ι :=
        { emplaced with
          submitters := [.counted task rest]
          activeTasks := m.pool.activeTasks + 1
          locked := false }
      let accepted : WorkerPool ι :=
        { raised with
          submitters := [.ready rest]
          accepted := m.pool.accepted ++ [task] }
      have emplaces : WorkerPool.Step m.pool emplaced := .emplace ready stands.free
      have raises : WorkerPool.Step emplaced raised :=
        .raise (show emplaced.submitters = [] ++ .emplaced task rest :: [] from rfl)
      have notifies : WorkerPool.Step raised accepted :=
        .notifyNone (show raised.submitters = [] ++ .counted task rest :: [] from rfl) stands.awake
      refine ⟨{ m with pool := accepted }, ?_, ?_⟩
      · exact reach_pool emplaces raises notifies (by simp [emplaced, raised, accepted])
          (by simp [emplaced, raised, accepted])
      · exact {
          running := stands.running
          free := rfl
          submitters := rfl
          queue := congrArg (· ++ [task]) stands.queue
          active := congrArg (· + 1) stands.active
          length := stands.length
          threads := stands.threads
          left := stands.left
          state := stands.state }
  | @take task rest i idle first =>
      obtain ⟨front, back, split, length⟩ := stands.found i
      rw [idle] at split
      have queue : m.pool.taskQueue = task :: rest := stands.queue.trans first
      refine ⟨_, reach_working prog stands.running stands.free split queue, ?_⟩
      exact {
        running := stands.running
        free := rfl
        submitters := stands.submitters
        queue := rfl
        active := stands.active
        length := by
          rw [← stands.length, split]
          simp
        threads := stands.threads_moved split length (some (task, prog task))
        left := by
          intro j other p held
          rw [length]
          rcases ThreadPool.held_update held with ⟨rfl, same⟩ | ⟨different, held⟩
          · cases same
            exact Function.update_self _ _ _
          · have apart : j.val ≠ i.val := fun equal => different (Fin.ext equal)
            exact (Function.update_of_ne apart _ _).trans (stands.left j other p held)
        state := stands.state }
  | @work task p p' state i held one =>
      obtain ⟨front, back, split, length⟩ := stands.found i
      rw [held] at split
      rw [← stands.left i task p held, ← stands.state, ← length] at one
      refine ⟨_, Relation.ReflTransGen.single (.work split one), ?_⟩
      exact {
        running := stands.running
        free := stands.free
        submitters := stands.submitters
        queue := stands.queue
        active := stands.active
        length := stands.length
        threads := by
          have moved := stands.threads_moved split length (some (task, p'))
          rw [Option.map_some, Option.getD_some] at moved
          intro j
          rw [← moved j, split]
          rfl
        left := by
          intro j other q found
          rw [length]
          rcases ThreadPool.held_update found with ⟨rfl, same⟩ | ⟨different, found⟩
          · cases same
            exact Function.update_self _ _ _
          · have apart : j.val ≠ i.val := fun equal => different (Fin.ext equal)
            exact (Function.update_of_ne apart _ _).trans (stands.left j other q found)
        state := rfl }
  | @finish task verdict i held =>
      obtain ⟨front, back, split, length⟩ := stands.found i
      rw [held] at split
      have done : m.left front.length = .done verdict := by
        rw [length]
        exact stands.left i task _ held
      let counting : WorkerPool ι :=
        { m.pool with
          threads := front ++ .counting task :: back
          finished := m.pool.finished ++ [task] }
      have ends : Step exec prog m { m with pool := counting } := .through split done .run
      have counts : WorkerPool.Step counting _ :=
        .worker (show counting.threads = front ++ .counting task :: back from rfl) .count
      refine ⟨_, (Relation.ReflTransGen.single ends).tail (.pool counts rfl rfl), ?_⟩
      exact {
        running := stands.running
        free := stands.free
        submitters := stands.submitters
        queue := stands.queue
        active := congrArg (· - 1) stands.active
        length := by
          rw [← stands.length, split]
          simp
        threads := stands.threads_moved split length none
        left := by
          intro j other q found
          rcases ThreadPool.held_update found with ⟨rfl, same⟩ | ⟨-, found⟩
          · cases same
          · exact stands.left j other q found
        state := stands.state }

end

end ProgramPool

end SyncTool
