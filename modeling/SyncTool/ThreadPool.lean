import SyncTool.ProgramCrew

set_option autoImplicit false

namespace SyncTool

open Program

variable {Op : Type} {Res : Op → Type} {σ ι : Type} {n : Nat}

/-- A `ThreadPool` of `n` workers at work on the tasks one thread submits. `tasks` are those not
yet submitted, `completed` those whose function has returned. -/
structure ThreadPool (Op : Type) (Res : Op → Type) (σ ι : Type) (n : Nat) where
  tasks : List ι
  taskQueue : List ι
  activeTasks : Nat
  threads : Fin n → Option (ι × Program Op Res Bool)
  completed : List ι
  state : σ

namespace ThreadPool

/-- An idle pool before the first submission. -/
def boot (tasks : List ι) (state : σ) : ThreadPool Op Res σ ι n where
  tasks := tasks
  taskQueue := []
  activeTasks := 0
  threads _ := none
  completed := []
  state := state

/-- `submit`, and what a worker does: take the first task of the queue, work on it, and count
it as no longer active when its function has returned. -/
inductive Step (exec : (op : Op) → σ → Res op → σ → Prop) (prog : ι → Program Op Res Bool) :
    ThreadPool Op Res σ ι n → ThreadPool Op Res σ ι n → Prop where
  | submit {pool : ThreadPool Op Res σ ι n} {task : ι} {rest : List ι} :
      pool.tasks = task :: rest → Step exec prog pool
        { pool with
          tasks := rest
          taskQueue := pool.taskQueue ++ [task]
          activeTasks := pool.activeTasks + 1 }
  | take {pool : ThreadPool Op Res σ ι n} {task : ι} {rest : List ι} (i : Fin n) :
      pool.threads i = none → pool.taskQueue = task :: rest → Step exec prog pool
        { pool with
          taskQueue := rest
          threads := Function.update pool.threads i (some (task, prog task)) }
  | work {pool : ThreadPool Op Res σ ι n} {task : ι} {p p' : Program Op Res Bool} {state : σ}
      (i : Fin n) : pool.threads i = some (task, p) → Program.Step exec p pool.state p' state →
      Step exec prog pool
        { pool with
          threads := Function.update pool.threads i (some (task, p'))
          state := state }
  | finish {pool : ThreadPool Op Res σ ι n} {task : ι} {verdict : Bool} (i : Fin n) :
      pool.threads i = some (task, .done verdict) → Step exec prog pool
        { pool with
          threads := Function.update pool.threads i none
          activeTasks := pool.activeTasks - 1
          completed := pool.completed ++ [task] }

/-- `waitForCompletion` returns. -/
def Finished (pool : ThreadPool Op Res σ ι n) : Prop := pool.tasks = [] ∧ pool.activeTasks = 0

/-- The workers that have a task. -/
def busy (pool : ThreadPool Op Res σ ι n) : Finset (Fin n) :=
  Finset.univ.filter fun i => (pool.threads i).isSome

/-- The tasks no worker has. -/
def shelved (pool : ThreadPool Op Res σ ι n) : List ι :=
  pool.tasks ++ pool.taskQueue ++ pool.completed

/-- The bookkeeping of the pool: every task is in one place, and the counter counts those that
are submitted and not completed. -/
structure Sound (jobs : List ι) (pool : ThreadPool Op Res σ ι n) : Prop where
  distinct : pool.shelved.Nodup
  only : ∀ task ∈ pool.shelved, task ∈ jobs
  all : ∀ task ∈ jobs, task ∈ pool.shelved ∨ ∃ i p, pool.threads i = some (task, p)
  held : ∀ i task p, pool.threads i = some (task, p) → task ∈ jobs ∧ task ∉ pool.shelved
  single : ∀ i j task p q, pool.threads i = some (task, p) → pool.threads j = some (task, q) → i = j
  count : pool.activeTasks = pool.taskQueue.length + pool.busy.card

variable {exec : (op : Op) → σ → Res op → σ → Prop} {prog : ι → Program Op Res Bool}
  {jobs : List ι} {pool pool' : ThreadPool Op Res σ ι n}

theorem sound_boot (distinct : jobs.Nodup) (state : σ) :
    Sound jobs (boot jobs state : ThreadPool Op Res σ ι n) where
  distinct := by simpa [shelved, boot] using distinct
  only := by simp [shelved, boot]
  all := by simp [shelved, boot]
  held := by simp [boot]
  single := by simp [boot]
  count := by simp [boot, busy]

/-- When the counter is back at zero, every task has been completed. -/
theorem Sound.finished (sound : Sound jobs pool) (finished : pool.Finished) :
    ∀ task ∈ jobs, task ∈ pool.completed := by
  have none_left := sound.count
  rw [finished.2] at none_left
  have queue : pool.taskQueue = [] := List.eq_nil_of_length_eq_zero (by omega)
  have idle : pool.busy = ∅ := Finset.card_eq_zero.mp (by omega)
  intro task member
  rcases sound.all task member with shelved | ⟨i, p, held⟩
  · simpa [ThreadPool.shelved, finished.1, queue] using shelved
  · have : i ∈ pool.busy := by simp [busy, held]
    rw [idle] at this
    simp at this

theorem busy_some {threads : Fin n → Option (ι × Program Op Res Bool)} {i : Fin n}
    {job : ι × Program Op Res Bool} :
    (Finset.univ.filter fun j => (Function.update threads i (some job) j).isSome) =
      insert i (Finset.univ.filter fun j => (threads j).isSome) := by
  ext j
  by_cases same : j = i
  · subst same
    simp
  · simp [same]

theorem busy_none {threads : Fin n → Option (ι × Program Op Res Bool)} {i : Fin n} :
    (Finset.univ.filter fun j => (Function.update threads i none j).isSome) =
      (Finset.univ.filter fun j => (threads j).isSome).erase i := by
  ext j
  by_cases same : j = i
  · subst same
    simp
  · simp [same]

/-- Who has a task after one worker's has changed. -/
theorem held_update {threads : Fin n → Option (ι × Program Op Res Bool)} {i j : Fin n}
    {job : Option (ι × Program Op Res Bool)} {held : ι × Program Op Res Bool}
    (found : Function.update threads i job j = some held) :
    j = i ∧ job = some held ∨ j ≠ i ∧ threads j = some held := by
  by_cases same : j = i
  · subst same
    rw [Function.update_self] at found
    exact .inl ⟨rfl, found⟩
  · rw [Function.update_of_ne same] at found
    exact .inr ⟨same, found⟩

/-- Calls that may do more give the pool more steps. -/
theorem Step.mono {exec' : (op : Op) → σ → Res op → σ → Prop}
    (le : ∀ op s answer s', exec op s answer s' → exec' op s answer s')
    (one : Step exec prog pool pool') : Step exec' prog pool pool' := by
  cases one with
  | submit first => exact .submit first
  | take i idle first => exact .take i idle first
  | work i held one => exact .work i held (one.mono le)
  | finish i held => exact .finish i held

/-- Each step keeps the books. -/
theorem Sound.step (sound : Sound jobs pool) (one : Step exec prog pool pool') :
    Sound jobs pool' := by
  have count := sound.count
  cases one with
  | @submit task rest first =>
      have moved : (rest ++ (pool.taskQueue ++ [task]) ++ pool.completed).Perm pool.shelved := by
        rw [shelved, first]
        simpa using @List.perm_middle _ task (rest ++ pool.taskQueue) pool.completed
      exact {
        distinct := moved.nodup_iff.mpr sound.distinct
        only := fun t member => sound.only t (moved.mem_iff.mp member)
        all := fun t member => (sound.all t member).imp_left moved.mem_iff.mpr
        held := fun i t p held => ⟨(sound.held i t p held).1,
          fun member => (sound.held i t p held).2 (moved.mem_iff.mp member)⟩
        single := sound.single
        count := by
          simp only [List.length_append, List.length_singleton]
          simp only [busy] at count ⊢
          omega }
  | @take task rest i idle first =>
      have moved : pool.shelved.Perm (task :: (pool.tasks ++ rest ++ pool.completed)) := by
        rw [shelved, first]
        simp
      have here : task ∈ pool.shelved := moved.mem_iff.mpr (by simp)
      obtain ⟨absent, distinct⟩ := List.nodup_cons.mp (moved.nodup_iff.mp sound.distinct)
      exact {
        distinct := distinct
        only := fun t member => sound.only t (moved.mem_iff.mpr (List.mem_cons_of_mem _ member))
        all := by
          intro t member
          rcases sound.all t member with shelved | ⟨j, p, held⟩
          · rcases List.mem_cons.mp (moved.mem_iff.mp shelved) with rfl | shelved
            · exact .inr ⟨i, prog t, Function.update_self _ _ _⟩
            · exact .inl shelved
          · have other : j ≠ i := by
              rintro rfl
              rw [idle] at held
              cases held
            exact .inr ⟨j, p, (Function.update_of_ne other _ _).trans held⟩
        held := by
          intro j t p found
          rcases held_update found with ⟨rfl, same⟩ | ⟨-, held⟩
          · cases same
            exact ⟨sound.only _ here, absent⟩
          · obtain ⟨job, outside⟩ := sound.held j t p held
            exact ⟨job, fun member => outside (moved.mem_iff.mpr (List.mem_cons_of_mem _ member))⟩
        single := by
          intro j k t p q found found'
          rcases held_update found with ⟨rfl, same⟩ | ⟨-, held⟩ <;>
            rcases held_update found' with ⟨rfl, same'⟩ | ⟨-, held'⟩
          · rfl
          · cases same
            exact absurd here (sound.held k _ q held').2
          · cases same'
            exact absurd here (sound.held j _ p held).2
          · exact sound.single j k t p q held held'
        count := by
          have free : i ∉ pool.busy := by simp [busy, idle]
          simp only [busy] at count free ⊢
          rw [busy_some, Finset.card_insert_of_notMem free]
          rw [first, List.length_cons] at count
          omega }
  | @work task p p' state i held one =>
      exact {
        distinct := sound.distinct
        only := sound.only
        all := by
          intro t member
          rcases sound.all t member with shelved | ⟨j, q, held'⟩
          · exact .inl shelved
          · by_cases same : j = i
            · subst same
              rw [held] at held'
              cases held'
              exact .inr ⟨j, p', Function.update_self _ _ _⟩
            · exact .inr ⟨j, q, (Function.update_of_ne same _ _).trans held'⟩
        held := by
          intro j t q found
          rcases held_update found with ⟨rfl, same⟩ | ⟨-, held'⟩
          · cases same
            exact sound.held j _ p held
          · exact sound.held j t q held'
        single := by
          intro j k t q q' found found'
          rcases held_update found with ⟨rfl, same⟩ | ⟨-, first⟩ <;>
            rcases held_update found' with ⟨rfl, same'⟩ | ⟨-, second⟩
          · rfl
          · cases same
            exact sound.single j k _ p q' held second
          · cases same'
            exact sound.single j k _ q p first held
          · exact sound.single j k t q q' first second
        count := by
          have taken : i ∈ pool.busy := by simp [busy, held]
          simp only [busy] at count taken ⊢
          rw [busy_some, Finset.insert_eq_of_mem taken]
          exact count }
  | @finish task verdict i held =>
      have moved : (pool.tasks ++ pool.taskQueue ++ (pool.completed ++ [task])).Perm
          (task :: pool.shelved) := by
        rw [shelved, ← List.append_assoc]
        exact List.perm_append_singleton _ _
      obtain ⟨job, absent⟩ := sound.held i task _ held
      exact {
        distinct := moved.nodup_iff.mpr (List.nodup_cons.mpr ⟨absent, sound.distinct⟩)
        only := by
          intro t member
          rcases List.mem_cons.mp (moved.mem_iff.mp member) with rfl | member
          · exact job
          · exact sound.only t member
        all := by
          intro t member
          rcases sound.all t member with shelved | ⟨j, q, held'⟩
          · exact .inl (moved.mem_iff.mpr (List.mem_cons_of_mem _ shelved))
          · by_cases same : j = i
            · subst same
              rw [held] at held'
              cases held'
              exact .inl (moved.mem_iff.mpr (by simp))
            · exact .inr ⟨j, q, (Function.update_of_ne same _ _).trans held'⟩
        held := by
          intro j t q found
          rcases held_update found with ⟨rfl, same⟩ | ⟨other, held'⟩
          · cases same
          · refine ⟨(sound.held j t q held').1, fun member => ?_⟩
            rcases List.mem_cons.mp (moved.mem_iff.mp member) with rfl | member
            · exact other (sound.single j i t q _ held' held)
            · exact (sound.held j t q held').2 member
        single := by
          intro j k t q q' found found'
          rcases held_update found with ⟨rfl, same⟩ | ⟨-, first⟩
          · cases same
          · rcases held_update found' with ⟨rfl, same'⟩ | ⟨-, second⟩
            · cases same'
            · exact sound.single j k t q q' first second
        count := by
          have taken : i ∈ pool.busy := by simp [busy, held]
          have some := Finset.card_pos.mpr ⟨i, taken⟩
          simp only [busy] at count taken some ⊢
          rw [busy_none, Finset.card_erase_of_mem taken]
          omega }

variable {κ : Type} {H : Handler Op Res σ} (key : ι → κ) (share own : κ → Interference σ)
  (goal : κ → σ → Prop) {start : σ}

/-- Whatever the workers are at, every task not yet begun finds its share as it was at the
start, every task under way can still reach its goal, and every completed one has reached it.
`own` is what a task under way tolerates and promises. -/
structure Working (H : Handler Op Res σ) (jobs : List ι) (start : σ)
    (pool : ThreadPool Op Res σ ι n) : Prop where
  waiting : ∀ task ∈ pool.tasks ++ pool.taskQueue, (share (key task)).rely start pool.state
  running : ∀ i task p, pool.threads i = some (task, p) →
    Sat H (own (key task)) p (fun _ s => goal (key task) s) pool.state
  reached : ∀ task ∈ pool.completed, goal (key task) pool.state
  outside : ∀ k, (∀ task ∈ jobs, key task ≠ k) → (share k).rely start pool.state

theorem working_boot :
    Working key share own goal H jobs start (boot jobs start : ThreadPool Op Res σ ι n) where
  waiting := fun task _ => (share (key task)).rely_refl start
  running := by simp [boot]
  reached := by simp [boot]
  outside := fun k _ => (share k).rely_refl start

variable {key share own goal}

/-- Jobs that disturb nobody else's share keep the pool working. -/
theorem Working.step
    (compatible : ∀ i j, i ≠ j → ∀ s s', (share j).guar s s' → (share i).rely s s')
    (kept : ∀ i s s', (share i).rely s s' → goal i s → goal i s')
    (guards : ∀ k s s', (own k).guar s s' → (share k).guar s s')
    (tolerant : (∀ i j : Fin n, i = j) ∨ ∀ k s s', (share k).rely s s' → (own k).rely s s')
    (works : ∀ task ∈ jobs, ∀ s, (share (key task)).rely start s →
      Sat H (own (key task)) (prog task) (fun _ s' => goal (key task) s') s)
    (apart : ∀ task ∈ jobs, ∀ other ∈ jobs, key task = key other → task = other)
    (sound : Sound jobs pool) (working : Working key share own goal H jobs start pool)
    (one : Step H.exec prog pool pool') : Working key share own goal H jobs start pool' := by
  cases one with
  | @submit task rest first =>
      have same : rest ++ (pool.taskQueue ++ [task]) ⊆ pool.tasks ++ pool.taskQueue := by
        rw [first]
        intro t member
        simp only [List.mem_append, List.mem_cons, List.not_mem_nil, or_false] at member ⊢
        grind
      exact {
        waiting := fun t member => working.waiting t (same member)
        running := working.running
        reached := working.reached
        outside := working.outside }
  | @take task rest i idle first =>
      exact {
        waiting := by
          intro t member
          apply working.waiting t
          rw [first]
          simp only [List.mem_append, List.mem_cons] at member ⊢
          grind
        running := by
          intro j t p found
          rcases held_update found with ⟨rfl, same⟩ | ⟨-, held⟩
          · cases same
            have member : task ∈ pool.tasks ++ pool.taskQueue := by simp [first]
            have job := sound.only task (List.mem_append_left _ member)
            exact works task job _ (working.waiting task member)
          · exact working.running j t p held
        reached := working.reached
        outside := working.outside }
  | @work task p p' state i held one =>
      obtain ⟨promised, rest⟩ := (working.running i task p held).step one
      obtain ⟨job, outside⟩ := sound.held i task p held
      have others : ∀ k, k ≠ key task → (share k).rely pool.state state := fun k other =>
        compatible k (key task) other _ _ (guards _ _ _ promised)
      have shelved : ∀ t ∈ pool.shelved, key t ≠ key task := by
        intro t member same
        have equal := apart t (sound.only t member) task job same
        exact outside (equal ▸ member)
      exact {
        waiting := by
          intro t member
          have other := shelved t (List.mem_append_left _ member)
          exact (share (key t)).rely_trans _ _ _ (working.waiting t member) (others _ other)
        running := by
          intro j t q found
          rcases held_update found with ⟨rfl, same⟩ | ⟨different, held'⟩
          · cases same
            exact rest
          · have other : key t ≠ key task := by
              intro same
              obtain rfl := apart t (sound.held j t q held').1 task job same
              exact different (sound.single j i t q p held' held)
            rcases tolerant with only | tolerant
            · exact absurd (only j i) different
            · exact (working.running j t q held').rely (tolerant _ _ _ (others _ other))
        reached := by
          intro t member
          have other := shelved t (List.mem_append_right _ member)
          exact kept _ _ _ (others _ other) (working.reached t member)
        outside := by
          intro k notJob
          have other : k ≠ key task := fun same => notJob task job same.symm
          exact (share k).rely_trans _ _ _ (working.outside k notJob) (others k other) }
  | @finish task verdict i held =>
      have done : goal (key task) pool.state :=
        working.running i task _ held _ ((own (key task)).rely_refl _)
      exact {
        waiting := working.waiting
        running := by
          intro j t q found
          rcases held_update found with ⟨rfl, same⟩ | ⟨-, held'⟩
          · cases same
          · exact working.running j t q held'
        reached := by
          intro t member
          rcases List.mem_append.mp member with member | member
          · exact working.reached t member
          · rw [List.mem_singleton.mp member]
            exact done
        outside := working.outside }

/-- Every run keeps the books and keeps the pool working. -/
theorem run_working
    (compatible : ∀ i j, i ≠ j → ∀ s s', (share j).guar s s' → (share i).rely s s')
    (kept : ∀ i s s', (share i).rely s s' → goal i s → goal i s')
    (guards : ∀ k s s', (own k).guar s s' → (share k).guar s s')
    (tolerant : (∀ i j : Fin n, i = j) ∨ ∀ k s s', (share k).rely s s' → (own k).rely s s')
    (works : ∀ task ∈ jobs, ∀ s, (share (key task)).rely start s →
      Sat H (own (key task)) (prog task) (fun _ s' => goal (key task) s') s)
    (apart : ∀ task ∈ jobs, ∀ other ∈ jobs, key task = key other → task = other)
    (distinct : jobs.Nodup)
    (run : Relation.ReflTransGen (Step H.exec prog) (boot jobs start) pool) :
    Sound jobs pool ∧ Working key share own goal H jobs start pool := by
  induction run with
  | refl => exact ⟨sound_boot distinct start, working_boot key share own goal⟩
  | tail _ one ih =>
      obtain ⟨sound, working⟩ := ih
      exact ⟨sound.step one, working.step compatible kept guards tolerant works apart sound one⟩

/-- When the pool has finished, every task has reached its goal, and the shares of everyone without
a task are as they were. -/
theorem Working.finished (sound : Sound jobs pool)
    (working : Working key share own goal H jobs start pool) (finished : pool.Finished) :
    (∀ task ∈ jobs, goal (key task) pool.state) ∧
      ∀ k, (∀ task ∈ jobs, key task ≠ k) → (share k).rely start pool.state :=
  ⟨fun task job => working.reached task (sound.finished finished task job), working.outside⟩

variable (key share goal) in
/-- Whatever the schedule, when the pool has finished every task has reached its goal, and the
shares of everyone without a task are as they were. -/
theorem run_finished
    (compatible : ∀ i j, i ≠ j → ∀ s s', (share j).guar s s' → (share i).rely s s')
    (kept : ∀ i s s', (share i).rely s s' → goal i s → goal i s')
    (works : ∀ task ∈ jobs, ∀ s, (share (key task)).rely start s →
      Sat H (share (key task)) (prog task) (fun _ s' => goal (key task) s') s)
    (apart : ∀ task ∈ jobs, ∀ other ∈ jobs, key task = key other → task = other)
    (distinct : jobs.Nodup)
    (run : Relation.ReflTransGen (Step H.exec prog) (boot jobs start) pool)
    (finished : pool.Finished) :
    (∀ task ∈ jobs, goal (key task) pool.state) ∧
      ∀ k, (∀ task ∈ jobs, key task ≠ k) → (share k).rely start pool.state := by
  obtain ⟨sound, working⟩ := run_working compatible kept (fun _ _ _ => id)
    (.inr fun _ _ _ => id) works apart distinct run
  exact working.finished sound finished

/-- What the calls of the tasks keep, every run of the pool keeps. -/
theorem run_all {exec : (op : Op) → σ → Res op → σ → Prop} {prog : ι → Program Op Res Bool}
    {jobs : List ι} {ok : Op → Prop} {Inv : σ → Prop} {pool : ThreadPool Op Res σ ι n}
    (each : ∀ op s answer s', ok op → Inv s → exec op s answer s' → Inv s')
    (allowed : ∀ task ∈ jobs, (prog task).All ok) (start_ : Inv start)
    (run : Relation.ReflTransGen (Step exec prog) (boot jobs start) pool) : Inv pool.state := by
  suffices general : (∀ task ∈ pool.tasks ++ pool.taskQueue, (prog task).All ok) ∧
      (∀ i task p, pool.threads i = some (task, p) → p.All ok) ∧ Inv pool.state from general.2.2
  induction run with
  | refl => exact ⟨by simpa [boot] using allowed, by simp [boot], start_⟩
  | tail _ one ih =>
      obtain ⟨waiting, running, now⟩ := ih
      cases one with
      | @submit task rest first =>
          refine ⟨fun t member => waiting t ?_, running, now⟩
          rw [first]
          simp only [List.mem_append, List.mem_cons, List.not_mem_nil, or_false] at member ⊢
          grind
      | @take task rest i idle first =>
          refine ⟨fun t member => waiting t ?_, ?_, now⟩
          · rw [first]
            simp only [List.mem_append, List.mem_cons] at member ⊢
            grind
          · intro j t p found
            rcases held_update found with ⟨rfl, same⟩ | ⟨-, held⟩
            · cases same
              exact waiting task (by simp [first])
            · exact running j t p held
      | @work task p p' state i held one =>
          obtain ⟨rest, after⟩ := (running i task p held).step each now one
          refine ⟨waiting, ?_, after⟩
          intro j t q found
          rcases held_update found with ⟨rfl, same⟩ | ⟨-, held'⟩
          · cases same
            exact rest
          · exact running j t q held'
      | @finish task verdict i held =>
          refine ⟨waiting, ?_, now⟩
          intro j t q found
          rcases held_update found with ⟨rfl, same⟩ | ⟨-, held'⟩
          · cases same
          · exact running j t q held'

/-- What every task keeps while it runs alone, a single worker keeps at all times. -/
theorem run_alone {H : Handler Op Res σ} {I : Interference σ} {Inv : σ → Prop}
    {prog : ι → Program Op Res Bool} {jobs : List ι} {start : σ} {pool : ThreadPool Op Res σ ι n}
    (only : ∀ i j : Fin n, i = j) (kept : ∀ s s', I.guar s s' → Inv s → Inv s')
    (works : ∀ task ∈ jobs, ∀ s, Inv s → Sat H I (prog task) (fun _ _ => True) s)
    (first : Inv start) (run : Relation.ReflTransGen (Step H.exec prog) (boot jobs start) pool) :
    Inv pool.state := by
  suffices general : (∀ task ∈ pool.tasks ++ pool.taskQueue, task ∈ jobs) ∧
      (∀ i task p, pool.threads i = some (task, p) → Sat H I p (fun _ _ => True) pool.state) ∧
      Inv pool.state from general.2.2
  induction run with
  | refl => exact ⟨by simp [boot], by simp [boot], first⟩
  | tail _ one ih =>
      obtain ⟨waiting, running, now⟩ := ih
      cases one with
      | @submit task rest queue =>
          refine ⟨fun t member => waiting t ?_, running, now⟩
          rw [queue]
          simp only [List.mem_append, List.mem_cons, List.not_mem_nil, or_false] at member ⊢
          grind
      | @take task rest i idle queue =>
          refine ⟨fun t member => waiting t ?_, ?_, now⟩
          · rw [queue]
            simp only [List.mem_append, List.mem_cons] at member ⊢
            grind
          · intro j t p found
            rcases held_update found with ⟨rfl, same⟩ | ⟨-, held⟩
            · cases same
              exact works task (waiting task (by simp [queue])) _ now
            · exact running j t p held
      | @work task p p' state i held one =>
          obtain ⟨promised, rest⟩ := (running i task p held).step one
          refine ⟨waiting, ?_, kept _ _ promised now⟩
          intro j t q found
          rcases held_update found with ⟨rfl, same⟩ | ⟨different, -⟩
          · cases same
            exact rest
          · exact absurd (only j i) different
      | @finish task verdict i held =>
          refine ⟨waiting, ?_, now⟩
          intro j t q found
          rcases held_update found with ⟨rfl, same⟩ | ⟨-, held'⟩
          · cases same
          · exact running j t q held'

/-- A worker runs its program as the program runs alone. -/
theorem work_reach {exec : (op : Op) → σ → Res op → σ → Prop} {prog : ι → Program Op Res Bool}
    {pool : ThreadPool Op Res σ ι n} {i : Fin n} {task : ι} {p p' : Program Op Res Bool} {s' : σ}
    (held : pool.threads i = some (task, p)) (run : Reach exec Eq p pool.state p' s') :
    Relation.ReflTransGen (Step exec prog) pool
      { pool with
        threads := Function.update pool.threads i (some (task, p'))
        state := s' } := by
  induction run with
  | refl =>
      have same : Function.update pool.threads i (some (task, p)) = pool.threads := by
        rw [← held, Function.update_eq_self]
      rw [same]
  | step _ one ih =>
      have next := ih.tail (.work i (Function.update_self i _ _) one)
      rwa [Function.update_idem] at next
  | env _ same ih => exact same ▸ ih

/-- One worker can go through all the tasks, if each of them comes to an end in its turn. -/
theorem exists_finished {exec : (op : Op) → σ → Res op → σ → Prop} {prog : ι → Program Op Res Bool}
    {jobs : List ι} {start : σ} (i : Fin n)
    (ends : ∀ (pool : ThreadPool Op Res σ ι n) task p,
      Relation.ReflTransGen (Step exec prog) (boot jobs start) pool →
      pool.threads i = some (task, p) → ∃ value s', Reach exec Eq p pool.state (.done value) s') :
    ∃ pool : ThreadPool Op Res σ ι n,
      Relation.ReflTransGen (Step exec prog) (boot jobs start) pool ∧ pool.Finished := by
  suffices general : ∀ (rest : List ι) (pool : ThreadPool Op Res σ ι n),
      Relation.ReflTransGen (Step exec prog) (boot jobs start) pool → pool.tasks = rest →
      pool.taskQueue = [] → pool.activeTasks = 0 → pool.threads i = none →
      ∃ pool' : ThreadPool Op Res σ ι n,
        Relation.ReflTransGen (Step exec prog) (boot jobs start) pool' ∧ pool'.Finished from
    general jobs (boot jobs start) .refl rfl rfl rfl rfl
  intro rest
  induction rest with
  | nil => exact fun pool run none_left _ idle _ => ⟨pool, run, none_left, idle⟩
  | cons task rest ih =>
      intro pool run tasks queue active idle
      have submitted := run.tail (.submit tasks)
      have queued : pool.taskQueue ++ [task] = task :: [] := by rw [queue, List.nil_append]
      have taken := submitted.tail (.take i idle queued)
      obtain ⟨value, s', ended⟩ := ends _ task (prog task) taken (Function.update_self i _ _)
      have worked := taken.trans (work_reach (Function.update_self i _ _) ended)
      have finished := worked.tail (.finish i (Function.update_self i _ _))
      refine ih _ finished rfl rfl ?_ (Function.update_self i _ _)
      show pool.activeTasks + 1 - 1 = 0
      omega

end ThreadPool

end SyncTool
