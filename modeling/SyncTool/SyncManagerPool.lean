import SyncTool.ProgramPool
import SyncTool.SyncManager

set_option autoImplicit false

namespace SyncTool

open LinuxFileUtil FileSync

/-- `SyncManager::syncLocal` on the pool that `init` has created: the calling thread detects the
changes while the workers find nothing to do, then submits the tasks and waits. -/
inductive PooledManager where
  | detecting (p : Prog (List SyncTask)) (m : ProgramPool Op Res World SyncTask)
  | processing (m : ProgramPool Op Res World SyncTask)
  | returned (w : World)

namespace PooledManager

inductive Step (self : FileSync) (fuel : Nat) (exec : (op : Op) → World → Res op → World → Prop) :
    PooledManager → PooledManager → Prop where
  | detect {p p' : Prog (List SyncTask)} {m : ProgramPool Op Res World SyncTask} {w : World} :
      Program.Step exec p m.state p' w →
      Step self fuel exec (.detecting p m) (.detecting p' { m with state := w })
  | idle {p : Prog (List SyncTask)} {m m' : ProgramPool Op Res World SyncTask} :
      ProgramPool.Step exec (executeSyncTask self fuel) m m' →
      Step self fuel exec (.detecting p m) (.detecting p m')
  | submit {tasks : List SyncTask} {m : ProgramPool Op Res World SyncTask} :
      Step self fuel exec (.detecting (.done tasks) m)
        (.processing { m with pool := { m.pool with submitters := [.ready tasks] } })
  | process {m m' : ProgramPool Op Res World SyncTask} :
      ProgramPool.Step exec (executeSyncTask self fuel) m m' →
      Step self fuel exec (.processing m) (.processing m')
  | wake {m : ProgramPool Op Res World SyncTask} : m.pool.submitters = [.ready []] →
      m.pool.activeTasks = 0 → Step self fuel exec (.processing m) (.returned m.state)

/-- A manager after `init`: its pool has its threads, wherever these are by now. -/
def Inited (self : FileSync) (fuel : Nat) (policy : Policy) (n : Nat) (w : World)
    (m : ProgramPool Op Res World SyncTask) : Prop :=
  m.pool.control = .free [] ∧ ∃ left, Relation.ReflTransGen
    (ProgramPool.Step (handler policy True).exec (executeSyncTask self fuel))
    ⟨WorkerPool.boot n [] [], left, w⟩ m

/-- The runs of `syncLocal`, under every schedule of the threads. -/
def Runs (n : Nat) (self : FileSync) (fuel : Nat) (policy : Policy) (srcDir destDir : Bytes)
    (w : World) (manager : PooledManager) : Prop :=
  ∃ m, Inited self fuel policy n w m ∧
    Relation.ReflTransGen (Step self fuel (handler policy True).exec)
    (.detecting (detectChanges self fuel srcDir destDir) m) manager

def world : PooledManager → World
  | detecting _ m | processing m => m.state
  | returned w => w

end PooledManager

def SyncManager.world {n : Nat} : SyncManager n → World
  | detecting _ w | returned w => w
  | processing pool => pool.state

namespace WorkerPool

variable {ι : Type} {pool pool' : WorkerPool ι}

/-- The threads that submit stay the same ones. -/
theorem submitters_length (one : Step pool pool') :
    pool'.submitters.length = pool.submitters.length := by
  cases one with
  | worker _ one => cases one <;> rfl
  | emplace split _ => simp [split]
  | raise split => simp [split]
  | notifyNone split _ => simp [split]
  | notifyOne split _ => simp [split]
  | _ => rfl

theorem Books.submitting (books : Books pool) (nobody : pool.submitters = []) (todo : List ι) :
    Books { pool with submitters := [.ready todo] } where
  mutex := by
    have mutex := books.mutex
    rw [nobody] at mutex
    exact mutex
  order := books.order
  count := by
    have count := books.count
    rw [nobody] at count
    exact count
  last := by simp
  runs := books.runs
  accepted := by
    have accepted := books.accepted
    rw [nobody] at accepted
    exact accepted

end WorkerPool

namespace ProgramPool

variable {Op : Type} {Res : Op → Type} {σ ι : Type} {n : Nat}
  {exec : (op : Op) → σ → Res op → σ → Prop} {prog : ι → Program Op Res Bool}
  {m m' : ProgramPool Op Res σ ι} {w : σ}

theorem simulates_boot (left : Nat → Program Op Res Bool) :
    Simulates ⟨WorkerPool.boot n [] [], left, w⟩
      (ThreadPool.boot [] w : ThreadPool Op Res σ ι n) where
  books := WorkerPool.books_boot n [] []
  running := rfl
  size := .inl ⟨n, rfl, Nat.zero_add n⟩
  threads _ := rfl
  counted _ _ here := by cases here
  active := rfl
  submits := .none
  state := rfl

/-- As long as nobody has submitted anything. -/
theorem Simulates.idle_step (sim : Simulates m (ThreadPool.boot [] w : ThreadPool Op Res σ ι n))
    (nobody : m.pool.submitters = []) (one : Step exec prog m m') :
    Simulates m' (ThreadPool.boot [] w : ThreadPool Op Res σ ι n) ∧ m'.pool.submitters = [] := by
  obtain ⟨plain, seen, sim'⟩ := sim.step one
  have still : m'.pool.submitters = [] := by
    rcases (Relation.reflGen_iff _ _ _).mp one.under with same | one
    · rw [same, nobody]
    · have length := WorkerPool.submitters_length one
      rw [nobody] at length
      exact List.eq_nil_of_length_eq_zero length
  cases seen with
  | refl => exact ⟨sim', still⟩
  | single seen =>
      cases seen with
      | submit first => cases first
      | take _ _ first => cases first
      | work _ held _ => cases held
      | finish _ held => cases held

theorem Simulates.submitting (sim : Simulates m (ThreadPool.boot [] w : ThreadPool Op Res σ ι n))
    (nobody : m.pool.submitters = []) (tasks : List ι) :
    Simulates { m with pool := { m.pool with submitters := [.ready tasks] } }
      (ThreadPool.boot tasks w : ThreadPool Op Res σ ι n) where
  books := sim.books.submitting nobody tasks
  running := sim.running
  size := sim.size
  threads := sim.threads
  counted := sim.counted
  active := sim.active
  submits := by
    have submits := sim.submits
    rw [nobody] at submits
    have queue := (submits.free rfl).1
    exact WorkerPool.submits_ready.mpr ⟨rfl, queue⟩
  state := sim.state

/-- The pool after its constructor, with no thread past the head of its loop. -/
def fresh (n : Nat) (w : σ) : ProgramPool Op Res σ ι where
  pool := { WorkerPool.boot n [] [] with threads := List.replicate n .testing, control := .free [] }
  left _ := .spin
  state := w

theorem fresh_run (n : Nat) (w : σ) : Relation.ReflTransGen (Step exec prog)
    ⟨WorkerPool.boot n [] [], fun _ => .spin, w⟩ (fresh n w : ProgramPool Op Res σ ι) := by
  suffices spawned : ∀ made missing, made + missing = n → Relation.ReflTransGen (Step exec prog)
      ⟨WorkerPool.boot n [] [], fun _ => .spin, w⟩
      (⟨{ WorkerPool.boot n [] [] with
          threads := List.replicate made .testing, control := .spawning missing [] },
        fun _ => .spin, w⟩ : ProgramPool Op Res σ ι) by
    exact (spawned n 0 rfl).tail (.pool (.spawned rfl) rfl rfl)
  intro made
  induction made with
  | zero =>
      rintro missing rfl
      rw [Nat.zero_add]
      exact .refl
  | succ made ih =>
      intro missing total
      have before := ih (missing + 1) (by omega)
      rw [List.replicate_succ']
      exact before.tail (.pool (.spawn rfl) rfl rfl)

theorem stands_fresh (tasks : List ι) (w : σ) :
    Stands { (fresh n w : ProgramPool Op Res σ ι) with
      pool := { (fresh n w : ProgramPool Op Res σ ι).pool with submitters := [.ready tasks] } }
      (ThreadPool.boot tasks w : ThreadPool Op Res σ ι n) where
  running := rfl
  free := rfl
  submitters := rfl
  queue := rfl
  active := rfl
  length := List.length_replicate
  threads i := by
    show (List.replicate n Worker.testing)[i.val]? = some .testing
    rw [List.getElem?_replicate, if_pos i.isLt]
  left _ _ _ held := by cases held
  state := rfl

end ProgramPool

namespace PooledManager

variable {n : Nat} {self : FileSync} {fuel : Nat} {policy : Policy}
  {srcDir destDir : Bytes} {w : World}

/-- The sync on the pool, and the sync on the plain pool that it behaves as. -/
inductive Tracks : PooledManager → SyncManager n → Prop where
  | detecting {p : Prog (List SyncTask)} {m : ProgramPool Op Res World SyncTask} {w : World} :
      ProgramPool.Simulates m (ThreadPool.boot [] w : ThreadPool Op Res World SyncTask n) →
      m.pool.submitters = [] → Tracks (.detecting p m) (.detecting p w)
  | processing {m : ProgramPool Op Res World SyncTask} {pool : ThreadPool Op Res World SyncTask n} :
      ProgramPool.Simulates m pool → Tracks (.processing m) (.processing pool)
  | returned {w : World} : Tracks (.returned w) (.returned w)

theorem Tracks.world {manager : PooledManager} {plain : SyncManager n}
    (tracks : Tracks manager plain) :
    plain.world = manager.world := by
  cases tracks with
  | detecting sim _ => exact sim.state
  | processing sim => exact sim.state
  | returned => rfl

theorem Tracks.step {exec : (op : Op) → World → Res op → World → Prop}
    {manager manager' : PooledManager} {plain : SyncManager n} (tracks : Tracks manager plain)
    (one : Step self fuel exec manager manager') :
    ∃ plain', Relation.ReflGen (SyncManager.StepUnder self fuel exec) plain plain' ∧
      Tracks manager' plain' := by
  cases one with
  | @detect p p' m w' one =>
      cases tracks with
      | @detecting _ _ w sim nobody =>
          have same : w = m.state := sim.state
          rw [← same] at one
          exact ⟨_, .single (.detect one), .detecting { sim with state := rfl } nobody⟩
  | idle one =>
      cases tracks with
      | detecting sim nobody =>
          obtain ⟨sim, nobody⟩ := sim.idle_step nobody one
          exact ⟨_, .refl, .detecting sim nobody⟩
  | submit =>
      cases tracks with
      | detecting sim nobody => exact ⟨_, .single .submit, .processing (sim.submitting nobody _)⟩
  | process one =>
      cases tracks with
      | processing sim =>
          obtain ⟨pool, seen, sim⟩ := sim.step one
          refine ⟨.processing pool, ?_, .processing sim⟩
          cases seen with
          | refl => exact .refl
          | single seen => exact .single (.process seen)
  | @wake m ready zero =>
      cases tracks with
      | @processing _ pool sim =>
          have finished : pool.Finished := by
            refine ⟨?_, sim.active.trans zero⟩
            have submits := sim.submits
            rw [ready] at submits
            exact (WorkerPool.submits_ready.mp submits).1
          refine ⟨_, .single (.wake finished), ?_⟩
          rw [sim.state]
          exact .returned

theorem Inited.idle {m : ProgramPool Op Res World SyncTask}
    (inited : Inited self fuel policy n w m) :
    ProgramPool.Simulates m (ThreadPool.boot [] w : ThreadPool Op Res World SyncTask n) ∧
      m.pool.submitters = [] := by
  obtain ⟨-, left, created⟩ := inited
  induction created with
  | refl => exact ⟨ProgramPool.simulates_boot left, rfl⟩
  | tail _ one ih => exact ih.1.idle_step ih.2 one

/-- Every run on the pool is one on the plain pool. -/
theorem Runs.tracks {manager : PooledManager}
    (run : Runs n self fuel policy srcDir destDir w manager) :
    ∃ plain : SyncManager n, SyncManager.Runs self fuel policy srcDir destDir w plain ∧
      Tracks manager plain := by
  obtain ⟨m, inited, run⟩ := run
  obtain ⟨idle, nobody⟩ := inited.idle
  induction run with
  | refl => exact ⟨_, .refl, .detecting idle nobody⟩
  | tail _ one ih =>
      obtain ⟨plain, before, tracks⟩ := ih
      obtain ⟨plain', seen, tracks'⟩ := tracks.step one
      refine ⟨plain', ?_, tracks'⟩
      cases seen with
      | refl => exact before
      | single seen => exact before.tail seen

/-- A sync on the plain pool, and one on the pool that has come to the same point. -/
inductive Follows (n : Nat) : PooledManager → SyncManager n → Prop where
  | detecting {p : Prog (List SyncTask)} {w : World} :
      Follows n (.detecting p (ProgramPool.fresh n w)) (.detecting p w)
  | processing {m : ProgramPool Op Res World SyncTask} {pool : ThreadPool Op Res World SyncTask n} :
      ProgramPool.Stands m pool → Follows n (.processing m) (.processing pool)
  | returned {w : World} : Follows n (.returned w) (.returned w)

theorem Follows.world {manager : PooledManager} {plain : SyncManager n}
    (follows : Follows n manager plain) :
    manager.world = plain.world := by
  cases follows with
  | detecting => rfl
  | processing stands => exact stands.state
  | returned => rfl

theorem Follows.step {exec : (op : Op) → World → Res op → World → Prop} {manager : PooledManager}
    {plain plain' : SyncManager n} (follows : Follows n manager plain)
    (one : SyncManager.StepUnder self fuel exec plain plain') :
    ∃ manager', Relation.ReflTransGen (Step self fuel exec) manager manager' ∧
      Follows n manager' plain' := by
  cases one with
  | detect one =>
      cases follows with
      | detecting => exact ⟨_, .single (.detect one), .detecting⟩
  | submit =>
      cases follows with
      | detecting => exact ⟨_, .single .submit, .processing (ProgramPool.stands_fresh _ _)⟩
  | process one =>
      cases follows with
      | processing stands =>
          obtain ⟨m, run, stands⟩ := stands.step one
          exact ⟨.processing m, run.lift PooledManager.processing fun _ _ => .process,
            .processing stands⟩
  | @wake pool finished =>
      cases follows with
      | @processing m _ stands =>
          have ready : m.pool.submitters = [.ready []] := by rw [stands.submitters, finished.1]
          have zero : m.pool.activeTasks = 0 := stands.active.trans finished.2
          refine ⟨_, .single (.wake ready zero), ?_⟩
          rw [stands.state]
          exact .returned

/-- Every run on the plain pool can be made on the pool. -/
theorem follows_of_runs {plain : SyncManager n}
    (run : SyncManager.Runs self fuel policy srcDir destDir w plain) :
    ∃ manager, Runs n self fuel policy srcDir destDir w manager ∧ Follows n manager plain := by
  have inited : Inited self fuel policy n w (ProgramPool.fresh n w) :=
    ⟨rfl, _, ProgramPool.fresh_run n w⟩
  induction run with
  | refl => exact ⟨_, ⟨_, inited, .refl⟩, .detecting⟩
  | tail _ one ih =>
      obtain ⟨manager, ⟨m, inited, before⟩, follows⟩ := ih
      obtain ⟨manager', more, follows⟩ := follows.step one
      exact ⟨manager', ⟨m, inited, before.trans more⟩, follows⟩

/-- With its mutex, its condition, its flags and its counter, the pool makes of `syncLocal` what
threads make of it that each take the first task of a queue whenever they are free: the same states
of the machine come up, and the same states are left. -/
theorem syncLocal_pooled (n : Nat) (self : FileSync) (fuel : Nat) (policy : Policy)
    (srcDir destDir : Bytes) (w w' : World) :
    ((∃ manager, Runs n self fuel policy srcDir destDir w manager ∧ manager.world = w') ↔
      ∃ plain : SyncManager n, SyncManager.Runs self fuel policy srcDir destDir w plain ∧
        plain.world = w') ∧
    (Runs n self fuel policy srcDir destDir w (.returned w') ↔
      SyncManager.Runs self fuel policy srcDir destDir w (.returned w' : SyncManager n)) := by
  constructor
  · constructor
    · rintro ⟨manager, run, rfl⟩
      obtain ⟨plain, seen, tracks⟩ := run.tracks
      exact ⟨plain, seen, tracks.world⟩
    · rintro ⟨plain, run, rfl⟩
      obtain ⟨manager, made, follows⟩ := follows_of_runs run
      exact ⟨manager, made, follows.world⟩
  · constructor
    · intro run
      obtain ⟨plain, seen, tracks⟩ := run.tracks
      cases tracks with
      | returned => exact seen
    · intro run
      obtain ⟨manager, made, follows⟩ := follows_of_runs run
      cases follows with
      | returned => exact made

end PooledManager

end SyncTool
