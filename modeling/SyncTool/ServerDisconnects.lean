import SyncTool.ServerOwed
import SyncTool.ServerProcess

set_option autoImplicit false

namespace SyncTool

open Program Throwing RpcServer

namespace ServerProcess

/-- What is left of a session says the answers that it owes and nothing else. -/
structure Answering (rpc : RpcServer) (max_size : Nat)
    (p : Program (Guarded Op Bool) (GuardedRes Res) Bool) (s : Noted Bool World) : Prop where
  asks : p.Calls (Throwing.within Op.speaks)
  keeps : Sat ((handler anything True).guarded max_size)
    ((speaking (InTurn rpc)).comap Noted.state) p (fun _ _ => True) s
  inTurn : InTurn rpc s.state.received s.state.sent

namespace Answering

variable {rpc : RpcServer} {max_size : Nat} {s s' : Noted Bool World}
  {p : Program (Guarded Op Bool) (GuardedRes Res) Bool}

/-- A session that is about to send owes what it sends: all of it could be taken. -/
theorem owed {data : Bytes} {next : GuardedRes Res (.sys (.send data)) → _}
    (answering : Answering rpc max_size (.call (.sys (.send data)) next) s) :
    rpc.Owed s.state.received s.state.sent := by
  have more : InTurn rpc s.state.received (s.state.sent ++ data) := by
    have ran : ((handler anything True).guarded max_size).exec (.sys (.send data)) s
        (some (.ok data.length)) { s with state := s.state.said data } := by
      refine ⟨s.state.said data, ⟨⟨0, .none, none, []⟩, trivial, ?_⟩, rfl⟩
      simp [Op.run, Choice.limit, World.said]
    exact (answering.keeps s (Interference.rely_refl _ s) _ _ ran).1 answering.inTurn
  exact owed_of_inTurn answering.asks.1 more

theorem others (answering : Answering rpc max_size p s) (moved : Untouched s.state s'.state) :
    Answering rpc max_size p s' where
  asks := answering.asks
  keeps := answering.keeps.rely ⟨moved.sent, moved.received⟩
  inTurn := by
    rw [moved.received, moved.sent]
    exact answering.inTurn

theorem call {op : Guarded Op Bool} {next : GuardedRes Res op → _} {answer : GuardedRes Res op}
    {policy : Policy} (answering : Answering rpc max_size (.call op next) s)
    (ran : ((handler policy True).guarded max_size).exec op s answer s') :
    Answering rpc max_size (next answer) s' := by
  obtain ⟨promised, keeps⟩ := answering.keeps.step (.call (exec_anything ran))
  exact ⟨answering.asks.2 answer, keeps, promised answering.inTurn⟩

end Answering

/-- What the accept thread gives to the pool answers its client. -/
theorem work_answering (server : SyncServer) (rpc : RpcServer) (fuel max_size : Nat)
    {s : Noted Bool World} (deaf : s.state.received = []) (silent : s.state.sent = []) :
    Answering rpc max_size (server.work rpc fuel) s where
  asks := Program.Calls.bind (ServerProg.handleClient_asks server rpc fuel) fun _ => trivial
  keeps := by
    apply Sat.bind
    apply (ServerProg.handleClient_inTurn deaf silent s rfl).weaken
    exact fun result s' _ s'' _ => trivial
  inTurn := by
    rw [deaf, silent]
    rfl

variable {ι : Type}

/-- No session that a worker has owes an answer to a client that is known to have reset its
connection. -/
def Considerate {n : Nat} (rpc : RpcServer) (pool : Crowd ι n) : Prop :=
  ∀ i c q, pool.threads i = some (c, q) → (pool.state.state.connection c).peer = .reset →
    ¬ rpc.Owed (pool.state.state.connection c).received (pool.state.state.connection c).sent

/-- The runs of a session whose client stays connected. The others disturb it in the files and in
the memory there is only. -/
abbrev OwnRun (max_size : Nat) (session : Program (Guarded Op Bool) (GuardedRes Res) Bool)
    (fs : FileSystem) (p : Program (Guarded Op Bool) (GuardedRes Res) Bool)
    (s : Noted Bool World) : Prop :=
  Reach ((handler (seen .connected) True).guarded max_size).exec
    (fun s s' => Untouched s.state s'.state) session (Noted.start (World.boot fs)) p s

/-- The process is alive, every session says what it owes, and those whose clients are connected
have made their own way so far. -/
structure Undisturbed {n : Nat} (rpc : RpcServer) (max_size : Nat)
    (session : Program (Guarded Op Bool) (GuardedRes Res) Bool) (fs : FileSystem)
    (pool : Crowd ι n) : Prop where
  alive : pool.state.state.terminated = false
  waiting : ∀ c ∈ pool.tasks ++ pool.taskQueue,
    Untouched (World.boot fs) (pool.state.state.view c)
  running : ∀ i c q, pool.threads i = some (c, q) →
    ∃ p : Program (Guarded Op Bool) (GuardedRes Res) Bool, q = p.tag c ∧
      Answering rpc max_size p (sight pool.state c) ∧
      ((pool.state.state.connection c).peer = .connected →
        OwnRun max_size session fs p (sight pool.state c))
  completed : ∀ c ∈ pool.completed, (pool.state.state.connection c).peer = .connected →
    ∃ verdict, OwnRun max_size session fs (.done verdict) (sight pool.state c)

section

variable [DecidableEq ι] {n max_size : Nat} {rpc : RpcServer}
  {session : Program (Guarded Op Bool) (GuardedRes Res) Bool} {fs : FileSystem}
  {drift : World → World → Prop} {clients : List ι} {pool pool' : Crowd ι n}

/-- A step that a session makes while it owes nothing to a client that has reset its connection. -/
theorem Answering.step {c : ι} {s s' : Noted Bool (ServerProcess ι)}
    {p p' : Program (Guarded Op Bool) (GuardedRes Res) Bool}
    (answering : Answering rpc max_size p (sight s c))
    (paid : (s.state.connection c).peer = .reset →
      ¬ rpc.Owed (s.state.connection c).received (s.state.connection c).sent)
    (one : Program.Step (fun op => guarded max_size (c, op)) p s p' s') :
    Apart c s.state s'.state ∧ Answering rpc max_size p' (sight s' c) ∧
      Program.Step ((handler (seen (s.state.connection c).peer) True).guarded max_size).exec p
        (sight s c) p' (sight s' c) := by
  cases p with
  | done value => exact absurd one not_step_done
  | spin => exact absurd one not_step_spin
  | fork count child join => exact answering.asks.elim
  | call op next =>
      cases one with
      | call ran =>
          rcases guarded_effect ran with ⟨⟨data, rfl⟩, reset, -⟩ | ⟨apart, own⟩
          · exact absurd answering.owed (paid reset)
          · exact ⟨apart, answering.call own, .call own⟩

omit [DecidableEq ι] in
theorem undisturbed_boot :
    Undisturbed rpc max_size session fs
      (ThreadPool.boot clients (Noted.start (boot fs)) : Crowd ι n) where
  alive := rfl
  waiting := fun c _ => .refl _
  running := by simp [ThreadPool.boot]
  completed := by simp [ThreadPool.boot]

omit [DecidableEq ι] in
/-- What changes in the process and not on the connection of a session leaves it as it is. -/
theorem Undisturbed.unmoved {state : Noted Bool (ServerProcess ι)}
    (now : Undisturbed rpc max_size session fs pool)
    (alive : state.state.terminated = pool.state.state.terminated)
    (connected : ∀ c, (state.state.connection c).peer = .connected →
      (pool.state.state.connection c).peer = .connected)
    (unmoved : ∀ c, Untouched (pool.state.state.view c) (state.state.view c)) :
    Undisturbed rpc max_size session fs { pool with state := state } where
  alive := alive.trans now.alive
  waiting := fun c member => (now.waiting c member).trans (unmoved c)
  running := by
    intro i c q held
    obtain ⟨p, rfl, answering, own⟩ := now.running i c q held
    refine ⟨p, rfl, answering.others (unmoved c), fun stays => ?_⟩
    exact (own (connected c stays)).env (unmoved c)
  completed := by
    intro c member stays
    obtain ⟨verdict, own⟩ := now.completed c member (connected c stays)
    exact ⟨verdict, own.env (unmoved c)⟩

/-- A worker's step is one of its own session, and the others are left alone. -/
theorem Undisturbed.work {c : ι}
    {q q' : Program (ι × Guarded Op Bool) (fun call => GuardedRes Res call.2) Bool}
    {state : Noted Bool (ServerProcess ι)} {i : Fin n} (sound : ThreadPool.Sound clients pool)
    (considerate : Considerate rpc pool) (now : Undisturbed rpc max_size session fs pool)
    (held : pool.threads i = some (c, q))
    (one : Program.Step (guarded max_size) q pool.state q' state) :
    Undisturbed rpc max_size session fs
      { pool with
        threads := Function.update pool.threads i (some (c, q'))
        state := state } := by
  obtain ⟨p, rfl, answering, own⟩ := now.running i c q held
  obtain ⟨p', rfl, ours⟩ := one.of_tag
  obtain ⟨apart, answering', step⟩ := answering.step (considerate i c _ held) ours
  have outside := (sound.held i c _ held).2
  have different : ∀ other ∈ pool.shelved, other ≠ c := by
    intro other member same
    exact outside (same ▸ member)
  have stayed : ∀ other, (state.state.connection other).peer = .connected →
      (pool.state.state.connection other).peer = .connected :=
    fun other connected => (apart.peers other).symm.trans connected
  exact {
    alive := apart.alive.trans now.alive
    waiting := by
      intro other member
      have away := different other (List.mem_append_left _ member)
      exact (now.waiting other member).trans (apart.others other away)
    running := by
      intro j other r found
      rcases ThreadPool.held_update found with ⟨rfl, same⟩ | ⟨elsewhere, held'⟩
      · cases same
        refine ⟨p', rfl, answering', fun connected => ?_⟩
        have before := stayed c connected
        rw [before] at step
        exact (own before).step step
      · have away : other ≠ c := by
          rintro rfl
          exact elsewhere (sound.single j i _ _ _ held' held)
        obtain ⟨p'', rfl, answering'', own'⟩ := now.running j other r held'
        refine ⟨p'', rfl, answering''.others (apart.others other away), fun connected => ?_⟩
        exact (own' (stayed other connected)).env (apart.others other away)
    completed := by
      intro other member connected
      have away := different other (List.mem_append_right _ member)
      obtain ⟨verdict, own'⟩ := now.completed other member (stayed other connected)
      exact ⟨verdict, own'.env (apart.others other away)⟩ }

theorem Undisturbed.step (sound : ThreadPool.Sound clients pool)
    (fresh : ∀ s : Noted Bool World, s.state.received = [] → s.state.sent = [] →
      Answering rpc max_size session s)
    (considerate : Considerate rpc pool) (now : Undisturbed rpc max_size session fs pool)
    (one : CrowdStep drift max_size session pool pool') :
    Undisturbed rpc max_size session fs pool' := by
  cases one with
  | leave c leaves =>
      apply now.unmoved
      · rfl
      · exact fun other => connected_of_leave leaves
      · intro other
        show Untouched _ ((pool.state.state.leave c _).view other)
        rw [view_leave]
        exact .refl _
  | drift moved => exact now.unmoved rfl (fun _ stays => stays) fun _ => ⟨rfl, rfl, rfl⟩
  | pool _ one =>
      cases one with
      | @submit task rest first =>
          refine ⟨now.alive, fun c member => now.waiting c ?_, now.running, now.completed⟩
          rw [first]
          simp only [List.mem_append, List.mem_cons, List.not_mem_nil, or_false] at member ⊢
          tauto
      | @take task rest i idle first =>
          refine ⟨now.alive, fun c member => now.waiting c ?_, ?_, now.completed⟩
          · rw [first]
            simp only [List.mem_append, List.mem_cons] at member ⊢
            tauto
          · intro j c q found
            rcases ThreadPool.held_update found with ⟨rfl, same⟩ | ⟨-, held⟩
            · cases same
              have untouched := now.waiting task (by simp [first])
              have answering := fresh (sight pool.state task) untouched.received untouched.sent
              exact ⟨session, rfl, answering, fun _ => .env .refl untouched⟩
            · exact now.running j c q held
      | work i held one => exact now.work sound considerate held one
      | @finish task verdict i held =>
          refine ⟨now.alive, now.waiting, ?_, ?_⟩
          · intro j c q found
            rcases ThreadPool.held_update found with ⟨rfl, same⟩ | ⟨-, held'⟩
            · cases same
            · exact now.running j c q held'
          · intro c member connected
            rcases List.mem_append.mp member with member | member
            · exact now.completed c member connected
            · obtain rfl := List.mem_singleton.mp member
              obtain ⟨p, same, -, own⟩ := now.running i c _ held
              obtain rfl := Program.tag_eq_done same.symm
              exact ⟨verdict, own connected⟩

omit [DecidableEq ι] in
theorem CrowdStep.sound [DecidableEq ι] (sound : ThreadPool.Sound clients pool)
    (one : CrowdStep drift max_size session pool pool') : ThreadPool.Sound clients pool' := by
  cases one with
  | pool _ one => exact sound.step one
  | leave | drift =>
      exact ⟨sound.distinct, sound.only, sound.all, sound.held, sound.single, sound.count⟩

/-- Whatever clients send in either mode, however the calls of their sessions take turns, whichever
of them close or reset their connections, and whatever is refused memory: as long as no session
owes an answer to a client that is known to have reset its connection, the process is alive, and
the session of every client that is connected waits for a worker, is at a point of a run of its
own, or has come to the end of one. -/
theorem handleClient_undisturbed (server : SyncServer) (rpc : RpcServer) (max_size fuel : Nat)
    (fs : FileSystem) (drift : World → World → Prop) (clients : List ι) (distinct : clients.Nodup)
    (pool : Crowd ι n)
    (run : Relation.ReflTransGen
      (fun pool pool' => Considerate rpc pool ∧
        CrowdStep drift max_size (server.work rpc fuel) pool pool')
      (ThreadPool.boot clients (Noted.start (boot fs))) pool) :
    pool.state.state.terminated = false ∧
      ∀ c ∈ clients, (pool.state.state.connection c).peer = .connected →
        c ∈ pool.tasks ++ pool.taskQueue ∨
        (∃ i, ∃ p : Program (Guarded Op Bool) (GuardedRes Res) Bool,
          pool.threads i = some (c, p.tag c) ∧
          OwnRun max_size (server.work rpc fuel) fs p (sight pool.state c)) ∨
        c ∈ pool.completed ∧
          ∃ verdict, OwnRun max_size (server.work rpc fuel) fs (.done verdict)
            (sight pool.state c) := by
  have kept : ThreadPool.Sound clients pool ∧
      Undisturbed rpc max_size (server.work rpc fuel) fs pool := by
    induction run with
    | refl => exact ⟨ThreadPool.sound_boot distinct _, undisturbed_boot⟩
    | tail _ one ih =>
        obtain ⟨sound, now⟩ := ih
        have fresh := fun s => @work_answering server rpc fuel max_size s
        exact ⟨one.2.sound sound, now.step sound fresh one.1 one.2⟩
  obtain ⟨sound, now⟩ := kept
  refine ⟨now.alive, fun c member connected => ?_⟩
  rcases sound.all c member with shelved | ⟨i, q, held⟩
  · rcases List.mem_append.mp shelved with waiting | completed
    · exact .inl waiting
    · exact .inr (.inr ⟨completed, now.completed c completed connected⟩)
  · obtain ⟨p, rfl, -, own⟩ := now.running i c q held
    exact .inr (.inl ⟨i, p, held, own connected⟩)

end

/-- Each of two clients has a worker. -/
def attended (first second : Program (Guarded Op Bool) (GuardedRes Res) Bool)
    (state : Noted Bool (ServerProcess Nat)) : Crowd Nat 2 where
  tasks := []
  taskQueue := []
  activeTasks := 2
  threads i := if i.val = 0 then some (0, first.tag 0) else some (1, second.tag 1)
  completed := []
  state := state

section

variable {drift : World → World → Prop} {max_size : Nat} {rpc : RpcServer}
  {session first second : Program (Guarded Op Bool) (GuardedRes Res) Bool}
  {state state' : Noted Bool (ServerProcess Nat)}

theorem threads_attended {threads : Fin 2 → Option (Nat × _)}
    (here : threads 0 = some (0, first.tag 0)) :
    Function.update threads 1 (some (1, second.tag 1)) =
      (attended first second state).threads := by
  funext i
  by_cases same : i = 1
  · subst same
    rfl
  · obtain rfl : i = 0 := by omega
    rw [Function.update_of_ne same, here]
    rfl

/-- The worker of the first client makes the next call of its session. -/
theorem attended_first {op : Guarded Op Bool} {next : GuardedRes Res op → _}
    {answer : GuardedRes Res op} (alive : state.state.terminated = false)
    (same : first = .call op next) (ran : guarded max_size (0, op) state answer state') :
    CrowdStep drift max_size session (attended first second state)
      (attended (next answer) second state') := by
  subst same
  have one : CrowdStep drift max_size session (attended (.call op next) second state) _ :=
    .pool alive (.work 0 rfl (.call ran))
  have threads : Function.update (attended (.call op next) second state).threads 0
      (some (0, (next answer).tag 0)) = (attended (next answer) second state').threads := by
    funext i
    by_cases same : i = 0
    · subst same
      rfl
    · have other : i.val ≠ 0 := fun zero => same (Fin.ext zero)
      rw [Function.update_of_ne same]
      simp only [attended, if_neg other]
  rw [threads] at one
  exact one

/-- That of the second one does. -/
theorem attended_second {op : Guarded Op Bool} {next : GuardedRes Res op → _}
    {answer : GuardedRes Res op} (alive : state.state.terminated = false)
    (same : second = .call op next) (ran : guarded max_size (1, op) state answer state') :
    CrowdStep drift max_size session (attended first second state)
      (attended first (next answer) state') := by
  subst same
  have one : CrowdStep drift max_size session (attended first (.call op next) state) _ :=
    .pool alive (.work 1 rfl (.call ran))
  have threads : Function.update (attended first (.call op next) state).threads 1
      (some (1, (next answer).tag 1)) = (attended first (next answer) state').threads :=
    threads_attended rfl
  rw [threads] at one
  exact one

theorem considerate_attended {s : ServerProcess Nat}
    (paid : ∀ c, (s.connection c).peer = .reset →
      ¬ rpc.Owed (s.connection c).received (s.connection c).sent) :
    Considerate rpc (attended first second (Noted.start s)) := by
  intro i c q _ reset
  exact paid c reset

theorem attended_run (fs : FileSystem) :
    Relation.ReflTransGen
      (fun pool pool' => Considerate rpc pool ∧ CrowdStep drift max_size session pool pool')
      (ThreadPool.boot [0, 1] (Noted.start (boot fs)))
      (attended session session (Noted.start (boot fs))) := by
  let pool : Crowd Nat 2 := ThreadPool.boot [0, 1] (Noted.start (boot fs))
  let pool₁ : Crowd Nat 2 := { pool with tasks := [1], taskQueue := [0], activeTasks := 1 }
  let pool₂ : Crowd Nat 2 := { pool with tasks := [], taskQueue := [0, 1], activeTasks := 2 }
  let pool₃ : Crowd Nat 2 :=
    { pool₂ with
      taskQueue := [1]
      threads := Function.update (fun _ => none) 0 (some (0, session.tag 0)) }
  have one : CrowdStep drift max_size session pool pool₁ := .pool rfl (.submit rfl)
  have two : CrowdStep drift max_size session pool₁ pool₂ := .pool rfl (.submit rfl)
  have three : CrowdStep drift max_size session pool₂ pool₃ := .pool rfl (.take 0 rfl rfl)
  have four : CrowdStep drift max_size session pool₃
      (attended session session (Noted.start (boot fs))) := by
    have last : CrowdStep drift max_size session pool₃ _ := .pool rfl (.take 1 rfl rfl)
    have threads : Function.update pool₃.threads 1 (some (1, session.tag 1)) =
        (attended session session (Noted.start (boot fs))).threads :=
      threads_attended rfl
    rw [threads] at last
    exact last
  have connected : ∀ pool : Crowd Nat 2, pool.state = Noted.start (boot fs) →
      Considerate rpc pool := by
    intro pool here i c q _ reset
    rw [here] at reset
    cases reset
  exact (((Relation.ReflTransGen.refl.tail ⟨connected _ rfl, one⟩).tail
    ⟨connected _ rfl, two⟩).tail ⟨connected _ rfl, three⟩).tail ⟨connected _ rfl, four⟩

/-- The first client has said in which mode it wants to speak. -/
def greeted (mode : UInt8) : ServerProcess Nat :=
  (boot FileSystem.empty).update 0 ((World.boot FileSystem.empty).got [mode])

/-- It has reset its connection. -/
def resetBy (mode : UInt8) : ServerProcess Nat := (greeted mode).leave 0 .reset

/-- The server has noticed. -/
def noticed (mode : UInt8) : ServerProcess Nat := (resetBy mode).update 0 ((resetBy mode).view 0)

/-- What a call may do, the server's process may do, unless the call ends it. -/
theorem guarded_ran {c : Nat} {s : ServerProcess Nat} {op : Op} {answer : Res op} {w : World}
    (choice : Choice) (alive : s.terminated = false) (silent : op.sends = false)
    (permitted : (s.connection c).peer.permits op choice)
    (ran : op.run choice (s.view c) = (answer, w)) :
    guarded max_size (c, .sys op) (Noted.start s) (some answer) (Noted.start (s.update c w)) := by
  refine ⟨_, ⟨alive, ?_⟩, rfl⟩
  rw [if_neg (by simp [silent])]
  exact ⟨choice, w, permitted, ran, rfl⟩

/-- A client that names its mode and resets its connection, and another one that waits. -/
theorem resetBy_run (mode : UInt8) {next : GuardedRes Res (.sys (.recv 1)) → _}
    (begins : session = .call (.sys (.recv 1)) next) :
    Relation.ReflTransGen
      (fun pool pool' => Considerate rpc pool ∧ CrowdStep drift max_size session pool pool')
      (ThreadPool.boot [0, 1] (Noted.start (boot FileSystem.empty)))
      (attended (next (some (.ok [mode]))) session (Noted.start (resetBy mode))) := by
  have heard : guarded max_size ((0 : Nat), .sys (.recv 1)) (Noted.start (boot FileSystem.empty))
      (some (.ok [mode])) (Noted.start (greeted mode)) := by
    apply guarded_ran ⟨0, .none, none, [mode]⟩ rfl rfl
    · exact ⟨Fault.noConfusion, List.cons_ne_nil _ _⟩
    · rfl
  have greeting : CrowdStep drift max_size session
      (attended session session (Noted.start (boot FileSystem.empty)))
      (attended (next (some (.ok [mode]))) session (Noted.start (greeted mode))) :=
    attended_first rfl begins heard
  have leaving : CrowdStep drift max_size session
      (attended (next (some (.ok [mode]))) session (Noted.start (greeted mode)))
      (attended (next (some (.ok [mode]))) session (Noted.start (resetBy mode))) :=
    .leave 0 .reset
  have connected : ∀ c, ((greeted mode).connection c).peer = .connected := fun c => peer_update
  refine ((attended_run FileSystem.empty).tail ⟨?_, greeting⟩).tail ⟨?_, leaving⟩
  · exact considerate_attended fun c reset => nomatch reset
  · apply considerate_attended
    intro c reset
    rw [connected c] at reset
    cases reset

/-- A client that has asked for nothing yet is owed nothing. -/
theorem not_owed_requests : ¬ rpc.Owed [1] [] := by
  rintro (⟨sync, -⟩ | ⟨-, requests, front, unpaid⟩)
  · exact absurd sync (by decide)
  · have short := front.length_le
    cases requests with
    | nil => exact absurd (unpaid [] (List.prefix_refl _)) (Nat.not_lt_zero _)
    | cons frame requests =>
        have some_ := frame.payload_pos
        simp only [List.flatMap_cons, Frame.bytes, List.length_append, List.length_nil] at short
        omega

end

/-- A client asks for the RPC mode and resets its connection. The server notices and gives it up,
and the session of the second one goes on. -/
theorem handleClient_undisturbed_noticed : ∃ pool : Crowd Nat 2,
    Relation.ReflTransGen
      (fun pool pool' => Considerate shelfServer pool ∧
        CrowdStep (fun _ _ => False) 100 (plainServer.work shelfServer 3) pool pool')
      (ThreadPool.boot [0, 1] (Noted.start (boot FileSystem.empty))) pool ∧
    (pool.state.state.connection 0).peer = .reset ∧
    (pool.state.state.connection 0).closes = 1 ∧
    (pool.state.state.connection 1).received = [0] ∧
    pool.state.state.terminated = false := by
  let session := plainServer.work shelfServer 3
  obtain ⟨next, begins, next', asks, next'', ends⟩ :
      ∃ next, session = .call (.sys (.recv 1)) next ∧
        ∃ next', next (some (.ok [1])) = .call (.sys (.recv 4)) next' ∧
          ∃ next'', next' (some .error) = .call (.sys .closeSocket) next'' :=
    ⟨_, rfl, _, rfl, _, rfl⟩
  let closed := (noticed 1).update 0
    { (noticed 1).view 0 with closes := ((noticed 1).view 0).closes + 1 }
  let later := closed.update 1 ((closed.view 1).got [0])
  have failed : guarded 100 ((0 : Nat), .sys (.recv 4)) (Noted.start (resetBy 1)) (some .error)
      (Noted.start (noticed 1)) :=
    guarded_ran ⟨0, .error, none, []⟩ rfl rfl trivial rfl
  have closing : guarded 100 ((0 : Nat), .sys .closeSocket) (Noted.start (noticed 1)) (some ())
      (Noted.start closed) :=
    guarded_ran ⟨0, .none, none, []⟩ rfl rfl trivial rfl
  have heard : guarded 100 ((1 : Nat), .sys (.recv 1)) (Noted.start closed) (some (.ok [0]))
      (Noted.start later) := by
    apply guarded_ran ⟨0, .none, none, [0]⟩ rfl rfl
    · exact ⟨Fault.noConfusion, List.cons_ne_nil _ _⟩
    · rfl
  have paid : ∀ (first second : Program (Guarded Op Bool) (GuardedRes Res) Bool)
      (s : ServerProcess Nat), (s.connection 0).received = [1] → (s.connection 0).sent = [] →
      (∀ c ≠ 0, (s.connection c).peer = .connected) →
      Considerate shelfServer (attended first second (Noted.start s)) := by
    intro first second s received sent others
    apply considerate_attended
    intro c reset
    by_cases zero : c = 0
    · rw [zero, received, sent]
      exact not_owed_requests
    · rw [others c zero] at reset
      cases reset
  have others : ∀ c ≠ 0, ((resetBy 1).connection c).peer = .connected := by
    intro c different
    simp [resetBy, leave, greeted, update, boot, different]
  have noticing : CrowdStep (fun _ _ => False) 100 session
      (attended (next (some (.ok [1]))) session (Noted.start (resetBy 1)))
      (attended (next' (some .error)) session (Noted.start (noticed 1))) :=
    attended_first rfl asks failed
  have givingUp : CrowdStep (fun _ _ => False) 100 session
      (attended (next' (some .error)) session (Noted.start (noticed 1)))
      (attended (next'' (some ())) session (Noted.start closed)) :=
    attended_first rfl ends closing
  have goingOn : CrowdStep (fun _ _ => False) 100 session
      (attended (next'' (some ())) session (Noted.start closed))
      (attended (next'' (some ())) (next (some (.ok [0]))) (Noted.start later)) :=
    attended_second rfl begins heard
  have run := (((resetBy_run 1 begins).tail ⟨paid _ _ _ rfl rfl others, noticing⟩).tail
    ⟨paid _ _ _ rfl rfl fun c different => peer_update.trans (others c different), givingUp⟩).tail
    ⟨paid _ _ _ rfl rfl fun c different =>
      peer_update.trans (peer_update.trans (others c different)), goingOn⟩
  refine ⟨_, run, rfl, rfl, rfl, ?_⟩
  exact (handleClient_undisturbed plainServer shelfServer 100 3 FileSystem.empty _ [0, 1]
    (by decide) _ run).1

/-- The first client asks for a sync and resets its connection. The server notices, says so to a
client that is gone, and the signal ends it with the second client connected and its session under
way. -/
theorem handleClient_killed : ∃ pool : Crowd Nat 2,
    Relation.ReflTransGen (CrowdStep (fun _ _ => False) 100 (plainServer.work shelfServer 3))
      (ThreadPool.boot [0, 1] (Noted.start (boot FileSystem.empty))) pool ∧
    pool.state.state.terminated = true ∧
    (pool.state.state.connection 1).peer = .connected ∧
    pool.threads 1 = some (1, (plainServer.work shelfServer 3).tag 1) := by
  let session := plainServer.work shelfServer 3
  obtain ⟨next, begins, next', asks, next'', notes, last, sends⟩ :
      ∃ next, session = .call (.sys (.recv 1)) next ∧
        ∃ next', next (some (.ok [0])) = .call (.sys (.recv 4)) next' ∧
          ∃ next'', next' (some .error) = .call (.note false) next'' ∧
            ∃ last, next'' () = .call (.sys (.send nak)) last :=
    ⟨_, rfl, _, rfl, _, rfl, _, rfl⟩
  have failed : guarded 100 ((0 : Nat), .sys (.recv 4)) (Noted.start (resetBy 0)) (some .error)
      (Noted.start (noticed 0)) :=
    guarded_ran ⟨0, .error, none, []⟩ rfl rfl trivial rfl
  let answering : Noted Bool (ServerProcess Nat) :=
    ⟨noticed 0, [], false, [(false, noticed 0)]⟩
  have noted : guarded 100 ((0 : Nat), .note false) (Noted.start (noticed 0)) () answering := rfl
  have killed : guarded 100 ((0 : Nat), .sys (.send nak)) answering (some .error)
      { answering with state := { noticed 0 with terminated := true } } := by
    refine ⟨_, ⟨rfl, ?_⟩, rfl⟩
    rw [if_pos ⟨rfl, rfl⟩]
  have noticing : CrowdStep (fun _ _ => False) 100 session
      (attended (next (some (.ok [0]))) session (Noted.start (resetBy 0)))
      (attended (next' (some .error)) session (Noted.start (noticed 0))) :=
    attended_first rfl asks failed
  have deciding : CrowdStep (fun _ _ => False) 100 session
      (attended (next' (some .error)) session (Noted.start (noticed 0)))
      (attended (next'' ()) session answering) :=
    attended_first rfl notes noted
  have telling : CrowdStep (fun _ _ => False) 100 session (attended (next'' ()) session answering)
      (attended (last (some .error)) session _) :=
    attended_first rfl sends killed
  have before := Relation.ReflTransGen.mono (fun _ _ one => And.right one) _ _
    (@resetBy_run (fun _ _ => False) 100 shelfServer session 0 next begins)
  exact ⟨_, ((before.tail noticing).tail deciding).tail telling, rfl, rfl, rfl⟩

end ServerProcess

end SyncTool
