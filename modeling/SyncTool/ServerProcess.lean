import SyncTool.ProgramTag
import SyncTool.ServerExceptions
import SyncTool.ThreadPool

set_option autoImplicit false

namespace SyncTool

open Program Throwing

/-- What is known of a client at the server's end of its connection. -/
inductive Peer where
  | connected
  | closed
  | reset
deriving DecidableEq

namespace Peer

/-- A client may close its connection or reset it, and a connection that it has closed is reset
when more is sent on it. -/
inductive Leaves : Peer → Peer → Prop where
  | close : Leaves .connected .closed
  | reset : Leaves .connected .reset
  | refuse : Leaves .closed .reset

/-- What a call on the connection may see: the end of the stream only once the client has closed
it, and an error only once the client has reset it. -/
def permits : Peer → Op → Choice → Prop
  | .connected, .recv _, choice => choice.fault ≠ .error ∧ choice.arrived ≠ []
  | .closed, .recv _, choice => choice.fault ≠ .error
  | _, _, _ => True

theorem not_leaves_connected {peer : Peer} : ¬ peer.Leaves .connected := by
  intro leaves
  cases leaves

end Peer

/-- One client's connection. -/
structure Link where
  sent : Bytes
  received : Bytes
  closes : Nat
  peer : Peer

/-- A server's process: what its threads share, the connections, and whether a signal has ended
it. -/
structure ServerProcess (ι : Type) where
  machine : World
  connection : ι → Link
  terminated : Bool

def Op.sends : Op → Bool
  | .send _ => true
  | _ => false

/-- What the accept thread gives to the pool for a client. What a session throws, the worker
catches. -/
def SyncServer.work (server : SyncServer) (rpc : RpcServer) (fuel : Nat) :
    Program (Guarded Op Bool) (GuardedRes Res) Bool :=
  (ServerProg.handleClient server rpc fuel).run >>= fun result => pure (result.toOption.getD false)

namespace ServerProcess

variable {ι : Type}

def boot (fs : FileSystem) : ServerProcess ι where
  machine := World.boot fs
  connection _ := ⟨[], [], 0, .connected⟩
  terminated := false

/-- The machine as the session of one client sees it. -/
def view (s : ServerProcess ι) (c : ι) : World :=
  { s.machine with
    sent := (s.connection c).sent
    received := (s.connection c).received
    closes := (s.connection c).closes }

section

variable [DecidableEq ι]

def update (s : ServerProcess ι) (c : ι) (w : World) : ServerProcess ι :=
  { s with
    machine := w
    connection := Function.update s.connection c ⟨w.sent, w.received, w.closes,
      (s.connection c).peer⟩ }

/-- A client leaves. -/
def leave (s : ServerProcess ι) (c : ι) (peer : Peer) : ServerProcess ι :=
  { s with connection := Function.update s.connection c { s.connection c with peer := peer } }

/-- `send` on a connection that is known to be reset raises `SIGPIPE`, which is not handled. -/
def exec (call : ι × Op) (s : ServerProcess ι) (answer : Res call.2) (s' : ServerProcess ι) :
    Prop :=
  s.terminated = false ∧
    if call.2.sends = true ∧ (s.connection call.1).peer = .reset then
      s' = { s with terminated := true }
    else ∃ choice w, (s.connection call.1).peer.permits call.2 choice ∧
      call.2.run choice (s.view call.1) = (answer, w) ∧ s' = s.update call.1 w

end

section

variable [DecidableEq ι] {n : Nat}

/-- The calls of the sessions on the process. Each of them may be refused memory. -/
def guarded (max_size : Nat) (call : ι × Guarded Op Bool) :
    Noted Bool (ServerProcess ι) → GuardedRes Res call.2 → Noted Bool (ServerProcess ι) → Prop :=
  guardedExec (fun op => exec (call.1, op)) max_size call.2

/-- A server at work on clients that may speak in either mode. -/
abbrev Crowd (ι : Type) (n : Nat) :=
  ThreadPool (ι × Guarded Op Bool) (fun call => GuardedRes Res call.2)
    (Noted Bool (ServerProcess ι)) ι n

/-- A step of the pool, a client that leaves, or another program on the machine. -/
inductive CrowdStep (drift : World → World → Prop) (max_size : Nat)
    (session : Program (Guarded Op Bool) (GuardedRes Res) Bool) : Crowd ι n → Crowd ι n → Prop where
  | pool {pool pool' : Crowd ι n} : pool.state.state.terminated = false →
      ThreadPool.Step (guarded max_size) (fun c => session.tag c) pool pool' →
      CrowdStep drift max_size session pool pool'
  | leave {pool : Crowd ι n} {peer : Peer} (c : ι) :
      (pool.state.state.connection c).peer.Leaves peer →
      CrowdStep drift max_size session pool
        { pool with state := { pool.state with state := pool.state.state.leave c peer } }
  | drift {pool : Crowd ι n} {machine : World} : drift pool.state.state.machine machine →
      CrowdStep drift max_size session pool
        { pool with state := { pool.state with
          state := { pool.state.state with machine := machine } } }

end

/-- What one session has noted, and what it sees of the machine. -/
def sight (s : Noted Bool (ServerProcess ι)) (c : ι) : Noted Bool World where
  state := s.state.view c
  requests := s.requests
  exhausted := s.exhausted
  notes := s.notes.map fun made => (made.1, made.2.view c)

/-- Nothing has happened on a session's own connection. -/
structure Untouched (w w' : World) : Prop where
  sent : w'.sent = w.sent
  received : w'.received = w.received
  closes : w'.closes = w.closes

theorem Untouched.refl (w : World) : Untouched w w := ⟨rfl, rfl, rfl⟩

theorem Untouched.trans {w₁ w₂ w₃ : World} (first : Untouched w₁ w₂) (second : Untouched w₂ w₃) :
    Untouched w₁ w₃ where
  sent := second.sent.trans first.sent
  received := second.received.trans first.received
  closes := second.closes.trans first.closes

section

variable [DecidableEq ι]

variable {s s' : ServerProcess ι} {c other : ι} {w : World}

theorem view_update_self : (s.update c w).view c = w := by
  simp [view, update]

theorem view_update_other (different : other ≠ c) :
    Untouched (s.view other) ((s.update c w).view other) := by
  constructor
  · simp [view, update, different]
  · simp [view, update, different]
  · simp [view, update, different]

theorem peer_update : ((s.update c w).connection other).peer = (s.connection other).peer := by
  by_cases same : other = c
  · subst same
    simp [update]
  · simp [update, same]

theorem view_leave {peer : Peer} : (s.leave c peer).view other = s.view other := by
  by_cases same : other = c
  · subst same
    simp [view, leave]
  · simp [view, leave, same]

/-- Who is connected after a client has left was so before. -/
theorem connected_of_leave {peer : Peer} (leaves : (s.connection c).peer.Leaves peer)
    (connected : ((s.leave c peer).connection other).peer = .connected) :
    (s.connection other).peer = .connected := by
  by_cases same : other = c
  · subst same
    simp only [leave, Function.update_self] at connected
    rw [connected] at leaves
    exact absurd leaves Peer.not_leaves_connected
  · simpa [leave, same] using connected

end

/-- The process goes on, and nothing has happened on the connections of the other sessions. -/
structure Apart (c : ι) (s s' : ServerProcess ι) : Prop where
  alive : s'.terminated = s.terminated
  peers : ∀ other, (s'.connection other).peer = (s.connection other).peer
  others : ∀ other, other ≠ c → Untouched (s.view other) (s'.view other)

theorem Apart.refl (c : ι) (s : ServerProcess ι) : Apart c s s :=
  ⟨rfl, fun _ => rfl, fun _ _ => .refl _⟩

/-- What the calls of a session may see of a client that is known as this. -/
def seen (peer : Peer) : Policy := fun op choice _ => peer.permits op choice

/-- Whatever they may see. -/
def anything : Policy := fun _ _ _ => True

theorem exec_anything {policy : Policy} {max_size : Nat} {op : Guarded Op Bool}
    {s s' : Noted Bool World} {answer : GuardedRes Res op}
    (ran : ((handler policy True).guarded max_size).exec op s answer s') :
    ((handler anything True).guarded max_size).exec op s answer s' := by
  apply guardedExec_mono _ ran
  rintro op w answer w' ⟨choice, -, ran⟩
  exact ⟨choice, trivial, ran⟩

section

variable [DecidableEq ι] {max_size : Nat} {c : ι} {s s' : Noted Bool (ServerProcess ι)}

/-- A call is a `send` that ends the process and does nothing else, or the session makes it by
itself. -/
theorem guarded_effect {op : Guarded Op Bool} {answer : GuardedRes Res op}
    (ran : guarded max_size (c, op) s answer s') :
    ((∃ data, op = .sys (.send data)) ∧ (s.state.connection c).peer = .reset ∧
      s' = { s with state := { s.state with terminated := true } }) ∨
    (Apart c s.state s'.state ∧
      ((handler (seen (s.state.connection c).peer) True).guarded max_size).exec op (sight s c)
        answer (sight s' c)) := by
  cases op with
  | alloc size =>
      obtain ⟨granted, rfl⟩ := ran
      exact .inr ⟨.refl _ _, granted, rfl⟩
  | note what =>
      obtain rfl : s' = _ := ran
      refine .inr ⟨.refl _ _, ?_⟩
      show sight _ c = _
      simp [sight]
  | sys op =>
      cases answer with
      | none =>
          obtain rfl : s' = _ := ran
          exact .inr ⟨.refl _ _, rfl⟩
      | some answer =>
          obtain ⟨process, ⟨-, outcome⟩, rfl⟩ := ran
          split at outcome
          · next reset =>
              subst outcome
              have data : ∃ data, op = .send data := by
                cases op with
                | send data => exact ⟨data, rfl⟩
                | _ => cases reset.1
              obtain ⟨data, rfl⟩ := data
              exact .inl ⟨⟨data, rfl⟩, reset.2, rfl⟩
          · obtain ⟨choice, w, permitted, ran, rfl⟩ := outcome
            refine .inr ⟨⟨rfl, fun other => peer_update, fun other => view_update_other⟩, ?_⟩
            refine ⟨w, ⟨choice, permitted, ran⟩, ?_⟩
            show sight { s with state := s.state.update c w } c = _
            rw [sight, view_update_self]
            rfl

end

end ServerProcess

end SyncTool
