import SyncTool.ClientFailures
import SyncTool.RemoteSync

set_option autoImplicit false

namespace SyncTool

open SyncTool.Path FileSync LinuxFileUtil

/-- What is left of the piece that the next byte is in, after `taken` bytes. -/
def restOf : List Bytes → Nat → Bytes
  | [], _ => []
  | piece :: pieces, taken =>
      if taken < piece.length then piece.drop taken else restOf pieces (taken - piece.length)

/-- The pieces in which a stream comes in. -/
structure Arrival where
  pieces : List Bytes
  proper : ∀ piece ∈ pieces, piece ≠ []

namespace Arrival

/-- All that arrives. -/
def stream (arrival : Arrival) : Bytes := arrival.pieces.flatten

/-- A `recv` takes from one piece, and does not fail while there is one. -/
def arrives (arrival : Arrival) : Policy
  | .recv _, choice, w =>
      choice.arrived = restOf arrival.pieces w.received.length ∧
        (restOf arrival.pieces w.received.length ≠ [] → choice.fault = .none)
  | _, _, _ => True

variable {arrival : Arrival}

theorem restOf_zero : restOf arrival.pieces 0 = arrival.pieces.headD [] := by
  obtain ⟨pieces, proper⟩ := arrival
  cases pieces with
  | nil => rfl
  | cons piece pieces =>
      have some : 0 < piece.length := List.length_pos_of_ne_nil (proper piece (by simp))
      rw [restOf, if_pos some]
      rfl

theorem head_prefix : arrival.pieces.headD [] <+: arrival.stream := by
  unfold stream
  cases arrival.pieces with
  | nil => exact List.nil_prefix
  | cons piece pieces => exact List.prefix_append _ _

/-- All three bytes come at once if the first piece holds them. -/
theorem whole_of_take (arrived : arrival.stream = ack)
    (taken : (arrival.pieces.headD []).take 3 = ack) :
    arrival.pieces = [ack] := by
  obtain ⟨pieces, proper⟩ := arrival
  cases pieces with
  | nil => cases arrived
  | cons piece pieces =>
      have all : piece ++ pieces.flatten = ack := arrived
      have first : piece.take 3 = ack := taken
      have long : 3 ≤ piece.length := by
        have length := congrArg List.length first
        rw [List.length_take] at length
        simp only [ack, List.length_cons, List.length_nil] at length
        omega
      have total := congrArg List.length all
      rw [List.length_append] at total
      simp only [ack, List.length_cons, List.length_nil] at total
      have same : piece = ack := by
        rw [← first, List.take_of_length_le (by omega)]
      have empty : pieces.flatten = [] := List.length_eq_zero_iff.mp (by omega)
      cases pieces with
      | nil => exact congrArg (fun piece => [piece]) same
      | cons next more =>
          have blank := (List.append_eq_nil_iff.mp empty).1
          exact absurd blank (proper next (by simp))

end Arrival

/-- A client that no call has failed: it has not read yet, or has read what came first. -/
inductive Stage (arrival : Arrival) : Prog Bool → World → Prop where
  | sending {p : Prog Bool} {w : World} : Expects p → w.received = [] → Stage arrival p w
  | measuring {path : Bytes} {measured : Nat → Prog Bool} {w : World} :
      (∀ size, Expects (measured size)) → w.received = [] →
      Stage arrival (.call (.seekEnd path) measured) w
  | closing {data : Bytes} {w : World} : w.received = data →
      data = (arrival.pieces.headD []).take 3 →
      Stage arrival (.call .closeSocket fun _ => .done (data == ack)) w
  | closed {data : Bytes} {w : World} : w.received = data →
      data = (arrival.pieces.headD []).take 3 → Stage arrival (.done (data == ack)) w

section

variable {policy : Policy} {arrival : Arrival} {p p' : Prog Bool} {w w' : World}

theorem Stage.env (stage : Stage arrival p w) (same : w'.received = w.received) :
    Stage arrival p w' := by
  cases stage with
  | sending expects deaf => exact .sending expects (same.trans deaf)
  | measuring expects deaf => exact .measuring expects (same.trans deaf)
  | closing heard all => exact .closing (same.trans heard) all
  | closed heard all => exact .closed (same.trans heard) all

theorem Stage.fails (stage : Stage arrival p w) (fails : Fails p p') : Fruitless p' := by
  cases stage with
  | measuring expects deaf => cases fails
  | closing heard all => cases fails
  | closed heard all => cases fails
  | sending expects deaf =>
      cases fails with
      | connect =>
          cases expects with
          | connect rest lost => exact lost
          | aside apart rest => exact apart.elim
      | send =>
          cases expects with
          | send rest interrupted lost => exact lost
          | aside apart rest => exact apart.elim
      | interrupted =>
          cases expects with
          | send rest interrupted lost => exact interrupted
          | aside apart rest => exact apart.elim
      | openIn measures =>
          cases expects with
          | measure measured rest lost => exact lost
          | aside apart rest =>
              have later := rest true
              rw [measures] at later
              cases later with
              | aside apart rest => exact apart.elim

/-- What is read is what came first. -/
theorem Stage.receive (arriving : ∀ op choice w, policy op choice w → arrival.arrives op choice w)
    {next : Io Bytes → Prog Bool} {answer : Io Bytes}
    (ok : ∀ data, next (.ok data) = .call .closeSocket fun _ => .done (data == ack))
    (eintr : next .eintr = .call .closeSocket fun _ => .done false)
    (error : next .error = .call .closeSocket fun _ => .done false) (deaf : w.received = [])
    (ran : (handler policy True).exec (.recv 3) w answer w') : Stage arrival (next answer) w' := by
  obtain ⟨choice, allowed, ran⟩ := ran
  obtain ⟨arrived, whole⟩ := arriving _ _ _ allowed
  rw [deaf, List.length_nil, Arrival.restOf_zero] at arrived whole
  have none_ : choice.fault ≠ .none → ([] : Bytes) = (arrival.pieces.headD []).take 3 := by
    intro fault
    have empty : arrival.pieces.headD [] = [] := by
      by_contra some_
      exact fault (whole some_)
    rw [empty]
    rfl
  cases fault : choice.fault with
  | none =>
      simp only [Op.run, fault, arrived, deaf, List.nil_append, Prod.mk.injEq] at ran
      obtain ⟨rfl, rfl⟩ := ran
      rw [ok]
      exact .closing rfl rfl
  | eintr =>
      simp only [Op.run, fault, Prod.mk.injEq] at ran
      obtain ⟨rfl, rfl⟩ := ran
      rw [eintr]
      exact .closing deaf (none_ (by rw [fault]; exact Fault.noConfusion))
  | error =>
      simp only [Op.run, fault, Prod.mk.injEq] at ran
      obtain ⟨rfl, rfl⟩ := ran
      rw [error]
      exact .closing deaf (none_ (by rw [fault]; exact Fault.noConfusion))

theorem Stage.step (arriving : ∀ op choice w, policy op choice w → arrival.arrives op choice w)
    (stage : Stage arrival p w) (one : Program.Step (handler policy True).exec p w p' w') :
    Fails p p' ∨ Stage arrival p' w' := by
  have still : ∀ {op : Op} {w₁ w₂ : World} {answer : Res op},
      (handler policy True).exec op w₁ answer w₂ → op.deaf → w₂.received = w₁.received := by
    rintro op w₁ w₂ answer ⟨choice, -, ran⟩ deaf
    have same := run_deaf deaf choice w₁
    rwa [ran] at same
  cases stage with
  | measuring expects deaf =>
      cases one with
      | call ran => exact .inr (.sending (expects _) ((still ran trivial).trans deaf))
  | closing heard all =>
      cases one with
      | call ran => exact .inr (.closed ((still ran trivial).trans heard) all)
  | closed heard all => exact absurd one Program.not_step_done
  | sending expects deaf =>
      cases expects with
      | spin => exact absurd one Program.not_step_spin
      | receive ok eintr error =>
          cases one with
          | call ran => exact .inr (.receive arriving ok eintr error deaf ran)
      | @connect next rest lost =>
          cases one with
          | @call _ _ _ _ _ connected ran =>
              cases connected with
              | false => exact .inl .connect
              | true => exact .inr (.sending rest ((still ran trivial).trans deaf))
      | send rest interrupted lost =>
          cases one with
          | @call _ _ _ _ _ sent ran =>
              cases sent with
              | ok count =>
                  exact .inr (.sending (rest count) ((still ran trivial).trans deaf))
              | eintr => exact .inl .interrupted
              | error => exact .inl .send
      | measure measured rest lost =>
          cases one with
          | @call _ _ _ _ _ opened ran =>
              cases opened with
              | false => exact .inl (.openIn measured)
              | true =>
                  rw [measured]
                  exact .inr (.measuring rest ((still ran trivial).trans deaf))
      | aside apart rest =>
          cases one with
          | call ran =>
              have same := still ran (apart_deaf _ apart)
              exact .inr (.sending (rest _) (same.trans deaf))
      | fork all rest =>
          cases one with
          | @child _ count child _ _ _ i q one =>
              let unheard : World → Prop := fun w => w.received = []
              have kept : ∀ op w₁ answer w₂, Op.deaf op → unheard w₁ →
                  (handler policy True).exec op w₁ answer w₂ → unheard w₂ :=
                fun op w₁ answer w₂ quiet now ran => (still ran quiet).trans now
              obtain ⟨later, deaf'⟩ := Program.All.step kept (all i) deaf one
              refine .inr (.sending (.fork (fun j => ?_) rest) deaf')
              by_cases same : j = i
              · subst same
                rwa [Function.update_self]
              · rw [Function.update_of_ne same]
                exact all j
          | join verdicts ended => exact .inr (.sending (rest verdicts) deaf)

/-- On the way to where it is, a call that the client needs has failed. -/
def Hindered (drift : World → World → Prop) (policy : Policy) (client : Prog Bool) (w : World)
    (p : Prog Bool) (w' : World) : Prop :=
  ∃ p₁ w₁ p₂ w₂, Program.Reach (handler policy True).exec drift client w p₁ w₁ ∧
    Program.Step (handler policy True).exec p₁ w₁ p₂ w₂ ∧ Fails p₁ p₂ ∧
    Program.Reach (handler policy True).exec drift p₂ w₂ p w'

variable {drift : World → World → Prop} {client : Prog Bool}

theorem stage_of_reach (gentle : ∀ w w', drift w w' → Aside w w')
    (arriving : ∀ op choice w, policy op choice w → arrival.arrives op choice w)
    (expects : Expects client) (deaf : w.received = [])
    (run : Program.Reach (handler policy True).exec drift client w p w') :
    Hindered drift policy client w p w' ∨ Stage arrival p w' := by
  induction run with
  | refl => exact .inr (.sending expects deaf)
  | step before one ih =>
      rcases ih with ⟨p₁, w₁, p₂, w₂, run, failed, fails, after⟩ | stage
      · exact .inl ⟨p₁, w₁, p₂, w₂, run, failed, fails, after.step one⟩
      · rcases stage.step arriving one with fails | stage
        · exact .inl ⟨_, _, _, _, before, one, fails, .refl⟩
        · exact .inr stage
  | env _ moved ih =>
      rcases ih with ⟨p₁, w₁, p₂, w₂, run, failed, fails, after⟩ | stage
      · exact .inl ⟨p₁, w₁, p₂, w₂, run, failed, fails, after.env moved⟩
      · exact .inr (stage.env (gentle _ _ moved).2)

/-- Nothing but a failure comes of a client that a call has failed. -/
theorem Hindered.fruitless (gentle : ∀ w w', drift w w' → Aside w w')
    (arriving : ∀ op choice w, policy op choice w → arrival.arrives op choice w)
    (expects : Expects client) (deaf : w.received = [])
    (hindered : Hindered drift policy client w p w') : Fruitless p := by
  have all : ∀ p₁ w₁, Program.Reach (handler policy True).exec drift client w p₁ w₁ →
      Fruitless p₁ ∨ Stage arrival p₁ w₁ := by
    intro p₁ w₁ run
    induction run with
    | refl => exact .inr (.sending expects deaf)
    | step _ one ih =>
        rcases ih with fruitless | stage
        · exact .inl (fruitless.step one)
        · rcases stage.step arriving one with fails | later
          · exact .inl (stage.fails fails)
          · exact .inr later
    | env _ moved ih => exact ih.imp id fun stage => stage.env (gentle _ _ moved).2
  obtain ⟨p₁, w₁, p₂, w₂, run, one, fails, after⟩ := hindered
  have fruitless : Fruitless p₂ := by
    rcases all p₁ w₁ run with fruitless | stage
    · exact fruitless.step one
    · exact stage.fails fails
  exact fruitless.reach after

end

section

variable {self : FileSync} {fuel fuel' : Nat} {policy policy' : Policy} {arrival : Arrival}
  {w : World} {server : SyncServer} {fs : FileSystem} {drift : World → World → Prop}
  {now : Pair Op Res World Bool Bool}

/-- The server has reported success, and all three bytes of that come to the client. -/
structure Reached (arrival : Arrival) (now : Pair Op Res World Bool Bool) : Prop where
  confirmed : now.right = .done true
  arrived : arrival.stream = ack

/-- The client takes an acknowledgement for what it is. -/
structure Recognised (arrival : Arrival) (now : Pair Op Res World Bool Bool) : Prop where
  success : Reached arrival now → now.left = .done true
  failure : nak <+: now.there.sent ∨ arrival.stream.length < 3 → now.left = .done false

/-- At the end of any session, the client has recognised its acknowledgement if and only if that
came in one piece and no call that the client needs had failed. -/
theorem syncRemote_recognised_iff (gentle : ∀ w w', drift w w' → Aside w w')
    (arriving : ∀ op choice w, policy op choice w → arrival.arrives op choice w)
    (direct : ∀ sending, self.asyncIOHandler = some sending →
      ∀ srcPath, (sending srcPath).All Op.apart)
    {srcDir destDir : Bytes} {resume : Bool} (deaf : w.received = [])
    (session : Exchange drift policy policy'
      (syncRemote self server.abi fuel' srcDir destDir resume) w server fuel fs now)
    {verdict : Bool} (returned : now.left = .done verdict) :
    Recognised arrival now ↔
      (Reached arrival now → arrival.pieces = [ack] ∧
        ¬ Hindered drift policy (syncRemote self server.abi fuel' srcDir destDir resume) w
          now.left now.here) := by
  have expects := @syncRemote_expects self server.abi fuel' direct srcDir destDir resume
  have left := Pair.left_reach session
  have start : Linked w (World.boot fs) := by
    refine ⟨List.nil_prefix, ?_⟩
    rw [Heard, deaf]
    exact List.nil_prefix
  have heard : now.here.received <+: now.there.sent := (Pair.linked_of_run start session).2
  have refused : Hindered drift policy (syncRemote self server.abi fuel' srcDir destDir resume) w
      now.left now.here → verdict = false := by
    intro hindered
    have fruitless := hindered.fruitless gentle arriving expects deaf
    rw [returned] at fruitless
    exact fruitless
  have judged : Hindered drift policy (syncRemote self server.abi fuel' srcDir destDir resume) w
      now.left now.here ∨
      now.here.received = (arrival.pieces.headD []).take 3 ∧
        verdict = (now.here.received == ack) := by
    rcases stage_of_reach gentle arriving expects deaf left with hindered | stage
    · exact .inl hindered
    · rw [returned] at stage
      cases stage with
      | sending expects deaf => cases expects
      | closed same all => exact .inr ⟨same.trans all, by rw [same]⟩
  constructor
  · intro recognised reached
    have success := recognised.success reached
    rw [returned] at success
    cases success
    rcases judged with hindered | ⟨first, whole⟩
    · cases refused hindered
    · refine ⟨?_, fun hindered => by cases refused hindered⟩
      apply Arrival.whole_of_take reached.arrived
      rw [← first]
      exact beq_iff_eq.mp whole.symm
  · intro condition
    constructor
    · intro reached
      obtain ⟨whole, free⟩ := condition reached
      obtain ⟨first, judged⟩ := judged.resolve_left free
      rw [returned, judged, first, whole]
      rfl
    · intro nothing
      rw [returned]
      rcases judged with hindered | ⟨first, judged⟩
      · rw [refused hindered]
      · have other : now.here.received ≠ ack := by
          intro same
          rcases nothing with nakked | short
          · rw [same] at heard
            have equal := List.prefix_of_prefix_length_le heard nakked (Nat.le_refl 3)
            exact absurd equal (by decide)
          · have bound := arrival.head_prefix.length_le
            have length := congrArg List.length (first.symm.trans same)
            rw [List.length_take] at length
            simp only [ack, List.length_cons, List.length_nil] at length
            omega
        rw [judged, beq_eq_false_iff_ne.mpr other]

end

/-- `/s` is empty. -/
def bareFs : FileSystem := FileSystem.empty.put [[115]] (.dir 4096 0o755 0)

def Arrival.coming (arrival : Arrival) (op : Op) (w : World) : Res op × World :=
  op.run ⟨0, .none, none, restOf arrival.pieces w.received.length⟩ w

theorem Arrival.coming_arrives (arrival : Arrival) (op : Op) (w : World) :
    (handler arrival.arrives True).exec op w (arrival.coming op w).1 (arrival.coming op w).2 := by
  refine ⟨_, ?_, rfl⟩
  cases op with
  | recv count => exact ⟨rfl, fun _ => rfl⟩
  | _ => trivial

def bareSession (arrival : Arrival) (calls : Nat) :
    Option ((Prog Bool × World) × (Prog Bool × World) × (Prog Bool × World)) := do
  let r₁ ← Program.playOn arrival.coming (fun _ _ => true)
    (syncRemote plainSync plainAbi 4 [47, 115] [47, 100] false) (World.boot bareFs) calls
  let r₂ ← Program.playOn (feeding r₁.2.sent) (fun _ _ => true) (plainServer.handleClient 60)
    (World.boot FileSystem.empty) 200
  let r₃ ← Program.playOn arrival.coming (fun _ _ => true) r₁.1 r₁.2 10
  return (r₁, r₂, r₃)

theorem bare_session {calls : Nat} {verdict : Bool} (arrival : Arrival)
    (played : (bareSession arrival calls).any (fun r =>
      decide (r.1.2.received = []) && r.2.1.2.received.isPrefixOf r.1.2.sent &&
      r.2.2.2.received.isPrefixOf r.2.1.2.sent && decide (r.2.1.1.value? = some true) &&
      decide (r.2.2.1.value? = some verdict)) = true) :
    ∃ now, Exchange Aside arrival.arrives (fun _ _ _ => True)
        (syncRemote plainSync plainAbi 4 [47, 115] [47, 100] false)
          (World.boot bareFs) plainServer 60
        FileSystem.empty now ∧
      now.left = .done verdict ∧ now.right = .done true := by
  obtain ⟨⟨r₁, r₂, r₃⟩, session, holds⟩ := (Option.any_eq_true _ _).mp played
  simp only [Bool.and_eq_true, decide_eq_true_eq, List.isPrefixOf_iff_prefix,
    Program.value?_eq_some] at holds
  obtain ⟨⟨⟨⟨unheard, said⟩, heard⟩, confirmed⟩, returned⟩ := holds
  simp only [bareSession, Option.bind_eq_bind, Option.bind_eq_some_iff] at session
  obtain ⟨s₁, run₁, s₂, run₂, s₃, run₃, same⟩ := session
  cases same
  refine ⟨⟨r₃.1, r₃.2, r₂.1, r₂.2⟩, ?_, returned, confirmed⟩
  have asked := Program.playOn_reach Eq (fun op w _ => arrival.coming_arrives op w) run₁
  have answered : Program.Reach (handler (fun _ _ _ => True) True).exec Eq _ _ _ _ :=
    reach_of_feeding (fun _ _ _ _ => trivial) _ run₂
  have ended := Program.playOn_reach Eq (fun op w _ => arrival.coming_arrives op w) run₃
  obtain ⟨first, -⟩ := Exchange.left .refl asked List.nil_prefix
    (by rw [unheard]; exact List.nil_prefix)
  obtain ⟨second, -⟩ := first.right answered said (by rw [unheard]; exact List.nil_prefix)
  exact (second.left ended said heard).1

/-- All three bytes at once. -/
def promptly : Arrival := ⟨[ack], by decide⟩

/-- The first byte for itself, and the other two after it. -/
def piecemeal : Arrival := ⟨[[65], [67, 75]], by decide⟩

theorem syncRemote_recognised_iff_promptly : ∃ now,
    Exchange Aside promptly.arrives (fun _ _ _ => True)
      (syncRemote plainSync plainAbi 4 [47, 115] [47, 100] false) (World.boot bareFs) plainServer 60
      FileSystem.empty now ∧
    Reached promptly now ∧
    now.left = .done true ∧
    (Recognised promptly now ↔ (Reached promptly now → promptly.pieces = [ack] ∧
      ¬ Hindered Aside promptly.arrives (syncRemote plainSync plainAbi 4 [47, 115] [47, 100] false)
        (World.boot bareFs) now.left now.here)) := by
  obtain ⟨now, session, returned, confirmed⟩ := @bare_session 5 true promptly (by decide +kernel)
  have direct : ∀ sending, plainSync.asyncIOHandler = some sending →
      ∀ srcPath, (sending srcPath).All Op.apart := by
    intro sending running
    cases running
  exact ⟨now, session, ⟨confirmed, rfl⟩, returned,
    @syncRemote_recognised_iff plainSync 60 4 promptly.arrives
    (fun _ _ _ => True) promptly (World.boot bareFs) plainServer FileSystem.empty Aside now
    (fun _ _ moved => moved) (fun _ _ _ allowed => allowed) direct [47, 115]
      [47, 100] false rfl session
    true returned⟩

/-- The server reports success, and the client a failure. -/
theorem syncRemote_unrecognised : ∃ now,
    Exchange Aside piecemeal.arrives (fun _ _ _ => True)
      (syncRemote plainSync plainAbi 4 [47, 115] [47, 100] false) (World.boot bareFs) plainServer 60
      FileSystem.empty now ∧
    Reached piecemeal now ∧ now.left = .done false ∧ ¬ Recognised piecemeal now := by
  obtain ⟨now, session, returned, confirmed⟩ := @bare_session 5 false piecemeal (by decide +kernel)
  have reached : Reached piecemeal now := ⟨confirmed, rfl⟩
  refine ⟨now, session, reached, returned, fun recognised => ?_⟩
  have success := recognised.success reached
  rw [returned] at success
  cases success

end SyncTool
