import SyncTool.ProgramUphold
import SyncTool.RpcFraming

set_option autoImplicit false

namespace SyncTool

open Throwing

section

variable {policy : Policy} {P : Bytes → Bytes → Prop} {w : World} {max_size : Nat}

/-- A part of a program that hears `size` bytes. -/
theorem Receives.upholds {ok : Op → Prop} {p : Prog (Option Bytes)} {size : Nat}
    (straight : p.Calls ok) (receives : Receives policy P p size) :
    Upholds (handler policy True) max_size (dialogue P) (system p : ServerProg (Option Bytes))
      (fun out w' => w'.sent = w.sent ∧ ∃ data, w'.received = w.received ++ data ∧
        ∀ bytes, out = some bytes → bytes = data ∧ data.length = size) w :=
  upholds_system straight (receives w)

theorem closeSocket_upholds {α : Type} (value : α) :
    Upholds (handler policy True) max_size (dialogue P)
      (do
        system Sys.closeSocket
        pure value : ServerProg α)
      (fun out w' => out = value ∧ w'.received = w.received ∧ w'.sent = w.sent) w := by
  have straight : (Sys.closeSocket).Calls fun _ => True := Program.calls_ask.mpr trivial
  have closed : Program.Sat (handler policy True) (dialogue P) Sys.closeSocket
      (fun _ w' => w'.received = w.received ∧ w'.sent = w.sent) w := by
    refine Program.sat_op.mpr fun w' drift choice _ => ?_
    refine ⟨⟨fun h => h, rfl⟩, ?_⟩
    intro w'' drift'
    exact ⟨drift'.2.trans drift.2, drift'.1.trans drift.1⟩
  apply Upholds.bind
  apply (upholds_system straight closed).weaken
  intro _ w' after
  apply upholds_pure
  intro w'' drift
  exact ⟨rfl, drift.2.trans after.1, drift.1.trans after.2⟩

end

namespace RpcServer

section

variable {policy : Policy} {P : Bytes → Bytes → Prop} {rpc : RpcServer}
  {fuel max_size : Nat} {w : World}

theorem recvUint32_receives (hears : Hears P) :
    Program.Sat (handler policy True) (dialogue P) (rpc.recvUint32 fuel)
      (fun out w' => w'.sent = w.sent ∧ ∃ data, w'.received = w.received ++ data ∧
        ∀ value, out = some value → value = rpc.abi.decode data ∧ data.length = 4) w := by
  apply Program.Sat.bind
  apply ((receiveLoop 4).receives hears fuel w).weaken
  intro out w' after
  obtain ⟨said, data, heard, whole⟩ := after
  intro w'' drift
  refine ⟨drift.1.trans said, data, drift.2.trans heard, ?_⟩
  intro value same
  obtain ⟨bytes, got, rfl⟩ := Option.map_eq_some_iff.mp same
  obtain ⟨rfl, four⟩ := whole bytes got
  exact ⟨rfl, four⟩

/-- What is heard of a request is the frame it came in. -/
theorem receiveRequest_upholds (hears : Hears P) :
    Upholds (handler policy True) max_size (dialogue P) (ServerProg.receiveRequest rpc fuel)
      (fun out w' => w'.sent = w.sent ∧ ∃ data, w'.received = w.received ++ data ∧
        ∀ request, out = some request → ∃ frame : Frame rpc, frame.request = request ∧
        data = frame.bytes)
      w := by
  have nothing : ∀ (data : Bytes) (w' : World), w'.sent = w.sent →
      w'.received = w.received ++ data →
      Upholds (handler policy True) max_size (dialogue P)
        (pure none : ServerProg (Option RpcRequest))
        (fun out w' => w'.sent = w.sent ∧ ∃ data, w'.received = w.received ++ data ∧
          ∀ request, out = some request → ∃ frame : Frame rpc, frame.request = request ∧
            data = frame.bytes)
        w' := by
    intro data w' said heard
    apply upholds_pure
    intro w'' drift
    exact ⟨drift.1.trans said, data, drift.2.trans heard, by simp⟩
  apply Upholds.bind
  apply (upholds_system (recvUint32_works rpc fuel) (recvUint32_receives hears)).weaken
  intro type w₁ after
  obtain ⟨said₁, word, heard₁, typed⟩ := after
  cases type with
  | none => exact nothing word w₁ said₁ heard₁
  | some type =>
      obtain ⟨-, four⟩ := typed type rfl
      apply Upholds.bind
      apply (upholds_system (recvUint32_works rpc fuel) (recvUint32_receives hears)).weaken
      intro payloadLen w₂ after
      obtain ⟨said₂, length, heard₂, measured⟩ := after
      have said₂' := said₂.trans said₁
      have heard₂' : w₂.received = w.received ++ (word ++ length) := by
        rw [heard₂, heard₁, List.append_assoc]
      cases payloadLen with
      | none => exact nothing _ w₂ said₂' heard₂'
      | some payloadLen =>
          obtain ⟨rfl, four'⟩ := measured payloadLen rfl
          apply Upholds.ite
          · exact fun _ => nothing _ w₂ said₂' heard₂'
          · intro positive
            apply upholds_allocate
            apply Upholds.bind
            apply (Receives.upholds (recvAll_works _ _ _)
              ((receiveLoop _).receives hears fuel)).weaken
            intro payload w₃ after
            obtain ⟨said₃, data, heard₃, whole⟩ := after
            apply upholds_pure
            intro w₄ drift
            refine ⟨drift.1.trans (said₃.trans said₂'), word ++ (length ++ data), ?_, ?_⟩
            · rw [drift.2, heard₃, heard₂']
              simp only [List.append_assoc]
            · intro request parsed
              obtain ⟨bytes, got, parses⟩ := Option.bind_eq_some_iff.mp parsed
              obtain ⟨rfl, full⟩ := whole bytes got
              have small := rpc.abi.decode_lt length
              rw [four'] at small
              have type_lt := rpc.abi.decode_lt word
              rw [four] at type_lt
              let frame : Frame rpc :=
                ⟨rpc.abi.decode word, bytes, request, type_lt, by omega, by omega, parses⟩
              refine ⟨frame, rfl, ?_⟩
              have worded : rpc.abi.encode 4 (rpc.abi.decode word : Nat) = word := by
                have back := rpc.abi.encode_decode word
                rwa [four] at back
              have lengthed : rpc.abi.encode 4 (bytes.length : Nat) = length := by
                have back := rpc.abi.encode_decode length
                rw [four'] at back
                rw [full, back]
              show _ = rpc.abi.encode 4 (rpc.abi.decode word : Nat) ++
                (rpc.abi.encode 4 (bytes.length : Nat) ++ bytes)
              rw [worded, lengthed]

/-- What is said of a reply is a beginning of it. -/
theorem sendFrame_sends (type : Nat) {body : Bytes} (small : body.length < 2 ^ 31) :
    Sends policy P (rpc.sendFrame fuel type body)
      (rpc.abi.encode 4 type ++ (rpc.abi.encode 4 body.length ++ body)) := by
  have whole : body.take (body.length % 256 ^ 4) = body := by
    apply List.take_of_length_le
    omega
  have tells : ∀ data, Sends policy P (sendAll data fuel 0) data :=
    fun data => (sendLoop data).sends fuel
  unfold sendFrame
  rw [whole]
  exact (tells _).andThen ((tells _).andThen (tells body))

theorem sendResponse_upholds (reply : Reply rpc) (small : reply.body.length < 2 ^ 31)
    (may : ∀ part, part <+: reply.bytes → P w.received (w.sent ++ part)) :
    Upholds (handler policy True) max_size (dialogue P)
      (ServerProg.sendResponse rpc fuel reply.response) (fun ok w' => w'.received = w.received ∧
        ∃ part, part <+: reply.bytes ∧ w'.sent = w.sent ++ part ∧
        (ok = true → part = reply.bytes)) w := by
  unfold ServerProg.sendResponse
  rw [reply.serialized]
  exact upholds_system (sendFrame_serves rpc fuel _ _)
    (sendFrame_sends reply.response.type small w may)

/-- While a request is handled, nothing is said and nothing is heard. -/
theorem respond_upholds (request : RpcRequest) :
    Upholds (handler policy True) max_size (dialogue P)
      (system (rpc.respond fuel request) : ServerProg RpcResponse)
      (fun _ w' => w'.received = w.received ∧ w'.sent = w.sent) w := by
  apply upholds_system (respond_looks rpc fuel request)
  apply (respond_looks rpc fuel request).all.sat (fun w' : World => w'.received = w.received ∧
    w'.sent = w.sent) ⟨rfl, rfl⟩
  · intro w₁ w₂ drift now
    exact ⟨drift.2.trans now.1, drift.1.trans now.2⟩
  · intro op w₁ answer w₂ looks now ran
    obtain ⟨choice, -, ran⟩ := ran
    have still := run_looks looks choice w₁
    rw [ran] at still
    subst still
    exact ⟨⟨fun h => h, rfl⟩, now⟩
  · trivial

end

/-- Whatever holds of the files at first, and is kept by others, holds of them in the end. -/
def FilesKept (drift : World → World → Prop) (w w' : World) : Prop :=
  ∀ Inv : FileSystem → Prop, (∀ w₁ w₂ : World, drift w₁ w₂ → Inv w₁.fs → Inv w₂.fs) →
    Inv w.fs → Inv w'.fs

theorem FilesKept.trans {drift : World → World → Prop} {w₁ w₂ w₃ : World}
    (first : FilesKept drift w₁ w₂) (second : FilesKept drift w₂ w₃) : FilesKept drift w₁ w₃ :=
  fun Inv kept start => second Inv kept (first Inv kept start)

/-- A run of a session in surroundings that move by `drift`. -/
abbrev Serving (drift : World → World → Prop) (policy : Policy) (max_size : Nat)
    (p : ServerProg Bool) (s : Noted Bool World)
    (q : Program (Guarded Op Bool) (GuardedRes Res) (Except Thrown Bool)) (s' : Noted Bool World) :
    Prop :=
  Program.Reach ((handler policy True).guarded max_size).exec
    (fun s s' => drift s.state s'.state) p.run s q s'

/-- On its way from `s` to `s'` the session, having heard just `heard` and changed no file, came to
handle `request`, and `response` is what the handlers returned. -/
def Turn (drift : World → World → Prop) (policy : Policy) (max_size : Nat) (rpc : RpcServer)
    (fuel : Nat) (p : ServerProg Bool) (s : Noted Bool World)
    (q : Program (Guarded Op Bool) (GuardedRes Res) (Except Thrown Bool)) (s' : Noted Bool World)
    (heard : Bytes) (request : RpcRequest) (response : RpcResponse) : Prop :=
  ∃ (next : RpcResponse → ServerProg Bool) (s₁ s₂ : Noted Bool World),
    Serving drift policy max_size p s (system (rpc.respond fuel request) >>= next).run s₁ ∧
    s₁.state.received = heard ∧ FilesKept drift s.state s₁.state ∧
    Program.Reach (handler policy True).exec drift (rpc.respond fuel request) s₁.state
      (.done response) s₂.state ∧
    Serving drift policy max_size (next response) s₂ q s'

/-- A request that was read, and the reply to it. -/
structure Trade (rpc : RpcServer) where
  frame : Frame rpc
  reply : Reply rpc

section

variable {drift : World → World → Prop} {policy : Policy} {rpc : RpcServer} {fuel max_size : Nat}
  {p p' : ServerProg Bool} {s s' s₁ : Noted Bool World}
  {q : Program (Guarded Op Bool) (GuardedRes Res) (Except Thrown Bool)} {heard : Bytes}
  {request : RpcRequest} {response : RpcResponse}

theorem Turn.after (turn : Turn drift policy max_size rpc fuel p' s₁ q s' heard request response)
    (before : Serving drift policy max_size p s p'.run s₁)
    (files : FilesKept drift s.state s₁.state) :
    Turn drift policy max_size rpc fuel p s q s' heard request response := by
  obtain ⟨next, s₂, s₃, first, here, kept, rest⟩ := turn
  exact ⟨next, s₂, s₃, before.trans first, here, files.trans kept, rest⟩

/-- What a session has heard, said and made of it since `s`. -/
structure Traded (drift : World → World → Prop) (policy : Policy) (max_size : Nat) (rpc : RpcServer)
    (fuel : Nat) (p : ServerProg Bool) (s : Noted Bool World)
    (q : Program (Guarded Op Bool) (GuardedRes Res) (Except Thrown Bool)) (s' : Noted Bool World)
    (trades : List (Trade rpc)) : Prop where
  heard : s.state.received ++ trades.flatMap (fun trade => trade.frame.bytes) <+: s'.state.received
  said : s'.state.sent <+: s.state.sent ++ trades.flatMap (fun trade => trade.reply.bytes)
  turns : ∀ first trade later, trades = first ++ trade :: later →
    Turn drift policy max_size rpc fuel p s q s'
      (s.state.received ++ (first ++ [trade]).flatMap (fun trade => trade.frame.bytes))
      trade.frame.request trade.reply.response

/-- A part of a session changes no file. -/
theorem filesKept_of_upholds {α : Type} {part : ServerProg α} {P : Bytes → Bytes → Prop}
    {q' : Program (Guarded Op Bool) (GuardedRes Res) (Except Thrown α)} {Q : α → World → Prop}
    (quiet : ∀ w w', drift w w' → Aside w w')
    (holds : Upholds (handler policy True) max_size (dialogue P) part Q s.state)
    (run : Program.Reach ((handler policy True).guarded max_size).exec
      (fun s s' => drift s.state s'.state) part.run s q' s') :
        FilesKept drift s.state s'.state := by
  intro Inv kept start
  apply holds.invariant (fun w : World => Inv w.fs) start quiet kept _ run
  intro w w' promised now
  rw [promised.2]
  exact now

/-- Where a run stays within a part that says nothing. -/
theorem traded_nil {α : Type} {part : ServerProg α}
    {q' : Program (Guarded Op Bool) (GuardedRes Res) (Except Thrown α)} {Q : α → World → Prop}
    (quiet : ∀ w w', drift w w' → Aside w w')
    (said : s.state.sent = s₁.state.sent) (heard : s.state.received <+: s₁.state.received)
    (holds : Upholds (handler policy True) max_size
      (dialogue fun heard said => s.state.received <+: heard ∧ said = s.state.sent) part Q s₁.state)
    (run : Program.Reach ((handler policy True).guarded max_size).exec
      (fun s s' => drift s.state s'.state) part.run s₁ q' s') :
    Traded drift policy max_size rpc fuel p s q s' [] := by
  have kept := holds.invariant (fun w : World => s.state.received <+: w.received ∧
    w.sent = s.state.sent) ⟨heard, said.symm⟩ quiet
    (fun w w' moved now => ⟨by rw [(quiet _ _ moved).2]; exact now.1,
      (quiet _ _ moved).1.trans now.2⟩)
    (fun w w' promised => promised.1) run
  constructor
  · rw [List.flatMap_nil, List.append_nil]
    exact kept.1
  · rw [List.flatMap_nil, List.append_nil, kept.2]
  · intro first trade later same
    cases first <;> cases same

/-- Where a run stays within what follows the first answer. -/
theorem traded_one {α : Type} {part : ServerProg α} {trade : Trade rpc}
    {q' : Program (Guarded Op Bool) (GuardedRes Res) (Except Thrown α)} {Q : α → World → Prop}
    (quiet : ∀ w w', drift w w' → Aside w w')
    (said : s₁.state.sent <+: s.state.sent ++ trade.reply.bytes)
    (heard : s₁.state.received = s.state.received ++ trade.frame.bytes)
    (turn : Turn drift policy max_size rpc fuel p s q s' (s.state.received ++ trade.frame.bytes)
      trade.frame.request trade.reply.response)
    (holds : Upholds (handler policy True) max_size
      (dialogue fun heard said => s.state.received ++ trade.frame.bytes <+: heard ∧
        said <+: s.state.sent ++ trade.reply.bytes) part Q s₁.state)
    (run : Program.Reach ((handler policy True).guarded max_size).exec
      (fun s s' => drift s.state s'.state) part.run s₁ q' s') :
    Traded drift policy max_size rpc fuel p s q s' [trade] := by
  have kept := holds.invariant
    (fun w : World => s.state.received ++ trade.frame.bytes <+: w.received ∧
      w.sent <+: s.state.sent ++ trade.reply.bytes)
    ⟨by rw [heard], said⟩ quiet
    (fun w w' moved now =>
      ⟨by rw [(quiet _ _ moved).2]; exact now.1, by rw [(quiet _ _ moved).1]; exact now.2⟩)
    (fun w w' promised => promised.1) run
  constructor
  · rw [List.flatMap_singleton]
    exact kept.1
  · rw [List.flatMap_singleton]
    exact kept.2
  · intro first other later same
    cases first with
    | nil =>
        cases same
        rw [List.nil_append, List.flatMap_singleton]
        exact turn
    | cons _ first => cases first <;> cases same

/-- Where a run has gone on after the first answer. -/
theorem Traded.cons {trade : Trade rpc} {trades : List (Trade rpc)}
    (turn : Turn drift policy max_size rpc fuel p s q s' (s.state.received ++ trade.frame.bytes)
      trade.frame.request trade.reply.response)
    (before : Serving drift policy max_size p s p'.run s₁)
    (files : FilesKept drift s.state s₁.state)
    (heard : s₁.state.received = s.state.received ++ trade.frame.bytes)
    (said : s₁.state.sent = s.state.sent ++ trade.reply.bytes)
    (rest : Traded drift policy max_size rpc fuel p' s₁ q s' trades) :
    Traded drift policy max_size rpc fuel p s q s' (trade :: trades) := by
  constructor
  · rw [List.flatMap_cons, ← List.append_assoc, ← heard]
    exact rest.heard
  · rw [List.flatMap_cons, ← List.append_assoc, ← said]
    exact rest.said
  · intro first other later same
    cases first with
    | nil =>
        cases same
        rw [List.nil_append, List.flatMap_singleton]
        exact turn
    | cons trade' first =>
        cases same
        have later_turn := (rest.turns first other later rfl).after before files
        rw [heard, List.append_assoc] at later_turn
        rwa [List.cons_append, List.flatMap_cons]

/-- What the loop goes on with once there is a response. -/
def deliver (rpc : RpcServer) (fuel rounds : Nat) (response : RpcResponse) : ServerProg Bool := do
  let sent ← ServerProg.sendResponse rpc fuel response
  if sent then ServerProg.answerRequests rpc fuel rounds false
  else do
    system Sys.closeSocket
    pure false

/-- What the loop makes of what was received. -/
def answer (rpc : RpcServer) (fuel rounds : Nat) (firstRequest : Bool) :
    Option RpcRequest → ServerProg Bool
  | none => do
      system Sys.closeSocket
      pure firstRequest
  | some request => system (rpc.respond fuel request) >>= rpc.deliver fuel rounds

theorem answerRequests_succ (rounds : Nat) (firstRequest : Bool) :
    ServerProg.answerRequests rpc fuel (rounds + 1) firstRequest =
      ServerProg.receiveRequest rpc fuel >>= rpc.answer fuel rounds firstRequest := by
  rw [ServerProg.answerRequests]
  congr 1

/-- The handlers have returned what the session has to deliver. -/
theorem respond_reach (run : Program.Reach ((handler policy True).guarded max_size).exec
    (fun s s' => drift s.state s'.state)
      (system (rpc.respond fuel request) : ServerProg RpcResponse).run s
    (.done (.ok response)) s') :
    Program.Reach (handler policy True).exec drift (rpc.respond fuel request) s.state
      (.done response) s'.state := by
  rcases Program.Reach.of_guard (respond_looks rpc fuel request) run with ⟨p', -, same, inner⟩ | cut
  · cases p' with
    | done value =>
        cases same
        exact inner
    | call op next => cases same
    | fork count child join => cases same
    | spin => cases same
  · cases cut

/-- The loop of `handleRpcClient`, by induction on the rounds. -/
theorem answerRequests_traded (quiet : ∀ w w', drift w w' → Aside w w') (limit : ∀ response bytes,
      rpc.protobuf.serializeResponse response = some bytes → bytes.length < 2 ^ 31) {rounds : Nat}
    {firstRequest : Bool}
    (run : Serving drift policy max_size
      (ServerProg.answerRequests rpc fuel rounds firstRequest) s q s') :
    ∃ trades, Traded drift policy max_size rpc fuel
      (ServerProg.answerRequests rpc fuel rounds firstRequest) s q s' trades := by
  induction rounds generalizing firstRequest s with
  | zero =>
      have straight : Program.Calls (fun _ => True) (.spin : Prog Bool) := trivial
      have spins : Upholds (handler policy True) max_size
          (dialogue fun heard said => s.state.received <+: heard ∧ said = s.state.sent)
          (system .spin : ServerProg Bool) (fun _ _ => True) s.state :=
            upholds_system straight trivial
      exact ⟨[], traded_nil quiet rfl (List.prefix_refl _) spins run⟩
  | succ rounds ih =>
      have hears : Hears fun heard said => s.state.received <+: heard ∧ said = s.state.sent := by
        intro heard more said now
        exact ⟨now.1.trans (List.prefix_append _ _), now.2⟩
      rw [answerRequests_succ] at run ⊢
      -- the request
      have receives := @receiveRequest_upholds policy _ rpc fuel max_size s.state hears
      rcases reach_bind run with ⟨p', run₁⟩ | ⟨request, s₁, run₁, after₁⟩
      · exact ⟨[], traded_nil quiet rfl (List.prefix_refl _) receives run₁⟩
      obtain ⟨said₁, data, heard₁, framed⟩ := receives.returned quiet run₁
      have files₁ := filesKept_of_upholds quiet receives run₁
      have longer₁ : s.state.received <+: s₁.state.received := by
        rw [heard₁]
        exact List.prefix_append _ _
      cases request with
      | none =>
          have closes := @closeSocket_upholds policy
            (fun heard said => s.state.received <+: heard ∧
              said = s.state.sent) s₁.state max_size _ firstRequest
          exact ⟨[], traded_nil quiet said₁.symm longer₁ closes after₁⟩
      | some request =>
          obtain ⟨frame, rfl, rfl⟩ := framed request rfl
          -- the handlers
          have responds := @respond_upholds policy
            (fun heard said => s.state.received <+: heard ∧
              said = s.state.sent) rpc fuel max_size s₁.state
            frame.request
          rcases reach_bind after₁ with ⟨p', run₂⟩ | ⟨response, s₂, run₂, after₂⟩
          · exact ⟨[], traded_nil quiet said₁.symm longer₁ responds run₂⟩
          obtain ⟨heard₂, said₂⟩ := responds.returned quiet run₂
          have files₂ := files₁.trans (filesKept_of_upholds quiet responds run₂)
          rw [heard₁] at heard₂
          rw [said₁] at said₂
          have before₁ : Serving drift policy max_size
              (ServerProg.receiveRequest rpc fuel >>= rpc.answer fuel rounds firstRequest) s
              (system (rpc.respond fuel frame.request) >>= rpc.deliver fuel rounds).run s₁ :=
                reach_bind_ok run₁
          have before₂ := before₁.trans (reach_bind_ok run₂)
          have turn : Turn drift policy max_size rpc fuel
              (ServerProg.receiveRequest rpc fuel >>= rpc.answer fuel rounds firstRequest) s q s'
              (s.state.received ++ frame.bytes) frame.request response :=
            ⟨rpc.deliver fuel rounds, s₁, s₂, before₁, heard₁, files₁, respond_reach run₂, after₂⟩
          -- the reply
          cases serialized : rpc.protobuf.serializeResponse response with
          | none =>
              have closes : rpc.deliver fuel rounds response = (do
                  system Sys.closeSocket
                  pure false : ServerProg Bool) := by
                rw [deliver, ServerProg.sendResponse, serialized]
                rfl
              rw [closes] at after₂
              have longer₂ : s.state.received <+: s₂.state.received := by
                rw [heard₂]
                exact List.prefix_append _ _
              exact ⟨[], traded_nil quiet said₂.symm longer₂ (closeSocket_upholds false) after₂⟩
          | some body =>
              let trade : Trade rpc := ⟨frame, response, body, serialized⟩
              have first : s₂.state.sent <+: s.state.sent ++ trade.reply.bytes := by
                rw [said₂]
                exact List.prefix_append _ _
              have sends := @sendResponse_upholds policy
                (fun heard said => s.state.received ++ trade.frame.bytes <+: heard ∧
                  said <+: s.state.sent ++ trade.reply.bytes)
                rpc fuel max_size s₂.state trade.reply (limit _ _ serialized) (by
                  intro part inside
                  rw [heard₂, said₂]
                  exact ⟨List.prefix_refl _, (List.prefix_append_right_inj _).mpr inside⟩)
              rcases reach_bind after₂ with ⟨p', run₃⟩ | ⟨sent, s₃, run₃, after₃⟩
              · exact ⟨[trade], traded_one quiet first heard₂ turn sends run₃⟩
              obtain ⟨heard₃, part, inside, said₃, whole⟩ := sends.returned quiet run₃
              have files₃ := files₂.trans (filesKept_of_upholds quiet sends run₃)
              rw [heard₂] at heard₃
              rw [said₂] at said₃
              cases sent with
              | true =>
                  rw [whole rfl] at said₃
                  obtain ⟨trades, rest⟩ := ih after₃
                  have before₃ := before₂.trans (reach_bind_ok run₃)
                  exact ⟨trade :: trades, Traded.cons turn before₃ files₃ heard₃ said₃ rest⟩
              | false =>
                  have begun : s₃.state.sent <+: s.state.sent ++ trade.reply.bytes := by
                    rw [said₃]
                    exact (List.prefix_append_right_inj _).mpr inside
                  exact ⟨[trade], traded_one quiet begun heard₃ turn
                    (closeSocket_upholds false) after₃⟩

/-- What a session in which the mode byte is that of requests has heard and said. -/
structure Served (drift : World → World → Prop) (policy : Policy) (max_size : Nat) (rpc : RpcServer)
    (fuel : Nat) (p : ServerProg Bool) (s : Noted Bool World)
    (q : Program (Guarded Op Bool) (GuardedRes Res) (Except Thrown Bool)) (s' : Noted Bool World)
    (trades : List (Trade rpc)) : Prop where
  heard : trades ≠ [] → [1] ++ trades.flatMap (fun trade => trade.frame.bytes) <+: s'.state.received
  said : s'.state.sent <+: trades.flatMap (fun trade => trade.reply.bytes)
  turns : ∀ first trade later, trades = first ++ trade :: later →
    Turn drift policy max_size rpc fuel p s q s'
      ([1] ++ (first ++ [trade]).flatMap (fun trade => trade.frame.bytes)) trade.frame.request
      trade.reply.response

theorem served_nil (silent : s'.state.sent = []) :
    Served drift policy max_size rpc fuel p s q s' [] := by
  constructor
  · exact fun some => absurd rfl some
  · rw [silent]
    exact List.nil_prefix
  · intro first trade later same
    cases first <;> cases same

theorem handleClient_served (server : SyncServer) (quiet : ∀ w w', drift w w' → Aside w w')
    (limit : ∀ response bytes, rpc.protobuf.serializeResponse response = some bytes →
      bytes.length < 2 ^ 31)
    {stream : Bytes} (opening : Opening stream) {fs : FileSystem}
    (run : Program.Reach (Within ((handler policy True).guarded max_size).exec
        (fun s => s.state.received <+: stream)) (fun s s' => drift s.state s'.state)
      (ServerProg.handleClient server rpc fuel).run (Noted.start (World.boot fs)) q s') :
    ∃ trades, Served drift policy max_size rpc fuel (ServerProg.handleClient server rpc fuel)
      (Noted.start (World.boot fs)) q s' trades := by
  have plain :
      ∀ {α : Type} {p p' : Program (Guarded Op Bool) (GuardedRes Res) α} {s s' : Noted Bool World},
      Program.Reach (Within ((handler policy True).guarded max_size).exec
        (fun s => s.state.received <+: stream)) (fun s s' => drift s.state s'.state) p s p' s' →
      Program.Reach ((handler policy True).guarded max_size).exec
        (fun s s' => drift s.state s'.state) p s p' s' :=
    fun run => run.mono fun _ _ _ _ within => within.1
  have silent : ∀ w w' : World, drift w w' → w.sent = [] → w'.sent = [] :=
    fun w w' moved now => (quiet _ _ moved).1.trans now
  have hears : Hears fun _ said => said = [] := fun _ _ _ now => now
  have receives := @Receives.upholds policy (fun _ said => said = [])
    (Noted.start (World.boot fs) : Noted Bool World).state max_size _ _ _
      (receiveBytes_works fuel 1)
    (receiveBytes_receives hears 1 fuel)
  rcases reach_bind run with ⟨p', run₁⟩ | ⟨mode, s₁, run₁, after₁⟩
  · have still := receives.invariant (fun w : World => w.sent = []) rfl quiet silent
      (fun _ _ promised => promised.1) (plain run₁)
    exact ⟨[], served_nil still⟩
  obtain ⟨said₁, data, heard₁, whole⟩ := receives.returned quiet (plain run₁)
  cases mode with
  | none =>
      have closes := @closeSocket_upholds policy (fun _ said => said = []) s₁.state max_size _ false
      have still := closes.invariant (fun w : World => w.sent = []) said₁ quiet silent
        (fun _ _ promised => promised.1) (plain after₁)
      exact ⟨[], served_nil still⟩
  | some mode =>
      obtain ⟨rfl, one⟩ := whole mode rfl
      have inside : s₁.state.received <+: stream := by
        apply run₁.inside
        · exact List.nil_prefix
        · intro s s' moved now
          rw [(quiet _ _ moved).2]
          exact now
      rw [heard₁] at inside
      have requests : mode = [1] := by
        rcases opening with rfl | begins
        · have empty : mode = [] := List.prefix_nil.mp inside
          rw [empty] at one
          cases one
        · have front : mode <+: [1] := List.prefix_of_prefix_length_le inside begins one.le
          exact front.eq_of_length one
      subst requests
      have trading :
          Serving drift policy max_size (ServerProg.answerRequests rpc fuel fuel true) s₁ q s' :=
        plain after₁
      obtain ⟨trades, traded⟩ := answerRequests_traded quiet limit trading
      have files := filesKept_of_upholds quiet receives (plain run₁)
      have before : Serving drift policy max_size (ServerProg.handleClient server rpc fuel)
          (Noted.start (World.boot fs)) (ServerProg.answerRequests rpc fuel fuel true).run s₁ :=
        reach_bind_ok (plain run₁)
      refine ⟨trades, ?_, ?_, ?_⟩
      · intro _
        have heard := traded.heard
        rwa [heard₁] at heard
      · have said := traded.said
        rwa [said₁] at said
      · intro first trade later same
        have turn := (traded.turns first trade later same).after before files
        rwa [heard₁] at turn

end

end RpcServer

end SyncTool
