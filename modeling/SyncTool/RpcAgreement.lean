import SyncTool.RpcExchange
import SyncTool.RpcProtobuf

set_option autoImplicit false

namespace SyncTool

open Throwing

namespace RpcClient

/-- A call that got its response, with the messages that went each way. -/
structure Asked (client : RpcClient) where
  call : RpcCall
  response : RpcResponse
  out : Framed
  back : Framed
  written : client.protobuf.serializeRequest call.request = some out.body
  typed : out.word = client.abi.encode 4 call.request.type
  parsed : client.protobuf.parseResponse back.body = some response

/-- The entry of a log. -/
def Asked.entry {client : RpcClient} (asked : Asked client) : RpcCall × Option RpcResponse :=
  (asked.call, some asked.response)

section

variable {policy : Policy} {P : Bytes → Bytes → Prop} {client : RpcClient}
  {fuel max_size : Nat} {w : World}

theorem sendFrame_sends (type : Nat) {body : Bytes} (small : body.length < 2 ^ 31) :
    Sends policy P (client.sendFrame fuel type body)
      (client.abi.encode 4 type ++ (client.abi.encode 4 body.length ++ body)) := by
  have whole : body.take (body.length % 256 ^ 4) = body := by
    apply List.take_of_length_le
    omega
  have tells : ∀ data, Sends policy P (sendAll data fuel 0) data :=
    fun data => (sendLoop data).sends fuel
  unfold sendFrame
  rw [whole]
  exact (tells _).andThen ((tells _).andThen (tells body))

theorem sendFrame_straight (type : Nat) (body : Bytes) :
    (client.sendFrame fuel type body).Calls fun _ => True := by
  have straight : ∀ data, (sendAll data fuel 0).Calls fun _ => True := fun data =>
    (sendLoop data).straight (fun _ => trivial) fuel 0
  apply (straight _).bind
  intro typed
  cases typed with
  | false => exact trivial
  | true =>
      apply (straight _).bind
      intro measured
      cases measured with
      | false => exact trivial
      | true => exact straight _

/-- A connection that is made opens with the mode of requests. -/
theorem connect_upholds (silent : w.sent = []) :
    Upholds (handler policy True) max_size (dialogue fun _ said => Opening said)
      (system (connect fuel) : ClientProg Bool)
      (fun ok w' => Opening w'.sent ∧
        (ok = true → w'.sent = [1] ∧ w'.received = w.received)) w := by
  have straight : (connect fuel).Calls fun _ => True := by
    refine ⟨trivial, fun connected => ?_⟩
    cases connected with
    | false => exact trivial
    | true =>
        apply ((sendLoop [1]).straight (fun _ => trivial) fuel 0).bind
        intro told
        cases told with
        | false => exact ⟨trivial, fun _ => trivial⟩
        | true => exact trivial
  apply upholds_system straight
  refine Program.sat_op.mpr fun w₁ drift choice _ => ⟨⟨fun h => h, rfl⟩, ?_⟩
  have silent₁ : w₁.sent = [] := drift.1.trans silent
  apply Program.Sat.ite
  · intro _
    apply Program.Sat.bind
    have begun : ∀ part : Bytes, part <+: [1] → Opening (w₁.sent ++ part) := by
      intro part inside
      rw [silent₁, List.nil_append]
      rcases List.eq_nil_or_concat part with rfl | ⟨_, _, rfl⟩
      · exact .inl rfl
      · right
        have whole : _ = ([1] : Bytes) := inside.eq_of_length_le (by simp)
        rw [whole]
    apply ((sendLoop [1]).sends fuel w₁ begun).weaken
    intro told w₂ after
    obtain ⟨heard₂, part, inside, said₂, whole⟩ := after
    have opening₂ : Opening w₂.sent := by
      rw [said₂]
      exact begun part inside
    apply Program.Sat.ite
    · intro fine w₃ drift'
      refine ⟨by rw [drift'.1]; exact opening₂, fun _ => ⟨?_, ?_⟩⟩
      · rw [drift'.1, said₂, silent₁, whole fine, List.nil_append]
      · rw [drift'.2, heard₂, drift.2]
    · intro _
      refine Program.sat_op.mpr fun w₃ drift' choice _ => ⟨⟨fun h => h, rfl⟩, ?_⟩
      intro w₄ drift''
      refine ⟨?_, by simp⟩
      rw [drift''.1]
      show Opening w₃.sent
      rw [drift'.1]
      exact opening₂
  · intro _ w₂ drift'
    refine ⟨.inl ?_, by simp⟩
    rw [drift'.1]
    exact silent₁

theorem receiveResponse_upholds (hears : Hears P) :
    Upholds (handler policy True) max_size (dialogue P) (client.receiveResponse fuel)
      (fun out w' => w'.sent = w.sent ∧ ∃ data, w'.received = w.received ++ data ∧
        ∀ response, out = some response → ∃ message : Framed,
          data = message.bytes client.abi ∧
          client.protobuf.parseResponse message.body = some response) w := by
  have nothing : ∀ (data : Bytes) (w' : World), w'.sent = w.sent →
      w'.received = w.received ++ data →
      Upholds (handler policy True) max_size (dialogue P)
        (pure none : ClientProg (Option RpcResponse))
        (fun out w' => w'.sent = w.sent ∧ ∃ data, w'.received = w.received ++ data ∧
          ∀ response, out = some response → ∃ message : Framed,
            data = message.bytes client.abi ∧
              client.protobuf.parseResponse message.body = some response)
        w' := by
    intro data w' said heard
    apply upholds_pure
    intro w'' drift
    exact ⟨drift.1.trans said, data, drift.2.trans heard, by simp⟩
  have straight : ∀ size, (recvAll size fuel []).Calls fun _ => True := fun size =>
    (receiveLoop size).straight (fun _ => trivial) fuel []
  apply Upholds.bind
  apply (Receives.upholds (straight _) ((receiveLoop _).receives hears fuel)).weaken
  intro respType w₁ after
  obtain ⟨said₁, word, heard₁, typed⟩ := after
  cases respType with
  | none => exact nothing word w₁ said₁ heard₁
  | some type =>
      obtain ⟨-, four⟩ := typed type rfl
      apply Upholds.bind
      apply (Receives.upholds (straight _) ((receiveLoop _).receives hears fuel)).weaken
      intro respLen w₂ after
      obtain ⟨said₂, length, heard₂, measured⟩ := after
      have said₂' := said₂.trans said₁
      have heard₂' : w₂.received = w.received ++ (word ++ length) := by
        rw [heard₂, heard₁, List.append_assoc]
      cases respLen with
      | none => exact nothing _ w₂ said₂' heard₂'
      | some bytes =>
          obtain ⟨rfl, four'⟩ := measured bytes rfl
          apply Upholds.ite
          · exact fun _ => nothing _ w₂ said₂' heard₂'
          · intro positive
            apply upholds_allocate
            apply Upholds.bind
            apply (Receives.upholds (straight _) ((receiveLoop _).receives hears fuel)).weaken
            intro respData w₃ after
            obtain ⟨said₃, data, heard₃, whole⟩ := after
            apply upholds_pure
            intro w₄ drift
            refine ⟨drift.1.trans (said₃.trans said₂'), word ++ (bytes ++ data), ?_, ?_⟩
            · rw [drift.2, heard₃, heard₂']
              simp only [List.append_assoc]
            · intro response parsed
              obtain ⟨body, got, parses⟩ := Option.bind_eq_some_iff.mp parsed
              obtain ⟨rfl, full⟩ := whole body got
              have small := client.abi.decode_lt bytes
              rw [four'] at small
              refine ⟨⟨word, body, four, by omega⟩, ?_, parses⟩
              have lengthed : client.abi.encode 4 (body.length : Nat) = bytes := by
                have back := client.abi.encode_decode bytes
                rw [four'] at back
                rw [full, back]
              show _ = word ++ (client.abi.encode 4 (body.length : Nat) ++ body)
              rw [lengthed]

/-- What a call says is its request, and what it hears is its response, or beginnings of them. -/
theorem ask_upholds
    (limit : ∀ request bytes, client.protobuf.serializeRequest request = some bytes →
      bytes.length < 2 ^ 31) (call : RpcCall) (opened : [1] <+: w.sent) :
    Upholds (handler policy True) max_size (dialogue fun _ said => Opening said)
      (client.ask fuel true call) (fun out w' => w.sent <+: w'.sent ∧ w.received <+: w'.received ∧
        ∀ response, out = some response → ∃ asked : Asked client, asked.entry = (call, out) ∧
          w'.sent = w.sent ++ asked.out.bytes client.abi ∧
          w'.received = w.received ++ asked.back.bytes client.abi) w := by
  have nothing : ∀ w' : World, w.sent <+: w'.sent → w'.received = w.received →
      Upholds (handler policy True) max_size (dialogue fun _ said => Opening said)
        (pure none : ClientProg (Option RpcResponse))
        (fun out w' => w.sent <+: w'.sent ∧ w.received <+: w'.received ∧
          ∀ response, out = some response → ∃ asked : Asked client, asked.entry = (call, out) ∧
            w'.sent = w.sent ++ asked.out.bytes client.abi ∧
            w'.received = w.received ++ asked.back.bytes client.abi) w' := by
    intro w' longer heard
    apply upholds_pure
    intro w'' drift
    refine ⟨by rw [drift.1]; exact longer, by rw [drift.2, heard], by simp⟩
  unfold ask
  cases serialized : client.protobuf.serializeRequest call.request with
  | none => exact nothing w (List.prefix_refl _) rfl
  | some body =>
      have small := limit _ _ serialized
      let out : Framed := ⟨client.abi.encode 4 call.request.type, body,
        client.abi.length_encode _ _, by omega⟩
      have begun : ∀ part : Bytes, part <+: out.bytes client.abi → Opening (w.sent ++ part) :=
        fun part _ => .inr (opened.trans (List.prefix_append _ _))
      have sends := @sendFrame_sends policy (fun _ said => Opening said) client fuel
        call.request.type body small w begun
      apply Upholds.bind
      apply (upholds_system (sendFrame_straight _ _) sends).weaken
      intro sent w₁ after
      obtain ⟨heard₁, part, inside, said₁, whole⟩ := after
      have longer₁ : w.sent <+: w₁.sent := by
        rw [said₁]
        exact List.prefix_append _ _
      apply Upholds.ite
      · intro fine
        obtain rfl := whole fine
        apply (receiveResponse_upholds fun _ _ _ now => now).weaken
        intro response w₂ after
        obtain ⟨said₂, data, heard₂, framed⟩ := after
        rw [said₁] at said₂
        rw [heard₁] at heard₂
        refine ⟨by rw [said₂]; exact List.prefix_append _ _,
          by rw [heard₂]; exact List.prefix_append _ _, ?_⟩
        rintro response rfl
        obtain ⟨back, rfl, parses⟩ := framed response rfl
        exact ⟨⟨call, response, out, back, serialized, rfl, parses⟩, rfl, said₂, heard₂⟩
      · exact fun _ => nothing w₁ longer₁ heard₁

/-- What a client has said and heard by the time of a log: the messages of the calls up to the first
one that failed, and no more if none has. -/
def Sofar (client : RpcClient) (log : Log) (w : World) : Prop :=
  ∃ all : List (Asked client), all.map Asked.entry = log.takeWhile (fun entry => entry.2.isSome) ∧
    [1] ++ all.flatMap (fun asked => asked.out.bytes client.abi) <+: w.sent ∧
    all.flatMap (fun asked => asked.back.bytes client.abi) <+: w.received ∧
    ((∀ entry ∈ log, entry.2.isSome) →
      w.sent = [1] ++ all.flatMap (fun asked => asked.out.bytes client.abi) ∧
      w.received = all.flatMap (fun asked => asked.back.bytes client.abi))

theorem Sofar.opened {log : Log} (sofar : Sofar client log w) : [1] <+: w.sent := by
  obtain ⟨all, -, said, -⟩ := sofar
  exact (List.prefix_append _ _).trans said

/-- After one more call. -/
theorem Sofar.more {log : Log} {w' : World} {call : RpcCall} {response : Option RpcResponse}
    (sofar : Sofar client log w) (said : w.sent <+: w'.sent) (heard : w.received <+: w'.received)
    (exchanged : ∀ value, response = some value →
      ∃ asked : Asked client, asked.entry = (call, response) ∧
      w'.sent = w.sent ++ asked.out.bytes client.abi ∧
      w'.received = w.received ++ asked.back.bytes client.abi) :
    Sofar client (log ++ [(call, response)]) w' := by
  obtain ⟨all, entries, out, back, exact_⟩ := sofar
  by_cases fine : ∀ entry ∈ log, entry.2.isSome
  · have whole : log.takeWhile (fun entry => entry.2.isSome) = log :=
      List.takeWhile_eq_self_iff.mpr fine
    obtain ⟨said_, heard_⟩ := exact_ fine
    rw [whole] at entries
    have before : (log ++ [(call, response)]).takeWhile (fun entry => entry.2.isSome) =
        log ++ [(call, response)].takeWhile (fun entry => entry.2.isSome) :=
      List.takeWhile_append_of_pos fine
    cases response with
    | none =>
        refine ⟨all, ?_, out.trans said, back.trans heard, ?_⟩
        · rw [before, entries]
          simp
        · intro impossible
          have last := impossible (call, none) (by simp)
          cases last
    | some response =>
        obtain ⟨asked, entry, said', heard'⟩ := exchanged response rfl
        rw [said_] at said'
        rw [heard_] at heard'
        have outs : w'.sent =
            [1] ++ (all ++ [asked]).flatMap (fun asked => asked.out.bytes client.abi) := by
          rw [said', List.flatMap_append, List.flatMap_singleton, List.append_assoc]
        have backs :
            w'.received = (all ++ [asked]).flatMap (fun asked => asked.back.bytes client.abi) := by
          rw [heard', List.flatMap_append, List.flatMap_singleton]
        refine ⟨all ++ [asked], ?_, by rw [outs], by rw [backs], fun _ => ⟨outs, backs⟩⟩
        rw [before, List.map_append, entries, List.map_singleton, entry]
        rfl
  · have same : (log ++ [(call, response)]).takeWhile (fun entry => entry.2.isSome) =
        log.takeWhile (fun entry => entry.2.isSome) := by
      rw [List.takeWhile_append, if_neg]
      intro all_
      apply fine
      exact List.takeWhile_eq_self_iff.mp ((List.takeWhile_prefix _).eq_of_length all_)
    refine ⟨all, by rw [same, entries], out.trans said, back.trans heard, ?_⟩
    intro everywhere
    exact absurd (fun entry member => everywhere entry (List.mem_append_left _ member)) fine

theorem Sofar.aside {log : Log} {w' : World} (sofar : Sofar client log w) (drift : Aside w w') :
    Sofar client log w' := by
  obtain ⟨all, entries, out, back, exact_⟩ := sofar
  refine ⟨all, entries, by rw [drift.1]; exact out, by rw [drift.2]; exact back, ?_⟩
  rw [drift.1, drift.2]
  exact exact_

theorem calls_upholds
    (limit : ∀ request bytes, client.protobuf.serializeRequest request = some bytes →
      bytes.length < 2 ^ 31) {next : Log → Option RpcCall} {rounds : Nat} {log : Log}
    (sofar : Sofar client log w) :
    Upholds (handler policy True) max_size (dialogue fun _ said => Opening said)
      (client.calls fuel next rounds log) (fun log w' => Sofar client log w') w := by
  induction rounds generalizing log w with
  | zero => exact upholds_pure fun _ => sofar.aside
  | succ rounds ih =>
      rw [calls]
      cases next log with
      | none => exact upholds_pure fun _ => sofar.aside
      | some call =>
          apply Upholds.bind
          apply (ask_upholds limit call sofar.opened).weaken
          intro response w' after
          obtain ⟨said, heard, exchanged⟩ := after
          exact ih (sofar.more said heard exchanged)

/-- What a client has said and heard when it is done. -/
theorem session_upholds
    (limit : ∀ request bytes, client.protobuf.serializeRequest request = some bytes →
      bytes.length < 2 ^ 31) {next : Log → Option RpcCall} {rounds : Nat} (silent : w.sent = [])
    (deaf : w.received = []) :
    Upholds (handler policy True) max_size (dialogue fun _ said => Opening said)
      (client.session fuel next rounds) (fun log w' => log = [] ∨ Sofar client log w') w := by
  apply Upholds.bind
  apply (connect_upholds silent).weaken
  intro connected w₁ after
  obtain ⟨-, made⟩ := after
  apply Upholds.ite
  · intro fine
    obtain ⟨said₁, heard₁⟩ := made fine
    have start : Sofar client [] w₁ := by
      refine ⟨[], rfl, by rw [said₁]; exact List.prefix_refl _, List.nil_prefix,
        fun _ => ⟨said₁, ?_⟩⟩
      rw [heard₁, deaf]
      rfl
    apply Upholds.bind
    apply (calls_upholds limit start).weaken
    intro log w₂ sofar
    apply (closeSocket_upholds log).weaken
    intro log' w₃ after
    obtain ⟨rfl, heard₃, said₃⟩ := after
    exact .inr (sofar.aside ⟨said₃, heard₃⟩)
  · intro _
    apply upholds_pure
    exact fun _ _ => .inl rfl

/-- A call as it goes over the connection. -/
def wire (client : RpcClient) (call : RpcCall) : Bytes :=
  let serialized := (client.protobuf.serializeRequest call.request).getD []
  client.abi.encode 4 call.request.type ++ (client.abi.encode 4 serialized.length ++ serialized)

theorem Asked.bytes_out (asked : Asked client) :
    asked.out.bytes client.abi = client.wire asked.call := by
  rw [Framed.bytes, wire, asked.written, asked.typed]
  rfl

end

end RpcClient

/-- What has been said stays said, also where memory may run out. -/
theorem step_noted_sent {policy : Policy} {max_size : Nat} {α : Type}
    {p p' : Program (Guarded Op Bool) (GuardedRes Res) α} {s s' : Noted Bool World}
    (one : Program.Step ((handler policy True).guarded max_size).exec p s p' s') :
    s.state.sent <+: s'.state.sent := by
  induction one with
  | @call _ op _ s _ answer ran =>
      cases op with
      | sys op =>
          cases answer with
          | none =>
              obtain rfl := ran
              exact List.prefix_refl _
          | some answer =>
              obtain ⟨after, ⟨choice, -, ran⟩, rfl⟩ := ran
              have mono := run_sent_mono op choice s.state
              rwa [ran] at mono
      | alloc size =>
          obtain ⟨-, rfl⟩ := ran
          exact List.prefix_refl _
      | note what =>
          obtain rfl := ran
          exact List.prefix_refl _
  | child i _ ih => exact ih
  | join verdicts all => exact List.prefix_refl _

/-- Where two sequences begin alike, so do beginnings of the same length. -/
theorem eq_of_prefixes {α : Type} {xs ys xs' ys' : List α} (along : xs' <+: ys' ∨ ys' <+: xs')
    (first : xs <+: xs') (second : ys <+: ys') (same : xs.length = ys.length) : xs = ys := by
  rcases along with along | along
  · exact (List.prefix_of_prefix_length_le (first.trans along) second same.le).eq_of_length same
  · exact (List.prefix_of_prefix_length_le first (second.trans along) same.le).eq_of_length same

namespace RpcServer

variable {rpc : RpcServer}

/-- A frame as a message. -/
def Frame.framed (frame : Frame rpc) : Framed where
  word := rpc.abi.encode 4 frame.type
  body := frame.payload
  four := rpc.abi.length_encode _ _
  small := frame.payload_lt

theorem Reply.small (reply : Reply rpc) (faithful : rpc.protobuf.Faithful) :
    reply.body.length < 256 ^ 4 := by
  have limit := faithful.response_limit _ _ reply.serialized
  omega

def Reply.framed (faithful : rpc.protobuf.Faithful) (reply : Reply rpc) : Framed where
  word := rpc.abi.encode 4 reply.response.type
  body := reply.body
  four := rpc.abi.length_encode _ _
  small := reply.small faithful

end RpcServer

/-- What both sides of a connection have made of each other's messages, call by call. -/
theorem trades_match {rpc : RpcServer} (faithful : rpc.protobuf.Faithful)
    {all : List (RpcClient.Asked ⟨rpc.abi, rpc.protobuf⟩)} {trades : List (RpcServer.Trade rpc)}
    {stream : Bytes}
    (backs : all.flatMap (fun asked => asked.back.bytes rpc.abi) <+:
      trades.flatMap (fun trade => trade.reply.bytes))
    (outs : [1] ++ all.flatMap (fun asked => asked.out.bytes rpc.abi) <+: stream)
    (heard : trades ≠ [] → [1] ++ trades.flatMap (fun trade => trade.frame.bytes) <+: stream)
    {done later : List (RpcClient.Asked ⟨rpc.abi, rpc.protobuf⟩)}
    {asked : RpcClient.Asked ⟨rpc.abi, rpc.protobuf⟩} (split : all = done ++ asked :: later) :
    ∃ first trade rest, trades = first ++ trade :: rest ∧ trade.frame.request = asked.call.request ∧
      trade.reply.response = asked.response ∧
      (first ++ [trade]).flatMap (fun trade => trade.frame.bytes) =
        (done ++ [asked]).flatMap (fun asked => asked.out.bytes rpc.abi) := by
  have frames : ∀ trades : List (RpcServer.Trade rpc),
      trades.flatMap (fun trade => trade.frame.bytes) =
      (trades.map fun trade => trade.frame.framed).flatMap (Framed.bytes rpc.abi) := by
    intro trades
    rw [List.flatMap_map]
    rfl
  have sents : ∀ all : List (RpcClient.Asked ⟨rpc.abi, rpc.protobuf⟩),
      all.flatMap (fun asked => asked.out.bytes rpc.abi) =
        (all.map RpcClient.Asked.out).flatMap (Framed.bytes rpc.abi) := by
    intro all
    rw [List.flatMap_map]
  -- the responses, one by one
  have replies : all.map RpcClient.Asked.back <+: trades.map
      fun trade => trade.reply.framed faithful := by
    apply @Framed.prefix_of_bytes rpc.abi
    rw [List.flatMap_map, List.flatMap_map]
    exact backs
  subst split
  obtain ⟨more, replies⟩ := replies
  rw [List.map_append, List.map_cons, List.append_assoc, List.cons_append] at replies
  obtain ⟨first, tail, rfl, firsts, tails⟩ := List.map_eq_append_iff.mp replies.symm
  obtain ⟨trade, rest, rfl, reply, -⟩ := List.map_eq_cons_iff.mp tails
  -- and so the requests
  have along : (done ++ asked :: later).map RpcClient.Asked.out <+:
        (first ++ trade :: rest).map (fun trade => trade.frame.framed) ∨
      (first ++ trade :: rest).map (fun trade => trade.frame.framed) <+:
        (done ++ asked :: later).map RpcClient.Asked.out := by
    have front := List.prefix_or_prefix_of_prefix outs (heard (by simp))
    rw [List.prefix_append_right_inj, List.prefix_append_right_inj, frames, sents] at front
    rcases front with front | front
    · exact .inl (Framed.prefix_of_bytes front)
    · exact .inr (Framed.prefix_of_bytes front)
  have same : (done ++ [asked]).map RpcClient.Asked.out =
      (first ++ [trade]).map fun trade => trade.frame.framed := by
    apply eq_of_prefixes along
    · apply List.IsPrefix.map
      exact (List.prefix_append_right_inj _).mpr ⟨later, rfl⟩
    · apply List.IsPrefix.map
      exact (List.prefix_append_right_inj _).mpr ⟨rest, rfl⟩
    · have lengths := congrArg List.length firsts
      simp only [List.length_map] at lengths
      simp [lengths]
  have request : trade.frame.payload = asked.out.body := by
    have last := congrArg List.getLast? same
    rw [List.map_append, List.map_append, List.map_singleton, List.map_singleton,
      List.getLast?_concat, List.getLast?_concat] at last
    exact (congrArg Framed.body (Option.some.inj last)).symm
  have body : trade.reply.body = asked.back.body := congrArg Framed.body reply
  refine ⟨first, trade, rest, rfl, ?_, ?_, ?_⟩
  · apply faithful.request _ _ _ asked.written
    rw [← request]
    exact trade.frame.parses
  · symm
    apply faithful.response _ _ _ trade.reply.serialized
    rw [body]
    exact asked.parsed
  · rw [frames, sents, same]

/-- Both sides have only heard what the other has said. -/
def InTouch (s t : Noted Bool World) : Prop := Linked s.state t.state

/-- Both sides of a connection to a server that answers requests, whatever the network does with
what is said. The server's surroundings move by `drift`. -/
def RpcRun (drift : World → World → Prop) (policy policy' : Policy)
    (server : SyncServer) (rpc : RpcServer)
    (fuel : Nat) (fs : FileSystem) (client : ClientProg RpcClient.Log) (fs' : FileSystem)
    (now : Pair (Guarded Op Bool) (GuardedRes Res) (Noted Bool World) (Except Thrown Bool)
      (Except Thrown RpcClient.Log)) : Prop :=
  Relation.ReflTransGen
    (Pair.Step ((handler policy True).guarded rpc.abi.max_size).exec
      ((handler policy' True).guarded rpc.abi.max_size).exec
        (fun s s' => drift s.state s'.state) InTouch)
    ⟨(ServerProg.handleClient server rpc fuel).run, Noted.start (World.boot fs), client.run,
      Noted.start (World.boot fs')⟩ now

section

variable {rpc : RpcServer} {server : SyncServer} {drift : World → World → Prop}
  {policy policy' : Policy}
  {fuel fuel' rounds : Nat} {fs fs' : FileSystem} {next : RpcClient.Log → Option RpcCall}
  {now : Pair (Guarded Op Bool) (GuardedRes Res) (Noted Bool World) (Except Thrown Bool)
    (Except Thrown RpcClient.Log)}

/-- What a client has said by the time it returns, and what it heard, call by call. -/
theorem RpcRun.asked (faithful : rpc.protobuf.Faithful)
    (run : RpcRun drift policy policy' server rpc fuel fs
      ((RpcClient.mk rpc.abi rpc.protobuf).session fuel' next rounds) fs' now)
    {before after : RpcClient.Log} {call : RpcCall} {response : RpcResponse}
    (returned : now.right = .done (.ok (before ++ (call, some response) :: after)))
    (fine : ∀ entry ∈ before, entry.2 ≠ none) :
    Opening now.there.state.sent ∧
      ∃ (done later : List (RpcClient.Asked ⟨rpc.abi, rpc.protobuf⟩))
        (asked : RpcClient.Asked ⟨rpc.abi, rpc.protobuf⟩),
        done.map RpcClient.Asked.entry = before ∧ asked.entry = (call, some response) ∧
        [1] ++ (done ++ asked :: later).flatMap (fun asked => asked.out.bytes rpc.abi) <+:
          now.there.state.sent ∧
        (done ++ asked :: later).flatMap (fun asked => asked.back.bytes rpc.abi) <+:
          now.there.state.received := by
  have none_moves : ∀ w w' : World, w = w' → Aside w w' := fun w w' same => same ▸ ⟨rfl, rfl⟩
  have alone : Program.Reach ((handler policy' True).guarded rpc.abi.max_size).exec
      (fun s s' => s.state = s'.state)
      ((RpcClient.mk rpc.abi rpc.protobuf).session fuel' next rounds).run
        (Noted.start (World.boot fs'))
      now.right now.there := by
    have within := Pair.right_reach (fun _ _ => True) (fun _ _ _ => trivial)
      (fun _ _ _ _ _ _ _ => trivial) (fun _ _ _ _ _ => trivial) run
    apply (within.mono fun _ _ _ _ inside => inside.1).relax
    exact fun s s' same => congrArg Noted.state same
  have keeps := @RpcClient.session_upholds policy' ⟨rpc.abi, rpc.protobuf⟩ fuel' rpc.abi.max_size
    (Noted.start (World.boot fs') : Noted Bool World).state faithful.request_limit next rounds rfl
      rfl
  have opening : Opening now.there.state.sent := by
    apply keeps.invariant (fun w : World => Opening w.sent) (.inl rfl) none_moves _ _ alone
    · exact fun w w' same now => same ▸ now
    · exact fun w w' promised => promised.1
  rw [returned] at alone
  obtain ⟨all, entries, outs, backs, -⟩ :
      RpcClient.Sofar _ (before ++ (call, some response) :: after) _ := by
    rcases keeps.returned none_moves alone with empty | sofar
    · simp at empty
    · exact sofar
  have front : (before ++ (call, some response) :: after).takeWhile (fun entry => entry.2.isSome) =
      before ++ (call, some response) :: after.takeWhile (fun entry => entry.2.isSome) := by
    rw [List.takeWhile_append_of_pos fun entry member =>
      Option.isSome_iff_ne_none.mpr (fine entry member)]
    rfl
  rw [front] at entries
  obtain ⟨done, tail, rfl, dones, tails⟩ := List.map_eq_append_iff.mp entries
  obtain ⟨asked, later, rfl, entry, -⟩ := List.map_eq_cons_iff.mp tails
  exact ⟨opening, done, later, asked, dones, entry, outs, backs⟩

/-- The trade of the server that a call of the client has become. -/
theorem RpcRun.traded (faithful : rpc.protobuf.Faithful) (quiet : ∀ w w', drift w w' → Aside w w')
    (run : RpcRun drift policy policy' server rpc fuel fs
      ((RpcClient.mk rpc.abi rpc.protobuf).session fuel' next rounds) fs' now)
    {before after : RpcClient.Log} {call : RpcCall} {response : RpcResponse}
    (returned : now.right = .done (.ok (before ++ (call, some response) :: after)))
    (fine : ∀ entry ∈ before, entry.2 ≠ none) :
    ∃ first trade rest, RpcServer.Served drift policy rpc.abi.max_size rpc fuel
        (ServerProg.handleClient server rpc fuel) (Noted.start (World.boot fs)) now.left now.here
        (first ++ trade :: rest) ∧
      trade.frame.request = call.request ∧ trade.reply.response = response ∧
      (first ++ [trade]).flatMap (fun trade => trade.frame.bytes) =
        (before.map Prod.fst ++ [call]).flatMap (RpcClient.mk rpc.abi rpc.protobuf).wire := by
  have linked : Linked now.here.state now.there.state :=
    Pair.linked_of_run ⟨List.nil_prefix, List.nil_prefix⟩ run
  obtain ⟨opening, done, later, asked, dones, entry, outs, backs⟩ :=
    run.asked faithful returned fine
  have kept : ∀ (q : Program (Guarded Op Bool) (GuardedRes Res) (Except Thrown RpcClient.Log))
      (t : Noted Bool World) (q' : Program (Guarded Op Bool) (GuardedRes Res)
        (Except Thrown RpcClient.Log))
      (t' s : Noted Bool World),
      Program.Step ((handler policy' True).guarded rpc.abi.max_size).exec q t q' t' →
      s.state.received <+: t.state.sent → s.state.received <+: t'.state.sent := by
    intro q t q' t' s one inside
    exact inside.trans (step_noted_sent one)
  have served := Pair.left_reach_fed (fun t s => s.state.received <+: t.state.sent)
    (fun _ _ linked => linked.2) kept run
  obtain ⟨trades, served⟩ :=
    RpcServer.handleClient_served server quiet faithful.response_limit opening served
  obtain ⟨first, trade, rest, rfl, request, reply, requests⟩ := trades_match faithful
    (backs.trans (linked.1.trans served.said)) outs
    (fun some => (served.heard some).trans linked.2) rfl
  have named : asked.call = call := congrArg Prod.fst entry
  have told : asked.response = response := Option.some.inj (congrArg Prod.snd entry)
  have calls : (done ++ [asked]).map RpcClient.Asked.call = before.map Prod.fst ++ [call] := by
    rw [← dones, List.map_append, List.map_map, List.map_singleton, named]
    rfl
  refine ⟨first, trade, rest, served, by rw [request, named], by rw [reply, told], ?_⟩
  rw [requests, ← calls, List.flatMap_map]
  apply List.flatMap_congr
  intro asked _
  exact asked.bytes_out

end

/-- Every response that a client gets, while all the calls before it got theirs, is what the
handlers of the server returned for that very call, after the server had read the calls up to it and
no other. -/
theorem rpc_agreement (rpc : RpcServer) (faithful : rpc.protobuf.Faithful) (server : SyncServer)
    (drift : World → World → Prop) (quiet : ∀ w w', drift w w' → Aside w w')
    (policy policy' : Policy)
    (fuel fuel' rounds : Nat) (fs fs' : FileSystem) (next : RpcClient.Log → Option RpcCall)
    (now : Pair (Guarded Op Bool) (GuardedRes Res) (Noted Bool World) (Except Thrown Bool)
      (Except Thrown RpcClient.Log))
    (run : RpcRun drift policy policy' server rpc fuel fs
      ((RpcClient.mk rpc.abi rpc.protobuf).session fuel' next rounds) fs' now)
    (before after : RpcClient.Log) (call : RpcCall) (response : RpcResponse)
    (returned : now.right = .done (.ok (before ++ (call, some response) :: after)))
    (fine : ∀ entry ∈ before, entry.2 ≠ none) :
    RpcServer.Turn drift policy rpc.abi.max_size rpc fuel (ServerProg.handleClient server rpc fuel)
      (Noted.start (World.boot fs)) now.left now.here
      ([1] ++ (before.map Prod.fst ++ [call]).flatMap (RpcClient.mk rpc.abi rpc.protobuf).wire)
      call.request response := by
  obtain ⟨first, trade, rest, served, request, reply, requests⟩ :=
    run.traded faithful quiet returned fine
  have turn := served.turns first trade rest rfl
  rwa [request, reply, requests] at turn

section

variable {α : Type} {max_size : Nat}

/-- A call after which both sides have only heard what the other has said. -/
def stays (max_size : Nat) (other : Noted Bool World) (op : Guarded Op Bool)
    (s : Noted Bool World) : Bool :=
  let after := (ServerProg.delivering other.state.sent max_size op s).2.state
  after.received.isPrefixOf other.state.sent && other.state.received.isPrefixOf after.sent

/-- One side goes on for `count` calls, while the other one waits. -/
abbrev turn (max_size : Nat) (other : Noted Bool World)
    (p : Program (Guarded Op Bool) (GuardedRes Res) α) (s : Noted Bool World) (count : Nat) :
    Option (Program (Guarded Op Bool) (GuardedRes Res) α × Noted Bool World) :=
  Program.playOn (ServerProg.delivering other.state.sent max_size) (stays max_size other) p s count

theorem turn_reach {other s : Noted Bool World} {p : Program (Guarded Op Bool) (GuardedRes Res) α}
    {count : Nat} {r : Program (Guarded Op Bool) (GuardedRes Res) α × Noted Bool World}
    (played : turn max_size other p s count = some r) :
    Program.Reach (Within ((handler ServerProg.smooth True).guarded max_size).exec (InTouch other))
      Eq p s r.1 r.2 := by
  apply Program.playOn_reach Eq _ played
  intro op s passes
  simp only [stays, Bool.and_eq_true, List.isPrefixOf_iff_prefix] at passes
  exact ⟨ServerProg.delivering_exec other.state.sent max_size op s, passes⟩

end

/-- A server of the root directory. -/
def rootServer : RpcServer :=
  ⟨plainAbi, FileSync.plainMd5, SyncService.protobuf (Base128.format SyncService.INT_MAX), [47]⟩

theorem rootServer_faithful : rootServer.protobuf.Faithful :=
  SyncService.protobuf_faithful (Base128.format_lawful (by decide)) (Nat.le_refl _)

/-- A client that lists `/a`, and asks for the file in it. -/
def twoCalls (log : RpcClient.Log) : Option RpcCall :=
  if log.length = 0 then some (.listFiles [97] true)
  else if log.length = 1 then some (.getFileMeta [97, 47, 98])
  else none

def listed : RpcResponse :=
  ⟨1, true, [], .list_files ⟨[⟨[98], [97, 47, 98], false, 1, 7, 0o100644⟩], [97], 1⟩⟩

def described : RpcResponse :=
  ⟨2, true, [], .get_file_meta
    ⟨⟨[98], [97, 47, 98], 1, 7, 0, 0o100644, hex [65], false, true⟩, true, []⟩⟩

/-- The two sides, as far as they have come. -/
abbrev Sides := Pair (Guarded Op Bool) (GuardedRes Res) (Noted Bool World) (Except Thrown Bool)
  (Except Thrown RpcClient.Log)

namespace Sides

/-- The client goes on. -/
def ask (sides : Sides) (count : Nat) : Option Sides :=
  (turn rootServer.abi.max_size sides.here sides.right sides.there count).map
    fun r => { sides with right := r.1, there := r.2 }

/-- The server goes on. -/
def answer (sides : Sides) (count : Nat) : Option Sides :=
  (turn rootServer.abi.max_size sides.there sides.left sides.here count).map
    fun r => { sides with left := r.1, here := r.2 }

/-- A run that may be gone on with. -/
def Reached (drift : World → World → Prop) (start sides : Sides) : Prop :=
  Relation.ReflTransGen
    (Pair.Step ((handler ServerProg.smooth True).guarded rootServer.abi.max_size).exec
      ((handler ServerProg.smooth True).guarded rootServer.abi.max_size).exec
      (fun s s' => drift s.state s'.state) InTouch) start sides ∧
    InTouch sides.here sides.there

variable {drift : World → World → Prop} {start sides sides' : Sides} {count : Nat}

theorem Reached.ask (reached : Reached drift start sides) (moved : sides.ask count = some sides') :
    Reached drift start sides' := by
  obtain ⟨r, played, rfl⟩ := Option.map_eq_some_iff.mp moved
  obtain ⟨further, linked⟩ := Pair.of_right_reach reached.2 (turn_reach played)
  exact ⟨reached.1.trans further, linked⟩

theorem Reached.answer (reached : Reached drift start sides)
    (moved : sides.answer count = some sides') :
    Reached drift start sides' := by
  obtain ⟨r, played, rfl⟩ := Option.map_eq_some_iff.mp moved
  have run := (turn_reach played).mono fun op s answer s' within =>
    (⟨within.1, within.2.2, within.2.1⟩ : Within _ (InTouch · sides.there) op s answer s')
  obtain ⟨further, linked⟩ := Pair.of_left_reach reached.2 run
  exact ⟨reached.1.trans further, linked⟩

/-- A client of that server. -/
def first : Sides where
  left := (ServerProg.handleClient ServerProg.bareServer rootServer 100).run
  here := Noted.start (World.boot RpcServer.nestedFs)
  right := ((RpcClient.mk rootServer.abi rootServer.protobuf).session 9 twoCalls 3).run
  there := Noted.start (World.boot FileSystem.empty)

/-- Both calls, and their answers. -/
def conversation : Option Sides := do
  let asked ← first.ask 5
  let answered ← asked.answer 11
  let more ← answered.ask 7
  let all ← more.answer 11
  all.ask 9

end Sides

/-- What the client is left with. -/
def Sides.log (sides : Sides) : Option RpcClient.Log :=
  match sides.right.value? with
  | some (.ok log) => some log
  | _ => none

theorem conversation_run (drift : World → World → Prop) {now : Sides}
    (conversed : Sides.conversation = some now) : Sides.Reached drift Sides.first now := by
  unfold Sides.conversation at conversed
  simp only [Option.bind_eq_bind, Option.bind_eq_some_iff] at conversed
  obtain ⟨asked, one, answered, two, more, three, all, four, five⟩ := conversed
  have begun : Sides.Reached drift Sides.first Sides.first :=
    ⟨.refl, List.nil_prefix, List.nil_prefix⟩
  exact ((((begun.ask one).answer two).ask three).answer four).ask five

theorem right_of_log {now : Sides} {log : RpcClient.Log} (left : now.log = some log) :
    now.right = .done (.ok log) := by
  unfold Sides.log at left
  split at left
  · next ended =>
    cases left
    exact Program.value?_eq_some.mp ended
  · cases left

/-- How that conversation ends. -/
theorem conversation_log : Sides.conversation.bind Sides.log =
    some ([(.listFiles [97] true, some listed)] ++
      (.getFileMeta [97, 47, 98], some described) :: []) := by
  decide +kernel

/-- The second call of that client. -/
theorem rpc_agreement_described : ∃ now : Sides,
    RpcRun Aside ServerProg.smooth ServerProg.smooth ServerProg.bareServer rootServer
      100 RpcServer.nestedFs
      ((RpcClient.mk rootServer.abi rootServer.protobuf).session 9 twoCalls 3)
        FileSystem.empty now ∧
    now.right = .done (.ok
      ([(.listFiles [97] true, some listed)] ++
        (.getFileMeta [97, 47, 98], some described) :: [])) ∧
    RpcServer.Turn Aside ServerProg.smooth rootServer.abi.max_size rootServer 100
      (ServerProg.handleClient ServerProg.bareServer rootServer 100)
      (Noted.start (World.boot RpcServer.nestedFs)) now.left now.here
      ([1] ++ [.listFiles [97] true, .getFileMeta [97, 47, 98]].flatMap
        (RpcClient.mk rootServer.abi rootServer.protobuf).wire)
      (RpcCall.request (.getFileMeta [97, 47, 98])) described := by
  obtain ⟨now, conversed, log⟩ := Option.bind_eq_some_iff.mp conversation_log
  have run := (conversation_run Aside conversed).1
  have returned := right_of_log log
  exact ⟨now, run, returned,
    rpc_agreement rootServer rootServer_faithful ServerProg.bareServer Aside
    (fun _ _ moved => moved) _ _ 100 9 3 _ _ twoCalls now run _ _ _ _ returned (by simp)⟩

end SyncTool
