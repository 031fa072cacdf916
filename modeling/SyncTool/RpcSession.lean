import SyncTool.ProgramTally
import SyncTool.RpcListing
import SyncTool.SessionAnswers

set_option autoImplicit false

namespace SyncTool

open LinuxFileUtil FileSync

/-- What arrives is a beginning of what is left of `stream`, and nothing only at its end. No sending
fails, and something is sent each time. Anything else may fail. -/
def conversing (stream : Bytes) : Policy
  | .recv _, choice, w => choice.fault ≠ .error ∧ choice.arrived <+: stream.drop w.received.length ∧
      (choice.arrived = [] → stream.length ≤ w.received.length)
  | .send _, choice, _ => choice.fault ≠ .error ∧ choice.count ≠ some 0
  | _, _, _ => True

/-- The answers that have a call on the connection made once more. -/
def Op.interrupted : (op : Op) → Res op → Bool
  | .recv _, answer => answer = .eintr
  | .send _, answer => answer = .eintr
  | _, _ => false

/-- A machine that talks to a client who says `stream`, with at most `most` interruptions. -/
def conversation (stream : Bytes) (most : Nat) : Handler Op Res (World × Nat) :=
  Program.tallied (handler (conversing stream) False) Op.interrupted most

theorem exists_conversation (stream : Bytes) (most : Nat) (op : Op) (s : World × Nat) :
    ∃ answer s', (conversation stream most).exec op s answer s' := by
  have allowed : conversing stream op ⟨0, .none, none, stream.drop s.1.received.length⟩ s.1 := by
    cases op with
    | recv count =>
        refine ⟨by simp, List.prefix_refl _, ?_⟩
        intro ended
        exact List.drop_eq_nil_iff.mp ended
    | send data => exact ⟨by simp, by simp⟩
    | _ => trivial
  have quiet :
      op.interrupted (op.run ⟨0, .none, none, stream.drop s.1.received.length⟩ s.1).1 = false := by
    cases op <;> rfl
  refine ⟨(op.run _ s.1).1, ((op.run _ s.1).2, s.2), ⟨_, allowed, rfl⟩, ?_⟩
  rw [if_neg (by rw [quiet]; exact Bool.false_ne_true)]

namespace World

@[simp] theorem said_nil (w : World) : w.said [] = w := by simp [said]

@[simp] theorem said_said (w : World) (first second : Bytes) :
    (w.said first).said second = w.said (first ++ second) := by
  simp [said, List.append_assoc]

@[simp] theorem said_received (w : World) (data : Bytes) : (w.said data).received = w.received :=
  rfl

@[simp] theorem said_fs (w : World) (data : Bytes) : (w.said data).fs = w.fs := rfl

end World

section

variable {stream left : Bytes} {most fuel tally : Nat} {w : World} {α : Type}
  {Q : α → World × Nat → Prop}

theorem recv_conversation {count : Nat} {next : Io Bytes → Prog α} (positive : 0 < count)
    (rest : w.received ++ left = stream)
    (again : tally < most → Program.Sat (conversation stream most) .free
      (next .eintr) Q (w, tally + 1))
    (given : ∀ data more, left = data ++ more → data.length ≤ count → (data = [] → left = []) →
      Program.Sat (conversation stream most) .free (next (.ok data)) Q (w.got data, tally)) :
    Program.Sat (conversation stream most) .free (.call (.recv count) next) Q (w, tally) := by
  intro s₁ same answer s₂ ran
  obtain rfl : (w, tally) = s₁ := same
  refine ⟨trivial, ?_⟩
  obtain ⟨w₂, tally₂⟩ := s₂
  obtain ⟨⟨choice, ⟨sound, arrived, ended⟩, ran⟩, counted⟩ := ran
  have tail : stream.drop w.received.length = left := by rw [← rest, List.drop_left]
  have length : stream.length = w.received.length + left.length := by
    rw [← rest, List.length_append]
  simp only [Op.run] at ran
  cases fault : choice.fault with
  | none =>
      rw [fault] at ran
      cases ran
      have quiet : tally₂ = tally := by simpa [Op.interrupted] using counted
      rw [quiet]
      rw [tail] at arrived
      obtain ⟨more, split⟩ := arrived
      apply given _ (choice.arrived.drop count ++ more)
      · rw [← List.append_assoc, List.take_append_drop, split]
      · exact List.length_take_le _ _
      · intro nothing
        have none_ : choice.arrived = [] := by
          rcases List.take_eq_nil_iff.mp nothing with zero | none_
          · omega
          · exact none_
        have last := ended none_
        apply List.eq_nil_of_length_eq_zero
        simp only at last
        omega
  | eintr =>
      rw [fault] at ran
      cases ran
      have ticked : tally < most ∧ tally₂ = tally + 1 := by simpa [Op.interrupted] using counted
      rw [ticked.2]
      exact again ticked.1
  | error => exact absurd fault sound

theorem send_conversation {data : Bytes} {next : Io Nat → Prog α} (nonempty : 0 < data.length)
    (again : tally < most → Program.Sat (conversation stream most) .free
      (next .eintr) Q (w, tally + 1))
    (taken : ∀ n, 0 < n → n ≤ data.length →
      Program.Sat (conversation stream most) .free (next (.ok n)) Q (w.said (data.take n), tally)) :
    Program.Sat (conversation stream most) .free (.call (.send data) next) Q (w, tally) := by
  intro s₁ same answer s₂ ran
  obtain rfl : (w, tally) = s₁ := same
  refine ⟨trivial, ?_⟩
  obtain ⟨w₂, tally₂⟩ := s₂
  obtain ⟨⟨choice, ⟨sound, some⟩, ran⟩, counted⟩ := ran
  simp only [Op.run] at ran
  cases fault : choice.fault with
  | none =>
      rw [fault] at ran
      cases ran
      have quiet : tally₂ = tally := by simpa [Op.interrupted] using counted
      rw [quiet]
      apply taken
      · exact Choice.limit_pos some nonempty
      · exact choice.limit_le _
  | eintr =>
      rw [fault] at ran
      cases ran
      have ticked : tally < most ∧ tally₂ = tally + 1 := by simpa [Op.interrupted] using counted
      rw [ticked.2]
      exact again ticked.1
  | error => exact absurd fault sound

end

namespace RpcServer

section

variable {stream left : Bytes} {most fuel tally : Nat} {w : World} {refuses : Prop}

/-- Receiving ends with the bytes that were asked for, or at the end of the stream. -/
theorem recvAll_conversation {size : Nat} {received : Bytes} (rest : w.received ++ left = stream)
    (short : received.length ≤ size) (enough : size - received.length + (most - tally) < fuel) :
    Program.Sat (conversation stream most) .free (recvAll size fuel received)
      (fun out s' => out = (if size - received.length ≤ left.length
          then some (received ++ left.take (size - received.length)) else none) ∧
        s'.1 = w.got (left.take (size - received.length))) (w, tally) := by
  induction fuel generalizing received left w tally with
  | zero => omega
  | succ fuel ih =>
      simp only [recvAll, Program.ask_bind]
      by_cases more : received.length < size
      · rw [if_pos more]
        apply recv_conversation (by omega) rest
        · intro few
          apply ih rest short
          show size - received.length + (most - (tally + 1)) < fuel
          omega
        · intro data later split inside ends
          show Program.Sat _ _ (if data = [] then _ else _) _ _
          by_cases nothing : data = []
          · rw [if_pos nothing]
            obtain rfl := ends nothing
            intro s₁ same
            obtain rfl := same
            rw [if_neg (by simp; omega)]
            exact ⟨rfl, by simp [nothing]⟩
          · rw [if_neg nothing]
            have some : 0 < data.length := List.length_pos_of_ne_nil nothing
            have longer :
                size - (received ++ data).length = size - received.length - data.length := by
              rw [List.length_append]
              omega
            have whole : left.take (size - received.length) =
                data ++ later.take (size - received.length - data.length) := by
              rw [split, List.take_append, List.take_of_length_le inside]
            have again : (w.got data).received ++ later = stream := by
              rw [World.got_received, List.append_assoc, ← split, rest]
            apply (ih again _ _).weaken
            · intro out s' after
              rw [longer] at after
              rw [whole]
              obtain ⟨result, at_⟩ := after
              refine ⟨?_, by rw [at_, World.got_got]⟩
              rw [result, List.append_assoc]
              have length : left.length = data.length + later.length := by
                rw [split, List.length_append]
              by_cases fits : size - received.length ≤ left.length
              · rw [if_pos fits, if_pos (by omega)]
              · rw [if_neg fits, if_neg (by omega)]
            · rw [List.length_append]
              omega
            · rw [longer]
              show _ + (most - tally) < fuel
              omega
      · rw [if_neg more]
        intro s₁ same
        obtain rfl := same
        have full : size - received.length = 0 := by omega
        simp [full]

/-- All the data is sent. -/
theorem sendAll_conversation {data : Bytes} {sent : Nat} (within : sent ≤ data.length)
    (enough : data.length - sent + (most - tally) < fuel) :
    Program.Sat (conversation stream most) .free (sendAll data fuel sent)
      (fun ok s' => ok = true ∧ s'.1 = w.said (data.drop sent)) (w, tally) := by
  induction fuel generalizing sent w tally with
  | zero => omega
  | succ fuel ih =>
      simp only [sendAll, Program.ask_bind]
      by_cases more : sent < data.length
      · rw [if_pos more]
        have length : (data.drop sent).length = data.length - sent := List.length_drop
        apply send_conversation (by omega)
        · intro few
          apply ih within
          show data.length - sent + (most - (tally + 1)) < fuel
          omega
        · intro n some inside
          show Program.Sat _ _ (if n = 0 then _ else _) _ _
          rw [if_neg (by omega)]
          apply (ih (by omega) _).weaken
          · intro ok s' after
            refine ⟨after.1, ?_⟩
            rw [after.2, World.said_said, ← List.drop_drop, List.take_append_drop]
          · show data.length - (sent + n) + (most - tally) < fuel
            omega
      · rw [if_neg more]
        intro s₁ same
        obtain rfl := same
        have all : data.drop sent = [] := List.drop_eq_nil_iff.mpr (by omega)
        simp [all]

/-- A request as it comes over the connection: a type word, the length of the payload, and the
payload. -/
structure Frame (server : RpcServer) where
  type : Nat
  payload : Bytes
  request : RpcRequest
  type_lt : type < 256 ^ 4
  payload_pos : 0 < payload.length
  payload_lt : payload.length < 256 ^ 4
  parses : server.protobuf.parseRequest payload = some request

variable {server : RpcServer}

def Frame.bytes (frame : Frame server) : Bytes :=
  server.abi.encode 4 frame.type ++ (server.abi.encode 4 frame.payload.length ++ frame.payload)

/-- The length word of a request. -/
theorem Frame.measured (frame : Frame server) (more : Bytes) :
    ((frame.bytes ++ more).drop 4).take 4 = server.abi.encode 4 frame.payload.length := by
  have front : (frame.bytes ++ more).drop 4 =
      server.abi.encode 4 frame.payload.length ++ (frame.payload ++ more) := by
    rw [Frame.bytes, List.append_assoc, List.append_assoc]
    exact List.drop_left' (server.abi.length_encode 4 frame.type)
  rw [front]
  exact List.take_left' (server.abi.length_encode 4 frame.payload.length)

/-- The request that a stream begins with, and what follows it. -/
def nextRequest (server : RpcServer) (left : Bytes) : Option (RpcRequest × Bytes) :=
  if left.length < 8 then none
  else
    let payloadLen := server.abi.decode ((left.drop 4).take 4)
    if payloadLen = 0 ∨ (left.drop 8).length < payloadLen then none
    else (server.protobuf.parseRequest ((left.drop 8).take payloadLen)).map
      fun request => (request, (left.drop 8).drop payloadLen)

theorem nextRequest_frame (frame : Frame server) (more : Bytes) :
    server.nextRequest (frame.bytes ++ more) = some (frame.request, more) := by
  have type_length := server.abi.length_encode 4 frame.type
  have length_length := server.abi.length_encode 4 frame.payload.length
  have front : (frame.bytes ++ more).drop 4 =
      server.abi.encode 4 frame.payload.length ++ (frame.payload ++ more) := by
    rw [Frame.bytes, List.append_assoc, List.append_assoc]
    exact List.drop_left' type_length
  have behind : (frame.bytes ++ more).drop 8 = frame.payload ++ more := by
    have split : (frame.bytes ++ more).drop 8 = ((frame.bytes ++ more).drop 4).drop 4 := by
      rw [List.drop_drop]
    rw [split, front]
    exact List.drop_left' length_length
  have long : ¬ (frame.bytes ++ more).length < 8 := by
    rw [Frame.bytes]
    simp only [List.length_append]
    omega
  have inside :
      ¬ (frame.payload.length = 0 ∨ (frame.payload ++ more).length < frame.payload.length) := by
    have := frame.payload_pos
    rw [List.length_append]
    omega
  unfold nextRequest
  rw [if_neg long]
  simp only [frame.measured more, behind, server.abi.decode_encode frame.payload_lt]
  rw [if_neg inside, List.take_left, List.drop_left, frame.parses]
  rfl

/-- A stream that begins with no request. -/
theorem nextRequest_none (cut : ∀ frame : Frame server, ¬ frame.bytes <+: left) :
    server.nextRequest left = none := by
  unfold nextRequest
  split
  · rfl
  · next long =>
    have long_ : 8 ≤ left.length := Nat.le_of_not_lt long
    have type_length : (left.take 4).length = 4 := by
      rw [List.length_take]
      omega
    have length_length : ((left.drop 4).take 4).length = 4 := by
      rw [List.length_take, List.length_drop]
      omega
    have type_lt := server.abi.decode_lt (left.take 4)
    have payload_lt := server.abi.decode_lt ((left.drop 4).take 4)
    rw [type_length] at type_lt
    rw [length_length] at payload_lt
    simp only
    split
    · rfl
    · next whole =>
      rw [Option.map_eq_none_iff]
      by_contra parsed
      obtain ⟨request, parses⟩ := Option.ne_none_iff_exists'.mp parsed
      have payload_length : ((left.drop 8).take (server.abi.decode ((left.drop 4).take 4))).length =
          server.abi.decode ((left.drop 4).take 4) := by
        rw [List.length_take]
        omega
      let frame : Frame server :=
        ⟨server.abi.decode (left.take 4),
          (left.drop 8).take (server.abi.decode ((left.drop 4).take 4)),
          request, type_lt, by omega, by omega, parses⟩
      apply cut frame
      have typed : server.abi.encode 4 (server.abi.decode (left.take 4) : Nat) = left.take 4 := by
        have back := server.abi.encode_decode (left.take 4)
        rwa [type_length] at back
      have measured : server.abi.encode 4 (frame.payload.length : Nat) = (left.drop 4).take 4 := by
        have back := server.abi.encode_decode ((left.drop 4).take 4)
        rw [length_length] at back
        show server.abi.encode 4
          (((left.drop 8).take (server.abi.decode ((left.drop 4).take 4))).length : Nat) = _
        rw [payload_length, back]
      have behind : left.drop 8 = (left.drop 4).drop 4 := by rw [List.drop_drop]
      refine ⟨(left.drop 8).drop (server.abi.decode ((left.drop 4).take 4)), ?_⟩
      show server.abi.encode 4 (server.abi.decode (left.take 4) : Nat) ++
        (server.abi.encode 4 (frame.payload.length : Nat) ++ frame.payload) ++ _ = left
      rw [typed, measured, List.append_assoc, List.append_assoc, List.take_append_drop, behind,
        List.take_append_drop, List.take_append_drop]

theorem recvUint32_conversation (rest : w.received ++ left = stream) (enough : 4 + most < fuel) :
    Program.Sat (conversation stream most) .free (server.recvUint32 fuel)
      (fun out s' => out = (if 4 ≤ left.length then
        some (server.abi.decode (left.take 4)) else none) ∧
        s'.1 = w.got (left.take 4)) (w, tally) := by
  apply Program.Sat.bind
  apply (recvAll_conversation rest (Nat.zero_le 4) (by simp; omega)).weaken
  intro out s' after s'' same
  obtain rfl : s' = s'' := same
  obtain ⟨rfl, here⟩ := after
  refine ⟨?_, here⟩
  simp only [List.length_nil, Nat.sub_zero, List.nil_append]
  split
  · rfl
  · rfl

/-- What is received is the request that the stream goes on with. -/
theorem receiveRequest_conversation (rest : w.received ++ left = stream)
    (enough : 256 ^ 4 + most < fuel)
    (fits : refuses ∨ server.abi.decode ((left.drop 4).take 4) ≤ server.abi.max_size) :
    Throwing.Unrefused (conversation stream most) server.abi.max_size refuses
      (ServerProg.receiveRequest server fuel)
      (fun out s' => out = (server.nextRequest left).map Prod.fst ∧ ∃ taken, s'.1 = w.got taken ∧
        ∀ request later, server.nextRequest left = some (request, later) → taken ++ later = left)
      (w, tally) := by
  -- where there is no request
  have fails : ∀ taken s', server.nextRequest left = none → s'.1 = w.got taken →
      Throwing.Unrefused (conversation stream most) server.abi.max_size refuses
        (pure none : ServerProg (Option RpcRequest))
        (fun out s' => out = (server.nextRequest left).map Prod.fst ∧ ∃ taken, s'.1 = w.got taken ∧
          ∀ request later, server.nextRequest left = some (request, later) →
            taken ++ later = left) s' := by
    intro taken s' nothing here
    apply Throwing.unrefused_pure
    rw [nothing]
    exact ⟨rfl, taken, here, by simp⟩
  apply Throwing.Unrefused.bind
  apply Throwing.unrefused_system (recvUint32_works server fuel)
  apply (recvUint32_conversation rest (by omega)).weaken
  intro type s₁ after
  obtain ⟨rfl, here⟩ := after
  by_cases typed : 4 ≤ left.length
  · rw [if_pos typed]
    show Throwing.Unrefused _ _ _ (_ >>= _) _ _
    obtain ⟨w₁, tally₁⟩ := s₁
    obtain rfl : w₁ = w.got (left.take 4) := here
    have rest₁ : (w.got (left.take 4)).received ++ left.drop 4 = stream := by
      rw [World.got_received, List.append_assoc, List.take_append_drop, rest]
    apply Throwing.Unrefused.bind
    apply Throwing.unrefused_system (recvUint32_works server fuel)
    apply (recvUint32_conversation rest₁ (by omega)).weaken
    intro payloadLen s₂ after
    obtain ⟨rfl, here⟩ := after
    by_cases measured : 4 ≤ (left.drop 4).length
    · rw [if_pos measured]
      obtain ⟨w₂, tally₂⟩ := s₂
      rw [World.got_got] at here
      obtain rfl : w₂ = w.got (left.take 4 ++ (left.drop 4).take 4) := here
      have long : ¬ left.length < 8 := by
        rw [List.length_drop] at measured
        omega
      have behind : left.drop 8 = (left.drop 4).drop 4 := by rw [List.drop_drop]
      have rest₂ : (w.got (left.take 4 ++ (left.drop 4).take 4)).received ++
          left.drop 8 = stream := by
        rw [World.got_received, behind, List.append_assoc, List.append_assoc, List.take_append_drop,
          List.take_append_drop, rest]
      have payload_lt := server.abi.decode_lt ((left.drop 4).take 4)
      have four : ((left.drop 4).take 4).length = 4 := by
        rw [List.length_take]
        omega
      rw [four] at payload_lt
      show Throwing.Unrefused _ _ _ (if _ = 0 then _ else _) _ _
      by_cases empty : server.abi.decode ((left.drop 4).take 4) = 0
      · rw [if_pos empty]
        apply fails _ _ _ rfl
        unfold nextRequest
        rw [if_neg long]
        simp [empty]
      · rw [if_neg empty]
        apply Throwing.unrefused_allocate fits
        apply Throwing.Unrefused.bind
        apply Throwing.unrefused_system (recvAll_works _ _ _)
        apply (recvAll_conversation rest₂ (Nat.zero_le _) (by simp; omega)).weaken
        intro payload s₃ after
        obtain ⟨rfl, here⟩ := after
        simp only [List.length_nil, Nat.sub_zero, List.nil_append] at here ⊢
        rw [World.got_got] at here
        apply Throwing.unrefused_pure
        by_cases whole : server.abi.decode ((left.drop 4).take 4) ≤ (left.drop 8).length
        · have found : server.nextRequest left = (server.protobuf.parseRequest
              ((left.drop 8).take (server.abi.decode ((left.drop 4).take 4)))).map
              fun request => (request,
                (left.drop 8).drop (server.abi.decode ((left.drop 4).take 4))) := by
            unfold nextRequest
            rw [if_neg long]
            simp only
            rw [if_neg (by omega)]
          rw [if_pos whole, found, Option.map_map]
          refine ⟨?_, _, here, ?_⟩
          · show server.protobuf.parseRequest _ = _
            exact Option.map_id'.symm
          · intro request later same
            obtain ⟨parsed, -, same⟩ := Option.map_eq_some_iff.mp same
            cases same
            rw [List.append_assoc, List.append_assoc, List.take_append_drop, behind,
              List.take_append_drop, List.take_append_drop]
        · rw [if_neg whole]
          have nothing : server.nextRequest left = none := by
            unfold nextRequest
            rw [if_neg long]
            simp only
            rw [if_pos (by omega)]
          rw [nothing]
          exact ⟨rfl, _, here, by simp⟩
    · rw [if_neg measured]
      rw [World.got_got] at here
      apply fails _ _ _ here
      unfold nextRequest
      rw [List.length_drop] at measured
      rw [if_pos (by omega)]
  · rw [if_neg typed]
    apply fails _ _ _ here
    unfold nextRequest
    rw [if_pos (by omega)]

/-- What the handler of a request comes to on a machine as it is now. -/
def Handled (server : RpcServer) (fuel : Nat) (stream : Bytes) (w : World) (request : RpcRequest)
    (payload : Option ResponsePayload) : Prop :=
  if request.type = RPC_LIST_FILES then
    ∃ resp, payload = resp.map .list_files ∧
      Program.Reach (handler (conversing stream) False).exec Eq
      (server.handleListFiles fuel request.list_files) w (.done resp) w
  else if request.type = RPC_GET_FILE_META then
    ∃ resp, payload = resp.map .get_file_meta ∧
      Program.Reach (handler (conversing stream) False).exec Eq
      (server.handleGetFileMeta fuel request.get_file_meta) w (.done resp) w
  else payload = none

/-- The response to a request of which the handler has made `payload`. -/
def verdict (request : RpcRequest) (payload : Option ResponsePayload) : RpcResponse :=
  match payload with
  | some payload => ⟨request.type, true, [], payload⟩
  | none => ⟨request.type, false,
      if request.type = RPC_LIST_FILES ∨
        request.type = RPC_GET_FILE_META then ascii "processing failed"
      else ascii "unknown RPC type", .none⟩

theorem verdict_type (request : RpcRequest) (payload : Option ResponsePayload) :
    (verdict request payload).type = request.type := by
  cases payload <;> rfl

theorem verdict_success (request : RpcRequest) (payload : Option ResponsePayload) :
    (verdict request payload).success = true ↔ payload ≠ none := by
  cases payload <;> simp [verdict]

theorem verdict_error (request : RpcRequest) (payload : Option ResponsePayload)
    (failed : (verdict request payload).success = false) :
    (verdict request payload).error ≠ [] := by
  cases payload with
  | some payload => cases failed
  | none =>
      show (if _ then ascii "processing failed" else ascii "unknown RPC type") ≠ []
      split
      · decide
      · decide

/-- A response that a request may get while the file system is `fs`. -/
def Answers (server : RpcServer) (fuel : Nat) (stream : Bytes) (fs : FileSystem)
    (request : RpcRequest) (response : RpcResponse) : Prop :=
  ∃ w payload, w.fs = fs ∧ server.Handled fuel stream w request payload ∧
    response = verdict request payload

theorem still_free (w w' : World) (same : (Interference.free : Interference World).rely w w') :
    w' = w :=
  Eq.symm same

section

variable {policy : Policy}

theorem run_get (path : Bytes) (pos count : Nat) (choice : Choice) (w : World) : ∃ block : Bytes,
    block.length ≤ (World.slice ((w.fs.read path).getD []) pos count).length ∧
      (Op.get path pos count).run choice w = (block, w) := by
  refine ⟨_, ?_, rfl⟩
  split
  · exact le_refl _
  · rw [List.length_take]
    exact Nat.min_le_right _ _

/-- Reading a file comes to an end, whether it fails or not. -/
theorem updateBlocks_ends {path : Bytes} {pos : Nat} (ctx : server.md5.Ctx)
    (inside : pos ≤ ((w.fs.read path).getD []).length)
    (enough : ((w.fs.read path).getD []).length < pos + fuel * 4096) :
    Program.Sat (handler policy False) .free (updateBlocks server.md5 path fuel pos ctx)
      (fun _ w' => w' = w) w := by
  induction fuel generalizing pos ctx with
  | zero => omega
  | succ fuel ih =>
      simp only [updateBlocks, Program.ask_bind]
      refine Program.sat_op.mpr fun w₁ same choice _ => ?_
      obtain rfl := still_free _ _ same
      obtain ⟨block, short, ran⟩ := run_get path pos 4096 choice w₁
      have length := World.length_slice ((w₁.fs.read path).getD []) pos 4096
      rw [ran]
      refine ⟨trivial, ?_⟩
      apply Program.Sat.ite
      · intro full
        have all : block.length = 4096 := full
        apply ih
        · omega
        · omega
      · intro _
        apply Program.Sat.ite
        · intro _
          exact still_free w₁
        · intro _
          exact still_free w₁

theorem handleGetFileMeta_ends (request : GetFileMetaRequest)
    (affords : ∀ path content, w.fs.read path = some content → content.length < fuel * 4096)
    (positive : 0 < fuel) :
    Program.Sat (handler policy False) .free (server.handleGetFileMeta fuel request)
      (fun _ w' => w' = w) w := by
  simp only [handleGetFileMeta, Program.ask_bind]
  refine Program.sat_look still_free (fun _ _ => rfl) fun choice _ => ?_
  cases w.fs.stat (cString (server.baseDirectory ++ request.file_path)) with
  | none => exact still_free w
  | some st =>
      refine Program.sat_look still_free (fun _ _ => rfl) fun choice _ => ?_
      apply Program.Sat.ite
      · intro _
        exact still_free w
      · intro _
        apply Program.Sat.bind
        simp only [calculateFileMD5, Program.ask_bind]
        refine Program.sat_look still_free (fun _ _ => rfl) fun choice _ => ?_
        apply Program.Sat.ite
        · intro _
          apply Program.Sat.bind
          have small :
              ((w.fs.read (cString (server.baseDirectory ++ request.file_path))).getD []).length <
                0 + fuel * 4096 := by
            cases read : w.fs.read (cString (server.baseDirectory ++ request.file_path)) with
            | none =>
                simp only [Option.getD_none, List.length_nil]
                omega
            | some content =>
                have := affords _ content read
                simp only [Option.getD_some]
                omega
          apply (updateBlocks_ends _ (Nat.zero_le _) small).weaken
          intro ctx w' same w'' drift
          obtain rfl := still_free _ _ drift
          subst same
          exact still_free w''
        · intro _ w' same
          obtain rfl := still_free _ _ same
          exact still_free w'

/-- A request for a recursive listing that goes round for ever: a zero byte cuts the path string to
that of a directory with something in it, and the path strings of what is in it as well. -/
def Endless (server : RpcServer) (fs : FileSystem) (request : RpcRequest) : Prop :=
  request.type = RPC_LIST_FILES ∧ request.list_files.recursive = true ∧
    0 ∈ server.baseDirectory ++ request.list_files.directory ∧
    fs.readdir (cString (server.baseDirectory ++ request.list_files.directory)) ≠ []

instance (server : RpcServer) (fs : FileSystem) (request : RpcRequest) :
    Decidable (server.Endless fs request) := inferInstanceAs (Decidable (_ ∧ _))

theorem handleListFiles_ends (baseDir : Bytes) (request : RpcRequest)
    (type : request.type = RPC_LIST_FILES)
    (ends : ¬ (server.setBaseDirectory baseDir).Endless w.fs request) (positive : 0 < fuel)
    (affords : ∀ p, w.fs.entry p ≠ none → Affords False w.fs p fuel fuel) :
    Program.Sat (handler policy False) .free
      ((server.setBaseDirectory baseDir).handleListFiles fuel request.list_files)
      (fun _ w' => w' = w) w := by
  simp only [handleListFiles, Program.ask_bind]
  refine Program.sat_look still_free (fun _ _ => rfl) fun choice _ => ?_
  by_cases zero : 0 ∈ (server.setBaseDirectory baseDir).baseDirectory ++
    request.list_files.directory
  · have flat : request.list_files.recursive = false ∨ w.fs.readdir
        (cString ((server.setBaseDirectory baseDir).baseDirectory ++
          withSlash request.list_files.directory)) = [] := by
      by_cases recursive : request.list_files.recursive = true
      · right
        rw [cString_withSlash zero]
        by_contra some_
        exact ends ⟨type, recursive, zero, some_⟩
      · left
        simpa using recursive
    cases w.fs.stat
        (cString ((server.setBaseDirectory baseDir).baseDirectory ++
          request.list_files.directory)) with
    | none => exact still_free w
    | some st =>
        apply Program.Sat.ite
        · intro _
          apply Program.Sat.bind
          apply (listDirectory_ends still_free positive flat).weaken
          intro response w' same w'' drift
          exact (still_free _ _ drift).trans same
        · intro _
          exact still_free w
  rw [cString_eq_self.mpr zero]
  cases stat : w.fs.stat
      ((server.setBaseDirectory baseDir).baseDirectory ++ request.list_files.directory) with
  | none => exact still_free w
  | some st =>
      apply Program.Sat.ite
      · intro isDir
        obtain ⟨p, found, here⟩ := FileSystem.stat_eq_some.mp stat
        have entry : w.fs.entry p = some .dir := by
          rw [FileSystem.entry, here, Option.map_some]
          rw [Node.isDir_st_mode] at isDir
          simpa using isDir
        have blank : Counted ⟨[], request.list_files.directory, 0⟩ := rfl
        have listed := @listDirectory_sat policy False .free w (server.setBaseDirectory baseDir)
          request.list_files.recursive p fuel fuel _ still_free _ (opens_withSlash found entry)
          (affords p (by simp [entry])) blank
        apply Program.Sat.bind
        apply listed.weaken
        intro response w' after w'' same
        obtain rfl := still_free _ _ same
        exact after.2
      · intro _
        exact still_free w

end

/-- A request is answered, while the connection stays as it is. -/
theorem respond_conversation (baseDir : Bytes) (request : RpcRequest)
    (ends : ¬ (server.setBaseDirectory baseDir).Endless w.fs request)
    (listing : ∀ p, w.fs.entry p ≠ none → Affords False w.fs p fuel fuel)
    (reading : ∀ path content, w.fs.read path = some content → content.length < fuel * 4096)
    (positive : 0 < fuel) :
    Program.Sat (conversation stream most) .free
      ((server.setBaseDirectory baseDir).respond fuel request)
      (fun response s' => (server.setBaseDirectory baseDir).Answers fuel stream
        w.fs request response ∧
        s'.1 = w) (w, tally) := by
  have quiet : ∀ (op : Op) (answer : Res op), op.looks → op.interrupted answer = false := by
    intro op answer looks
    cases op with
    | recv count => exact looks.elim
    | send data => exact looks.elim
    | _ => rfl
  have ran : Program.Sat (handler (conversing stream) False) .free
      ((server.setBaseDirectory baseDir).respond fuel request)
      (fun response w' =>
        (server.setBaseDirectory baseDir).Answers fuel stream w.fs request response ∧
          w' = w) w := by
    unfold respond
    apply Program.Sat.ite
    · intro listed
      apply Program.Sat.bind
      apply ((handleListFiles_looks _ fuel request.list_files).sat_run
        (handleListFiles_ends baseDir request listed ends positive listing)).weaken
      intro resp w' after w'' drift
      obtain rfl := still_free _ _ drift
      obtain ⟨rfl, run⟩ := after
      refine ⟨⟨w'', resp.map .list_files, rfl, ?_, ?_⟩, rfl⟩
      · rw [Handled, if_pos listed]
        exact ⟨resp, rfl, run⟩
      · cases resp <;> simp [verdict, listed]
    · intro other
      apply Program.Sat.ite
      · intro asked
        apply Program.Sat.bind
        apply ((handleGetFileMeta_looks _ fuel request.get_file_meta).sat_run
          (handleGetFileMeta_ends request.get_file_meta reading positive)).weaken
        intro resp w' after w'' drift
        obtain rfl := still_free _ _ drift
        obtain ⟨rfl, run⟩ := after
        refine ⟨⟨w'', resp.map .get_file_meta, rfl, ?_, ?_⟩, rfl⟩
        · rw [Handled, if_neg other, if_pos asked]
          exact ⟨resp, rfl, run⟩
        · cases resp <;> simp [verdict, asked]
      · intro unknown w' same
        obtain rfl := still_free _ _ same
        refine ⟨⟨w', none, rfl, ?_, ?_⟩, rfl⟩
        · rw [Handled, if_neg other, if_neg unknown]
        · simp [verdict, other, unknown]
  have tallied : Program.Sat (conversation stream most) .free
      ((server.setBaseDirectory baseDir).respond fuel request) _ (w, tally) :=
    (respond_looks (server.setBaseDirectory baseDir) fuel request).sat_tallied quiet ran
  exact tallied.weaken fun response s' after => after.1

/-- A response as it goes over the connection. -/
structure Reply (server : RpcServer) where
  response : RpcResponse
  body : Bytes
  serialized : server.protobuf.serializeResponse response = some body

def Reply.bytes (reply : Reply server) : Bytes :=
  server.abi.encode 4 reply.response.type ++ (server.abi.encode 4 reply.body.length ++ reply.body)

theorem sendFrame_conversation (type : Nat) {serialized : Bytes}
    (small : serialized.length < 2 ^ 31) (enough : 256 ^ 4 + most < fuel) :
    Program.Sat (conversation stream most) .free (server.sendFrame fuel type serialized)
      (fun ok s' => ok = true ∧ s'.1 = w.said (server.abi.encode 4 type ++
        (server.abi.encode 4 serialized.length ++ serialized))) (w, tally) := by
  have type_length := server.abi.length_encode 4 type
  have length_length := server.abi.length_encode 4 serialized.length
  apply Program.Sat.bind
  apply (sendAll_conversation (Nat.zero_le _) (by omega)).weaken
  intro typed s₁ after
  obtain ⟨rfl, here⟩ := after
  obtain ⟨w₁, tally₁⟩ := s₁
  simp only at here
  subst here
  apply Program.Sat.bind
  apply (sendAll_conversation (Nat.zero_le _) (by omega)).weaken
  intro measured s₂ after
  obtain ⟨rfl, here⟩ := after
  obtain ⟨w₂, tally₂⟩ := s₂
  simp only at here
  subst here
  have whole : serialized.take (serialized.length % 256 ^ 4) = serialized := by
    apply List.take_of_length_le
    omega
  show Program.Sat _ _ (sendAll (serialized.take (serialized.length % 256 ^ 4)) fuel 0) _ _
  rw [whole]
  apply (sendAll_conversation (Nat.zero_le _) (by omega)).weaken
  intro ok s₃ after
  refine ⟨after.1, ?_⟩
  rw [after.2, World.said_said, World.said_said, List.drop_zero, List.drop_zero, List.drop_zero]

/-- Sending a response. -/
theorem sendResponse_conversation (reply : Reply server) (small : reply.body.length < 2 ^ 31)
    (enough : 256 ^ 4 + most < fuel) :
    Throwing.Unrefused (conversation stream most) server.abi.max_size refuses
      (ServerProg.sendResponse server fuel reply.response)
      (fun ok s' => ok = true ∧ s'.1 = w.said reply.bytes) (w, tally) := by
  unfold ServerProg.sendResponse
  rw [reply.serialized]
  apply Throwing.unrefused_system (sendFrame_serves server fuel _ _)
  exact sendFrame_conversation reply.response.type small enough

end

end RpcServer

/-- How responses are written: no more than the library allows for, and so that they can be read
back. -/
structure Protobuf.Inverse (protobuf : Protobuf) : Prop where
  parses : ∀ response bytes, protobuf.serializeResponse response = some bytes →
    protobuf.parseResponse bytes = some response
  limit : ∀ response bytes, protobuf.serializeResponse response = some bytes → bytes.length < 2 ^ 31

namespace RpcServer

/-- A reply to a request, that a client reads as it was meant. -/
structure Replies (server : RpcServer) (fuel : Nat) (stream : Bytes) (fs : FileSystem)
    (request : RpcRequest) (reply : Reply server) : Prop where
  type : reply.response.type = request.type
  /-- The length that is sent is that of the body. -/
  measured : server.abi.decode (server.abi.encode 4 reply.body.length) = reply.body.length
  parses : server.protobuf.parseResponse reply.body = some reply.response
  handled : ∃ w payload, w.fs = fs ∧ server.Handled fuel stream w request payload ∧
    reply.response.payload = payload.getD .none ∧ (reply.response.success = true ↔ payload ≠ none)
  error : reply.response.success = false → reply.response.error ≠ []

section

variable {server : RpcServer} {stream left rest : Bytes} {most fuel : Nat} {fs : FileSystem}
  {refuses : Prop}

theorem Answers.replies (inverse : server.protobuf.Inverse) {request : RpcRequest}
    {reply : Reply server} (answers : server.Answers fuel stream fs request reply.response) :
    server.Replies fuel stream fs request reply := by
  obtain ⟨w, payload, here, handled, same⟩ := answers
  have small := inverse.limit _ _ reply.serialized
  constructor
  · rw [same, verdict_type]
  · apply server.abi.decode_encode
    omega
  · exact inverse.parses _ _ reply.serialized
  · refine ⟨w, payload, here, handled, ?_, ?_⟩
    · rw [same]
      cases payload <;> rfl
    · rw [same, verdict_success]
  · rw [same]
    exact verdict_error request payload

/-- The connection is closed, and nothing is said. -/
theorem close_conversation (verdict : Bool) (s : World × Nat) {max_size : Nat} :
    Throwing.Unrefused (conversation stream most) max_size refuses
      (do
        Throwing.system Sys.closeSocket
        pure verdict : ServerProg Bool)
      (fun result s' => result = verdict ∧ s'.1 = { s.1 with closes := s.1.closes + 1 }) s := by
  have closed : Program.Sat (conversation stream most) .free Sys.closeSocket
      (fun _ s' => s'.1 = { s.1 with closes := s.1.closes + 1 }) s := by
    intro s₁ same answer s₂ ran
    obtain rfl : s = s₁ := same
    obtain ⟨⟨choice, -, ran⟩, -⟩ := ran
    refine ⟨trivial, fun s₃ same => ?_⟩
    obtain rfl : s₂ = s₃ := same
    exact (congrArg Prod.snd ran).symm
  have straight : (Sys.closeSocket).Calls fun _ => True := Program.calls_ask.mpr trivial
  apply Throwing.Unrefused.bind
  apply Throwing.unrefused_system straight
  apply closed.weaken
  intro _ s' here
  apply Throwing.unrefused_pure
  exact ⟨rfl, here⟩

/-- The same machine, on which a loop may go on for ever. -/
def wandering (stream : Bytes) (most : Nat) : Handler Op Res (World × Nat) where
  exec := (conversation stream most).exec
  spins := True

/-- Such a request is never answered. -/
theorem respond_endless {w : World} {tally : Nat} {request : RpcRequest}
    (endless : server.Endless w.fs request) :
    Program.Sat (wandering stream most) .free (server.respond fuel request) (fun _ _ => False)
      (w, tally) := by
  obtain ⟨type, recursive, zero, some_⟩ := endless
  obtain ⟨node, looked, isDir⟩ := FileSystem.stat_of_readdir some_
  unfold respond
  rw [if_pos type]
  apply Program.Sat.bind
  simp only [handleListFiles, Program.ask_bind]
  intro s₁ here st s₂ ran
  obtain rfl : (w, tally) = s₁ := here
  refine ⟨trivial, ?_⟩
  obtain ⟨⟨choice, -, ran⟩, -⟩ := ran
  obtain ⟨told, now⟩ := Prod.ext_iff.mp ran
  obtain rfl : w.fs.stat _ = st := told
  rw [looked]
  simp only [Node.isDir_st_mode, isDir, decide_true, ↓reduceIte, recursive]
  apply Program.Sat.bind
  have goes := @listDirectory_endless server fuel ⟨[], request.list_files.directory, 0⟩ _
    (wandering stream most) trivial (fun s => s.1 = w) _ request.list_files.directory zero rfl
  apply (goes _ _ now.symm).weaken
  · exact fun _ _ impossible => impossible.elim
  · intro s names s' now ran
    obtain ⟨⟨choice, -, ran⟩, -⟩ := ran
    obtain ⟨told, same⟩ := Prod.ext_iff.mp ran
    rw [now] at told same
    refine ⟨?_, same.symm⟩
    intro nothing
    rw [nothing] at told
    exact some_ told
  · intro s st s' now ran
    obtain ⟨⟨choice, -, ran⟩, -⟩ := ran
    obtain ⟨told, same⟩ := Prod.ext_iff.mp ran
    rw [now] at told same
    exact ⟨⟨node, told.symm.trans looked, isDir⟩, same.symm⟩

/-- One round of the loop, on a machine that answers in some of these ways: the request is received,
what it comes to is sent, and the rest follows, if an answer is possible at all. -/
theorem answer_frame (H : Handler Op Res (World × Nat)) (possible : Prop)
    (le : ∀ op s answer s', H.exec op s answer s' → (conversation stream most).exec op s answer s')
    (inverse : server.protobuf.Inverse) (frame : Frame server)
    (fits : refuses ∨ frame.payload.length ≤ server.abi.max_size)
    (serializes : possible → ∀ response, server.Answers fuel stream fs frame.request response →
      server.protobuf.serializeResponse response ≠ none)
    (enough : 256 ^ 4 + most < fuel) {rounds tally : Nat} {w : World} {firstRequest : Bool}
    {Q : Bool → World × Nat → Prop} (sofar : w.received ++ (frame.bytes ++ left) = stream)
    (responds : ∀ tally, Program.Sat H .free (server.respond fuel frame.request)
      (fun response s' => (server.Answers fuel stream fs frame.request response ∧
        s'.1 = w.got frame.bytes) ∧ possible) (w.got frame.bytes, tally))
    (rest : possible → ∀ reply, server.Replies fuel stream fs frame.request reply → ∀ tally,
      Throwing.Unrefused H server.abi.max_size refuses
        (ServerProg.answerRequests server fuel rounds false) Q
        ((w.got frame.bytes).said reply.bytes, tally)) :
    Throwing.Unrefused H server.abi.max_size refuses
      (ServerProg.answerRequests server fuel (rounds + 1) firstRequest) Q (w, tally) := by
  have fits_ : refuses ∨ server.abi.decode (((frame.bytes ++ left).drop 4).take 4) ≤
      server.abi.max_size := by
    rw [frame.measured left, server.abi.decode_encode frame.payload_lt]
    exact fits
  have received := @receiveRequest_conversation stream _ most fuel tally w refuses server sofar
    enough fits_
  rw [nextRequest_frame] at received
  apply Throwing.Unrefused.bind
  apply (received.restrict le False.elim).weaken
  intro request s₁ after
  obtain ⟨rfl, taken, here₁, split⟩ := after
  have taken_ : taken = frame.bytes := by
    have whole := split frame.request _ rfl
    exact List.append_cancel_right whole
  subst taken_
  obtain ⟨w₁, tally₁⟩ := s₁
  obtain rfl : w₁ = w.got frame.bytes := here₁
  apply Throwing.Unrefused.bind
  apply Throwing.unrefused_system (respond_serves _ fuel frame.request)
  apply (responds tally₁).weaken
  intro response s₂ after
  obtain ⟨⟨answers, here₂⟩, possible⟩ := after
  obtain ⟨w₂, tally₂⟩ := s₂
  obtain rfl : w₂ = w.got frame.bytes := here₂
  obtain ⟨body, serialized⟩ := Option.ne_none_iff_exists'.mp
    (serializes possible response answers)
  let reply : Reply server := ⟨response, body, serialized⟩
  apply Throwing.Unrefused.bind
  have sends := @sendResponse_conversation stream most fuel tally₂
    (w.got frame.bytes) refuses server reply (inverse.limit _ _ serialized) enough
  apply (sends.restrict le False.elim).weaken
  intro sent s₃ after
  obtain ⟨rfl, here₃⟩ := after
  obtain ⟨w₃, tally₃⟩ := s₃
  obtain rfl : w₃ = (w.got frame.bytes).said reply.bytes := here₃
  rw [if_pos rfl]
  have replied : server.Replies fuel stream fs frame.request reply :=
    @Answers.replies server stream fuel fs inverse frame.request reply answers
  exact rest possible reply replied tally₃

/-- The loop, by induction on the requests that are still to come. -/
theorem answerRequests_conversation (inverse : server.protobuf.Inverse) (baseDir : Bytes)
    (frames : List (Frame (server.setBaseDirectory baseDir)))
    (cut : ∀ frame : Frame (server.setBaseDirectory baseDir), ¬ frame.bytes <+: rest)
    (ends : ∀ frame ∈ frames, ¬ (server.setBaseDirectory baseDir).Endless fs frame.request)
    (serializes : ∀ frame ∈ frames, ∀ response,
      (server.setBaseDirectory baseDir).Answers fuel stream fs frame.request response →
      server.protobuf.serializeResponse response ≠ none)
    (listing : ∀ p, fs.entry p ≠ none → Affords False fs p fuel fuel)
    (reading : ∀ path content, fs.read path = some content → content.length < fuel * 4096)
    (enough : 256 ^ 4 + most < fuel) {rounds : Nat} (more : frames.length < rounds) {w : World}
    {tally : Nat} (here : w.fs = fs)
    (sofar : w.received ++ (frames.flatMap Frame.bytes ++ rest) = stream) (firstRequest : Bool) :
    Throwing.Unrefused (conversation stream most) server.abi.max_size True
      (ServerProg.answerRequests (server.setBaseDirectory baseDir) fuel rounds firstRequest)
      (fun result s' => result = (firstRequest && frames.isEmpty) ∧
        ∃ replies : List (Reply (server.setBaseDirectory baseDir)),
          List.Forall₂ (fun frame reply => (server.setBaseDirectory baseDir).Replies fuel stream fs
            frame.request reply) frames replies ∧
          s'.1.sent = w.sent ++ replies.flatMap Reply.bytes ∧ s'.1.closes = w.closes + 1)
      (w, tally) := by
  have inverse_ : (server.setBaseDirectory baseDir).protobuf.Inverse := inverse
  induction frames generalizing rounds w tally firstRequest with
  | nil =>
      obtain ⟨rounds, rfl⟩ := Nat.exists_eq_succ_of_ne_zero (Nat.ne_of_gt more)
      rw [List.flatMap_nil, List.nil_append] at sofar
      have received := @receiveRequest_conversation stream rest most fuel tally w True
        (server.setBaseDirectory baseDir) sofar enough (.inl trivial)
      rw [nextRequest_none cut] at received
      apply Throwing.Unrefused.bind
      apply received.weaken
      intro request s₁ after
      obtain ⟨rfl, taken, here₁, -⟩ := after
      apply (close_conversation firstRequest s₁).weaken
      intro result s₂ after
      obtain ⟨rfl, here₂⟩ := after
      refine ⟨by simp, [], .nil, ?_, ?_⟩
      · rw [here₂, here₁]
        simp
      · rw [here₂, here₁]
        rfl
  | cons frame frames ih =>
      obtain ⟨rounds, rfl⟩ := Nat.exists_eq_succ_of_ne_zero (Nat.ne_of_gt (Nat.zero_lt_of_lt more))
      rw [List.flatMap_cons, List.append_assoc] at sofar
      have fs₁ : (w.got frame.bytes).fs = fs := here
      apply answer_frame (conversation stream most) True (fun _ _ _ _ ran => ran) inverse_ frame
        (.inl trivial) (fun _ => serializes frame List.mem_cons_self) enough sofar
      · intro tally₁
        have responds := @respond_conversation stream most fuel tally₁ (w.got frame.bytes) server
          baseDir frame.request (by rw [fs₁]; exact ends frame List.mem_cons_self)
          (by rw [fs₁]; exact listing) (by rw [fs₁]; exact reading) (by omega)
        rw [fs₁] at responds
        exact responds.weaken fun _ _ after => ⟨after, trivial⟩
      · intro _ reply replied tally₁
        have later : ((w.got frame.bytes).said reply.bytes).received ++
            (frames.flatMap Frame.bytes ++ rest) = stream := by
          rw [World.said_received, World.got_received, List.append_assoc, sofar]
        have fewer : frames.length < rounds := by
          rw [List.length_cons] at more
          omega
        have fs₃ : ((w.got frame.bytes).said reply.bytes).fs = fs := here
        apply (ih (fun other member => ends other (List.mem_cons_of_mem _ member))
          (fun other member => serializes other (List.mem_cons_of_mem _ member)) fewer fs₃ later
          false).weaken
        intro result s₄ after
        obtain ⟨same, replies, all, sent, closes⟩ := after
        refine ⟨by simp [same], reply :: replies, .cons replied all, ?_, closes⟩
        rw [sent, List.flatMap_cons, ← List.append_assoc]
        rfl

/-- Where one of the requests is never answered, the loop does not end: it comes to that request, by
induction on the requests in front of it. -/
theorem answerRequests_endless (inverse : server.protobuf.Inverse) (baseDir : Bytes)
    (frames : List (Frame (server.setBaseDirectory baseDir)))
    (fits : ∀ frame ∈ frames, frame.payload.length ≤ server.abi.max_size)
    (endless : ∃ frame ∈ frames, (server.setBaseDirectory baseDir).Endless fs frame.request)
    (serializes : ∀ frame ∈ frames, ¬ (server.setBaseDirectory baseDir).Endless fs frame.request →
      ∀ response,
      (server.setBaseDirectory baseDir).Answers fuel stream fs frame.request response →
      server.protobuf.serializeResponse response ≠ none)
    (listing : ∀ p, fs.entry p ≠ none → Affords False fs p fuel fuel)
    (reading : ∀ path content, fs.read path = some content → content.length < fuel * 4096)
    (enough : 256 ^ 4 + most < fuel) {rounds : Nat} {w : World} {tally : Nat} (here : w.fs = fs)
    (sofar : w.received ++ (frames.flatMap Frame.bytes ++ rest) = stream) (firstRequest : Bool) :
    Throwing.Unrefused (wandering stream most) server.abi.max_size False
      (ServerProg.answerRequests (server.setBaseDirectory baseDir) fuel rounds firstRequest)
      (fun _ _ => False) (w, tally) := by
  have inverse_ : (server.setBaseDirectory baseDir).protobuf.Inverse := inverse
  induction frames generalizing rounds w tally firstRequest with
  | nil =>
      obtain ⟨frame, member, -⟩ := endless
      cases member
  | cons frame frames ih =>
      cases rounds with
      | zero =>
          intro s _ _
          exact trivial
      | succ rounds =>
          rw [List.flatMap_cons, List.append_assoc] at sofar
          have fs₁ : (w.got frame.bytes).fs = fs := here
          apply answer_frame (wandering stream most)
            (¬ (server.setBaseDirectory baseDir).Endless fs frame.request) (fun _ _ _ _ ran => ran)
            inverse_ frame (.inr (fits frame List.mem_cons_self))
              (serializes frame List.mem_cons_self)
            enough sofar
          · intro tally₁
            by_cases own : (server.setBaseDirectory baseDir).Endless fs frame.request
            · rw [← fs₁] at own
              apply (respond_endless own).weaken
              exact fun _ _ impossible => impossible.elim
            · have responds := @respond_conversation stream most fuel tally₁
                (w.got frame.bytes) server
                baseDir frame.request (by rw [fs₁]; exact own) (by rw [fs₁]; exact listing)
                (by rw [fs₁]; exact reading) (by omega)
              rw [fs₁] at responds
              have wanders : Program.Sat (wandering stream most) _ _ _ _ :=
                responds.restrict (fun _ _ _ _ ran => ran) fun impossible => impossible.elim
              exact wanders.weaken fun _ _ after => ⟨after, own⟩
          · intro own reply replied tally₁
            have later : ((w.got frame.bytes).said reply.bytes).received ++
                (frames.flatMap Frame.bytes ++ rest) = stream := by
              rw [World.said_received, World.got_received, List.append_assoc, sofar]
            have fs₃ : ((w.got frame.bytes).said reply.bytes).fs = fs := here
            obtain ⟨other, member, endless⟩ := endless
            have behind : other ∈ frames := by
              rcases List.mem_cons.mp member with rfl | behind
              · exact absurd endless own
              · exact behind
            exact ih (fun other member => fits other (List.mem_cons_of_mem _ member))
              ⟨other, behind, endless⟩
              (fun other member => serializes other (List.mem_cons_of_mem _ member)) fs₃ later false

end

/-- What arrives of a client is `frames` and then `rest`. However it arrives, whatever interrupts
the calls on the connection, the loop ends; and unless memory ran out, each request got one reply,
in order, nothing else was said, and the connection was closed once. -/
def AnswersAll (server : RpcServer) (frames : List (Frame server)) (rest : Bytes) (w : World)
    (most : Nat) : Prop :=
  ∃ enough, ∀ fuel, enough ≤ fuel →
    Program.Returns
      ((conversation (w.received ++ (frames.flatMap Frame.bytes ++ rest)) most).guarded
        server.abi.max_size).exec
      (fun result s => s.Granted server.abi.max_size → result = .ok frames.isEmpty ∧
        ∃ replies : List (Reply server),
          List.Forall₂ (fun frame reply => server.Replies fuel
            (w.received ++ (frames.flatMap Frame.bytes ++ rest)) w.fs frame.request reply)
            frames replies ∧
          s.state.1.sent = w.sent ++ replies.flatMap Reply.bytes ∧ s.state.1.closes = w.closes + 1)
      (ServerProg.handleRpcClient server fuel).run (Noted.start (w, 0))

/-- A string can be as long as a message can. -/
theorem le_max_size (abi : Abi) {size : Nat} (small : size < 2 ^ 31) : size ≤ abi.max_size := by
  have wide : 256 ^ 4 ≤ 256 ^ abi.size_t := Nat.pow_le_pow_right (by decide) abi.size_t_wide
  unfold Abi.max_size
  omega

section

variable {server : RpcServer} {baseDir rest : Bytes}
  {frames : List (Frame (server.setBaseDirectory baseDir))}
  {w : World} {most : Nat}

/-- Fuel with which the handlers come to an end. -/
theorem exists_fuel (fs : FileSystem) : ∃ bound, ∀ fuel, bound < fuel →
    (∀ p, fs.entry p ≠ none → Affords False fs p fuel fuel) ∧
      ∀ path content, fs.read path = some content → content.length < fuel * 4096 := by
  obtain ⟨bound, paths, files⟩ := fs.exists_bound
  refine ⟨bound, fun fuel more => ⟨fun p _ => ⟨.inr ?_, .inr ?_⟩, ?_⟩⟩
  · intro names content file
    have small := files _ content file
    omega
  · intro names exist
    have short := paths _ exist
    rw [List.length_append] at short
    omega
  · intro path content read
    obtain ⟨p, -, file⟩ := FileSystem.read_eq_some.mp read
    have small := files p content file
    omega

theorem answersAll_of_ends (inverse : server.protobuf.Inverse)
    (cut : ∀ frame : Frame (server.setBaseDirectory baseDir), ¬ frame.bytes <+: rest)
    (serializes : ∀ frame ∈ frames, ∀ fuel response,
      (server.setBaseDirectory baseDir).Answers fuel
        (w.received ++ (frames.flatMap Frame.bytes ++ rest)) w.fs frame.request response →
      server.protobuf.serializeResponse response ≠ none)
    (ends : ∀ frame ∈ frames, ¬ (server.setBaseDirectory baseDir).Endless w.fs frame.request) :
    (server.setBaseDirectory baseDir).AnswersAll frames rest w most := by
  obtain ⟨bound, affords⟩ := exists_fuel w.fs
  refine ⟨bound + frames.length + 256 ^ 4 + most + 1, fun fuel more => ?_⟩
  obtain ⟨listing, reading⟩ := affords fuel (by omega)
  have answered : Throwing.Unrefused
      (conversation (w.received ++ (frames.flatMap Frame.bytes ++ rest)) most)
      server.abi.max_size True
      (ServerProg.handleRpcClient (server.setBaseDirectory baseDir) fuel) _ (w, 0) :=
    answerRequests_conversation inverse baseDir frames cut ends
      (fun frame member response => serializes frame member fuel response) listing reading
        (by omega)
      (show frames.length < fuel by omega) rfl rfl true
  apply (answered.returns id (exists_conversation _ most)).mono
  intro result s returned granted
  obtain ⟨value, rfl, rfl, replies, all, sent, closes⟩ := returned granted
  exact ⟨by simp, replies, all, sent, closes⟩

theorem not_answersAll_of_endless (inverse : server.protobuf.Inverse)
    (limit : ∀ bytes request, server.protobuf.parseRequest bytes = some request →
      bytes.length < 2 ^ 31)
    (serializes : ∀ frame ∈ frames, ¬ (server.setBaseDirectory baseDir).Endless w.fs frame.request →
      ∀ fuel response, (server.setBaseDirectory baseDir).Answers fuel
        (w.received ++ (frames.flatMap Frame.bytes ++ rest)) w.fs frame.request response →
      server.protobuf.serializeResponse response ≠ none)
    (endless : ∃ frame ∈ frames, (server.setBaseDirectory baseDir).Endless w.fs frame.request) :
    ¬ (server.setBaseDirectory baseDir).AnswersAll frames rest w most := by
  intro answered
  obtain ⟨enough, returns⟩ := answered
  obtain ⟨bound, affords⟩ := exists_fuel w.fs
  let fuel := enough + bound + 256 ^ 4 + most + 1
  obtain ⟨listing, reading⟩ := affords fuel (by omega)
  have fits : ∀ frame ∈ frames, frame.payload.length ≤ server.abi.max_size := fun frame _ =>
    le_max_size server.abi (limit _ _ frame.parses)
  have goes : Throwing.Unrefused
      (wandering (w.received ++ (frames.flatMap Frame.bytes ++ rest)) most)
        server.abi.max_size False
      (ServerProg.handleRpcClient (server.setBaseDirectory baseDir) fuel) _ (w, 0) :=
    answerRequests_endless inverse baseDir frames fits endless
      (fun frame member own response => serializes frame member own fuel response) listing reading
      (by omega) rfl rfl true
  exact goes.endless (exists_conversation _ most) (fun _ _ _ _ ran => ran) (returns fuel (by omega))

end

/-- The requests of a client are all answered, whatever comes behind the last whole one, if and only
if none of them goes round for ever. -/
theorem handleRpcClient_answers_iff (server : RpcServer) (baseDir : Bytes)
    (inverse : server.protobuf.Inverse)
    (limit : ∀ bytes request, server.protobuf.parseRequest bytes = some request →
      bytes.length < 2 ^ 31)
    (frames : List (Frame (server.setBaseDirectory baseDir))) (rest : Bytes)
    (cut : ∀ frame : Frame (server.setBaseDirectory baseDir), ¬ frame.bytes <+: rest) (w : World)
    (serializes : ∀ frame ∈ frames, ∀ fuel response,
      (server.setBaseDirectory baseDir).Answers fuel
        (w.received ++ (frames.flatMap Frame.bytes ++ rest)) w.fs frame.request response →
      server.protobuf.serializeResponse response ≠ none)
    (most : Nat) :
    (server.setBaseDirectory baseDir).AnswersAll frames rest w most ↔
      ∀ frame ∈ frames, ¬ (server.setBaseDirectory baseDir).Endless w.fs frame.request := by
  constructor
  · intro answered frame member endless
    exact not_answersAll_of_endless inverse limit (fun frame member _ => serializes frame member)
      ⟨frame, member, endless⟩ answered
  · intro ends
    exact answersAll_of_ends inverse cut serializes ends

/-- A directory `/a` with two files in it. -/
def shelfFs : FileSystem :=
  ((FileSystem.empty.put [[97]] (.dir 4096 0o755 0)).put [[97], [99]] (.file [66] 0o644 7)).put
    [[97], [98]] (.file [65] 0o644 7)

def shelved : RpcResponse :=
  ⟨1, true, [], .list_files ⟨[⟨[98], [97, 47, 98], false, 1, 7, 0o100644⟩,
    ⟨[99], [97, 47, 99], false, 1, 7, 0o100644⟩], [97], 2⟩⟩

def unknown : RpcResponse := ⟨7, false, ascii "unknown RPC type", .none⟩

/-- That listing as it is written. -/
def shelvedBytes : Bytes :=
  [8, 1, 16, 1, 82, 41, 10, 16, 10, 1, 98, 18, 3, 97, 47, 98, 32, 1, 40, 7, 48, 164, 131, 2, 10, 16,
    10, 1, 99, 18, 3, 97, 47, 99, 32, 1, 40, 7, 48, 164, 131, 2, 18, 1, 97, 24, 2]

def unknownBytes : Bytes := [8, 7, 26, 16] ++ ascii "unknown RPC type"

/-- As much of the format as these messages take: the directory `a`, the same with a zero byte
behind it, and a type that is not known. -/
def shelfProtobuf : Protobuf where
  parseRequest bytes :=
    if bytes = [8, 1, 82, 5, 10, 1, 97, 16, 1] then some ⟨1, .list_files ⟨[97], true⟩⟩
    else if bytes = [8, 1, 82, 6, 10, 2, 97, 0, 16, 1] then some ⟨1, .list_files ⟨[97, 0], true⟩⟩
    else if bytes = [8, 7] then some ⟨7, .none⟩
    else none
  serializeRequest _ := none
  parseResponse bytes :=
    if bytes = shelvedBytes then some shelved
    else if bytes = unknownBytes then some unknown
    else none
  serializeResponse response :=
    if response = shelved then some shelvedBytes
    else if response = unknown then some unknownBytes
    else none

def shelfServer : RpcServer := ⟨plainAbi, plainMd5, shelfProtobuf, []⟩

theorem shelfProtobuf_inverse : shelfProtobuf.Inverse where
  parses response bytes written := by
    simp only [shelfProtobuf] at written ⊢
    split at written
    · next same =>
      cases written
      rw [if_pos rfl, same]
    · split at written
      · next same =>
        cases written
        rw [if_neg (by decide), if_pos rfl, same]
      · cases written
  limit response bytes written := by
    simp only [shelfProtobuf] at written
    split at written
    · cases written
      decide
    · split at written
      · cases written
        decide
      · cases written

theorem shelfProtobuf_limit (bytes : Bytes) (request : RpcRequest)
    (parsed : shelfServer.protobuf.parseRequest bytes = some request) : bytes.length < 2 ^ 31 := by
  simp only [shelfServer, shelfProtobuf] at parsed
  split at parsed
  · next same => simp [same]
  · split at parsed
    · next same => simp [same]
    · split at parsed
      · next same => simp [same]
      · cases parsed

/-- The directory `a`. -/
def shelfFrame : Frame (shelfServer.setBaseDirectory [47]) where
  type := 1
  payload := [8, 1, 82, 5, 10, 1, 97, 16, 1]
  request := ⟨1, .list_files ⟨[97], true⟩⟩
  type_lt := by decide
  payload_pos := by decide
  payload_lt := by decide
  parses := rfl

/-- The directory `a`, with a zero byte behind its name. -/
def zeroFrame : Frame (shelfServer.setBaseDirectory [47]) where
  type := 1
  payload := [8, 1, 82, 6, 10, 2, 97, 0, 16, 1]
  request := ⟨1, .list_files ⟨[97, 0], true⟩⟩
  type_lt := by decide
  payload_pos := by decide
  payload_lt := by decide
  parses := rfl

def unknownFrame : Frame (shelfServer.setBaseDirectory [47]) where
  type := 7
  payload := [8, 7]
  request := ⟨7, .none⟩
  type_lt := by decide
  payload_pos := by decide
  payload_lt := by decide
  parses := rfl

/-- A handler that lists `/a` finds both files. -/
theorem shelf_listed {policy : Policy} {w : World} (here : w.fs = shelfFs) (fuel : Nat) :
    Program.Sat (handler policy True) .free
      ((shelfServer.setBaseDirectory [47]).handleListFiles fuel ⟨[97], true⟩)
      (fun out _ => out.map .list_files = some shelved.payload) w := by
  have found : shelfFs.stat [47, 97] = some (.dir 4096 0o755 0) := by decide +kernel
  have names : shelfFs.readdir [47, 97, 47] = [[98], [99]] := by decide +kernel
  have first : shelfFs.stat [47, 97, 47, 98] = some (.file [65] 0o644 7) := by decide +kernel
  have second : shelfFs.stat [47, 97, 47, 99] = some (.file [66] 0o644 7) := by decide +kernel
  simp only [handleListFiles, Program.ask_bind]
  apply Program.sat_look still_free (fun _ _ => rfl)
  intro choice _
  rw [here]
  have opened :
      (shelfFs.stat (cString ((shelfServer.setBaseDirectory [47]).baseDirectory ++ [97]))) =
      some (.dir 4096 0o755 0) := found
  rw [opened]
  apply Program.Sat.ite
  · intro _
    apply Program.Sat.bind
    cases fuel with
    | zero => exact trivial
    | succ depth =>
        simp only [listDirectory, Program.ask_bind]
        apply Program.sat_look still_free (fun _ _ => rfl)
        intro choice _
        rw [here]
        have listed : shelfFs.readdir
            (cString ((shelfServer.setBaseDirectory [47]).baseDirectory ++ withSlash [97])) =
            [[98], [99]] := names
        rw [listed]
        simp only [listEach, Program.ask_bind]
        apply Program.sat_look still_free (fun _ _ => rfl)
        intro choice _
        rw [here]
        have looked : shelfFs.stat (cString ((shelfServer.setBaseDirectory [47]).baseDirectory ++
            (withSlash [97] ++ [98]))) = some (.file [65] 0o644 7) := first
        rw [looked]
        apply Program.Sat.ite
        · intro impossible
          exact absurd impossible (by decide)
        · intro _
          apply Program.sat_look still_free (fun _ _ => rfl)
          intro choice _
          rw [here]
          have looked : shelfFs.stat (cString ((shelfServer.setBaseDirectory [47]).baseDirectory ++
              (withSlash [97] ++ [99]))) = some (.file [66] 0o644 7) := second
          rw [looked]
          apply Program.Sat.ite
          · intro impossible
            exact absurd impossible (by decide)
          · intro _ w' _ w'' _
            show Option.map ResponsePayload.list_files (some _) = _
            decide
  · intro impossible
    exact absurd (by decide) impossible

theorem handleRpcClient_answers_iff_shelf :
    (shelfServer.setBaseDirectory [47]).AnswersAll [shelfFrame, unknownFrame] [7, 0]
      (World.boot shelfFs) 5 ↔
    ∀ frame ∈ [shelfFrame, unknownFrame],
      ¬ (shelfServer.setBaseDirectory [47]).Endless (World.boot shelfFs).fs
        (Frame.request frame) := by
  apply handleRpcClient_answers_iff shelfServer [47] shelfProtobuf_inverse shelfProtobuf_limit
    [shelfFrame, unknownFrame] [7, 0]
  · intro frame inside
    have long := inside.length_le
    have length := frame.payload_pos
    simp [Frame.bytes] at long
    omega
  · intro frame member fuel response answers
    obtain ⟨w, payload, here, handled, rfl⟩ := answers
    rcases List.mem_cons.mp member with rfl | member
    · obtain ⟨resp, rfl, run⟩ := handled
      have listed : resp.map .list_files = some shelved.payload :=
        (shelf_listed here fuel).returned run
      rw [listed]
      decide
    · obtain rfl := List.mem_singleton.mp member
      obtain rfl : payload = none := handled
      decide

/-- A listing of `/a` that no zero byte is in is answered, and what is not known refused. -/
example : ∀ frame ∈ [shelfFrame, unknownFrame],
    ¬ (shelfServer.setBaseDirectory [47]).Endless shelfFs (Frame.request frame) := by
  decide +kernel

/-- The same directory, with a zero byte behind its name: the server never gets to an answer. -/
theorem handleRpcClient_unanswered : shelfServer.protobuf.Inverse ∧
    ¬ (shelfServer.setBaseDirectory [47]).AnswersAll [zeroFrame] [] (World.boot shelfFs) 0 := by
  have endless : (shelfServer.setBaseDirectory [47]).Endless shelfFs (Frame.request zeroFrame) := by
    decide +kernel
  refine ⟨shelfProtobuf_inverse, ?_⟩
  apply @not_answersAll_of_endless shelfServer [47] [] [zeroFrame] (World.boot shelfFs) 0
    shelfProtobuf_inverse shelfProtobuf_limit
  · intro frame member ends
    obtain rfl := List.mem_singleton.mp member
    exact absurd endless ends
  · exact ⟨zeroFrame, List.mem_singleton_self _, endless⟩

end RpcServer

end SyncTool
