import SyncTool.RpcExchange

set_option autoImplicit false

namespace SyncTool

open SyncServer Throwing

/-- Others may change anything but the connection; what is heard and said keeps to `P`. -/
def speaking (P : Bytes → Bytes → Prop) : Interference World where
  rely := Aside
  guar w w' := P w.received w.sent → P w'.received w'.sent
  rely_refl := (dialogue P).rely_refl
  rely_trans := (dialogue P).rely_trans
  guar_refl _ := fun now => now

theorem speaking_le_dialogue (P : Bytes → Bytes → Prop) : (speaking P).Le (dialogue P) :=
  ⟨fun _ _ moved => moved, fun _ _ promised => promised.1⟩

/-- What is sent is something. -/
def Op.speaks : Op → Prop
  | .send data => data ≠ []
  | _ => True

theorem serves_speaks (op : Op) (serves : op.serves) : op.speaks := by
  cases op with
  | send data => exact serves
  | _ => trivial

theorem works_speaks (op : Op) (works : op.works) : op.speaks :=
  serves_speaks op (works_serves op works)

namespace RpcServer

/-- An answer as it goes over the connection. The length that is sent is the length that follows. -/
def answered (rpc : RpcServer) (type : Nat) (serialized : Bytes) : Framed where
  word := rpc.abi.encode 4 type
  body := serialized.take (serialized.length % 256 ^ 4)
  four := rpc.abi.length_encode 4 type
  small := by
    have less := List.length_take_le (serialized.length % 256 ^ 4) serialized
    omega

/-- A session that has heard this of its client and has said this to it has an answer to give: the
acknowledgement of a sync, or the response to a request that has come in whole. -/
def Owed (rpc : RpcServer) : Bytes → Bytes → Prop
  | [], _ => False
  | mode :: heard, said =>
      (mode = 0 ∧ said.length < 3) ∨
      (mode = 1 ∧ ∃ requests : List (Frame rpc), requests.flatMap Frame.bytes <+: heard ∧
        ∀ answers : List Framed, answers.flatMap (Framed.bytes rpc.abi) <+: said →
          answers.length < requests.length)

/-- What a session has said to what it has heard: no more than the answers. -/
def InTurn (rpc : RpcServer) : Bytes → Bytes → Prop
  | [], said => said = []
  | mode :: heard, said =>
      said = [] ∨ (mode = 0 ∧ said.length ≤ 3) ∨
      (mode = 1 ∧ ∃ (requests : List (Frame rpc)) (answers : List Framed),
        requests.flatMap Frame.bytes <+: heard ∧ said <+: answers.flatMap (Framed.bytes rpc.abi) ∧
        answers.length = requests.length)

section

variable {rpc : RpcServer} {policy : Policy} {fuel max_size : Nat} {w : World}

theorem hears_inTurn : Hears (InTurn rpc) := by
  intro heard more said now
  cases heard with
  | nil =>
      cases more with
      | nil => exact now
      | cons mode more => exact .inl now
  | cons mode heard =>
      rcases now with silent | sync | ⟨requests_, requests, answers, front, begun, even⟩
      · exact .inl silent
      · exact .inr (.inl sync)
      · exact .inr (.inr ⟨requests_, requests, answers, front.trans (List.prefix_append _ _), begun,
          even⟩)

/-- Who may say something more owes it. -/
theorem owed_of_inTurn {heard said data : Bytes} (some_ : data ≠ [])
    (more : InTurn rpc heard (said ++ data)) : Owed rpc heard said := by
  have positive : 0 < data.length := List.length_pos_of_ne_nil some_
  cases heard with
  | nil => exact absurd (List.append_eq_nil_iff.mp more).2 some_
  | cons mode heard =>
      rcases more with silent | ⟨sync, short⟩ | ⟨requests_, requests, answers, front, begun, even⟩
      · exact absurd (List.append_eq_nil_iff.mp silent).2 some_
      · rw [List.length_append] at short
        exact .inl ⟨sync, by omega⟩
      · refine .inr ⟨requests_, requests, front, fun given inside => ?_⟩
        have longer := inside.trans ((List.prefix_append said data).trans begun)
        have fewer := Framed.prefix_of_bytes longer
        have few := fewer.length_le
        rw [even] at few
        apply lt_of_le_of_ne few
        intro same
        -- all the answers have been given before `data`
        have all := fewer.eq_of_length (same.trans even.symm)
        subst all
        have room := begun.length_le
        have full := inside.length_le
        rw [List.length_append] at room
        omega

theorem sendFrame_spoken (P : Bytes → Bytes → Prop) (type : Nat) (serialized : Bytes) :
    Sends policy P (rpc.sendFrame fuel type serialized)
      ((rpc.answered type serialized).bytes rpc.abi) := by
  have tells : ∀ data, Sends policy P (sendAll data fuel 0) data := fun data =>
    (sendLoop data).sends fuel
  have length : rpc.abi.encode 4 ((rpc.answered type serialized).body.length : Nat) =
      rpc.abi.encode 4 (serialized.length : Nat) := by
    have small : (rpc.answered type serialized).body.length = serialized.length % 256 ^ 4 := by
      have less : serialized.length % 256 ^ 4 ≤ serialized.length := Nat.mod_le _ _
      exact List.length_take_of_le less
    rw [small]
    unfold Abi.encode
    push_cast
    rw [Int.emod_emod_of_dvd _ (dvd_refl _)]
  unfold Framed.bytes
  rw [length]
  exact (tells _).andThen ((tells _).andThen (tells _))

/-- The loop over the requests, where every request so far has been answered. -/
theorem answerRequests_inTurn (rounds : Nat) (first : Bool) {requests : List (Frame rpc)}
    {answers : List Framed} (heard : w.received = 1 :: requests.flatMap Frame.bytes)
    (said : w.sent = answers.flatMap (Framed.bytes rpc.abi))
    (even : answers.length = requests.length) :
    Upholds (handler policy True) max_size (speaking (InTurn rpc))
      (ServerProg.answerRequests rpc fuel rounds first) (fun _ _ => True) w := by
  have le := speaking_le_dialogue (InTurn rpc)
  have closes : ∀ (verdict : Bool) (w : World), Upholds (handler policy True) max_size
      (speaking (InTurn rpc)) (do
        system Sys.closeSocket
        pure verdict : ServerProg Bool) (fun _ _ => True) w := by
    intro verdict w
    exact ((closeSocket_upholds verdict).mono le).weaken fun _ _ _ => trivial
  induction rounds generalizing first w requests answers with
  | zero =>
      exact upholds_system (show Program.Calls Op.works .spin from trivial) trivial
  | succ rounds ih =>
      rw [answerRequests_succ]
      apply Upholds.bind
      apply ((receiveRequest_upholds hears_inTurn).mono le).weaken
      intro request w₁ after
      obtain ⟨said₁, data, heard₁, framed⟩ := after
      cases request with
      | none => exact closes first w₁
      | some request =>
          obtain ⟨frame, rfl, rfl⟩ := framed request rfl
          have heard₁' : w₁.received = 1 :: (requests ++ [frame]).flatMap Frame.bytes := by
            rw [heard₁, heard, List.flatMap_append, List.flatMap_singleton]
            rfl
          apply Upholds.bind
          apply ((respond_upholds frame.request).mono le).weaken
          intro response w₂ after
          obtain ⟨heard₂, said₂⟩ := after
          have heard₂' := heard₂.trans heard₁'
          have said₂' : w₂.sent = answers.flatMap (Framed.bytes rpc.abi) :=
            said₂.trans (said₁.trans said)
          apply Upholds.bind
          unfold ServerProg.sendResponse
          cases serialized : rpc.protobuf.serializeResponse response with
          | none => exact upholds_pure fun w₃ _ => closes false w₃
          | some body =>
              have turn : ∀ part, part <+: (rpc.answered response.type body).bytes rpc.abi →
                  InTurn rpc w₂.received (w₂.sent ++ part) := by
                intro part inside
                rw [heard₂', said₂']
                refine .inr (.inr ⟨rfl, _, answers ++ [rpc.answered response.type body],
                  List.prefix_refl _, ?_, by simp [even]⟩)
                rw [List.flatMap_append, List.flatMap_singleton]
                exact (List.prefix_append_right_inj _).mpr inside
              have spoken :=
                @sendFrame_spoken rpc policy fuel (InTurn rpc) response.type body w₂ turn
              apply ((upholds_system (sendFrame_serves rpc fuel _ _) spoken).mono le).weaken
              intro sent w₃ after
              obtain ⟨heard₃, part, -, said₃, whole⟩ := after
              cases sent with
              | false => exact closes false w₃
              | true =>
                  apply ih false (heard₃.trans heard₂') _
                    (show (answers ++ [_]).length = _ by simp [even])
                  rw [said₃, said₂', whole rfl, List.flatMap_append, List.flatMap_singleton]

end

end RpcServer

namespace ServerProg

open RpcServer

section

variable (server : SyncServer) (rpc : RpcServer) (fuel : Nat)

theorem receivePath_asks : Asks Op.works (receivePath server fuel) := by
  apply Asks.bind
  · exact asks_system ((receiveBytes_works _ _).bind fun _ => trivial)
  · intro pathLen
    cases pathLen with
    | none => exact asks_pure none
    | some pathLen =>
        apply Asks.ite
        · intro _
          apply (asks_allocate _ _).bind
          intro _
          apply Asks.bind
          · apply asks_system
            unfold receiveSized
            split
            · exact receiveBytes_works _ _
            · trivial
          · exact fun buffer => asks_pure _
        · exact fun _ => asks_pure _

theorem receiveTask_asks : Asks Op.works (receiveTask server fuel) := by
  apply Asks.bind
  · exact asks_system ((receiveBytes_works _ _).bind fun _ => trivial)
  · intro taskType
    cases taskType with
    | none => exact asks_pure none
    | some taskType =>
        apply (receivePath_asks server fuel).bind
        intro srcPath
        cases srcPath with
        | none => exact asks_pure none
        | some srcPath =>
            apply (receivePath_asks server fuel).bind
            intro destPath
            cases destPath with
            | none => exact asks_pure none
            | some destPath =>
                apply Asks.bind
                · exact asks_system ((receiveBytes_works _ _).bind fun _ => trivial)
                · intro mode
                  cases mode with
                  | none => exact asks_pure none
                  | some mode =>
                      apply Asks.ite
                      · exact fun _ => asks_pure _
                      · intro _
                        exact (asks_system (receiveOffT_works server fuel)).bind
                          fun _ => asks_pure _

theorem receiveTaskMetadata_asks (taskCount : Nat) (tasks : List ServerSyncTask) :
    Asks Op.works (receiveTaskMetadata server fuel taskCount tasks) := by
  induction taskCount generalizing tasks with
  | zero => exact asks_pure _
  | succ taskCount ih =>
      apply (receiveTask_asks server fuel).bind
      intro task
      cases task with
      | none => exact asks_pure none
      | some task => exact (asks_system (Program.calls_ask.mpr trivial)).bind fun _ => ih _

theorem serve_asks : Asks Op.works (serve server fuel) := by
  apply Asks.bind
  · exact asks_system ((receiveBytes_works _ _).bind fun _ => trivial)
  · intro taskCount
    cases taskCount with
    | none => exact asks_pure false
    | some taskCount =>
        apply (receiveTaskMetadata_asks server fuel _ _).bind
        intro tasks
        cases tasks with
        | none => exact asks_pure false
        | some tasks => exact asks_system (handleTasks_works server fuel tasks)

theorem close_asks (verdict : Bool) : Asks Op.speaks (do
    system Sys.closeSocket
    pure verdict : ServerProg Bool) :=
  (asks_system (Program.calls_ask.mpr trivial)).bind fun _ => asks_pure verdict

theorem sendAck_asks (success : Bool) : Asks Op.speaks (sendAck fuel success) :=
  (asks_note success).bind fun _ => (asks_system (sendLoop_serves _ _ _)).mono serves_speaks

theorem receiveRequest_asks : Asks Op.works (receiveRequest rpc fuel) := by
  apply (asks_system (recvUint32_works rpc fuel)).bind
  intro type
  cases type with
  | none => exact asks_pure none
  | some type =>
      apply (asks_system (recvUint32_works rpc fuel)).bind
      intro payloadLen
      cases payloadLen with
      | none => exact asks_pure none
      | some payloadLen =>
          apply Asks.ite
          · exact fun _ => asks_pure none
          · intro _
            apply (asks_allocate _ _).bind
            exact fun _ => (asks_system (recvAll_works _ _ _)).bind fun _ => asks_pure _

theorem sendResponse_asks (response : RpcResponse) :
    Asks Op.speaks (sendResponse rpc fuel response) := by
  unfold sendResponse
  split
  · exact asks_pure false
  · exact (asks_system (sendFrame_serves rpc fuel _ _)).mono serves_speaks

theorem answerRequests_asks (rounds : Nat) (first : Bool) :
    Asks Op.speaks (answerRequests rpc fuel rounds first) := by
  induction rounds generalizing first with
  | zero => exact asks_system Program.calls_spin
  | succ rounds ih =>
      apply ((receiveRequest_asks rpc fuel).mono works_speaks).bind
      intro request
      cases request with
      | none => exact close_asks first
      | some request =>
          apply ((asks_system (respond_serves rpc fuel request)).mono serves_speaks).bind
          intro response
          apply (sendResponse_asks rpc fuel response).bind
          intro sent
          cases sent with
          | false => exact close_asks false
          | true => exact ih false

/-- Whatever a session sends is something. -/
theorem handleClient_asks : Asks Op.speaks (handleClient server rpc fuel) := by
  apply ((asks_system (receiveBytes_works _ _)).mono works_speaks).bind
  intro mode
  cases mode with
  | none => exact close_asks false
  | some mode =>
      apply Asks.ite
      · exact fun _ => answerRequests_asks rpc fuel fuel true
      · intro _
        apply Asks.ite
        · exact fun _ => close_asks false
        · intro _
          apply ((serve_asks server fuel).mono works_speaks).bind
          intro served
          exact (sendAck_asks fuel served).bind fun _ => close_asks served

end

variable {server : SyncServer} {rpc : RpcServer} {policy : Policy} {fuel max_size : Nat} {w : World}

/-- While it works on a sync, a session says nothing. -/
theorem serve_inTurn : Upholds (handler policy True) max_size (speaking (InTurn rpc))
    (serve server fuel) (fun _ w' => w'.sent = w.sent ∧ w.received <+: w'.received) w := by
  apply (serve_asks server fuel).upholds _ ⟨rfl, List.prefix_refl _⟩
  · intro s s' moved now
    rw [moved.1, moved.2]
    exact now
  · intro op s answer s' works now ran
    obtain ⟨choice, -, ran⟩ := ran
    have heard := (run_serves (works_serves op works) choice s).2
    have silent : (op.run choice s).2.sent = s.sent := by
      apply run_sent
      rintro data rfl
      exact works
    rw [ran] at heard silent
    refine ⟨fun turn => ?_, silent.trans now.1, now.2.trans heard⟩
    obtain ⟨more, longer⟩ := heard
    show InTurn rpc s'.received s'.sent
    rw [← longer, silent]
    exact hears_inTurn _ _ _ turn
  · trivial

theorem sendAck_inTurn (success : Bool) (sync : [0] <+: w.received)
    (silent : w.sent = []) : Upholds (handler policy True) max_size (speaking (InTurn rpc))
      (sendAck fuel success) (fun _ _ => True) w := by
  apply Upholds.bind
  apply upholds_note
  intro w₁ moved
  rw [← moved.1] at silent
  rw [← moved.2] at sync
  apply upholds_system (sendLoop_serves _ _ _)
  have three : (if success then ack else nak).length = 3 := by
    cases success <;> rfl
  apply (sendLoop_sat trivial (fun k w' => w'.received = w₁.received ∧
    w'.sent = (if success then ack else nak).take k) _ _ (Nat.zero_le _) ⟨rfl, silent⟩).weaken
  · exact fun _ _ _ => trivial
  · exact fun k w₂ w₃ moved now => ⟨moved.2.trans now.1, moved.1.trans now.2⟩
  · intro k n w₂ inside now
    have further : (w₂.said (((if success then ack else nak).drop k).take n)).sent =
        (if success then ack else nak).take (k + n) := by
      show w₂.sent ++ _ = _
      rw [now.2, ← List.take_add]
    refine ⟨fun _ => ?_, now.1, further⟩
    rw [further]
    show InTurn rpc w₂.received _
    rw [now.1]
    obtain ⟨more, begins⟩ := sync
    rw [← begins]
    refine .inr (.inl ⟨rfl, ?_⟩)
    rw [List.length_take]
    omega

/-- What a session says are the answers that it owes. -/
theorem handleClient_inTurn (deaf : w.received = []) (silent : w.sent = []) :
    Upholds (handler policy True) max_size (speaking (InTurn rpc)) (handleClient server rpc fuel)
      (fun _ _ => True) w := by
  have le := speaking_le_dialogue (InTurn rpc)
  have closes : ∀ (verdict : Bool) (w : World), Upholds (handler policy True) max_size
      (speaking (InTurn rpc)) (do
        system Sys.closeSocket
        pure verdict : ServerProg Bool) (fun _ _ => True) w := by
    intro verdict w
    exact ((closeSocket_upholds verdict).mono le).weaken fun _ _ _ => trivial
  apply Upholds.bind
  apply ((Receives.upholds (receiveBytes_works fuel 1)
    (receiveBytes_receives hears_inTurn 1 fuel)).mono le).weaken
  intro mode w₁ after
  obtain ⟨said₁, data, heard₁, whole⟩ := after
  cases mode with
  | none => exact closes false w₁
  | some mode =>
      obtain ⟨rfl, -⟩ := whole mode rfl
      rw [deaf, List.nil_append] at heard₁
      rw [silent] at said₁
      apply Upholds.ite
      · intro requests
        rw [requests] at heard₁
        exact @answerRequests_inTurn rpc policy fuel max_size w₁ fuel true [] [] heard₁ said₁ rfl
      · intro _
        apply Upholds.ite
        · exact fun _ => closes false w₁
        · intro sync
          rw [not_not.mp sync] at heard₁
          apply Upholds.bind
          apply serve_inTurn.weaken
          intro served w₂ after
          obtain ⟨said₂, heard₂⟩ := after
          rw [heard₁] at heard₂
          apply Upholds.bind
          apply (sendAck_inTurn served heard₂ (said₂.trans said₁)).weaken
          exact fun _ w₃ _ => closes served w₃

end ServerProg

end SyncTool
