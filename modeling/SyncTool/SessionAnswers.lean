import SyncTool.RemoteChange
import SyncTool.ServerExceptions
import SyncTool.SyncFileOutcome
import SyncTool.TreeScan

set_option autoImplicit false

namespace SyncTool

open LinuxFileUtil SyncServer FileSync

/-- The calls that a session makes before it closes its connection. -/
def Op.serves : Op → Prop
  | .closeSocket => False
  | .send data => data ≠ []
  | _ => True

/-- Those of them that send nothing. -/
def Op.works : Op → Prop
  | .closeSocket | .send _ => False
  | _ => True

/-- What such a call leaves of the connection. -/
theorem run_serves {op : Op} (serves : op.serves) (choice : Choice) (w : World) :
    (op.run choice w).2.closes = w.closes ∧ w.received <+: (op.run choice w).2.received := by
  constructor
  · cases op with
    | closeSocket => exact serves.elim
    | _ =>
        simp only [Op.run, World.attempt, World.flush, World.fresh]
        repeat' split
        all_goals rfl
  · rcases run_received op choice w with same | ⟨count, more⟩
    · rw [same]
    · rw [more]
      exact List.prefix_append _ _

theorem works_serves (op : Op) (works : op.works) : op.serves := by
  cases op with
  | closeSocket | send data => exact works.elim
  | _ => trivial

theorem looks_works (op : Op) (looks : op.looks) : op.works := by
  cases op with
  | closeSocket | send data => exact looks.elim
  | _ => trivial

theorem robustRead_works (count fuel : Nat) (buffer : Bytes) :
    (robustRead count fuel buffer).Calls Op.works := by
  induction fuel generalizing buffer with
  | zero => trivial
  | succ fuel ih =>
      simp only [robustRead, Program.ask_bind]
      split
      · refine ⟨trivial, fun n => ?_⟩
        cases n with
        | eintr => exact ih buffer
        | error => trivial
        | ok bytes =>
            show Program.Calls _ (if bytes = [] then _ else _)
            split
            · trivial
            · exact ih _
      · trivial

theorem receiveRest_works (size reads fuel : Nat) (buffer : Bytes) :
    (receiveRest size reads fuel buffer).Calls Op.works := by
  induction fuel generalizing buffer with
  | zero => trivial
  | succ fuel ih =>
      simp only [receiveRest]
      split
      · apply (robustRead_works _ _ _).bind
        intro n
        cases n with
        | none => trivial
        | some bytes =>
            show Program.Calls _ (if bytes = [] then _ else _)
            split
            · trivial
            · exact ih _
      · trivial

theorem receiveBytes_works (fuel size : Nat) : (receiveBytes fuel size).Calls Op.works :=
  receiveRest_works _ _ _ _

theorem sendLoop_serves (data : Bytes) (fuel sent : Nat) :
    (sendLoop data fuel sent).Calls Op.serves := by
  induction fuel generalizing sent with
  | zero => trivial
  | succ fuel ih =>
      simp only [sendLoop, Program.ask_bind]
      split
      · next more =>
        have some_ : data.drop sent ≠ [] := by
          intro nothing
          have := List.drop_eq_nil_iff.mp nothing
          omega
        refine ⟨some_, fun n => ?_⟩
        cases n with
        | ok n => exact ih _
        | eintr => trivial
        | error => trivial
      · trivial

theorem createDirectory_works (path : Bytes) (mode : UInt32) :
    (createDirectory path mode).Calls Op.works := by
  have each : ∀ paths : List Bytes, (createEach mode paths).Calls Op.works := by
    intro paths
    induction paths with
    | nil => trivial
    | cons first rest ih =>
        simp only [createEach]
        split
        · exact ih
        · apply Program.Calls.bind
          · simp only [ensureDirectory, Program.ask_bind]
            refine ⟨trivial, fun found => ?_⟩
            cases found with
            | none => exact Program.calls_ask.mpr trivial
            | some node => trivial
          · intro made
            cases made with
            | false => trivial
            | true => exact ih
  exact each _

theorem writeBuffer_works (path : Bytes) (append : Bool) (pos : Nat) (buffer : Bytes)
    (fuel written : Nat) : (writeBuffer path append pos buffer fuel written).Calls Op.works := by
  induction fuel generalizing written with
  | zero => trivial
  | succ fuel ih =>
      simp only [writeBuffer, Program.ask_bind]
      split
      · refine ⟨trivial, fun n => ?_⟩
        cases n with
        | ok n => exact ih _
        | eintr => exact ih _
        | error => trivial
      · trivial

theorem receiveBlocks_works (path : Bytes) (append : Bool) (fileSize : Int) (inner fuel : Nat)
    (received : Int) (pos : Nat) :
    (receiveBlocks path append fileSize inner fuel received pos).Calls Op.works := by
  induction fuel generalizing received pos with
  | zero => trivial
  | succ fuel ih =>
      simp only [receiveBlocks]
      split
      · apply (robustRead_works _ _ _).bind
        intro n
        cases n with
        | none => trivial
        | some buffer =>
            show Program.Calls _ (if buffer = [] then _ else _)
            split
            · trivial
            · apply (writeBuffer_works _ _ _ _ _ _).bind
              intro written
              cases written with
              | false => trivial
              | true => exact ih _ _
      · trivial

theorem receiveFileData_works (fuel : Nat) (path : Bytes) (fileSize resumeOffset : Int) :
    (receiveFileData fuel path fileSize resumeOffset).Calls Op.works := by
  simp only [receiveFileData, Program.ask_bind]
  refine ⟨trivial, fun opened => ?_⟩
  cases opened with
  | false => trivial
  | true =>
      show Program.Calls _ (if 0 < resumeOffset then _ else _)
      split
      · refine ⟨trivial, fun currentSize => ?_⟩
        show Program.Calls _ (if (currentSize : Int) ≠ resumeOffset then _ else _)
        split
        · refine ⟨trivial, fun reopened => ?_⟩
          cases reopened with
          | false => trivial
          | true => exact receiveBlocks_works _ _ _ _ _ _ _
        · exact receiveBlocks_works _ _ _ _ _ _ _
      · exact receiveBlocks_works _ _ _ _ _ _ _

section

variable (server : SyncServer) (fuel : Nat)

theorem receiveOffT_works : (server.receiveOffT fuel).Calls Op.works :=
  (receiveBytes_works _ _).bind fun _ => trivial

theorem handleTask_works (task : ServerSyncTask) :
    (server.handleTask fuel task).Calls Op.works := by
  simp only [handleTask]
  apply (receiveOffT_works server fuel).bind
  intro resumeOffset
  cases resumeOffset with
  | none => trivial
  | some resumeOffset =>
      show Program.Calls _ (if task.isDirectory then _ else _)
      split
      · exact createDirectory_works _ _
      · apply Program.Calls.bind
        · unfold makeParent
          split
          · trivial
          · exact createDirectory_works _ _
        · intro made
          cases made with
          | false => trivial
          | true =>
              apply (receiveFileData_works _ _ _ _).bind
              intro received
              cases received with
              | false => trivial
              | true => exact ⟨trivial, fun _ => trivial⟩

theorem handleTasks_works (tasks : List ServerSyncTask) :
    (server.handleTasks fuel tasks).Calls Op.works := by
  induction tasks with
  | nil => trivial
  | cons task tasks ih =>
      simp only [handleTasks]
      apply (handleTask_works server fuel task).bind
      intro handled
      cases handled with
      | false => trivial
      | true => exact ⟨trivial, fun _ => ih⟩

end

namespace RpcServer

theorem recvAll_works (size fuel : Nat) (received : Bytes) :
    (recvAll size fuel received).Calls Op.works := by
  induction fuel generalizing received with
  | zero => trivial
  | succ fuel ih =>
      simp only [recvAll, Program.ask_bind]
      split
      · refine ⟨trivial, fun n => ?_⟩
        cases n with
        | eintr => exact ih _
        | error => trivial
        | ok bytes =>
            show Program.Calls _ (if bytes = [] then _ else _)
            split
            · trivial
            · exact ih _
      · trivial

theorem sendAll_serves (data : Bytes) (fuel sent : Nat) :
    (sendAll data fuel sent).Calls Op.serves := by
  induction fuel generalizing sent with
  | zero => trivial
  | succ fuel ih =>
      simp only [sendAll, Program.ask_bind]
      split
      · next more =>
        have some_ : data.drop sent ≠ [] := by
          intro nothing
          have := List.drop_eq_nil_iff.mp nothing
          omega
        refine ⟨some_, fun n => ?_⟩
        cases n with
        | eintr => exact ih _
        | error => trivial
        | ok n =>
            show Program.Calls _ (if n = 0 then _ else _)
            split
            · trivial
            · exact ih _
      · trivial

variable (server : RpcServer) (fuel : Nat)

theorem recvUint32_works : (server.recvUint32 fuel).Calls Op.works :=
  (recvAll_works _ _ _).bind fun _ => trivial

theorem sendFrame_serves (type : Nat) (serialized : Bytes) :
    (server.sendFrame fuel type serialized).Calls Op.serves := by
  apply (sendAll_serves _ _ _).bind
  intro typed
  cases typed with
  | false => trivial
  | true =>
      apply (sendAll_serves _ _ _).bind
      intro measured
      cases measured with
      | false => trivial
      | true => exact sendAll_serves _ _ _

theorem updateBlocks_looks (path : Bytes) (pos : Nat) (ctx : server.md5.Ctx) :
    (updateBlocks server.md5 path fuel pos ctx).Calls Op.looks := by
  induction fuel generalizing pos ctx with
  | zero => trivial
  | succ fuel ih =>
      simp only [updateBlocks, Program.ask_bind]
      refine ⟨trivial, fun buffer => ?_⟩
      show Program.Calls _ (if buffer.length = 4096 then _ else _)
      split
      · exact ih _ _
      · split
        · trivial
        · trivial

theorem calculateFileMD5_looks (path : Bytes) :
    (server.calculateFileMD5 fuel path).Calls Op.looks := by
  simp only [calculateFileMD5, Program.ask_bind]
  refine ⟨trivial, fun file => ?_⟩
  cases file with
  | false => trivial
  | true => exact (updateBlocks_looks server fuel _ _ _).bind fun _ => trivial

theorem listEach_looks (recurse : Bytes → ListFilesResponse → Prog ListFilesResponse)
    (each : ∀ path response, (recurse path response).Calls Op.looks) (recursive : Bool)
    (fullRel : Bytes) (names : List Name) (response : ListFilesResponse) :
    (server.listEach recurse recursive fullRel names response).Calls Op.looks := by
  induction names generalizing response with
  | nil => trivial
  | cons name names ih =>
      simp only [listEach, Program.ask_bind]
      refine ⟨trivial, fun st => ?_⟩
      cases st with
      | none => exact ih _
      | some st =>
          show Program.Calls _ (if (recursive && S_ISDIR st.st_mode) = true then _ else _)
          split
          · exact (each _ _).bind fun _ => ih _
          · exact ih _

theorem listDirectory_looks (recursive : Bool) (depth : Nat) (relDir : Bytes)
    (response : ListFilesResponse) :
    (server.listDirectory recursive depth relDir response).Calls Op.looks := by
  induction depth generalizing relDir response with
  | zero => trivial
  | succ depth ih =>
      simp only [listDirectory, Program.ask_bind]
      exact ⟨trivial, fun names => listEach_looks server _ ih _ _ _ _⟩

theorem handleListFiles_looks (request : ListFilesRequest) :
    (server.handleListFiles fuel request).Calls Op.looks := by
  simp only [handleListFiles, Program.ask_bind]
  refine ⟨trivial, fun st => ?_⟩
  cases st with
  | none => trivial
  | some st =>
      show Program.Calls _ (if S_ISDIR st.st_mode then _ else _)
      split
      · exact (listDirectory_looks server _ _ _ _).bind fun _ => trivial
      · trivial

theorem handleGetFileMeta_looks (request : GetFileMetaRequest) :
    (server.handleGetFileMeta fuel request).Calls Op.looks := by
  simp only [handleGetFileMeta, Program.ask_bind]
  refine ⟨trivial, fun st => ?_⟩
  cases st with
  | none => trivial
  | some st =>
      refine ⟨trivial, fun st_ctime => ?_⟩
      show Program.Calls _ (if S_ISDIR st.st_mode then _ else _)
      split
      · trivial
      · exact (calculateFileMD5_looks server fuel _).bind fun _ => trivial

theorem respond_looks (request : RpcRequest) : (server.respond fuel request).Calls Op.looks := by
  unfold respond
  split
  · exact (handleListFiles_looks server fuel _).bind fun _ => trivial
  · split
    · exact (handleGetFileMeta_looks server fuel _).bind fun _ => trivial
    · trivial

theorem respond_serves (request : RpcRequest) : (server.respond fuel request).Calls Op.serves :=
  (respond_looks server fuel request).mono fun op looks => works_serves op (looks_works op looks)

end RpcServer

namespace ServerProg

open Throwing

/-- The connection is open, and the first byte that came over it was `mode`. -/
def Opened (mode : UInt8) (w : World) : Prop := w.closes = 0 ∧ [mode] <+: w.received

variable {policy : Policy} {max_size : Nat} {mode : UInt8} {α : Type}

theorem fair_serves {p : Prog α} (serves : p.Calls Op.serves) :
    Fair (handler policy True) max_size (Opened mode) (system p : ServerProg α) := by
  apply fair_system trivial serves
  rintro op w answer w' serves' ⟨unclosed, first⟩ ⟨choice, -, ran⟩
  obtain ⟨closes, more⟩ := run_serves serves' choice w
  rw [ran] at closes more
  exact ⟨closes.trans unclosed, first.trans more⟩

theorem fair_works {p : Prog α} (works : p.Calls Op.works) :
    Fair (handler policy True) max_size (Opened mode) (system p : ServerProg α) :=
  fair_serves (works.mono works_serves)

section

variable (server : SyncServer) (rpc : RpcServer) (fuel : Nat)

theorem receivePath_fair :
    Fair (handler policy True) max_size (Opened mode) (receivePath server fuel) := by
  apply Fair.bind
  · exact fair_works ((receiveBytes_works _ _).bind fun _ => trivial)
  · intro pathLen
    cases pathLen with
    | none => exact Fair.pure _
    | some pathLen =>
        apply Fair.ite
        · intro _
          apply (fair_allocate _ _).bind
          intro _
          apply Fair.bind
          · apply fair_works
            unfold receiveSized
            split
            · exact receiveBytes_works _ _
            · trivial
          · exact fun _ => Fair.pure _
        · exact fun _ => Fair.pure _

theorem receiveTask_fair :
    Fair (handler policy True) max_size (Opened mode) (receiveTask server fuel) := by
  apply Fair.bind
  · exact fair_works ((receiveBytes_works _ _).bind fun _ => trivial)
  · intro taskType
    cases taskType with
    | none => exact Fair.pure _
    | some taskType =>
        apply (receivePath_fair server fuel).bind
        intro srcPath
        cases srcPath with
        | none => exact Fair.pure _
        | some srcPath =>
            apply (receivePath_fair server fuel).bind
            intro destPath
            cases destPath with
            | none => exact Fair.pure _
            | some destPath =>
                apply Fair.bind
                · exact fair_works ((receiveBytes_works _ _).bind fun _ => trivial)
                · intro mode
                  cases mode with
                  | none => exact Fair.pure _
                  | some mode =>
                      apply Fair.ite
                      · exact fun _ => Fair.pure _
                      · intro _
                        apply Fair.bind
                        · exact fair_works (receiveOffT_works server fuel)
                        · exact fun _ => Fair.pure _

theorem receiveTaskMetadata_fair (taskCount : Nat) (tasks : List ServerSyncTask) :
    Fair (handler policy True) max_size (Opened mode)
      (receiveTaskMetadata server fuel taskCount tasks) := by
  induction taskCount generalizing tasks with
  | zero => exact Fair.pure _
  | succ taskCount ih =>
      apply (receiveTask_fair server fuel).bind
      intro task
      cases task with
      | none => exact Fair.pure _
      | some task =>
          apply Fair.bind
          · exact fair_serves (Program.calls_ask.mpr trivial)
          · exact fun _ => ih _

theorem serve_fair : Fair (handler policy True) max_size (Opened mode) (serve server fuel) := by
  apply Fair.bind
  · exact fair_works ((receiveBytes_works _ _).bind fun _ => trivial)
  · intro taskCount
    cases taskCount with
    | none => exact Fair.pure _
    | some taskCount =>
        apply (receiveTaskMetadata_fair server fuel _ _).bind
        intro tasks
        cases tasks with
        | none => exact Fair.pure _
        | some tasks => exact fair_works (handleTasks_works server fuel tasks)

theorem receiveRequest_fair :
    Fair (handler policy True) max_size (Opened mode) (receiveRequest rpc fuel) := by
  apply Fair.bind
  · exact fair_works (RpcServer.recvUint32_works rpc fuel)
  · intro type
    cases type with
    | none => exact Fair.pure _
    | some type =>
        apply Fair.bind
        · exact fair_works (RpcServer.recvUint32_works rpc fuel)
        · intro payloadLen
          cases payloadLen with
          | none => exact Fair.pure _
          | some payloadLen =>
              apply Fair.ite
              · exact fun _ => Fair.pure _
              · intro _
                apply (fair_allocate _ _).bind
                intro _
                apply Fair.bind
                · exact fair_works (RpcServer.recvAll_works _ _ _)
                · exact fun _ => Fair.pure _

theorem sendResponse_fair (response : RpcResponse) :
    Fair (handler policy True) max_size (Opened mode) (sendResponse rpc fuel response) := by
  unfold sendResponse
  split
  · exact Fair.pure _
  · exact fair_serves (RpcServer.sendFrame_serves rpc fuel _ _)

end

/-- The socket has been closed exactly once, and a session in sync mode set out to send exactly
one answer, before that. -/
structure Answered (s : Noted Bool World) : Prop where
  closed : s.state.closes = 1
  once : s.state.received.head? = some 0 → ∃ success w, s.notes = [(success, w)] ∧ w.closes = 0

variable {s : Noted Bool World}

/-- A session that is cut short leaves its socket open. -/
theorem cut_short (unclosed : s.state.closes = 0) (refused : ¬ s.Granted max_size) :
    Answered s ↔ s.Granted max_size := by
  constructor
  · intro answered
    exact absurd (unclosed.symm.trans answered.closed) (by decide)
  · exact fun granted => absurd granted refused

/-- A session ends with its socket closed, unless memory runs out before that. -/
theorem close_sat (verdict : Bool) (unclosed : s.state.closes = 0) (granted : s.Granted max_size)
    (once : s.state.received.head? = some 0 →
      ∃ success w, s.notes = [(success, w)] ∧ w.closes = 0) :
    Program.Sat ((handler policy True).guarded max_size) .free
      (do
        system Sys.closeSocket
        pure verdict : ServerProg Bool).run
      (fun _ s' => Answered s' ↔ s'.Granted max_size) s := by
  intro s₁ same answer s₂ ran
  obtain rfl : s = s₁ := same
  refine ⟨trivial, ?_⟩
  cases answer with
  | none =>
      obtain rfl := ran
      intro s₃ same
      obtain rfl := same
      apply cut_short (s := { s with exhausted := true }) unclosed
      exact fun granted => absurd granted.2 (by simp)
  | some answer =>
      obtain ⟨w, ⟨choice, -, ran⟩, rfl⟩ := ran
      cases ran
      intro s₃ same
      obtain rfl := same
      constructor
      · exact fun _ => granted
      · intro _
        refine ⟨?_, once⟩
        show s.state.closes + 1 = 1
        rw [unclosed]

theorem head_received {w : World} (opened : Opened mode w) : w.received.head? = some mode := by
  obtain ⟨rest, same⟩ := opened.2
  rw [← same]
  rfl

theorem answerRequests_sat (rpc : RpcServer) (fuel rounds : Nat) (firstRequest : Bool)
    (opened : Opened 1 s.state) (granted : s.Granted max_size) :
    Program.Sat ((handler policy True).guarded max_size) .free
      (answerRequests rpc fuel rounds firstRequest).run
      (fun _ s' => Answered s' ↔ s'.Granted max_size) s := by
  have other : ∀ s : Noted Bool World, Opened 1 s.state → s.state.received.head? = some 0 →
      ∃ success w, s.notes = [(success, w)] ∧ w.closes = 0 := by
    intro s opened sync
    rw [head_received opened] at sync
    exact absurd sync (by decide)
  induction rounds generalizing firstRequest s with
  | zero => trivial
  | succ rounds ih =>
      apply (receiveRequest_fair rpc fuel).sat_bind opened granted
      · intro request s₁ opened₁ _ granted₁
        cases request with
        | none => exact close_sat _ opened₁.1 granted₁ (other s₁ opened₁)
        | some request =>
            apply (fair_serves (RpcServer.respond_serves rpc fuel request)).sat_bind
              opened₁ granted₁
            · intro response s₂ opened₂ _ granted₂
              apply (sendResponse_fair rpc fuel response).sat_bind opened₂ granted₂
              · intro sent s₃ opened₃ _ granted₃
                cases sent with
                | true => exact ih _ opened₃ granted₃
                | false => exact close_sat _ opened₃.1 granted₃ (other s₃ opened₃)
              · exact fun _ s₃ opened₃ refused => cut_short opened₃.1 refused
            · exact fun _ s₂ opened₂ refused => cut_short opened₂.1 refused
      · exact fun _ s₁ opened₁ refused => cut_short opened₁.1 refused

/-- A session in sync mode, from its task count on. -/
theorem sync_sat (server : SyncServer) (fuel : Nat) (opened : Opened mode s.state)
    (granted : s.Granted max_size) (silent : s.notes = []) :
    Program.Sat ((handler policy True).guarded max_size) .free
      (do
        let served ← serve server fuel
        let _ ← sendAck fuel served
        system Sys.closeSocket
        pure served : ServerProg Bool).run
      (fun _ s' => Answered s' ↔ s'.Granted max_size) s := by
  apply (serve_fair server fuel).sat_bind opened granted
  · intro served s₁ opened₁ notes₁ granted₁
    rw [silent] at notes₁
    apply Throwing.sat_bind
    intro s₂ same answer s₃ ran
    obtain rfl : s₁ = s₂ := same
    obtain rfl := ran
    refine ⟨trivial, ?_⟩
    have sent := @fair_serves policy max_size mode _ (SyncServer.sendAck fuel served)
      (sendLoop_serves _ _ _) { s₁ with notes := s₁.notes ++ [(served, s₁.state)] } opened₁ granted₁
    apply sent.weaken
    rintro result s₄ ⟨opened₄, notes₄, fair₄⟩
    cases result with
    | ok sent =>
        apply close_sat _ opened₄.1 (fair₄.mp rfl)
        intro _
        refine ⟨served, s₁.state, ?_, opened₁.1⟩
        rw [notes₄]
        simp [notes₁]
    | error thrown =>
        apply cut_short opened₄.1
        intro granted₄
        exact absurd (fair₄.mpr granted₄) (by simp [Except.isOk, Except.toBool])
  · exact fun _ s₁ opened₁ refused => cut_short opened₁.1 refused

/-- Reading the mode: all of it or nothing. -/
theorem receiveMode_sat {w : World} (fresh : w.received = []) (fuel : Nat) :
    Program.Sat (handler policy True) (.alone (fun w w' => w'.closes = w.closes) fun _ => rfl)
      (receiveBytes fuel 1)
      (fun out w' => w'.closes = w.closes ∧
        (out = none ∧ w'.received = [] ∨ ∃ mode, out = some [mode] ∧ w'.received = [mode])) w := by
  have read : ∀ inner, Program.Sat (handler policy True)
      (.alone (fun w w' => w'.closes = w.closes) fun _ => rfl) (robustRead 1 inner [])
      (fun out w' => w'.closes = w.closes ∧
        ((out = none ∨ out = some []) ∧ w'.received = [] ∨
          ∃ mode, out = some [mode] ∧ w'.received = [mode])) w := by
    intro inner
    induction inner with
    | zero => trivial
    | succ inner ih =>
        refine Program.sat_op.mpr fun w₁ same choice _ => ?_
        obtain rfl : w = w₁ := same
        rcases run_recv choice w (1 - ([] : Bytes).length) with ran | ran | ⟨data, short, ran⟩
        · rw [ran]
          exact ⟨rfl, ih⟩
        · rw [ran]
          refine ⟨rfl, fun w₂ same => ?_⟩
          obtain rfl := same
          exact ⟨rfl, .inl ⟨.inl rfl, fresh⟩⟩
        · rw [ran]
          refine ⟨rfl, ?_⟩
          cases data with
          | nil =>
              intro w₂ same
              obtain rfl := same
              exact ⟨rfl, .inl ⟨.inr rfl, by simp [fresh]⟩⟩
          | cons mode more =>
              obtain rfl : more = [] :=
                List.length_eq_zero_iff.mp (Nat.le_zero.mp (Nat.le_of_succ_le_succ short))
              cases inner with
              | zero => trivial
              | succ inner =>
                  intro w₂ same
                  obtain rfl := same
                  exact ⟨rfl, .inr ⟨mode, rfl, by simp [fresh]⟩⟩
  cases fuel with
  | zero => trivial
  | succ fuel =>
      apply Program.Sat.bind
      apply (read (fuel + 1)).weaken
      rintro out w₁ ⟨closes, ⟨nothing, none_yet⟩ | ⟨mode, rfl, got⟩⟩
      · rcases nothing with rfl | rfl
        · intro w₂ same
          obtain rfl := same
          exact ⟨closes, .inl ⟨rfl, none_yet⟩⟩
        · intro w₂ same
          obtain rfl := same
          exact ⟨closes, .inl ⟨rfl, none_yet⟩⟩
      · cases fuel with
        | zero => trivial
        | succ fuel =>
            intro w₂ same
            obtain rfl := same
            exact ⟨closes, .inr ⟨mode, rfl, got⟩⟩

theorem handleClient_sat (server : SyncServer) (rpc : RpcServer) (fuel : Nat)
    (fresh : s.state.received = []) (unclosed : s.state.closes = 0) (granted : s.Granted max_size)
    (silent : s.notes = []) :
    Program.Sat ((handler policy True).guarded max_size) .free (handleClient server rpc fuel).run
      (fun _ s' => Answered s' ↔ s'.Granted max_size) s := by
  apply Throwing.sat_bind
  let keeps : Interference World := .alone (fun w w' => w'.closes = w.closes) fun _ => rfl
  have kept : ∀ w w', keeps.guar w w' → w.closes = 0 → w'.closes = 0 := fun _ _ same now =>
    Eq.trans same now
  have read := @Throwing.sat_system _ _ Bool _ _ (handler policy True) max_size s _ keeps _ _
    (fun w => w.closes = 0) (receiveBytes_works fuel 1) unclosed kept (receiveMode_sat fresh fuel)
  apply read.weaken
  intro result s₁ outcome
  cases result with
  | error thrown =>
      obtain ⟨unclosed₁, same⟩ := outcome
      apply cut_short unclosed₁
      rw [same]
      exact fun granted => absurd granted.2 (by simp)
  | ok out =>
      obtain ⟨⟨-, received⟩, unclosed₁, same⟩ := outcome
      have granted₁ : s₁.Granted max_size := by
        rw [same]
        exact granted
      have silent₁ : s₁.notes = [] := by
        rw [same]
        exact silent
      rcases received with ⟨rfl, none_yet⟩ | ⟨mode, rfl, got⟩
      · apply close_sat _ unclosed₁ granted₁
        rw [none_yet]
        simp
      · have opened : Opened mode s₁.state := ⟨unclosed₁, by rw [got]⟩
        show Program.Sat _ _ (ExceptT.run (if [mode] = [1] then _ else if [mode] ≠ [0] then
          _ else _)) _ _
        split
        · next rpcMode =>
            obtain rfl : mode = 1 := by simpa using rpcMode
            exact answerRequests_sat rpc fuel fuel true opened granted₁
        · split
          · next unknown =>
              apply close_sat _ unclosed₁ granted₁
              intro sync
              rw [head_received opened] at sync
              exact absurd (by simpa using sync) unknown
          · exact sync_sat server fuel opened granted₁ silent₁

/-- However the client's bytes arrive and whatever else fails: when the worker is through with a
session, the session has been answered and closed just when no buffer above the largest size was
asked for and memory has not run out. -/
theorem handleClient_answered_iff (server : SyncServer) (md5 : Md5) (protobuf : Protobuf)
    (policy : Policy) (fs : FileSystem) (fuel : Nat) (s : Noted Bool World)
    (run : Program.Reach ((handler policy True).guarded server.abi.max_size).exec Eq
      (workerThread (handleClient server (rpcServer server md5 protobuf) fuel))
      (Noted.start (World.boot fs)) (.done ()) s) :
    Answered s ↔ (∀ size ∈ s.requests, size ≤ server.abi.max_size) ∧ s.exhausted = false := by
  have session := @handleClient_sat policy _ _ server (rpcServer server md5 protobuf) fuel rfl rfl
    (Noted.granted_start server.abi.max_size (World.boot fs)) rfl
  have worked : Program.Sat ((handler policy True).guarded server.abi.max_size) .free
      (workerThread (handleClient server (rpcServer server md5 protobuf) fuel))
      (fun _ s' => Answered s' ↔ s'.Granted server.abi.max_size) (Noted.start (World.boot fs)) := by
    apply Program.Sat.bind
    apply session.weaken
    intro result s₁ answered s₂ same
    obtain rfl : s₁ = s₂ := same
    exact answered
  exact worked.returned run

/-- A machine on which nothing fails, with `stream` coming in. -/
def delivering (stream : Bytes) (max_size : Nat) :
    (op : Guarded Op Bool) → Noted Bool World → GuardedRes Res op × Noted Bool World
  | .sys op, s =>
      let ran := op.run ⟨0, .none, none, stream.drop s.state.received.length⟩ s.state
      (some ran.1, { s with state := ran.2 })
  | .alloc size, s => (decide (size ≤ max_size), { s with requests := s.requests ++ [size] })
  | .note what, s => ((), { s with notes := s.notes ++ [(what, s.state)] })

theorem delivering_fed (stream : Bytes) (max_size : Nat) (op : Guarded Op Bool)
    (s : Noted Bool World) (inside : s.state.received <+: stream) :
    ((handler (Fed stream) True).guarded max_size).exec op s (delivering stream max_size op s).1
        (delivering stream max_size op s).2 ∧
      (delivering stream max_size op s).2.state.received <+: stream := by
  cases op with
  | sys op =>
      have fed :
          (op.run ⟨0, .none, none, stream.drop s.state.received.length⟩ s.state).2.received <+:
          stream := by
        rcases run_received op ⟨0, .none, none, stream.drop s.state.received.length⟩ s.state with
          same | ⟨count, more⟩
        · rwa [same]
        · obtain ⟨rest, rfl⟩ := inside
          rw [more, List.drop_left]
          exact (List.prefix_append_right_inj _).mpr (List.take_prefix _ _)
      exact ⟨⟨_, ⟨_, fed, rfl⟩, rfl⟩, fed⟩
  | alloc size =>
      refine ⟨⟨by simp [delivering], ?_⟩, inside⟩
      simp [delivering]
  | note what => exact ⟨rfl, inside⟩

/-- No call fails. -/
def smooth : Policy := fun _ choice _ => choice.fault = .none

theorem delivering_exec (stream : Bytes) (max_size : Nat) (op : Guarded Op Bool)
    (s : Noted Bool World) :
    ((handler smooth True).guarded max_size).exec op s (delivering stream max_size op s).1
      (delivering stream max_size op s).2 := by
  cases op with
  | sys op => exact ⟨_, ⟨⟨0, .none, none, stream.drop s.state.received.length⟩, rfl, rfl⟩, rfl⟩
  | alloc size => exact ⟨by simp [delivering], by simp [delivering]⟩
  | note what => exact rfl

def bareServer : SyncServer := ⟨plainAbi, [47], .done true⟩

/-- No message at all can be read or written. -/
def muteProtobuf : Protobuf := ⟨fun _ => none, fun _ => none, fun _ => none, fun _ => none⟩

/-- The session of a client that says `stream` on a machine on which nothing fails. -/
theorem delivered_run {γ : Type} (stream : Bytes) (fuel : Nat) (observe : Noted Bool World → γ)
    (seen : γ)
    (played : (Program.play (delivering stream bareServer.abi.max_size)
      (workerThread (handleClient bareServer (rpcServer bareServer plainMd5 muteProtobuf) fuel))
      (Noted.start (World.boot FileSystem.empty))).map (fun r => (r.1, observe r.2)) =
        some ((), seen)) :
    ∃ s, Program.Reach ((handler (Fed stream) True).guarded bareServer.abi.max_size).exec Eq
      (workerThread (handleClient bareServer (rpcServer bareServer plainMd5 muteProtobuf) fuel))
      (Noted.start (World.boot FileSystem.empty)) (.done ()) s ∧ observe s = seen :=
  Program.reach_of_play_within Eq (fun s : Noted Bool World => s.state.received <+: stream)
    (delivering_fed stream bareServer.abi.max_size) _ _ List.nil_prefix () observe seen played

/-- A client that hangs up after the mode byte is answered. -/
theorem handleClient_answered_iff_hangup : ∃ s,
    Program.Reach ((handler (Fed [0]) True).guarded bareServer.abi.max_size).exec Eq
      (workerThread (handleClient bareServer (rpcServer bareServer plainMd5 muteProtobuf) 3))
      (Noted.start (World.boot FileSystem.empty)) (.done ()) s ∧
    s.state.received = [0] ∧ Answered s := by
  obtain ⟨s, run, seen⟩ := delivered_run [0] 3
    (fun s => (s.state.received, s.requests, s.exhausted)) ([0], [], false) (by decide +kernel)
  obtain ⟨received, requests, exhausted⟩ : s.state.received = [0] ∧ s.requests = [] ∧
      s.exhausted = false := by simpa using seen
  refine ⟨s, run, received, ?_⟩
  apply (handleClient_answered_iff bareServer plainMd5 muteProtobuf _ _ 3 s run).mpr
  exact ⟨by simp [requests], exhausted⟩

/-- Mode 0, one task, a file, and a path of `2 ^ 63 - 1` bytes. -/
def overlong : Bytes :=
  [0] ++ plainAbi.encode plainAbi.int 1 ++ plainAbi.encode plainAbi.int 0 ++
    plainAbi.encode plainAbi.size_t (2 ^ 63 - 1)

/-- A client that announces such a path is neither answered nor let go. -/
theorem handleClient_unanswered : ∃ s,
    Program.Reach ((handler (Fed overlong) True).guarded bareServer.abi.max_size).exec Eq
      (workerThread (handleClient bareServer (rpcServer bareServer plainMd5 muteProtobuf) 3))
      (Noted.start (World.boot FileSystem.empty)) (.done ()) s ∧
    s.state.received = overlong ∧ s.exhausted = false ∧ ¬ Answered s := by
  obtain ⟨s, run, seen⟩ := delivered_run overlong 3
    (fun s => (s.state.received, s.exhausted, s.state.closes)) (overlong, false, 0)
    (by decide +kernel)
  obtain ⟨received, exhausted, closes⟩ : s.state.received = overlong ∧ s.exhausted = false ∧
      s.state.closes = 0 := by simpa using seen
  refine ⟨s, run, received, exhausted, fun answered => ?_⟩
  exact absurd (closes.symm.trans answered.closed) (by decide)

end ServerProg

end SyncTool
