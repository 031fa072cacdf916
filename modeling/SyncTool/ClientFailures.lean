import SyncTool.RemoteScan

set_option autoImplicit false

namespace SyncTool

open Program FileSync LinuxFileUtil

/-- The calls that do not read from the connection. -/
def Op.deaf : Op → Prop
  | .recv _ => False
  | _ => True

theorem run_deaf {op : Op} (deaf : op.deaf) (choice : Choice) (w : World) :
    (op.run choice w).2.received = w.received := by
  cases op with
  | recv count => exact deaf.elim
  | _ =>
      simp only [Op.run, World.attempt, World.flush, World.fresh]
      repeat' split
      all_goals rfl

/-- The calls that neither use the connection nor measure a file that is to be sent. -/
def Op.apart : Op → Prop
  | .connect | .send _ | .recv _ | .seekEnd _ => False
  | _ => True

theorem apart_deaf (op : Op) (apart : op.apart) : op.deaf := by
  cases op with
  | recv count => exact apart.elim
  | _ => trivial

theorem scans_apart (op : Op) (scans : op.scans) : op.apart := by
  cases op with
  | connect | send data | recv count | seekEnd path => exact scans.elim
  | _ => trivial

/-- A call that a client needs fails: it is not connected, what it sends is not taken, or a file
that it opens to measure and to send it cannot be opened. -/
inductive Fails : Prog Bool → Prog Bool → Prop where
  | connect {next : Bool → Prog Bool} : Fails (.call .connect next) (next false)
  | send {data : Bytes} {next : Io Nat → Prog Bool} :
      Fails (.call (.send data) next) (next .error)
  -- a signal counts as a failure
  | interrupted {data : Bytes} {next : Io Nat → Prog Bool} :
      Fails (.call (.send data) next) (next .eintr)
  | openIn {path : Bytes} {next : Bool → Prog Bool} {measured : Nat → Prog Bool} :
      next true = .call (.seekEnd path) measured → Fails (.call (.openIn path) next) (next false)

/-- Nothing but a failure comes of it. -/
abbrev Fruitless (p : Prog Bool) : Prop := Ends (· = false) p

/-- Unless a call that it needs fails, the program reads its acknowledgement, and that decides. -/
inductive Expects : Prog Bool → Prop where
  | receive {next : Io Bytes → Prog Bool} :
      (∀ data, next (.ok data) = .call .closeSocket fun _ => .done (data == ack)) →
      next .eintr = (.call .closeSocket fun _ => .done false) →
      next .error = (.call .closeSocket fun _ => .done false) → Expects (.call (.recv 3) next)
  | connect {next : Bool → Prog Bool} : Expects (next true) → Fruitless (next false) →
      Expects (.call .connect next)
  | send {data : Bytes} {next : Io Nat → Prog Bool} : (∀ sent, Expects (next (.ok sent))) →
      Fruitless (next .eintr) → Fruitless (next .error) → Expects (.call (.send data) next)
  | measure {path : Bytes} {next : Bool → Prog Bool} {measured : Nat → Prog Bool} :
      next true = .call (.seekEnd path) measured → (∀ size, Expects (measured size)) →
      Fruitless (next false) → Expects (.call (.openIn path) next)
  | aside {op : Op} {next : Res op → Prog Bool} : op.apart → (∀ answer, Expects (next answer)) →
      Expects (.call op next)
  | fork {count : Nat} {child : Fin count → Prog Bool} {join : (Fin count → Bool) → Prog Bool} :
      (∀ i, (child i).All Op.deaf) → (∀ verdicts, Expects (join verdicts)) →
      Expects (.fork count child join)
  | spin : Expects .spin

/-- The program goes on with a value within `good`, or a call that it needs has failed and it goes
on with one within `bad`. -/
def Advances {α : Type} (good bad : α → Prop) (p : Prog α) : Prop :=
  ∀ f : α → Prog Bool, (∀ value, good value → Expects (f value)) →
    (∀ value, bad value → Fruitless (f value)) → Expects (p >>= f)

section

variable {α β : Type} {good bad : α → Prop} {good' bad' : β → Prop}

theorem advances_pure {value : α} (holds : good value) : Advances good bad (pure value : Prog α) :=
  fun _ rest _ => rest value holds

theorem Advances.bind {p : Prog α} {f : α → Prog β} (first : Advances good bad p)
    (rest : ∀ value, good value → Advances good' bad' (f value))
    (lost : ∀ value, bad value → (f value).Ends bad') : Advances good' bad' (p >>= f) := by
  intro g went failed
  rw [Program.bind_assoc]
  apply first
  · exact fun value holds => rest value holds g went failed
  · exact fun value holds => (lost value holds).bind failed

theorem Advances.weaken {good' bad' : α → Prop} {p : Prog α} (first : Advances good bad p)
    (goes : ∀ value, good value → good' value) (fails : ∀ value, bad value → bad' value) :
    Advances good' bad' p := by
  intro f went failed
  apply first
  · exact fun value holds => went value (goes value holds)
  · exact fun value holds => failed value (fails value holds)

theorem advances_aside {p : Prog α} (apart : p.All Op.apart) :
    Advances (fun _ => True) (fun _ => False) p := by
  intro f rest lost
  induction p with
  | done value => exact rest value trivial
  | call op next ih => exact .aside apart.1 fun answer => ih answer (apart.2 answer) f rest lost
  | fork count child join _ ih =>
      have deaf : ∀ i, (child i).All Op.deaf := fun i => (apart.1 i).mono apart_deaf
      exact .fork deaf fun verdicts => ih verdicts (apart.2 verdicts) f rest lost
  | spin => exact .spin

/-- What is done aside does not fail. -/
theorem Advances.aside {p : Prog α} {f : α → Prog β} (apart : p.All Op.apart)
    (rest : ∀ value, Advances good' bad' (f value)) : Advances good' bad' (p >>= f) :=
  (advances_aside apart).bind (fun value _ => rest value) fun _ never => never.elim

end

namespace FileSync

/-- What is left once the connection is lost, or the sending has failed. -/
def Lost (out : Bool × TcpClient) : Prop := out.1 = false ∨ out.2.connected = false

section

variable {self : FileSync} {abi : Abi} {fuel : Nat} {client : TcpClient}

theorem send_lost (lost : client.connected = false) (sends : Nat) (data : Bytes) :
    (client.send sends data).Ends fun out => out.1 = false ∧ out.2.connected = false := by
  unfold TcpClient.send
  rw [lost]
  exact ⟨rfl, lost⟩

/-- Several sends in a row. -/
def sendEach (fuel : Nat) : TcpClient → List Bytes → Prog TcpClient
  | client, [] => pure client
  | client, data :: more => do
      let (_, client) ← client.send fuel data
      sendEach fuel client more

theorem sendEach_lost (more : List Bytes) (lost : client.connected = false) :
    (sendEach fuel client more).Ends fun client => client.connected = false := by
  induction more generalizing client with
  | nil => exact lost
  | cons data more ih => exact (send_lost lost fuel data).bind fun _ lost' => ih lost'.2

/-- The size of a file, if it is one. -/
def sendSize (abi : Abi) (fuel : Nat) (client : TcpClient) (task : SyncTask) : Prog TcpClient :=
  if task.isDirectory then pure client
  else do
    let stat ← getFileStat task.srcPath
    match stat with
    | none => pure client
    | some statbuf => do
        let (_, client) ← client.send fuel (abi.encode abi.off_t statbuf.st_size)
        pure client

theorem sendSize_lost (lost : client.connected = false) (task : SyncTask) :
    (sendSize abi fuel client task).Ends fun client => client.connected = false := by
  unfold sendSize
  split
  · exact lost
  · intro stat
    cases stat with
    | none => exact lost
    | some statbuf => exact (send_lost lost _ _).bind fun _ lost' => lost'.2

theorem sendTask_eq (task : SyncTask) :
    sendTask abi fuel client task =
      (sendEach fuel client [abi.encode abi.int (if task.isDirectory then 1 else 0),
        abi.encode abi.size_t task.srcPath.length, task.srcPath,
        abi.encode abi.size_t task.destPath.length, task.destPath,
        abi.encode abi.mode_t task.mode.toNat] >>= fun client =>
          sendSize abi fuel client task) := by
  simp only [sendEach, Program.bind_assoc]
  rfl

theorem sendTask_lost (lost : client.connected = false) (task : SyncTask) :
    (sendTask abi fuel client task).Ends fun client => client.connected = false := by
  rw [sendTask_eq]
  apply (sendEach_lost _ lost).bind
  exact fun _ lost' => sendSize_lost lost' task

theorem sendMetadata_lost (tasks : List SyncTask) (lost : client.connected = false) :
    (sendMetadata abi fuel client tasks).Ends fun client => client.connected = false := by
  induction tasks generalizing client with
  | nil => exact lost
  | cons task tasks ih => exact (sendTask_lost lost task).bind fun _ lost' => ih lost'

theorem sendBlocks_lost (srcPath destPath : Bytes) (fileSize sends : Nat)
    (lost : client.connected = false) (transferred : Nat) :
    (sendBlocks self srcPath destPath fileSize sends fuel client transferred).Ends
      fun out => out.2.connected = false := by
  induction fuel generalizing transferred with
  | zero => trivial
  | succ fuel ih =>
      simp only [sendBlocks, Program.ask_bind]
      split
      · intro buffer
        dsimp only
        split
        · apply (send_lost lost _ _).bind
          intro out lost'
          rw [lost'.1]
          exact (ends_of_all _ fun _ => trivial).bind fun _ (_ : True) => lost'.2
        · exact ih _
      · exact lost

theorem sendFileSync_lost (srcPath destPath : Bytes) (lost : client.connected = false)
    (resumeOffset : Nat) :
    (sendFileSync self fuel srcPath destPath client resumeOffset).Ends
      fun out => out.2.connected = false := by
  intro srcFile
  cases srcFile with
  | false => exact lost
  | true =>
      intro fileSize
      apply (sendBlocks_lost srcPath destPath fileSize fuel lost resumeOffset).bind
      rintro ⟨sent, client⟩ lost'
      cases sent with
      | true => exact fun _ => lost'
      | false => exact lost'

theorem sendTaskData_lost (resume : Bool) (task : SyncTask) (lost : client.connected = false) :
    (sendTaskData self abi fuel resume client task).Ends fun out => out.2.connected = false := by
  unfold sendTaskData
  split
  · exact (send_lost lost _ _).bind fun _ lost' => lost'.2
  · intro stat
    apply (ends_of_all (remoteOffset resume task.destPath _) fun _ => trivial).bind
    intro resumeOffset (_ : True)
    apply (send_lost lost _ _).bind
    rintro ⟨sent, client⟩ lost'
    dsimp only
    split
    · next sending handled =>
      apply (ends_of_all (sending task.srcPath) fun _ => trivial).bind
      intro sent (_ : True)
      split
      · exact lost'.2
      · exact sendFileSync_lost _ _ lost'.2 _
    · exact sendFileSync_lost _ _ lost'.2 _

theorem sendData_lost (resume : Bool) (tasks : List SyncTask) (lost : client.connected = false) :
    (sendData self abi fuel resume client tasks).Ends Lost := by
  induction tasks generalizing client with
  | nil => exact .inr lost
  | cons task tasks ih =>
      apply (sendTaskData_lost resume task lost).bind
      rintro ⟨sent, client⟩ lost'
      cases sent with
      | true => exact ih lost'
      | false => exact .inl rfl

end

/-- What `sendTasks` does once the data is sent. -/
def acknowledged (out : Bool × TcpClient) : Prog Bool := do
  if out.1 then do
    let (ackBuffer, _) ← out.2.receive 3
    Sys.closeSocket
    pure (ackBuffer == ack)
  else do
    Sys.closeSocket
    pure false

theorem acknowledged_lost {out : Bool × TcpClient} (lost : Lost out) :
    Fruitless (acknowledged out) := by
  obtain ⟨sent, client⟩ := out
  cases sent with
  | false => exact fun _ => rfl
  | true =>
      have gone : client.connected = false := lost.resolve_left (by simp)
      unfold acknowledged TcpClient.receive
      rw [gone]
      exact fun _ => rfl

theorem acknowledged_expects : Expects (acknowledged (true, ⟨true⟩)) :=
  .receive (fun _ => rfl) rfl rfl

section

variable {self : FileSync} {abi : Abi} {fuel : Nat}

/-- The client is still connected. -/
abbrev Sent (out : Bool × TcpClient) : Prop := out = (true, ⟨true⟩)

theorem send_advances (sends : Nat) (data : Bytes) :
    Advances Sent (· = (false, ⟨false⟩)) ((⟨true⟩ : TcpClient).send sends data) := by
  intro f rest lost
  have looping : ∀ sent, Expects (sendLoop data sends sent >>= fun ok => f (ok, ⟨ok⟩)) := by
    induction sends with
    | zero => exact fun _ => .spin
    | succ sends ih =>
        intro sent
        simp only [sendLoop, Program.ask_bind]
        split
        · exact .send (fun more => ih _) (lost _ rfl) (lost _ rfl)
        · exact rest _ rfl
  have all := looping 0
  simp only [TcpClient.send, ↓reduceIte, Program.bind_assoc]
  exact all

theorem sendEach_advances (more : List Bytes) :
    Advances (· = ⟨true⟩) (·.connected = false) (sendEach fuel ⟨true⟩ more) := by
  induction more with
  | nil => exact advances_pure rfl
  | cons data more ih =>
      apply (send_advances fuel data).bind
      · rintro out rfl
        exact ih
      · rintro out rfl
        exact sendEach_lost more rfl

theorem sendTask_advances (task : SyncTask) :
    Advances (· = ⟨true⟩) (·.connected = false) (sendTask abi fuel ⟨true⟩ task) := by
  rw [sendTask_eq]
  apply (sendEach_advances _).bind
  · rintro client rfl
    unfold sendSize
    split
    · exact advances_pure rfl
    · apply Advances.aside
      · exact Program.all_ask.mpr trivial
      intro stat
      cases stat with
      | none => exact advances_pure rfl
      | some statbuf =>
          apply (send_advances _ _).bind
          · rintro out rfl
            exact advances_pure rfl
          · rintro out rfl
            exact rfl
  · exact fun client lost => sendSize_lost lost task

theorem sendMetadata_advances (tasks : List SyncTask) :
    Advances (· = ⟨true⟩) (·.connected = false) (sendMetadata abi fuel ⟨true⟩ tasks) := by
  induction tasks with
  | nil => exact advances_pure rfl
  | cons task tasks ih =>
      apply (sendTask_advances task).bind
      · rintro client rfl
        exact ih
      · exact fun client lost => sendMetadata_lost tasks lost

theorem sendBlocks_advances (srcPath destPath : Bytes) (fileSize sends transferred : Nat) :
    Advances Sent Lost
      (sendBlocks self srcPath destPath fileSize sends fuel ⟨true⟩ transferred) := by
  have saving : ∀ offset, (saveProgress destPath offset fileSize).All Op.apart := by
    simp [saveProgress, Op.apart]
  have pausing : ∀ milliseconds, (throttle self milliseconds).All Op.apart := by
    intro milliseconds
    unfold throttle
    split
    · exact Program.all_ask.mpr trivial
    · trivial
  induction fuel generalizing transferred with
  | zero => exact fun _ _ _ => .spin
  | succ fuel ih =>
      unfold sendBlocks
      split
      · apply Advances.aside
        · exact Program.all_ask.mpr trivial
        intro buffer
        split
        · apply (send_advances _ _).bind
          · rintro out rfl
            apply Advances.aside (saving _)
            intro _
            apply Advances.aside (pausing _)
            exact fun _ => ih _
          · rintro out rfl
            exact (ends_of_all _ fun _ => trivial).bind fun _ (_ : True) => .inl rfl
        · exact ih _
      · exact advances_pure rfl

theorem sendFileSync_advances (srcPath destPath : Bytes) (resumeOffset : Nat) :
    Advances Sent Lost (sendFileSync self fuel srcPath destPath ⟨true⟩ resumeOffset) := by
  intro f rest lost
  refine .measure rfl (fun fileSize => ?_) (lost _ (.inl rfl))
  have sent : Advances Sent Lost (do
      let (sent, client) ←
        sendBlocks self srcPath destPath fileSize fuel fuel ⟨true⟩ resumeOffset
      if sent then do
        let _ ← Sys.remove (getProgressFilePath destPath)
        pure (true, client)
      else pure (false, client)) := by
    apply (sendBlocks_advances _ _ _ _ _).bind
    · rintro out rfl
      exact Advances.aside (Program.all_ask.mpr trivial) fun _ => advances_pure rfl
    · rintro ⟨sent, client⟩ lost'
      cases sent with
      | true => exact fun _ => lost'
      | false => exact .inl rfl
  exact sent f rest lost

theorem remoteOffset_apart (resume : Bool) (destPath : Bytes) (fileSize : Nat) :
    (remoteOffset resume destPath fileSize).All Op.apart := by
  have load : (loadProgress destPath).All Op.apart := by simp [loadProgress, Op.apart]
  unfold remoteOffset
  split
  · apply load.bind
    intro progress
    split
    · trivial
    · trivial
  · trivial

variable (direct : ∀ sending, self.asyncIOHandler = some sending →
  ∀ srcPath, (sending srcPath).All Op.apart)

include direct in
theorem sendTaskData_advances (resume : Bool) (task : SyncTask) :
    Advances Sent Lost (sendTaskData self abi fuel resume ⟨true⟩ task) := by
  unfold sendTaskData
  split
  · apply (send_advances _ _).bind
    · rintro out rfl
      exact advances_pure rfl
    · rintro out rfl
      exact .inr rfl
  · apply Advances.aside
    · exact Program.all_ask.mpr trivial
    intro stat
    apply Advances.aside (remoteOffset_apart _ _ _)
    intro resumeOffset
    have running : ∀ (useAsync : Bool) sending,
        (if useAsync then self.asyncIOHandler else none) = some sending →
          self.asyncIOHandler = some sending := by
      intro useAsync sending handled
      cases useAsync with
      | true => exact handled
      | false => cases handled
    apply (send_advances _ _).bind
    · rintro out rfl
      dsimp only
      split
      · next sending handled =>
        apply Advances.aside (direct _ (running _ _ handled) _)
        intro sent
        split
        · exact advances_pure rfl
        · exact sendFileSync_advances _ _ _
      · exact sendFileSync_advances _ _ _
    · rintro out rfl
      dsimp only
      have gone : ∀ out : Bool × TcpClient, out.2.connected = false → Lost out :=
        fun _ lost => .inr lost
      split
      · next sending handled =>
        apply (ends_of_all (sending task.srcPath) fun _ => trivial).bind
        intro sent (_ : True)
        split
        · exact .inr rfl
        · exact (sendFileSync_lost _ _ rfl _).mono gone
      · exact (sendFileSync_lost _ _ rfl _).mono gone

include direct in
theorem sendData_advances (resume : Bool) (tasks : List SyncTask) :
    Advances Sent Lost (sendData self abi fuel resume ⟨true⟩ tasks) := by
  induction tasks with
  | nil => exact advances_pure rfl
  | cons task tasks ih =>
      apply (sendTaskData_advances direct resume task).bind
      · rintro out rfl
        exact ih
      · rintro ⟨sent, client⟩ lost
        cases sent with
        | true => exact sendData_lost _ _ (lost.resolve_left (by simp))
        | false => exact .inl rfl

include direct in
theorem sendTasks_expects (resume : Bool) (tasks : List SyncTask) :
    Expects (sendTasks self abi fuel resume tasks) := by
  have sent : Advances Sent Lost (sendEach fuel ⟨true⟩ [[0], abi.encode abi.int tasks.length] >>=
      fun client => sendMetadata abi fuel client tasks >>=
        fun client => sendData self abi fuel resume client tasks) := by
    apply (sendEach_advances _).bind
    · rintro client rfl
      apply (sendMetadata_advances tasks).bind
      · rintro client rfl
        exact sendData_advances direct resume tasks
      · exact fun client lost => sendData_lost resume tasks lost
    · intro client lost
      exact (sendMetadata_lost tasks lost).bind fun client lost => sendData_lost resume tasks lost
  have expects := sent acknowledged (fun out same => same ▸ acknowledged_expects)
    fun out lost => acknowledged_lost lost
  simp only [sendEach, Program.bind_assoc] at expects
  exact expects

include direct in
theorem syncRemote_expects (srcDir destDir : Bytes) (resume : Bool) :
    Expects (syncRemote self abi fuel srcDir destDir resume) := by
  refine .connect ?_ rfl
  apply (advances_aside ((detectChanges_scans self fuel srcDir destDir).mono scans_apart))
  · exact fun tasks _ => sendTasks_expects direct resume tasks
  · exact fun _ never => never.elim

end

end FileSync

end SyncTool
