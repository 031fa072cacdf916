import SyncTool.ClientSession
import SyncTool.ProgramPair
import SyncTool.ServerTasks

set_option autoImplicit false

namespace SyncTool

open SyncTool.Path FileSync

/-- What a party has read is what the other's side has taken, or the beginning of that. -/
def Heard (here there : World) : Prop := there.received <+: here.sent

/-- Both have only heard what the other has said. -/
def Linked (here there : World) : Prop := Heard here there ∧ Heard there here

/-- Others change the client's files, but not its connection. -/
def Aside (w w' : World) : Prop := w'.sent = w.sent ∧ w'.received = w.received

/-- A client and a server side by side: whatever the connection does with what is said. The
client's surroundings move by `drift`. -/
def Exchange (drift : World → World → Prop) (policy policy' : Policy) (client : Prog Bool)
    (w : World) (server : SyncServer) (fuel : Nat) (fs : FileSystem)
    (now : Pair Op Res World Bool Bool) : Prop :=
  Relation.ReflTransGen
    (Pair.Step (handler policy True).exec (handler policy' True).exec drift Linked)
    ⟨client, w, server.handleClient fuel, World.boot fs⟩ now

/-- The same, where others may change the client's files. -/
abbrev Session := Exchange Aside

/-- What the files of a server may have become: a task's file may be a beginning of its source. -/
def Grown (server : SyncServer) (items : List Item) (fs fs' : FileSystem) : Prop :=
  fs'.cwd = fs.cwd ∧ ∀ q, fs'.contentAt q = fs.contentAt q ∨
    ∃ item ∈ items, item.isFile ∧ q = place fs.cwd (item.target server) ∧
      ∃ content, fs'.contentAt q = some content ∧ content <+: item.content

section

variable {server : SyncServer} {items : List Item} {policy policy' : Policy} {fs : FileSystem}
  {fuel : Nat} {here there : World} {q : Prog Bool}

theorem Grown.served {w w' : World} (grown : Grown server items fs w.fs)
    (step : Served server items fs.contentAt w w') : Grown server items fs w'.fs := by
  refine ⟨step.dirs.1.trans grown.1, fun q => ?_⟩
  rcases step.files q with same | ⟨item, member, file, at_, content, now, beginning⟩
  · rw [same]
    exact grown.2 q
  · exact .inr ⟨item, member, file, by rw [at_, grown.1], content, now, beginning⟩

/-- What holds of a server in every state of a session whose client's side begins like `items`. -/
structure Serves (server : SyncServer) (items : List Item) (fs : FileSystem) (w : World) :
    Prop where
  inStep : InStep server items w
  honest : Honest server items fs.contentAt w
  grown : Grown server items fs w.fs

theorem serves_of_reach (playable : Playable server items fs.cwd fs.contentAt)
    (said : here.sent <+: stream server.abi items)
    (run : Program.Reach (Within (handler policy' True).exec (Heard here)) Eq
      (server.handleClient fuel) (World.boot fs) q there) :
    Serves server items fs there := by
  have run' : Program.Reach
      (handler (fun op choice w => Fed (stream server.abi items) op choice w) True).exec Eq
      (server.handleClient fuel) (World.boot fs) q there := by
    apply run.mono
    rintro op w answer w' ⟨⟨choice, -, ran⟩, heard⟩
    refine ⟨choice, ?_, ran⟩
    show (op.run choice w).2.received <+: _
    rw [ran]
    exact List.IsPrefix.trans heard said
  have reads : Reads (fun op choice w => Fed (stream server.abi items) op choice w) True
      (serving server items fs.contentAt) (stream server.abi items) :=
    ⟨fun _ _ _ h => h, fun _ _ same => Eq.symm same, trivial⟩
  have sat := @handleClient_sat server items _ True fs reads playable fuel
  apply sat.invariant (Serves server items fs) _ _ _ run'
  · refine ⟨⟨List.nil_prefix, ?_⟩, honest_of_silent rfl, rfl, fun _ => .inl rfl⟩
    intro positive
    exact absurd positive (Nat.lt_irrefl 0)
  · intro w w' same now
    exact same ▸ now
  · intro w w' step now
    exact ⟨step.inStep now.inStep, step.honest now.honest, now.grown.served step⟩

/-- A task list that the wire can carry. -/
structure Carried (abi : Abi) (tasks : List SyncTask) : Prop where
  few : tasks.length < 2 ^ 31
  srcPath : ∀ task ∈ tasks, task.srcPath.length < 256 ^ abi.size_t ∧ 0 ∉ task.srcPath
  destPath : ∀ task ∈ tasks, task.destPath.length < 256 ^ abi.size_t ∧ 0 ∉ task.destPath

theorem Items.split {sources : Sources} {tasks : List SyncTask} {done rest : List Item}
    {item : Item} (all : Items sources tasks items) (split : items = done ++ item :: rest) :
    tasks = done.map Item.task ++ item.task :: rest.map Item.task ∧ item.task ∈ tasks ∧
      item.Offered sources := by
  subst split
  rw [← all.tasks]
  exact ⟨by simp, by simp, all.offered item (by simp)⟩

/-- What makes the items of a client playable. -/
theorem Items.playable {sources : Sources} {tasks : List SyncTask} {cwd : Path}
    {before : Path → Option Bytes} (all : Items sources tasks items)
    (carried : Carried server.abi tasks)
    (sizes : ∀ task ∈ tasks, ∀ size, sources.sized task size → 2 * size < 256 ^ server.abi.off_t)
    (aligned : ∀ front task later, tasks = front ++ task :: later → later ≠ [] →
      ∀ size, sources.sized task size → (sources.content task.srcPath).length = size)
    (starts : ∀ done item rest, items = done ++ item :: rest → item.isFile → 0 < item.offset →
      ∃ content, done.foldl (Item.put server cwd) before (place cwd (item.target server)) =
        some content ∧ content <+: item.content ∧ content.length = item.offset) :
    Playable server items cwd before where
  few := all.length ▸ carried.few
  fits item member := by
    have task : item.task ∈ tasks := by
      rw [← all.tasks]
      exact List.mem_map_of_mem member
    have offered := all.offered item member
    refine ⟨?_, carried.srcPath _ task, carried.destPath _ task⟩
    cases directory : item.task.isDirectory with
    | true =>
        rw [(offered.directory directory).1]
        positivity
    | false => exact sizes _ task _ (offered.sized directory)
  proper item member := by
    have offered := all.offered item member
    unfold Item.Proper
    split
    · next directory => exact ⟨(offered.directory directory).2.1, (offered.directory directory).1⟩
    · next file =>
      rw [Bool.not_eq_true] at file
      exact sources.ordered _ _ _ (offered.sized file) (offered.started file)
  aligned done item rest split more file := by
    obtain ⟨tasks_eq, -, offered⟩ := all.split split
    rw [offered.content file]
    exact aligned _ _ _ tasks_eq (by simpa using more) _ (offered.sized file)
  resumes done item rest split file positive content old := by
    obtain ⟨content', same, beginning, -⟩ := starts done item rest split file positive
    obtain rfl := Option.some.inj (same.symm.trans old)
    exact beginning
  matched done item rest split file positive := by
    obtain ⟨content', same, -, length⟩ := starts done item rest split file positive
    rw [same]
    exact length

/-- The same where nothing is resumed. -/
theorem Items.playable_fresh {sources : Sources} {tasks : List SyncTask} {cwd : Path}
    {before : Path → Option Bytes} (all : Items sources tasks items)
    (carried : Carried server.abi tasks)
    (sizes : ∀ task ∈ tasks, ∀ size, sources.sized task size → 2 * size < 256 ^ server.abi.off_t)
    (aligned : ∀ front task later, tasks = front ++ task :: later → later ≠ [] →
      ∀ size, sources.sized task size → (sources.content task.srcPath).length = size)
    (fresh : ∀ task offset, sources.started task offset → offset = 0) :
    Playable server items cwd before := by
  apply all.playable carried sizes aligned
  intro done item rest split file positive
  have zero := fresh _ _ ((all.split split).2.2.started file)
  omega

variable {self : FileSync} {sources : Sources} {resume : Bool} {tasks : List SyncTask} {w : World}
  {fuel' : Nat} {now : Pair Op Res World Bool Bool} {drift : World → World → Prop}

theorem server_reach {client : Prog Bool} (gentle : ∀ w w', drift w w' → Aside w w')
    (run : Exchange drift policy policy' client w server fuel fs now) :
    Program.Reach (Within (handler policy' True).exec (Heard now.here)) Eq
      (server.handleClient fuel) (World.boot fs) now.right now.there := by
  apply Pair.right_reach Heard (fun _ _ linked => linked.1) _ _ run
  · exact fun _ _ _ _ _ one heard => List.IsPrefix.trans heard (step_sent one)
  · intro s s' t moved heard
    rw [Heard, (gentle _ _ moved).1]
    exact heard

/-- A session with a client that has its tasks: what the client has said begins a stream of
items for them, and the server is in step with it. -/
theorem session_serves (views : Views self policy sources resume tasks) (silent : w.sent = [])
    (deaf : w.received = [])
    (playable : ∀ items, Items sources tasks items → Playable server items fs.cwd fs.contentAt)
    (run : Session policy policy' (sendTasks self server.abi fuel' resume tasks)
      w server fuel fs now) :
    ∃ items, Items sources tasks items ∧ now.here.sent <+: stream server.abi items ∧
      Serves server items fs now.there := by
  have left :
      Program.Reach (handler policy True).exec (talking server.abi sources tasks).rely _ _ _ _ :=
    Pair.left_reach run
  have may : MaySay server.abi sources tasks now.here.sent := by
    apply (sendTasks_told views silent deaf).invariant
      (MaySay server.abi sources tasks ·.sent) _ _ _ left
    · obtain ⟨items, all⟩ := exists_items sources tasks
      exact ⟨items, all, by rw [silent]; exact List.nil_prefix⟩
    · intro s s' drift now
      show MaySay _ _ _ _
      rwa [drift.1]
    · exact fun s s' kept => kept
  obtain ⟨items, all, said⟩ := may
  exact ⟨items, all, said, serves_of_reach (playable items all) said
    (server_reach (fun _ _ moved => moved) run)⟩

variable {client client' : Prog Bool} {here' there' : World} {q' : Prog Bool}

/-- The client goes on while the server waits. -/
theorem Exchange.left
    (session : Exchange drift policy policy' client w server fuel fs ⟨client', here, q, there⟩)
    {client'' : Prog Bool}
    (run : Program.Reach (handler policy True).exec Eq client' here client'' here')
    (said : there.received <+: here.sent) (heard : here'.received <+: there.sent) :
    Exchange drift policy policy' client w server fuel fs ⟨client'', here', q, there⟩ ∧
      there.received <+: here'.sent := by
  induction run with
  | refl => exact ⟨session, said⟩
  | step _ one ih =>
      obtain ⟨sofar, said'⟩ := ih ((step_received one).trans heard)
      have more := said'.trans (step_sent one)
      exact ⟨sofar.tail (.left one ⟨more, heard⟩), more⟩
  | env _ same ih => exact same ▸ ih (same ▸ heard)

/-- The server goes on while the client waits. -/
theorem Exchange.right
    (session : Exchange drift policy policy' client w server fuel fs ⟨client', here, q, there⟩)
    (run : Program.Reach (handler policy' True).exec Eq q there q' there')
    (said : there'.received <+: here.sent) (heard : here.received <+: there.sent) :
    Exchange drift policy policy' client w server fuel fs ⟨client', here, q', there'⟩ ∧
      here.received <+: there'.sent := by
  induction run with
  | refl => exact ⟨session, heard⟩
  | step _ one ih =>
      obtain ⟨sofar, heard'⟩ := ih ((step_received one).trans said)
      have more := heard'.trans (step_sent one)
      exact ⟨sofar.tail (.right one ⟨said, more⟩), more⟩
  | env _ same ih => exact same ▸ ih (same ▸ said)

section

variable {ok ok' : Op → World → Bool}
  (allowed : ∀ op heard w, ok op w = true → policy op ⟨0, .none, none, heard⟩ w)
  (allowed' : ∀ op heard w, ok' op w = true → policy' op ⟨0, .none, none, heard⟩ w)

include allowed in
/-- Calls that are fed with a stream, if they pass a check. -/
theorem reach_of_feeding {α : Type} (stream : Bytes) {p : Prog α} {n : Nat} {r : Prog α × World}
    (played : Program.playOn (feeding stream) ok p w n = some r) :
    Program.Reach (handler policy True).exec Eq p w r.1 r.2 :=
  Program.playOn_reach Eq (fun _ _ passes => ⟨_, allowed _ _ _ passes, rfl⟩) played

include allowed allowed' in
/-- The server reads what the client has said by now; then the client reads the answer. -/
theorem Exchange.plays
    (session : Exchange drift policy policy' client w server fuel fs
      ⟨client', here, server.handleClient fuel, World.boot fs⟩) (unheard : here.received = [])
    {n n' : Nat} {r r' : Prog Bool × World}
    (answered : Program.playOn (feeding here.sent) ok'
      (server.handleClient fuel) (World.boot fs) n = some r) (said : r.2.received <+: here.sent)
    (ended : Program.playOn (feeding r.2.sent) ok client' here n' = some r')
    (heard : r'.2.received <+: r.2.sent) :
    Exchange drift policy policy' client w server fuel fs ⟨r'.1, r'.2, r.1, r.2⟩ := by
  obtain ⟨s₁, heard₁⟩ := session.right (reach_of_feeding allowed' _ answered) said
    (by rw [unheard]; exact List.nil_prefix)
  exact (s₁.left (reach_of_feeding allowed _ ended) said heard).1

include allowed allowed' in
/-- The client says what it has to say; then the server reads it; then the client reads the
answer. -/
theorem exchange_of_plays {n₁ n₂ n₃ : Nat} {r₁ r₂ r₃ : Prog Bool × World}
    (first : Program.playOn (feeding []) ok client w n₁ = some r₁) (unheard : r₁.2.received = [])
    (second : Program.playOn (feeding r₁.2.sent) ok' (server.handleClient fuel) (World.boot fs) n₂ =
      some r₂) (said : r₂.2.received <+: r₁.2.sent)
    (third : Program.playOn (feeding r₂.2.sent) ok r₁.1 r₁.2 n₃ = some r₃)
    (heard : r₃.2.received <+: r₂.2.sent) :
    Exchange drift policy policy' client w server fuel fs ⟨r₃.1, r₃.2, r₂.1, r₂.2⟩ := by
  have start : Exchange drift policy policy' client w server fuel fs
      ⟨client, w, server.handleClient fuel, World.boot fs⟩ := .refl
  obtain ⟨s₁, -⟩ := start.left (reach_of_feeding allowed _ first) List.nil_prefix
    (by rw [unheard]; exact List.nil_prefix)
  exact s₁.plays allowed allowed' unheard second said third heard

include allowed allowed' in
/-- The same with a change of the client's files in the middle of what it says. -/
theorem session_of_plays {n₁ n₂ n₃ n₄ : Nat} {r₁ r₂ r₃ r₄ : Prog Bool × World}
    (first : Program.playOn (feeding []) ok client w n₁ = some r₁) (files : FileSystem)
    (second : Program.playOn (feeding []) ok r₁.1 { r₁.2 with fs := files } n₂ = some r₂)
    (unheard : r₂.2.received = [])
    (third : Program.playOn (feeding r₂.2.sent) ok' (server.handleClient fuel) (World.boot fs) n₃ =
      some r₃) (said : r₃.2.received <+: r₂.2.sent)
    (fourth : Program.playOn (feeding r₃.2.sent) ok r₂.1 r₂.2 n₄ = some r₄)
    (heard : r₄.2.received <+: r₃.2.sent) :
    Session policy policy' client w server fuel fs ⟨r₄.1, r₄.2, r₃.1, r₃.2⟩ := by
  have run₂ := reach_of_feeding allowed _ second
  have none_yet : r₁.2.received <+: [] := by
    have before : ({ r₁.2 with fs := files } : World).received <+: r₂.2.received :=
      reach_received run₂
    rwa [unheard] at before
  have start : Session policy policy' client w server fuel fs
      ⟨client, w, server.handleClient fuel, World.boot fs⟩ := .refl
  obtain ⟨s₁, said₁⟩ := start.left (reach_of_feeding allowed _ first) List.nil_prefix none_yet
  have s₁' : Session policy policy' client w server fuel fs
      ⟨r₁.1, { r₁.2 with fs := files }, server.handleClient fuel, World.boot fs⟩ :=
    s₁.tail (.drift ⟨rfl, rfl⟩ ⟨said₁, none_yet⟩)
  obtain ⟨s₂, -⟩ := s₁'.left run₂ said₁ (by rw [unheard]; exact List.nil_prefix)
  exact s₂.plays allowed allowed' unheard third said fourth heard

end

end

end SyncTool
