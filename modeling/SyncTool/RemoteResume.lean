import SyncTool.RemoteChange

set_option autoImplicit false

namespace SyncTool

open SyncTool.Path FileSync

/-- What a session says of a task whose source holds `content` and is sent from `start` on. -/
def Item.steady (content : Bytes → Bytes) (start : SyncTask → Nat) (task : SyncTask) : Item :=
  if task.isDirectory then ⟨task, 0, 0, []⟩
  else ⟨task, (content task.srcPath).length, start task, content task.srcPath⟩

/-- Sources that hold `content` all the time and are sent from `start` on. -/
def steadySources (content : Bytes → Bytes) (start : SyncTask → Nat) : Sources where
  content := content
  sized task size := size = (content task.srcPath).length
  started task offset := offset = min (start task) (content task.srcPath).length
  inhabited _ := ⟨_, _, rfl, rfl⟩
  ordered _ _ _ sized started := by
    rw [sized, started]
    exact Nat.min_le_right _ _

section

variable {content : Bytes → Bytes} {start : SyncTask → Nat} {tasks : List SyncTask}
  {items : List Item} {task : SyncTask}

@[simp] theorem Item.steady_task : (Item.steady content start task).task = task := by
  unfold Item.steady
  split <;> rfl

theorem Item.steady_of_file (file : task.isDirectory = false) : Item.steady content start task =
    ⟨task, (content task.srcPath).length, start task, content task.srcPath⟩ := by
  simp [Item.steady, file]

/-- There is only one thing to say of sources that do not change. -/
theorem Items.steady (all : Items (steadySources content start) tasks items)
    (within : ∀ task ∈ tasks, task.isDirectory = false →
      start task ≤ (content task.srcPath).length) :
    items = tasks.map (Item.steady content start) := by
  have one : ∀ item ∈ items, Item.steady content start item.task = item := by
    intro item member
    have offered := all.offered item member
    cases directory : item.task.isDirectory with
    | true =>
        obtain ⟨size, offset, content'⟩ := offered.directory directory
        rw [Item.steady, if_pos directory, ← size]
        congr 1
        · rw [offset, size]
        · exact content'.symm
    | false =>
        have inside : item.task ∈ tasks := by
          rw [← all.tasks]
          exact List.mem_map_of_mem member
        have offset : item.offset = min (start item.task) (content item.task.srcPath).length :=
          offered.started directory
        rw [Nat.min_eq_left (within _ inside directory)] at offset
        rw [Item.steady_of_file directory, ← offset]
        congr 1
        · exact (offered.sized directory).symm
        · exact (offered.content directory).symm
  calc items = items.map id := (List.map_id items).symm
    _ = items.map (Item.steady content start ∘ Item.task) :=
      List.map_congr_left fun item member => (one item member).symm
    _ = tasks.map (Item.steady content start) := by rw [← List.map_map, all.tasks]

end

namespace SyncServer

/-- Where the server puts a task. -/
def placeOf (server : SyncServer) (cwd : Path) (task : SyncTask) : Path :=
  place cwd (server.baseDirectory ++ task.destPath)

/-- What the server holds of a task. -/
def held (server : SyncServer) (fs : FileSystem) (task : SyncTask) : Bytes :=
  (fs.contentAt (server.placeOf fs.cwd task)).getD []

end SyncServer

/-- No two file tasks have the same place. -/
def Apart (server : SyncServer) (cwd : Path) (tasks : List SyncTask) : Prop :=
  ((tasks.filter (! ·.isDirectory)).map (server.placeOf cwd)).Nodup

section

variable {server : SyncServer} {cwd : Path} {before : Path → Option Bytes} {q : Path}
  {items : List Item} {tasks : List SyncTask} {content : Bytes → Bytes} {start : SyncTask → Nat}

theorem foldl_put_of_ne (apart : ∀ item ∈ items, item.isFile → q ≠ place cwd (item.target server)) :
    items.foldl (Item.put server cwd) before q = before q := by
  induction items generalizing before with
  | nil => rfl
  | cons item items ih =>
      rw [List.foldl_cons, ih fun other member => apart other (List.mem_cons_of_mem _ member)]
      unfold Item.put
      split
      · next file => exact Function.update_of_ne (apart item List.mem_cons_self file) _ _
      · rfl

theorem Apart.ne_of_split (apart : Apart server cwd tasks) {front later : List SyncTask}
    {task other : SyncTask} (split : tasks = front ++ task :: later) (member : other ∈ front)
    (file : task.isDirectory = false) (file' : other.isDirectory = false) :
    server.placeOf cwd task ≠ server.placeOf cwd other := by
  subst split
  unfold Apart at apart
  rw [List.filter_append, List.filter_cons_of_pos (by simp [file]), List.map_append, List.map_cons,
    List.nodup_append] at apart
  have inside : other ∈ front.filter (! ·.isDirectory) := by simp [member, file']
  exact Ne.symm (apart.2.2 _ (List.mem_map_of_mem inside) _ List.mem_cons_self)

theorem Apart.eq_of_place (apart : Apart server cwd tasks) {task other : SyncTask}
    (member : task ∈ tasks) (member' : other ∈ tasks) (file : task.isDirectory = false)
    (file' : other.isDirectory = false)
    (same : server.placeOf cwd task = server.placeOf cwd other) : task = other := by
  apply List.inj_on_of_nodup_map apart _ _ same
  · simp [member, file]
  · simp [member', file']

end

/-- The sources hold `content` whenever they are looked at, and the records say to start there. -/
def Resumes (content : Bytes → Bytes) (start : SyncTask → Nat) (tasks : List SyncTask) : Policy :=
  fun op choice w => ∀ task ∈ tasks, task.isDirectory = false →
    ((op = .stat task.srcPath ∨ op = .seekEnd task.srcPath ∨
      ∃ pos count, op = .get task.srcPath pos count) →
        w.fs.read task.srcPath = some (content task.srcPath)) ∧
    (op = .openIn (getProgressFilePath task.destPath) → 0 < start task →
      choice.fault = .none ∧ w.fs.stat (getProgressFilePath task.destPath) ≠ none) ∧
    (op = .getAll (getProgressFilePath task.destPath) →
      startedAt (parseProgress task.destPath
        ((Op.getAll (getProgressFilePath task.destPath)).run choice w).1)
        (content task.srcPath).length = start task)

section

variable {server : SyncServer} {tasks : List SyncTask} {content : Bytes → Bytes}
  {start : SyncTask → Nat} {self : FileSync} {policy' : Policy} {fs : FileSystem} {w : World}
  {fuel fuel' : Nat} {now : Pair Op Res World Bool Bool}

/-- Every file is sent from within it on; a file that is sent from its beginning is no large one. -/
def Starts (content : Bytes → Bytes) (start : SyncTask → Nat) (tasks : List SyncTask) : Prop :=
  ∀ task ∈ tasks, task.isDirectory = false →
    0 < start task ∧ start task < (content task.srcPath).length ∨
      start task = 0 ∧ (content task.srcPath).length < LARGE_FILE_THRESHOLD

theorem Starts.within (starts : Starts content start tasks) : ∀ task ∈ tasks,
    task.isDirectory = false → start task ≤ (content task.srcPath).length := by
  intro task member file
  rcases starts task member file with ⟨-, less⟩ | ⟨zero, -⟩ <;> omega

theorem views_resumes (starts : Starts content start tasks) :
    Views self (Resumes content start tasks) (steadySources content start) true tasks where
  stat task member file choice w allowed := by
    obtain ⟨perm, mtime, found⟩ := FileSystem.stat_of_read ((allowed task member file).1 (.inl rfl))
    exact ⟨_, found, rfl⟩
  seekEnd task member file choice w allowed := (allowed task member file).1 (.inr (.inl rfl))
  get task member file pos count choice w allowed :=
    (allowed task member file).1 (.inr (.inr ⟨pos, count, rfl⟩))
  fresh := nofun
  loads _ task member file := by
    constructor
    · intro choice w allowed missing
      have found := (allowed task member file).2.1 rfl
      show 0 = min (start task) (content task.srcPath).length
      by_contra differ
      obtain ⟨sound, there⟩ := found (by omega)
      have answer : ((Op.openIn (getProgressFilePath task.destPath)).run choice w).1 = true := by
        simp [Op.run, sound, Option.isSome_iff_ne_none, there]
      rw [missing] at answer
      cases answer
    · rintro choice w allowed size rfl
      show _ = min (start task) (content task.srcPath).length
      rw [Nat.min_eq_left (starts.within task member file)]
      exact (allowed task member file).2.2 rfl
  direct := by
    right
    intro task member file
    rcases starts task member file with ⟨positive, less⟩ | ⟨-, small⟩
    · right
      rintro offset rfl
      rw [Nat.min_eq_left (Nat.le_of_lt less)]
      exact positive
    · left
      rintro size rfl
      exact small

/-- What a server has of the files when a session begins: some bytes from their beginnings. -/
def Begins (server : SyncServer) (fs : FileSystem) (content : Bytes → Bytes)
    (tasks : List SyncTask) : Prop :=
  ∀ task ∈ tasks, task.isDirectory = false → server.held fs task <+: content task.srcPath

/-- Where the sending of a file starts behind its beginning, the server has what comes before. -/
def Agrees (server : SyncServer) (fs : FileSystem) (start : SyncTask → Nat)
    (tasks : List SyncTask) : Prop :=
  ∀ task ∈ tasks, task.isDirectory = false → 0 < start task →
    (server.held fs task).length = start task

theorem playable_resumes (starts : Starts content start tasks)
    (carried : Carried server.abi tasks)
    (fits : ∀ path, 2 * (content path).length < 256 ^ server.abi.off_t)
    (begins : Begins server fs content tasks) (apart : Apart server fs.cwd tasks)
    (agrees : Agrees server fs start tasks) {items : List Item}
    (all : Items (steadySources content start) tasks items) :
    Playable server items fs.cwd fs.contentAt := by
  apply all.playable carried
  · rintro task member size rfl
    exact fits _
  · rintro front task later split more size rfl
    rfl
  · intro done item rest split file positive
    obtain ⟨tasks_eq, member, offered⟩ := all.split split
    have offset : item.offset = min (start item.task) (content item.task.srcPath).length :=
      offered.started file
    rw [Nat.min_eq_left (starts.within _ member file)] at offset
    rw [foldl_put_of_ne, offered.content file]
    · have held := begins _ member file
      have length := agrees _ member file (by omega)
      unfold SyncServer.held at held length
      cases stored : fs.contentAt (server.placeOf fs.cwd item.task) with
      | none =>
          rw [stored] at length
          simp at length
          omega
      | some old =>
          rw [stored] at held length
          exact ⟨old, stored, held, length.trans offset.symm⟩
    · intro other before file'
      exact apart.ne_of_split tasks_eq (List.mem_map_of_mem before) file file'

/-- Where the server holds just what a resumed session starts behind, the two stay in step: what
the server reads for a task is what the client sends of it, and files are always beginnings of
their sources. -/
theorem sendTasks_resumed (starts : Starts content start tasks)
    (fits : ∀ path, 2 * (content path).length < 256 ^ server.abi.off_t)
    (begins : Begins server fs content tasks) (carried : Carried server.abi tasks)
    (apart : Apart server fs.cwd tasks) (agrees : Agrees server fs start tasks)
    (silent : w.sent = []) (deaf : w.received = [])
    (run : Session (Resumes content start tasks) policy'
      (sendTasks self server.abi fuel' true tasks) w server fuel fs now) :
    now.here.sent <+: stream server.abi (tasks.map (Item.steady content start)) ∧
      Serves server (tasks.map (Item.steady content start)) fs now.there ∧
      Begins server now.there.fs content tasks := by
  obtain ⟨items, all, said, serves⟩ := session_serves (views_resumes starts) silent deaf
    (fun _ all => playable_resumes starts carried fits begins apart agrees all) run
  obtain rfl := all.steady starts.within
  refine ⟨said, serves, fun task member file => ?_⟩
  have held := begins task member file
  unfold SyncServer.held at held ⊢
  rw [serves.grown.1]
  rcases serves.grown.2 (server.placeOf fs.cwd task) with
    same | ⟨item, inside, file', at_, now, here, beginning⟩
  · rw [same]
    exact held
  · obtain ⟨other, member', rfl⟩ := List.mem_map.mp inside
    unfold Item.isFile at file'
    rw [Item.steady_task] at file'
    rw [Item.target, Item.steady_task] at at_
    obtain rfl := apart.eq_of_place member member' file file' at_
    rw [here, Option.getD_some]
    rwa [Item.steady_of_file file] at beginning

end

/-- `/a`, to be put at `/b` below the server's directory. -/
def oneTask : SyncTask := ⟨[47, 97], [47, 98], false, 0o100644⟩

/-- `/a` holds `source`, and `k` bytes of it are recorded as sent. -/
def recordedFs (source : Bytes) (k : Nat) : FileSystem :=
  (FileSystem.empty.put [[97]] (.file source 0o644 0)).put [getProgressFilePath [98]]
    (.file (progressRecord [47, 98] k source.length) 0o644 0)

/-- A server that has `old` of the file. -/
def heldFs (old : Bytes) : FileSystem :=
  (FileSystem.empty.put [[114]] (.dir 4096 0o755 0)).put [[114], [98]] (.file old 0o644 0)

/-- What `/a` and its record may be when a call looks at them. -/
def oneChecked (source : Bytes) (k : Nat) (op : Op) (w : World) : Bool :=
  match op with
  | .stat path | .seekEnd path | .get path _ _ => path = [47, 97] → w.fs.read path = some source
  | .openIn path => path = getProgressFilePath [47, 98] → w.fs.stat path ≠ none
  | .getAll path => startedAt (parseProgress [47, 98] ((w.fs.read path).getD [])) source.length = k
  | _ => true

theorem one_resumes {source : Bytes} {k : Nat} (op : Op) (heard : Bytes) (w : World)
    (passes : oneChecked source k op w = true) :
    Resumes (fun _ => source) (fun _ => k) [oneTask] op ⟨0, .none, none, heard⟩ w := by
  intro task member _
  obtain rfl := List.mem_singleton.mp member
  refine ⟨?_, ?_, ?_⟩
  · rintro (rfl | rfl | ⟨pos, count, rfl⟩) <;> exact of_decide_eq_true passes rfl
  · rintro rfl -
    exact ⟨rfl, of_decide_eq_true passes rfl⟩
  · rintro rfl
    exact of_decide_eq_true passes

theorem one_starts {source : Bytes} {k : Nat} (positive : 0 < k) (less : k < source.length) :
    Starts (fun _ => source) (fun _ => k) [oneTask] :=
  fun _ _ _ => .inl ⟨positive, less⟩

/-- A session that resumes the file: the client says all it has to say, the server makes so many
calls, and then the client does. -/
def oneSession (source : Bytes) (k : Nat) (fs : FileSystem) (calls calls' : Nat) :
    Option ((Prog Bool × World) × (Prog Bool × World) × (Prog Bool × World)) := do
  let r₁ ← Program.playOn (feeding []) (oneChecked source k)
    (sendTasks plainSync plainAbi 3 true [oneTask]) (World.boot (recordedFs source k)) 22
  let r₂ ← Program.playOn (feeding r₁.2.sent) (fun _ _ => true) (plainServer.handleClient 60)
    (World.boot fs) calls
  let r₃ ← Program.playOn (feeding r₂.2.sent) (oneChecked source k) r₁.1 r₁.2 calls'
  return (r₁, r₂, r₃)

theorem one_session {source told stored : Bytes} {k : Nat} {fs : FileSystem} {calls calls' : Nat}
    (played : (oneSession source k fs calls calls').any (fun r =>
      decide (r.1.2.received = []) && r.2.1.2.received.isPrefixOf r.1.2.sent &&
      r.2.2.2.received.isPrefixOf r.2.1.2.sent && decide (r.2.1.2.sent = told) &&
      decide (plainServer.held r.2.1.2.fs oneTask = stored)) = true) :
    ∃ now, Session (Resumes (fun _ => source) (fun _ => k) [oneTask]) (fun _ _ _ => True)
        (sendTasks plainSync plainAbi 3 true [oneTask])
          (World.boot (recordedFs source k)) plainServer
        60 fs now ∧
      now.there.sent = told ∧ plainServer.held now.there.fs oneTask = stored := by
  obtain ⟨⟨r₁, r₂, r₃⟩, session, seen⟩ := (Option.any_eq_true _ _).mp played
  simp only [Bool.and_eq_true, decide_eq_true_eq, List.isPrefixOf_iff_prefix] at seen
  obtain ⟨⟨⟨⟨unheard, said⟩, heard⟩, sent⟩, kept⟩ := seen
  simp only [oneSession, Option.bind_eq_bind, Option.bind_eq_some_iff] at session
  obtain ⟨s₁, run₁, s₂, run₂, s₃, run₃, same⟩ := session
  cases same
  refine ⟨⟨r₃.1, r₃.2, r₂.1, r₂.2⟩, ?_, sent, kept⟩
  exact exchange_of_plays one_resumes (fun _ _ _ _ => trivial) run₁ unheard run₂ said run₃ heard

/-- The server has the byte that is recorded as sent, and gets the other one. -/
theorem sendTasks_resumed_matching : ∃ now,
    Session (Resumes (fun _ => [65, 66]) (fun _ => 1) [oneTask]) (fun _ _ _ => True)
      (sendTasks plainSync plainAbi 3 true [oneTask]) (World.boot (recordedFs [65, 66] 1))
        plainServer 60
      (heldFs [65]) now ∧
    now.there.sent = ack ∧ plainServer.held now.there.fs oneTask = [65, 66] ∧
    now.here.sent <+: stream plainServer.abi
      ([oneTask].map (Item.steady (fun _ => [65, 66]) fun _ => 1)) ∧
      Serves plainServer ([oneTask].map (Item.steady (fun _ => [65, 66]) fun _ => 1)) (heldFs [65])
        now.there ∧
      Begins plainServer now.there.fs (fun _ => [65, 66]) [oneTask] := by
  obtain ⟨now, run, sent, held⟩ := @one_session [65, 66] ack [65, 66] 1 (heldFs [65]) 60 10
    (by decide +kernel)
  have begins : Begins plainServer (heldFs [65]) (fun _ => [65, 66]) [oneTask] := by
    intro task member _
    obtain rfl := List.mem_singleton.mp member
    exact ⟨[66], by decide +kernel⟩
  have agrees : Agrees plainServer (heldFs [65]) (fun _ => 1) [oneTask] := by
    intro task member _ _
    obtain rfl := List.mem_singleton.mp member
    decide +kernel
  have carried : Carried plainServer.abi [oneTask] := ⟨by decide, by decide, by decide⟩
  exact ⟨now, run, sent, held, sendTasks_resumed (one_starts (by decide) (by decide))
    (fun _ => by decide) begins carried (List.nodup_singleton _) agrees rfl rfl run⟩

/-- The server has nothing of the file: it starts from its beginning, and stores the byte that
belongs behind the recorded one there. -/
theorem sendTasks_misplaced :
    Starts (fun _ => [65, 66]) (fun _ => 1) [oneTask] ∧
    Begins plainServer FileSystem.empty (fun _ => [65, 66]) [oneTask] ∧ ∃ now,
      Session (Resumes (fun _ => [65, 66]) (fun _ => 1) [oneTask]) (fun _ _ _ => True)
        (sendTasks plainSync plainAbi 3 true [oneTask]) (World.boot (recordedFs [65, 66] 1))
        plainServer 60 FileSystem.empty now ∧
      ¬ Begins plainServer now.there.fs (fun _ => [65, 66]) [oneTask] := by
  refine ⟨one_starts (by decide) (by decide), ?_, ?_⟩
  · intro task member _
    obtain rfl := List.mem_singleton.mp member
    exact ⟨[65, 66], by decide +kernel⟩
  · obtain ⟨now, run, -, held⟩ := @one_session [65, 66] [] [66] 1 FileSystem.empty 19 0
      (by decide +kernel)
    refine ⟨now, run, fun begins => ?_⟩
    have misplaced := begins oneTask List.mem_cons_self rfl
    rw [held] at misplaced
    exact absurd misplaced (by decide)

end SyncTool
