import SyncTool.Connection
import SyncTool.ProgramRuns
import SyncTool.SessionStream

set_option autoImplicit false

namespace SyncTool

open SyncTool.Path FileSync LinuxFileUtil

/-- The calls that have nothing to do with the connection. -/
def Op.offline : Op → Prop
  | .send _ | .recv _ => False
  | _ => True

theorem run_offline {op : Op} (offline : op.offline) (choice : Choice) (w : World) :
    (op.run choice w).2.sent = w.sent ∧ (op.run choice w).2.received = w.received := by
  constructor
  · apply run_sent
    rintro data rfl
    exact offline
  · cases op with
    | send data => exact offline.elim
    | recv count => exact offline.elim
    | _ =>
        simp only [Op.run, World.attempt, World.flush, World.fresh]
        repeat' split
        all_goals rfl

/-- What the sources of a session hold when they are read, which sizes may be declared, and where
the sending may start. -/
structure Sources where
  content : Bytes → Bytes
  sized : SyncTask → Nat → Prop
  started : SyncTask → Nat → Prop
  inhabited : ∀ task, ∃ size offset, sized task size ∧ started task offset
  ordered : ∀ task size offset, sized task size → started task offset → offset ≤ size

namespace Item

/-- An item that may come of a task. -/
structure Offered (sources : Sources) (item : Item) : Prop where
  directory : item.task.isDirectory = true → item.size = 0 ∧ item.offset = 0 ∧ item.content = []
  content : item.isFile → item.content = sources.content item.task.srcPath
  sized : item.isFile → sources.sized item.task item.size
  started : item.isFile → sources.started item.task item.offset

theorem exists_offered (sources : Sources) (task : SyncTask) :
    ∃ item : Item, item.task = task ∧ item.Offered sources := by
  obtain ⟨size, offset, sized, started⟩ := sources.inhabited task
  cases directory : task.isDirectory with
  | true =>
      refine ⟨⟨task, 0, 0, []⟩, rfl, fun _ => ⟨rfl, rfl, rfl⟩, ?_, ?_, ?_⟩
      all_goals
        intro file
        exact absurd (directory.symm.trans file) (by decide)
  | false =>
      refine ⟨⟨task, size, offset, sources.content task.srcPath⟩, rfl, ?_, fun _ => rfl,
        fun _ => sized, fun _ => started⟩
      intro dir
      exact absurd (directory.symm.trans dir) (by decide)

end Item

/-- Items for all of some tasks. -/
structure Items (sources : Sources) (tasks : List SyncTask) (items : List Item) : Prop where
  tasks : items.map Item.task = tasks
  offered : ∀ item ∈ items, item.Offered sources

theorem exists_items (sources : Sources) (tasks : List SyncTask) :
    ∃ items, Items sources tasks items := by
  induction tasks with
  | nil => exact ⟨[], rfl, by simp⟩
  | cons task tasks ih =>
      obtain ⟨item, rfl, offered⟩ := Item.exists_offered sources task
      obtain ⟨items, rfl, all⟩ := ih
      exact ⟨item :: items, rfl, List.forall_mem_cons.mpr ⟨offered, all⟩⟩

/-- What is said begins a session for the tasks. -/
def MaySay (abi : Abi) (sources : Sources) (tasks : List SyncTask) (said : Bytes) : Prop :=
  ∃ items, Items sources tasks items ∧ said <+: stream abi items

section

variable {abi : Abi} {sources : Sources} {tasks : List SyncTask}
  {items done rest : List Item} {item : Item} {said data more : Bytes}

theorem MaySay.mono (may : MaySay abi sources tasks more) (less : said <+: more) :
    MaySay abi sources tasks said := by
  obtain ⟨items, all, inside⟩ := may
  exact ⟨items, all, less.trans inside⟩

theorem Items.append {tasks' : List SyncTask} {items' : List Item}
    (first : Items sources tasks items) (second : Items sources tasks' items') :
    Items sources (tasks ++ tasks') (items ++ items') where
  tasks := by rw [List.map_append, first.tasks, second.tasks]
  offered item member := by
    rcases List.mem_append.mp member with here | there
    · exact first.offered item here
    · exact second.offered item there

theorem Items.length (all : Items sources tasks items) : items.length = tasks.length := by
  rw [← all.tasks, List.length_map]

theorem traffic_refl (w : World) : w.sent = w.sent ∧ w.received = w.received := ⟨rfl, rfl⟩

theorem traffic_trans (w₁ w₂ w₃ : World) (first : w₂.sent = w₁.sent ∧ w₂.received = w₁.received)
    (second : w₃.sent = w₂.sent ∧ w₃.received = w₂.received) :
    w₃.sent = w₁.sent ∧ w₃.received = w₁.received :=
  ⟨second.1.trans first.1, second.2.trans first.2⟩

/-- A client that runs while others may change its files, but not what it has said and heard. -/
def talking (abi : Abi) (sources : Sources) (tasks : List SyncTask) :
    Interference World where
  rely w w' := w'.sent = w.sent ∧ w'.received = w.received
  guar w w' := MaySay abi sources tasks w.sent → MaySay abi sources tasks w'.sent
  rely_refl := traffic_refl
  rely_trans := traffic_trans
  guar_refl _ := id

/-- All of `said` has been said, if the connection still stands. -/
structure Told (client : TcpClient) (said : Bytes) (w : World) : Prop where
  silent : w.received = []
  sent : w.sent <+: said
  whole : client.connected = true → w.sent = said

variable {client : TcpClient} {w w' : World} {policy : Policy}

theorem Told.same (told : Told client said w) (same : w'.sent = w.sent ∧ w'.received = w.received) :
    Told client said w' where
  silent := same.2.trans told.silent
  sent := same.1 ▸ told.sent
  whole connected := same.1.trans (told.whole connected)

/-- Once the connection is lost, nothing more is said of what is still to come. -/
theorem Told.lost (told : Told client said w) (lost : client.connected = false)
    (less : said <+: more) :
    Told client more w where
  silent := told.silent
  sent := told.sent.trans less
  whole connected := by
    rw [lost] at connected
    cases connected

theorem told_offline {α : Type} {p : Prog α} (all : Program.All Op.offline p)
    (told : Told client said w) :
    Program.Sat (handler policy True) (talking abi sources tasks) p
      (fun _ w' => Told client said w') w := by
  apply all.sat (Told client said) told
  · exact fun w₁ w₂ drift now => now.same drift
  · rintro op w₁ answer w₂ offline now ⟨choice, -, ran⟩
    have same := run_offline offline choice w₁
    rw [ran] at same
    refine ⟨fun may => ?_, now.same same⟩
    rwa [same.1]
  · trivial

/-- A call that has nothing to do with the connection. -/
theorem told_call {α : Type} {op : Op} {next : Res op → Prog α} {Q : α → World → Prop}
    (offline : op.offline) (told : Told client said w)
    (holds : ∀ choice w₁, policy op choice w₁ → Told client said (op.run choice w₁).2 →
      Program.Sat (handler policy True) (talking abi sources tasks)
        (next (op.run choice w₁).1) Q (op.run choice w₁).2) :
    Program.Sat (handler policy True) (talking abi sources tasks) (.call op next) Q w := by
  refine Program.sat_op.mpr fun w₁ drift choice allowed => ?_
  have same := run_offline offline choice w₁
  refine ⟨fun may => ?_, holds choice w₁ allowed ((told.same drift).same same)⟩
  show MaySay _ _ _ _
  rwa [same.1]

/-- Saying a bit more. -/
theorem send_told (may : MaySay abi sources tasks (said ++ data)) (told : Told client said w)
    {fuel : Nat} :
    Program.Sat (handler policy True) (talking abi sources tasks) (client.send fuel data)
      (fun out w' => Told out.2 (said ++ data) w' ∧ (out.1 = true → out.2.connected = true)) w := by
  unfold TcpClient.send
  split
  · next connected =>
    have start : w.received = [] ∧ w.sent = said ++ data.take 0 := by
      rw [List.take_zero, List.append_nil]
      exact ⟨told.silent, told.whole connected⟩
    apply Program.Sat.bind
    apply (sendLoop_sat trivial (fun k w' => w'.received = [] ∧ w'.sent = said ++ data.take k) _ _
      (Nat.zero_le _) start).weaken
    · rintro ok w₁ ⟨k, -, ⟨silent, sent⟩, all⟩ w₂ drift
      have now : Told ⟨ok⟩ (said ++ data) w₁ := by
        refine ⟨silent, ?_, fun whole => ?_⟩
        · rw [sent]
          exact (List.prefix_append_right_inj said).mpr (List.take_prefix k data)
        · rw [sent, all.mp whole, List.take_length]
      exact ⟨now.same drift, id⟩
    · exact fun k w₁ w₂ drift now => ⟨drift.2.trans now.1, drift.1.trans now.2⟩
    · rintro k n w₁ - ⟨silent, sent⟩
      have further : (w₁.said ((data.drop k).take n)).sent = said ++ data.take (k + n) := by
        show w₁.sent ++ _ = _
        rw [sent, List.append_assoc, List.take_add]
      refine ⟨fun _ => ?_, silent, further⟩
      show MaySay abi sources tasks (w₁.said ((data.drop k).take n)).sent
      rw [further]
      exact may.mono ((List.prefix_append_right_inj said).mpr (List.take_prefix _ data))
  · next lost =>
    intro w₁ drift
    refine ⟨(told.lost (by simpa using lost) (List.prefix_append said data)).same drift, ?_⟩
    simp

/-- The same, as one of a row of sends. -/
theorem send_then {α : Type} {next : Bool × TcpClient → Prog α} {Q : α → World → Prop}
    (may : MaySay abi sources tasks (said ++ (data ++ more))) (told : Told client said w)
    {fuel : Nat}
    (holds : ∀ sent client' w', MaySay abi sources tasks (said ++ data ++ more) →
      Told client' (said ++ data) w' → (sent = true → client'.connected = true) →
      Program.Sat (handler policy True) (talking abi sources tasks) (next (sent, client')) Q w') :
    Program.Sat (handler policy True) (talking abi sources tasks)
      (client.send fuel data >>= next) Q w := by
  rw [← List.append_assoc] at may
  apply Program.Sat.bind
  apply (send_told (may.mono (List.prefix_append _ _)) told).weaken
  rintro ⟨sent, client'⟩ w' ⟨now, connected⟩
  exact holds sent client' w' may now connected

/-- Where the sending starts when the record says this. -/
def startedAt (progress : SyncProgress) (fileSize : Nat) : Nat :=
  if 0 < progress.offset ∧ 0 < progress.totalSize ∧ progress.offset < fileSize then
    progress.offset.toNat
  else 0

/-- What a record says, whenever it is looked for. -/
structure Loads (policy : Policy) (sources : Sources) (task : SyncTask) : Prop where
  missing : ∀ choice w, policy (.openIn (getProgressFilePath task.destPath)) choice w →
    ((Op.openIn (getProgressFilePath task.destPath)).run choice w).1 = false →
      sources.started task 0
  found : ∀ choice w, policy (.getAll (getProgressFilePath task.destPath)) choice w →
    ∀ size, sources.sized task size → sources.started task
      (startedAt (parseProgress task.destPath
        ((Op.getAll (getProgressFilePath task.destPath)).run choice w).1) size)

/-- What the client finds when it looks at its sources, and at its records. -/
structure Views (sync : FileSync) (policy : Policy) (sources : Sources) (resume : Bool)
    (tasks : List SyncTask) : Prop where
  stat : ∀ task ∈ tasks, task.isDirectory = false → ∀ choice w,
    policy (.stat task.srcPath) choice w →
      ∃ node, w.fs.stat task.srcPath = some node ∧ sources.sized task node.st_size
  seekEnd : ∀ task ∈ tasks, task.isDirectory = false → ∀ choice w,
    policy (.seekEnd task.srcPath) choice w →
      w.fs.read task.srcPath = some (sources.content task.srcPath)
  get : ∀ task ∈ tasks, task.isDirectory = false → ∀ pos count choice w,
    policy (.get task.srcPath pos count) choice w →
      w.fs.read task.srcPath = some (sources.content task.srcPath)
  fresh : resume = false → ∀ task, sources.started task 0
  loads : resume = true → ∀ task ∈ tasks, task.isDirectory = false → Loads policy sources task
  direct : sync.asyncIOHandler = none ∨ ∀ task ∈ tasks, task.isDirectory = false →
    (∀ size, sources.sized task size → size < LARGE_FILE_THRESHOLD) ∨
      ∀ offset, sources.started task offset → 0 < offset

theorem Views.mono {sync : FileSync} {policy policy' : Policy} {resume : Bool}
    (views : Views sync policy sources resume tasks)
    (le : ∀ op choice w, policy' op choice w → policy op choice w) :
    Views sync policy' sources resume tasks where
  stat task member file choice w allowed := views.stat task member file choice w (le _ _ _ allowed)
  seekEnd task member file choice w allowed :=
    views.seekEnd task member file choice w (le _ _ _ allowed)
  get task member file pos count choice w allowed :=
    views.get task member file pos count choice w (le _ _ _ allowed)
  fresh := views.fresh
  loads resumed task member file :=
    { missing := fun choice w allowed =>
        (views.loads resumed task member file).missing choice w (le _ _ _ allowed)
      found := fun choice w allowed =>
        (views.loads resumed task member file).found choice w (le _ _ _ allowed) }
  direct := views.direct

/-- What has been said after the metadata of some tasks. -/
def metadata (abi : Abi) (count : Nat) (done : List Item) : Bytes :=
  [0] ++ abi.encode abi.int count ++ done.flatMap (Item.header abi)

theorem metadata_may (before : Items sources (done.map Item.task) done)
    (split : tasks = done.map Item.task ++ item.task :: rest.map Item.task)
    (offered : item.Offered sources)
    (after : Items sources (rest.map Item.task) rest) :
    MaySay abi sources tasks (metadata abi tasks.length done ++ item.header abi) := by
  have one : Items sources [item.task] [item] := ⟨rfl, by simpa using offered⟩
  have all := before.append (one.append after)
  refine ⟨done ++ ([item] ++ rest), ⟨by rw [all.tasks, split]; simp, all.offered⟩, ?_⟩
  have inside := @headers_upTo abi done ([item] ++ rest) (item.header abi)
    (by simp)
  have count : tasks.length = (done ++ ([item] ++ rest)).length := by
    rw [split]
    simp
  rw [metadata, count]
  exact inside

variable {self : FileSync} {task : SyncTask} {fuel : Nat} {resume : Bool}

/-- One round of the metadata loop. -/
theorem sendTask_told (views : Views self policy sources resume tasks)
    {later : List SyncTask} (before : Items sources (done.map Item.task) done)
    (split : tasks = done.map Item.task ++ task :: later)
    (told : Told client (metadata abi tasks.length done) w) :
    Program.Sat (handler policy True) (talking abi sources tasks)
      (sendTask abi fuel client task)
      (fun client' w' => ∃ item : Item, item.task = task ∧ item.Offered sources ∧
        Told client' (metadata abi tasks.length done ++ item.header abi) w') w := by
  obtain ⟨rest, after⟩ := exists_items sources later
  have may : ∀ item : Item, item.task = task → item.Offered sources →
      MaySay abi sources tasks (metadata abi tasks.length done ++ item.header abi) := by
    rintro item rfl offered
    apply @metadata_may _ _ _ _ rest item before _ offered (by rw [after.tasks]; exact after)
    rw [after.tasks]
    exact split
  obtain ⟨item, rfl, offered⟩ := Item.exists_offered sources task
  have total := may item rfl offered
  generalize metadata abi tasks.length done = said at total told may ⊢
  simp only [Item.header, List.append_assoc] at total
  unfold sendTask
  refine send_then total told fun _ c₁ w₁ may₁ told₁ _ => ?_
  refine send_then may₁ told₁ fun _ c₂ w₂ may₂ told₂ _ => ?_
  refine send_then may₂ told₂ fun _ c₃ w₃ may₃ told₃ _ => ?_
  refine send_then may₃ told₃ fun _ c₄ w₄ may₄ told₄ _ => ?_
  refine send_then may₄ told₄ fun _ c₅ w₅ may₅ told₅ _ => ?_
  refine send_then may₅ told₅ fun _ c₆ w₆ may₆ told₆ _ => ?_
  show Program.Sat _ _ (if item.task.isDirectory = true then _ else _) _ _
  cases directory : item.task.isDirectory with
  | true =>
      intro w₇ drift
      refine ⟨item, rfl, offered, ?_⟩
      simp only [Item.header, directory, ↓reduceIte, List.append_nil,
        ← List.append_assoc] at told₆ ⊢
      exact told₆.same drift
  | false =>
      have member : item.task ∈ tasks := by simp [split]
      simp only [Bool.false_eq_true, ↓reduceIte, getFileStat, Program.ask_bind]
      refine told_call trivial told₆ fun choice w₇ allowed told₇ => ?_
      obtain ⟨node, found, sized⟩ := views.stat _ member directory _ _ allowed
      have seen : (Op.run (.stat item.task.srcPath) choice w₇).1 = some node := found
      rw [seen]
      -- the size that is declared is that of the file now
      let item' : Item := { item with size := node.st_size }
      have offered' : item'.Offered sources :=
        ⟨fun dir => absurd (directory.symm.trans dir) (by decide), offered.content, fun _ => sized,
          offered.started⟩
      have header : item'.header abi = abi.encode abi.int 0 ++
          abi.encode abi.size_t item.task.srcPath.length ++ item.task.srcPath ++
          abi.encode abi.size_t item.task.destPath.length ++ item.task.destPath ++
          abi.encode abi.mode_t item.task.mode.toNat ++ abi.encode abi.off_t node.st_size := by
        simp [Item.header, item', directory]
      have may' := may item' rfl offered'
      rw [header] at may'
      simp only [← List.append_assoc] at may'
      simp only [directory, Bool.false_eq_true, ↓reduceIte] at told₇
      apply Program.Sat.bind
      apply (send_told may' told₇).weaken
      rintro ⟨sent, c₈⟩ w₈ ⟨told₈, -⟩ w₉ drift
      refine ⟨item', rfl, offered', ?_⟩
      rw [header]
      simp only [← List.append_assoc]
      exact told₈.same drift

/-- The metadata loop. -/
theorem sendMetadata_told (views : Views self policy sources resume tasks) {later : List SyncTask}
    (before : Items sources (done.map Item.task) done)
    (split : tasks = done.map Item.task ++ later)
    (told : Told client (metadata abi tasks.length done) w) :
    Program.Sat (handler policy True) (talking abi sources tasks)
      (sendMetadata abi fuel client later)
      (fun client' w' => ∃ items, Items sources tasks items ∧
        Told client' (prologue abi items) w') w := by
  induction later generalizing done client w with
  | nil =>
      intro w' drift
      rw [List.append_nil] at split
      refine ⟨done, split ▸ before, ?_⟩
      have now := told.same drift
      rwa [metadata, split, List.length_map] at now
  | cons task later ih =>
      simp only [sendMetadata]
      apply Program.Sat.bind
      apply (sendTask_told views before split told).weaken
      rintro client' w' ⟨item, rfl, offered, now⟩
      apply @ih (done ++ [item])
      · have one : Items sources [item.task] [item] := ⟨rfl, by simpa using offered⟩
        simpa using before.append one
      · simpa using split
      · rw [metadata, List.flatMap_append, List.flatMap_singleton, ← List.append_assoc]
        exact now

theorem saveProgress_offline (filePath : Bytes) (offset totalSize : Nat) :
    Program.All Op.offline (saveProgress filePath offset totalSize) := by
  simp [saveProgress, Op.offline]

theorem throttle_offline (milliseconds : Nat) :
    Program.All Op.offline (throttle self milliseconds) := by
  unfold throttle
  split
  · exact Program.all_ask.mpr trivial
  · trivial

/-- Where the sending starts. -/
theorem remoteOffset_told (views : Views self policy sources resume tasks) (member : task ∈ tasks)
    (file : task.isDirectory = false) (told : Told client said w) {fileSize : Nat}
    (sized : sources.sized task fileSize) :
    Program.Sat (handler policy True) (talking abi sources tasks)
      (remoteOffset resume task.destPath fileSize)
      (fun offset w' => Told client said w' ∧ sources.started task offset) w := by
  unfold remoteOffset
  cases resume with
  | false => exact fun w₁ drift => ⟨told.same drift, views.fresh rfl task⟩
  | true =>
      have loads := views.loads rfl task member file
      simp only [↓reduceIte, loadProgress, Program.ask_bind, Program.call_bind]
      refine told_call trivial told fun choice₁ w₁ allowed₁ told₁ => ?_
      cases opened : ((Op.openIn (getProgressFilePath task.destPath)).run choice₁ w₁).1 with
      | false =>
          have zero := loads.missing choice₁ w₁ allowed₁ opened
          intro w₂ drift
          exact ⟨told₁.same drift, zero⟩
      | true =>
          simp only [↓reduceIte, Program.call_bind]
          refine told_call trivial told₁ fun choice₂ w₂ allowed₂ told₂ => ?_
          have started := loads.found choice₂ w₂ allowed₂ fileSize sized
          unfold startedAt at started
          show Program.Sat _ _ (if _ then _ else _) _ _
          split
          · next usable =>
            rw [if_pos usable] at started
            exact fun w₃ drift => ⟨told₂.same drift, started⟩
          · next useless =>
            rw [if_neg useless] at started
            exact fun w₃ drift => ⟨told₂.same drift, started⟩

/-- The send loop: what has been said of the file goes from where it started to where it is. -/
theorem sendBlocks_told (views : Views self policy sources resume tasks) (member : task ∈ tasks)
    (file : task.isDirectory = false) {offset transferred sends fuel : Nat}
    (may : MaySay abi sources tasks
      (said ++ (sources.content task.srcPath).drop offset))
    (ordered : offset ≤ transferred)
    (told : Told client
      (said ++ World.slice (sources.content task.srcPath) offset (transferred - offset)) w) :
    Program.Sat (handler policy True) (talking abi sources tasks)
      (sendBlocks self task.srcPath task.destPath (sources.content task.srcPath).length sends fuel
        client transferred)
      (fun out w' => out.1 = true →
        Told out.2 (said ++ (sources.content task.srcPath).drop offset) w') w := by
  induction fuel generalizing transferred client w with
  | zero => trivial
  | succ fuel ih =>
      simp only [sendBlocks]
      split
      · simp only [Program.ask_bind]
        refine told_call trivial told fun choice w₁ allowed told₁ => ?_
        have read := views.get task member file _ _ choice w₁ allowed
        obtain ⟨count, block⟩ : ∃ count, ((Op.get task.srcPath transferred
            (min bufferSize ((sources.content task.srcPath).length - transferred))).run
              choice w₁).1 =
            World.slice (sources.content task.srcPath) transferred count := by
          have cut : ∀ (block : Bytes) n m, (block.take n).take m = block.take (min m n) :=
            fun _ _ _ => List.take_take
          simp only [Op.run, read, Option.getD_some, World.slice]
          split
          · exact ⟨_, rfl⟩
          · exact ⟨_, cut _ _ _⟩
        rw [block]
        split
        · have longer :
              ∀ n, World.slice (sources.content task.srcPath) offset (transferred - offset) ++
              World.slice (sources.content task.srcPath) transferred n =
              World.slice (sources.content task.srcPath) offset (transferred + n - offset) := by
            intro n
            have split : transferred + n - offset = transferred - offset + n := by omega
            rw [split, World.slice_add, Nat.add_sub_cancel' ordered]
          have counted : World.slice (sources.content task.srcPath) transferred count =
              World.slice (sources.content task.srcPath) transferred
                (World.slice (sources.content task.srcPath) transferred count).length := by
            rw [World.length_slice, World.slice_min]
          generalize World.slice (sources.content task.srcPath) transferred count =
            buffer at counted ⊢
          apply Program.Sat.bind
          have next : MaySay abi sources tasks
              (said ++ World.slice (sources.content task.srcPath) offset (transferred - offset) ++
                buffer) := by
            apply may.mono
            rw [counted, List.append_assoc, longer]
            exact (List.prefix_append_right_inj _).mpr (List.take_prefix _ _)
          apply (send_told next told₁).weaken
          rintro ⟨sent, client'⟩ w₂ ⟨told₂, -⟩
          rw [counted, List.append_assoc, longer] at told₂
          cases sent with
          | true =>
              simp only [↓reduceIte]
              apply Program.Sat.bind
              apply (told_offline (saveProgress_offline _ _ _) told₂).weaken
              intro _ w₃ told₃
              apply Program.Sat.bind
              apply (told_offline (throttle_offline _) told₃).weaken
              intro _ w₄ told₄
              exact ih (by omega) told₄
          | false =>
              simp only [Bool.false_eq_true, ↓reduceIte]
              apply Program.Sat.bind
              apply (told_offline (saveProgress_offline _ _ _) told₂).weaken
              intro _ w₃ _ w₄ _ impossible
              cases impossible
        · exact ih ordered told₁
      · next done =>
        intro w₁ drift _
        have all : World.slice (sources.content task.srcPath) offset (transferred - offset) =
            (sources.content task.srcPath).drop offset := by
          rw [World.slice, List.take_of_length_le]
          rw [List.length_drop]
          omega
        rw [all] at told
        exact told.same drift

theorem sendFileSync_told (views : Views self policy sources resume tasks) (member : task ∈ tasks)
    (file : task.isDirectory = false) {offset : Nat}
    (may : MaySay abi sources tasks
      (said ++ (sources.content task.srcPath).drop offset)) (told : Told client said w) :
    Program.Sat (handler policy True) (talking abi sources tasks)
      (sendFileSync self fuel task.srcPath task.destPath client offset)
      (fun out w' => out.1 = true →
        Told out.2 (said ++ (sources.content task.srcPath).drop offset) w') w := by
  have stop : ∀ (client' : TcpClient) (w₁ : World),
      Program.Sat (handler policy True) (talking abi sources tasks)
        (.done (false, client')) (fun out w' => out.1 = true →
          Told out.2 (said ++ (sources.content task.srcPath).drop offset) w') w₁ := by
    intro _ _ _ _ impossible
    cases impossible
  simp only [sendFileSync, Program.ask_bind]
  refine told_call trivial told fun choice₁ w₁ _ told₁ => ?_
  split
  · refine told_call trivial told₁ fun choice₂ w₂ allowed₂ told₂ => ?_
    have size : ((Op.seekEnd task.srcPath).run choice₂ w₂).1 =
        (sources.content task.srcPath).length := by
      simp only [Op.run, views.seekEnd task member file choice₂ w₂ allowed₂, Option.getD_some]
    rw [size]
    apply Program.Sat.bind
    apply (sendBlocks_told views member file may (le_refl offset)
      (by simpa [World.slice] using told₂)).weaken
    rintro ⟨sent, client'⟩ w₃ done
    cases sent with
    | true =>
        simp only [↓reduceIte]
        refine told_call trivial (done rfl) fun choice₄ w₄ _ told₄ => ?_
        exact fun w₅ drift _ => told₄.same drift
    | false => exact stop _ _
  · exact stop _ _

/-- Another offset changes nothing of what has been said so far. -/
theorem upTo_offset (offset : Nat) :
    upTo abi (done ++ { item with offset := offset } :: rest) done.length =
      upTo abi (done ++ item :: rest) done.length := by
  have same : ({ item with offset := offset } : Item).header abi = item.header abi := rfl
  simp [upTo, prologue, same]

/-- One round of the data loop. -/
theorem sendTaskData_told (views : Views self policy sources resume tasks)
    (all : Items sources tasks (done ++ item :: rest))
    (told : Told client (upTo abi (done ++ item :: rest) done.length) w) :
    Program.Sat (handler policy True) (talking abi sources tasks)
      (sendTaskData self abi fuel resume client item.task)
      (fun out w' => out.1 = true → ∃ item', Items sources tasks (done ++ item' :: rest) ∧
        Told out.2 (upTo abi (done ++ item' :: rest) (done.length + 1)) w') w := by
  have offered := all.offered item (by simp)
  have member : item.task ∈ tasks := by
    rw [← all.tasks]
    simp
  unfold sendTaskData
  cases directory : item.task.isDirectory with
  | true =>
      simp only [↓reduceIte]
      have segment : item.segment abi = abi.encode abi.off_t 0 := by
        simp [Item.segment, Item.payload, directory, (offered.directory directory).2.1]
      have next := @upTo_succ abi done rest item
      rw [segment] at next
      have may : MaySay abi sources tasks
          (upTo abi (done ++ item :: rest) done.length ++ abi.encode abi.off_t 0) := by
        rw [← next]
        exact ⟨_, all, upTo_prefix_stream⟩
      apply Program.Sat.bind
      apply (send_told may told).weaken
      rintro ⟨sent, client'⟩ w₁ ⟨told₁, -⟩ w₂ drift _
      rw [← next] at told₁
      exact ⟨item, all, told₁.same drift⟩
  | false =>
      simp only [Bool.false_eq_true, ↓reduceIte, getFileStat, Program.ask_bind]
      refine told_call trivial told fun choice w₁ allowed told₁ => ?_
      obtain ⟨node, found, sized⟩ := views.stat _ member directory _ _ allowed
      have stat : ((Op.stat item.task.srcPath).run choice w₁).1 = some node := found
      rw [stat]
      apply Program.Sat.bind
      apply (remoteOffset_told views member directory told₁ sized).weaken
      rintro offset w₂ ⟨told₂, started⟩
      -- the item with the offset that is now known
      have offered' : Item.Offered sources { item with offset := offset } :=
        ⟨fun dir => absurd (directory.symm.trans dir) (by decide), offered.content, offered.sized,
          fun _ => started⟩
      have all' : Items sources tasks (done ++ { item with offset := offset } :: rest) := by
        refine ⟨by simpa using all.tasks, fun other inside => ?_⟩
        rcases List.mem_append.mp inside with before | after
        · exact all.offered other (by simp [before])
        · rcases List.mem_cons.mp after with rfl | after
          · exact offered'
          · exact all.offered other (by simp [after])
      have segment : ({ item with offset := offset } : Item).segment abi =
          abi.encode abi.off_t offset ++ (sources.content item.task.srcPath).drop offset := by
        simp [Item.segment, Item.payload, directory, offered.content directory]
      have next := @upTo_succ abi done rest { item with offset := offset }
      rw [segment, upTo_offset] at next
      have may : MaySay abi sources tasks (upTo abi (done ++ item :: rest) done.length ++
          (abi.encode abi.off_t offset ++ (sources.content item.task.srcPath).drop offset)) := by
        rw [← next]
        exact ⟨_, all', upTo_prefix_stream⟩
      refine send_then may told₂ fun _ client₃ w₃ may₃ told₃ _ => ?_
      have plain : (if decide (LARGE_FILE_THRESHOLD ≤ node.st_size) && !decide (0 < offset) then
          self.asyncIOHandler else none) = none := by
        rcases views.direct with none | each
        · rw [none]
          split <;> rfl
        · rw [if_neg]
          simp only [Bool.and_eq_true, Bool.not_eq_true', decide_eq_true_eq,
            decide_eq_false_iff_not]
          rintro ⟨large, fresh⟩
          rcases each _ member directory with small | resumed
          · have below := small _ sized
            omega
          · exact fresh (resumed _ started)
      simp only [plain]
      apply (sendFileSync_told views member directory may₃ told₃).weaken
      rintro out w₄ said_all sent
      refine ⟨_, all', ?_⟩
      rw [next, ← List.append_assoc]
      exact said_all sent

/-- The data loop. -/
theorem sendData_told (views : Views self policy sources resume tasks)
    (all : Items sources tasks (done ++ rest))
    (told : Told client (upTo abi (done ++ rest) done.length) w) :
    Program.Sat (handler policy True) (talking abi sources tasks)
      (sendData self abi fuel resume client (rest.map Item.task))
      (fun out w' => out.1 = true → ∃ items, Items sources tasks items ∧
        Told out.2 (stream abi items) w') w := by
  induction rest generalizing done client w with
  | nil =>
      intro w' drift _
      rw [List.append_nil] at all told
      rw [upTo_length] at told
      exact ⟨done, all, told.same drift⟩
  | cons item rest ih =>
      simp only [List.map_cons, sendData]
      apply Program.Sat.bind
      apply (sendTaskData_told views all told).weaken
      rintro ⟨sent, client'⟩ w₁ given
      cases sent with
      | true =>
          simp only [↓reduceIte]
          obtain ⟨item', all', told'⟩ := given rfl
          have split : done ++ item' :: rest = done ++ [item'] ++ rest := by simp
          have length : done.length + 1 = (done ++ [item']).length := by simp
          rw [split] at all' told'
          rw [length] at told'
          exact ih all' told'
      | false =>
          intro w₂ _ impossible
          cases impossible

/-- The client's side of a session: whatever happens, what it has said begins a session for its
tasks; and if it reports success, it has said all of that and has been acknowledged. -/
theorem sendTasks_told (views : Views self policy sources resume tasks) (silent : w.sent = [])
    (deaf : w.received = []) :
    Program.Sat (handler policy True) (talking abi sources tasks)
      (sendTasks self abi fuel resume tasks)
      (fun ok w' => ok = true → ∃ items, Items sources tasks items ∧
        w'.sent = stream abi items ∧ w'.received = ack) w := by
  obtain ⟨items, all⟩ := exists_items sources tasks
  have total :
      MaySay abi sources tasks ([] ++ ([0] ++ (abi.encode abi.int tasks.length ++ []))) := by
    refine ⟨items, all, ?_⟩
    rw [stream, prologue, all.length]
    simp only [List.nil_append, List.append_nil, List.append_assoc]
    exact (List.prefix_append_right_inj _).mpr (List.prefix_append _ _)
  have start : Told ⟨true⟩ [] w := ⟨deaf, by rw [silent], fun _ => silent⟩
  have close : ∀ (verdict : Bool) (w₁ : World) (Q : Bool → World → Prop),
      (∀ w₂, w₂.sent = w₁.sent ∧ w₂.received = w₁.received → Q verdict w₂) →
      Program.Sat (handler policy True) (talking abi sources tasks)
        (.call .closeSocket fun _ => .done verdict) Q w₁ := by
    intro verdict w₁ Q holds
    refine Program.sat_op.mpr fun w₂ drift choice _ => ⟨id, fun w₃ drift' => holds w₃ ?_⟩
    exact ⟨drift'.1.trans drift.1, drift'.2.trans drift.2⟩
  unfold sendTasks
  refine send_then total start fun _ c₁ w₁ may₁ told₁ _ => ?_
  refine send_then may₁ told₁ fun _ c₂ w₂ may₂ told₂ _ => ?_
  apply Program.Sat.bind
  have told₂' : Told c₂ (metadata abi tasks.length []) w₂ := by
    simpa [metadata] using told₂
  apply (@sendMetadata_told _ _ _ [] _ _ _ _ _ _ views _ ⟨rfl, by simp⟩ rfl told₂').weaken
  rintro c₃ w₃ ⟨items, all, told₃⟩
  apply Program.Sat.bind
  have data := @sendData_told abi sources tasks [] items c₃ w₃ policy self fuel resume views all
    (by rw [List.length_nil, List.nil_append, upTo_zero]; exact told₃)
  rw [all.tasks] at data
  apply data.weaken
  rintro ⟨sent, c₄⟩ w₄ given
  cases sent with
  | false => exact close false w₄ _ fun w₅ _ impossible => by cases impossible
  | true =>
      obtain ⟨items, all, told₄⟩ := given rfl
      simp only [↓reduceIte, TcpClient.receive]
      split
      · next connected =>
        apply Program.Sat.bind
        simp only [Program.ask_bind]
        refine Program.sat_op.mpr fun w₅ drift choice _ => ?_
        have told₅ := told₄.same drift
        have deaf_ : ∀ (client' : TcpClient) (w₆ : World),
            Program.Sat (handler policy True) (talking abi sources tasks)
              (.done (([] : Bytes), client')) (fun received w' =>
                Program.Sat (handler policy True) (talking abi sources tasks)
                  (.call .closeSocket fun _ => .done (received.1 == ack))
                  (fun ok w' => ok = true → ∃ items, Items sources tasks items ∧
                    w'.sent = stream abi items ∧ w'.received = ack) w') w₆ :=
          fun client' w₆ w₇ _ => close _ w₇ _ fun _ _ impossible => by cases impossible
        rcases run_recv choice w₅ 3 with ran | ran | ⟨data, -, ran⟩
        · rw [ran]
          exact ⟨id, deaf_ _ _⟩
        · rw [ran]
          exact ⟨id, deaf_ _ _⟩
        · rw [ran]
          refine ⟨id, fun w₆ drift₆ => close _ w₆ _ fun w₇ drift₇ heard => ⟨items, all, ?_, ?_⟩⟩
          · rw [drift₇.1, drift₆.1]
            exact told₅.whole connected
          · rw [drift₇.2, drift₆.2, World.got_received, told₅.silent]
            simpa using heard
      · apply Program.Sat.bind
        intro w₅ _
        exact close _ w₅ _ fun _ _ impossible => by cases impossible

end

end SyncTool
