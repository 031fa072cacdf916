import SyncTool.ServerSession

set_option autoImplicit false

namespace SyncTool

open SyncTool.Path LinuxFileUtil SyncServer

/-- What a client says that a server can follow: all items but the last are aligned, and a file
that is resumed is there with what comes before. -/
structure Playable (server : SyncServer) (items : List Item) (cwd : Path)
    (before : Path → Option Bytes) : Prop where
  few : items.length < 2 ^ 31
  fits : ∀ item ∈ items, item.Fits server.abi
  proper : ∀ item ∈ items, item.Proper
  aligned : ∀ done item rest, items = done ++ item :: rest → rest ≠ [] → item.Aligned
  resumes : ∀ done item rest, items = done ++ item :: rest → item.isFile → 0 < item.offset →
    ∀ content, done.foldl (Item.put server cwd) before (place cwd (item.target server)) =
      some content → content <+: item.content
  matched : ∀ done item rest, items = done ++ item :: rest → item.isFile → 0 < item.offset →
    ((done.foldl (Item.put server cwd) before (place cwd (item.target server))).getD []).length =
      item.offset

/-- The server between two tasks. -/
structure AtTask (server : SyncServer) (items : List Item) (before : Path → Option Bytes)
    (done : List Item) (w : World) : Prop where
  received : w.received = upTo server.abi (items.map Item.declared) done.length
  processed : w.processedTasks = done.length
  silent : w.sent = []
  accepted : w.accepted = items.map Item.serverTask
  files : ∀ q, w.fs.contentAt q = done.foldl (Item.put server w.fs.cwd) before q
  resolved : ∀ item ∈ done, item.isFile →
    w.fs.resolve (item.target server) = some (place w.fs.cwd (item.target server))
  enough : ∀ item ∈ done, item.isFile → item.size ≤ item.content.length

section

variable {server : SyncServer} {items done rest : List Item} {item : Item} {policy : Policy}
  {before : Path → Option Bytes} {w w₁ w₂ : World} {cwd : Path}

theorem mem_of_split (split : items = done ++ item :: rest) : item ∈ items := by
  rw [split]
  simp

theorem Playable.done_aligned (playable : Playable server items cwd before)
    (split : items = done ++ item :: rest) : ∀ other ∈ items.take done.length, other.Aligned := by
  intro other member
  rw [split, List.take_left] at member
  obtain ⟨front, back, rfl⟩ := List.append_of_mem member
  exact playable.aligned front other (back ++ item :: rest) (by simp [split]) (by simp)

/-- At a task, the server has read just what the client has said of the tasks before. -/
theorem AtTask.received_upTo (at_ : AtTask server items before done w)
    (playable : Playable server items cwd before) (split : items = done ++ item :: rest) :
    w.received = upTo server.abi items done.length := by
  rw [at_.received, upTo_declared (playable.done_aligned split)]

theorem stream_split (abi : Abi) (split : items = done ++ item :: rest) :
    stream abi items = upTo abi items done.length ++
      (item.segment abi ++ rest.flatMap (Item.segment abi)) := by
  subst split
  rw [stream, upTo, List.take_left]
  simp [List.append_assoc]

theorem upTo_split (abi : Abi) (split : items = done ++ item :: rest) :
    upTo abi items (done.length + 1) = upTo abi items done.length ++ item.segment abi := by
  subst split
  exact upTo_succ

theorem declared_segment (abi : Abi) (file : item.isFile) :
    item.declared.segment abi =
      abi.encode abi.off_t item.offset ++ item.payload.take (item.size - item.offset) := by
  have kind : item.task.isDirectory = false := file
  simp [Item.segment, Item.payload, Item.declared, kind, List.drop_take]

theorem declared_segment_dir (abi : Abi) (dir : item.task.isDirectory = true) :
    item.declared.segment abi = abi.encode abi.off_t item.offset := by
  simp [Item.segment, Item.payload, Item.declared, dir]

/-- What follows the resume header is, as far as the server reads it, the file. -/
theorem Playable.take_data (playable : Playable server items cwd before)
    (split : items = done ++ item :: rest) (file : item.isFile) {n : Nat}
    (within : n ≤ item.size - item.offset) (abi : Abi) :
    (item.payload ++ rest.flatMap (Item.segment abi)).take n = item.payload.take n := by
  by_cases last : rest = []
  · simp [last]
  · have whole := playable.aligned done item rest split last file
    have kind : item.task.isDirectory = false := file
    have length : item.payload.length = item.size - item.offset := by
      simp [Item.payload, kind, whole]
    rw [List.take_append_of_le_length (by omega)]

theorem dirsKept_between {p : Path} {content content' data data' : Bytes}
    (first : Stored w p content data w₁) (second : Stored w p content' data' w₂) :
    FileSystem.DirsKept w₁.fs w₂.fs := by
  refine ⟨second.cwd.trans first.cwd.symm, fun q isDir => ?_⟩
  rw [first.tree] at isDir
  rw [second.tree]
  by_cases same : q = p
  · subst same
    simp at isDir
  · rw [Function.update_of_ne same] at isDir ⊢
    exact isDir

/-- A step that has a file grow and reads on. -/
theorem served_of_growth {p : Path} {content : Bytes} (member : item ∈ items) (file : item.isFile)
    (place_eq : p = place w₁.fs.cwd (item.target server))
    (dirs : FileSystem.DirsKept w₁.fs w₂.fs)
    (others : ∀ q, q ≠ p → w₂.fs.contentAt q = w₁.fs.contentAt q)
    (here : w₂.fs.contentAt p = some content) (beginning : content <+: item.content)
    (more : w₁.received <+: w₂.received) (processed : w₂.processedTasks = w₁.processedTasks)
    (within : w₂.received <+: upTo server.abi items (w₂.processedTasks + 1))
    (silent : w₂.sent = []) : Served server items before w₁ w₂ where
  dirs := dirs
  files q := by
    by_cases same : q = p
    · right
      exact ⟨item, member, file, same.trans place_eq, content, same ▸ here, beginning⟩
    · exact .inl (others q same)
  inStep := by
    rintro ⟨-, lower⟩
    refine ⟨within, fun positive => ?_⟩
    rw [processed] at positive ⊢
    exact (lower positive).trans more
  honest _ := honest_of_silent silent

variable {spins : Prop}

/-- The reception of the file of an item. -/
theorem receiveItem_sat
    (reads : Reads policy spins (serving server items before) (stream server.abi items))
    (playable : Playable server items w.fs.cwd before) (split : items = done ++ item :: rest)
    (file : item.isFile) (silent : w.sent = []) (processed : w.processedTasks = done.length)
    (read : w.received =
      upTo server.abi items done.length ++ server.abi.encode server.abi.off_t item.offset)
    (files : ∀ q, w.fs.contentAt q = done.foldl (Item.put server w.fs.cwd) before q) {fuel : Nat} :
    Program.Sat (handler policy spins) (serving server items before)
      (receiveFileData fuel (item.target server) item.size item.offset)
      (fun ok w' => w'.sent = [] ∧ (ok = true →
        w.fs.resolve (item.target server) = some (place w.fs.cwd (item.target server)) ∧
        w.fs.entry (place w.fs.cwd (item.target server)) ≠ some .dir ∧
        item.size ≤ item.content.length ∧
        Stored w (place w.fs.cwd (item.target server)) (item.content.take item.size)
          (item.payload.take (item.size - item.offset)) w')) w := by
  have member := mem_of_split split
  have kind : item.task.isDirectory = false := file
  have ordered : item.offset ≤ item.size := by
    have proper := playable.proper item member
    rw [Item.Proper, kind] at proper
    exact proper
  have payload : item.payload = item.content.drop item.offset := by
    simp [Item.payload, kind]
  have streamed : stream server.abi items =
      w.received ++ (item.payload ++ rest.flatMap (Item.segment server.abi)) := by
    rw [stream_split _ split, read, Item.segment]
    simp [List.append_assoc]
  have taken : ∀ n, n ≤ item.size - item.offset →
      (item.payload ++ rest.flatMap (Item.segment server.abi)).take n = item.payload.take n :=
    fun n within => playable.take_data split file within server.abi
  -- what is there before is a beginning of the file
  have begun : startOf w (place w.fs.cwd (item.target server)) item.offset <+: item.content := by
    unfold startOf
    split
    · next positive =>
        rw [files]
        cases old : done.foldl (Item.put server w.fs.cwd) before
            (place w.fs.cwd (item.target server)) with
        | none => exact List.nil_prefix
        | some content => exact playable.resumes done item rest split file positive content old
    · exact List.nil_prefix
  have grown : (startOf w (place w.fs.cwd (item.target server)) item.offset).length = item.offset →
      ∀ n, startOf w (place w.fs.cwd (item.target server)) item.offset ++ item.payload.take n =
        item.content.take (item.offset + n) := by
    intro length n
    have start := List.prefix_iff_eq_take.mp begun
    rw [length] at start
    rw [start, payload, List.take_add]
  have bound : ∀ n, w.received ++ item.payload.take n <+:
      upTo server.abi items (w.processedTasks + 1) := by
    intro n
    rw [processed, upTo_split _ split, read, Item.segment, List.append_assoc]
    apply (List.prefix_append_right_inj _).mpr
    exact (List.prefix_append_right_inj _).mpr (List.take_prefix _ _)
  have need : item.size - item.offset = ((item.size : Int) - (item.offset : Nat)).toNat := by omega
  apply (receiveFileData_sat reads streamed rfl need ?_ ?_ ?_).weaken
  · intro ok w' outcome
    rcases outcome with ⟨failed, rfl, -⟩ | ⟨found, notDir, length, n, m, le, within, stored, all, -⟩
    · exact ⟨silent, fun success => by rw [success] at failed; cases failed⟩
    · refine ⟨by rw [stored.sent, silent], fun success => ?_⟩
      obtain ⟨rfl, rfl, enough⟩ := all success
      rw [taken _ (le_refl _), grown length, Nat.add_sub_cancel' ordered] at stored
      refine ⟨found, notDir, ?_, stored⟩
      have whole := congrArg List.length (taken _ (le_refl _))
      rw [List.length_take, List.length_take, Nat.min_eq_left enough, payload,
        List.length_drop] at whole
      have start := begun.length_le
      omega
  · intro positive
    rw [startOf, if_pos positive, files]
    exact playable.matched done item rest split file positive
  · intro w₁ found notDir opened
    apply served_of_growth member file rfl (opened.dirsKept notDir)
      (fun q other => opened.contentAt_ne other) opened.contentAt_self begun
    · rw [opened.received]
      exact List.prefix_append _ _
    · exact opened.processedTasks
    · rw [opened.received, opened.processedTasks]
      have start := bound 0
      rwa [List.take_zero] at start
    · rw [opened.sent, silent]
  · intro length n m n' m' w₁ w₂ _ more _ within first second
    rw [taken n (by omega), taken m (by omega)] at first
    rw [taken n' (by omega), taken m' within, grown length] at second
    apply served_of_growth member file (by rw [first.cwd]) (dirsKept_between first second) _
      second.contentAt_self (List.take_prefix _ _)
    · rw [first.received, second.received]
      apply (List.prefix_append_right_inj _).mpr
      exact (List.take_prefix_take_left more)
    · rw [first.processedTasks, second.processedTasks]
    · rw [second.received, second.processedTasks]
      exact bound m'
    · rw [second.sent, silent]
    · intro q other
      rw [first.contentAt_ne other, second.contentAt_ne other]

theorem quiet_serving_sat
    (reads : Reads policy spins (serving server items before) (stream server.abi items))
    (silent : w.sent = []) {α : Type} {p : Prog α} (all : Program.All Op.quiet p) :
    Program.Sat (handler policy spins) (serving server items before) p
      (fun _ w' => Quiet w w') w := by
  apply quiet_sat reads.spins reads.still _ all
  intro w₁ w₂ first second
  exact served_of_quiet second (by rw [first.rest, silent])

theorem makeParent_all (path : Bytes) : Program.All Op.quiet (makeParent path) := by
  unfold makeParent
  split
  · trivial
  · exact createDirectory_all _ _

/-- A task is done when it is counted. -/
theorem atTask_next {data : Bytes} (at_ : AtTask server items before done w)
    (dirs : FileSystem.DirsKept w.fs w₁.fs)
    (received : upTo server.abi (items.map Item.declared) done.length ++ data =
      upTo server.abi (items.map Item.declared) (done.length + 1))
    (rest_ : w₁ = { w with fs := w₁.fs, received := w.received ++ data })
    (files : ∀ q, w₁.fs.contentAt q = (done ++ [item]).foldl (Item.put server w.fs.cwd) before q)
    (resolved : item.isFile →
      w₁.fs.resolve (item.target server) = some (place w.fs.cwd (item.target server)))
    (enough : item.isFile → item.size ≤ item.content.length) :
    AtTask server items before (done ++ [item])
      { w₁ with processedTasks := w₁.processedTasks + 1 } where
  received := by
    rw [List.length_append, List.length_singleton, ← received]
    show w₁.received = _
    rw [rest_, at_.received]
  processed := by
    rw [List.length_append, List.length_singleton]
    show w₁.processedTasks + 1 = _
    rw [rest_, at_.processed]
  silent := by
    show w₁.sent = _
    rw [rest_, at_.silent]
  accepted := by
    show w₁.accepted = _
    rw [rest_, at_.accepted]
  files q := by
    show w₁.fs.contentAt q = (done ++ [item]).foldl (Item.put server w₁.fs.cwd) before q
    rw [dirs.1]
    exact files q
  resolved other member file := by
    show w₁.fs.resolve _ = some (place w₁.fs.cwd _)
    rw [dirs.1]
    rcases List.mem_append.mp member with old | new
    · exact dirs.resolve (at_.resolved other old file)
    · obtain rfl := List.mem_singleton.mp new
      exact resolved file
  enough other member file := by
    rcases List.mem_append.mp member with old | new
    · exact at_.enough other old file
    · obtain rfl := List.mem_singleton.mp new
      exact enough file

theorem foldl_put_concat (cwd : Path) :
    (done ++ [item]).foldl (Item.put server cwd) before =
      Item.put server cwd (done.foldl (Item.put server cwd) before) item := by
  rw [List.foldl_append]
  rfl

theorem upTo_declared_succ (abi : Abi) (split : items = done ++ item :: rest) :
    upTo abi (items.map Item.declared) (done.length + 1) =
      upTo abi (items.map Item.declared) done.length ++ item.declared.segment abi := by
  have split' : items.map Item.declared =
      done.map Item.declared ++ item.declared :: rest.map Item.declared := by
    rw [split]
    simp
  have next := upTo_split abi split'
  rwa [List.length_map] at next

/-- One round of the task loop. -/
theorem handleTask_sat
    (reads : Reads policy spins (serving server items before) (stream server.abi items))
    (playable : Playable server items w.fs.cwd before) (split : items = done ++ item :: rest)
    (at_ : AtTask server items before done w) {fuel : Nat} :
    Program.Sat (handler policy spins) (serving server items before)
      (server.handleTask fuel item.serverTask)
      (fun ok w' => w'.sent = [] ∧ (ok = true →
        w'.fs.cwd = w.fs.cwd ∧ w'.processedTasks = done.length ∧
        upTo server.abi (items.map Item.declared) (done.length + 1) = w'.received ∧
        AtTask server items before (done ++ [item])
          { w' with processedTasks := w'.processedTasks + 1 })) w := by
  have member := mem_of_split split
  have begun := at_.received_upTo playable split
  have fits := playable.fits item member
  have proper := playable.proper item member
  have offset : 2 * item.offset < 256 ^ server.abi.off_t := by
    have size := fits.size
    unfold Item.Proper at proper
    split at proper <;> omega
  have stop : ∀ w₁ : World, w₁.sent = [] →
      Program.Sat (handler policy spins) (serving server items before) (.done false)
        (fun ok w' => w'.sent = [] ∧ (ok = true →
          w'.fs.cwd = w.fs.cwd ∧ w'.processedTasks = done.length ∧
          upTo server.abi (items.map Item.declared) (done.length + 1) = w'.received ∧
          AtTask server items before (done ++ [item])
            { w' with processedTasks := w'.processedTasks + 1 })) w₁ := by
    intro w₁ silent w₂ drift
    rw [reads.still _ _ drift]
    exact ⟨silent, by simp⟩
  have header : w.received ++ server.abi.encode server.abi.off_t item.offset <+:
      upTo server.abi items (w.processedTasks + 1) := by
    rw [at_.processed, upTo_split _ split, begun, Item.segment]
    exact (List.prefix_append_right_inj _).mpr (List.prefix_append _ _)
  apply Program.Sat.bind
  apply (receiveOffT_next reads offset at_.silent header).weaken
  rintro out w₁ ⟨silent, given⟩
  cases out with
  | none => exact stop w₁ silent
  | some value =>
      obtain ⟨rfl, rfl⟩ := given value rfl
      have whole := upTo_declared_succ server.abi split
      show Program.Sat _ _ (if item.task.isDirectory then _ else _) _ _
      cases kind : item.task.isDirectory with
      | true =>
          simp only [↓reduceIte]
          apply (quiet_serving_sat reads silent (createDirectory_all _ _)).weaken
          intro ok w₂ quiet
          refine ⟨by rw [quiet.rest]; exact silent, fun _ => ⟨quiet.dirs.1, ?_, ?_, ?_⟩⟩
          · rw [quiet.rest]
            exact at_.processed
          · rw [whole, declared_segment_dir _ kind, quiet.rest, ← at_.received]
            rfl
          · have notFile : ¬ item.isFile := by simp [Item.isFile, kind]
            apply atTask_next at_ quiet.dirs (by rw [whole, declared_segment_dir _ kind])
              quiet.rest _ (fun file => absurd file notFile) fun file => absurd file notFile
            intro q
            rw [quiet.files, World.got_fs, at_.files, foldl_put_concat, Item.put, if_neg notFile]
      | false =>
          have file : item.isFile := kind
          simp only [Bool.false_eq_true, ↓reduceIte]
          apply Program.Sat.bind
          apply (quiet_serving_sat reads silent (makeParent_all _)).weaken
          intro made w₂ quiet
          have silent₂ : w₂.sent = [] := by
            rw [quiet.rest]
            exact silent
          cases made with
          | false => exact stop w₂ silent₂
          | true =>
              have cwd : w₂.fs.cwd = w.fs.cwd := quiet.dirs.1
              apply Program.Sat.bind
              have processed : w₂.processedTasks = done.length := by
                rw [quiet.rest]
                exact at_.processed
              have read : w₂.received = upTo server.abi items done.length ++
                  server.abi.encode server.abi.off_t item.offset := by
                rw [quiet.rest, ← begun]
                rfl
              have files : ∀ q, w₂.fs.contentAt q =
                  done.foldl (Item.put server w₂.fs.cwd) before q := by
                intro q
                rw [quiet.files, World.got_fs, at_.files, cwd]
              apply (receiveItem_sat (w := w₂) reads (by rwa [cwd]) split file silent₂ processed
                read files).weaken
              rintro ok w₃ ⟨silent₃, outcome⟩
              cases ok with
              | false => exact stop w₃ silent₃
              | true =>
                  obtain ⟨found, notDir, enough, stored⟩ := outcome rfl
                  apply Program.Sat.bind
                  apply (quiet_serving_sat reads silent₃ (p := setFileMode _ _)
                    (Program.all_ask.mpr trivial)).weaken
                  intro changed w₄ quiet' w₅ drift
                  obtain rfl := reads.still _ _ drift
                  have dirs := quiet.dirs.trans ((stored.dirsKept notDir).trans quiet'.dirs)
                  have rest_ : w₅ = { w with
                      fs := w₅.fs
                      received := w.received ++ (server.abi.encode server.abi.off_t item.offset ++
                        item.payload.take (item.size - item.offset)) } := by
                    rw [quiet'.rest, stored.rest, quiet.rest]
                    simp [World.got, List.append_assoc]
                  refine ⟨by rw [rest_]; exact at_.silent, fun _ => ⟨dirs.1, ?_, ?_, ?_⟩⟩
                  · rw [rest_]
                    exact at_.processed
                  · rw [whole, declared_segment _ file, rest_, ← at_.received]
                  · apply atTask_next at_ dirs (by rw [whole, declared_segment _ file]) rest_ _
                      (fun _ => ?_) fun _ => enough
                    · intro q
                      rw [quiet'.files, foldl_put_concat, Item.put, if_pos file]
                      by_cases same : q = place w.fs.cwd (item.target server)
                      · have self := stored.contentAt_self
                        rw [cwd] at self
                        rw [same, Function.update_self, self]
                      · have other : q ≠ place w₂.fs.cwd (item.target server) := by rwa [cwd]
                        rw [Function.update_of_ne same, stored.contentAt_ne other, quiet.files,
                          World.got_fs, at_.files]
                    · rw [cwd] at found
                      exact quiet'.dirs.resolve ((stored.dirsKept notDir).resolve found)

/-- The task loop from a task on. -/
theorem handleTasks_sat
    (reads : Reads policy spins (serving server items before) (stream server.abi items))
    (playable : Playable server items w.fs.cwd before) (split : items = done ++ rest)
    (at_ : AtTask server items before done w) {fuel : Nat} :
    Program.Sat (handler policy spins) (serving server items before)
      (server.handleTasks fuel (rest.map Item.serverTask))
      (fun ok w' => w'.sent = [] ∧ (ok = true → AtTask server items before items w')) w := by
  induction rest generalizing done w with
  | nil =>
      rw [List.append_nil] at split
      intro w' drift
      rw [reads.still _ _ drift, split]
      exact ⟨at_.silent, fun _ => split ▸ at_⟩
  | cons item rest ih =>
      rw [List.map_cons]
      simp only [SyncServer.handleTasks]
      apply Program.Sat.bind
      apply (handleTask_sat reads playable split at_).weaken
      rintro ok w₁ ⟨silent, outcome⟩
      cases ok with
      | false =>
          intro w₂ drift
          rw [reads.still _ _ drift]
          exact ⟨silent, by simp⟩
      | true =>
          obtain ⟨cwd, processed, position, next⟩ := outcome rfl
          simp only [↓reduceIte, Program.ask_bind]
          refine Program.sat_op.mpr fun w₂ drift choice _ => ?_
          obtain rfl := reads.still _ _ drift
          refine ⟨⟨.refl _, fun _ => .inl rfl, ?_, fun _ => honest_of_silent silent⟩, ?_⟩
          · rintro ⟨upper, -⟩
            refine ⟨?_, fun _ => ?_⟩
            · apply upper.trans
              exact upTo_prefix (Nat.le_succ _)
            · show upTo server.abi (items.map Item.declared) (w₂.processedTasks + 1) <+: w₂.received
              rw [processed, position]
          · apply ih _ (by simp [split]) next
            show Playable server items w₂.fs.cwd before
            rwa [cwd]

/-- The metadata loop takes over the tasks one by one. -/
theorem receiveTaskMetadata_sat
    (reads : Reads policy spins (serving server items before) (stream server.abi items))
    (playable : Playable server items cwd before) (split : items = done ++ rest)
    (silent : w.sent = []) (processed : w.processedTasks = 0)
    (read : w.received ++ rest.flatMap (Item.header server.abi) = prologue server.abi items)
    (accepted : w.accepted = done.map Item.serverTask) {fuel : Nat} :
    Program.Sat (handler policy spins) (serving server items before)
      (server.receiveTaskMetadata fuel rest.length (done.map Item.serverTask))
      (fun out w' => w'.sent = [] ∧ ∀ tasks, out = some tasks →
        tasks = items.map Item.serverTask ∧ w' = { w with
          received := prologue server.abi items
          accepted := items.map Item.serverTask }) w := by
  induction rest generalizing done w with
  | nil =>
      rw [List.append_nil] at split
      simp only [List.flatMap_nil, List.append_nil] at read
      intro w' drift
      rw [reads.still _ _ drift]
      refine ⟨silent, fun tasks given => ⟨?_, ?_⟩⟩
      · rw [split, ← Option.some.inj given]
      · rw [split, ← accepted, ← split, ← read]
  | cons item rest ih =>
      have member := mem_of_split split
      rw [List.flatMap_cons, ← List.append_assoc] at read
      have next : w.received ++ item.header server.abi <+:
          upTo server.abi items (w.processedTasks + 1) := by
        apply List.IsPrefix.trans _ prologue_prefix
        rw [← read]
        exact List.prefix_append _ _
      rw [List.length_cons]
      simp only [SyncServer.receiveTaskMetadata]
      apply Program.Sat.bind
      apply (receiveTask_next reads (playable.fits item member) (playable.proper item member)
        silent next).weaken
      rintro out w₁ ⟨silent₁, given⟩
      cases out with
      | none =>
          intro w₂ drift
          rw [reads.still _ _ drift]
          exact ⟨silent₁, by simp⟩
      | some task =>
          obtain ⟨rfl, rfl⟩ := given task rfl
          simp only [Program.ask_bind]
          refine Program.sat_op.mpr fun w₂ drift choice _ => ?_
          obtain rfl := reads.still _ _ drift
          refine ⟨⟨.refl _, fun _ => .inl rfl, id, fun _ => honest_of_silent silent₁⟩, ?_⟩
          have joined : done.map Item.serverTask ++ [item.serverTask] =
              (done ++ [item]).map Item.serverTask := by simp
          rw [joined]
          have more : (w.got (item.header server.abi)).accepted ++ [item.serverTask] =
              (done ++ [item]).map Item.serverTask := by
            rw [World.got_accepted, accepted, joined]
          have onward := @ih (done ++ [item]) ((Op.pushTask item.serverTask).run choice
            (w.got (item.header server.abi))).2 (by simp [split]) silent₁ processed read more
          apply onward.weaken
          rintro out w₃ ⟨silent₃, given'⟩
          refine ⟨silent₃, fun tasks same => ?_⟩
          obtain ⟨rfl, rfl⟩ := given' tasks same
          exact ⟨rfl, rfl⟩

/-- From the task count on. -/
theorem serve_sat
    (reads : Reads policy spins (serving server items before) (stream server.abi items))
    (playable : Playable server items w.fs.cwd before) (silent : w.sent = [])
    (processed : w.processedTasks = 0) (read : w.received = [0]) (accepted : w.accepted = [])
    (files : ∀ q, w.fs.contentAt q = before q) {fuel : Nat} :
    Program.Sat (handler policy spins) (serving server items before) (server.serve fuel)
      (fun ok w' => w'.sent = [] ∧ (ok = true → AtTask server items before items w')) w := by
  have next : w.received ++ server.abi.encode server.abi.int items.length <+:
      upTo server.abi items (w.processedTasks + 1) := by
    apply List.IsPrefix.trans _ prologue_prefix
    rw [read, prologue]
    exact List.prefix_append _ _
  apply Program.Sat.bind
  apply (receiveInt_next reads playable.few silent next).weaken
  rintro out w₁ ⟨silent₁, given⟩
  cases out with
  | none =>
      intro w₂ drift
      rw [reads.still _ _ drift]
      exact ⟨silent₁, by simp⟩
  | some taskCount =>
      obtain ⟨rfl, rfl⟩ := given taskCount rfl
      dsimp only
      rw [Int.toNat_natCast]
      have lead : (w.got (server.abi.encode server.abi.int items.length)).received ++
          items.flatMap (Item.header server.abi) = prologue server.abi items := by
        rw [World.got_received, read, prologue]
      apply Program.Sat.bind
      apply (@receiveTaskMetadata_sat server items [] items policy before _ w.fs.cwd spins reads
        playable rfl silent₁ processed lead accepted fuel).weaken
      rintro out w₂ ⟨silent₂, given'⟩
      cases out with
      | none =>
          intro w₃ drift
          rw [reads.still _ _ drift]
          exact ⟨silent₂, by simp⟩
      | some tasks =>
          obtain ⟨rfl, after⟩ := given' tasks rfl
          have at_ : AtTask server items before [] w₂ := {
            received := by
              rw [after, List.length_nil, upTo_zero, prologue_declared]
            processed := by
              rw [after]
              exact processed
            silent := silent₂
            accepted := by rw [after]
            files := by
              rw [after]
              exact files
            resolved := by simp
            enough := by simp }
          have playable₂ : Playable server items w₂.fs.cwd before := by
            rw [after]
            exact playable
          exact handleTasks_sat reads playable₂ (List.nil_append items).symm at_

theorem AtTask.complete (at_ : AtTask server items before items w) :
    Complete server items before w :=
  ⟨at_.accepted, at_.received, at_.files, at_.resolved, at_.enough⟩

/-- The acknowledgement is sent in steps that are honest. -/
theorem sendAck_sat
    (reads : Reads policy spins (serving server items before) (stream server.abi items))
    (silent : w.sent = []) (success : Bool)
    (complete : success = true → Complete server items before w) {fuel : Nat} :
    Program.Sat (handler policy spins) (serving server items before) (sendAck fuel success)
      (fun _ _ => True) w := by
  unfold sendAck
  have start : w = { w with sent := (if success then ack else nak).take 0 } := by
    rw [List.take_zero, ← silent]
  apply (sendLoop_sat reads.spins
    (fun k w' => w' = { w with sent := (if success then ack else nak).take k }) _ _ (Nat.zero_le _)
    start).weaken
  · exact fun _ _ _ => trivial
  · intro k w₁ w₂ drift same
    rw [reads.still _ _ drift, same]
  · rintro k n w₁ within rfl
    have after : World.said { w with sent := (if success then ack else nak).take k }
        (((if success then ack else nak).drop k).take n) =
        { w with sent := (if success then ack else nak).take (k + n) } := by
      simp [World.said, List.take_add]
    refine ⟨⟨.refl _, fun _ => .inl rfl, id, fun _ => ?_⟩, after⟩
    rw [after]
    intro spoken
    cases success with
    | true => exact ⟨(complete rfl).accepted, (complete rfl).received, (complete rfl).files,
        (complete rfl).resolved, (complete rfl).enough⟩
    | false =>
        have first := spoken.trans (List.take_prefix _ _)
        exact absurd first (by decide)

/-- The server's side of a session, whatever part of it arrives. -/
theorem handleClient_sat {fs : FileSystem}
    (reads : Reads policy spins (serving server items fs.contentAt) (stream server.abi items))
    (playable : Playable server items fs.cwd fs.contentAt) {fuel : Nat} :
    Program.Sat (handler policy spins) (serving server items fs.contentAt)
      (server.handleClient fuel) (fun _ _ => True) (World.boot fs) := by
  have close : ∀ (verdict : Bool) (w₁ : World),
      Program.Sat (handler policy spins) (serving server items fs.contentAt)
        (.call .closeSocket fun _ => .done verdict) (fun _ _ => True) w₁ := by
    intro verdict w₁
    refine Program.sat_op.mpr fun w₂ drift choice _ => ⟨?_, fun _ _ => trivial⟩
    refine ⟨.refl _, fun _ => .inl rfl, id, fun honest spoken => ?_⟩
    have complete := honest spoken
    exact ⟨complete.accepted, complete.received, complete.files, complete.resolved, complete.enough⟩
  have next : (World.boot fs).received ++ [0] <+:
      upTo server.abi items ((World.boot fs).processedTasks + 1) := by
    apply List.IsPrefix.trans _ prologue_prefix
    rw [prologue, List.append_assoc]
    exact List.prefix_append _ _
  apply Program.Sat.bind
  apply (receiveBytes_next (w := World.boot fs) reads (rfl : [0].length = 1) rfl next).weaken
  rintro out w₁ ⟨silent, given⟩
  cases out with
  | none => exact close false w₁
  | some mode =>
      obtain ⟨rfl, rfl⟩ := given mode rfl
      show Program.Sat _ _ (if ([0] : Bytes) = [1] then _ else _) _ _
      rw [if_neg (by decide), if_neg (by decide)]
      apply Program.Sat.bind
      apply (serve_sat (w := (World.boot fs).got [0]) reads playable rfl rfl rfl rfl
        fun _ => rfl).weaken
      rintro served w₂ ⟨silent₂, outcome⟩
      apply Program.Sat.bind
      apply (sendAck_sat reads silent₂ served fun success => (outcome success).complete).weaken
      intro sent w₃ _
      exact close served w₃

end

end SyncTool
