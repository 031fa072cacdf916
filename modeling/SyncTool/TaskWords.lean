import Mathlib.Data.List.TakeWhile
import SyncTool.Connection
import SyncTool.ProgramRuns
import SyncTool.SessionStream

set_option autoImplicit false

namespace SyncTool

open SyncServer

/-- The words that come over the connection for one task. -/
structure TaskWords where
  taskType : Bytes
  srcPathLen : Bytes
  srcPath : Bytes
  destPathLen : Bytes
  destPath : Bytes
  mode : Bytes
  fileSize : Bytes

namespace TaskWords

variable (abi : Abi)

def bytes (words : TaskWords) : Bytes :=
  words.taskType ++ (words.srcPathLen ++ (words.srcPath ++ (words.destPathLen ++ (words.destPath ++
    (words.mode ++ words.fileSize)))))

/-- The words are as long as the server reads them. -/
structure Sized (words : TaskWords) : Prop where
  taskType : words.taskType.length = abi.int
  srcPathLen : words.srcPathLen.length = abi.size_t
  srcPath : words.srcPath.length = abi.decode words.srcPathLen
  destPathLen : words.destPathLen.length = abi.size_t
  destPath : words.destPath.length = abi.decode words.destPathLen
  mode : words.mode.length = abi.mode_t
  fileSize : words.fileSize.length = if abi.decodeInt words.taskType = 1 then 0 else abi.off_t

/-- What the server makes of the words. -/
def task (words : TaskWords) : ServerSyncTask where
  destPath := cString words.destPath
  srcPath := cString words.srcPath
  isDirectory := decide (abi.decodeInt words.taskType = 1)
  mode := UInt32.ofNat (abi.decode words.mode)
  fileSize := abi.decodeInt words.fileSize

/-- What the client says of a task. -/
def ofTask (task : ServerSyncTask) : TaskWords where
  taskType := abi.encode abi.int (if task.isDirectory then 1 else 0)
  srcPathLen := abi.encode abi.size_t task.srcPath.length
  srcPath := task.srcPath
  destPathLen := abi.encode abi.size_t task.destPath.length
  destPath := task.destPath
  mode := abi.encode abi.mode_t task.mode.toNat
  fileSize := if task.isDirectory then [] else abi.encode abi.off_t task.fileSize

/-- The words say no more than the server takes from them: the type is 0 or 1, the paths are texts,
the mode fits (as it does if the type has 32 bits), and the size is none below zero. -/
structure Regular (words : TaskWords) : Prop where
  taskType : abi.decodeInt words.taskType = 0 ∨ abi.decodeInt words.taskType = 1
  srcPath : 0 ∉ words.srcPath
  destPath : 0 ∉ words.destPath
  mode : abi.decode words.mode < 2 ^ 32
  fileSize : 0 ≤ abi.decodeInt words.fileSize

variable {abi} {words words' : TaskWords} {rest rest' : Bytes}

/-- The client's encoder writes the metadata of an item in this format. -/
theorem header_eq (abi : Abi) (item : Item) :
    item.header abi = (ofTask abi item.serverTask).bytes := by
  unfold Item.header bytes ofTask Item.serverTask
  cases item.task.isDirectory with
  | true => simp
  | false => simp

theorem bytes_append (words : TaskWords) (rest : Bytes) : words.bytes ++ rest =
    words.taskType ++ (words.srcPathLen ++
      (words.srcPath ++ (words.destPathLen ++ (words.destPath ++
      (words.mode ++ (words.fileSize ++ rest)))))) := by
  simp [bytes]

/-- The bytes of a task can be cut into words in one way. -/
theorem Sized.unique (sized : words.Sized abi) (sized' : words'.Sized abi)
    (same : words.bytes ++ rest = words'.bytes ++ rest') : words = words' ∧ rest = rest' := by
  rw [bytes_append, bytes_append] at same
  obtain ⟨taskType, same⟩ := List.append_inj same (sized.taskType.trans sized'.taskType.symm)
  obtain ⟨srcPathLen, same⟩ := List.append_inj same (sized.srcPathLen.trans sized'.srcPathLen.symm)
  have srcLength : words.srcPath.length = words'.srcPath.length := by
    rw [sized.srcPath, sized'.srcPath, srcPathLen]
  obtain ⟨srcPath, same⟩ := List.append_inj same srcLength
  obtain ⟨destPathLen, same⟩ :=
    List.append_inj same (sized.destPathLen.trans sized'.destPathLen.symm)
  have destLength : words.destPath.length = words'.destPath.length := by
    rw [sized.destPath, sized'.destPath, destPathLen]
  obtain ⟨destPath, same⟩ := List.append_inj same destLength
  obtain ⟨mode, same⟩ := List.append_inj same (sized.mode.trans sized'.mode.symm)
  have sizeLength : words.fileSize.length = words'.fileSize.length := by
    rw [sized.fileSize, sized'.fileSize, taskType]
  obtain ⟨fileSize, behind⟩ := List.append_inj same sizeLength
  cases words
  cases words'
  simp only at taskType srcPathLen srcPath destPathLen destPath mode fileSize
  subst taskType srcPathLen srcPath destPathLen destPath mode fileSize
  exact ⟨rfl, behind⟩

/-- So can those of a number of tasks. -/
theorem unique_list {all all' : List TaskWords} (sized : ∀ words ∈ all, words.Sized abi)
    (sized' : ∀ words ∈ all', words.Sized abi) (length : all.length = all'.length)
    (same : all.flatMap bytes = all'.flatMap bytes) : all = all' := by
  induction all generalizing all' with
  | nil => exact (List.length_eq_zero_iff.mp length.symm).symm
  | cons words all ih =>
      cases all' with
      | nil => cases length
      | cons words' all' =>
          rw [List.flatMap_cons, List.flatMap_cons] at same
          obtain ⟨rfl, behind⟩ := (sized words List.mem_cons_self).unique
            (sized' words' List.mem_cons_self) same
          have others := ih (fun words member => sized words (List.mem_cons_of_mem _ member))
            (fun words member => sized' words (List.mem_cons_of_mem _ member))
              (by simpa using length) behind
          rw [others]

theorem decodeInt_nil : abi.decodeInt [] = 0 := by
  have zero : abi.decode [] = 0 := by
    unfold Abi.decode
    split <;> rfl
  rw [Abi.decodeInt, zero]
  rfl

/-- What is said again is cut at the same places. -/
theorem Sized.again (sized : words.Sized abi) : (ofTask abi (words.task abi)).Sized abi := by
  have srcFits : (cString words.srcPath).length < 256 ^ abi.size_t := by
    have short := length_cString words.srcPath
    have small := abi.decode_lt words.srcPathLen
    rw [sized.srcPathLen, ← sized.srcPath] at small
    omega
  have destFits : (cString words.destPath).length < 256 ^ abi.size_t := by
    have short := length_cString words.destPath
    have small := abi.decode_lt words.destPathLen
    rw [sized.destPathLen, ← sized.destPath] at small
    omega
  have one : abi.decodeInt (abi.encode abi.int 1) = 1 :=
    abi.decodeInt_encode_small abi.int_wide (by decide)
  have zero : abi.decodeInt (abi.encode abi.int 0) = 0 :=
    abi.decodeInt_encode_small abi.int_wide (by decide)
  exact {
    taskType := abi.length_encode _ _
    srcPathLen := abi.length_encode _ _
    srcPath := (abi.decode_encode srcFits).symm
    destPathLen := abi.length_encode _ _
    destPath := (abi.decode_encode destFits).symm
    mode := abi.length_encode _ _
    fileSize := by
      simp only [ofTask, task, decide_eq_true_eq]
      by_cases dir : abi.decodeInt words.taskType = 1
      · simp [dir, one]
      · simp [dir, zero] }

/-- The words are said again as they were, and with no size below zero, just if they are regular. -/
theorem ofTask_task_iff (sized : words.Sized abi) :
    ofTask abi (words.task abi) = words ∧ 0 ≤ (words.task abi).fileSize ↔ words.Regular abi := by
  constructor
  · rintro ⟨same, positive⟩
    have taskType :
        abi.encode abi.int (if decide (abi.decodeInt words.taskType = 1) = true then 1 else 0) =
        words.taskType := congrArg TaskWords.taskType same
    have mode : abi.encode abi.mode_t (UInt32.ofNat (abi.decode words.mode)).toNat = words.mode :=
      congrArg TaskWords.mode same
    refine ⟨?_, ?_, ?_, ?_, positive⟩
    · rw [← taskType]
      split
      · exact .inr (abi.decodeInt_encode_small abi.int_wide (by decide))
      · exact .inl (abi.decodeInt_encode_small abi.int_wide (by decide))
    · exact cString_eq_self.mp (congrArg TaskWords.srcPath same)
    · exact cString_eq_self.mp (congrArg TaskWords.destPath same)
    · have small := (UInt32.ofNat (abi.decode words.mode)).toNat_lt
      have room : 256 ^ 4 ≤ 256 ^ abi.mode_t := Nat.pow_le_pow_right (by decide) abi.mode_t_wide
      rw [← mode, abi.decode_encode (by omega)]
      exact small
  · intro regular
    refine ⟨?_, regular.fileSize⟩
    have srcPath := cString_eq_self.mpr regular.srcPath
    have destPath := cString_eq_self.mpr regular.destPath
    have mode : (UInt32.ofNat (abi.decode words.mode)).toNat = abi.decode words.mode := by
      rw [UInt32.toNat_ofNat', Nat.mod_eq_of_lt regular.mode]
    have taskType :
        abi.encode abi.int (if decide (abi.decodeInt words.taskType = 1) = true then 1 else 0) =
        words.taskType := by
      have whole := abi.encode_decodeInt words.taskType
      rw [sized.taskType] at whole
      rcases regular.taskType with file | dir
      · rw [file] at whole ⊢
        exact whole
      · rw [dir] at whole ⊢
        exact whole
    have fileSize : (if decide (abi.decodeInt words.taskType = 1) = true then []
        else abi.encode abi.off_t (abi.decodeInt words.fileSize)) = words.fileSize := by
      have length := sized.fileSize
      by_cases dir : abi.decodeInt words.taskType = 1
      · rw [if_pos dir] at length
        rw [if_pos (by simpa using dir), List.length_eq_zero_iff.mp length]
      · rw [if_neg dir] at length
        rw [if_neg (by simpa using dir), ← length, abi.encode_decodeInt]
    have srcPathLen := abi.encode_decode words.srcPathLen
    have destPathLen := abi.encode_decode words.destPathLen
    have modeWord := abi.encode_decode words.mode
    rw [sized.srcPathLen, ← sized.srcPath] at srcPathLen
    rw [sized.destPathLen, ← sized.destPath] at destPathLen
    rw [sized.mode] at modeWord
    simp only [ofTask, task, srcPath, destPath, mode, taskType, fileSize, srcPathLen,
      destPathLen, modeWord]

section

variable {server : SyncServer} {stream : Bytes} {w : World} {fuel : Nat}

theorem reads_fed (stream : Bytes) : Reads (Fed stream) True Interference.free stream where
  fed _ _ _ allowed := allowed
  still _ _ same := Eq.symm same
  spins := trivial

/-- What is received of a given size. -/
theorem receiveBytes_got {size : Nat} (inside : w.received <+: stream) :
    Program.Sat (handler (Fed stream) True) .free (receiveBytes fuel size)
      (fun out w' => ∀ bytes, out = some bytes → bytes.length = size ∧
        w'.received <+: stream ∧ w'.received = w.received ++ bytes) w := by
  have start : w.received ++ [] <+: stream := by rwa [List.append_nil]
  have may : MayTake Interference.free stream w size := fun _ _ _ _ => trivial
  have read := @receiveRest_sat _ _ _ _ _ (reads_fed stream) _ fuel fuel _ may (Nat.zero_le _) start
  rw [World.got_nil] at read
  apply read.weaken
  rintro out w' ⟨data, -, more, rfl, same⟩ bytes given
  obtain ⟨rfl, full⟩ := same bytes given
  exact ⟨full, more, rfl⟩

/-- A path is a length word and as many bytes. -/
theorem receivePath_got (inside : w.received <+: stream) :
    Program.Sat (handler (Fed stream) True) .free (server.receivePath fuel)
      (fun out w' => ∀ path, out = some path → ∃ len text, len.length = server.abi.size_t ∧
        text.length = server.abi.decode len ∧ path = cString text ∧
        w'.received <+: stream ∧ w'.received = w.received ++ (len ++ text)) w := by
  simp only [SyncServer.receivePath, SyncServer.receiveSizeT]
  apply Program.Sat.bind
  apply Program.Sat.bind
  apply (receiveBytes_got inside).weaken
  intro out w₁ got w₂ drift
  obtain rfl : w₁ = w₂ := drift
  cases out with
  | none =>
      intro w₂ _ path impossible
      cases impossible
  | some len =>
      obtain ⟨width, inside₁, received₁⟩ := got len rfl
      apply Program.Sat.ite
      · intro _
        apply Program.Sat.bind
        apply (receiveBytes_got inside₁).weaken
        rintro out w₂ got w₃ drift path given
        obtain rfl : w₂ = w₃ := drift
        obtain ⟨text, rfl, rfl⟩ := Option.map_eq_some_iff.mp given
        obtain ⟨length, inside₂, received₂⟩ := got text rfl
        refine ⟨len, text, width, length, rfl, inside₂, ?_⟩
        rw [received₂, received₁, List.append_assoc]
      · intro none_ w₂ drift path given
        obtain rfl : w₁ = w₂ := drift
        obtain rfl := Option.some.inj given
        refine ⟨len, [], width, by simp only [List.length_nil]; omega, rfl, inside₁, ?_⟩
        rw [received₁, List.append_nil]

theorem receiveTask_got (inside : w.received <+: stream) :
    Program.Sat (handler (Fed stream) True) .free (server.receiveTask fuel)
      (fun out w' => ∀ task, out = some task → ∃ words : TaskWords, words.Sized server.abi ∧
        task = words.task server.abi ∧
        w'.received <+: stream ∧ w'.received = w.received ++ words.bytes) w := by
  simp only [SyncServer.receiveTask, SyncServer.receiveInt]
  apply Program.Sat.bind
  apply Program.Sat.bind
  apply (receiveBytes_got inside).weaken
  intro out w₁ got w₂ drift
  obtain rfl : w₁ = w₂ := drift
  cases out with
  | none =>
      intro w₂ _ task impossible
      cases impossible
  | some taskType =>
  obtain ⟨typeLength, inside₁, received₁⟩ := got taskType rfl
  apply Program.Sat.bind
  apply (receivePath_got inside₁).weaken
  intro out w₂ got₂
  cases out with
  | none =>
      intro w₃ _ task impossible
      cases impossible
  | some srcPath =>
  obtain ⟨srcPathLen, srcText, srcWidth, srcLength, rfl, inside₂, received₂⟩ := got₂ srcPath rfl
  apply Program.Sat.bind
  apply (receivePath_got inside₂).weaken
  intro out w₃ got₃
  cases out with
  | none =>
      intro w₄ _ task impossible
      cases impossible
  | some destPath =>
  obtain ⟨destPathLen, destText, destWidth, destLength, rfl, inside₃, received₃⟩ :=
    got₃ destPath rfl
  simp only [SyncServer.receiveModeT]
  apply Program.Sat.bind
  apply Program.Sat.bind
  apply (receiveBytes_got inside₃).weaken
  intro out w₄ got₄ w₅ drift
  obtain rfl : w₄ = w₅ := drift
  cases out with
  | none =>
      intro w₅ _ task impossible
      cases impossible
  | some mode =>
  obtain ⟨modeLength, inside₄, received₄⟩ := got₄ mode rfl
  have sized : ∀ fileSize : Bytes, fileSize.length =
      (if server.abi.decodeInt taskType = 1 then 0 else server.abi.off_t) →
      (⟨taskType, srcPathLen, srcText, destPathLen, destText, mode, fileSize⟩ : TaskWords).Sized
        server.abi := fun fileSize length =>
    ⟨typeLength, srcWidth, srcLength, destWidth, destLength, modeLength, length⟩
  apply Program.Sat.ite
  · intro dir w₅ drift task given
    obtain rfl : w₄ = w₅ := drift
    obtain rfl := Option.some.inj given
    have directory : server.abi.decodeInt taskType = 1 := of_decide_eq_true dir
    refine ⟨_, sized [] (by rw [if_pos directory]; rfl), ?_, inside₄, ?_⟩
    · simp [task, directory, decodeInt_nil]
    · rw [received₄, received₃, received₂, received₁]
      simp [bytes]
  · intro file
    have notDirectory : ¬ server.abi.decodeInt taskType = 1 := by simpa using file
    simp only [SyncServer.receiveOffT]
    apply Program.Sat.bind
    apply Program.Sat.bind
    apply (receiveBytes_got inside₄).weaken
    rintro out w₅ got₅ w₆ drift w₇ drift' task given
    obtain rfl : w₅ = w₆ := drift
    obtain rfl : w₅ = w₇ := drift'
    cases out with
    | none => cases given
    | some fileSize =>
    obtain ⟨sizeLength, inside₅, received₅⟩ := got₅ fileSize rfl
    obtain rfl := Option.some.inj given
    refine ⟨_, sized fileSize (by rw [if_neg notDirectory, sizeLength]), ?_, inside₅, ?_⟩
    · simp [TaskWords.task, notDirectory]
    · rw [received₅, received₄, received₃, received₂, received₁]
      simp [bytes]

theorem receiveTaskMetadata_got {count : Nat} {tasks : List ServerSyncTask}
    (inside : w.received <+: stream) :
    Program.Sat (handler (Fed stream) True) .free (server.receiveTaskMetadata fuel count tasks)
      (fun out w' => ∀ tasks', out = some tasks' → ∃ all : List TaskWords, all.length = count ∧
        (∀ words ∈ all, words.Sized server.abi) ∧ tasks' = tasks ++ all.map (task server.abi) ∧
        w'.received = w.received ++ all.flatMap bytes) w := by
  induction count generalizing tasks w with
  | zero =>
      intro w' drift tasks' given
      obtain rfl : w = w' := drift
      obtain rfl := Option.some.inj given
      exact ⟨[], rfl, by simp, by simp, by simp⟩
  | succ count ih =>
      simp only [SyncServer.receiveTaskMetadata]
      apply Program.Sat.bind
      apply (receiveTask_got inside).weaken
      intro out w₁ got
      cases out with
      | none =>
          intro w₂ _ tasks' impossible
          cases impossible
      | some first =>
          obtain ⟨words, sized, rfl, inside₁, received₁⟩ := got first rfl
          refine Program.sat_op.mpr fun w₂ drift choice _ => ⟨trivial, ?_⟩
          obtain rfl : w₁ = w₂ := drift
          have inside₂ : ((Op.pushTask (words.task server.abi)).run choice w₁).2.received <+:
              stream := inside₁
          apply (ih inside₂).weaken
          rintro out w₂ rest tasks' given
          obtain ⟨all, length, allSized, rfl, received₂⟩ := rest tasks' given
          refine ⟨words :: all, by rw [List.length_cons, length], ?_, by simp, ?_⟩
          · intro other member
            rcases List.mem_cons.mp member with rfl | member
            · exact sized
            · exact allSized other member
          · have same : ((Op.pushTask (words.task server.abi)).run choice w₁).2.received =
                w₁.received := rfl
            rw [received₂, same, received₁, List.flatMap_cons, List.append_assoc]

end

end TaskWords

open TaskWords

/-- The count and the metadata, as `handleClient` takes them. -/
def SyncServer.receiveTasks (server : SyncServer) (fuel : Nat) :
    Prog (Option (List ServerSyncTask)) := do
  let taskCount ← server.receiveInt fuel
  match taskCount with
  | none => pure none
  | some taskCount => server.receiveTaskMetadata fuel taskCount.toNat []

theorem SyncServer.serve_eq (server : SyncServer) (fuel : Nat) : server.serve fuel = (do
    let tasks ← server.receiveTasks fuel
    match tasks with
    | none => pure false
    | some tasks => server.handleTasks fuel tasks) := by
  rw [serve, receiveTasks, Program.bind_assoc]
  congr 1
  funext taskCount
  cases taskCount with
  | none => rfl
  | some taskCount => rfl

/-- The count and the metadata, as the client says them. -/
def encodeTasks (abi : Abi) (tasks : List ServerSyncTask) : Bytes :=
  abi.encode abi.int tasks.length ++ tasks.flatMap fun task => (ofTask abi task).bytes

/-- Bytes that are a count, none below zero, and as many tasks in regular words. -/
def RegularTasks (abi : Abi) (taken : Bytes) : Prop :=
  ∃ (count : Bytes) (all : List TaskWords), taken = count ++ all.flatMap TaskWords.bytes ∧
    count.length = abi.int ∧ abi.decodeInt count = all.length ∧
    ∀ words ∈ all, words.Sized abi ∧ words.Regular abi

section

variable {server : SyncServer} {stream taken : Bytes} {w w' : World} {fuel : Nat}
  {tasks : List ServerSyncTask}

theorem receiveTasks_got (inside : w.received <+: stream) :
    Program.Sat (handler (Fed stream) True) .free (server.receiveTasks fuel)
      (fun out w' => ∀ tasks, out = some tasks → ∃ (count : Bytes) (all : List TaskWords),
        count.length = server.abi.int ∧ all.length = (server.abi.decodeInt count).toNat ∧
        (∀ words ∈ all, words.Sized server.abi) ∧ tasks = all.map (task server.abi) ∧
        w'.received = w.received ++ (count ++ all.flatMap TaskWords.bytes)) w := by
  simp only [SyncServer.receiveTasks, SyncServer.receiveInt]
  apply Program.Sat.bind
  apply Program.Sat.bind
  apply (receiveBytes_got inside).weaken
  intro out w₁ got w₂ drift
  obtain rfl : w₁ = w₂ := drift
  cases out with
  | none =>
      intro w₂ _ tasks impossible
      cases impossible
  | some count =>
      obtain ⟨length, inside₁, received₁⟩ := got count rfl
      apply (receiveTaskMetadata_got inside₁).weaken
      rintro out w₂ got₂ tasks given
      obtain ⟨all, counted, sized, rfl, received₂⟩ := got₂ tasks given
      refine ⟨count, all, length, counted, sized, List.nil_append _, ?_⟩
      rw [received₂, received₁, List.append_assoc]

/-- The metadata that was accepted is what the client would say of it, and no size is below zero,
exactly if it came in regular words. -/
theorem receiveTasks_said_iff (inside : w.received <+: stream)
    (run : Program.Reach (handler (Fed stream) True).exec Eq (server.receiveTasks fuel) w
      (.done (some tasks)) w') (more : w'.received = w.received ++ taken) :
    (encodeTasks server.abi tasks = taken ∧ ∀ task ∈ tasks, 0 ≤ task.fileSize) ↔
      RegularTasks server.abi taken := by
  obtain ⟨count, all, length, counted, sized, rfl, received⟩ :=
    (receiveTasks_got inside).returned run tasks rfl
  obtain rfl := List.append_cancel_left (more.symm.trans received)
  have again : ∀ words ∈ all.map fun words => ofTask server.abi (words.task server.abi),
      words.Sized server.abi := by
    intro words member
    obtain ⟨old, present, rfl⟩ := List.mem_map.mp member
    exact (sized old present).again
  have said : encodeTasks server.abi (all.map (task server.abi)) =
      server.abi.encode server.abi.int all.length ++
        (all.map fun words => ofTask server.abi (words.task server.abi)).flatMap
          TaskWords.bytes := by
    simp [encodeTasks, List.flatMap_map]
  have number := server.abi.encode_decodeInt count
  rw [length] at number
  constructor
  · rintro ⟨same, positive⟩
    rw [said] at same
    obtain ⟨sameCount, sameWords⟩ := List.append_inj same (by rw [Abi.length_encode, length])
    have whole := unique_list again sized (List.length_map _) sameWords
    refine ⟨count, all, rfl, length, ?_, fun words member => ⟨sized words member, ?_⟩⟩
    · by_contra below
      -- a count below zero would be said again as zero
      have zero : all.length = 0 := by omega
      rw [zero] at sameCount
      have read : server.abi.decodeInt count = 0 := by
        rw [← sameCount]
        exact server.abi.decodeInt_encode_small server.abi.int_wide (by decide)
      omega
    · rw [← List.map_id all] at whole
      have kept : ∀ words ∈ all, ofTask server.abi (words.task server.abi) = words :=
        List.map_inj_left.mp (by simpa using whole)
      exact (ofTask_task_iff (sized words member)).mp
        ⟨kept words member, positive _ (List.mem_map_of_mem member)⟩
  · rintro ⟨count', all', same, length', counted', regular⟩
    obtain ⟨rfl, sameWords⟩ := List.append_inj same (length.trans length'.symm)
    have sameLength : all.length = all'.length := by omega
    obtain rfl := unique_list sized
      (fun words member => (regular words member).1) sameLength sameWords
    have each : ∀ words ∈ all, ofTask server.abi (words.task server.abi) = words ∧
        0 ≤ (words.task server.abi).fileSize := fun words member =>
      (ofTask_task_iff (sized words member)).mpr (regular words member).2
    constructor
    · have kept : (all.map fun words => ofTask server.abi (words.task server.abi)) = all.map id :=
        List.map_inj_left.mpr fun words member => (each words member).1
      rw [List.map_id] at kept
      rw [said, ← counted', number, kept]
    · intro task member
      obtain ⟨words, present, rfl⟩ := List.mem_map.mp member
      exact (each words present).2

end

def threeBytes : ServerSyncTask := ⟨[47, 97], [47, 97], false, 0o644, 3⟩

/-- The task comes with a type word of its own. -/
def threeStream (taskType : Bytes) : Bytes :=
  [1, 0, 0, 0] ++ { ofTask plainAbi threeBytes with taskType := taskType }.bytes

theorem receiveTasks_said_three :
    ∃ w', Program.Reach (handler (Fed (threeStream [0, 0, 0, 0])) True).exec
      Eq (plainServer.receiveTasks 12) (World.boot FileSystem.empty)
        (.done (some [threeBytes])) w' ∧
    ((encodeTasks plainServer.abi [threeBytes] = threeStream [0, 0, 0, 0] ∧
        ∀ task ∈ [threeBytes], 0 ≤ task.fileSize) ↔
      RegularTasks plainServer.abi (threeStream [0, 0, 0, 0])) := by
  obtain ⟨w', run, received⟩ := Program.reach_of_play_within Eq
    (fun w => w.received <+: threeStream [0, 0, 0, 0])
    (fun op w inside => feeding_fed (threeStream [0, 0, 0, 0]) op w inside)
    (plainServer.receiveTasks 12) (World.boot FileSystem.empty) List.nil_prefix (some [threeBytes])
    (fun w => w.received) (threeStream [0, 0, 0, 0]) (by decide +kernel)
  exact ⟨w', run, receiveTasks_said_iff List.nil_prefix run received⟩

/-- Type 2 is taken for a file, as 0 is. -/
theorem receiveTasks_unsaid :
    ∃ w', Program.Reach (handler (Fed (threeStream [2, 0, 0, 0])) True).exec
      Eq (plainServer.receiveTasks 12) (World.boot FileSystem.empty)
        (.done (some [threeBytes])) w' ∧
    w'.received = threeStream [2, 0, 0, 0] ∧
    ¬ (encodeTasks plainServer.abi [threeBytes] = threeStream [2, 0, 0, 0] ∧
      ∀ task ∈ [threeBytes], 0 ≤ task.fileSize) := by
  obtain ⟨w', run, received⟩ := Program.reach_of_play_within Eq
    (fun w => w.received <+: threeStream [2, 0, 0, 0])
    (fun op w inside => feeding_fed (threeStream [2, 0, 0, 0]) op w inside)
    (plainServer.receiveTasks 12) (World.boot FileSystem.empty) List.nil_prefix (some [threeBytes])
    (fun w => w.received) (threeStream [2, 0, 0, 0]) (by decide +kernel)
  refine ⟨w', run, received, ?_⟩
  rintro ⟨same, -⟩
  exact absurd same (by decide)

end SyncTool
