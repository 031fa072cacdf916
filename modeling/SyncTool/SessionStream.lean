import SyncTool.SyncServer

set_option autoImplicit false

namespace SyncTool

open SyncTool.Path

/-- What a session says of one task: the size declared for a file, where the sending starts, and
the file that is sent. -/
structure Item where
  task : SyncTask
  size : Nat
  offset : Nat
  content : Bytes

namespace Item

variable (abi : Abi) (item : Item)

def isFile : Prop := item.task.isDirectory = false

instance : Decidable item.isFile := inferInstanceAs (Decidable (_ = _))

/-- The metadata of a task. -/
def header : Bytes :=
  abi.encode abi.int (if item.task.isDirectory then 1 else 0) ++
  abi.encode abi.size_t item.task.srcPath.length ++ item.task.srcPath ++
  abi.encode abi.size_t item.task.destPath.length ++ item.task.destPath ++
  abi.encode abi.mode_t item.task.mode.toNat ++
  if item.task.isDirectory then [] else abi.encode abi.off_t item.size

/-- What is sent of a file. -/
def payload : Bytes := if item.task.isDirectory then [] else item.content.drop item.offset

/-- The resume header of a task, and its file. -/
def segment : Bytes := abi.encode abi.off_t item.offset ++ item.payload

/-- The item as the server takes it: it reads no more of a file than was declared. -/
def declared : Item := { item with content := item.content.take item.size }

/-- What was declared is what is sent. -/
def Aligned : Prop := item.isFile → item.content.length = item.size

/-- A directory comes with no file, and its resume header is zero. -/
def Proper : Prop :=
  if item.task.isDirectory then item.offset = 0 ∧ item.size = 0 else item.offset ≤ item.size

/-- The numbers and the texts of an item survive the wire. -/
structure Fits : Prop where
  size : 2 * item.size < 256 ^ abi.off_t
  srcPath : item.task.srcPath.length < 256 ^ abi.size_t ∧ 0 ∉ item.task.srcPath
  destPath : item.task.destPath.length < 256 ^ abi.size_t ∧ 0 ∉ item.task.destPath

/-- The task as the server keeps it. -/
def serverTask : ServerSyncTask :=
  ⟨item.task.destPath, item.task.srcPath, item.task.isDirectory, item.task.mode, item.size⟩

@[simp] theorem header_declared : item.declared.header abi = item.header abi := rfl

theorem declared_of_aligned {item : Item} (aligned : item.Aligned) :
    item.declared.segment abi = item.segment abi := by
  unfold segment payload
  cases kind : item.task.isDirectory with
  | true => simp [declared, kind]
  | false =>
      have whole := aligned kind
      simp [declared, kind, List.take_of_length_le (Nat.le_of_eq whole)]

end Item

section

variable (abi : Abi)

/-- What a client says before the data: the mode, the count, the metadata. -/
def prologue (items : List Item) : Bytes :=
  [0] ++ abi.encode abi.int items.length ++ items.flatMap (Item.header abi)

/-- What a client has said when it is done with the first `count` tasks. -/
def upTo (items : List Item) (count : Nat) : Bytes :=
  prologue abi items ++ (items.take count).flatMap (Item.segment abi)

/-- The whole session, as the client says it. -/
def stream (items : List Item) : Bytes :=
  prologue abi items ++ items.flatMap (Item.segment abi)

variable {abi} {items done rest : List Item} {item : Item} {count more : Nat}

theorem upTo_zero : upTo abi items 0 = prologue abi items := by simp [upTo]

theorem upTo_length : upTo abi items items.length = stream abi items := by
  rw [upTo, List.take_length, stream]

theorem upTo_succ : upTo abi (done ++ item :: rest) (done.length + 1) =
    upTo abi (done ++ item :: rest) done.length ++ item.segment abi := by
  rw [upTo, upTo, List.take_left, List.take_append, List.take_of_length_le (Nat.le_succ _)]
  simp

theorem upTo_prefix (le : count ≤ more) : upTo abi items count <+: upTo abi items more := by
  apply (List.prefix_append_right_inj _).mpr
  obtain ⟨extra, rfl⟩ := Nat.exists_eq_add_of_le le
  rw [List.take_add, List.flatMap_append]
  exact List.prefix_append _ _

theorem upTo_prefix_stream : upTo abi items count <+: stream abi items := by
  rcases Nat.le_total count items.length with le | le
  · rw [← upTo_length]
    exact upTo_prefix le
  · rw [upTo, List.take_of_length_le le, stream]

theorem prologue_prefix : prologue abi items <+: upTo abi items count := List.prefix_append _ _

/-- The prologue depends on the tasks and the declared sizes only. -/
theorem prologue_declared : prologue abi (items.map Item.declared) = prologue abi items := by
  simp [prologue, List.flatMap_map]

theorem upTo_declared (aligned : ∀ item ∈ items.take count, item.Aligned) :
    upTo abi (items.map Item.declared) count = upTo abi items count := by
  rw [upTo, upTo, prologue_declared, ← List.map_take, List.flatMap_map]
  congr 1
  apply List.flatMap_congr
  intro item member
  exact Item.declared_of_aligned abi (aligned item member)

/-- The metadata of the first tasks is said before the rest. -/
theorem headers_upTo (extra : Bytes) (inside : extra <+: rest.flatMap (Item.header abi)) :
    [0] ++ abi.encode abi.int (done ++ rest).length ++ done.flatMap (Item.header abi) ++ extra <+:
      stream abi (done ++ rest) := by
  refine List.IsPrefix.trans ?_ (List.prefix_append _ _)
  rw [prologue, List.flatMap_append, List.append_assoc _ _ extra]
  apply (List.prefix_append_right_inj _).mpr
  exact (List.prefix_append_right_inj _).mpr inside

end

end SyncTool
