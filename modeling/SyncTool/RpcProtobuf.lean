import SyncTool.RpcServer
import SyncTool.SyncServiceCodec

set_option autoImplicit false

namespace SyncTool

/-- What is read back of a message that was written is that message, if it can be read at all. -/
structure Protobuf.Faithful (protobuf : Protobuf) : Prop where
  request : ∀ request bytes request', protobuf.serializeRequest request = some bytes →
    protobuf.parseRequest bytes = some request' → request' = request
  response : ∀ response bytes response', protobuf.serializeResponse response = some bytes →
    protobuf.parseResponse bytes = some response' → response' = response
  request_limit : ∀ request bytes, protobuf.serializeRequest request = some bytes →
    bytes.length < 2 ^ 31
  response_limit : ∀ response bytes, protobuf.serializeResponse response = some bytes →
    bytes.length < 2 ^ 31

/- The format as the generated classes have it. What the handlers fill in has no unknown fields, and
they look at none. -/
namespace SyncService

open WireFormat

/-- A number as a field of a message holds it, if it can. -/
def hold {α β : Type} [DecidableEq α] (put : α → β) (get : β → α) (value : α) : Option β :=
  if get (put value) = value then some (put value) else none

theorem get_of_hold {α β : Type} [DecidableEq α] {put : α → β} {get : β → α} {value : α} {held : β}
    (holds : hold put get value = some held) : get held = value := by
  unfold hold at holds
  split at holds
  · next same =>
    cases holds
    exact same
  · cases holds

def natOfInt32 (value : Int32) : Nat := value.toUInt32.toNat
def natOfInt64 (value : Int64) : Nat := value.toUInt64.toNat

def holdEnum : Nat → Option Int32 := hold (fun n => (UInt32.ofNat n).toInt32) natOfInt32
def holdSize : Nat → Option Int64 := hold (fun n => (UInt64.ofNat n).toInt64) natOfInt64
def holdTime : Int → Option Int64 := hold Int64.ofInt Int64.toInt
def holdCount : Int → Option Int32 := hold Int32.ofInt Int32.toInt

section

variable {wire : WireFormat}

namespace RpcRequest

def unwrap (m : RpcRequest wire) : SyncTool.RpcRequest where
  type := natOfInt32 m.type
  payload :=
    match m.payload with
    | .none => .none
    | .list_files request => .list_files ⟨request.directory, request.recursive⟩
    | .get_file_meta request => .get_file_meta ⟨request.file_path⟩

/-- What a request carries. -/
def wrapPayload : SyncTool.RequestPayload → RequestPayload wire
  | .none => .none
  | .list_files request => .list_files ⟨request.directory, request.recursive, []⟩
  | .get_file_meta request => .get_file_meta ⟨request.file_path, []⟩

def wrap (request : SyncTool.RpcRequest) : Option (RpcRequest wire) :=
  (holdEnum request.type).map fun type => ⟨type, wrapPayload request.payload, []⟩

theorem unwrap_of_wrap {request : SyncTool.RpcRequest} {m : RpcRequest wire}
    (wrapped : wrap request = some m) :
    m.unwrap = request := by
  obtain ⟨type, held, rfl⟩ := Option.map_eq_some_iff.mp wrapped
  have same := get_of_hold held
  obtain ⟨_, payload⟩ := request
  simp only [unwrap, same]
  cases payload <;> rfl

end RpcRequest

namespace FileEntry

def unwrap (m : FileEntry wire) : SyncTool.FileEntry where
  name := m.name
  path := m.path
  is_directory := m.is_directory
  size := natOfInt64 m.size
  mtime := m.mtime.toInt
  mode := m.mode

def wrap (entry : SyncTool.FileEntry) : Option (FileEntry wire) := do
  let size ← holdSize entry.size
  let mtime ← holdTime entry.mtime
  some ⟨entry.name, entry.path, entry.is_directory, size, mtime, entry.mode, []⟩

theorem unwrap_of_wrap {entry : SyncTool.FileEntry} {m : FileEntry wire}
    (wrapped : wrap entry = some m) : m.unwrap = entry := by
  obtain ⟨size, sized, rest⟩ := Option.bind_eq_some_iff.mp wrapped
  obtain ⟨mtime, timed, same⟩ := Option.bind_eq_some_iff.mp rest
  cases same
  simp only [unwrap, get_of_hold sized, get_of_hold timed]

end FileEntry

namespace ListFilesResponse

def unwrap (m : ListFilesResponse wire) : SyncTool.ListFilesResponse where
  files := m.files.map FileEntry.unwrap
  directory := m.directory
  total_count := m.total_count.toInt

def wrap (response : SyncTool.ListFilesResponse) : Option (ListFilesResponse wire) := do
  let files ← response.files.mapM FileEntry.wrap
  let total_count ← holdCount response.total_count
  some ⟨files, response.directory, total_count, []⟩

theorem unwrap_of_wrap {response : SyncTool.ListFilesResponse} {m : ListFilesResponse wire}
    (wrapped : wrap response = some m) : m.unwrap = response := by
  have entries : ∀ (files : List SyncTool.FileEntry) (held : List (FileEntry wire)),
      files.mapM FileEntry.wrap = some held → held.map FileEntry.unwrap = files := by
    intro files
    induction files with
    | nil =>
        intro held same
        cases same
        rfl
    | cons file files ih =>
        intro held same
        rw [List.mapM_cons] at same
        obtain ⟨first, here, same⟩ := Option.bind_eq_some_iff.mp same
        obtain ⟨rest, there, same⟩ := Option.bind_eq_some_iff.mp same
        cases same
        rw [List.map_cons, FileEntry.unwrap_of_wrap here, ih rest there]
  obtain ⟨files, listed, rest⟩ := Option.bind_eq_some_iff.mp wrapped
  obtain ⟨total_count, counted, same⟩ := Option.bind_eq_some_iff.mp rest
  cases same
  simp only [unwrap, get_of_hold counted, entries _ _ listed]

end ListFilesResponse

namespace FileMeta

def unwrap (m : FileMeta wire) : SyncTool.FileMeta where
  name := m.name
  path := m.path
  size := natOfInt64 m.size
  mtime := m.mtime.toInt
  ctime := m.ctime.toInt
  mode := m.mode
  md5 := m.md5
  is_directory := m.is_directory
  exists_ := m.exists_

def wrap (info : SyncTool.FileMeta) : Option (FileMeta wire) := do
  let size ← holdSize info.size
  let mtime ← holdTime info.mtime
  let ctime ← holdTime info.ctime
  some ⟨info.name, info.path, size, mtime, ctime, info.mode, info.md5, info.is_directory,
    info.exists_, []⟩

theorem unwrap_of_wrap {info : SyncTool.FileMeta} {m : FileMeta wire}
    (wrapped : wrap info = some m) : m.unwrap = info := by
  obtain ⟨size, sized, rest⟩ := Option.bind_eq_some_iff.mp wrapped
  obtain ⟨mtime, timed, rest⟩ := Option.bind_eq_some_iff.mp rest
  obtain ⟨ctime, changed, same⟩ := Option.bind_eq_some_iff.mp rest
  cases same
  simp only [unwrap, get_of_hold sized, get_of_hold timed, get_of_hold changed]

end FileMeta

namespace RpcResponse

def unwrap (m : RpcResponse wire) : SyncTool.RpcResponse where
  type := natOfInt32 m.type
  success := m.success
  error := m.error
  payload :=
    match m.payload with
    | .none => .none
    | .list_files response => .list_files response.unwrap
    | .get_file_meta response =>
        .get_file_meta ⟨(response.info.getD ⟨[], [], 0, 0, 0, 0, [], false, false, []⟩).unwrap,
          response.success, response.error⟩

/-- What a response carries. -/
def wrapPayload : SyncTool.ResponsePayload → Option (ResponsePayload wire)
  | .none => some .none
  | .list_files response => (ListFilesResponse.wrap response).map .list_files
  | .get_file_meta response =>
      (FileMeta.wrap response.info).map fun info =>
        .get_file_meta ⟨some info, response.success, response.error, []⟩

def wrap (response : SyncTool.RpcResponse) : Option (RpcResponse wire) := do
  let type ← holdEnum response.type
  let payload ← wrapPayload response.payload
  some ⟨type, response.success, response.error, payload, []⟩

theorem unwrap_of_wrap {response : SyncTool.RpcResponse} {m : RpcResponse wire}
    (wrapped : wrap response = some m) : m.unwrap = response := by
  obtain ⟨type, held, rest⟩ := Option.bind_eq_some_iff.mp wrapped
  obtain ⟨payload, carried, same⟩ := Option.bind_eq_some_iff.mp rest
  cases same
  obtain ⟨_, success, error, payload'⟩ := response
  simp only [unwrap, get_of_hold held]
  cases payload' with
  | none =>
      cases carried
      rfl
  | list_files listing =>
      obtain ⟨inner, here, rfl⟩ := Option.map_eq_some_iff.mp carried
      simp only [ListFilesResponse.unwrap_of_wrap here]
  | get_file_meta info =>
      obtain ⟨inner, here, rfl⟩ := Option.map_eq_some_iff.mp carried
      simp only [Option.getD_some, FileMeta.unwrap_of_wrap here]

end RpcResponse

variable (wire)

/-- The format that both ends use. -/
def protobuf : Protobuf where
  parseRequest bytes := (parseFromString (RpcRequest.message wire) bytes).map RpcRequest.unwrap
  serializeRequest request :=
    (RpcRequest.wrap request).bind (serializeToString (RpcRequest.message wire))
  parseResponse bytes := (parseFromString (RpcResponse.message wire) bytes).map RpcResponse.unwrap
  serializeResponse response :=
    (RpcResponse.wrap response).bind (serializeToString (RpcResponse.message wire))

variable {wire}

/-- What was written has the measured size, and is read as what it was, if it is read. -/
theorem faithful_of_carries {S : Type} {kind : MessageType S} {s : S} {bytes : Bytes}
    (carries : kind.byteSizeLong s ≤ INT_MAX → kind.Carries s)
    (written : serializeToString kind s = some bytes) :
    bytes.length < 2 ^ 31 ∧ ∀ s', parseFromString kind bytes = some s' → s' = s := by
  unfold serializeToString at written
  split at written
  · cases written
  · next small =>
    cases written
    have small' : kind.byteSizeLong s ≤ INT_MAX := Nat.le_of_not_lt small
    have back := round_trip_of_carries (carries small') small'
    constructor
    · rw [back.measured]
      exact Nat.lt_of_le_of_lt small' (by decide)
    · intro s' parsed
      rw [back.read] at parsed
      split at parsed
      · exact (Option.some.inj parsed).symm
      · cases parsed

theorem protobuf_faithful (lawful : wire.Lawful) (wide : INT_MAX ≤ wire.limit) :
    (protobuf wire).Faithful := by
  have requests : ∀ m bytes, serializeToString (RpcRequest.message wire) m = some bytes →
      bytes.length < 2 ^ 31 ∧ ∀ m',
        parseFromString (RpcRequest.message wire) bytes = some m' → m' = m :=
    fun m bytes => faithful_of_carries fun small => RpcRequest.carries lawful (small.trans wide)
  have responses : ∀ m bytes, serializeToString (RpcResponse.message wire) m = some bytes →
      bytes.length < 2 ^ 31 ∧ ∀ m',
        parseFromString (RpcResponse.message wire) bytes = some m' → m' = m :=
    fun m bytes => faithful_of_carries fun small => RpcResponse.carries lawful (small.trans wide)
  constructor
  · intro request bytes request' written read
    obtain ⟨m, wrapped, written⟩ := Option.bind_eq_some_iff.mp written
    obtain ⟨m', parsed, rfl⟩ := Option.map_eq_some_iff.mp read
    rw [(requests m bytes written).2 m' parsed]
    exact RpcRequest.unwrap_of_wrap wrapped
  · intro response bytes response' written read
    obtain ⟨m, wrapped, written⟩ := Option.bind_eq_some_iff.mp written
    obtain ⟨m', parsed, rfl⟩ := Option.map_eq_some_iff.mp read
    rw [(responses m bytes written).2 m' parsed]
    exact RpcResponse.unwrap_of_wrap wrapped
  · intro request bytes written
    obtain ⟨m, -, written⟩ := Option.bind_eq_some_iff.mp written
    exact (requests m bytes written).1
  · intro response bytes written
    obtain ⟨m, -, written⟩ := Option.bind_eq_some_iff.mp written
    exact (responses m bytes written).1

end

end SyncService

end SyncTool
