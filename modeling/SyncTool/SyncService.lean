import SyncTool.PosixPath
import SyncTool.WireFields

set_option autoImplicit false

/- The messages of the service as their generated classes hold, read, write,
  measure and merge them. The
parts of the loop that the library does for all of them are those of a `WireFormat`. Each message
  keeps
the fields that its class does not know, and writes them behind the others. -/
namespace SyncTool.SyncService

open WireFormat

def INT_MAX : Nat := 2 ^ 31 - 1

section

variable (wire : WireFormat)

/-- The numbers of the fields of a class, each with the byte of its tag. -/
def ListFilesRequest.tags : List (Nat × UInt8) := [(1, 10), (2, 16)]

structure ListFilesRequest where
  directory : Bytes
  recursive : Bool
  unknown_fields : List (wire.Unknown ListFilesRequest.tags)

def FileEntry.tags : List (Nat × UInt8) := [(1, 10), (2, 18), (3, 24), (4, 32), (5, 40), (6, 48)]

structure FileEntry where
  name : Bytes
  path : Bytes
  is_directory : Bool
  size : Int64
  mtime : Int64
  mode : UInt32
  unknown_fields : List (wire.Unknown FileEntry.tags)

def ListFilesResponse.tags : List (Nat × UInt8) := [(1, 10), (2, 18), (3, 24)]

structure ListFilesResponse where
  files : List (FileEntry wire)
  directory : Bytes
  total_count : Int32
  unknown_fields : List (wire.Unknown ListFilesResponse.tags)

def GetFileMetaRequest.tags : List (Nat × UInt8) := [(1, 10)]

structure GetFileMetaRequest where
  file_path : Bytes
  unknown_fields : List (wire.Unknown GetFileMetaRequest.tags)

def FileMeta.tags : List (Nat × UInt8) :=
  [(1, 10), (2, 18), (3, 24), (4, 32), (5, 40), (6, 48), (7, 58), (8, 64), (9, 72)]

structure FileMeta where
  name : Bytes
  path : Bytes
  size : Int64
  mtime : Int64
  ctime : Int64
  mode : UInt32
  md5 : Bytes
  is_directory : Bool
  exists_ : Bool
  unknown_fields : List (wire.Unknown FileMeta.tags)

def GetFileMetaResponse.tags : List (Nat × UInt8) := [(1, 10), (2, 16), (3, 26)]

structure GetFileMetaResponse where
  info : Option (FileMeta wire)
  success : Bool
  error : Bytes
  unknown_fields : List (wire.Unknown GetFileMetaResponse.tags)

inductive RequestPayload where
  | none
  | list_files (request : ListFilesRequest wire)
  | get_file_meta (request : GetFileMetaRequest wire)

def RpcRequest.tags : List (Nat × UInt8) := [(1, 8), (10, 82), (11, 90)]

structure RpcRequest where
  type : Int32
  payload : RequestPayload wire
  unknown_fields : List (wire.Unknown RpcRequest.tags)

inductive ResponsePayload where
  | none
  | list_files (response : ListFilesResponse wire)
  | get_file_meta (response : GetFileMetaResponse wire)

def RpcResponse.tags : List (Nat × UInt8) := [(1, 8), (2, 16), (3, 26), (10, 82), (11, 90)]

structure RpcResponse where
  type : Int32
  success : Bool
  error : Bytes
  payload : ResponsePayload wire
  unknown_fields : List (wire.Unknown RpcResponse.tags)

namespace ListFilesRequest

def directory_ : FieldOf (ListFilesRequest wire) :=
  .string wire 1 10 directory fun m directory => { m with directory }

def recursive_ : FieldOf (ListFilesRequest wire) :=
  .bool wire 2 16 recursive fun m recursive => { m with recursive }

def layout : Layout wire (ListFilesRequest wire) where
  tags := tags
  fields := [directory_ wire, recursive_ wire]
  known := rfl
  unknown_fields := unknown_fields
  replace := fun m unknown_fields => { m with unknown_fields }
  got := fun _ _ => rfl
  replaced := fun _ _ _ => rfl
  kept := fun _ => rfl

variable {wire} in
def mergeFrom (m source : ListFilesRequest wire) : ListFilesRequest wire where
  directory := if source.directory = [] then m.directory else source.directory
  recursive := if source.recursive = false then m.recursive else source.recursive
  unknown_fields := m.unknown_fields ++ source.unknown_fields

def message : MessageType (ListFilesRequest wire) where
  empty := ⟨[], false, []⟩
  internalParse := wire.parse (layout wire)
  internalSerialize := wire.serialize (layout wire)
  byteSizeLong := fun m => (directory_ wire).size m + (recursive_ wire).size m +
    wire.unknownFieldsSize m.unknown_fields
  mergeFrom := mergeFrom
  readable := fun m => (layout wire).fields.all fun f => f.readable m

end ListFilesRequest

namespace FileEntry

def name_ : FieldOf (FileEntry wire) := .string wire 1 10 name fun m name => { m with name }
def path_ : FieldOf (FileEntry wire) := .string wire 2 18 path fun m path => { m with path }
def is_directory_ : FieldOf (FileEntry wire) :=
  .bool wire 3 24 is_directory fun m is_directory => { m with is_directory }
def size_ : FieldOf (FileEntry wire) := .int64 wire 4 32 size fun m size => { m with size }
def mtime_ : FieldOf (FileEntry wire) := .int64 wire 5 40 mtime fun m mtime => { m with mtime }
def mode_ : FieldOf (FileEntry wire) := .uint32 wire 6 48 mode fun m mode => { m with mode }

def layout : Layout wire (FileEntry wire) where
  tags := tags
  fields := [name_ wire, path_ wire, is_directory_ wire, size_ wire, mtime_ wire, mode_ wire]
  known := rfl
  unknown_fields := unknown_fields
  replace := fun m unknown_fields => { m with unknown_fields }
  got := fun _ _ => rfl
  replaced := fun _ _ _ => rfl
  kept := fun _ => rfl

variable {wire} in
def mergeFrom (m source : FileEntry wire) : FileEntry wire where
  name := if source.name = [] then m.name else source.name
  path := if source.path = [] then m.path else source.path
  size := if source.size = 0 then m.size else source.size
  is_directory := if source.is_directory = false then m.is_directory else source.is_directory
  mode := if source.mode = 0 then m.mode else source.mode
  mtime := if source.mtime = 0 then m.mtime else source.mtime
  unknown_fields := m.unknown_fields ++ source.unknown_fields

def message : MessageType (FileEntry wire) where
  empty := ⟨[], [], false, 0, 0, 0, []⟩
  internalParse := wire.parse (layout wire)
  internalSerialize := wire.serialize (layout wire)
  byteSizeLong := fun m => (name_ wire).size m + (path_ wire).size m + (size_ wire).size m +
    (is_directory_ wire).size m + (mode_ wire).size m + (mtime_ wire).size m +
    wire.unknownFieldsSize m.unknown_fields
  mergeFrom := mergeFrom
  readable := fun m => (layout wire).fields.all fun f => f.readable m

end FileEntry

namespace ListFilesResponse

def files_ : FieldOf (ListFilesResponse wire) :=
  .repeated wire 1 10 (FileEntry.message wire) files fun m files => { m with files }
def directory_ : FieldOf (ListFilesResponse wire) :=
  .string wire 2 18 directory fun m directory => { m with directory }
def total_count_ : FieldOf (ListFilesResponse wire) :=
  .int32 wire 3 24 total_count fun m total_count => { m with total_count }

def layout : Layout wire (ListFilesResponse wire) where
  tags := tags
  fields := [files_ wire, directory_ wire, total_count_ wire]
  known := rfl
  unknown_fields := unknown_fields
  replace := fun m unknown_fields => { m with unknown_fields }
  got := fun _ _ => rfl
  replaced := fun _ _ _ => rfl
  kept := fun _ => rfl

variable {wire} in
def mergeFrom (m source : ListFilesResponse wire) : ListFilesResponse wire where
  files := m.files ++ source.files
  directory := if source.directory = [] then m.directory else source.directory
  total_count := if source.total_count = 0 then m.total_count else source.total_count
  unknown_fields := m.unknown_fields ++ source.unknown_fields

def message : MessageType (ListFilesResponse wire) where
  empty := ⟨[], [], 0, []⟩
  internalParse := wire.parse (layout wire)
  internalSerialize := wire.serialize (layout wire)
  byteSizeLong := fun m =>
    (files_ wire).size m + (directory_ wire).size m + (total_count_ wire).size m +
    wire.unknownFieldsSize m.unknown_fields
  mergeFrom := mergeFrom
  readable := fun m => (layout wire).fields.all fun f => f.readable m

end ListFilesResponse

namespace GetFileMetaRequest

def file_path_ : FieldOf (GetFileMetaRequest wire) :=
  .string wire 1 10 file_path fun m file_path => { m with file_path }

def layout : Layout wire (GetFileMetaRequest wire) where
  tags := tags
  fields := [file_path_ wire]
  known := rfl
  unknown_fields := unknown_fields
  replace := fun m unknown_fields => { m with unknown_fields }
  got := fun _ _ => rfl
  replaced := fun _ _ _ => rfl
  kept := fun _ => rfl

variable {wire} in
def mergeFrom (m source : GetFileMetaRequest wire) : GetFileMetaRequest wire where
  file_path := if source.file_path = [] then m.file_path else source.file_path
  unknown_fields := m.unknown_fields ++ source.unknown_fields

def message : MessageType (GetFileMetaRequest wire) where
  empty := ⟨[], []⟩
  internalParse := wire.parse (layout wire)
  internalSerialize := wire.serialize (layout wire)
  byteSizeLong := fun m => (file_path_ wire).size m +
    wire.unknownFieldsSize m.unknown_fields
  mergeFrom := mergeFrom
  readable := fun m => (layout wire).fields.all fun f => f.readable m

end GetFileMetaRequest

namespace FileMeta

def name_ : FieldOf (FileMeta wire) := .string wire 1 10 name fun m name => { m with name }
def path_ : FieldOf (FileMeta wire) := .string wire 2 18 path fun m path => { m with path }
def size_ : FieldOf (FileMeta wire) := .int64 wire 3 24 size fun m size => { m with size }
def mtime_ : FieldOf (FileMeta wire) := .int64 wire 4 32 mtime fun m mtime => { m with mtime }
def ctime_ : FieldOf (FileMeta wire) := .int64 wire 5 40 ctime fun m ctime => { m with ctime }
def mode_ : FieldOf (FileMeta wire) := .uint32 wire 6 48 mode fun m mode => { m with mode }
def md5_ : FieldOf (FileMeta wire) := .string wire 7 58 md5 fun m md5 => { m with md5 }
def is_directory_ : FieldOf (FileMeta wire) :=
  .bool wire 8 64 is_directory fun m is_directory => { m with is_directory }
def exists_field : FieldOf (FileMeta wire) :=
  .bool wire 9 72 exists_ fun m exists_ => { m with exists_ }

def layout : Layout wire (FileMeta wire) where
  tags := tags
  fields := [name_ wire, path_ wire, size_ wire, mtime_ wire, ctime_ wire, mode_ wire, md5_ wire,
    is_directory_ wire, exists_field wire]
  known := rfl
  unknown_fields := unknown_fields
  replace := fun m unknown_fields => { m with unknown_fields }
  got := fun _ _ => rfl
  replaced := fun _ _ _ => rfl
  kept := fun _ => rfl

variable {wire} in
def mergeFrom (m source : FileMeta wire) : FileMeta wire where
  name := if source.name = [] then m.name else source.name
  path := if source.path = [] then m.path else source.path
  md5 := if source.md5 = [] then m.md5 else source.md5
  size := if source.size = 0 then m.size else source.size
  mtime := if source.mtime = 0 then m.mtime else source.mtime
  ctime := if source.ctime = 0 then m.ctime else source.ctime
  mode := if source.mode = 0 then m.mode else source.mode
  is_directory := if source.is_directory = false then m.is_directory else source.is_directory
  exists_ := if source.exists_ = false then m.exists_ else source.exists_
  unknown_fields := m.unknown_fields ++ source.unknown_fields

def message : MessageType (FileMeta wire) where
  empty := ⟨[], [], 0, 0, 0, 0, [], false, false, []⟩
  internalParse := wire.parse (layout wire)
  internalSerialize := wire.serialize (layout wire)
  byteSizeLong := fun m => (name_ wire).size m + (path_ wire).size m + (md5_ wire).size m +
    (size_ wire).size m + (mtime_ wire).size m + (ctime_ wire).size m + (mode_ wire).size m +
    (is_directory_ wire).size m + (exists_field wire).size m +
    wire.unknownFieldsSize m.unknown_fields
  mergeFrom := mergeFrom
  readable := fun m => (layout wire).fields.all fun f => f.readable m

end FileMeta

namespace GetFileMetaResponse

def info_ : FieldOf (GetFileMetaResponse wire) :=
  .message wire 1 10 (FileMeta.message wire) info fun m info => { m with info := some info }
def success_ : FieldOf (GetFileMetaResponse wire) :=
  .bool wire 2 16 success fun m success => { m with success }
def error_ : FieldOf (GetFileMetaResponse wire) :=
  .string wire 3 26 error fun m error => { m with error }

def layout : Layout wire (GetFileMetaResponse wire) where
  tags := tags
  fields := [info_ wire, success_ wire, error_ wire]
  known := rfl
  unknown_fields := unknown_fields
  replace := fun m unknown_fields => { m with unknown_fields }
  got := fun _ _ => rfl
  replaced := fun _ _ _ => rfl
  kept := fun _ => rfl

variable {wire} in
def mergeFrom (m source : GetFileMetaResponse wire) : GetFileMetaResponse wire where
  error := if source.error = [] then m.error else source.error
  info :=
    match source.info with
    | none => m.info
    | some info =>
        some (FileMeta.mergeFrom (m.info.getD ⟨[], [], 0, 0, 0, 0, [], false, false, []⟩) info)
  success := if source.success = false then m.success else source.success
  unknown_fields := m.unknown_fields ++ source.unknown_fields

def message : MessageType (GetFileMetaResponse wire) where
  empty := ⟨none, false, [], []⟩
  internalParse := wire.parse (layout wire)
  internalSerialize := wire.serialize (layout wire)
  byteSizeLong := fun m => (error_ wire).size m + (info_ wire).size m + (success_ wire).size m +
    wire.unknownFieldsSize m.unknown_fields
  mergeFrom := mergeFrom
  readable := fun m => (layout wire).fields.all fun f => f.readable m

end GetFileMetaResponse

namespace RpcRequest

variable {wire} in
def list_files? (m : RpcRequest wire) : Option (ListFilesRequest wire) :=
  match m.payload with
  | .list_files request => some request
  | _ => none

variable {wire} in
def get_file_meta? (m : RpcRequest wire) : Option (GetFileMetaRequest wire) :=
  match m.payload with
  | .get_file_meta request => some request
  | _ => none

def type_ : FieldOf (RpcRequest wire) := .enum wire 1 8 type fun m type => { m with type }
def list_files_ : FieldOf (RpcRequest wire) :=
  .message wire 10 82 (ListFilesRequest.message wire) list_files?
    fun m request => { m with payload := .list_files request }
def get_file_meta_ : FieldOf (RpcRequest wire) :=
  .message wire 11 90 (GetFileMetaRequest.message wire) get_file_meta?
    fun m request => { m with payload := .get_file_meta request }

def layout : Layout wire (RpcRequest wire) where
  tags := tags
  fields := [type_ wire, list_files_ wire, get_file_meta_ wire]
  known := rfl
  unknown_fields := unknown_fields
  replace := fun m unknown_fields => { m with unknown_fields }
  got := fun _ _ => rfl
  replaced := fun _ _ _ => rfl
  kept := fun _ => rfl

variable {wire} in
/-- A payload is merged into one of its kind, and replaces the others. -/
def mergeFrom (m source : RpcRequest wire) : RpcRequest wire where
  type := if source.type = 0 then m.type else source.type
  payload :=
    match source.payload with
    | .none => m.payload
    | .list_files request =>
        .list_files (ListFilesRequest.mergeFrom (m.list_files?.getD ⟨[], false, []⟩) request)
    | .get_file_meta request =>
        .get_file_meta (GetFileMetaRequest.mergeFrom (m.get_file_meta?.getD ⟨[], []⟩) request)
  unknown_fields := m.unknown_fields ++ source.unknown_fields

def message : MessageType (RpcRequest wire) where
  empty := ⟨0, .none, []⟩
  internalParse := wire.parse (layout wire)
  internalSerialize := wire.serialize (layout wire)
  byteSizeLong := fun m =>
    (type_ wire).size m + ((list_files_ wire).size m + (get_file_meta_ wire).size m) +
    wire.unknownFieldsSize m.unknown_fields
  mergeFrom := mergeFrom
  readable := fun m => (layout wire).fields.all fun f => f.readable m

end RpcRequest

namespace RpcResponse

variable {wire} in
def list_files? (m : RpcResponse wire) : Option (ListFilesResponse wire) :=
  match m.payload with
  | .list_files response => some response
  | _ => none

variable {wire} in
def get_file_meta? (m : RpcResponse wire) : Option (GetFileMetaResponse wire) :=
  match m.payload with
  | .get_file_meta response => some response
  | _ => none

def type_ : FieldOf (RpcResponse wire) := .enum wire 1 8 type fun m type => { m with type }
def success_ : FieldOf (RpcResponse wire) :=
  .bool wire 2 16 success fun m success => { m with success }
def error_ : FieldOf (RpcResponse wire) := .string wire 3 26 error fun m error => { m with error }
def list_files_ : FieldOf (RpcResponse wire) :=
  .message wire 10 82 (ListFilesResponse.message wire) list_files?
    fun m response => { m with payload := .list_files response }
def get_file_meta_ : FieldOf (RpcResponse wire) :=
  .message wire 11 90 (GetFileMetaResponse.message wire) get_file_meta?
    fun m response => { m with payload := .get_file_meta response }

def layout : Layout wire (RpcResponse wire) where
  tags := tags
  fields := [type_ wire, success_ wire, error_ wire, list_files_ wire, get_file_meta_ wire]
  known := rfl
  unknown_fields := unknown_fields
  replace := fun m unknown_fields => { m with unknown_fields }
  got := fun _ _ => rfl
  replaced := fun _ _ _ => rfl
  kept := fun _ => rfl

variable {wire} in
def mergeFrom (m source : RpcResponse wire) : RpcResponse wire where
  error := if source.error = [] then m.error else source.error
  type := if source.type = 0 then m.type else source.type
  success := if source.success = false then m.success else source.success
  payload :=
    match source.payload with
    | .none => m.payload
    | .list_files response =>
        .list_files (ListFilesResponse.mergeFrom (m.list_files?.getD ⟨[], [], 0, []⟩) response)
    | .get_file_meta response =>
        .get_file_meta (GetFileMetaResponse.mergeFrom
          (m.get_file_meta?.getD ⟨none, false, [], []⟩) response)
  unknown_fields := m.unknown_fields ++ source.unknown_fields

def message : MessageType (RpcResponse wire) where
  empty := ⟨0, false, [], .none, []⟩
  internalParse := wire.parse (layout wire)
  internalSerialize := wire.serialize (layout wire)
  byteSizeLong := fun m => (error_ wire).size m + (type_ wire).size m + (success_ wire).size m +
    ((list_files_ wire).size m + (get_file_meta_ wire).size m) +
    wire.unknownFieldsSize m.unknown_fields
  mergeFrom := mergeFrom
  readable := fun m => (layout wire).fields.all fun f => f.readable m

end RpcResponse

/-- The size is looked at first. -/
def serializeToString {S : Type} (kind : MessageType S) (s : S) : Option Bytes :=
  if INT_MAX < kind.byteSizeLong s then none else some (kind.internalSerialize s)

def parseFromString {S : Type} (kind : MessageType S) (bytes : Bytes) : Option S :=
  kind.internalParse kind.empty bytes

end

end SyncTool.SyncService
