import SyncTool.SyncServer

set_option autoImplicit false

namespace SyncTool

open SyncTool.Path LinuxFileUtil FileSync

/-- A text of the source. -/
def ascii (text : String) : Bytes := text.toList.map fun c => UInt8.ofNat c.toNat

structure ListFilesRequest where
  directory : Bytes
  recursive : Bool
deriving DecidableEq

structure GetFileMetaRequest where
  file_path : Bytes
deriving DecidableEq

/-- What a request carries besides its type. -/
inductive RequestPayload where
  | none
  | list_files (request : ListFilesRequest)
  | get_file_meta (request : GetFileMetaRequest)
deriving DecidableEq

structure RpcRequest where
  type : Nat
  payload : RequestPayload
deriving DecidableEq

namespace RpcRequest

/-- The request to list files, or the default one. -/
def list_files (request : RpcRequest) : ListFilesRequest :=
  match request.payload with
  | .list_files listing => listing
  | _ => ⟨[], false⟩

def get_file_meta (request : RpcRequest) : GetFileMetaRequest :=
  match request.payload with
  | .get_file_meta asking => asking
  | _ => ⟨[]⟩

end RpcRequest

structure FileEntry where
  name : Bytes
  path : Bytes
  is_directory : Bool
  size : Nat
  mtime : Int
  mode : UInt32
deriving DecidableEq

structure ListFilesResponse where
  files : List FileEntry
  directory : Bytes
  total_count : Int
deriving DecidableEq

structure FileMeta where
  name : Bytes
  path : Bytes
  size : Nat
  mtime : Int
  ctime : Int
  mode : UInt32
  md5 : Bytes
  is_directory : Bool
  exists_ : Bool
deriving DecidableEq

structure GetFileMetaResponse where
  info : FileMeta
  success : Bool
  error : Bytes
deriving DecidableEq

inductive ResponsePayload where
  | none
  | list_files (response : ListFilesResponse)
  | get_file_meta (response : GetFileMetaResponse)
deriving DecidableEq

structure RpcResponse where
  type : Nat
  success : Bool
  error : Bytes
  payload : ResponsePayload
deriving DecidableEq

def RPC_LIST_FILES : Nat := 1
def RPC_GET_FILE_META : Nat := 2

/-- The message format, as the generated code reads and writes it. -/
structure Protobuf where
  parseRequest : Bytes → Option RpcRequest
  serializeRequest : RpcRequest → Option Bytes
  parseResponse : Bytes → Option RpcResponse
  serializeResponse : RpcResponse → Option Bytes

/-- An `RpcServer`, with the library code it rests on. -/
structure RpcServer where
  abi : Abi
  md5 : Md5
  protobuf : Protobuf
  baseDirectory : Bytes

namespace RpcServer

variable (server : RpcServer) (fuel : Nat)

/-- Receive until `size` bytes are there. -/
def recvAll (size : Nat) : Nat → Bytes → Prog (Option Bytes)
  | 0, _ => .spin
  | fuel + 1, received =>
      if received.length < size then do
        let n ← Sys.recv (size - received.length)
        match n with
        | .eintr => recvAll size fuel received
        | .error => pure none
        | .ok bytes => if bytes = [] then pure none else recvAll size fuel (received ++ bytes)
      else pure (some received)

def sendAll (data : Bytes) : Nat → Nat → Prog Bool
  | 0, _ => .spin
  | fuel + 1, sent =>
      if sent < data.length then do
        let n ← Sys.send (data.drop sent)
        match n with
        | .eintr => sendAll data fuel sent
        | .error => pure false
        | .ok n => if n = 0 then pure false else sendAll data fuel (sent + n)
      else pure true

/-- A `uint32_t` from the connection. -/
def recvUint32 : Prog (Option Nat) := do
  let bytes ← recvAll 4 fuel []
  pure (bytes.map server.abi.decode)

def sendUint32 (value : Nat) : Prog Bool := sendAll (server.abi.encode 4 value) fuel 0

/-- The response once it is serialized. -/
def sendFrame (type : Nat) (serialized : Bytes) : Prog Bool := do
  let typed ← server.sendUint32 fuel type
  if typed then do
    let measured ← server.sendUint32 fuel serialized.length
    -- the length that was sent is the length that follows
    if measured then sendAll (serialized.take (serialized.length % 256 ^ 4)) fuel 0 else pure false
  else pure false

def calculateFileMD5 (filePath : Bytes) : Prog Bytes := do
  let file ← Sys.openIn (cString filePath)
  if file then do
    let ctx ← updateBlocks server.md5 (cString filePath) fuel 0 server.md5.MD5_Init
    pure (hex (server.md5.MD5_Final ctx))
  else pure []

/-- A relative directory with a slash at its end, unless it is empty. -/
def withSlash (relDir : Bytes) : Bytes :=
  if relDir ≠ [] ∧ relDir.getLast? ≠ some slash then relDir ++ [slash] else relDir

/-- The loop of `listDirectory` over the names of one directory; `recurse` lists a
subdirectory. -/
def listEach (recurse : Bytes → ListFilesResponse → Prog ListFilesResponse) (recursive : Bool)
    (fullRel : Bytes) : List Name → ListFilesResponse → Prog ListFilesResponse
  | [], response => pure response
  | name :: names, response => do
      let entryRel := fullRel ++ name
      let st ← Sys.stat (cString (server.baseDirectory ++ entryRel))
      match st with
      | none => listEach recurse recursive fullRel names response
      | some st => do
          let isDirectory := S_ISDIR st.st_mode
          let fileEntry : FileEntry :=
            ⟨name, entryRel, isDirectory, st.st_size, st.st_mtime, st.st_mode⟩
          let response : ListFilesResponse :=
            { response with
              files := response.files ++ [fileEntry]
              total_count := toInt32 (response.total_count + 1) }
          if recursive && isDirectory then do
            let response ← recurse entryRel response
            listEach recurse recursive fullRel names response
          else listEach recurse recursive fullRel names response

/-- `depth` bounds the nesting of directories. What a call is given ends before the first zero
byte; the paths of the entries do not. -/
def listDirectory (recursive : Bool) : Nat → Bytes → ListFilesResponse → Prog ListFilesResponse
  | 0, _, _ => .spin
  | depth + 1, relDir, response => do
      let fullRel := withSlash relDir
      let names ← Sys.readdir (cString (server.baseDirectory ++ fullRel))
      server.listEach (listDirectory recursive depth) recursive fullRel names response

def handleListFiles (request : ListFilesRequest) : Prog (Option ListFilesResponse) := do
  let st ← Sys.stat (cString (server.baseDirectory ++ request.directory))
  match st with
  | none => pure none
  | some st =>
      if S_ISDIR st.st_mode then do
        let response ← server.listDirectory request.recursive fuel request.directory
          ⟨[], request.directory, 0⟩
        pure (some response)
      else pure none

/-- What follows the last slash of a path. -/
def baseName (path : Bytes) : Bytes := (path.reverse.takeWhile (· ≠ slash)).reverse

def handleGetFileMeta (request : GetFileMetaRequest) : Prog (Option GetFileMetaResponse) := do
  let fullPath := server.baseDirectory ++ request.file_path
  let st ← Sys.stat (cString fullPath)
  match st with
  | none => pure (some ⟨⟨[], [], 0, 0, 0, 0, [], false, false⟩, true, []⟩)
  | some st => do
      let st_ctime ← Sys.ctime (cString fullPath)
      let isDirectory := S_ISDIR st.st_mode
      let md5 ← if isDirectory then pure [] else server.calculateFileMD5 fuel fullPath
      pure (some ⟨⟨baseName request.file_path, request.file_path, st.st_size, st.st_mtime, st_ctime,
        st.st_mode, md5, isDirectory, true⟩, true, []⟩)

/-- The `switch` of `handleRpcClient`, and the verdict that goes into the response. -/
def respond (request : RpcRequest) : Prog RpcResponse :=
  if request.type = RPC_LIST_FILES then do
    let resp ← server.handleListFiles fuel request.list_files
    pure (match resp with
      | some resp => ⟨request.type, true, [], .list_files resp⟩
      | none => ⟨request.type, false, ascii "processing failed", .none⟩)
  else if request.type = RPC_GET_FILE_META then do
    let resp ← server.handleGetFileMeta fuel request.get_file_meta
    pure (match resp with
      | some resp => ⟨request.type, true, [], .get_file_meta resp⟩
      | none => ⟨request.type, false, ascii "processing failed", .none⟩)
  else pure ⟨request.type, false, ascii "unknown RPC type", .none⟩

end RpcServer

end SyncTool
