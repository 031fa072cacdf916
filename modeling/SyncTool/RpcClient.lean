import SyncTool.ServerExceptions

set_option autoImplicit false

namespace SyncTool

/-- What a client runs. -/
abbrev ClientProg (α : Type) := Throwing Op Res Bool α

/-- An `RpcClient`, with the library code it rests on. -/
structure RpcClient where
  abi : Abi
  protobuf : Protobuf

/-- A call of the interface. -/
inductive RpcCall where
  | listFiles (directory : Bytes) (recursive : Bool)
  | getFileMeta (filePath : Bytes)
deriving DecidableEq

/-- The message that a call makes. -/
def RpcCall.request : RpcCall → RpcRequest
  | .listFiles directory recursive => ⟨RPC_LIST_FILES, .list_files ⟨directory, recursive⟩⟩
  | .getFileMeta filePath => ⟨RPC_GET_FILE_META, .get_file_meta ⟨filePath⟩⟩

namespace RpcClient

open Throwing

variable (client : RpcClient) (fuel : Nat)

/-- What interrupts a call on the connection is a failure here. -/
def sendAll (data : Bytes) : Nat → Nat → Prog Bool
  | 0, _ => .spin
  | fuel + 1, sent =>
      if sent < data.length then do
        let n ← Sys.send (data.drop sent)
        match n with
        | .eintr => pure false
        | .error => pure false
        | .ok n => if n = 0 then pure false else sendAll data fuel (sent + n)
      else pure true

/-- Receive until `size` bytes are there, or a call fails. -/
def recvAll (size : Nat) : Nat → Bytes → Prog (Option Bytes)
  | 0, _ => .spin
  | fuel + 1, received =>
      if received.length < size then do
        let n ← Sys.recv (size - received.length)
        match n with
        | .eintr => pure none
        | .error => pure none
        | .ok bytes => if bytes = [] then pure none else recvAll size fuel (received ++ bytes)
      else pure (some received)

/-- The socket is made, connected, and told the mode. -/
def connect : Prog Bool := do
  let connected ← Sys.connect
  if connected then do
    let told ← sendAll [1] fuel 0
    if told then pure true
    else do
      Sys.closeSocket
      pure false
  else pure false

/-- The request once it is serialized: its type, its length, and itself. -/
def sendFrame (rpcType : Nat) (request : Bytes) : Prog Bool := do
  let typed ← sendAll (client.abi.encode 4 rpcType) fuel 0
  if typed then do
    let measured ← sendAll (client.abi.encode 4 request.length) fuel 0
    -- as much of the request as the length that was sent
    if measured then sendAll (request.take (request.length % 256 ^ 4)) fuel 0 else pure false
  else pure false

/-- The second half of `sendRequest`. The type of a response is read, and not looked at. -/
def receiveResponse : ClientProg (Option RpcResponse) := do
  let respType ← system (recvAll 4 fuel [])
  match respType with
  | none => pure none
  | some _ => do
      let respLen ← system (recvAll 4 fuel [])
      match respLen with
      | none => pure none
      | some bytes =>
          if client.abi.decode bytes = 0 then pure none
          else do
            allocate client.abi.max_size (client.abi.decode bytes)
            let respData ← system (recvAll (client.abi.decode bytes) fuel [])
            pure (respData.bind client.protobuf.parseResponse)

def sendRequest (connected : Bool) (request : Bytes) (rpcType : Nat) :
    ClientProg (Option RpcResponse) :=
  if connected then do
    let sent ← system (client.sendFrame fuel rpcType request)
    if sent then client.receiveResponse fuel else pure none
  else pure none

/-- What the calls of the interface have in common: the response that comes to a request. -/
def ask (connected : Bool) (call : RpcCall) : ClientProg (Option RpcResponse) :=
  match client.protobuf.serializeRequest call.request with
  | none => pure none
  | some serialized => client.sendRequest fuel connected serialized call.request.type

/-- The listing that a response carries, if it is one of success. -/
def accept_list_files (response : RpcResponse) : Option ListFilesResponse :=
  match response.success, response.payload with
  | true, .list_files listing => some listing
  | _, _ => none

def accept_get_file_meta (response : RpcResponse) : Option GetFileMetaResponse :=
  match response.success, response.payload with
  | true, .get_file_meta info => some info
  | _, _ => none

def listFiles (connected : Bool) (directory : Bytes) (recursive : Bool) :
    ClientProg (Option ListFilesResponse) := do
  let response ← client.ask fuel connected (.listFiles directory recursive)
  pure (response.bind accept_list_files)

def getFileMeta (connected : Bool) (filePath : Bytes) : ClientProg (Option GetFileMetaResponse) :=
  do
  let response ← client.ask fuel connected (.getFileMeta filePath)
  pure (response.bind accept_get_file_meta)

/-- Calls that have been made, each with the response that came. -/
abbrev Log := List (RpcCall × Option RpcResponse)

/-- One call after another, each chosen in view of what came of those before it. -/
def calls (next : Log → Option RpcCall) : Nat → Log → ClientProg Log
  | 0, log => pure log
  | rounds + 1, log =>
      match next log with
      | none => pure log
      | some call => do
          let response ← client.ask fuel true call
          calls next rounds (log ++ [(call, response)])

/-- A client that connects, makes its calls, and disconnects. -/
def session (next : Log → Option RpcCall) (rounds : Nat) : ClientProg Log := do
  let connected ← system (connect fuel)
  if connected then do
    let log ← client.calls fuel next rounds []
    system Sys.closeSocket
    pure log
  else pure []

end RpcClient

end SyncTool
