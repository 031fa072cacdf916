import SyncTool.Connection
import SyncTool.ProgramThrow
import SyncTool.RpcServer

set_option autoImplicit false

namespace SyncTool

open LinuxFileUtil SyncServer

/-- The largest size of a buffer. -/
def Abi.max_size (abi : Abi) : Nat := 256 ^ abi.size_t / 2 - 1

/-- What a session runs. Its notes are the answers it sets out to send. -/
abbrev ServerProg (α : Type) : Type 1 := Throwing Op Res Bool α

namespace ServerProg

open Throwing

variable (server : SyncServer) (rpc : RpcServer) (fuel : Nat)

/-- `receiveBytes` where the client has chosen the size: `robustRead` reads nothing at all when the
size is negative as a `ssize_t`. -/
def receiveSized (size : Nat) : Prog (Option Bytes) :=
  if size < 256 ^ server.abi.size_t / 2 then receiveBytes fuel size else pure none

/-- A path of `receiveTaskMetadata`: its length, a buffer with room for a zero at the end, and its
bytes. -/
def receivePath : ServerProg (Option Bytes) := do
  let pathLen ← system (server.receiveSizeT fuel)
  match pathLen with
  | none => pure none
  | some pathLen =>
      if 0 < pathLen then do
        allocate server.abi.max_size ((pathLen + 1) % 256 ^ server.abi.size_t)
        let buffer ← system (receiveSized server fuel pathLen)
        pure (buffer.map cString)
      else pure (some [])

def receiveTask : ServerProg (Option ServerSyncTask) := do
  let taskType ← system (server.receiveInt fuel)
  match taskType with
  | none => pure none
  | some taskType => do
      let isDirectory := decide (taskType = 1)
      let srcPath ← receivePath server fuel
      match srcPath with
      | none => pure none
      | some srcPath => do
          let destPath ← receivePath server fuel
          match destPath with
          | none => pure none
          | some destPath => do
              let mode ← system (server.receiveModeT fuel)
              match mode with
              | none => pure none
              | some mode =>
                  if isDirectory then pure (some ⟨destPath, srcPath, true, mode, 0⟩)
                  else do
                    let fileSize ← system (server.receiveOffT fuel)
                    pure (fileSize.map fun fileSize => ⟨destPath, srcPath, false, mode, fileSize⟩)

def receiveTaskMetadata : Nat → List ServerSyncTask → ServerProg (Option (List ServerSyncTask))
  | 0, tasks => pure (some tasks)
  | taskCount + 1, tasks => do
      let task ← receiveTask server fuel
      match task with
      | none => pure none
      | some task => do
          system (Sys.pushTask task)
          receiveTaskMetadata taskCount (tasks ++ [task])

/-- From the task count on: the metadata, then the tasks. -/
def serve : ServerProg Bool := do
  let taskCount ← system (server.receiveInt fuel)
  match taskCount with
  | none => pure false
  | some taskCount => do
      let tasks ← receiveTaskMetadata server fuel taskCount.toNat []
      match tasks with
      | none => pure false
      | some tasks => system (server.handleTasks fuel tasks)

def sendAck (success : Bool) : ServerProg Bool := do
  note success
  system (SyncServer.sendAck fuel success)

def receiveRequest : ServerProg (Option RpcRequest) := do
  let type ← system (rpc.recvUint32 fuel)
  match type with
  | none => pure none
  | some _ => do
      let payloadLen ← system (rpc.recvUint32 fuel)
      match payloadLen with
      | none => pure none
      | some payloadLen =>
          if payloadLen = 0 then pure none
          else do
            allocate rpc.abi.max_size payloadLen
            let payload ← system (RpcServer.recvAll payloadLen fuel [])
            pure (payload.bind rpc.protobuf.parseRequest)

def sendResponse (response : RpcResponse) : ServerProg Bool :=
  match rpc.protobuf.serializeResponse response with
  | none => pure false
  | some serialized => system (rpc.sendFrame fuel response.type serialized)

/-- The loop of `handleRpcClient`. -/
def answerRequests : Nat → Bool → ServerProg Bool
  | 0, _ => system .spin
  | rounds + 1, firstRequest => do
      let request ← receiveRequest rpc fuel
      match request with
      | none => do
          system Sys.closeSocket
          pure firstRequest
      | some request => do
          let response ← system (rpc.respond fuel request)
          let sent ← sendResponse rpc fuel response
          if sent then answerRequests rounds false
          else do
            system Sys.closeSocket
            pure false

def handleRpcClient : ServerProg Bool := answerRequests rpc fuel fuel true

def handleClient : ServerProg Bool := do
  let mode ← system (receiveBytes fuel 1)
  match mode with
  | none => do
      system Sys.closeSocket
      pure false
  | some mode =>
      if mode = [1] then handleRpcClient rpc fuel
      else if mode ≠ [0] then do
        system Sys.closeSocket
        pure false
      else do
        let served ← serve server fuel
        let _ ← sendAck fuel served
        system Sys.closeSocket
        pure served

/-- What a worker thread makes of a task: what it throws is caught, and nothing else is done. -/
def workerThread (task : ServerProg Bool) : Program (Guarded Op Bool) (GuardedRes Res) Unit :=
  task.run >>= fun _ => .done ()

/-- The RPC server that `start` makes. -/
def rpcServer (md5 : Md5) (protobuf : Protobuf) : RpcServer :=
  ⟨server.abi, md5, protobuf, server.baseDirectory⟩

end ServerProg

end SyncTool
