import SyncTool.FileSyncRemote

set_option autoImplicit false

namespace SyncTool

open SyncTool.Path LinuxFileUtil FileSync

/-- A `SyncServer`, with the handler it leaves the connections of the other mode to. -/
structure SyncServer where
  abi : Abi
  baseDirectory : Bytes
  handleRpcClient : Prog Bool

/-- `read` until `count` bytes are there, the stream ends, or it fails (`none`). -/
def robustRead (count : Nat) : Nat → Bytes → Prog (Option Bytes)
  | 0, _ => .spin
  | fuel + 1, buffer =>
      if buffer.length < count then do
        let n ← Sys.recv (count - buffer.length)
        match n with
        | .eintr => robustRead count fuel buffer
        | .error => pure none
        | .ok bytes =>
            if bytes = [] then pure (some buffer) else robustRead count fuel (buffer ++ bytes)
      else pure (some buffer)

def receiveRest (size reads : Nat) : Nat → Bytes → Prog (Option Bytes)
  | 0, _ => .spin
  | fuel + 1, buffer =>
      if buffer.length < size then do
        let n ← robustRead (size - buffer.length) reads []
        match n with
        | none => pure none
        | some bytes =>
            if bytes = [] then pure none else receiveRest size reads fuel (buffer ++ bytes)
      else pure (some buffer)

def receiveBytes (fuel size : Nat) : Prog (Option Bytes) := receiveRest size fuel fuel []

namespace SyncServer

variable (server : SyncServer) (fuel : Nat)

def sendAck (success : Bool) : Prog Bool := sendLoop (if success then ack else nak) fuel 0

def receiveInt : Prog (Option Int) := do
  let bytes ← receiveBytes fuel server.abi.int
  pure (bytes.map server.abi.decodeInt)

def receiveSizeT : Prog (Option Nat) := do
  let bytes ← receiveBytes fuel server.abi.size_t
  pure (bytes.map server.abi.decode)

def receiveOffT : Prog (Option Int) := do
  let bytes ← receiveBytes fuel server.abi.off_t
  pure (bytes.map server.abi.decodeInt)

def receiveModeT : Prog (Option UInt32) := do
  let bytes ← receiveBytes fuel server.abi.mode_t
  pure (bytes.map fun bytes => UInt32.ofNat (server.abi.decode bytes))

/-- The length of a path, and its bytes. A length that no buffer can have is waited for; what is
thrown for it is modelled apart. -/
def receivePath : Prog (Option Bytes) := do
  let pathLen ← server.receiveSizeT fuel
  match pathLen with
  | none => pure none
  | some pathLen =>
      if 0 < pathLen then do
        let buffer ← receiveBytes fuel pathLen
        pure (buffer.map cString)
      else pure (some [])

/-- One round of `receiveTaskMetadata`. -/
def receiveTask : Prog (Option ServerSyncTask) := do
  let taskType ← server.receiveInt fuel
  match taskType with
  | none => pure none
  | some taskType => do
      let isDirectory := decide (taskType = 1)
      let srcPath ← server.receivePath fuel
      match srcPath with
      | none => pure none
      | some srcPath => do
          let destPath ← server.receivePath fuel
          match destPath with
          | none => pure none
          | some destPath => do
              let mode ← server.receiveModeT fuel
              match mode with
              | none => pure none
              | some mode =>
                  if isDirectory then pure (some ⟨destPath, srcPath, true, mode, 0⟩)
                  else do
                    let fileSize ← server.receiveOffT fuel
                    pure (fileSize.map fun fileSize => ⟨destPath, srcPath, false, mode, fileSize⟩)

def receiveTaskMetadata : Nat → List ServerSyncTask → Prog (Option (List ServerSyncTask))
  | 0, tasks => pure (some tasks)
  | taskCount + 1, tasks => do
      let task ← server.receiveTask fuel
      match task with
      | none => pure none
      | some task => do
          Sys.pushTask task
          receiveTaskMetadata taskCount (tasks ++ [task])

/-- The write loop of `receiveFileData`; `pos` is where the descriptor stood before it. -/
def writeBuffer (path : Bytes) (append : Bool) (pos : Nat) (buffer : Bytes) : Nat → Nat → Prog Bool
  | 0, _ => .spin
  | fuel + 1, totalWritten =>
      if totalWritten < buffer.length then do
        let written ← Sys.write path append (pos + totalWritten) (buffer.drop totalWritten)
        match written with
        | .eintr => writeBuffer path append pos buffer fuel totalWritten
        | .error => pure false
        | .ok written => writeBuffer path append pos buffer fuel (totalWritten + written)
      else pure true

def receiveBlocks (path : Bytes) (append : Bool) (fileSize : Int) (inner : Nat) :
    Nat → Int → Nat → Prog Bool
  | 0, _, _ => .spin
  | fuel + 1, received, pos =>
      if received < fileSize then do
        let n ← robustRead (min (64 * 1024) (fileSize - received).toNat) inner []
        match n with
        | none => pure false
        | some buffer =>
            if buffer = [] then pure false
            else do
              let written ← writeBuffer path append pos buffer inner 0
              if written then
                receiveBlocks path append fileSize inner fuel (received + buffer.length)
                  (pos + buffer.length)
              else pure false
      else pure true

def receiveFileData (fullDestPath : Bytes) (fileSize resumeOffset : Int) : Prog Bool := do
  let destFd ← Sys.openFd fullDestPath (if 0 < resumeOffset then .append else .trunc) true
  if !destFd then pure false
  else if 0 < resumeOffset then do
    let currentSize ← Sys.lseekEnd fullDestPath
    if (currentSize : Int) ≠ resumeOffset then do
      let destFd ← Sys.openFd fullDestPath .trunc true
      if !destFd then pure false
      else receiveBlocks fullDestPath false fileSize fuel fuel 0 0
    else receiveBlocks fullDestPath true fileSize fuel fuel resumeOffset currentSize
  else receiveBlocks fullDestPath false fileSize fuel fuel resumeOffset 0

/-- The directory that a file is put in. -/
def makeParent (fullDestPath : Bytes) : Prog Bool :=
  match parentPath fullDestPath with
  | none => pure true
  | some destDir => createDirectory destDir 0o755

/-- One round of the task loop of `handleClient`. -/
def handleTask (task : ServerSyncTask) : Prog Bool := do
  let fullDestPath := server.baseDirectory ++ task.destPath
  let resumeOffset ← server.receiveOffT fuel
  match resumeOffset with
  | none => pure false
  | some resumeOffset =>
      if task.isDirectory then createDirectory fullDestPath task.mode
      else do
        let made ← makeParent fullDestPath
        if made then do
          let received ← receiveFileData fuel fullDestPath task.fileSize resumeOffset
          if received then do
            let _ ← setFileMode fullDestPath task.mode
            pure true
          else pure false
        else pure false

def handleTasks : List ServerSyncTask → Prog Bool
  | [] => pure true
  | task :: tasks => do
      let handled ← server.handleTask fuel task
      if handled then do
        Sys.countTask
        handleTasks tasks
      else pure false

/-- From the task count on: the metadata, then the tasks. -/
def serve : Prog Bool := do
  let taskCount ← server.receiveInt fuel
  match taskCount with
  | none => pure false
  | some taskCount => do
      let tasks ← server.receiveTaskMetadata fuel taskCount.toNat []
      match tasks with
      | none => pure false
      | some tasks => server.handleTasks fuel tasks

def handleClient : Prog Bool := do
  let mode ← receiveBytes fuel 1
  match mode with
  | none => do
      Sys.closeSocket
      pure false
  | some mode =>
      if mode = [1] then server.handleRpcClient
      else if mode ≠ [0] then do
        Sys.closeSocket
        pure false
      else do
        let served ← server.serve fuel
        let _ ← sendAck fuel served
        Sys.closeSocket
        pure served

end SyncServer

/-- A server of `/r`. -/
def plainServer : SyncServer := ⟨plainAbi, [47, 114], .done false⟩

end SyncTool
