import SyncTool.FileSyncTransfer
import SyncTool.Wire

set_option autoImplicit false

namespace SyncTool

open SyncTool.Path LinuxFileUtil

/-- The loop that `TcpClient::send` and `TcpServer::send` share. -/
def sendLoop (data : Bytes) : Nat → Nat → Prog Bool
  | 0, _ => .spin
  | fuel + 1, totalSent =>
      if totalSent < data.length then do
        let sent ← Sys.send (data.drop totalSent)
        match sent with
        | .ok sent => sendLoop data fuel (totalSent + sent)
        -- a signal counts as a failure here
        | .eintr | .error => pure false
      else pure true

/-- A `TcpClient` after `connect`: whether it still takes itself to be connected. -/
structure TcpClient where
  connected : Bool
deriving DecidableEq

namespace TcpClient

def send (client : TcpClient) (fuel : Nat) (data : Bytes) : Prog (Bool × TcpClient) :=
  if client.connected then do
    let ok ← sendLoop data fuel 0
    pure (ok, ⟨ok⟩)
  else pure (false, client)

/-- One `recv`, however little it brings. -/
def receive (client : TcpClient) (size : Nat) : Prog (Bytes × TcpClient) :=
  if client.connected then do
    let received ← Sys.recv size
    match received with
    | .ok data => pure (data, ⟨data ≠ []⟩)
    | .eintr | .error => pure ([], ⟨false⟩)
  else pure ([], client)

end TcpClient

/-- `"ACK"` -/
def ack : Bytes := [65, 67, 75]

/-- `"NAK"` -/
def nak : Bytes := [78, 65, 75]

namespace FileSync

variable (self : FileSync) (abi : Abi)

/-- The loop of `sendFileSync`; the source is read at `transferred`. -/
def sendBlocks (srcPath destPath : Bytes) (fileSize sends : Nat) :
    Nat → TcpClient → Nat → Prog (Bool × TcpClient)
  | 0, _, _ => .spin
  | fuel + 1, client, transferred =>
      if transferred < fileSize then do
        let buffer ← Sys.get srcPath transferred (min bufferSize (fileSize - transferred))
        if 0 < buffer.length then do
          let (sent, client) ← client.send sends buffer
          if sent then do
            saveProgress destPath (transferred + buffer.length) fileSize
            throttle self (bufferSize * 1000 / self.speedLimit)
            sendBlocks srcPath destPath fileSize sends fuel client (transferred + buffer.length)
          else do
            saveProgress destPath transferred fileSize
            pure (false, client)
        else sendBlocks srcPath destPath fileSize sends fuel client transferred
      else pure (true, client)

def sendFileSync (fuel : Nat) (srcPath destPath : Bytes) (client : TcpClient) (resumeOffset : Nat) :
    Prog (Bool × TcpClient) := do
  let srcFile ← Sys.openIn srcPath
  if srcFile then do
    let fileSize ← Sys.seekEnd srcPath
    let (sent, client) ← sendBlocks self srcPath destPath fileSize fuel fuel client resumeOffset
    if sent then do
      let _ ← Sys.remove (getProgressFilePath destPath)
      pure (true, client)
    else pure (false, client)
  else pure (false, client)

/-- One round of the metadata loop of `syncRemote`. -/
def sendTask (fuel : Nat) (client : TcpClient) (task : SyncTask) : Prog TcpClient := do
  let (_, client) ← client.send fuel (abi.encode abi.int (if task.isDirectory then 1 else 0))
  let (_, client) ← client.send fuel (abi.encode abi.size_t task.srcPath.length)
  let (_, client) ← client.send fuel task.srcPath
  let (_, client) ← client.send fuel (abi.encode abi.size_t task.destPath.length)
  let (_, client) ← client.send fuel task.destPath
  let (_, client) ← client.send fuel (abi.encode abi.mode_t task.mode.toNat)
  if task.isDirectory then pure client
  else do
    let stat ← getFileStat task.srcPath
    match stat with
    | none => pure client
    | some statbuf => do
        let (_, client) ← client.send fuel (abi.encode abi.off_t statbuf.st_size)
        pure client

def sendMetadata (fuel : Nat) : TcpClient → List SyncTask → Prog TcpClient
  | client, [] => pure client
  | client, task :: tasks => do
      let client ← sendTask abi fuel client task
      sendMetadata fuel client tasks

/-- Where the sending of a file is to start. -/
def remoteOffset (resume : Bool) (destPath : Bytes) (fileSize : Nat) : Prog Nat :=
  if resume then do
    let progress ← loadProgress destPath
    if 0 < progress.offset ∧ 0 < progress.totalSize ∧ progress.offset < fileSize then
      pure progress.offset.toNat
    else pure 0
  else pure 0

/-- One round of the data loop of `syncRemote`. -/
def sendTaskData (fuel : Nat) (resume : Bool) (client : TcpClient) (task : SyncTask) :
    Prog (Bool × TcpClient) :=
  if task.isDirectory then do
    let (_, client) ← client.send fuel (abi.encode abi.off_t 0)
    pure (true, client)
  else do
    let stat ← getFileStat task.srcPath
    let fileSize := match stat with
      | none => 0
      | some statbuf => statbuf.st_size
    let resumeOffset ← remoteOffset resume task.destPath fileSize
    let (_, client) ← client.send fuel (abi.encode abi.off_t resumeOffset)
    let useAsync := decide (LARGE_FILE_THRESHOLD ≤ fileSize) && !decide (0 < resumeOffset)
    match if useAsync then self.asyncIOHandler else none with
    | some sendFileViaAsyncIO => do
        let sent ← sendFileViaAsyncIO task.srcPath
        if sent then pure (true, client)
        else sendFileSync self fuel task.srcPath task.destPath client resumeOffset
    | none => sendFileSync self fuel task.srcPath task.destPath client resumeOffset

def sendData (fuel : Nat) (resume : Bool) : TcpClient → List SyncTask → Prog (Bool × TcpClient)
  | client, [] => pure (true, client)
  | client, task :: tasks => do
      let (sent, client) ← sendTaskData self abi fuel resume client task
      if sent then sendData fuel resume client tasks else pure (false, client)

/-- `syncRemote` once the changes are detected. -/
def sendTasks (fuel : Nat) (resume : Bool) (tasks : List SyncTask) : Prog Bool := do
  let client : TcpClient := ⟨true⟩
  let (_, client) ← client.send fuel [0]
  let (_, client) ← client.send fuel (abi.encode abi.int tasks.length)
  let client ← sendMetadata abi fuel client tasks
  let (sent, client) ← sendData self abi fuel resume client tasks
  if sent then do
    let (ackBuffer, _) ← client.receive 3
    Sys.closeSocket
    pure (ackBuffer == ack)
  else do
    Sys.closeSocket
    pure false

def syncRemote (fuel : Nat) (srcDir destDir : Bytes) (resume : Bool) : Prog Bool := do
  let connected ← Sys.connect
  if connected then do
    let tasks ← detectChanges self fuel srcDir destDir
    sendTasks self abi fuel resume tasks
  else pure false

end FileSync

end SyncTool
