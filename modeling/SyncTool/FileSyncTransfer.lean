import SyncTool.FileSyncProgress

set_option autoImplicit false

namespace SyncTool.FileSync

open SyncTool.Path LinuxFileUtil

variable (self : FileSync)

def bufferSize : Nat := 4096

/-- Sleeping after a block of `size` bytes, if there is a speed limit. -/
def throttle (milliseconds : Nat) : Prog Unit :=
  if 0 < self.speedLimit then Sys.sleep milliseconds else pure ()

/-- The read loop of `transferFile`; the source is read at `transferred`. -/
def copyBlocks (srcPath destPath : Bytes) (totalSize : Nat) : Nat → Nat → Prog Bool
  | 0, _ => .spin
  | fuel + 1, transferred => do
      let buffer ← Sys.get srcPath transferred bufferSize
      if buffer.length = bufferSize then do
        let good ← Sys.put destPath buffer
        if good then do
          saveProgress destPath (transferred + buffer.length) totalSize
          throttle self (bufferSize * 1000 / self.speedLimit)
          copyBlocks srcPath destPath totalSize fuel (transferred + buffer.length)
        else do
          saveProgress destPath transferred totalSize
          Sys.closeOut destPath
          pure false
      else do
        if 0 < buffer.length then let _ ← Sys.put destPath buffer
        let _ ← Sys.remove (getProgressFilePath destPath)
        -- the streams are closed when they go out of scope, after the record is gone
        Sys.closeOut destPath
        pure true

/-- `seekg` to where a copy goes on, if it does not start at the beginning. -/
def seekTo (srcPath : Bytes) (offset : Nat) : Prog Bool :=
  if 0 < offset then Sys.seek srcPath offset (decide (offset ≤ self.maxbytes)) else pure true

def transferFile (fuel : Nat) (srcPath destPath : Bytes) (offset : Nat) : Prog Bool := do
  let srcFile ← Sys.openIn srcPath
  let destFile ← Sys.openOut destPath (0 < offset)
  if srcFile && destFile then do
    let found ← seekTo self srcPath offset
    if found then do
      let totalSize ← Sys.seekEnd srcPath
      copyBlocks self srcPath destPath totalSize fuel offset
    else do
      Sys.closeOut destPath
      pure false
  else pure false

def cleanupCorruptedFile (destPath : Bytes) : Prog Unit := do
  let exist ← fileExists destPath
  if exist then let _ ← Sys.remove destPath
  let progressPath := getProgressFilePath destPath
  let exist ← fileExists progressPath
  if exist then let _ ← Sys.remove progressPath

/-- `pread` until `count` bytes are there, the file ends, or it fails (`none`). -/
def robustPread (path : Bytes) (count offset : Nat) : Nat → Bytes → Prog (Option Bytes)
  | 0, _ => .spin
  | fuel + 1, buffer =>
      if buffer.length < count then do
        let n ← Sys.pread path (offset + buffer.length) (count - buffer.length)
        match n with
        | .error => pure none
        | .eintr => robustPread path count offset fuel buffer
        | .ok bytes =>
            if bytes = [] then pure (some buffer)
            else robustPread path count offset fuel (buffer ++ bytes)
      else pure (some buffer)

def robustPwrite (path data : Bytes) (offset : Nat) : Nat → Nat → Prog (Option Nat)
  | 0, _ => .spin
  | fuel + 1, totalWritten =>
      if totalWritten < data.length then do
        let n ← Sys.pwrite path (offset + totalWritten) (data.drop totalWritten)
        match n with
        | .error => pure none
        | .eintr => robustPwrite path data offset fuel totalWritten
        | .ok written =>
            if written = 0 then pure (some totalWritten)
            else robustPwrite path data offset fuel (totalWritten + written)
      else pure (some totalWritten)

def transferChunk (fuel : Nat) (srcPath destPath : Bytes) (chunkOffset chunkSize bufferSize : Nat) :
    Prog Bool :=
  if bufferSize < chunkSize then pure false
  else do
    let buffer ← robustPread srcPath chunkSize chunkOffset fuel []
    match buffer with
    | none => pure false
    | some buffer =>
        if buffer.length ≠ chunkSize then pure false
        else do
          let written ← robustPwrite destPath buffer chunkOffset fuel 0
          pure (written == some chunkSize)

/-- The task that `std::async` runs for one chunk. -/
def chunkTask (fuel : Nat) (srcPath destPath : Bytes)
    (totalSize chunkOffset currentChunkSize : Nat) : Prog Bool := do
  let hasError ← Sys.loadError destPath
  if hasError then pure false
  else do
    let ok ← transferChunk fuel srcPath destPath chunkOffset currentChunkSize ASYNC_CHUNK_SIZE
    if ok then do
      let transferred ← Sys.fetchAdd destPath currentChunkSize
      saveProgress destPath (transferred + currentChunkSize) totalSize
      throttle self (currentChunkSize * 1000 / self.speedLimit / 4)
      pure true
    else do
      Sys.storeError destPath
      pure false

/-- The part of a path before its last slash. -/
def parentPath (path : Bytes) : Option Bytes :=
  if slash ∈ path then some ((path.reverse.dropWhile (· ≠ slash)).tail.reverse) else none

def checkDiskSpace (destPath : Bytes) (requiredSize : Int) : Prog Bool := do
  let vfs ← Sys.statvfs ((parentPath destPath).getD dot)
  match vfs with
  | none => pure false
  | some available => pure (requiredSize ≤ available)

def toInt32 (value : Int) : Int := (BitVec.ofInt 32 value).toInt

theorem toInt32_le {value : Int} (nonneg : 0 ≤ value) : toInt32 value ≤ value := by
  rw [toInt32, BitVec.toInt_ofInt, Int.bmod]
  split <;> omega

theorem toInt32_of_lt {value : Int} (nonneg : 0 ≤ value) (small : value < 2 ^ 31) :
    toInt32 value = value := by
  rw [toInt32, BitVec.toInt_ofInt, Int.bmod_eq_of_le] <;> omega

theorem toInt32_succ (n : Int) : toInt32 (toInt32 n + 1) = toInt32 (n + 1) := by
  unfold toInt32
  congr 1
  rw [BitVec.ofInt_add, BitVec.ofInt_toInt, BitVec.ofInt_add]

def numChunks (fileSize offset : Nat) : Int :=
  toInt32 (((fileSize : Int) - offset + ASYNC_CHUNK_SIZE - 1).tdiv ASYNC_CHUNK_SIZE)

/-- From the opened files on: the chunk tasks, and what is made of their results. -/
def runChunks (fuel : Nat) (srcPath destPath : Bytes) (fileSize offset : Nat) : Prog Bool := do
  Sys.initShared destPath offset
  let futures ← Program.fork (numChunks fileSize offset).toNat
    (fun i =>
      let chunkOffset := offset + i.val * ASYNC_CHUNK_SIZE
      chunkTask self fuel srcPath destPath fileSize chunkOffset
        (min ASYNC_CHUNK_SIZE (fileSize - chunkOffset)))
    pure
  if ∀ i, futures i = true then do
    let _ ← Sys.remove (getProgressFilePath destPath)
    pure true
  else do
    cleanupCorruptedFile destPath
    pure false

def transferLargeFileAsync (fuel : Nat) (srcPath destPath : Bytes) (offset : Nat) : Prog Bool := do
  let stat ← getFileStat srcPath
  match stat with
  | none => pure false
  | some statbuf => do
      let fileSize := statbuf.st_size
      let space ← checkDiskSpace destPath ((fileSize : Int) - offset)
      if !space then pure false
      else do
        let srcFd ← Sys.openIn srcPath
        if !srcFd then pure false
        else if offset = 0 then do
          let destFd ← Sys.openFd destPath .trunc true
          if !destFd then pure false
          else do
            let sized ← Sys.ftruncate destPath fileSize
            if sized then runChunks self fuel srcPath destPath fileSize offset
            else do
              cleanupCorruptedFile destPath
              pure false
        else do
          let destFd ← Sys.openFd destPath .keep false
          if destFd then runChunks self fuel srcPath destPath fileSize offset
          else pure false

end SyncTool.FileSync
