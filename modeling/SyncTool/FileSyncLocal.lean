import SyncTool.FileSyncTransfer

set_option autoImplicit false

namespace SyncTool.FileSync

open SyncTool.Path LinuxFileUtil

variable (self : FileSync)

def handleConflict (destPath : Bytes) : Prog Bool :=
  match self.conflictStrategy with
  | .overwrite => pure true
  | .skip => pure false
  | .rename => Sys.rename destPath (destPath ++ bakSuffix)
  | .other => pure true

def syncDirectory (destPath : Bytes) (mode : UInt32) : Prog Bool := do
  let created ← createDirectory destPath 0o755
  if created then setFileMode destPath mode else pure false

/-- The end of `syncFile`: the copy from the start, and the cleanup if that fails too. -/
def copyWhole (fuel : Nat) (srcPath destPath : Bytes) (mode : UInt32) : Prog Bool := do
  let copied ← transferFile self fuel srcPath destPath 0
  if copied then do
    let _ ← setFileMode destPath mode
    pure true
  else do
    cleanupCorruptedFile destPath
    pure false

/-- `syncFile` once no record is resumed: the parallel copy for a large file, else or after
its failure the plain one. -/
def copyFresh (fuel : Nat) (srcPath destPath : Bytes) (mode : UInt32) : Prog Bool := do
  let stat ← getFileStat srcPath
  let useAsync := match stat with
    | none => false
    | some statbuf => decide (LARGE_FILE_THRESHOLD ≤ statbuf.st_size) && self.threadPool
  if useAsync then do
    let copied ← transferLargeFileAsync self fuel srcPath destPath 0
    if copied then do
      let _ ← setFileMode destPath mode
      pure true
    else do
      cleanupCorruptedFile destPath
      copyWhole self fuel srcPath destPath mode
  else copyWhole self fuel srcPath destPath mode

/-- `syncFile` from the progress record on. -/
def copyOrResume (fuel : Nat) (srcPath destPath : Bytes) (mode : UInt32) : Prog Bool := do
  let progress ← loadProgress destPath
  if 0 < progress.offset ∧ 0 < progress.totalSize then do
    let resumeOk ← transferFile self fuel srcPath destPath progress.offset.toNat
    if resumeOk then do
      let _ ← Sys.remove (getProgressFilePath destPath)
      let _ ← setFileMode destPath mode
      pure true
    else copyFresh self fuel srcPath destPath mode
  else copyFresh self fuel srcPath destPath mode

/-- `syncFile` once the destination's directory is there. -/
def resolveConflict (fuel : Nat) (srcPath destPath : Bytes) (mode : UInt32) : Prog Bool := do
  let exist ← fileExists destPath
  if exist then do
    let proceed ← handleConflict self destPath
    if proceed then copyOrResume self fuel srcPath destPath mode else pure false
  else copyOrResume self fuel srcPath destPath mode

def syncFile (fuel : Nat) (srcPath destPath : Bytes) (mode : UInt32) : Prog Bool := do
  let exist ← fileExists srcPath
  if !exist then pure false
  else
    match parentPath destPath with
    | none => resolveConflict self fuel srcPath destPath mode
    | some destDir => do
        let created ← createDirectory destDir 0o755
        if created then resolveConflict self fuel srcPath destPath mode else pure false

def executeSyncTask (fuel : Nat) (task : SyncTask) : Prog Bool :=
  if task.isDirectory then syncDirectory task.destPath task.mode
  else syncFile self fuel task.srcPath task.destPath task.mode

def executeAll (fuel : Nat) : List SyncTask → Prog Bool
  | [] => pure true
  | task :: tasks => do
      let ok ← executeSyncTask self fuel task
      if ok then executeAll fuel tasks else pure false

def syncLocal (fuel : Nat) (srcDir destDir : Bytes) : Prog Bool := do
  let created ← createDirectory destDir 0o755
  if created then do
    let tasks ← detectChanges self fuel srcDir destDir
    executeAll self fuel tasks
  else pure false

/-- `resumeSync`: the command line's `-r` for one local file. -/
def resumeSync (fuel : Nat) (srcPath destPath : Bytes) : Prog Bool := do
  let progress ← loadProgress destPath
  if 0 < progress.offset ∧ 0 < progress.totalSize then
    transferFile self fuel srcPath destPath progress.offset.toNat
  else pure false

end SyncTool.FileSync
