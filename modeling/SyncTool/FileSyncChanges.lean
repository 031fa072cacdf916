import SyncTool.LinuxFileUtil

set_option autoImplicit false

namespace SyncTool

open SyncTool.Path LinuxFileUtil

structure FileMetadata where
  path : Bytes
  size : Nat
  mtime : Int
  mode : UInt32
  md5 : Bytes

structure SyncTask where
  srcPath : Bytes
  destPath : Bytes
  isDirectory : Bool
  mode : UInt32
deriving DecidableEq

structure SyncProgress where
  filePath : Bytes
  offset : Int
  totalSize : Int

/-- `std::unordered_map<std::string, FileMetadata>`. -/
abbrev MetadataMap := AList fun _ : Bytes => FileMetadata

/-- The order in which an `unordered_map` is iterated over: the standard library promises
nothing about it. -/
structure HashOrder where
  arrange : List ((_ : Bytes) × FileMetadata) → List ((_ : Bytes) × FileMetadata)
  perm : ∀ entries, (arrange entries).Perm entries

inductive ConflictStrategy where
  | overwrite
  | skip
  | rename
  | other
deriving DecidableEq

/-- A `FileSync` object, with the library code it rests on. `asyncIOHandler` is how a running
handler sends a file; the handler itself is modelled apart. `maxbytes` is the greatest offset
that the file system of the sources has. -/
structure FileSync where
  md5 : Md5
  order : HashOrder
  speedLimit : Nat
  conflictStrategy : ConflictStrategy
  threadPool : Bool
  asyncIOHandler : Option (Bytes → Prog Bool)
  maxbytes : Nat

namespace FileSync

def LARGE_FILE_THRESHOLD : Nat := 10 * 1024 * 1024
def ASYNC_CHUNK_SIZE : Nat := 4 * 1024 * 1024

variable (self : FileSync)

/-- The loop of `collectMetadata` over the paths of one directory; `recurse` collects a
subdirectory. -/
def collectEach (fuel : Nat) (recurse : Bytes → Prog MetadataMap) :
    List Bytes → MetadataMap → Prog MetadataMap
  | [], metadataMap => pure metadataMap
  | path :: files, metadataMap => do
      let stat ← getFileStat path
      match stat with
      | none => collectEach fuel recurse files metadataMap
      | some statbuf => do
          let md5 ← if S_ISREG statbuf.st_mode then calculateMD5 self.md5 fuel path else pure []
          let metadataMap := metadataMap.insert path
            ⟨path, statbuf.st_size, statbuf.st_mtime, statbuf.st_mode, md5⟩
          if S_ISDIR statbuf.st_mode then do
            let subMetadata ← recurse path
            collectEach fuel recurse files (metadataMap ∪ subMetadata)
          else collectEach fuel recurse files metadataMap

/-- `depth` bounds the nesting of directories. -/
def collectMetadata (fuel : Nat) : Nat → Bytes → Prog MetadataMap
  | 0, _ => .spin
  | depth + 1, directory => do
      let files ← listDirectory directory
      collectEach self fuel (collectMetadata fuel depth) files ∅

def needSync (srcMeta destMeta : FileMetadata) : Bool :=
  if S_ISREG srcMeta.mode != S_ISREG destMeta.mode then true
  else if srcMeta.size != destMeta.size || srcMeta.mtime != destMeta.mtime then true
  else if S_ISREG srcMeta.mode then srcMeta.md5 != destMeta.md5
  else false

/-- The task, if any, for one entry of the source. -/
def compareEntry (destMetadata : MetadataMap) (srcDir destDir : Bytes)
    (entry : (_ : Bytes) × FileMetadata) : Option SyncTask :=
  let srcPath := entry.1
  let srcMeta := entry.2
  let destPath := destDir ++ srcPath.drop srcDir.length
  let task : SyncTask := ⟨srcPath, destPath, S_ISDIR srcMeta.mode, srcMeta.mode⟩
  match destMetadata.lookup destPath with
  | none => some task
  | some destMeta => if needSync srcMeta destMeta then some task else none

def compareMetadata (srcMetadata destMetadata : MetadataMap) (srcDir destDir : Bytes) :
    List SyncTask :=
  (self.order.arrange srcMetadata.entries).filterMap (compareEntry destMetadata srcDir destDir)

def detectChanges (fuel : Nat) (srcDir destDir : Bytes) : Prog (List SyncTask) := do
  let srcMetadata ← collectMetadata self fuel fuel srcDir
  let destMetadata ← collectMetadata self fuel fuel destDir
  pure (compareMetadata self srcMetadata destMetadata srcDir destDir)

end FileSync

end SyncTool
