import SyncTool.Machine

set_option autoImplicit false

namespace SyncTool

open SyncTool.Path

def S_IFMT : UInt32 := 0o170000
def S_IFDIR : UInt32 := 0o040000
def S_IFREG : UInt32 := 0o100000

def S_ISDIR (mode : UInt32) : Bool := mode &&& S_IFMT == S_IFDIR
def S_ISREG (mode : UInt32) : Bool := mode &&& S_IFMT == S_IFREG

namespace Node

def st_size : Node → Nat
  | .file content _ _ => content.length
  | .dir size _ _ => size

def st_mtime : Node → Int
  | .file _ _ mtime => mtime
  | .dir _ _ mtime => mtime

def st_mode : Node → UInt32
  | .file _ perm _ => S_IFREG ||| (perm &&& 0o7777)
  | .dir _ perm _ => S_IFDIR ||| (perm &&& 0o7777)

end Node

/-- The MD5 functions of the cryptographic library. A context only remembers the bytes it was
fed, not how they were cut. -/
structure Md5 where
  Ctx : Type
  MD5_Init : Ctx
  MD5_Update : Ctx → Bytes → Ctx
  MD5_Final : Ctx → Bytes
  update_nil : ∀ ctx, MD5_Update ctx [] = ctx
  update_append : ∀ ctx first second,
    MD5_Update (MD5_Update ctx first) second = MD5_Update ctx (first ++ second)

def hexDigit (value : UInt8) : UInt8 := if value < 10 then 48 + value else 87 + value

/-- `%02x` of every byte. -/
def hex (hash : Bytes) : Bytes :=
  hash.flatMap fun byte => [hexDigit (byte / 16), hexDigit (byte % 16)]

namespace Md5

def digest (md5 : Md5) (content : Bytes) : Bytes :=
  hex (md5.MD5_Final (md5.MD5_Update md5.MD5_Init content))

end Md5

namespace LinuxFileUtil

def fileExists (path : Bytes) : Prog Bool := do
  let statbuf ← Sys.stat path
  pure statbuf.isSome

def getFileStat (path : Bytes) : Prog (Option Node) := Sys.stat path

def setFileMode (path : Bytes) (mode : UInt32) : Prog Bool := Sys.chmod path mode

/-- The parts of a path that end just before one of its slashes, shortest first. -/
def slashPrefixes (seen : Bytes) : Bytes → List Bytes
  | [] => []
  | byte :: rest =>
      if byte = slash then seen :: slashPrefixes (seen ++ [byte]) rest
      else slashPrefixes (seen ++ [byte]) rest

/-- One round of `createDirectory`: stat, and mkdir if nothing is there. -/
def ensureDirectory (currentPath : Bytes) (mode : UInt32) : Prog Bool := do
  let statbuf ← Sys.stat currentPath
  if statbuf.isSome then pure true else Sys.mkdir currentPath mode

def createEach (mode : UInt32) : List Bytes → Prog Bool
  | [] => pure true
  | currentPath :: rest =>
      if currentPath = [] then createEach mode rest
      else do
        let made ← ensureDirectory currentPath mode
        if made then createEach mode rest else pure false

def createDirectory (path : Bytes) (mode : UInt32) : Prog Bool :=
  createEach mode (slashPrefixes [] path ++ [path])

def listDirectory (path : Bytes) : Prog (List Bytes) := do
  let names ← Sys.readdir path
  pure (names.map fun name => path ++ slash :: name)

def updateBlocks (md5 : Md5) (path : Bytes) : Nat → Nat → md5.Ctx → Prog md5.Ctx
  | 0, _, _ => .spin
  | fuel + 1, pos, ctx => do
      let buffer ← Sys.get path pos 4096
      if buffer.length = 4096 then
        updateBlocks md5 path fuel (pos + 4096) (md5.MD5_Update ctx buffer)
      else if 0 < buffer.length then pure (md5.MD5_Update ctx buffer)
      else pure ctx

def calculateMD5 (md5 : Md5) (fuel : Nat) (path : Bytes) : Prog Bytes := do
  let file ← Sys.openIn path
  if file then do
    let ctx ← updateBlocks md5 path fuel 0 md5.MD5_Init
    pure (hex (md5.MD5_Final ctx))
  else pure []

/-- The loop of `calculatePartialMD5`: a read that comes up short ends it. -/
def updateRange (md5 : Md5) (path : Bytes) : Nat → Nat → Nat → md5.Ctx → Prog md5.Ctx
  | 0, _, _, _ => .spin
  | fuel + 1, pos, remaining, ctx =>
      if 0 < remaining then do
        let count := min 4096 remaining
        let buffer ← Sys.get path pos count
        if buffer.length = count then
          updateRange md5 path fuel (pos + count) (remaining - count) (md5.MD5_Update ctx buffer)
        else pure ctx
      else pure ctx

def calculatePartialMD5 (md5 : Md5) (fuel : Nat) (path : Bytes) (offset : Int) (size : Nat) :
    Prog Bytes := do
  let file ← Sys.openIn path
  if file then
    -- no offset up to the size of the file is refused, and those behind it read nothing; that a
    -- file system refuses one that is far behind it is left out
    if offset < 0 then pure []
    else do
      let ctx ← updateRange md5 path fuel offset.toNat size md5.MD5_Init
      pure (hex (md5.MD5_Final ctx))
  else pure []

end LinuxFileUtil

end SyncTool
