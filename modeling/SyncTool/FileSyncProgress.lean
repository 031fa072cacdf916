import Mathlib.Algebra.Ring.Int.Defs
import SyncTool.FileSyncChanges

set_option autoImplicit false

namespace SyncTool.FileSync

/-- `".sync_progress"` -/
def progressSuffix : Bytes := [46, 115, 121, 110, 99, 95, 112, 114, 111, 103, 114, 101, 115, 115]

/-- `".bak"` -/
def bakSuffix : Bytes := [46, 98, 97, 107]

def getProgressFilePath (filePath : Bytes) : Bytes := filePath ++ progressSuffix

def newline : UInt8 := 10

/-- How a stream prints a count. -/
def decimal (value : Nat) : Bytes :=
  (Nat.toDigits 10 value).map fun digit => UInt8.ofNat digit.toNat

def progressRecord (filePath : Bytes) (offset totalSize : Nat) : Bytes :=
  filePath ++ newline :: decimal offset ++ newline :: decimal totalSize ++ [newline]

def saveProgress (filePath : Bytes) (offset totalSize : Nat) : Prog Unit := do
  let progressPath := getProgressFilePath filePath
  let progressFile ← Sys.openOut progressPath false
  if progressFile then do
    let _ ← Sys.put progressPath (progressRecord filePath offset totalSize)
    Sys.closeOut progressPath
  else pure ()

def isSpace (byte : UInt8) : Bool := byte == 32 || (9 ≤ byte && byte ≤ 13)

def isDigit (byte : UInt8) : Bool := 48 ≤ byte && byte ≤ 57

/-- `>> std::string`: skip blanks, then take what is not blank. -/
def extractWord (text : Bytes) : Bytes × Bytes :=
  (text.dropWhile isSpace).span fun byte => !isSpace byte

def digitsValue (digits : Bytes) : Nat :=
  digits.foldl (fun value digit => 10 * value + (digit.toNat - 48)) 0

/-- `>> off_t`: skip blanks, an optional sign, digits. Without a digit, or outside of the range
of the type, the stream fails; the value is then 0 or the nearest bound. -/
def extractOffT (text : Bytes) : Int × Bool × Bytes :=
  let text := text.dropWhile isSpace
  let negative := text.head? == some 45
  let unsigned := if negative || text.head? == some 43 then text.tail else text
  let digits := unsigned.takeWhile isDigit
  let rest := unsigned.dropWhile isDigit
  let value : Int := if negative then -digitsValue digits else digitsValue digits
  if digits = [] then (0, false, rest)
  else if 2 ^ 63 ≤ value then (2 ^ 63 - 1, false, rest)
  else if value < -(2 ^ 63) then (-(2 ^ 63), false, rest)
  else (value, true, rest)

/-- What the extractions of `loadProgress` make of a file's text. A failed stream leaves the
later fields at 0. -/
def parseProgress (filePath text : Bytes) : SyncProgress :=
  let (savedPath, rest) := extractWord text
  if savedPath = filePath then
    let (offset, good, rest) := extractOffT rest
    if good then ⟨filePath, offset, (extractOffT rest).1⟩ else ⟨filePath, offset, 0⟩
  else ⟨filePath, 0, 0⟩

def loadProgress (filePath : Bytes) : Prog SyncProgress := do
  let progressPath := getProgressFilePath filePath
  let progressFile ← Sys.openIn progressPath
  if progressFile then do
    let text ← Sys.getAll progressPath
    pure (parseProgress filePath text)
  else pure ⟨filePath, 0, 0⟩

end SyncTool.FileSync
