import SyncTool.PosixCalls
import SyncTool.ProgramLogic

set_option autoImplicit false

namespace SyncTool

/-- A task as the server keeps it. -/
structure ServerSyncTask where
  destPath : Bytes
  srcPath : Bytes
  isDirectory : Bool
  mode : UInt32
  fileSize : Int
deriving DecidableEq

/-- What a POSIX transfer returns: a count or bytes, -1 with `EINTR`, or -1. -/
inductive Io (α : Type) where
  | ok (value : α)
  | eintr
  | error
deriving DecidableEq

/-- The counters that the chunk tasks of one parallel copy share. -/
structure Shared where
  transferred : Nat
  hasError : Bool

/-- The calls the program makes. Open files are named by the path they were opened with: no
run renames or removes a file while it is open. A `seek` says whether the file system has the
offset where it lies behind the end of the file. The time of an inode's last change, which the
files do not keep, is asked for apart from the rest of a `stat`. -/
inductive Op where
  | stat (path : Bytes)
  | ctime (path : Bytes)
  | mkdir (path : Bytes) (mode : UInt32)
  | chmod (path : Bytes) (mode : UInt32)
  | readdir (path : Bytes)
  | remove (path : Bytes)
  | rename (old new : Bytes)
  | statvfs (path : Bytes)
  -- file streams
  | openIn (path : Bytes)
  | seek (path : Bytes) (offset : Nat) (beyond : Bool)
  | seekEnd (path : Bytes)
  | get (path : Bytes) (pos count : Nat)
  | getAll (path : Bytes)
  | openOut (path : Bytes) (append : Bool)
  | put (path data : Bytes)
  | closeOut (path : Bytes)
  -- file descriptors
  | openFd (path : Bytes) (how : FileSystem.Mode) (create : Bool)
  | ftruncate (path : Bytes) (size : Nat)
  | lseekEnd (path : Bytes)
  | pread (path : Bytes) (pos count : Nat)
  | pwrite (path : Bytes) (pos : Nat) (data : Bytes)
  | write (path : Bytes) (append : Bool) (pos : Nat) (data : Bytes)
  -- the connection
  | connect
  | send (data : Bytes)
  | recv (count : Nat)
  | closeSocket
  -- memory shared between threads, and out-parameters
  | initShared (key : Bytes) (offset : Nat)
  | loadError (key : Bytes)
  | storeError (key : Bytes)
  | fetchAdd (key : Bytes) (amount : Nat)
  | pushTask (task : ServerSyncTask)
  | countTask
  | sleep (milliseconds : Nat)

@[reducible] def Res : Op → Type
  | .stat _ => Option Node
  | .ctime _ => Int
  | .mkdir _ _ | .chmod _ _ | .remove _ | .rename _ _ => Bool
  | .readdir _ => List Name
  | .statvfs _ => Option Nat
  | .openIn _ | .seek _ _ _ | .openOut _ _ | .put _ _ => Bool
  | .seekEnd _ => Nat
  | .get _ _ _ | .getAll _ => Bytes
  | .closeOut _ => Unit
  | .openFd _ _ _ | .ftruncate _ _ => Bool
  | .lseekEnd _ => Nat
  | .pread _ _ _ => Io Bytes
  | .pwrite _ _ _ | .write _ _ _ _ => Io Nat
  | .connect => Bool
  | .send _ => Io Nat
  | .recv _ => Io Bytes
  | .closeSocket => Unit
  | .initShared _ _ | .storeError _ => Unit
  | .loadError _ => Bool
  | .fetchAdd _ _ => Nat
  | .pushTask _ | .countTask | .sleep _ => Unit

abbrev Prog := Program Op Res

/-- One machine: its files, what its open streams still hold back, the bytes its connection
has taken and delivered so far, and the memory its threads share. -/
structure World where
  fs : FileSystem
  pending : Path → Bytes
  shared : Bytes → Shared
  sent : Bytes
  received : Bytes
  closes : Nat
  accepted : List ServerSyncTask
  processedTasks : Nat

/-- A machine before it has run anything. -/
def World.boot (fs : FileSystem) : World where
  fs := fs
  pending _ := []
  shared _ := ⟨0, false⟩
  sent := []
  received := []
  closes := 0
  accepted := []
  processedTasks := 0

inductive Fault where
  | none
  | eintr
  | error
deriving DecidableEq

/-- What is decided outside the program about one call: the time, whether it fails, how much
of a transfer goes through (`none`: all of it), and what has arrived on the connection. -/
structure Choice where
  time : Int
  fault : Fault
  count : Option Nat
  arrived : Bytes

namespace Choice

/-- The part of a transfer of `length` bytes that goes through. -/
def limit (choice : Choice) (length : Nat) : Nat :=
  match choice.count with
  | none => length
  | some count => min count length

theorem limit_le (choice : Choice) (length : Nat) : choice.limit length ≤ length := by
  unfold limit
  split
  · exact le_refl _
  · exact Nat.min_le_right _ _

/-- A transfer that moves anything moves something of what is there. -/
theorem limit_pos {choice : Choice} {length : Nat} (some : choice.count ≠ some 0)
    (nonempty : 0 < length) : 0 < choice.limit length := by
  unfold limit
  cases count : choice.count with
  | none => exact nonempty
  | some n =>
      have positive : n ≠ 0 := fun zero => some (by rw [count, zero])
      simp only
      omega

end Choice

namespace World

/-- Apply a file-system operation; a fault leaves the file system alone. -/
def attempt (w : World) (choice : Choice) (result : Option FileSystem) : Bool × World :=
  if choice.fault = .none then
    match result with
    | some fs => (true, { w with fs := fs })
    | none => (false, w)
  else (false, w)

/-- The bytes `[pos, pos + count)` of a file, as far as there are any. -/
def slice (content : Bytes) (pos count : Nat) : Bytes := (content.drop pos).take count

/-- Overwrite from `pos` on, filling a gap with zeros. -/
def splice (content : Bytes) (pos : Nat) (data : Bytes) : Bytes :=
  content.take pos ++ List.replicate (pos - content.length) 0 ++ data ++
    content.drop (pos + data.length)

theorem length_slice (content : Bytes) (pos count : Nat) :
    (slice content pos count).length = min count (content.length - pos) := by
  rw [slice, List.length_take, List.length_drop]

/-- A part of a file and what follows it. -/
theorem slice_append_drop (content : Bytes) (pos count : Nat) :
    slice content pos count ++ content.drop (pos + count) = content.drop pos := by
  rw [slice, ← List.drop_drop, List.take_append_drop]

/-- A part that comes out short reaches to the end of the file. -/
theorem slice_eq_drop {content : Bytes} {pos count : Nat}
    (short : (slice content pos count).length < count) :
    slice content pos count = content.drop pos := by
  rw [length_slice] at short
  rw [slice, List.take_of_length_le]
  rw [List.length_drop]
  omega

def resize (content : Bytes) (size : Nat) : Bytes :=
  content.take size ++ List.replicate (size - content.length) 0

section Ranges

variable {content data : Bytes} {pos n : Nat}

theorem splice_inside (inside : pos + data.length ≤ content.length) :
    splice content pos data = content.take pos ++ data ++ content.drop (pos + data.length) := by
  have gap : pos - content.length = 0 := by omega
  simp [splice, gap]

theorem length_splice (inside : pos + data.length ≤ content.length) :
    (splice content pos data).length = content.length := by
  rw [splice_inside inside]
  simp only [List.length_append, List.length_take, List.length_drop]
  omega

theorem take_splice (inside : pos + data.length ≤ content.length) (before : n ≤ pos) :
    (splice content pos data).take n = content.take n := by
  have short : n ≤ (content.take pos).length := by
    rw [List.length_take]
    omega
  rw [splice_inside inside, List.append_assoc, List.take_append_of_le_length short, List.take_take,
    Nat.min_eq_left before]

theorem drop_splice (inside : pos + data.length ≤ content.length) (after : pos + data.length ≤ n) :
    (splice content pos data).drop n = content.drop n := by
  have front : (content.take pos ++ data).length = pos + data.length := by
    rw [List.length_append, List.length_take]
    omega
  obtain ⟨more, rfl⟩ := Nat.exists_eq_add_of_le after
  rw [splice_inside inside, ← front, ← List.drop_drop, List.drop_left, List.drop_drop]

/-- Writing right behind a part makes that part longer. -/
theorem slice_splice (inside : pos + n + data.length ≤ content.length) :
    slice (splice content (pos + n) data) pos (n + data.length) = slice content pos n ++ data := by
  have front : (content.take (pos + n)).length = pos + n := by
    rw [List.length_take]
    omega
  have part : (content.take (pos + n)).drop pos = slice content pos n := by
    rw [slice, List.drop_take]
    congr 1
    omega
  have length : (slice content pos n ++ data).length = n + data.length := by
    rw [List.length_append, length_slice]
    omega
  rw [splice_inside inside, List.append_assoc, slice, List.drop_append_of_le_length (by omega),
    part, ← List.append_assoc, ← length, List.take_left]

theorem take_slice (content : Bytes) {m count : Nat} (pos : Nat) (less : m ≤ count) :
    (slice content pos count).take m = slice content pos m := by
  rw [slice, List.take_take, Nat.min_eq_left less, slice]

theorem slice_of_take {content' : Bytes} {bound : Nat}
    (same : content'.take bound = content.take bound) (before : pos + n ≤ bound) :
    slice content' pos n = slice content pos n := by
  have cut : ∀ f : Bytes, slice f pos n = slice (f.take bound) pos n := by
    intro f
    rw [slice, slice, List.drop_take, List.take_take, Nat.min_eq_left (by omega)]
  rw [cut content', same, ← cut content]

theorem slice_of_drop {content' : Bytes} {bound : Nat}
    (same : content'.drop bound = content.drop bound) (after : bound ≤ pos) :
    slice content' pos n = slice content pos n := by
  obtain ⟨more, rfl⟩ := Nat.exists_eq_add_of_le after
  rw [slice, slice, ← List.drop_drop, ← List.drop_drop, same]

/-- Asking for more than there is changes nothing. -/
theorem slice_min (content : Bytes) (pos count : Nat) :
    slice content pos (min count (content.length - pos)) = slice content pos count := by
  rw [slice, slice, ← List.length_drop, ← List.take_eq_take_min]

theorem slice_add (content : Bytes) (pos n more : Nat) :
    slice content pos (n + more) = slice content pos n ++ slice content (pos + n) more := by
  rw [slice, slice, slice, List.take_add, List.drop_drop]

theorem take_append_slice (content : Bytes) (pos count : Nat) :
    content.take pos ++ slice content pos count = content.take (pos + count) := by
  rw [slice, List.take_add]

end Ranges

/-- A stream newly opened on a file holds nothing back. -/
def fresh (w : World) (path : Bytes) : World :=
  match w.fs.resolve path with
  | none => w
  | some p => { w with pending := Function.update w.pending p [] }

/-- Append to a stream's file what goes through, keep back the rest or, on a fault, lose it. -/
def flush (w : World) (choice : Choice) (path data : Bytes) : Bool × World :=
  match w.fs.resolve path with
  | none => (false, w)
  | some p =>
      let held := w.pending p ++ data
      let through := choice.limit held.length
      match w.fs.edit path (· ++ held.take through) choice.time with
      | none => (false, w)
      | some fs =>
          if choice.fault = .none then
            (true, { w with
              fs := fs, pending := Function.update w.pending p (held.drop through) })
          else (false, { w with fs := fs, pending := Function.update w.pending p [] })

end World

open World in
/-- What a call answers and does. -/
def Op.run : (op : Op) → Choice → World → Res op × World
  | .stat path, _, w => (w.fs.stat path, w)
  | .ctime _, choice, w => (choice.time, w)
  | .mkdir path mode, choice, w => w.attempt choice (w.fs.mkdir path mode choice.time)
  | .chmod path mode, choice, w => w.attempt choice (w.fs.chmod path mode)
  | .readdir path, _, w => (w.fs.readdir path, w)
  | .remove path, choice, w => w.attempt choice (w.fs.remove path choice.time)
  | .rename old new, choice, w => w.attempt choice (w.fs.rename old new choice.time)
  | .statvfs path, choice, w =>
      (if choice.fault = .none ∧ (w.fs.stat path).isSome then some (choice.count.getD 0)
        else none, w)
  | .openIn path, choice, w => (decide (choice.fault = .none) && (w.fs.stat path).isSome, w)
  | .seek path offset beyond, choice, w =>
      (decide (choice.fault = .none) &&
        (decide (offset ≤ ((w.fs.read path).getD []).length) || beyond), w)
  | .seekEnd path, _, w => (((w.fs.read path).getD []).length, w)
  | .get path pos count, choice, w =>
      let block := slice ((w.fs.read path).getD []) pos count
      (if choice.fault = .none then block else block.take (choice.limit block.length), w)
  | .getAll path, choice, w =>
      let content := (w.fs.read path).getD []
      (if choice.fault = .none then content else content.take (choice.limit content.length), w)
  | .openOut path append, choice, w =>
      let opened := w.attempt choice
        (w.fs.open_ path (if append then .append else .trunc) true 0o666 choice.time)
      (opened.1, if opened.1 then opened.2.fresh path else opened.2)
  | .put path data, choice, w => w.flush choice path data
  | .closeOut path, choice, w => ((), (w.flush choice path []).2)
  | .openFd path how create, choice, w =>
      w.attempt choice (w.fs.open_ path how create 0o644 choice.time)
  | .ftruncate path size, choice, w =>
      w.attempt choice (w.fs.edit path (resize · size) choice.time)
  | .lseekEnd path, _, w => (((w.fs.read path).getD []).length, w)
  | .pread path pos count, choice, w =>
      let block := slice ((w.fs.read path).getD []) pos count
      match choice.fault with
      | .none => (.ok (block.take (choice.limit block.length)), w)
      | .eintr => (.eintr, w)
      | .error => (.error, w)
  | .pwrite path pos data, choice, w =>
      let through := choice.limit data.length
      match choice.fault, w.fs.edit path (splice · pos (data.take through)) choice.time with
      | .none, some fs => (.ok through, { w with fs := fs })
      | .eintr, _ => (.eintr, w)
      | _, _ => (.error, w)
  | .write path append pos data, choice, w =>
      let through := choice.limit data.length
      let change := fun content : Bytes =>
        if append then content ++ data.take through else splice content pos (data.take through)
      match choice.fault, w.fs.edit path change choice.time with
      | .none, some fs => (.ok through, { w with fs := fs })
      | .eintr, _ => (.eintr, w)
      | _, _ => (.error, w)
  | .connect, choice, w => (decide (choice.fault = .none), w)
  | .send data, choice, w =>
      let through := choice.limit data.length
      match choice.fault with
      | .none => (.ok through, { w with sent := w.sent ++ data.take through })
      | .eintr => (.eintr, w)
      | .error => (.error, w)
  | .recv count, choice, w =>
      match choice.fault with
      | .none =>
          (.ok (choice.arrived.take count),
            { w with received := w.received ++ choice.arrived.take count })
      | .eintr => (.eintr, w)
      | .error => (.error, w)
  | .closeSocket, _, w => ((), { w with closes := w.closes + 1 })
  | .initShared key offset, _, w =>
      ((), { w with shared := Function.update w.shared key ⟨offset, false⟩ })
  | .loadError key, _, w => ((w.shared key).hasError, w)
  | .storeError key, _, w =>
      ((), { w with shared := Function.update w.shared key ⟨(w.shared key).transferred, true⟩ })
  | .fetchAdd key amount, _, w =>
      let cell := w.shared key
      (cell.transferred,
        { w with
          shared := Function.update w.shared key ⟨cell.transferred + amount, cell.hasError⟩ })
  | .pushTask task, _, w => ((), { w with accepted := w.accepted ++ [task] })
  | .countTask, _, w => ((), { w with processedTasks := w.processedTasks + 1 })
  | .sleep _, _, w => ((), w)

namespace Sys

abbrev stat (path : Bytes) : Prog (Option Node) := Program.ask (Op.stat path)
abbrev ctime (path : Bytes) : Prog Int := Program.ask (Op.ctime path)
abbrev mkdir (path : Bytes) (mode : UInt32) : Prog Bool := Program.ask (Op.mkdir path mode)
abbrev chmod (path : Bytes) (mode : UInt32) : Prog Bool := Program.ask (Op.chmod path mode)
abbrev readdir (path : Bytes) : Prog (List Name) := Program.ask (Op.readdir path)
abbrev remove (path : Bytes) : Prog Bool := Program.ask (Op.remove path)
abbrev rename (old new : Bytes) : Prog Bool := Program.ask (Op.rename old new)
abbrev statvfs (path : Bytes) : Prog (Option Nat) := Program.ask (Op.statvfs path)
abbrev openIn (path : Bytes) : Prog Bool := Program.ask (Op.openIn path)
abbrev seek (path : Bytes) (offset : Nat) (beyond : Bool) : Prog Bool :=
  Program.ask (Op.seek path offset beyond)
abbrev seekEnd (path : Bytes) : Prog Nat := Program.ask (Op.seekEnd path)
abbrev get (path : Bytes) (pos count : Nat) : Prog Bytes := Program.ask (Op.get path pos count)
abbrev getAll (path : Bytes) : Prog Bytes := Program.ask (Op.getAll path)
abbrev openOut (path : Bytes) (append : Bool) : Prog Bool := Program.ask (Op.openOut path append)
abbrev put (path data : Bytes) : Prog Bool := Program.ask (Op.put path data)
abbrev closeOut (path : Bytes) : Prog Unit := Program.ask (Op.closeOut path)
abbrev openFd (path : Bytes) (how : FileSystem.Mode) (create : Bool) : Prog Bool :=
  Program.ask (Op.openFd path how create)
abbrev ftruncate (path : Bytes) (size : Nat) : Prog Bool := Program.ask (Op.ftruncate path size)
abbrev lseekEnd (path : Bytes) : Prog Nat := Program.ask (Op.lseekEnd path)
abbrev pread (path : Bytes) (pos count : Nat) : Prog (Io Bytes) :=
  Program.ask (Op.pread path pos count)
abbrev pwrite (path : Bytes) (pos : Nat) (data : Bytes) : Prog (Io Nat) :=
  Program.ask (Op.pwrite path pos data)
abbrev write (path : Bytes) (append : Bool) (pos : Nat) (data : Bytes) : Prog (Io Nat) :=
  Program.ask (Op.write path append pos data)
abbrev connect : Prog Bool := Program.ask Op.connect
abbrev send (data : Bytes) : Prog (Io Nat) := Program.ask (Op.send data)
abbrev recv (count : Nat) : Prog (Io Bytes) := Program.ask (Op.recv count)
abbrev closeSocket : Prog Unit := Program.ask Op.closeSocket
abbrev initShared (key : Bytes) (offset : Nat) : Prog Unit := Program.ask (Op.initShared key offset)
abbrev loadError (key : Bytes) : Prog Bool := Program.ask (Op.loadError key)
abbrev storeError (key : Bytes) : Prog Unit := Program.ask (Op.storeError key)
abbrev fetchAdd (key : Bytes) (amount : Nat) : Prog Nat := Program.ask (Op.fetchAdd key amount)
abbrev pushTask (task : ServerSyncTask) : Prog Unit := Program.ask (Op.pushTask task)
abbrev countTask : Prog Unit := Program.ask Op.countTask
abbrev sleep (milliseconds : Nat) : Prog Unit := Program.ask (Op.sleep milliseconds)

end Sys

/-- Which outcomes of a call are considered. -/
abbrev Policy := Op → Choice → World → Prop

def handler (policy : Policy) (spins : Prop) : Handler Op Res World where
  exec op w answer w' := ∃ choice, policy op choice w ∧ op.run choice w = (answer, w')
  spins := spins

namespace Policy

/-- Nothing fails. A stream may hold bytes back until it is closed, `pread` and `pwrite` may
move less than they were asked to, and `statvfs` reports an amount within `space`. -/
def reliable (space : Nat → Prop) : Policy
  | .put _ _, choice, _ => choice.fault = .none
  | .pread _ _ _, choice, _ | .pwrite _ _ _, choice, _ =>
      choice.fault = .none ∧ choice.count ≠ some 0
  | .statvfs _, choice, _ => choice.fault = .none ∧ ∃ amount,
      choice.count = some amount ∧ space amount
  | _, choice, _ => choice.fault = .none ∧ choice.count = none

theorem reliable_mono {space space' : Nat → Prop} (le : ∀ amount, space amount → space' amount)
    (op : Op) (choice : Choice) (w : World) (allowed : reliable space op choice w) :
    reliable space' op choice w := by
  cases op with
  | statvfs path =>
      obtain ⟨fine, amount, count, inside⟩ := allowed
      exact ⟨fine, amount, count, le amount inside⟩
  | _ => exact allowed

/-- Anything may fail but the removal of what is there. -/
def removing : Policy
  | .remove _, choice, _ => choice.fault = .none
  | _, _, _ => True

theorem removing_of_reliable {policy : Policy} {space : Nat → Prop}
    (sound : ∀ op choice w, policy op choice w → reliable space op choice w) (op : Op)
    (choice : Choice) (w : World) (allowed : policy op choice w) : removing op choice w := by
  cases op with
  | remove path => exact (sound _ _ _ allowed).1
  | _ => trivial

/-- The run in which nothing fails, nothing is held back and `amount` bytes are free. -/
def quietly (amount : Nat) (op : Op) (w : World) : Res op × World :=
  op.run ⟨0, .none, match op with | .statvfs _ => some amount | _ => none, []⟩ w

theorem quietly_reliable (space : Nat → Prop) (spins : Prop) (amount : Nat) (allowed : space amount)
    (op : Op) (w : World) :
    (handler (reliable space) spins).exec op w (quietly amount op w).1 (quietly amount op w).2 := by
  refine ⟨_, ?_, rfl⟩
  cases op <;> simp [reliable, allowed]

end Policy

namespace Program

variable {α : Type} {policy : Policy} {spins : Prop} {I : Interference World}

theorem sat_op {op : Op} {next : Res op → Prog α} {Q : α → World → Prop} {w : World} :
    Sat (handler policy spins) I (.call op next) Q w ↔
      ∀ w', I.rely w w' → ∀ choice, policy op choice w' →
        I.guar w' (op.run choice w').2 ∧
          Sat (handler policy spins) I (next (op.run choice w').1) Q (op.run choice w').2 := by
  constructor
  · intro holds w' drift choice allowed
    exact holds w' drift _ _ ⟨choice, allowed, rfl⟩
  · rintro holds w' drift answer w'' ⟨choice, allowed, ran⟩
    have both := holds w' drift choice allowed
    rw [ran] at both
    exact both

/-- A call that changes nothing. -/
theorem sat_read {op : Op} {answer : Choice → World → Res op} {next : Res op → Prog α}
    {Q : α → World → Prop} {w : World}
    (reads : ∀ choice w, op.run choice w = (answer choice w, w))
    (holds : ∀ w', I.rely w w' → ∀ choice, policy op choice w' →
      Sat (handler policy spins) I (next (answer choice w')) Q w') :
    Sat (handler policy spins) I (.call op next) Q w := by
  refine sat_op.mpr fun w' drift choice allowed => ?_
  rw [reads]
  exact ⟨I.guar_refl w', holds w' drift choice allowed⟩

end Program

end SyncTool
