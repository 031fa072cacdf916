import Mathlib.Algebra.Group.Int.Defs
import Mathlib.Algebra.Group.Nat.Defs
import Mathlib.Data.List.Nodup
import SyncTool.AsyncIOHandler

set_option autoImplicit false

namespace SyncTool

/-- What epoll watches a descriptor for. -/
inductive Interest where
  | input
  | output
deriving DecidableEq

/-- The tables of an `AsyncIOHandler` with both kinds of registration. A pending write is a
pointer and a size. -/
structure IoTables (ReadCallback WriteCallback : Type) where
  interest : Nat → Option Interest
  readCallbacks : Nat → Option ReadCallback
  writeCallbacks : Nat → Option WriteCallback
  writeBuffers : Nat → Option (Nat × Nat)

namespace IoTables

variable {ReadCallback WriteCallback : Type} (tables : IoTables ReadCallback WriteCallback)

def registerRead (fd : Nat) (callback : ReadCallback) : IoTables ReadCallback WriteCallback :=
  -- epoll refuses a descriptor that it watches already
  if tables.interest fd ≠ none then tables
  else
    { tables with
      interest := Function.update tables.interest fd (some .input)
      readCallbacks := Function.update tables.readCallbacks fd (some callback) }

def registerWrite (fd data size : Nat) (callback : WriteCallback) :
    IoTables ReadCallback WriteCallback :=
  if tables.interest fd ≠ none then tables
  else
    { tables with
      interest := Function.update tables.interest fd (some .output)
      writeCallbacks := Function.update tables.writeCallbacks fd (some callback)
      writeBuffers := Function.update tables.writeBuffers fd (some (data, size)) }

def remove (fd : Nat) : IoTables ReadCallback WriteCallback where
  interest := Function.update tables.interest fd none
  readCallbacks := Function.update tables.readCallbacks fd none
  writeCallbacks := Function.update tables.writeCallbacks fd none
  writeBuffers := Function.update tables.writeBuffers fd none

end IoTables

/-- The bytes that a pointer and a size denote. -/
def bytesAt (memory : Nat → UInt8) (data size : Nat) : Bytes :=
  (List.range size).map fun i => memory (data + i)

/-- `static_cast<ssize_t>` -/
def toSsize (size : Nat) : Int := (BitVec.ofNat 64 size).toInt

/-- One entry of the array that `epoll_wait` fills, and what the calls on its descriptor come to:
the blocks that `read` delivers and whether it then reports the end, and what `write` returns. -/
structure IoEvent where
  fd : Nat
  input : Option (List Bytes × Bool)
  output : Option Int

/-- The I/O thread between two events: its tables, what each descriptor was written, and the
calls of the callbacks. -/
structure IoState (ReadCallback WriteCallback : Type) where
  tables : IoTables ReadCallback WriteCallback
  written : Nat → Bytes
  readCalls : List (ReadCallback × Nat × Bytes)
  writeCalls : List (WriteCallback × Nat)

namespace IoState

variable {ReadCallback WriteCallback : Type} (s : IoState ReadCallback WriteCallback)

/-- `EPOLLIN`: read until nothing is left. -/
def handleInput (fd : Nat) (blocks : List Bytes) (closed : Bool) :
    IoState ReadCallback WriteCallback :=
  { s with
    readCalls := match s.tables.readCallbacks fd with
      | some callback => s.readCalls ++ blocks.map fun block => (callback, fd, block)
      | none => s.readCalls
    tables := if closed then s.tables.remove fd else s.tables }

/-- `EPOLLOUT`: one write of what is pending. -/
def handleOutput (memory : Nat → UInt8) (fd : Nat) (n : Int) : IoState ReadCallback WriteCallback :=
  match s.tables.writeBuffers fd, s.tables.writeCallbacks fd with
  | some (data, size), some callback =>
      if 0 < n then
        let written := Function.update s.written fd (s.written fd ++ bytesAt memory data n.toNat)
        if n = toSsize size then
          -- the callback is called before the entry goes, and leaves the tables alone
          { s with
            written := written
            writeCalls := s.writeCalls ++ [(callback, fd)]
            tables := s.tables.remove fd }
        else
          { s with
            written := written
            tables :=
              { s.tables with
                writeBuffers :=
                  Function.update s.tables.writeBuffers fd
                    (some (data + n.toNat, size - n.toNat)) } }
      else s
  | _, _ => s

def input (event : IoEvent) : IoState ReadCallback WriteCallback :=
  match event.input with
  | some (blocks, closed) => s.handleInput event.fd blocks closed
  | none => s

def output (memory : Nat → UInt8) (event : IoEvent) : IoState ReadCallback WriteCallback :=
  match event.output with
  | some n => s.handleOutput memory event.fd n
  | none => s

/-- What `ioThread` does with one event. -/
def handle (memory : Nat → UInt8) (event : IoEvent) : IoState ReadCallback WriteCallback :=
  (s.input event).output memory event

/-- Input is reported only where epoll watches for it, and `write` takes no more than
it is given. -/
def Possible (event : IoEvent) : Prop :=
  (event.input.isSome = true → s.tables.interest event.fd = some .input) ∧
    ∀ n, event.output = some n → n < 2 ^ 63 ∧
      ∀ data size, s.tables.writeBuffers event.fd = some (data, size) → n ≤ size

/-- The calls of write callbacks for one descriptor. -/
def callsOf (fd : Nat) : List (WriteCallback × Nat) := s.writeCalls.filter fun call => call.2 = fd

end IoState

/-- A call of `registerWrite` for a non-empty buffer; its size is a `size_t`. -/
structure Registration (WriteCallback : Type) where
  fd : Nat
  data : Nat
  size : Nat
  callback : WriteCallback
  nonempty : 0 < size
  fits : size < 2 ^ 64

namespace Registration

variable {ReadCallback WriteCallback : Type} (reg : Registration WriteCallback)

def buffer (memory : Nat → UInt8) : Bytes := bytesAt memory reg.data reg.size

def register (s : IoState ReadCallback WriteCallback) : IoState ReadCallback WriteCallback :=
  { s with tables := s.tables.registerWrite reg.fd reg.data reg.size reg.callback }

end Registration

section

variable (memory : Nat → UInt8) (data : Nat)

@[simp] theorem length_bytesAt (size : Nat) : (bytesAt memory data size).length = size := by
  simp [bytesAt]

theorem bytesAt_add (m n : Nat) :
    bytesAt memory data (m + n) = bytesAt memory data m ++ bytesAt memory (data + m) n := by
  simp only [bytesAt, List.range_add, List.map_append, List.map_map,
    Function.comp_def, Nat.add_assoc]

/-- A count that is an `ssize_t` is the size exactly if it is the size after the cast. -/
theorem eq_toSsize_iff {n : Int} {size : Nat} (positive : 0 < n) (signed : n < 2 ^ 63)
    (fits : size < 2 ^ 64) : n = toSsize size ↔ n = size := by
  have value : (BitVec.ofNat 64 size).toNat = size := by
    rw [BitVec.toNat_ofNat, Nat.mod_eq_of_lt fits]
  rw [toSsize, BitVec.toInt_eq_toNat_cond, value]
  split
  · exact Iff.rfl
  · omega

end

section

variable {ReadCallback WriteCallback : Type} {memory : Nat → UInt8}
  {reg : Registration WriteCallback}
variable {s : IoState ReadCallback WriteCallback} {event : IoEvent}

/-- A descriptor that the handler does not know and that nothing has been written to. -/
structure Unknown (fd : Nat) (s : IoState ReadCallback WriteCallback) : Prop where
  interest : s.tables.interest fd = none
  callback : s.tables.writeCallbacks fd = none
  buffer : s.tables.writeBuffers fd = none
  written : s.written fd = []
  calls : s.callsOf fd = []

/-- How far a registered write is. -/
inductive Delivery (memory : Nat → UInt8) (reg : Registration WriteCallback)
    (s : IoState ReadCallback WriteCallback) : Prop
  | pending (count : Nat) : count < reg.size → s.tables.interest reg.fd = some .output →
      s.tables.writeCallbacks reg.fd = some reg.callback →
      s.tables.writeBuffers reg.fd = some (reg.data + count, reg.size - count) →
      s.written reg.fd = bytesAt memory reg.data count →
      s.callsOf reg.fd = [] → Delivery memory reg s
  | done : s.tables.interest reg.fd = none → s.tables.writeCallbacks reg.fd = none →
      s.tables.writeBuffers reg.fd = none → s.written reg.fd = reg.buffer memory →
      s.callsOf reg.fd = [(reg.callback, reg.fd)] → Delivery memory reg s

/-- States that agree on one descriptor. -/
structure SameAt (fd : Nat) (s s' : IoState ReadCallback WriteCallback) : Prop where
  interest : s'.tables.interest fd = s.tables.interest fd
  callback : s'.tables.writeCallbacks fd = s.tables.writeCallbacks fd
  buffer : s'.tables.writeBuffers fd = s.tables.writeBuffers fd
  written : s'.written fd = s.written fd
  calls : s'.callsOf fd = s.callsOf fd

theorem SameAt.refl (fd : Nat) (s : IoState ReadCallback WriteCallback) : SameAt fd s s :=
  ⟨rfl, rfl, rfl, rfl, rfl⟩

theorem SameAt.trans {fd : Nat} {s₁ s₂ s₃ : IoState ReadCallback WriteCallback}
    (first : SameAt fd s₁ s₂) (second : SameAt fd s₂ s₃) : SameAt fd s₁ s₃ where
  interest := second.interest.trans first.interest
  callback := second.callback.trans first.callback
  buffer := second.buffer.trans first.buffer
  written := second.written.trans first.written
  calls := second.calls.trans first.calls

theorem Delivery.same {s' : IoState ReadCallback WriteCallback} (delivery : Delivery memory reg s)
    (same : SameAt reg.fd s s') : Delivery memory reg s' := by
  cases delivery with
  | pending count less interest callback buffer written calls =>
      exact .pending count less (same.interest.trans interest) (same.callback.trans callback)
        (same.buffer.trans buffer) (same.written.trans written) (same.calls.trans calls)
  | done interest callback buffer written calls =>
      exact .done (same.interest.trans interest) (same.callback.trans callback)
        (same.buffer.trans buffer) (same.written.trans written) (same.calls.trans calls)

theorem Unknown.same {fd : Nat} {s' : IoState ReadCallback WriteCallback} (unknown : Unknown fd s)
    (same : SameAt fd s s') : Unknown fd s' where
  interest := same.interest.trans unknown.interest
  callback := same.callback.trans unknown.callback
  buffer := same.buffer.trans unknown.buffer
  written := same.written.trans unknown.written
  calls := same.calls.trans unknown.calls

theorem register_same {fd : Nat} (other : fd ≠ reg.fd) : SameAt fd s (reg.register s) := by
  unfold Registration.register IoTables.registerWrite
  by_cases watched : s.tables.interest reg.fd ≠ none
  · rw [if_pos watched]
    exact .refl fd s
  · rw [if_neg watched]
    exact ⟨Function.update_of_ne other _ _, Function.update_of_ne other _ _,
      Function.update_of_ne other _ _, rfl, rfl⟩

theorem Unknown.register (unknown : Unknown reg.fd s) : Delivery memory reg (reg.register s) := by
  have unwatched : ¬ s.tables.interest reg.fd ≠ none := fun watched => watched unknown.interest
  unfold Registration.register IoTables.registerWrite
  rw [if_neg unwatched]
  refine .pending 0 reg.nonempty ?_ ?_ ?_ unknown.written unknown.calls
  · exact Function.update_self _ _ _
  · exact Function.update_self _ _ _
  · exact Function.update_self _ _ _

theorem handleInput_same {fd other : Nat} (different : other ≠ fd) (blocks : List Bytes)
    (closed : Bool) :
    SameAt other s (s.handleInput fd blocks closed) := by
  unfold IoState.handleInput
  cases closed with
  | false => exact ⟨rfl, rfl, rfl, rfl, rfl⟩
  | true =>
      exact ⟨Function.update_of_ne different _ _, Function.update_of_ne different _ _,
        Function.update_of_ne different _ _, rfl, rfl⟩

theorem handleOutput_same {fd other : Nat} (different : other ≠ fd) (n : Int) :
    SameAt other s (s.handleOutput memory fd n) := by
  have unequal : fd ≠ other := fun same => different same.symm
  unfold IoState.handleOutput
  split
  · split
    · dsimp only
      split
      · refine ⟨Function.update_of_ne different _ _, Function.update_of_ne different _ _,
          Function.update_of_ne different _ _, Function.update_of_ne different _ _, ?_⟩
        simp [IoState.callsOf, List.filter_append, unequal]
      · exact ⟨rfl, rfl, Function.update_of_ne different _ _, Function.update_of_ne different _ _,
          rfl⟩
    · exact .refl other s
  · exact .refl other s

/-- Nothing is pending: the event is not for a write. -/
theorem handleOutput_none {fd : Nat} (none : s.tables.writeBuffers fd = none) (n : Int) :
    s.handleOutput memory fd n = s := by
  simp only [IoState.handleOutput, none]

theorem Delivery.output {n : Int} (delivery : Delivery memory reg s) (signed : n < 2 ^ 63)
    (less : ∀ data size, s.tables.writeBuffers reg.fd = some (data, size) → n ≤ size) :
    Delivery memory reg (s.handleOutput memory reg.fd n) := by
  cases delivery with
  | done interest callback buffer written calls =>
      rw [handleOutput_none buffer]
      exact .done interest callback buffer written calls
  | pending count inside interest callback buffer written calls =>
      have atMost := less _ _ buffer
      have fits := reg.fits
      simp only [IoState.handleOutput, buffer, callback]
      by_cases moved : 0 < n
      · rw [if_pos moved]
        obtain ⟨more, rfl⟩ := Int.eq_ofNat_of_zero_le (Int.le_of_lt moved)
        have now : s.written reg.fd ++ bytesAt memory (reg.data + count) more =
            bytesAt memory reg.data (count + more) := by
          rw [written, bytesAt_add]
        by_cases whole : (more : Int) = toSsize (reg.size - count)
        · rw [if_pos whole]
          rw [eq_toSsize_iff moved signed (by omega)] at whole
          refine .done ?_ ?_ ?_ ?_ ?_
          · exact Function.update_self _ _ _
          · exact Function.update_self _ _ _
          · exact Function.update_self _ _ _
          · show Function.update s.written reg.fd _ reg.fd = _
            have all : count + more = reg.size := by omega
            rw [Function.update_self, Int.toNat_natCast, now, all, Registration.buffer]
          · have none : s.writeCalls.filter (fun call => call.2 = reg.fd) = [] := calls
            simp [IoState.callsOf, List.filter_append, none]
        · rw [if_neg whole]
          rw [eq_toSsize_iff moved signed (by omega)] at whole
          refine .pending (count + more) (by omega) interest callback ?_ ?_ calls
          · show Function.update s.tables.writeBuffers reg.fd _ reg.fd = _
            rw [Function.update_self, Int.toNat_natCast, Nat.add_assoc, Nat.sub_sub]
          · show Function.update s.written reg.fd _ reg.fd = _
            rw [Function.update_self, Int.toNat_natCast, now]
      · rw [if_neg moved]
        exact .pending count inside interest callback buffer written calls

theorem handle_same {fd : Nat} (different : fd ≠ event.fd) :
    SameAt fd s (s.handle memory event) := by
  have input : SameAt fd s (s.input event) := by
    unfold IoState.input
    split
    · exact handleInput_same different _ _
    · exact .refl fd s
  apply input.trans
  unfold IoState.handle IoState.output
  split
  · exact handleOutput_same different _
  · exact .refl fd _

/-- A descriptor that is registered for writing, or not at all, is never reported as readable. -/
theorem Delivery.silent (delivery : Delivery memory reg s) (possible : s.Possible event)
    (here : event.fd = reg.fd) : event.input = none := by
  cases reported : event.input with
  | none => rfl
  | some blocks =>
      have reading := possible.1 (by rw [reported]; rfl)
      rw [here] at reading
      cases delivery with
      | pending _ _ interest => cases interest.symm.trans reading
      | done interest => cases interest.symm.trans reading

theorem Delivery.handle (delivery : Delivery memory reg s) (possible : s.Possible event) :
    Delivery memory reg (s.handle memory event) := by
  by_cases here : event.fd = reg.fd
  · simp only [IoState.handle, IoState.input, delivery.silent possible here, IoState.output]
    cases returned : event.output with
    | none => exact delivery
    | some n =>
        obtain ⟨signed, less⟩ := possible.2 n returned
        rw [here] at less
        simp only [here]
        exact delivery.output signed less
  · have different : reg.fd ≠ event.fd := fun same => here same.symm
    exact delivery.same (handle_same different)

/-- The handling of events, one after the other. -/
def Handles (memory : Nat → UInt8) : IoState ReadCallback WriteCallback →
    IoState ReadCallback WriteCallback → Prop :=
  Relation.ReflTransGen fun s s' => ∃ event, s.Possible event ∧ s' = s.handle memory event

theorem Delivery.run {s' : IoState ReadCallback WriteCallback} (delivery : Delivery memory reg s)
    (run : Handles memory s s') : Delivery memory reg s' := by
  induction run with
  | refl => exact delivery
  | tail _ one ih =>
      obtain ⟨event, possible, rfl⟩ := one
      exact ih.handle possible

/-- Every registration for a descriptor of its own is pending at first. -/
theorem delivery_registerAll {regs : List (Registration WriteCallback)}
    (distinct : (regs.map Registration.fd).Nodup)
    (unknown : ∀ reg ∈ regs, Unknown reg.fd s) : ∀ reg ∈ regs,
      Delivery memory reg (regs.foldl (fun s reg => reg.register s) s) := by
  suffices general : ∀ done : List (Registration WriteCallback),
      (∀ reg ∈ done, reg.fd ∉ regs.map Registration.fd ∧ Delivery memory reg s) →
        ∀ reg, reg ∈ done ∨ reg ∈ regs →
          Delivery memory reg (regs.foldl (fun s reg => reg.register s) s) by
    intro reg member
    exact general [] (fun reg impossible => absurd impossible List.not_mem_nil) reg (.inr member)
  induction regs generalizing s with
  | nil =>
      intro done all reg member
      exact (all reg (member.resolve_right List.not_mem_nil)).2
  | cons first rest ih =>
      intro done all reg member
      rw [List.map_cons, List.nodup_cons] at distinct
      rw [List.foldl_cons]
      refine ih distinct.2 ?_ (first :: done) ?_ reg ?_
      · intro later inRest
        have other : later.fd ≠ first.fd := fun same =>
          distinct.1 (same ▸ List.mem_map_of_mem inRest)
        exact (unknown later (List.mem_cons_of_mem _ inRest)).same (register_same other)
      · intro earlier inDone
        rcases List.mem_cons.mp inDone with rfl | inDone
        · exact ⟨distinct.1, (unknown earlier List.mem_cons_self).register⟩
        · have apart := (all earlier inDone).1
          rw [List.map_cons, List.mem_cons, not_or] at apart
          exact ⟨apart.2, (all earlier inDone).2.same (register_same apart.1)⟩
      · rw [List.mem_cons] at member ⊢
        tauto

/-- What is delivered of a registered write: the bytes written are a front part of its buffer,
the pending pair denotes the rest, and the callback was called once the entry is gone with all
bytes written. -/
structure DeliveredOnce (memory : Nat → UInt8) (reg : Registration WriteCallback)
    (s : IoState ReadCallback WriteCallback) : Prop where
  front : s.written reg.fd <+: reg.buffer memory
  rest : ∀ data size, s.tables.writeBuffers reg.fd = some (data, size) →
    s.written reg.fd ++ bytesAt memory data size = reg.buffer memory
  pending : s.written reg.fd ≠ reg.buffer memory → s.tables.writeBuffers reg.fd ≠ none ∧
    s.tables.writeCallbacks reg.fd = some reg.callback ∧ s.callsOf reg.fd = []
  finished : s.written reg.fd = reg.buffer memory → s.tables.writeBuffers reg.fd = none ∧
    s.tables.writeCallbacks reg.fd = none ∧ s.tables.interest reg.fd = none ∧
      s.callsOf reg.fd = [(reg.callback, reg.fd)]

theorem Delivery.once (delivery : Delivery memory reg s) : DeliveredOnce memory reg s := by
  cases delivery with
  | pending count inside interest callback buffer written calls =>
      have whole : count + (reg.size - count) = reg.size := by omega
      have parts : s.written reg.fd ++ bytesAt memory (reg.data + count) (reg.size - count) =
          reg.buffer memory := by
        rw [written, ← bytesAt_add, whole, Registration.buffer]
      have short : s.written reg.fd ≠ reg.buffer memory := by
        intro same
        have lengths := congrArg List.length same
        rw [written, length_bytesAt, Registration.buffer, length_bytesAt] at lengths
        omega
      refine ⟨⟨_, parts⟩, ?_, ?_, fun all => absurd all short⟩
      · intro data size same
        cases buffer.symm.trans same
        exact parts
      · intro _
        exact ⟨by simp [buffer], callback, calls⟩
  | done interest callback buffer written calls =>
      refine ⟨by rw [written], ?_, fun short => absurd written short, fun _ => ?_⟩
      · intro data size same
        cases buffer.symm.trans same
      · exact ⟨buffer, callback, interest, calls⟩

/-- Whatever events come in whatever order, every registered write is delivered exactly once. -/
theorem ioThread_delivers {regs : List (Registration WriteCallback)}
    {s' : IoState ReadCallback WriteCallback} (distinct : (regs.map Registration.fd).Nodup)
    (unknown : ∀ reg ∈ regs, Unknown reg.fd s)
    (run : Handles memory (regs.foldl (fun s reg => reg.register s) s) s') :
    ∀ reg ∈ regs, DeliveredOnce memory reg s' := by
  intro reg member
  exact ((delivery_registerAll distinct unknown reg member).run run).once

/-- What `AsyncIOHandler` keeps of the tables: no pointers, and nothing of what is read. -/
def IoTables.view (memory : Nat → UInt8) (tables : IoTables ReadCallback WriteCallback) :
    AsyncIOHandler WriteCallback where
  interest := Option.isSome ∘ tables.interest
  writeCallbacks := tables.writeCallbacks
  writeBuffers := Option.map (fun pair => bytesAt memory pair.1 pair.2) ∘ tables.writeBuffers

variable {tables : IoTables ReadCallback WriteCallback} {fd : Nat}

theorem view_remove : (tables.remove fd).view memory = (tables.view memory).remove fd := by
  simp only [IoTables.view, IoTables.remove, AsyncIOHandler.remove, Function.comp_update,
    Option.isSome_none, Option.map_none]

/-- A registration that epoll accepts is one of the bytes. -/
theorem view_registerWrite (unwatched : tables.interest reg.fd = none) :
    ((tables.view memory).add reg.fd).map
        (fun handler => handler.store reg.fd (reg.buffer memory) reg.callback) =
      some ((tables.registerWrite reg.fd reg.data reg.size reg.callback).view memory) := by
  have free : (tables.view memory).interest reg.fd = false := by
    simp [IoTables.view, unwatched]
  have accepted : ¬ tables.interest reg.fd ≠ none := fun watched => watched unwatched
  rw [AsyncIOHandler.add, free, IoTables.registerWrite, if_neg accepted]
  simp only [Bool.false_eq_true, ↓reduceIte, Option.map_some, IoTables.view, AsyncIOHandler.store,
    Function.comp_update, Option.isSome_some, Registration.buffer]

/-- A write-ready event on the pointers is the one on the bytes, and the removal if that finishes
the buffer. -/
theorem view_handleOutput {n : Int} (signed : n < 2 ^ 63)
    (less : ∀ data size, s.tables.writeBuffers fd = some (data, size) → n ≤ size ∧ size < 2 ^ 64)
    {data : Bytes} {handler : AsyncIOHandler WriteCallback} {finished : Option WriteCallback}
    (ready : (s.tables.view memory).writeReady fd n.toNat = (data, handler, finished)) :
    (s.handleOutput memory fd n).written fd = s.written fd ++ data ∧
      (s.handleOutput memory fd n).writeCalls =
        s.writeCalls ++ finished.toList.map (fun callback => (callback, fd)) ∧
      (s.handleOutput memory fd n).tables.view memory =
        finished.elim handler fun _ => handler.remove fd := by
  cases buffer : s.tables.writeBuffers fd with
  | none =>
      rw [handleOutput_none buffer]
      simp only [AsyncIOHandler.writeReady, IoTables.view, Function.comp_apply, buffer,
        Option.map_none, Prod.mk.injEq] at ready
      obtain ⟨rfl, rfl, rfl⟩ := ready
      simp [IoTables.view]
  | some pair =>
      obtain ⟨pointer, size⟩ := pair
      obtain ⟨atMost, fits⟩ := less pointer size buffer
      cases callback : s.tables.writeCallbacks fd with
      | none =>
          simp only [AsyncIOHandler.writeReady, IoTables.view, Function.comp_apply, buffer,
            callback, Option.map_some, Prod.mk.injEq] at ready
          obtain ⟨rfl, rfl, rfl⟩ := ready
          simp [IoState.handleOutput, buffer, callback, IoTables.view]
      | some call =>
          simp only [AsyncIOHandler.writeReady, IoTables.view, Function.comp_apply, buffer,
            callback, Option.map_some, length_bytesAt] at ready
          simp only [IoState.handleOutput, buffer, callback]
          by_cases moved : 0 < n
          · obtain ⟨more, rfl⟩ := Int.eq_ofNat_of_zero_le (Int.le_of_lt moved)
            rw [Int.toNat_natCast, if_pos (by omega)] at ready
            rw [if_pos moved, Int.toNat_natCast]
            by_cases whole : more = size
            · have cast : (more : Int) = toSsize size :=
                (eq_toSsize_iff moved signed fits).mpr (by omega)
              rw [if_pos whole] at ready
              obtain ⟨rfl, rfl, rfl⟩ := Prod.mk.inj ready |>.imp_right Prod.mk.inj
              rw [if_pos cast, whole]
              exact ⟨Function.update_self _ _ _, rfl, view_remove⟩
            · have cast : (more : Int) ≠ toSsize size := by
                rw [ne_eq, eq_toSsize_iff moved signed fits]
                omega
              have parts : bytesAt memory pointer size =
                  bytesAt memory pointer more ++ bytesAt memory (pointer + more) (size - more) := by
                rw [← bytesAt_add, Nat.add_sub_cancel' (by omega)]
              have length := length_bytesAt memory pointer more
              rw [if_neg whole, parts, List.take_left' length, List.drop_left' length] at ready
              obtain ⟨rfl, rfl, rfl⟩ := Prod.mk.inj ready |>.imp_right Prod.mk.inj
              rw [if_neg cast]
              refine ⟨Function.update_self _ _ _, by simp, ?_⟩
              simp only [IoTables.view, Function.comp_update, Option.map_some, Option.elim_none]
          · rw [if_neg (by omega)] at ready
            obtain ⟨rfl, rfl, rfl⟩ := Prod.mk.inj ready |>.imp_right Prod.mk.inj
            rw [if_neg moved]
            simp [IoTables.view]

end

/-- `ab` for descriptor 7 and `c` for descriptor 8. -/
def pairMemory (address : Nat) : UInt8 := UInt8.ofNat (97 + address)

def abWrite : Registration Unit := ⟨7, 0, 2, (), Nat.two_pos, by decide⟩
def cWrite : Registration Unit := ⟨8, 2, 1, (), Nat.one_pos, by decide⟩

def idle : IoState Unit Unit :=
  ⟨⟨fun _ => none, fun _ => none, fun _ => none, fun _ => none⟩, fun _ => [], [], []⟩

theorem possible_write {s : IoState Unit Unit} {fd data size : Nat} {n : Int} (signed : n < 2 ^ 63)
    (buffer : s.tables.writeBuffers fd = some (data, size)) (less : n ≤ size) :
    s.Possible ⟨fd, none, some n⟩ := by
  refine ⟨fun impossible => absurd impossible Bool.false_ne_true, fun n' same => ?_⟩
  obtain rfl : n = n' := Option.some.inj same
  refine ⟨signed, fun data' size' again => ?_⟩
  cases buffer.symm.trans again
  exact less

/-- Descriptor 7 takes one byte, 8 its only one, and 7 is not ready again yet. -/
theorem ioThread_delivers_pair :
    DeliveredOnce pairMemory abWrite
      ((((cWrite.register (abWrite.register idle)).handle pairMemory ⟨7, none, some 1⟩).handle
        pairMemory ⟨8, none, some 1⟩).handle pairMemory ⟨7, none, some (-1)⟩) := by
  refine @ioThread_delivers _ _ pairMemory idle [abWrite, cWrite] _
    (by decide) ?_ ?_ _ List.mem_cons_self
  · intro reg _
    exact ⟨rfl, rfl, rfl, rfl, rfl⟩
  · refine .tail (.tail (.tail .refl ⟨_, ?_, rfl⟩) ⟨_, ?_, rfl⟩) ⟨_, ?_, rfl⟩
    · exact @possible_write _ _ 0 2 _ (by decide) (by decide +kernel) (by decide)
    · exact @possible_write _ _ 2 1 _ (by decide) (by decide +kernel) (by decide)
    · exact @possible_write _ _ 1 1 _ (by decide) (by decide +kernel) (by decide)

end SyncTool
