import Mathlib.Algebra.Order.BigOperators.Group.List
import Mathlib.Algebra.Order.Group.Nat
import SyncTool.WireFormat

set_option autoImplicit false

namespace SyncTool.WireFormat

variable {wire : WireFormat} {M S V : Type}

section

variable (wire) (number : Nat) (tag : UInt8)

/-- A text, that is left out when it is empty. -/
def FieldOf.string (get : M → List UInt8) (set : M → List UInt8 → M) : FieldOf M where
  number := number
  tag := tag
  read := fun m bytes => (readSized wire bytes).bind fun next =>
    if wire.verifyUTF8 next.1 then some (set m next.1, next.2) else none
  write := fun m =>
    if get m = [] then [] else wire.writeTag number 2 ++ writeSized wire (get m).length (get m)
  size := fun m =>
    if get m = [] then 0 else 1 + (wire.varintSize (UInt64.ofNat (get m).length) + (get m).length)
  merge := fun m source => set m (if get source = [] then get m else get source)
  readable := fun m => wire.verifyUTF8 (get m)
  read_shorter := by
    intro m m' bytes rest read
    rw [Option.bind_eq_some_iff] at read
    obtain ⟨⟨text, behind⟩, sized, kept⟩ := read
    have shorter := readSized_shorter sized
    simp only at kept
    split at kept
    · rw [Option.some.injEq, Prod.mk.injEq] at kept
      rw [← kept.2]
      omega
    · cases kept

/-- A number or a flag, that is left out when it is zero. -/
def FieldOf.scalar [DecidableEq V] (zero : V) (encode : V → UInt64)
    (decode : List UInt8 → Option (V × List UInt8))
    (shorter : ∀ (bytes rest : List UInt8) (value : V),
      decode bytes = some (value, rest) → rest.length < bytes.length)
    (get : M → V) (set : M → V → M) : FieldOf M where
  number := number
  tag := tag
  read := fun m bytes => (decode bytes).map fun (value, rest) => (set m value, rest)
  write := fun m =>
    if get m = zero then [] else wire.writeTag number 0 ++ wire.writeVarint (encode (get m))
  size := fun m => if get m = zero then 0 else 1 + wire.varintSize (encode (get m))
  merge := fun m source => set m (if get source = zero then get m else get source)
  readable := fun _ => true
  read_shorter := by
    intro m m' bytes rest read
    rw [Option.map_eq_some_iff] at read
    obtain ⟨⟨value, behind⟩, decoded, same⟩ := read
    have less := shorter _ _ _ decoded
    rw [Prod.mk.injEq] at same
    rw [← same.2]
    omega

def FieldOf.varint64 [DecidableEq V] (zero : V) (encode : V → UInt64) (decode : UInt64 → V)
    (get : M → V) (set : M → V → M) : FieldOf M :=
  .scalar wire number tag zero encode
    (fun bytes => (wire.readVarint64 bytes).map fun (value, rest) => (decode value, rest))
    (by
      intro bytes rest value read
      rw [Option.map_eq_some_iff] at read
      obtain ⟨⟨word, behind⟩, taken, same⟩ := read
      rw [Prod.mk.injEq] at same
      rw [← same.2]
      exact wire.readVarint64_shorter taken) get set

def FieldOf.varint32 [DecidableEq V] (zero : V) (encode : V → UInt64) (decode : UInt32 → V)
    (get : M → V) (set : M → V → M) : FieldOf M :=
  .scalar wire number tag zero encode
    (fun bytes => (wire.readVarint32 bytes).map fun (value, rest) => (decode value, rest))
    (by
      intro bytes rest value read
      rw [Option.map_eq_some_iff] at read
      obtain ⟨⟨word, behind⟩, taken, same⟩ := read
      rw [Prod.mk.injEq] at same
      rw [← same.2]
      exact wire.readVarint32_shorter taken) get set

def FieldOf.bool (get : M → Bool) (set : M → Bool → M) : FieldOf M where
  __ := FieldOf.varint64 wire number tag false Bool.toUInt64 (fun word => word != 0) get set
  size := fun m => if get m = false then 0 else 1 + 1

def FieldOf.int64 (get : M → Int64) (set : M → Int64 → M) : FieldOf M :=
  .varint64 wire number tag 0 Int64.toUInt64 UInt64.toInt64 get set

def FieldOf.uint32 (get : M → UInt32) (set : M → UInt32 → M) : FieldOf M :=
  .varint32 wire number tag 0 UInt32.toUInt64 id get set

/-- Negative numbers are written with all their 64 bits. -/
def FieldOf.int32 (get : M → Int32) (set : M → Int32 → M) : FieldOf M :=
  .varint32 wire number tag 0 (fun value => value.toInt64.toUInt64) UInt32.toInt32 get set

/-- The number of an enumerator, whether or not there is one of that number. -/
def FieldOf.enum (get : M → Int32) (set : M → Int32 → M) : FieldOf M :=
  .varint64 wire number tag 0 (fun value => value.toInt64.toUInt64)
    (fun word => word.toUInt32.toInt32) get set

/-- A message in a message. -/
def FieldOf.message (kind : MessageType S) (get : M → Option S) (set : M → S → M) : FieldOf M where
  number := number
  tag := tag
  read := fun m bytes => (parseMessage wire kind ((get m).getD kind.empty) bytes).map
    fun (s, rest) => (set m s, rest)
  write := fun m =>
    match get m with
    | none => []
    | some s => wire.writeTag number 2 ++ writeMessage wire kind s
  size := fun m =>
    match get m with
    | none => 0
    | some s => 1 + messageSize wire kind s
  merge := fun m source =>
    match get source with
    | none => m
    | some s => set m (kind.mergeFrom ((get m).getD kind.empty) s)
  readable := fun m => (get m).all kind.readable
  read_shorter := by
    intro m m' bytes rest read
    rw [Option.map_eq_some_iff] at read
    obtain ⟨⟨s, behind⟩, parsed, same⟩ := read
    have less := parseMessage_shorter parsed
    rw [Prod.mk.injEq] at same
    rw [← same.2]
    omega

/-- Messages one behind the other: the next is read without a look at the other fields when its tag
is the next byte. -/
def readEach (kind : MessageType S) : Nat → List S → List UInt8 → Option (List S × List UInt8)
  | 0, _, _ => none
  | fuel + 1, read, bytes =>
      (parseMessage wire kind kind.empty bytes).bind fun (s, rest) =>
        match rest with
        | [] => some (read ++ [s], [])
        | byte :: rest =>
            if byte = tag then readEach kind fuel (read ++ [s]) rest
            else some (read ++ [s], byte :: rest)

variable {wire number tag}

theorem readEach_shorter {kind : MessageType S} : ∀ {fuel : Nat} {read all : List S}
    {bytes rest : List UInt8}, readEach wire tag kind fuel read bytes = some (all, rest) →
    rest.length ≤ bytes.length := by
  intro fuel
  induction fuel with
  | zero =>
      intro read all bytes rest each
      cases each
  | succ fuel ih =>
      intro read all bytes rest each
      rw [readEach, Option.bind_eq_some_iff] at each
      obtain ⟨⟨s, behind⟩, parsed, on⟩ := each
      have shorter := parseMessage_shorter parsed
      cases behind with
      | nil =>
          simp only [Option.some.injEq, Prod.mk.injEq] at on
          rw [← on.2, List.length_nil]
          omega
      | cons byte behind =>
          simp only at on
          rw [List.length_cons] at shorter
          split at on
          · have less := ih on
            omega
          · rw [Option.some.injEq, Prod.mk.injEq] at on
            rw [← on.2, List.length_cons]
            omega

theorem readEach_fuel {kind : MessageType S} :
    ∀ {fuel more : Nat} {read : List S} {bytes : List UInt8},
    bytes.length ≤ fuel → bytes.length ≤ more →
    readEach wire tag kind fuel read bytes = readEach wire tag kind more read bytes := by
  have nothing : ∀ (fuel : Nat) (read : List S), readEach wire tag kind fuel read [] = none := by
    intro fuel read
    cases fuel with
    | zero => rfl
    | succ fuel =>
        rw [readEach, Option.bind_eq_none_iff]
        intro next parsed
        have shorter : next.2.length < ([] : List UInt8).length := parseMessage_shorter parsed
        cases shorter
  intro fuel
  induction fuel with
  | zero =>
      intro more read bytes enough _
      have none_left : bytes = [] := List.length_eq_zero_iff.mp (by omega)
      rw [none_left, nothing, nothing]
  | succ fuel ih =>
      intro more read bytes enough plenty
      cases more with
      | zero =>
          have none_left : bytes = [] := List.length_eq_zero_iff.mp (by omega)
          rw [none_left, nothing, nothing]
      | succ more =>
          rw [readEach, readEach]
          apply Option.bind_congr
          intro next parsed
          have shorter : next.2.length < bytes.length := parseMessage_shorter parsed
          obtain ⟨s, rest⟩ := next
          cases rest with
          | nil => rfl
          | cons byte rest =>
              rw [List.length_cons] at shorter
              have same : readEach wire tag kind fuel (read ++ [s]) rest =
                  readEach wire tag kind more (read ++ [s]) rest := ih (by omega) (by omega)
              simp only [same]

variable (wire number tag)

/-- Any number of messages. -/
def FieldOf.repeated (kind : MessageType S) (get : M → List S) (set : M → List S → M) :
    FieldOf M where
  number := number
  tag := tag
  read := fun m bytes => (readEach wire tag kind bytes.length (get m) bytes).map
    fun (all, rest) => (set m all, rest)
  write := fun m => (get m).flatMap fun s => wire.writeTag number 2 ++ writeMessage wire kind s
  size := fun m => (get m).length + ((get m).map (messageSize wire kind)).sum
  merge := fun m source => set m (get m ++ get source)
  readable := fun m => (get m).all kind.readable
  read_shorter := by
    intro m m' bytes rest read
    rw [Option.map_eq_some_iff] at read
    obtain ⟨⟨all, behind⟩, each, same⟩ := read
    rw [Prod.mk.injEq] at same
    rw [← same.2]
    exact readEach_shorter each

end

theorem FieldOf.string_fits {number : Nat} {tag : UInt8} {get : M → List UInt8}
    {set : M → List UInt8 → M} {source : M} {most : Nat}
    (small : (FieldOf.string wire number tag get set).size source ≤ most) :
    (get source).length ≤ most := by
  simp only [FieldOf.string] at small
  split at small
  · next empty =>
      rw [empty, List.length_nil]
      omega
  · omega

theorem FieldOf.message_fits {number : Nat} {tag : UInt8} {kind : MessageType S}
    {get : M → Option S} {set : M → S → M} {source : M} {most : Nat}
    (small : (FieldOf.message wire number tag kind get set).size source ≤ most) {s : S}
    (held : get source = some s) : kind.byteSizeLong s ≤ most := by
  simp only [FieldOf.message, held, messageSize] at small
  omega

theorem FieldOf.repeated_fits {number : Nat} {tag : UInt8} {kind : MessageType S} {get : M → List S}
    {set : M → List S → M} {source : M} {most : Nat}
    (small : (FieldOf.repeated wire number tag kind get set).size source ≤ most) {s : S}
    (held : s ∈ get source) : kind.byteSizeLong s ≤ most := by
  simp only [FieldOf.repeated] at small
  have part := List.single_le_sum (fun size _ => Nat.zero_le size) _
    (List.mem_map_of_mem (f := messageSize wire kind) held)
  rw [messageSize] at part
  omega

section

variable {number : Nat} {tag : UInt8} {layout : Layout wire M} {source : M}

theorem Lawful.string_carries (lawful : wire.Lawful) {get : M → List UInt8}
    {set : M → List UInt8 → M}
    (placed : (FieldOf.string wire number tag get set).Placed layout.fields 2)
    (kept : ∀ m, set m (get m) = m) (fits : (get source).length ≤ wire.limit) :
    (FieldOf.string wire number tag get set).Carries layout source := by
  have tag_size : (wire.writeTag number 2).length = 1 := lawful.length_writeTag placed.small
  constructor
  · by_cases empty : get source = []
    · simp only [FieldOf.string, empty, if_true, List.length_nil]
    · simp only [FieldOf.string, empty, if_false, List.length_append, tag_size,
        writeSized, lawful.length_writeVarint]
  · intro m rest
    by_cases empty : get source = []
    · simp only [FieldOf.string, empty, if_true, List.nil_append, kept, lawful.verifyUTF8_nil]
    · have tagged := lawful.parse_tagged (.string wire number tag get set) 2 placed (by decide) m
        (writeSized wire (get source).length (get source) ++ rest)
      simp only [FieldOf.string, empty, if_false, List.append_assoc] at tagged ⊢
      rw [tagged, lawful.readSized_writeSized fits]
      simp only [Option.bind_some]
      cases wire.verifyUTF8 (get source) <;> rfl

theorem Lawful.scalar_carries (lawful : wire.Lawful) [DecidableEq V]
    {zero : V} {encode : V → UInt64} {decode : List UInt8 → Option (V × List UInt8)}
    {shorter : ∀ (bytes rest : List UInt8) (value : V),
      decode bytes = some (value, rest) → rest.length < bytes.length}
    {get : M → V} {set : M → V → M}
    (placed : (FieldOf.scalar wire number tag zero encode decode shorter get set).Placed
      layout.fields 0)
    (kept : ∀ m, set m (get m) = m)
    (inverse : ∀ value rest,
      decode (wire.writeVarint (encode value) ++ rest) = some (value, rest)) :
    (FieldOf.scalar wire number tag zero encode decode shorter get set).Carries layout source := by
  have tag_size : (wire.writeTag number 0).length = 1 := lawful.length_writeTag placed.small
  constructor
  · by_cases empty : get source = zero
    · simp only [FieldOf.scalar, empty, if_true, List.length_nil]
    · simp only [FieldOf.scalar, empty, if_false, List.length_append,
        tag_size, lawful.length_writeVarint]
  · intro m rest
    by_cases empty : get source = zero
    · simp only [FieldOf.scalar, empty, if_true, List.nil_append, kept]
    · have tagged := lawful.parse_tagged
        (.scalar wire number tag zero encode decode shorter get set) 0
        placed (by decide) m (wire.writeVarint (encode (get source)) ++ rest)
      simp only [FieldOf.scalar, empty, if_false, List.append_assoc] at tagged ⊢
      rw [tagged, inverse]
      simp only [Option.map_some, Option.bind_some, if_true]

section

variable {get : M → Bool} {set : M → Bool → M}

theorem Lawful.bool_carries (lawful : wire.Lawful)
    (placed : (FieldOf.bool wire number tag get set).Placed layout.fields 0)
    (kept : ∀ m, set m (get m) = m) :
    (FieldOf.bool wire number tag get set).Carries layout source := by
  have tag_size : (wire.writeTag number 0).length = 1 := lawful.length_writeTag placed.small
  constructor
  · have one : wire.writeVarint true.toUInt64 = [1] := lawful.writeVarint_small 1 (by decide)
    cases held : get source with
    | false => simp only [FieldOf.bool, FieldOf.varint64, FieldOf.scalar, held, if_true,
        List.length_nil]
    | true =>
        simp only [FieldOf.bool, FieldOf.varint64, FieldOf.scalar, held, Bool.true_eq_false,
          if_false, List.length_append, tag_size,
          one, List.length_singleton]
  · intro m rest
    cases held : get source with
    | false =>
        simp only [FieldOf.bool, FieldOf.varint64, FieldOf.scalar, held, if_true,
          List.nil_append, kept]
    | true =>
        have tagged := lawful.parse_tagged (.bool wire number tag get set) 0 placed
          (by decide) m (wire.writeVarint true.toUInt64 ++ rest)
        simp only [FieldOf.bool, FieldOf.varint64, FieldOf.scalar, held, Bool.true_eq_false,
          if_false, List.append_assoc] at tagged ⊢
        rw [tagged, lawful.readVarint64_writeVarint]
        simp only [Option.map_some, Option.bind_some]
        rfl

end

theorem Lawful.varint64_carries (lawful : wire.Lawful) [DecidableEq V]
    {zero : V} {encode : V → UInt64} {decode : UInt64 → V} {get : M → V} {set : M → V → M}
    (placed : (FieldOf.varint64 wire number tag zero encode decode get set).Placed layout.fields 0)
    (kept : ∀ m, set m (get m) = m)
    (inverse : ∀ value, decode (encode value) = value) :
    (FieldOf.varint64 wire number tag zero encode decode get set).Carries layout source := by
  refine lawful.scalar_carries placed kept ?_
  intro value rest
  simp only [lawful.readVarint64_writeVarint, Option.map_some, inverse]

theorem Lawful.varint32_carries (lawful : wire.Lawful) [DecidableEq V]
    {zero : V} {encode : V → UInt64} {decode : UInt32 → V} {get : M → V} {set : M → V → M}
    (placed : (FieldOf.varint32 wire number tag zero encode decode get set).Placed layout.fields 0)
    (kept : ∀ m, set m (get m) = m)
    (inverse : ∀ value, decode (encode value).toUInt32 = value) :
    (FieldOf.varint32 wire number tag zero encode decode get set).Carries layout source := by
  refine lawful.scalar_carries placed kept ?_
  intro value rest
  simp only [lawful.readVarint32_writeVarint, Option.map_some, inverse]

theorem toInt32_extended (value : Int32) : value.toInt64.toUInt64.toUInt32.toInt32 = value := by
  have back := congrArg Int32.toBitVec (Int32.toInt32_toInt64 value)
  rw [Int64.toBitVec_toInt32, BitVec.signExtend_eq_setWidth_of_le _ (by decide)] at back
  exact Int32.toBitVec_inj.mp back

theorem Lawful.int64_carries (lawful : wire.Lawful) {get : M → Int64} {set : M → Int64 → M}
    (placed : (FieldOf.int64 wire number tag get set).Placed layout.fields 0)
    (kept : ∀ m, set m (get m) = m) :
    (FieldOf.int64 wire number tag get set).Carries layout source :=
  lawful.varint64_carries placed kept Int64.toInt64_toUInt64

theorem Lawful.uint32_carries (lawful : wire.Lawful) {get : M → UInt32} {set : M → UInt32 → M}
    (placed : (FieldOf.uint32 wire number tag get set).Placed layout.fields 0)
    (kept : ∀ m, set m (get m) = m) :
    (FieldOf.uint32 wire number tag get set).Carries layout source :=
  lawful.varint32_carries placed kept UInt32.toUInt32_toUInt64

theorem Lawful.int32_carries (lawful : wire.Lawful) {get : M → Int32} {set : M → Int32 → M}
    (placed : (FieldOf.int32 wire number tag get set).Placed layout.fields 0)
    (kept : ∀ m, set m (get m) = m) :
    (FieldOf.int32 wire number tag get set).Carries layout source :=
  lawful.varint32_carries placed kept toInt32_extended

theorem Lawful.enum_carries (lawful : wire.Lawful) {get : M → Int32} {set : M → Int32 → M}
    (placed : (FieldOf.enum wire number tag get set).Placed layout.fields 0)
    (kept : ∀ m, set m (get m) = m) :
    (FieldOf.enum wire number tag get set).Carries layout source :=
  lawful.varint64_carries placed kept toInt32_extended

theorem Lawful.message_carries (lawful : wire.Lawful) {kind : MessageType S} {get : M → Option S}
    {set : M → S → M}
    (placed : (FieldOf.message wire number tag kind get set).Placed layout.fields 2)
    (carries : ∀ s, get source = some s → kind.Carries s ∧ kind.byteSizeLong s ≤ wire.limit) :
    (FieldOf.message wire number tag kind get set).Carries layout source := by
  have tag_size : (wire.writeTag number 2).length = 1 := lawful.length_writeTag placed.small
  constructor
  · cases held : get source with
    | none => simp only [FieldOf.message, held, List.length_nil]
    | some s =>
        simp only [FieldOf.message, held, List.length_append, tag_size,
          lawful.length_writeMessage (carries s held).1]
  · intro m rest
    cases held : get source with
    | none => simp only [FieldOf.message, held, List.nil_append, Option.all_none, if_true]
    | some s =>
        obtain ⟨inner, fits⟩ := carries s held
        have tagged := lawful.parse_tagged (.message wire number tag kind get set) 2 placed
          (by decide) m (writeMessage wire kind s ++ rest)
        simp only [FieldOf.message, held, List.append_assoc] at tagged ⊢
        rw [tagged, lawful.parseMessage_writeMessage inner fits, Option.all_some]
        cases kind.readable s <;> rfl

/-- The first of the messages of a row is read, and then the others as fields of their own. -/
theorem Lawful.parse_repeated (lawful : wire.Lawful) {kind : MessageType S} {get : M → List S}
    {set : M → List S → M}
    (placed : (FieldOf.repeated wire number tag kind get set).Placed layout.fields 2)
    (got : ∀ m all, get (set m all) = all)
    (replaced : ∀ m all more, set (set m all) more = set m more) {s : S} (carries : kind.Carries s)
    (fits : kind.byteSizeLong s ≤ wire.limit) (m : M) (rest : List UInt8) :
    wire.parse layout m (wire.writeTag number 2 ++ (writeMessage wire kind s ++ rest)) =
      if kind.readable s then wire.parse layout (set m (get m ++ [s])) rest else none := by
  have behind := lawful.parse_tagged (.repeated wire number tag kind get set) 2 placed (by decide)
  have tagged : tag.toNat = 8 * number + 2 := placed.tagged
  have small : 8 * number + 2 < 128 := placed.small
  have one_tag : wire.writeTag number 2 = [tag] := by
    have value : (UInt32.ofNat (8 * number + 2)).toUInt64.toNat < 128 := by
      rw [UInt32.toNat_toUInt64, UInt32.toNat_ofNat']
      omega
    rw [writeTag, lawful.writeVarint_small _ value]
    congr 1
    apply UInt8.toNat_inj.mp
    rw [tagged, UInt64.toNat_toUInt8, UInt32.toNat_toUInt64, UInt32.toNat_ofNat']
    omega
  have first := lawful.parseMessage_writeMessage carries fits kind.empty rest
  have longer : (writeMessage wire kind s ++ rest).length ≠ 0 := by
    intro nothing
    have none_left := List.length_eq_zero_iff.mp nothing
    have written : writeMessage wire kind s = [] := (List.append_eq_nil_iff.mp none_left).1
    have read := lawful.readSize_writeVarint (kind.byteSizeLong s) (kind.internalSerialize s) fits
    rw [← writeSized, ← writeMessage, written] at read
    have shorter := wire.readSize_shorter read
    cases shorter
  simp only [FieldOf.repeated] at behind
  rw [behind]
  obtain ⟨fuel, more⟩ : ∃ fuel, (writeMessage wire kind s ++ rest).length = fuel + 1 :=
    ⟨_, (Nat.succ_pred longer).symm⟩
  rw [more]
  cases readable : kind.readable s with
  | false =>
      rw [readable, if_neg Bool.false_ne_true] at first
      rw [readEach, first]
      rfl
  | true =>
  rw [readable, if_pos rfl] at first
  have shorter := parseMessage_shorter first
  rw [more] at shorter
  rw [readEach, first, carries.fresh, Option.bind_some, if_pos rfl]
  cases rest with
  | nil => simp only [Option.map_some, Option.bind_some]
  | cons byte rest =>
      rw [List.length_cons] at shorter
      by_cases next : byte = tag
      · have again := behind (set m (get m ++ [s])) rest
        rw [one_tag, List.singleton_append] at again
        simp only [next, if_true]
        rw [again, got, readEach_fuel (show rest.length ≤ fuel by omega) (Nat.le_refl rest.length)]
        cases readEach wire tag kind rest.length (get m ++ [s]) rest with
        | none => rfl
        | some all => simp only [Option.map_some, Option.bind_some, replaced]
      · simp only [next, if_false, Option.map_some, Option.bind_some]

theorem Lawful.repeated_carries (lawful : wire.Lawful) {kind : MessageType S} {get : M → List S}
    {set : M → List S → M}
    (placed : (FieldOf.repeated wire number tag kind get set).Placed layout.fields 2)
    (got : ∀ m all, get (set m all) = all)
    (replaced : ∀ m all more, set (set m all) more = set m more) (kept : ∀ m, set m (get m) = m)
    (carries : ∀ s ∈ get source, kind.Carries s ∧ kind.byteSizeLong s ≤ wire.limit) :
    (FieldOf.repeated wire number tag kind get set).Carries layout source := by
  have tag_size : (wire.writeTag number 2).length = 1 := lawful.length_writeTag placed.small
  constructor
  · simp only [FieldOf.repeated]
    revert carries
    induction get source with
    | nil =>
        intro _
        rfl
    | cons s all ih =>
        intro carries
        have others := ih fun other inside => carries other (List.mem_cons_of_mem s inside)
        rw [List.length_cons, List.map_cons, List.sum_cons, List.flatMap_cons, List.length_append,
          List.length_append, ← others, tag_size,
          lawful.length_writeMessage (carries s List.mem_cons_self).1]
        omega
  · suffices each : ∀ (all : List S),
        (∀ s ∈ all, kind.Carries s ∧ kind.byteSizeLong s ≤ wire.limit) →
          ∀ (m : M) (rest : List UInt8),
        wire.parse layout m
            (all.flatMap (fun s => wire.writeTag number 2 ++ writeMessage wire kind s) ++ rest) =
          if all.all kind.readable then wire.parse layout (set m (get m ++ all)) rest else none from
      each (get source) carries
    intro all
    induction all with
    | nil =>
        intro _ m rest
        rw [List.flatMap_nil, List.nil_append, List.append_nil, kept, List.all_nil, if_pos rfl]
    | cons s all ih =>
        intro carries m rest
        obtain ⟨inner, fits⟩ := carries s List.mem_cons_self
        have others := ih (fun other inside => carries other (List.mem_cons_of_mem s inside))
          (set m (get m ++ [s])) rest
        rw [List.flatMap_cons, List.append_assoc, List.append_assoc,
          lawful.parse_repeated placed got replaced inner fits, others, got, replaced,
          List.append_assoc, List.singleton_append, List.all_cons]
        cases kind.readable s <;> rfl

end

/-- A value merged onto the one that is left out. -/
theorem merged_default [DecidableEq V] (value zero : V) :
    (if value = zero then zero else value) = value := by
  split
  · next same => exact same.symm
  · rfl

/-- A kind of message is carried when its fields are. -/
theorem Lawful.carries_of_fields (lawful : wire.Lawful) {kind : MessageType M}
    (layout : Layout wire M) {source : M} (parsed : kind.internalParse = wire.parse layout)
    (written : kind.internalSerialize = wire.serialize layout)
    (read : kind.readable source = layout.fields.all fun f => f.readable source)
    (sized : kind.byteSizeLong source = (layout.fields.map fun f => f.size source).sum +
      wire.unknownFieldsSize (layout.unknown_fields source))
    (merged : ∀ m, kind.mergeFrom m source =
      layout.replace (layout.fields.foldl (fun m f => f.merge m source) m)
        (layout.unknown_fields (layout.fields.foldl (fun m f => f.merge m source) m) ++
          layout.unknown_fields source))
    (fresh : kind.mergeFrom kind.empty source = source)
    (carries : ∀ f ∈ layout.fields, f.Carries layout source) : kind.Carries source where
  measured := by
    rw [sized, written, serialize, List.length_append, length_written carries,
      lawful.length_unknowns]
  merges := by
    intro m
    have onto := parse_written carries m
      ((layout.unknown_fields source).flatMap fun unknown => wire.writeUnknown unknown.field)
    have behind := lawful.parse_unknowns (layout.fields.foldl (fun m f => f.merge m source) m)
      (layout.unknown_fields source) []
    rw [List.append_nil, parse_nil, layout.foldl_keep] at behind
    rw [parsed, written, serialize, onto, behind, merged, read]
  fresh := fresh

/-- Reading a field keeps a message well formed. -/
def FieldOf.Keeps (good : M → Prop) (f : FieldOf M) : Prop :=
  ∀ m bytes m' rest, good m → f.read m bytes = some (m', rest) → good m'

theorem parse_keeps {layout : Layout wire M} (good : M → Prop)
    (unknown : ∀ m unknown, good m → good (layout.keep m unknown))
    (keeps : ∀ f ∈ layout.fields, f.Keeps good) {m m' : M} {bytes : List UInt8} (start : good m)
    (parsed : wire.parse layout m bytes = some m') : good m' := by
  suffices loop : ∀ (fuel : Nat) (m : M) (bytes : List UInt8), good m →
      wire.parseLoop layout fuel m bytes = some m' → good m' from loop _ _ _ start parsed
  intro fuel
  induction fuel with
  | zero =>
      intro m bytes here read
      cases bytes with
      | nil =>
          rw [parseLoop, Option.some.injEq] at read
          rwa [← read]
      | cons byte bytes => cases read
  | succ fuel ih =>
      intro m bytes here read
      cases bytes with
      | nil =>
          rw [parseLoop, Option.some.injEq] at read
          rwa [← read]
      | cons byte bytes =>
          rw [parseLoop] at read
          split at read
          · cases read
          · next tag rest _ =>
              split at read
              · next f found =>
                  rw [Option.bind_eq_some_iff] at read
                  obtain ⟨next, taken, on⟩ := read
                  obtain ⟨inside, _⟩ := Option.filter_eq_some_iff.mp found
                  exact ih _ _ (keeps f (List.mem_of_find?_eq_some inside) _ _ _ _ here taken) on
              · rw [Option.bind_eq_some_iff] at read
                obtain ⟨next, _, on⟩ := read
                exact ih _ _ (unknown _ _ here) on

section

variable {number : Nat} {tag : UInt8} {good : M → Prop}

theorem FieldOf.string_keeps {get : M → List UInt8} {set : M → List UInt8 → M}
    (keeps : ∀ m text, good m → wire.verifyUTF8 text = true → good (set m text)) :
    (FieldOf.string wire number tag get set).Keeps good := by
  intro m bytes m' rest here read
  simp only [FieldOf.string] at read
  rw [Option.bind_eq_some_iff] at read
  obtain ⟨⟨text, behind⟩, _, checked⟩ := read
  simp only at checked
  split at checked
  · next valid =>
      rw [Option.some.injEq, Prod.mk.injEq] at checked
      rw [← checked.1]
      exact keeps m text here valid
  · cases checked

theorem FieldOf.scalar_keeps [DecidableEq V] {zero : V} {encode : V → UInt64}
    {decode : List UInt8 → Option (V × List UInt8)}
    {shorter : ∀ (bytes rest : List UInt8) (value : V),
      decode bytes = some (value, rest) → rest.length < bytes.length}
    {get : M → V} {set : M → V → M} (keeps : ∀ m value, good m → good (set m value)) :
    (FieldOf.scalar wire number tag zero encode decode shorter get set).Keeps good := by
  intro m bytes m' rest here read
  simp only [FieldOf.scalar] at read
  rw [Option.map_eq_some_iff] at read
  obtain ⟨⟨value, behind⟩, _, same⟩ := read
  rw [Prod.mk.injEq] at same
  rw [← same.1]
  exact keeps m value here

theorem FieldOf.bool_keeps {get : M → Bool} {set : M → Bool → M}
    (keeps : ∀ m value, good m → good (set m value)) :
    (FieldOf.bool wire number tag get set).Keeps good := by
  intro m bytes m' rest here read
  have number_keeps :
      (FieldOf.varint64 wire number tag false Bool.toUInt64 (fun word => word != 0) get
    set).Keeps good := by
    rw [FieldOf.varint64]
    exact FieldOf.scalar_keeps keeps
  exact number_keeps m bytes m' rest here read

theorem FieldOf.int64_keeps {get : M → Int64} {set : M → Int64 → M}
    (keeps : ∀ m value, good m → good (set m value)) :
    (FieldOf.int64 wire number tag get set).Keeps good := by
  rw [FieldOf.int64, FieldOf.varint64]
  exact FieldOf.scalar_keeps keeps

theorem FieldOf.uint32_keeps {get : M → UInt32} {set : M → UInt32 → M}
    (keeps : ∀ m value, good m → good (set m value)) :
    (FieldOf.uint32 wire number tag get set).Keeps good := by
  rw [FieldOf.uint32, FieldOf.varint32]
  exact FieldOf.scalar_keeps keeps

theorem FieldOf.int32_keeps {get : M → Int32} {set : M → Int32 → M}
    (keeps : ∀ m value, good m → good (set m value)) :
    (FieldOf.int32 wire number tag get set).Keeps good := by
  rw [FieldOf.int32, FieldOf.varint32]
  exact FieldOf.scalar_keeps keeps

theorem FieldOf.enum_keeps {get : M → Int32} {set : M → Int32 → M}
    (keeps : ∀ m value, good m → good (set m value)) :
    (FieldOf.enum wire number tag get set).Keeps good := by
  rw [FieldOf.enum, FieldOf.varint64]
  exact FieldOf.scalar_keeps keeps

/-- Reading a message keeps it well formed. -/
def MessageType.Keeps (goodPart : S → Prop) (kind : MessageType S) : Prop :=
  ∀ s bytes s', goodPart s → kind.internalParse s bytes = some s' → goodPart s'

theorem parseMessage_keeps {goodPart : S → Prop} {kind : MessageType S}
    (inner : kind.Keeps goodPart) {s s' : S} {bytes rest : List UInt8} (here : goodPart s)
    (read : parseMessage wire kind s bytes = some (s', rest)) : goodPart s' := by
  rw [parseMessage, Option.bind_eq_some_iff] at read
  obtain ⟨⟨payload, behind⟩, _, parsed⟩ := read
  rw [Option.map_eq_some_iff] at parsed
  obtain ⟨next, took, same⟩ := parsed
  rw [Prod.mk.injEq] at same
  rw [← same.1]
  exact inner s payload next here took

theorem FieldOf.message_keeps {goodPart : S → Prop} {kind : MessageType S}
    (inner : kind.Keeps goodPart) {get : M → Option S} {set : M → S → M}
    (held : ∀ m, good m → goodPart ((get m).getD kind.empty))
    (keeps : ∀ m s, good m → goodPart s → good (set m s)) :
    (FieldOf.message wire number tag kind get set).Keeps good := by
  intro m bytes m' rest here read
  simp only [FieldOf.message] at read
  rw [Option.map_eq_some_iff] at read
  obtain ⟨⟨s, behind⟩, parsed, same⟩ := read
  rw [Prod.mk.injEq] at same
  rw [← same.1]
  exact keeps m s here (parseMessage_keeps inner (held m here) parsed)

theorem readEach_keeps {goodPart : S → Prop} {kind : MessageType S} (inner : kind.Keeps goodPart)
    (start : goodPart kind.empty) : ∀ {fuel : Nat} {read all : List S} {bytes rest : List UInt8},
    (∀ s ∈ read, goodPart s) → readEach wire tag kind fuel read bytes = some (all, rest) →
    ∀ s ∈ all, goodPart s := by
  intro fuel
  induction fuel with
  | zero =>
      intro read all bytes rest _ each
      cases each
  | succ fuel ih =>
      intro read all bytes rest here each
      rw [readEach, Option.bind_eq_some_iff] at each
      obtain ⟨⟨s, behind⟩, parsed, on⟩ := each
      have longer : ∀ other ∈ read ++ [s], goodPart other := by
        intro other inside
        cases List.mem_append.mp inside with
        | inl before => exact here other before
        | inr last =>
            rw [List.mem_singleton.mp last]
            exact parseMessage_keeps inner start parsed
      cases behind with
      | nil =>
          simp only [Option.some.injEq, Prod.mk.injEq] at on
          rwa [← on.1]
      | cons byte behind =>
          simp only at on
          split at on
          · exact ih longer on
          · rw [Option.some.injEq, Prod.mk.injEq] at on
            rwa [← on.1]

theorem FieldOf.repeated_keeps {goodPart : S → Prop} {kind : MessageType S}
    (inner : kind.Keeps goodPart) (start : goodPart kind.empty) {get : M → List S}
    {set : M → List S → M} (held : ∀ m, good m → ∀ s ∈ get m, goodPart s)
    (keeps : ∀ m all, good m → (∀ s ∈ all, goodPart s) → good (set m all)) :
    (FieldOf.repeated wire number tag kind get set).Keeps good := by
  intro m bytes m' rest here read
  simp only [FieldOf.repeated] at read
  rw [Option.map_eq_some_iff] at read
  obtain ⟨⟨all, behind⟩, each, same⟩ := read
  rw [Prod.mk.injEq] at same
  rw [← same.1]
  exact keeps m all here (readEach_keeps inner start (held m here) each)

end

end SyncTool.WireFormat
