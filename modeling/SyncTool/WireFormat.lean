import Mathlib.Algebra.GroupWithZero.Nat
import Mathlib.Data.List.Basic

set_option autoImplicit false

namespace SyncTool

/-- A format in which a message is a row of fields, each behind a tag: how its library reads and
writes the parts, and what it keeps of fields that a message does not have. What a reader leaves is
shorter than what it was given. -/
structure WireFormat where
  UnknownField : Type
  readTag : List UInt8 → Option (UInt32 × List UInt8)
  readVarint64 : List UInt8 → Option (UInt64 × List UInt8)
  readVarint32 : List UInt8 → Option (UInt32 × List UInt8)
  readSize : List UInt8 → Option (Nat × List UInt8)
  verifyUTF8 : List UInt8 → Bool
  /-- A field that the message does not have, of which the tag has been read. -/
  unknownFieldParse : UInt32 → List UInt8 → Option (UnknownField × List UInt8)
  /-- Such a field, with its tag. -/
  writeUnknown : UnknownField → List UInt8
  unknownSize : UnknownField → Nat
  writeVarint : UInt64 → List UInt8
  varintSize : UInt64 → Nat
  /-- The greatest size that is read. -/
  limit : Nat
  readTag_shorter : ∀ {bytes rest : List UInt8} {tag : UInt32},
    readTag bytes = some (tag, rest) → rest.length < bytes.length
  readVarint64_shorter : ∀ {bytes rest : List UInt8} {value : UInt64},
    readVarint64 bytes = some (value, rest) → rest.length < bytes.length
  readVarint32_shorter : ∀ {bytes rest : List UInt8} {value : UInt32},
    readVarint32 bytes = some (value, rest) → rest.length < bytes.length
  readSize_shorter : ∀ {bytes rest : List UInt8} {size : Nat},
    readSize bytes = some (size, rest) → rest.length < bytes.length
  unknownFieldParse_shorter : ∀ {bytes rest : List UInt8} {tag : UInt32} {field : UnknownField},
    unknownFieldParse tag bytes = some (field, rest) → rest.length ≤ bytes.length

namespace WireFormat

/-- The readers read what the writer writes. -/
structure Lawful (wire : WireFormat) : Prop where
  readTag_writeVarint : ∀ (tag : UInt32) (rest : List UInt8),
    wire.readTag (wire.writeVarint tag.toUInt64 ++ rest) = some (tag, rest)
  readVarint64_writeVarint : ∀ (value : UInt64) (rest : List UInt8),
    wire.readVarint64 (wire.writeVarint value ++ rest) = some (value, rest)
  readVarint32_writeVarint : ∀ (value : UInt64) (rest : List UInt8),
    wire.readVarint32 (wire.writeVarint value ++ rest) = some (value.toUInt32, rest)
  readSize_writeVarint : ∀ (size : Nat) (rest : List UInt8), size ≤ wire.limit →
    wire.readSize (wire.writeVarint (UInt64.ofNat size) ++ rest) = some (size, rest)
  length_writeVarint : ∀ value : UInt64, (wire.writeVarint value).length = wire.varintSize value
  writeVarint_small : ∀ value : UInt64, value.toNat < 128 → wire.writeVarint value = [value.toUInt8]
  verifyUTF8_nil : wire.verifyUTF8 [] = true
  /-- What was read is written so that it is read again. -/
  unknown_again : ∀ {tag : UInt32} {bytes rest : List UInt8} {field : wire.UnknownField},
    wire.unknownFieldParse tag bytes = some (field, rest) → ∀ more, ∃ behind,
      wire.readTag (wire.writeUnknown field ++ more) = some (tag, behind) ∧
      wire.unknownFieldParse tag behind = some (field, more)
  length_writeUnknown : ∀ field, (wire.writeUnknown field).length = wire.unknownSize field

/-- The tags that a message has no field for, by the numbers of its fields and the one byte that the
tag of each may be. A tag that ends a group, and the tag zero, begin no field. -/
def Strange (tags : List (Nat × UInt8)) (tag : UInt32) : Prop :=
  ((tags.find? fun known => (tag >>> 3).toNat == known.1).filter fun known =>
    tag.toUInt8 == known.2) = none ∧ ¬ (tag = 0 ∨ tag &&& 7 = 4)

instance (tags : List (Nat × UInt8)) (tag : UInt32) : Decidable (Strange tags tag) :=
  inferInstanceAs (Decidable (_ ∧ _))

/-- A field that a message with these tags does not have, as it was read. -/
structure Unknown (wire : WireFormat) (tags : List (Nat × UInt8)) where
  tag : UInt32
  field : wire.UnknownField
  strange : Strange tags tag
  read : ∃ bytes rest, wire.unknownFieldParse tag bytes = some (field, rest)

/-- The field behind a tag that no field of the message has. -/
def handleUnusual (wire : WireFormat) (tags : List (Nat × UInt8)) (tag : UInt32)
    (bytes : List UInt8) : Option (Unknown wire tags × List UInt8) :=
  if strange : Strange tags tag then
    match read : wire.unknownFieldParse tag bytes with
    | none => none
    | some (field, rest) => some (⟨tag, field, strange, bytes, rest, read⟩, rest)
  else none

theorem handleUnusual_eq_some {wire : WireFormat} {tags : List (Nat × UInt8)} {tag : UInt32}
    {bytes rest : List UInt8} {unknown : Unknown wire tags} :
    handleUnusual wire tags tag bytes = some (unknown, rest) ↔
      unknown.tag = tag ∧ wire.unknownFieldParse tag bytes = some (unknown.field, rest) := by
  unfold handleUnusual
  split
  · next strange =>
    split
    · next read => simp [read]
    · next field behind read =>
      constructor
      · intro same
        cases same
        exact ⟨rfl, read⟩
      · rintro ⟨rfl, same⟩
        rw [read] at same
        cases same
        rfl
  · next usual =>
    constructor
    · intro impossible
      cases impossible
    · rintro ⟨rfl, -⟩
      exact absurd unknown.strange usual

/-- One field of a message: its number, the one byte its tag may be, how it is read behind the tag,
written with it, measured, and merged from another message, and whether its texts are UTF-8. -/
structure FieldOf (M : Type) where
  number : Nat
  tag : UInt8
  read : M → List UInt8 → Option (M × List UInt8)
  write : M → List UInt8
  size : M → Nat
  merge : M → M → M
  readable : M → Bool
  read_shorter : ∀ {m m' : M} {bytes rest : List UInt8},
    read m bytes = some (m', rest) → rest.length ≤ bytes.length

/-- The fields of a class, and where it keeps those it does not have. -/
structure Layout (wire : WireFormat) (M : Type) where
  tags : List (Nat × UInt8)
  fields : List (FieldOf M)
  known : fields.map (fun f => (f.number, f.tag)) = tags
  unknown_fields : M → List (Unknown wire tags)
  replace : M → List (Unknown wire tags) → M
  got : ∀ m unknown_fields', unknown_fields (replace m unknown_fields') = unknown_fields'
  replaced : ∀ m unknown_fields' again, replace (replace m unknown_fields') again = replace m again
  kept : ∀ m, replace m (unknown_fields m) = m

variable {wire : WireFormat} {M S V : Type}

namespace Layout

variable (layout : Layout wire M)

def find (tag : UInt32) : Option (FieldOf M) :=
  (layout.fields.find? fun f => (tag >>> 3).toNat == f.number).filter fun f => tag.toUInt8 == f.tag

/-- One more unknown field. -/
def keep (m : M) (unknown : Unknown wire layout.tags) : M :=
  layout.replace m (layout.unknown_fields m ++ [unknown])

theorem foldl_keep (m : M) (unknown_fields : List (Unknown wire layout.tags)) :
    unknown_fields.foldl layout.keep m =
      layout.replace m (layout.unknown_fields m ++ unknown_fields) := by
  induction unknown_fields generalizing m with
  | nil => rw [List.foldl_nil, List.append_nil, layout.kept]
  | cons unknown unknown_fields ih =>
      rw [List.foldl_cons, ih, keep, layout.got, layout.replaced, List.append_assoc,
        List.singleton_append]

theorem find_eq_none {layout : Layout wire M} {tag : UInt32} (strange : Strange layout.tags tag) :
    layout.find tag = none := by
  have looked := strange.1
  rw [← layout.known, List.find?_map] at looked
  rw [find]
  rw [Option.filter_eq_none_iff] at looked ⊢
  intro f found
  exact looked (f.number, f.tag) (Option.map_eq_some_iff.mpr ⟨f, found, rfl⟩)

end Layout

variable (wire) in
/-- Read fields until the bytes are used up. A tag that ends a group, or the tag zero, ends a
message before its bytes do: whoever asked for it refuses it. -/
def parseLoop (layout : Layout wire M) : Nat → M → List UInt8 → Option M
  | _, m, [] => some m
  | 0, _, _ :: _ => none
  | fuel + 1, m, byte :: bytes =>
      match wire.readTag (byte :: bytes) with
      | none => none
      | some (tag, rest) =>
          match layout.find tag with
          | some f => (f.read m rest).bind fun (m', rest) => parseLoop layout fuel m' rest
          | none =>
              (handleUnusual wire layout.tags tag rest).bind fun (unknown, rest) =>
                parseLoop layout fuel (layout.keep m unknown) rest

variable (wire)

def parse (layout : Layout wire M) (m : M) (bytes : List UInt8) : Option M :=
  wire.parseLoop layout bytes.length m bytes

/-- The known fields one after the other, and the unknown ones behind them. -/
def serialize (layout : Layout wire M) (m : M) : List UInt8 :=
  (layout.fields.flatMap fun f => f.write m) ++
    (layout.unknown_fields m).flatMap fun unknown => wire.writeUnknown unknown.field

/-- The size of the unknown fields. -/
def unknownFieldsSize {tags : List (Nat × UInt8)} (unknown_fields : List (Unknown wire tags)) :
    Nat :=
  (unknown_fields.map fun unknown => wire.unknownSize unknown.field).sum

theorem parseLoop_fuel (layout : Layout wire M) : ∀ {fuel more : Nat} {m : M} {bytes : List UInt8},
    bytes.length ≤ fuel → bytes.length ≤ more →
    wire.parseLoop layout fuel m bytes = wire.parseLoop layout more m bytes := by
  intro fuel
  induction fuel with
  | zero =>
      intro more m bytes enough _
      have nothing : bytes = [] := List.length_eq_zero_iff.mp (by omega)
      rw [nothing, parseLoop, parseLoop]
  | succ fuel ih =>
      intro more m bytes enough plenty
      cases bytes with
      | nil => rw [parseLoop, parseLoop]
      | cons byte bytes =>
          obtain ⟨more, rfl⟩ : ∃ k, more = k + 1 := ⟨more - 1, by simp at plenty; omega⟩
          rw [parseLoop, parseLoop]
          cases read : wire.readTag (byte :: bytes) with
          | none => rfl
          | some here =>
              have shorter : here.2.length < (byte :: bytes).length := wire.readTag_shorter read
              simp only
              split
              · next f _ =>
                  apply Option.bind_congr
                  intro next taken
                  have less : next.2.length ≤ here.2.length := f.read_shorter taken
                  exact ih (by omega) (by omega)
              · apply Option.bind_congr
                intro next kept
                have less : next.2.length ≤ here.2.length :=
                  wire.unknownFieldParse_shorter (handleUnusual_eq_some.mp kept).2
                exact ih (by omega) (by omega)

@[simp] theorem parse_nil (layout : Layout wire M) (m : M) : wire.parse layout m [] = some m := by
  rw [parse, parseLoop]

/-- The byte of a tag whose number fits in one. -/
theorem one_byte {number type : Nat} (small : 8 * number + type < 128) (kind : type < 8) :
    (UInt32.ofNat (8 * number + type) >>> 3).toNat = number ∧
      (UInt32.ofNat (8 * number + type)).toUInt8.toNat = 8 * number + type := by
  constructor
  · rw [UInt32.toNat_shiftRight, UInt32.toNat_ofNat', Nat.shiftRight_eq_div_pow]
    simp only [UInt32.reduceToNat, Nat.reduceMod, Nat.reducePow]
    omega
  · rw [UInt32.toNat_toUInt8, UInt32.toNat_ofNat']
    omega

/-- The tag of a field, of one of the eight types of payloads. -/
def writeTag (number type : Nat) : List UInt8 :=
  wire.writeVarint (UInt32.ofNat (8 * number + type)).toUInt64

variable {wire}

theorem Lawful.length_writeTag (lawful : wire.Lawful) {number type : Nat}
    (small : 8 * number + type < 128) : (wire.writeTag number type).length = 1 := by
  have value : (UInt32.ofNat (8 * number + type)).toUInt64.toNat < 128 := by
    rw [UInt32.toNat_toUInt64, UInt32.toNat_ofNat']
    omega
  rw [writeTag, lawful.writeVarint_small _ value, List.length_singleton]

/-- A field of a message is found by its number, and its byte is that of its tag. -/
structure FieldOf.Placed (fields : List (FieldOf M)) (f : FieldOf M) (type : Nat) : Prop where
  found : fields.find? (fun g => f.number == g.number) = some f
  tagged : f.tag.toNat = 8 * f.number + type
  small : 8 * f.number + type < 128

/-- Behind the tag of one of its fields, a message is read on with that field. -/
theorem Lawful.parse_tagged (lawful : wire.Lawful) {layout : Layout wire M} (f : FieldOf M)
    (type : Nat) (placed : f.Placed layout.fields type) (kind : type < 8) (m : M)
    (bytes : List UInt8) :
    wire.parse layout m (wire.writeTag f.number type ++ bytes) =
      (f.read m bytes).bind fun next => wire.parse layout next.1 next.2 := by
  obtain ⟨found, tagged, small⟩ := placed
  obtain ⟨number, low⟩ := one_byte small kind
  have matched : (UInt32.ofNat (8 * f.number + type)).toUInt8 = f.tag := by
    apply UInt8.toNat_inj.mp
    rw [low, tagged]
  have tag := lawful.readTag_writeVarint (UInt32.ofNat (8 * f.number + type)) bytes
  have size := lawful.length_writeTag small
  rw [← writeTag] at tag
  obtain ⟨byte, one⟩ := List.length_eq_one_iff.mp size
  rw [one] at tag ⊢
  rw [List.singleton_append] at tag ⊢
  rw [parse, List.length_cons, parseLoop, tag]
  simp only [Layout.find, number, matched, found, Option.filter_some, beq_self_eq_true, if_true]
  apply Option.bind_congr
  intro next taken
  have less : next.2.length ≤ bytes.length := f.read_shorter taken
  exact wire.parseLoop_fuel layout (by omega) (by omega)

/-- What was kept of an unknown field is written so that it is kept again. -/
theorem Lawful.parse_unknown (lawful : wire.Lawful) {layout : Layout wire M} (m : M)
    (unknown : Unknown wire layout.tags) (rest : List UInt8) :
    wire.parse layout m (wire.writeUnknown unknown.field ++ rest) =
      wire.parse layout (layout.keep m unknown) rest := by
  obtain ⟨bytes, left, read⟩ := unknown.read
  obtain ⟨behind, tagged, again⟩ := lawful.unknown_again read rest
  have handled : handleUnusual wire layout.tags unknown.tag behind = some (unknown, rest) :=
    handleUnusual_eq_some.mpr ⟨rfl, again⟩
  have shorter := wire.readTag_shorter tagged
  have less := wire.unknownFieldParse_shorter again
  rw [parse]
  cases whole : wire.writeUnknown unknown.field ++ rest with
  | nil =>
      rw [whole] at shorter
      cases shorter
  | cons byte more =>
      rw [whole] at tagged shorter
      rw [List.length_cons] at shorter ⊢
      rw [parseLoop, tagged]
      simp only [Layout.find_eq_none unknown.strange, handled, Option.bind_some]
      exact wire.parseLoop_fuel layout (by omega) (Nat.le_refl _)

theorem Lawful.parse_unknowns (lawful : wire.Lawful) {layout : Layout wire M} (m : M)
    (unknown_fields : List (Unknown wire layout.tags)) (rest : List UInt8) :
    wire.parse layout m
        (unknown_fields.flatMap (fun unknown => wire.writeUnknown unknown.field) ++ rest) =
      wire.parse layout (unknown_fields.foldl layout.keep m) rest := by
  induction unknown_fields generalizing m with
  | nil => rfl
  | cons unknown unknown_fields ih =>
      rw [List.flatMap_cons, List.append_assoc, lawful.parse_unknown, ih, List.foldl_cons]

theorem Lawful.length_unknowns (lawful : wire.Lawful) {tags : List (Nat × UInt8)}
    (unknown_fields : List (Unknown wire tags)) :
    (unknown_fields.flatMap fun unknown => wire.writeUnknown unknown.field).length =
      wire.unknownFieldsSize unknown_fields := by
  induction unknown_fields with
  | nil => rfl
  | cons unknown unknown_fields ih =>
      rw [List.flatMap_cons, List.length_append, lawful.length_writeUnknown, ih, unknownFieldsSize,
        unknownFieldsSize, List.map_cons, List.sum_cons]

/-- What a field writes of a message is as long as measured, and reading it merges it, unless a text
is refused. -/
structure FieldOf.Carries (layout : Layout wire M) (f : FieldOf M) (source : M) : Prop where
  measured : f.size source = (f.write source).length
  merges : ∀ (m : M) (rest : List UInt8), wire.parse layout m (f.write source ++ rest) =
    if f.readable source then wire.parse layout (f.merge m source) rest else none

/-- The fields of a message are merged one after the other. -/
theorem parse_written {layout : Layout wire M} {written : List (FieldOf M)} {source : M}
    (carries : ∀ f ∈ written, f.Carries layout source) (m : M) (rest : List UInt8) :
    wire.parse layout m (written.flatMap (fun f => f.write source) ++ rest) =
      if written.all (fun f => f.readable source)
      then wire.parse layout (written.foldl (fun m f => f.merge m source) m) rest else none := by
  induction written generalizing m with
  | nil => rfl
  | cons f written ih =>
      have first := carries f (List.mem_cons_self)
      have others := fun g inside => carries g (List.mem_cons_of_mem f inside)
      rw [List.flatMap_cons, List.append_assoc, first.merges, List.foldl_cons, List.all_cons]
      cases f.readable source with
      | false => rfl
      | true =>
          rw [if_pos rfl, Bool.true_and]
          exact ih others _

theorem length_written {layout : Layout wire M} {written : List (FieldOf M)} {source : M}
    (carries : ∀ f ∈ written, f.Carries layout source) :
    (written.flatMap fun f => f.write source).length =
      (written.map fun f => f.size source).sum := by
  induction written with
  | nil => rfl
  | cons f written ih =>
      have first := carries f (List.mem_cons_self)
      have others := fun g inside => carries g (List.mem_cons_of_mem f inside)
      rw [List.flatMap_cons, List.length_append, List.map_cons, List.sum_cons, first.measured]
      congr 1
      exact ih others

/-- The bytes behind a size. -/
def readSized (wire : WireFormat) (bytes : List UInt8) : Option (List UInt8 × List UInt8) :=
  (wire.readSize bytes).bind fun (size, rest) =>
    if rest.length < size then none else some (rest.take size, rest.drop size)

def writeSized (wire : WireFormat) (size : Nat) (bytes : List UInt8) : List UInt8 :=
  wire.writeVarint (UInt64.ofNat size) ++ bytes

theorem readSized_shorter {bytes payload rest : List UInt8}
    (read : readSized wire bytes = some (payload, rest)) : rest.length < bytes.length := by
  rw [readSized, Option.bind_eq_some_iff] at read
  obtain ⟨⟨size, behind⟩, sized, cut⟩ := read
  have shorter := wire.readSize_shorter sized
  simp only at cut
  split at cut
  · cases cut
  · rw [Option.some.injEq, Prod.mk.injEq] at cut
    rw [← cut.2, List.length_drop]
    omega

theorem Lawful.readSized_writeSized (lawful : wire.Lawful) {payload : List UInt8}
    (small : payload.length ≤ wire.limit) (rest : List UInt8) :
    readSized wire (writeSized wire payload.length payload ++ rest) = some (payload, rest) := by
  have enough : ¬ (payload ++ rest).length < payload.length := by
    rw [List.length_append]
    omega
  rw [readSized, writeSized, List.append_assoc, lawful.readSize_writeVarint _ _ small,
    Option.bind_some]
  simp only [if_neg enough, List.take_left, List.drop_left]

/-- A kind of message: how a message of it is read onto another, written, measured and merged, and
whether its texts are UTF-8. -/
structure MessageType (S : Type) where
  empty : S
  internalParse : S → List UInt8 → Option S
  internalSerialize : S → List UInt8
  byteSizeLong : S → Nat
  mergeFrom : S → S → S
  readable : S → Bool

/-- A message of some size, read onto another. -/
def parseMessage (wire : WireFormat) (kind : MessageType S) (s : S) (bytes : List UInt8) :
    Option (S × List UInt8) :=
  (readSized wire bytes).bind fun (payload, rest) =>
    (kind.internalParse s payload).map fun s => (s, rest)

def writeMessage (wire : WireFormat) (kind : MessageType S) (s : S) : List UInt8 :=
  writeSized wire (kind.byteSizeLong s) (kind.internalSerialize s)

/-- The size of a message, with that of the number before it. -/
def messageSize (wire : WireFormat) (kind : MessageType S) (s : S) : Nat :=
  wire.varintSize (UInt64.ofNat (kind.byteSizeLong s)) + kind.byteSizeLong s

theorem parseMessage_shorter {kind : MessageType S} {s s' : S} {bytes rest : List UInt8}
    (read : parseMessage wire kind s bytes = some (s', rest)) : rest.length < bytes.length := by
  rw [parseMessage, Option.bind_eq_some_iff] at read
  obtain ⟨⟨payload, behind⟩, sized, parsed⟩ := read
  rw [Option.map_eq_some_iff] at parsed
  obtain ⟨here, _, same⟩ := parsed
  rw [Prod.mk.injEq] at same
  rw [← same.2]
  exact readSized_shorter sized

/-- What is written of a message is as long as measured, and reading it merges it, unless a text is
refused. -/
structure MessageType.Carries (kind : MessageType S) (source : S) : Prop where
  measured : kind.byteSizeLong source = (kind.internalSerialize source).length
  merges : ∀ s, kind.internalParse s (kind.internalSerialize source) =
    if kind.readable source then some (kind.mergeFrom s source) else none
  fresh : kind.mergeFrom kind.empty source = source

theorem Lawful.parseMessage_writeMessage (lawful : wire.Lawful) {kind : MessageType S} {source : S}
    (carries : kind.Carries source) (small : kind.byteSizeLong source ≤ wire.limit) (s : S)
    (rest : List UInt8) :
    parseMessage wire kind s (writeMessage wire kind source ++ rest) =
      if kind.readable source then some (kind.mergeFrom s source, rest) else none := by
  have measured := carries.measured
  rw [writeMessage, measured, parseMessage, lawful.readSized_writeSized (by omega),
    Option.bind_some]
  simp only [carries.merges]
  cases kind.readable source <;> rfl

theorem Lawful.length_writeMessage (lawful : wire.Lawful) {kind : MessageType S} {source : S}
    (carries : kind.Carries source) :
    (writeMessage wire kind source).length = messageSize wire kind source := by
  rw [writeMessage, writeSized, List.length_append, lawful.length_writeVarint, messageSize,
    ← carries.measured]

end WireFormat

end SyncTool
