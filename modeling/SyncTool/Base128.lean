import Mathlib.Algebra.Group.Nat.Defs
import SyncTool.WireFormat

set_option autoImplicit false

/- Numbers in groups of seven bits, the lowest first,
  each in a byte whose high bit says that another
follows. -/
namespace SyncTool.Base128

/-- At most `groups + 1` groups of a number. -/
def write : Nat → Nat → List UInt8
  | 0, n => [UInt8.ofNat n]
  | groups + 1, n =>
      if n < 128 then [UInt8.ofNat n] else UInt8.ofNat (n % 128 + 128) :: write groups (n / 128)

/-- A number of at most `groups` groups, and what lies behind it. -/
def read : Nat → List UInt8 → Option (Nat × List UInt8)
  | 0, _ => none
  | _ + 1, [] => none
  | groups + 1, byte :: rest =>
      if byte.toNat < 128 then some (byte.toNat, rest)
      else (read groups rest).map fun (n, rest) => (byte.toNat - 128 + 128 * n, rest)

theorem read_shorter {groups n : Nat} {bytes rest : List UInt8}
    (taken : read groups bytes = some (n, rest)) : rest.length < bytes.length := by
  induction groups generalizing n bytes rest with
  | zero => cases taken
  | succ groups ih =>
      cases bytes with
      | nil => cases taken
      | cons byte bytes =>
          rw [read] at taken
          rw [List.length_cons]
          split at taken
          · rw [Option.some.injEq, Prod.mk.injEq] at taken
            rw [taken.2]
            omega
          · rw [Option.map_eq_some_iff] at taken
            obtain ⟨⟨high, behind⟩, others, same⟩ := taken
            rw [Prod.mk.injEq] at same
            have shorter := ih others
            rw [← same.2]
            omega

theorem read_write {groups more n : Nat} (fits : n < 128 ^ (groups + 1)) (enough : groups < more)
    (rest : List UInt8) : read more (write groups n ++ rest) = some (n, rest) := by
  have last : ∀ (more n : Nat), n < 128 →
      read (more + 1) (UInt8.ofNat n :: rest) = some (n, rest) := by
    intro more n small
    have byte : (UInt8.ofNat n).toNat = n := by
      rw [UInt8.toNat_ofNat']
      omega
    rw [read, byte, if_pos small]
  induction groups generalizing more n with
  | zero =>
      obtain ⟨more, rfl⟩ : ∃ k, more = k + 1 := ⟨more - 1, by omega⟩
      exact last more n (by simpa using fits)
  | succ groups ih =>
      obtain ⟨more, rfl⟩ : ∃ k, more = k + 1 := ⟨more - 1, by omega⟩
      rw [write]
      split
      · next small => exact last more n small
      · next big =>
          have byte : (UInt8.ofNat (n % 128 + 128)).toNat = n % 128 + 128 := by
            rw [UInt8.toNat_ofNat']
            omega
          have others : n / 128 < 128 ^ (groups + 1) := by
            rw [Nat.pow_succ] at fits
            omega
          rw [List.cons_append, read, byte, if_neg (by omega), ih others (by omega),
            Option.map_some, Option.some.injEq, Prod.mk.injEq]
          exact ⟨by omega, rfl⟩

/-- Whether bytes continue a character. -/
def continues (byte : UInt8) : Bool := 0x80 ≤ byte && byte ≤ 0xBF

/-- Whether bytes are well formed UTF-8: no overlong form, no surrogate, nothing above U+10FFFF. -/
def utf8 : List UInt8 → Bool
  | [] => true
  | [a] => a < 0x80
  | a :: b :: rest =>
      if a < 0x80 then utf8 (b :: rest)
      else if 0xC2 ≤ a && a ≤ 0xDF then continues b && utf8 rest
      else
        match rest with
        | [] => false
        | c :: rest =>
            if 0xE0 ≤ a && a ≤ 0xEF then
              continues b && continues c && (a != 0xE0 || 0xA0 ≤ b) &&
                (a != 0xED || b ≤ 0x9F) && utf8 rest
            else
              match rest with
              | [] => false
              | d :: rest =>
                  0xF0 ≤ a && a ≤ 0xF4 && continues b && continues c && continues d &&
                    (a != 0xF0 || 0x90 ≤ b) && (a != 0xF4 || b ≤ 0x8F) && utf8 rest

theorem write_small (groups : Nat) {n : Nat} (small : n < 128) :
    write groups n = [UInt8.ofNat n] := by
  cases groups with
  | zero => rfl
  | succ groups => rw [write, if_pos small]

/-- A number that fits in fewer groups takes no more. -/
theorem write_fits {groups more n : Nat} (fits : n < 128 ^ (groups + 1)) (enough : groups ≤ more) :
    write more n = write groups n := by
  induction groups generalizing more n with
  | zero => exact write_small more (by simpa using fits)
  | succ groups ih =>
      obtain ⟨more, rfl⟩ : ∃ k, more = k + 1 := ⟨more - 1, by omega⟩
      have others : n / 128 < 128 ^ (groups + 1) := by
        rw [Nat.pow_succ] at fits
        omega
      rw [write, write, ih others (by omega)]

/-- The first bytes, if there are as many. -/
def front (size : Nat) (bytes : List UInt8) : Option (List UInt8 × List UInt8) :=
  if bytes.length < size then none else some (bytes.take size, bytes.drop size)

theorem front_eq_some {size : Nat} {bytes first rest : List UInt8}
    (split : front size bytes = some (first, rest)) :
    first.length = size ∧ bytes = first ++ rest := by
  unfold front at split
  split at split
  · cases split
  · next enough =>
    cases split
    constructor
    · rw [List.length_take]
      omega
    · exact (List.take_append_drop size bytes).symm

theorem front_append {size : Nat} {first : List UInt8} (length : first.length = size)
    (more : List UInt8) : front size (first ++ more) = some (first, more) := by
  unfold front
  rw [if_neg (by rw [List.length_append]; omega), List.take_left' length, List.drop_left' length]

/-- The payload of a field, by the type that its tag tells, with numbers as they are written. Groups
are refused. -/
def payload (limit : Nat) (tag : UInt32) (bytes : List UInt8) : Option (List UInt8 × List UInt8) :=
  if tag >>> 3 = 0 then none
  else if tag &&& 7 = 0 then
    (read 10 bytes).map fun (n, rest) => (write 9 (UInt64.ofNat n).toNat, rest)
  else if tag &&& 7 = 1 then front 8 bytes
  else if tag &&& 7 = 2 then
    (read 5 bytes).bind fun (size, rest) =>
      if limit < size then none
      else (front size rest).map fun (text, rest) => (write 9 size ++ text, rest)
  else if tag &&& 7 = 5 then front 4 bytes
  else none

theorem payload_shorter {limit : Nat} {tag : UInt32} {bytes kept rest : List UInt8}
    (taken : payload limit tag bytes = some (kept, rest)) : rest.length ≤ bytes.length := by
  have behind : ∀ {size : Nat} {bytes first rest : List UInt8},
      front size bytes = some (first, rest) → rest.length ≤ bytes.length := by
    intro size bytes first rest split
    rw [(front_eq_some split).2, List.length_append]
    omega
  rw [payload] at taken
  split at taken
  · cases taken
  split at taken
  · rw [Option.map_eq_some_iff] at taken
    obtain ⟨next, number, same⟩ := taken
    have shorter : next.2.length < bytes.length := read_shorter number
    cases same
    omega
  split at taken
  · exact behind taken
  split at taken
  · rw [Option.bind_eq_some_iff] at taken
    obtain ⟨⟨size, left⟩, number, cut⟩ := taken
    have shorter := read_shorter number
    simp only at cut
    split at cut
    · cases cut
    · obtain ⟨next, split, same⟩ := Option.map_eq_some_iff.mp cut
      have less : next.2.length ≤ left.length := behind split
      cases same
      omega
  split at taken
  · exact behind taken
  · cases taken

/-- A payload that was read is read again. -/
theorem payload_again {limit : Nat} (bounded : limit < 128 ^ 5) {tag : UInt32}
    {bytes kept rest : List UInt8} (taken : payload limit tag bytes = some (kept, rest))
    (more : List UInt8) : payload limit tag (kept ++ more) = some (kept, more) := by
  rw [payload] at taken ⊢
  split at taken
  · cases taken
  next numbered =>
  rw [if_neg numbered]
  split at taken
  · next varint =>
    rw [if_pos varint]
    obtain ⟨next, -, same⟩ := Option.map_eq_some_iff.mp taken
    cases same
    have fits : (UInt64.ofNat next.1).toNat < 128 ^ 10 := by
      have small := (UInt64.ofNat next.1).toNat_lt
      omega
    rw [read_write fits (by omega)]
    simp only [Option.map_some, UInt64.ofNat_toNat]
  next other =>
  rw [if_neg other]
  split at taken
  · next fixed64 =>
    rw [if_pos fixed64]
    exact front_append (front_eq_some taken).1 more
  next other =>
  rw [if_neg other]
  split at taken
  · next sized =>
    rw [if_pos sized]
    obtain ⟨⟨size, left⟩, -, cut⟩ := Option.bind_eq_some_iff.mp taken
    simp only at cut
    split at cut
    · cases cut
    · next small =>
      obtain ⟨next, split, same⟩ := Option.map_eq_some_iff.mp cut
      cases same
      have fits : size < 128 ^ 5 := by omega
      have number : read 5 (write 9 size ++ (next.1 ++ more)) = some (size, next.1 ++ more) := by
        rw [write_fits fits (show 4 ≤ 9 by omega), read_write fits (show 4 < 5 by omega)]
      rw [List.append_assoc, number, Option.bind_some]
      simp only [if_neg small, front_append (front_eq_some split).1 more, Option.map_some]
  next other =>
  rw [if_neg other]
  split at taken
  · next fixed32 =>
    rw [if_pos fixed32]
    exact front_append (front_eq_some taken).1 more
  · cases taken

/-- A field that a message does not have: its tag, and its payload as it is written. -/
structure UnknownField where
  tag : UInt32
  payload : List UInt8

theorem map_shorter {α : Type} {groups : Nat} {f : Nat → α} {bytes rest : List UInt8} {value : α}
    (taken : ((read groups bytes).map fun (n, rest) => (f n, rest)) = some (value, rest)) :
    rest.length < bytes.length := by
  rw [Option.map_eq_some_iff] at taken
  obtain ⟨⟨n, behind⟩, number, same⟩ := taken
  rw [Prod.mk.injEq] at same
  rw [← same.2]
  exact read_shorter number

/-- A format whose numbers are in groups of seven bits, and whose sizes are at most `limit`. -/
def format (limit : Nat) : WireFormat where
  UnknownField := UnknownField
  readTag := fun bytes => (read 5 bytes).map fun (n, rest) => (UInt32.ofNat n, rest)
  readVarint64 := fun bytes => (read 10 bytes).map fun (n, rest) => (UInt64.ofNat n, rest)
  readVarint32 := fun bytes => (read 10 bytes).map fun (n, rest) => (UInt32.ofNat n, rest)
  readSize := fun bytes => (read 5 bytes).filter fun (n, _) => n ≤ limit
  verifyUTF8 := utf8
  unknownFieldParse := fun tag bytes =>
    (payload limit tag bytes).map fun (payload, rest) => (⟨tag, payload⟩, rest)
  writeUnknown := fun field => write 9 field.tag.toNat ++ field.payload
  unknownSize := fun field => (write 9 field.tag.toNat).length + field.payload.length
  writeVarint := fun value => write 9 value.toNat
  varintSize := fun value => (write 9 value.toNat).length
  limit := limit
  readTag_shorter := map_shorter
  readVarint64_shorter := map_shorter
  readVarint32_shorter := map_shorter
  readSize_shorter := by
    intro bytes rest size taken
    exact read_shorter (Option.filter_eq_some_iff.mp taken).1
  unknownFieldParse_shorter := by
    intro bytes rest tag field parsed
    obtain ⟨next, taken, same⟩ := Option.map_eq_some_iff.mp parsed
    cases same
    exact payload_shorter taken

theorem readTag_write (limit : Nat) (tag : UInt32) (rest : List UInt8) :
    (format limit).readTag (write 9 tag.toNat ++ rest) = some (tag, rest) := by
  have fits : tag.toNat < 128 ^ 5 := by
    have small := tag.toNat_lt
    omega
  simp only [format, write_fits fits (show 4 ≤ 9 by omega), read_write fits (show 4 < 5 by omega),
    Option.map_some, UInt32.ofNat_toNat]

theorem format_lawful {limit : Nat} (bounded : limit < 128 ^ 5) : (format limit).Lawful where
  readTag_writeVarint := by
    intro tag rest
    have read := readTag_write limit tag rest
    rwa [← UInt32.toNat_toUInt64] at read
  readVarint64_writeVarint := by
    intro value rest
    have fits : value.toNat < 128 ^ 10 := by
      have small := value.toNat_lt
      omega
    simp only [format, read_write fits (show 9 < 10 by omega), Option.map_some, UInt64.ofNat_toNat]
  readVarint32_writeVarint := by
    intro value rest
    have fits : value.toNat < 128 ^ 10 := by
      have small := value.toNat_lt
      omega
    simp only [format, read_write fits (show 9 < 10 by omega), Option.map_some]
    rfl
  readSize_writeVarint := by
    intro size rest small
    have same : (UInt64.ofNat size).toNat = size := by
      rw [UInt64.toNat_ofNat']
      simp only [format] at small
      omega
    have fits : size < 128 ^ 5 := by
      simp only [format] at small
      omega
    simp only [format] at small
    simp only [format, same, write_fits fits (show 4 ≤ 9 by omega),
      read_write fits (show 4 < 5 by omega), Option.filter_some, small, decide_true, if_true]
  length_writeVarint := fun _ => rfl
  writeVarint_small := by
    intro value small
    simp only [format, write_small 9 small]
    rfl
  verifyUTF8_nil := rfl
  unknown_again := by
    intro tag bytes rest field parsed more
    obtain ⟨next, taken, same⟩ := Option.map_eq_some_iff.mp parsed
    cases same
    refine ⟨next.1 ++ more, ?_, ?_⟩
    · have read := readTag_write limit tag (next.1 ++ more)
      rwa [← List.append_assoc] at read
    · simp only [format, payload_again bounded taken more, Option.map_some]
  length_writeUnknown := by
    intro field
    simp only [format, List.length_append]

end SyncTool.Base128
