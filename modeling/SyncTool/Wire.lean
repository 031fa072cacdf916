import Mathlib.Algebra.Order.Ring.Int
import Mathlib.Data.List.Basic
import Mathlib.Tactic.NormNum
import Mathlib.Tactic.Positivity

set_option autoImplicit false

namespace SyncTool

namespace Wire

/-- The lowest `width` bytes of a number, least significant first. -/
def littleEndian : Nat → Nat → List UInt8
  | 0, _ => []
  | width + 1, value => UInt8.ofNat value :: littleEndian width (value / 256)

/-- The number that bytes stand for, least significant first. -/
def fromLittleEndian : List UInt8 → Nat
  | [] => 0
  | byte :: rest => byte.toNat + 256 * fromLittleEndian rest

@[simp] theorem length_littleEndian (width value : Nat) :
    (littleEndian width value).length = width := by
  induction width generalizing value with
  | zero => rfl
  | succ width ih => rw [littleEndian, List.length_cons, ih]

theorem fromLittleEndian_littleEndian (width value : Nat) :
    fromLittleEndian (littleEndian width value) = value % 256 ^ width := by
  induction width generalizing value with
  | zero => simp [littleEndian, fromLittleEndian, Nat.mod_one]
  | succ width ih =>
      have digits :
          value % 256 ^ (width + 1) = value % 256 + 256 * (value / 256 % 256 ^ width) := by
        rw [Nat.pow_succ', Nat.mod_mul]
      rw [littleEndian, fromLittleEndian, ih, digits, UInt8.toNat_ofNat']

theorem fromLittleEndian_lt (bytes : List UInt8) : fromLittleEndian bytes < 256 ^ bytes.length := by
  induction bytes with
  | nil => simp [fromLittleEndian]
  | cons byte rest ih =>
      have small : byte.toNat < 256 := byte.toNat_lt
      rw [fromLittleEndian, List.length_cons, Nat.pow_succ']
      omega

theorem littleEndian_fromLittleEndian (bytes : List UInt8) :
    littleEndian bytes.length (fromLittleEndian bytes) = bytes := by
  induction bytes with
  | nil => rfl
  | cons byte rest ih =>
      have small : byte.toNat < 256 := byte.toNat_lt
      have quotient : (byte.toNat + 256 * fromLittleEndian rest) / 256 = fromLittleEndian rest := by
        omega
      have lowest : UInt8.ofNat (byte.toNat + 256 * fromLittleEndian rest) = byte := by
        apply UInt8.toNat_inj.mp
        rw [UInt8.toNat_ofNat']
        omega
      rw [List.length_cons, fromLittleEndian, littleEndian, quotient, ih, lowest]

end Wire

/-- How a compiler lays out the integers that go over a connection: the sizes of the types in
bytes, and which end of a number comes first. -/
structure Abi where
  bigEndian : Bool
  int : Nat
  size_t : Nat
  off_t : Nat
  mode_t : Nat
  int_wide : 4 ≤ int
  off_t_wide : 4 ≤ off_t
  mode_t_wide : 4 ≤ mode_t
  size_t_wide : 4 ≤ size_t

namespace Abi

open Wire

variable (abi : Abi)

/-- The bytes of an integer in memory. -/
def encode (width : Nat) (value : Int) : List UInt8 :=
  let bytes := littleEndian width (value % 256 ^ width).toNat
  if abi.bigEndian then bytes.reverse else bytes

/-- The unsigned integer that bytes in memory stand for. -/
def decode (bytes : List UInt8) : Nat :=
  fromLittleEndian (if abi.bigEndian then bytes.reverse else bytes)

/-- The signed integer that bytes in memory stand for. -/
def decodeInt (bytes : List UInt8) : Int := Int.bmod (abi.decode bytes) (256 ^ bytes.length)

variable {width : Nat} {value : Int}

@[simp] theorem length_encode (width : Nat) (value : Int) :
    (abi.encode width value).length = width := by
  simp only [encode]
  split <;> simp

theorem decode_encode_mod (width : Nat) (value : Int) :
    (abi.decode (abi.encode width value) : Int) = value % 256 ^ width := by
  have inside : (0 : Int) < 256 ^ width := by positivity
  have positive := Int.emod_nonneg value inside.ne'
  have small : (value % 256 ^ width).toNat < 256 ^ width := by
    have below := Int.emod_lt_of_pos value inside
    have cast : ((256 ^ width : Nat) : Int) = 256 ^ width := by push_cast; rfl
    omega
  have bytes : abi.decode (abi.encode width value) =
      fromLittleEndian (littleEndian width (value % 256 ^ width).toNat) := by
    simp only [decode, encode]
    split <;> simp
  rw [bytes, fromLittleEndian_littleEndian, Nat.mod_eq_of_lt small, Int.toNat_of_nonneg positive]

theorem decode_encode {value : Nat} (fits : value < 256 ^ width) :
    abi.decode (abi.encode width value) = value := by
  have cast := abi.decode_encode_mod width value
  rw [Int.emod_eq_of_lt (Int.natCast_nonneg value) (by exact_mod_cast fits)] at cast
  exact_mod_cast cast

theorem decodeInt_encode (above : -(256 ^ width) ≤ 2 * value) (below : 2 * value < 256 ^ width) :
    abi.decodeInt (abi.encode width value) = value := by
  rw [decodeInt, decode_encode_mod, length_encode]
  have cast : ((256 ^ width : Nat) : Int) = 256 ^ width := by push_cast; rfl
  rw [← cast, Int.emod_bmod]
  apply Int.bmod_eq_of_le_mul_two
  · rw [cast]
    omega
  · rw [cast]
    omega

/-- Numbers below `2 ^ 31` fit every type of at least four bytes. -/
theorem decodeInt_encode_small {value : Nat} (wide : 4 ≤ width) (small : value < 2 ^ 31) :
    abi.decodeInt (abi.encode width value) = value := by
  have room : (256 : Int) ^ 4 ≤ 256 ^ width := pow_le_pow_right₀ (by decide) wide
  have four : (256 : Int) ^ 4 = 4294967296 := by norm_num
  apply decodeInt_encode
  · omega
  · omega

theorem decode_lt (bytes : List UInt8) : abi.decode bytes < 256 ^ bytes.length := by
  unfold decode
  split
  · simpa using fromLittleEndian_lt bytes.reverse
  · exact fromLittleEndian_lt bytes

/-- Bytes in memory are determined by the number they stand for. -/
theorem encode_decode (bytes : List UInt8) :
    abi.encode bytes.length (abi.decode bytes) = bytes := by
  have small := abi.decode_lt bytes
  have same : ((abi.decode bytes : Int) % 256 ^ bytes.length).toNat = abi.decode bytes := by
    rw [Int.emod_eq_of_lt (Int.natCast_nonneg _) (by exact_mod_cast small), Int.toNat_natCast]
  unfold encode
  rw [same]
  unfold decode
  split
  · have whole := littleEndian_fromLittleEndian bytes.reverse
    rw [List.length_reverse] at whole
    rw [whole, List.reverse_reverse]
  · exact littleEndian_fromLittleEndian bytes

theorem encode_decodeInt (bytes : List UInt8) :
    abi.encode bytes.length (abi.decodeInt bytes) = bytes := by
  have cast : ((256 ^ bytes.length : Nat) : Int) = 256 ^ bytes.length := by push_cast; rfl
  have same : abi.decodeInt bytes % 256 ^ bytes.length =
      (abi.decode bytes : Int) % 256 ^ bytes.length := by
    rw [decodeInt, ← cast, Int.bmod_emod]
  have whole := abi.encode_decode bytes
  unfold encode at whole ⊢
  rw [same]
  exact whole

end Abi

/-- Integers as on a common 64-bit machine. -/
def plainAbi : Abi where
  bigEndian := false
  int := 4
  size_t := 8
  off_t := 8
  mode_t := 4
  int_wide := le_refl 4
  off_t_wide := by decide
  mode_t_wide := le_refl 4
  size_t_wide := by decide

end SyncTool
