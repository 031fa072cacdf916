import Mathlib.Algebra.Group.Nat.Defs
import Mathlib.Data.List.TakeWhile
import SyncTool.SyncFile

set_option autoImplicit false

namespace SyncTool.FileSync

open SyncTool.Path

/-- A path that `>>` reads as one word. -/
def OneWord (path : Bytes) : Prop := path ≠ [] ∧ ∀ byte ∈ path, isSpace byte = false

section

variable {path rest : Bytes} {value offset total : Nat}

theorem digit_toNat {digit : Char} (isDigit_ : digit.isDigit = true) :
    (UInt8.ofNat digit.toNat).toNat = digit.toNat ∧ 48 ≤ digit.toNat ∧ digit.toNat ≤ 57 := by
  simp only [Char.isDigit, Bool.and_eq_true, decide_eq_true_eq] at isDigit_
  have lower : 48 ≤ digit.toNat := isDigit_.1
  have upper : digit.toNat ≤ 57 := isDigit_.2
  refine ⟨?_, lower, upper⟩
  rw [UInt8.toNat_ofNat']
  omega

theorem decimal_digits : ∀ byte ∈ decimal value, isDigit byte = true := by
  intro byte member
  obtain ⟨digit, inside, rfl⟩ := List.mem_map.mp member
  obtain ⟨same, lower, upper⟩ :=
    digit_toNat (Nat.isDigit_of_mem_toDigits (by decide) (by decide) inside)
  simp only [isDigit, Bool.and_eq_true, decide_eq_true_eq, UInt8.le_iff_toNat_le, same]
  exact ⟨lower, upper⟩

theorem decimal_ne_nil : decimal value ≠ [] := by
  simp [decimal, Nat.toDigits_ne_nil]

theorem digitsValue_decimal : digitsValue (decimal value) = value := by
  have each : ∀ digits : List Char, (∀ digit ∈ digits, digit.isDigit = true) → ∀ start,
      (digits.map fun digit => UInt8.ofNat digit.toNat).foldl
        (fun value digit => 10 * value + (digit.toNat - 48)) start =
      Nat.ofDigitChars 10 digits start := by
    intro digits
    induction digits with
    | nil => simp
    | cons digit digits ih =>
        intro all start
        rw [List.map_cons, List.foldl_cons, Nat.ofDigitChars_cons,
          (digit_toNat (all digit (by simp))).1]
        exact ih (fun other member => all other (by simp [member])) _
  rw [digitsValue, decimal, each _ fun digit member =>
    Nat.isDigit_of_mem_toDigits (by decide) (by decide) member]
  exact Nat.ofDigitChars_ten_toDigits

theorem isSpace_of_digit {byte : UInt8} (digit : isDigit byte = true) : isSpace byte = false := by
  simp only [isDigit, Bool.and_eq_true, decide_eq_true_eq, UInt8.le_iff_toNat_le] at digit
  have lower : 48 ≤ byte.toNat := digit.1
  simp only [isSpace, Bool.or_eq_false_iff, beq_eq_false_iff_ne, Bool.and_eq_false_iff,
    decide_eq_false_iff_not, UInt8.le_iff_toNat_le]
  refine ⟨fun same => ?_, .inr fun upper => ?_⟩
  · rw [same] at lower
    exact absurd lower (by decide)
  · have bound : byte.toNat ≤ 13 := upper
    omega

/-- A number that was printed is read back, and what follows its line break is left. -/
theorem extractOffT_decimal :
    extractOffT (newline :: decimal value ++ newline :: rest) =
      if 2 ^ 63 ≤ value then (2 ^ 63 - 1, false, newline :: rest)
      else ((value : Int), true, newline :: rest) := by
  obtain ⟨first, digits, split⟩ := List.exists_cons_of_ne_nil (@decimal_ne_nil value)
  have digit : isDigit first = true := decimal_digits first (by rw [split]; simp)
  have noSign : first ≠ 45 ∧ first ≠ 43 := by
    constructor <;> rintro rfl <;> exact absurd digit (by decide)
  have skip : (newline :: decimal value ++ newline :: rest).dropWhile isSpace =
      decimal value ++ newline :: rest := by
    rw [List.cons_append, List.dropWhile_cons_of_pos (by decide), split, List.cons_append,
      List.dropWhile_cons_of_neg (by simp [isSpace_of_digit digit])]
  have head : (decimal value ++ newline :: rest).head? = some first := by simp [split]
  have taken : (decimal value ++ newline :: rest).takeWhile isDigit = decimal value := by
    rw [List.takeWhile_append_of_pos decimal_digits, List.takeWhile_cons_of_neg (by decide),
      List.append_nil]
  have left : (decimal value ++ newline :: rest).dropWhile isDigit = newline :: rest := by
    rw [List.dropWhile_append_of_pos decimal_digits, List.dropWhile_cons_of_neg (by decide)]
  have minus : (some first == some (45 : UInt8)) = false := by simp [noSign]
  have plus : (some first == some (43 : UInt8)) = false := by simp [noSign]
  simp only [extractOffT, skip, head, minus, plus, Bool.or_self, Bool.false_eq_true, ↓reduceIte,
    taken, left, decimal_ne_nil, digitsValue_decimal]
  by_cases large : 2 ^ 63 ≤ value
  · rw [if_pos large, if_pos (by exact_mod_cast large)]
  · rw [if_neg large, if_neg (by exact_mod_cast large), if_neg (by omega)]

theorem extractWord_path (word : OneWord path) :
    extractWord (path ++ newline :: rest) = (path, newline :: rest) := by
  obtain ⟨nonempty, black⟩ := word
  obtain ⟨first, others, rfl⟩ := List.exists_cons_of_ne_nil nonempty
  have inside : ∀ byte ∈ first :: others, (!isSpace byte) = true := fun byte member => by
    simp [black byte member]
  rw [extractWord, List.cons_append, List.dropWhile_cons_of_neg (by simp [black first]),
    ← List.cons_append, List.span_eq_takeWhile_dropWhile, List.takeWhile_append_of_pos inside,
    List.dropWhile_append_of_pos inside, List.takeWhile_cons_of_neg (by decide),
    List.dropWhile_cons_of_neg (by decide), List.append_nil]

/-- A record of a path in one word is read back; a total out of range is cut down to it. -/
theorem loaded_record (word : OneWord path) (within : offset < 2 ^ 63) :
    loaded path (some (progressRecord path offset total)) =
      ⟨path, offset, if 2 ^ 63 ≤ total then 2 ^ 63 - 1 else (total : Int)⟩ := by
  have shape : progressRecord path offset total =
      path ++ newline :: (decimal offset ++ newline :: (decimal total ++ [newline])) := by
    simp [progressRecord]
  have first := @extractOffT_decimal (decimal total ++ [newline]) offset
  have second := @extractOffT_decimal [] total
  rw [if_neg (by omega)] at first
  rw [List.cons_append] at first second
  rw [loaded, shape, parseProgress, extractWord_path word]
  simp only [↓reduceIte, first, second]
  split <;> rfl

/-- What is read as a word has no blank in it, and if it is empty, nothing is left. -/
theorem extractWord_black (text : Bytes) :
    (∀ byte ∈ (extractWord text).1, isSpace byte = false) ∧
      ((extractWord text).1 = [] → (extractWord text).2 = []) := by
  rw [extractWord, List.span_eq_takeWhile_dropWhile]
  refine ⟨fun byte member => by simpa using List.mem_takeWhile_imp member, fun empty => ?_⟩
  cases left : text.dropWhile isSpace with
  | nil => rfl
  | cons first others =>
      exfalso
      have black : isSpace first = false := by
        have found := List.head_dropWhile_not isSpace (l := text) (by simp [left])
        simpa [left] using found
      simp [left, black] at empty

/-- Nothing is ever read of a path that is not one word. -/
theorem loaded_of_not_word (broken : ¬ OneWord path) (t : Option Bytes) :
    (loaded path t).offset = 0 := by
  cases t with
  | none => rfl
  | some text =>
      obtain ⟨black, ended⟩ := extractWord_black text
      rcases read : extractWord text with ⟨savedPath, rest⟩
      rw [read] at black ended
      rw [loaded, parseProgress, read]
      by_cases same : savedPath = path
      · subst same
        by_cases empty : savedPath = []
        · obtain rfl : rest = [] := ended empty
          simp [extractOffT]
        · exact absurd ⟨empty, black⟩ broken
      · simp [same]

end

end SyncTool.FileSync
