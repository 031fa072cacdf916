import SyncTool.ProgramRuns
import SyncTool.ProgressRecord

set_option autoImplicit false

namespace SyncTool.FileSync

open SyncTool.Path

section

variable {path text : Bytes} {offset total : Nat}

theorem prefix_append_cases {text front back : Bytes} (torn : text <+: front ++ back) :
    text <+: front ∨ ∃ more, text = front ++ more ∧ more <+: back := by
  obtain ⟨rest, whole⟩ := torn
  rcases List.append_eq_append_iff.mp whole with ⟨more, split, -⟩ | ⟨more, split, after⟩
  · exact .inl ⟨more, split.symm⟩
  · exact .inr ⟨more, split, rest, after.symm⟩

/-- What an extraction leaves begins behind the digits. -/
theorem extractOffT_left (text : Bytes) : (extractOffT text).2.2 =
    (if (text.dropWhile isSpace).head? == some 45 || (text.dropWhile isSpace).head? == some 43 then
      (text.dropWhile isSpace).tail else text.dropWhile isSpace).dropWhile isDigit := by
  unfold extractOffT
  dsimp only
  generalize (if ((text.dropWhile isSpace).head? == some 45 ||
    (text.dropWhile isSpace).head? == some 43) = true then (text.dropWhile isSpace).tail
    else text.dropWhile isSpace) = unsigned
  generalize (if ((text.dropWhile isSpace).head? == some 45) = true then
    -(digitsValue (unsigned.takeWhile isDigit) : Int)
      else digitsValue (unsigned.takeWhile isDigit)) = value
  by_cases blank : unsigned.takeWhile isDigit = []
  · rw [if_pos blank]
  · rw [if_neg blank]
    split
    · rfl
    · split
      · rfl
      · rfl

/-- Behind digits that reach the end of the text, nothing is left. -/
theorem extractOffT_digits {digits : Bytes} (all : ∀ byte ∈ digits, isDigit byte = true) :
    (extractOffT (newline :: digits)).2.2 = [] := by
  have skip : (newline :: digits).dropWhile isSpace = digits := by
    rw [List.dropWhile_cons_of_pos (by decide)]
    cases digits with
    | nil => rfl
    | cons first others =>
        have black := isSpace_of_digit (all first List.mem_cons_self)
        rw [List.dropWhile_cons_of_neg (by simp [black])]
  rw [extractOffT_left, skip, List.dropWhile_eq_nil_iff]
  split
  · exact fun byte member => all byte (List.mem_of_mem_tail member)
  · exact all

/-- A text that is one word is read to its end. -/
theorem extractWord_black_text (black : ∀ byte ∈ text, isSpace byte = false) :
    extractWord text = (text, []) := by
  have inside : ∀ byte ∈ text, (!isSpace byte) = true := fun byte member => by
    simp [black byte member]
  have skip : text.dropWhile isSpace = text := by
    cases text with
    | nil => rfl
    | cons first others => rw [List.dropWhile_cons_of_neg (by simp [black first])]
  rw [extractWord, skip, List.span_eq_takeWhile_dropWhile, List.takeWhile_eq_self_iff.mpr inside,
    List.dropWhile_eq_nil_iff.mpr inside]

/-- What is left of a record when it was cut off cannot be resumed from, or only where the whole
record could be. -/
theorem parseProgress_torn (word : OneWord path) (within : offset < 2 ^ 63)
    (torn : text <+: progressRecord path offset total) :
    ¬ (0 < (parseProgress path text).offset ∧ 0 < (parseProgress path text).totalSize) ∨
      (parseProgress path text).offset = offset := by
  have shape : progressRecord path offset total =
      path ++ (newline :: (decimal offset ++ (newline :: (decimal total ++ [newline])))) := by
    simp [progressRecord]
  rw [shape] at torn
  rcases prefix_append_cases torn with inPath | ⟨more, rfl, behindPath⟩
  · left
    have black : ∀ byte ∈ text, isSpace byte = false := fun byte member =>
      word.2 byte (inPath.subset member)
    have nothing : (parseProgress path text).offset = 0 := by
      rw [parseProgress, extractWord_black_text black]
      by_cases same : text = path
      · simp [same, extractOffT]
      · simp [same]
    rw [nothing]
    simp
  · rcases List.prefix_cons_iff.mp behindPath with rfl | ⟨more, rfl, inNumbers⟩
    · left
      have nothing : (parseProgress path (path ++ [])).offset = 0 := by
        rw [List.append_nil, parseProgress, extractWord_black_text word.2]
        simp [extractOffT]
      rw [nothing]
      simp
    · rcases prefix_append_cases inNumbers with inDigits | ⟨rest, rfl, behindDigits⟩
      · left
        have all : ∀ byte ∈ more, isDigit byte = true := fun byte member =>
          decimal_digits byte (inDigits.subset member)
        have nothing : (parseProgress path (path ++ newline :: more)).totalSize = 0 := by
          have left_ := extractOffT_digits all
          rw [parseProgress, extractWord_path word]
          simp only [↓reduceIte, left_]
          split
          · rfl
          · rfl
        rw [nothing]
        simp
      · rcases List.prefix_cons_iff.mp behindDigits with rfl | ⟨rest, rfl, -⟩
        · left
          have nothing :
              (parseProgress path (path ++ newline :: (decimal offset ++ []))).totalSize = 0 := by
            have left_ := @extractOffT_digits (decimal offset) decimal_digits
            rw [List.append_nil, parseProgress, extractWord_path word]
            simp only [↓reduceIte, left_]
            split
            · rfl
            · rfl
          rw [nothing]
          simp
        · right
          have first := @extractOffT_decimal rest offset
          rw [if_neg (by omega), List.cons_append] at first
          rw [parseProgress, extractWord_path word]
          simp only [↓reduceIte, first]

variable {policy : Policy} {spins : Prop} {space : Nat → Prop} {w : World} {p : Path}

/-- Saving without failing calls leaves the whole record. -/
theorem saveProgress_saved
    (sound : ∀ op choice w, policy op choice w → Policy.reliable space op choice w)
    (found : w.fs.resolve (getProgressFilePath path) = some p)
    (proper : ∀ name ∈ p, ProperName name) (notDir : w.fs.entry p ≠ some .dir) :
    Program.Sat (handler policy spins) Interference.free (saveProgress path offset total)
      (fun _ w' => w'.fs.read (getProgressFilePath path) =
        some (progressRecord path offset total)) w := by
  simp only [saveProgress, Program.ask_bind]
  refine Program.sat_op.mpr fun w₁ same₁ choice₁ allowed₁ => ⟨trivial, ?_⟩
  obtain rfl : w = w₁ := same₁
  obtain ⟨opened, change₁⟩ := run_openOut (sound _ _ _ allowed₁).1 found notDir proper false
  rw [opened]
  simp only [↓reduceIte]
  have found₁ := (change₁.dirsKept fun isDir => absurd isDir notDir).resolve found
  have file₁ : _ = some (Entry.file []) := change₁.entry_self
  have blank₁ := change₁.pending_self
  generalize ((Op.openOut (getProgressFilePath path) false).run choice₁ w).2 = w₁ at *
  refine Program.sat_op.mpr fun w₂ same₂ choice₂ allowed₂ => ⟨trivial, ?_⟩
  obtain rfl : w₁ = w₂ := same₂
  have ok₂ : choice₂.fault = .none := sound _ _ _ allowed₂
  obtain ⟨-, through₂, held₂, moved₂, -, change₂⟩ :=
    flush_effect ok₂ found₁ file₁ (progressRecord path offset total)
  rw [blank₁, List.nil_append] at moved₂
  have found₂ := (change₂.dirsKept fun isDir => by simp [file₁] at isDir).resolve found₁
  have file₂ := change₂.entry_self
  have left₂ := change₂.pending_self
  simp only [Op.run]
  generalize (w₁.flush choice₂ (getProgressFilePath path)
    (progressRecord path offset total)).2 = w₂ at *
  refine Program.sat_op.mpr fun w₃ same₃ choice₃ allowed₃ => ⟨trivial, ?_⟩
  obtain rfl : w₂ = w₃ := same₃
  obtain ⟨ok₃, all₃⟩ := sound _ _ _ allowed₃
  obtain ⟨-, through₃, held₃, moved₃, closed₃, change₃⟩ := flush_effect ok₃ found₂ file₂ []
  obtain rfl := closed₃ all₃
  rw [left₂, List.append_nil, List.append_nil] at moved₃
  subst moved₃
  have found₃ := (change₃.dirsKept fun isDir => by simp [file₂] at isDir).resolve found₂
  rintro w₄ rfl
  refine FileSystem.read_eq_some.mpr ⟨p, found₃, ?_⟩
  have file₃ := change₃.entry_self
  rwa [List.nil_append, moved₂] at file₃

/-- Loading without failing calls gives what the record's file says. -/
theorem loadProgress_loaded
    (sound : ∀ op choice w, policy op choice w → Policy.reliable space op choice w)
    (read : w.fs.read (getProgressFilePath path) = some text) :
    Program.Sat (handler policy spins) Interference.free (loadProgress path)
      (fun progress _ => progress = parseProgress path text) w := by
  obtain ⟨perm, mtime, stat⟩ := FileSystem.stat_of_read read
  simp only [loadProgress, Program.ask_bind]
  refine Program.sat_read (fun _ _ => rfl) fun w₁ same₁ choice₁ allowed₁ => ?_
  obtain rfl : w = w₁ := same₁
  simp only [(sound _ _ _ allowed₁).1, decide_true, stat, Option.isSome_some, Bool.and_self,
    ↓reduceIte]
  refine Program.sat_read (fun _ _ => rfl) fun w₂ same₂ choice₂ allowed₂ => ?_
  obtain rfl : w = w₂ := same₂
  rw [if_pos (sound _ _ _ allowed₂).1, read]
  exact fun w₃ same₃ => rfl

/-- Saving and then loading gives what the whole record says. -/
theorem loadProgress_after
    (sound : ∀ op choice w, policy op choice w → Policy.reliable space op choice w)
    (found : w.fs.resolve (getProgressFilePath path) = some p)
    (proper : ∀ name ∈ p, ProperName name) (notDir : w.fs.entry p ≠ some .dir) :
    Program.Sat (handler policy spins) Interference.free
      (do saveProgress path offset total; loadProgress path)
      (fun progress _ => progress = parseProgress path (progressRecord path offset total)) w := by
  apply Program.Sat.bind
  apply (saveProgress_saved sound found proper notDir).weaken
  intro _ w' read
  exact loadProgress_loaded sound read

/-- A record is read back exactly if its path has no blank in it. -/
theorem loadProgress_saved_iff (nonempty : path ≠ []) (positive : 0 < offset)
    (within : offset < 2 ^ 63) (fits : total < 2 ^ 63)
    (found : w.fs.resolve (getProgressFilePath path) = some p)
    (proper : ∀ name ∈ p, ProperName name) (notDir : w.fs.entry p ≠ some .dir) :
    Program.Returns (handler (Policy.reliable fun _ => True) False).exec
        (fun (progress : SyncProgress) _ => progress.offset = offset ∧ progress.totalSize = total)
        (do saveProgress path offset total; loadProgress path) w ↔
      ∀ byte ∈ path, isSpace byte = false := by
  have holds : Program.Sat (handler (Policy.reliable fun _ => True) False) Interference.free
      (do saveProgress path offset total; loadProgress path) _ w :=
    loadProgress_after (fun _ _ _ allowed => allowed) found proper notDir
  have answered : ∀ op s, ∃ answer s',
      (handler (Policy.reliable fun _ => True) False).exec op s answer s' := fun op s =>
    ⟨_, _, Policy.quietly_reliable (fun _ => True) False 0 trivial op s⟩
  constructor
  · intro exact_ byte member
    by_contra space
    have broken : ¬ OneWord path := fun word => space (by simpa using word.2 byte member)
    obtain ⟨progress, w', run, same, -⟩ := exact_.exists_run
    have told : progress = _ := holds.returned run
    have nothing := loaded_of_not_word broken (some (progressRecord path offset total))
    rw [told] at same
    rw [loaded, same] at nothing
    omega
  · intro black
    have whole : loaded path (some (progressRecord path offset total)) = _ :=
      loaded_record (And.intro nonempty black) within
    rw [if_neg (by omega)] at whole
    have exact_ := holds.weaken fun progress _ told =>
      show progress.offset = offset ∧ progress.totalSize = total by
        have same : progress = _ := told.trans whole
        simp [same]
    exact exact_.returns id answered

/-- Whatever fails, loading a record that was cut off anywhere gives nothing to resume from, or
the offset that was saved. -/
theorem loadProgress_torn (word : OneWord path) (within : offset < 2 ^ 63)
    (torn : text <+: progressRecord path offset total)
    (read : w.fs.read (getProgressFilePath path) = some text) :
    Program.Returns (handler (fun _ _ _ => True) False).exec
      (fun (progress : SyncProgress) _ => ¬ (0 < progress.offset ∧ 0 < progress.totalSize) ∨
        progress.offset = offset)
      (loadProgress path) w := by
  have holds : Program.Sat (handler (fun _ _ _ => True) False) Interference.free (loadProgress path)
      (fun (progress : SyncProgress) _ => ¬ (0 < progress.offset ∧ 0 < progress.totalSize) ∨
        progress.offset = offset)
      w := by
    simp only [loadProgress, Program.ask_bind]
    refine Program.sat_read (fun _ _ => rfl) fun w₁ same₁ choice₁ _ => ?_
    obtain rfl : w = w₁ := same₁
    apply Program.Sat.ite
    · intro _
      refine Program.sat_read (fun _ _ => rfl) fun w₂ same₂ choice₂ _ => ?_
      obtain rfl : w = w₂ := same₂
      rw [read, Option.getD_some]
      intro w₃ _
      apply @parseProgress_torn path _ offset total word within
      -- what a failing read delivers is cut off again
      split
      · exact torn
      · exact (List.take_prefix _ _).trans torn
    · intro _ w₂ _
      simp
  exact holds.returns id fun op s => ⟨_, _, ⟨0, .none, none, []⟩, trivial, rfl⟩

end

theorem loadProgress_saved_plain :
    Program.Returns (handler (Policy.reliable fun _ => True) False).exec
    (fun (progress : SyncProgress) _ => progress.offset = 1 ∧ progress.totalSize = 2)
    (do saveProgress [47, 97] 1 2; loadProgress [47, 97]) (World.boot FileSystem.empty) :=
  (loadProgress_saved_iff (p := [[97] ++ progressSuffix]) (by decide) (by decide)
    (by decide +kernel) (by decide +kernel)
    (by decide +kernel) (by decide) (by decide +kernel)).mpr (by decide +kernel)

/-- The record of `/a b` is taken for one of `/a`. -/
theorem loadProgress_blank : ¬ Program.Returns (handler (Policy.reliable fun _ => True) False).exec
    (fun (progress : SyncProgress) _ => progress.offset = 1 ∧ progress.totalSize = 2)
    (do saveProgress [47, 97, 32, 98] 1 2; loadProgress [47, 97, 32, 98])
    (World.boot FileSystem.empty) := by
  intro exact_
  obtain ⟨progress, w', run, same, -⟩ := exact_.exists_run
  have holds : Program.Sat (handler (Policy.reliable fun _ => True) False) Interference.free
      (do saveProgress [47, 97, 32, 98] 1 2; loadProgress [47, 97, 32, 98]) _
      (World.boot FileSystem.empty) :=
    loadProgress_after (p := [[97, 32, 98] ++ progressSuffix]) (fun _ _ _ allowed => allowed)
      (by decide +kernel) (by decide) (by decide +kernel)
  have told : progress = _ := holds.returned run
  rw [told] at same
  exact absurd same (by decide)

/-- `/d` was being recorded at 12 of 34 bytes. -/
def tornFs : FileSystem :=
  FileSystem.empty.put [[100] ++ progressSuffix]
    (.file [47, 100, 10, 49, 50, 10, 51] 0o644 0)

theorem loadProgress_torn_plain : Program.Returns (handler (fun _ _ _ => True) False).exec
    (fun (progress : SyncProgress) _ =>
      ¬ (0 < progress.offset ∧ 0 < progress.totalSize) ∨ progress.offset = (12 : Nat))
    (loadProgress [47, 100]) (World.boot tornFs) :=
  loadProgress_torn ⟨by decide, by decide +kernel⟩ (by omega)
    (show [47, 100, 10, 49, 50, 10, 51] <+: progressRecord [47, 100] 12 34 by decide)
      (by decide +kernel)

end SyncTool.FileSync
