import Mathlib.Algebra.Group.Nat.Defs
import SyncTool.TransferFile

set_option autoImplicit false

namespace SyncTool

open SyncTool.Path FileSync World

namespace FileSync

def chunkStart (i : Nat) : Nat := i * ASYNC_CHUNK_SIZE

def chunkLength (size i : Nat) : Nat := min ASYNC_CHUNK_SIZE (size - chunkStart i)

/-- How many chunk tasks a copy from the start forks. -/
def chunkCount (size : Nat) : Nat := (numChunks size 0).toNat

/-- What the chunk tasks make of a source: the chunks they cover, and zeros for the rest. -/
def asyncImage (c : Bytes) : Bytes :=
  c.take (chunkStart (chunkCount c.length)) ++
    List.replicate (c.length - chunkStart (chunkCount c.length)) 0

theorem numChunks_eq (size : Nat) :
    numChunks size 0 = toInt32
      (((size + ASYNC_CHUNK_SIZE - 1) / ASYNC_CHUNK_SIZE : Nat) : Int) := by
  have cast : ((size : Int) - (0 : Nat) + ASYNC_CHUNK_SIZE - 1) =
      ((size + ASYNC_CHUNK_SIZE - 1 : Nat) : Int) := by
    simp only [ASYNC_CHUNK_SIZE]
    omega
  rw [numChunks, cast, Int.tdiv_eq_ediv_of_nonneg (by omega), Int.natCast_ediv]

/-- Every chunk begins inside the file. -/
theorem chunkStart_lt {size i : Nat} (lower : i < chunkCount size) : chunkStart i < size := by
  have bound := toInt32_le (Int.natCast_nonneg ((size + ASYNC_CHUNK_SIZE - 1) / ASYNC_CHUNK_SIZE))
  rw [← numChunks_eq] at bound
  rw [chunkCount] at lower
  simp only [chunkStart, ASYNC_CHUNK_SIZE] at bound ⊢
  omega

theorem asyncImage_eq {c : Bytes} (small : c.length ≤ (2 ^ 31 - 1) * ASYNC_CHUNK_SIZE) :
    asyncImage c = c := by
  have exact : toInt32 (((c.length + ASYNC_CHUNK_SIZE - 1) / ASYNC_CHUNK_SIZE : Nat) : Int) =
      (((c.length + ASYNC_CHUNK_SIZE - 1) / ASYNC_CHUNK_SIZE : Nat) : Int) := by
    refine toInt32_of_lt (Int.natCast_nonneg _) ?_
    simp only [ASYNC_CHUNK_SIZE] at small ⊢
    omega
  have covered : c.length ≤ chunkStart (chunkCount c.length) := by
    rw [chunkCount, numChunks_eq, exact, Int.toNat_natCast]
    simp only [chunkStart, ASYNC_CHUNK_SIZE]
    omega
  rw [asyncImage, List.take_of_length_le covered, Nat.sub_eq_zero_of_le covered]
  simp

/-- The chunks that are counted leave out nothing but zeros. -/
def ChunksCover (c : Bytes) : Prop :=
  ∀ byte ∈ c.drop (chunkStart (chunkCount c.length)), byte = 0

theorem asyncImage_eq_iff {c : Bytes} : asyncImage c = c ↔ ChunksCover c := by
  have whole := List.take_append_drop (chunkStart (chunkCount c.length)) c
  have length : (c.drop (chunkStart (chunkCount c.length))).length =
      c.length - chunkStart (chunkCount c.length) := List.length_drop
  constructor
  · intro same
    rw [asyncImage] at same
    have rest := List.append_cancel_left (same.trans whole.symm)
    intro byte member
    rw [← rest] at member
    exact List.eq_of_mem_replicate member
  · intro zeros
    have rest := List.eq_replicate_iff.mpr ⟨length, zeros⟩
    rw [asyncImage, ← rest, whole]

/-- A file that agrees with the source on every chunk and is zero behind them. -/
theorem eq_asyncImage {c f : Bytes} (length : f.length = c.length)
    (chunks : ∀ i < chunkCount c.length,
      slice f (chunkStart i) (chunkLength c.length i) =
        slice c (chunkStart i) (chunkLength c.length i))
    (rest : f.drop (chunkStart (chunkCount c.length)) =
      List.replicate (c.length - chunkStart (chunkCount c.length)) 0) :
    f = asyncImage c := by
  have front : ∀ n ≤ chunkCount c.length, f.take (chunkStart n) = c.take (chunkStart n) := by
    intro n
    induction n with
    | zero => simp [chunkStart]
    | succ n ih =>
        intro bound
        have same := chunks n (by omega)
        have whole := slice_min f (chunkStart n) ASYNC_CHUNK_SIZE
        rw [length] at whole
        rw [chunkLength, whole, slice_min] at same
        have next : chunkStart (n + 1) = chunkStart n + ASYNC_CHUNK_SIZE := Nat.succ_mul _ _
        rw [next, ← take_append_slice, ← take_append_slice, ih (by omega), same]
  rw [asyncImage, ← front _ le_rfl, ← rest, List.take_append_drop]

/-- What the other chunk tasks and other copies may do while chunk `i` is copied. -/
structure ChunkRely (k : Copy) (i : Nat) (w w' : World) : Prop where
  dirs : FileSystem.DirsKept w.fs w'.fs
  src : w'.fs.entry k.src = w.fs.entry k.src
  held : w'.pending k.dest = w.pending k.dest
  dest : ∀ f, w.fs.entry k.dest = some (.file f) → ∃ f', w'.fs.entry k.dest = some (.file f') ∧
    f'.length = f.length ∧
    slice f' (chunkStart i) ASYNC_CHUNK_SIZE = slice f (chunkStart i) ASYNC_CHUNK_SIZE
  record : w.fs.entry k.record ≠ some .dir → w'.fs.entry k.record ≠ some .dir
  noError : (w.shared k.destPath).hasError = false → (w'.shared k.destPath).hasError = false

/-- What the task of chunk `i` does. -/
structure ChunkGuar (k : Copy) (e : Estate) (i : Nat) (w w' : World) : Prop where
  own : e.Guar w w'
  src : w'.fs.entry k.src = w.fs.entry k.src
  held : w'.pending k.dest = w.pending k.dest
  dest : ∀ f, w.fs.entry k.dest = some (.file f) → ∃ f', w'.fs.entry k.dest = some (.file f') ∧
    f'.length = f.length ∧ f'.take (chunkStart i) = f.take (chunkStart i) ∧
    f'.drop (chunkStart (i + 1)) = f.drop (chunkStart (i + 1))
  record : w.fs.entry k.record ≠ some .dir → w'.fs.entry k.record ≠ some .dir
  noError : (w.shared k.destPath).hasError = false → (w'.shared k.destPath).hasError = false

theorem ChunkRely.refl (k : Copy) (i : Nat) (w : World) : ChunkRely k i w w :=
  ⟨.refl _, rfl, rfl, fun f h => ⟨f, h, rfl, rfl⟩, id, id⟩

theorem ChunkGuar.refl (k : Copy) (e : Estate) (i : Nat) (w : World) : ChunkGuar k e i w w :=
  ⟨.refl e w, rfl, rfl, fun f h => ⟨f, h, rfl, rfl, rfl⟩, id, id⟩

theorem ChunkRely.trans {k : Copy} {i : Nat} {w₁ w₂ w₃ : World} (first : ChunkRely k i w₁ w₂)
    (second : ChunkRely k i w₂ w₃) : ChunkRely k i w₁ w₃ where
  dirs := first.dirs.trans second.dirs
  src := second.src.trans first.src
  held := second.held.trans first.held
  dest f h := by
    obtain ⟨f', h', length', part'⟩ := first.dest f h
    obtain ⟨f'', h'', length'', part''⟩ := second.dest f' h'
    exact ⟨f'', h'', length''.trans length', part''.trans part'⟩
  record := second.record ∘ first.record
  noError := second.noError ∘ first.noError

def chunkInterference (k : Copy) (e : Estate) (i : Nat) : Interference World where
  rely := ChunkRely k i
  guar := ChunkGuar k e i
  rely_refl := ChunkRely.refl k i
  rely_trans _ _ _ := ChunkRely.trans
  guar_refl := ChunkGuar.refl k e i

theorem chunkStart_mono {i j : Nat} (le : i ≤ j) : chunkStart i ≤ chunkStart j :=
  Nat.mul_le_mul_right _ le

theorem chunkStart_succ (i : Nat) : chunkStart (i + 1) = chunkStart i + ASYNC_CHUNK_SIZE :=
  Nat.succ_mul _ _

/-- The tasks of two chunks do not disturb each other. -/
theorem ChunkGuar.rely {k : Copy} {e : Estate} {i j : Nat} (other : i ≠ j) {w w' : World}
    (did : ChunkGuar k e j w w') : ChunkRely k i w w' where
  dirs := did.own.dirs
  src := did.src
  held := did.held
  dest f h := by
    obtain ⟨f', h', length, front, back⟩ := did.dest f h
    refine ⟨f', h', length, ?_⟩
    rcases Nat.lt_or_gt_of_ne other with before | after
    · refine slice_of_take front ?_
      rw [← chunkStart_succ]
      exact chunkStart_mono before
    · exact slice_of_drop back (chunkStart_mono after)
  record := did.record
  noError := did.noError

theorem Estate.Rely.chunk {k : Copy} {e : Estate} (own : k.Owned e) {w w' : World}
    (drift : e.Rely w w') (i : Nat) : ChunkRely k i w w' where
  dirs := drift.dirs
  src := drift.reads _ own.src
  held := drift.pending _ own.dest
  dest f h := ⟨f, (drift.writes _ own.dest).trans h, rfl, rfl⟩
  record notDir := by rwa [drift.writes _ own.record]
  noError h := by rwa [drift.keys _ own.key]

/-- The task of chunk `i` has written `m` bytes. -/
structure ChunkAt (k : Copy) (c : Bytes) (i m : Nat) (w : World) : Prop where
  srcFound : w.fs.resolve k.srcPath = some k.src
  source : w.fs.entry k.src = some (.file c)
  destFound : w.fs.resolve k.destPath = some k.dest
  dest : ∃ f, w.fs.entry k.dest = some (.file f) ∧ f.length = c.length ∧
    slice f (chunkStart i) m = slice c (chunkStart i) m
  recordFound : w.fs.resolve (getProgressFilePath k.destPath) = some k.record
  record : w.fs.entry k.record ≠ some .dir
  noError : (w.shared k.destPath).hasError = false

theorem ChunkAt.rely {k : Copy} {c : Bytes} {i m : Nat} {w w' : World} (here : ChunkAt k c i m w)
    (inside : m ≤ ASYNC_CHUNK_SIZE) (drift : ChunkRely k i w w') : ChunkAt k c i m w' where
  srcFound := drift.dirs.resolve here.srcFound
  source := drift.src.trans here.source
  destFound := drift.dirs.resolve here.destFound
  dest := by
    obtain ⟨f, h, length, part⟩ := here.dest
    obtain ⟨f', h', length', part'⟩ := drift.dest f h
    refine ⟨f', h', length'.trans length, ?_⟩
    rw [← take_slice f' _ inside, part', take_slice f _ inside, part]
  recordFound := drift.dirs.resolve here.recordFound
  record := drift.record here.record
  noError := drift.noError here.noError

section

variable {self : FileSync} {policy : Policy} {spins : Prop} {space : Nat → Prop} {e : Estate}
  {k : Copy} {c : Bytes} {w : World}

/-- Reading a range of a file that nobody writes. -/
theorem robustPread_keeps (sound : ∀ op choice w, policy op choice w →
      Policy.reliable space op choice w)
    {I : Interference World} {A : World → Prop} {path : Bytes}
    (stable : ∀ w w', I.rely w w' → A w → A w') (source : ∀ w, A w → w.fs.read path = some c)
    (here : A w) {count offset fuel : Nat} {buffer : Bytes}
    (sofar : buffer = slice c offset buffer.length) (within : buffer.length ≤ count)
    (enough : spins ∨ count - buffer.length < fuel) :
    Program.Sat (handler policy spins) I (robustPread path count offset fuel buffer)
      (fun read w' => read = some (slice c offset count) ∧ A w') w := by
  induction fuel generalizing buffer w with
  | zero =>
      rcases enough with spin | impossible
      · exact spin
      · omega
  | succ fuel ih =>
      rw [robustPread]
      by_cases more : buffer.length < count
      · rw [if_pos more, Program.ask_bind]
        refine Program.sat_op.mpr fun w₁ drift₁ choice allowed => ?_
        have now₁ := stable _ _ drift₁ here
        obtain ⟨ok, some⟩ := sound _ _ _ allowed
        have split := slice_add c offset buffer.length (count - buffer.length)
        rw [Nat.add_sub_cancel' within, ← sofar] at split
        simp only [Op.run, ok, source w₁ now₁, Option.getD_some]
        refine ⟨I.guar_refl w₁, ?_⟩
        generalize slice c (offset + buffer.length) (count - buffer.length) = block at split
        by_cases done : block.take (choice.limit block.length) = []
        · rw [if_pos done]
          have empty : block = [] := by
            by_contra nonempty
            have positive := Choice.limit_pos some (List.length_pos_iff.mpr nonempty)
            have none := congrArg List.length done
            have below := choice.limit_le block.length
            rw [List.length_take, List.length_nil] at none
            omega
          rw [empty, List.append_nil] at split
          exact fun w₂ drift₂ => ⟨by rw [split], stable _ _ drift₂ now₁⟩
        · rw [if_neg done]
          have long : (slice c offset count).length ≤ count := by
            rw [length_slice]
            omega
          have positive := List.length_pos_iff.mpr done
          have longer : (buffer ++ block.take (choice.limit block.length)).length ≤ count := by
            rw [split, List.length_append] at long
            rw [List.length_append, List.length_take]
            omega
          refine ih now₁ ?_ longer ?_
          · rw [← take_slice c offset longer, split]
            exact List.prefix_iff_eq_take.mp
              ((List.prefix_append_right_inj buffer).mpr (List.take_prefix _ _))
          · rcases enough with spin | bound
            · exact .inl spin
            · right
              rw [List.length_append]
              omega
      · rw [if_neg more]
        have full : buffer.length = count := by omega
        rw [full] at sofar
        exact fun w₁ drift₁ => ⟨by rw [← sofar], stable _ _ drift₁ here⟩

/-- One `pwrite` of a piece of chunk `i`, right behind the bytes already written. -/
theorem ChunkAt.write {i m : Nat} {w' : World} {piece : Bytes} (own : k.Owned e)
    (here : ChunkAt k c i m w) {f : Bytes} (file : w.fs.entry k.dest = some (.file f))
    (inside : m + piece.length ≤ ASYNC_CHUNK_SIZE)
    (within : chunkStart i + m + piece.length ≤ c.length)
    (next : slice c (chunkStart i) m ++ piece = slice c (chunkStart i) (m + piece.length))
    (change : Change k.dest (some (.file (splice f (chunkStart i + m) piece))) (w.pending k.dest)
      w w') :
    ChunkGuar k e i w w' ∧ ChunkAt k c i (m + piece.length) w' := by
  obtain ⟨old, same, length, part⟩ := here.dest
  obtain rfl : f = old := by
    rw [file] at same
    cases same
    rfl
  have notDir : w.fs.entry k.dest ≠ some .dir := by simp [file]
  have kept := change.dirsKept fun isDir => absurd isDir notDir
  have end_le : chunkStart i + m + piece.length ≤ chunkStart (i + 1) := by
    rw [chunkStart_succ]
    omega
  rw [← length] at within
  refine ⟨?_, ?_⟩
  · exact {
      own := Estate.guar_of_change change own.dest fun isDir => absurd isDir notDir
      src := change.entry_ne k.srcDest
      held := change.pending_self
      dest := by
        intro old same
        obtain rfl : f = old := by
          rw [file] at same
          cases same
          rfl
        exact ⟨_, change.entry_self, length_splice within, take_splice within (by omega),
          drop_splice within end_le⟩
      record := by rw [change.entry_ne k.destRecord.symm]; exact id
      noError := by rw [change.shared]; exact id }
  · exact {
      srcFound := kept.resolve here.srcFound
      source := (change.entry_ne k.srcDest).trans here.source
      destFound := kept.resolve here.destFound
      dest := ⟨_, change.entry_self, (length_splice within).trans length,
        by rw [slice_splice within, part, next]⟩
      recordFound := kept.resolve here.recordFound
      record := by rw [change.entry_ne k.destRecord.symm]; exact here.record
      noError := by rw [change.shared]; exact here.noError }

/-- A change of the record, seen by the task of a chunk. -/
theorem ChunkAt.of_record {i m : Nat} {w' : World} {text rest : Bytes} (own : k.Owned e)
    (here : ChunkAt k c i m w) (change : Change k.record (some (.file text)) rest w w') :
    ChunkGuar k e i w w' ∧ ChunkAt k c i m w' := by
  have kept := change.dirsKept fun isDir => absurd isDir here.record
  have guar : ChunkGuar k e i w w' := {
    own := Estate.guar_of_change change own.record fun isDir => absurd isDir here.record
    src := change.entry_ne k.srcRecord
    held := change.pending_ne k.destRecord
    dest := fun f h => ⟨f, (change.entry_ne k.destRecord).trans h, rfl, rfl, rfl⟩
    record := fun _ => by simp [change.entry_self]
    noError := fun h => by rwa [change.shared] }
  obtain ⟨f, file, length, part⟩ := here.dest
  exact ⟨guar, {
    srcFound := kept.resolve here.srcFound
    source := guar.src.trans here.source
    destFound := kept.resolve here.destFound
    dest := ⟨f, (change.entry_ne k.destRecord).trans file, length, part⟩
    recordFound := kept.resolve here.recordFound
    record := guar.record here.record
    noError := guar.noError here.noError }⟩

theorem robustPwrite_sat (sound : ∀ op choice w, policy op choice w →
      Policy.reliable space op choice w)
    (own : k.Owned e) {i m fuel : Nat} {data : Bytes} (here : ChunkAt k c i m w)
    (part : data = slice c (chunkStart i) data.length) (inside : data.length ≤ ASYNC_CHUNK_SIZE)
    (within : chunkStart i + data.length ≤ c.length) (sofar : m ≤ data.length)
    (enough : spins ∨ data.length - m < fuel) :
    Program.Sat (handler policy spins) (chunkInterference k e i)
      (robustPwrite k.destPath data (chunkStart i) fuel m)
      (fun written w' => written = some data.length ∧ ChunkAt k c i data.length w') w := by
  induction fuel generalizing m w with
  | zero =>
      rcases enough with spin | impossible
      · exact spin
      · omega
  | succ fuel ih =>
      rw [robustPwrite]
      by_cases more : m < data.length
      · rw [if_pos more, Program.ask_bind]
        refine Program.sat_op.mpr fun w₁ drift₁ choice allowed => ?_
        have now₁ := here.rely (by omega) drift₁
        obtain ⟨ok, some⟩ := sound _ _ _ allowed
        obtain ⟨f, file, -⟩ := now₁.dest
        obtain ⟨answer, change⟩ := run_pwrite ok now₁.destFound file (chunkStart i + m)
          (data.drop m)
        have below := choice.limit_le (data.drop m).length
        have length : ((data.drop m).take (choice.limit (data.drop m).length)).length =
            choice.limit (data.drop m).length := by
          rw [List.length_take]
          omega
        rw [List.length_drop] at below
        have positive := Choice.limit_pos some
          (show 0 < (data.drop m).length by rw [List.length_drop]; omega)
        have next : slice c (chunkStart i) m ++
            (data.drop m).take (choice.limit (data.drop m).length) =
              slice c (chunkStart i) (m + (choice.limit (data.drop m).length)) := by
          rw [List.length_drop] at positive ⊢
          rw [← take_slice c (chunkStart i) sofar, ← part,
            ← take_slice c (chunkStart i) (show _ ≤ data.length by omega), ← part, List.take_add]
        rw [List.length_drop] at positive
        have wrote := ChunkAt.write own now₁ file (by rw [length, List.length_drop]; omega)
          (by rw [length, List.length_drop]; omega) (by rw [length]; exact next) change
        rw [length] at wrote
        rw [answer]
        refine ⟨wrote.1, ?_⟩
        simp only [List.length_drop] at wrote ⊢
        rw [if_neg (by omega)]
        refine ih wrote.2 (by omega) ?_
        rcases enough with spin | bound
        · exact .inl spin
        · exact .inr (by omega)
      · rw [if_neg more]
        obtain rfl : m = data.length := by omega
        exact fun w₁ drift₁ => ⟨rfl, here.rely inside drift₁⟩

/-- The copy of chunk `i`, of `chunkLength` bytes. -/
theorem transferChunk_sat (sound : ∀ op choice w, policy op choice w →
      Policy.reliable space op choice w)
    (own : k.Owned e) {i fuel : Nat} (here : ChunkAt k c i 0 w)
    (starts : chunkStart i < c.length) (enough : spins ∨ ASYNC_CHUNK_SIZE < fuel) :
    Program.Sat (handler policy spins) (chunkInterference k e i)
      (transferChunk fuel k.srcPath k.destPath (chunkStart i) (chunkLength c.length i)
        ASYNC_CHUNK_SIZE)
      (fun ok w' => ok = true ∧ ChunkAt k c i (chunkLength c.length i) w') w := by
  have small : chunkLength c.length i ≤ ASYNC_CHUNK_SIZE := Nat.min_le_left _ _
  have fits : chunkStart i + chunkLength c.length i ≤ c.length := by
    unfold chunkLength
    omega
  have length : (slice c (chunkStart i) (chunkLength c.length i)).length =
      chunkLength c.length i := by
    rw [length_slice]
    omega
  rw [transferChunk, if_neg (by omega)]
  refine Program.Sat.bind ((robustPread_keeps sound (A := ChunkAt k c i 0)
    (fun w w' drift now => now.rely (by omega) drift)
    (fun w now => FileSystem.read_eq_some.mpr ⟨_, now.srcFound, now.source⟩) here
    (by simp [slice]) (by simp) ?_).weaken ?_)
  · rcases enough with spin | bound
    · exact .inl spin
    · exact .inr (by rw [List.length_nil]; omega)
  rintro read w₁ ⟨rfl, now₁⟩
  simp only [ne_eq, length, not_true_eq_false, ↓reduceIte]
  refine Program.Sat.bind ((robustPwrite_sat sound own now₁ (by rw [length]) (by omega) (by omega)
    (Nat.zero_le _) ?_).weaken ?_)
  · rcases enough with spin | bound
    · exact .inl spin
    · exact .inr (by omega)
  rintro written w₂ ⟨rfl, now₂⟩ w₃ drift₃
  rw [length] at now₂ ⊢
  exact ⟨by simp, now₂.rely small drift₃⟩

/-- The task of chunk `i` succeeds, and leaves chunk `i` of the source in the destination. -/
theorem chunkTask_sat (sound : ∀ op choice w, policy op choice w →
      Policy.reliable space op choice w)
    (own : k.Owned e) {i fuel : Nat} (here : ChunkAt k c i 0 w)
    (starts : chunkStart i < c.length) (enough : spins ∨ ASYNC_CHUNK_SIZE < fuel)
    (totalSize : Nat) :
    Program.Sat (handler policy spins) (chunkInterference k e i)
      (chunkTask self fuel k.srcPath k.destPath totalSize (chunkStart i) (chunkLength c.length i))
      (fun ok w' => ok = true ∧ ChunkAt k c i (chunkLength c.length i) w') w := by
  have small : chunkLength c.length i ≤ ASYNC_CHUNK_SIZE := Nat.min_le_left _ _
  have stable : ∀ w w', ChunkRely k i w w' → ChunkAt k c i (chunkLength c.length i) w →
      ChunkAt k c i (chunkLength c.length i) w' := fun w w' drift now => now.rely small drift
  simp only [chunkTask, Program.ask_bind]
  refine Program.sat_read (fun _ _ => rfl) fun w₁ drift₁ _ _ => ?_
  have now₁ := here.rely (Nat.zero_le _) drift₁
  rw [now₁.noError]
  simp only [Bool.false_eq_true, ↓reduceIte]
  refine Program.Sat.bind ((transferChunk_sat sound own now₁ starts enough).weaken ?_)
  rintro ok w₂ ⟨rfl, now₂⟩
  simp only [↓reduceIte]
  refine Program.sat_op.mpr fun w₃ drift₃ choice₃ _ => ?_
  have now₃ := stable _ _ drift₃ now₂
  refine ⟨?_, ?_⟩
  · exact {
      own := Estate.guar_of_key own.key rfl rfl fun _ other => Function.update_of_ne other _ _
      src := rfl
      held := rfl
      dest := fun f h => ⟨f, h, rfl, rfl, rfl⟩
      record := id
      noError := fun h => by simpa [Op.run] using h }
  have then₃ : ChunkAt k c i (chunkLength c.length i)
      ((Op.fetchAdd k.destPath (chunkLength c.length i)).run choice₃ w₃).2 :=
    { now₃ with noError := by simpa [Op.run] using now₃.noError }
  refine Program.Sat.bind ((saveProgress_keeps (p := k.record) stable
    (fun w now => now.recordFound) (fun w w' text rest now change => now.of_record own change)
    then₃ _ _).weaken ?_)
  intro _ w₄ now₄
  refine Program.Sat.bind (Program.Sat.weaken (Q := fun _ w' =>
    ChunkAt k c i (chunkLength c.length i) w') ?_ fun _ w₅ now₅ w₆ drift₆ =>
      ⟨rfl, stable _ _ drift₆ now₅⟩)
  unfold throttle
  by_cases limited : 0 < self.speedLimit
  · rw [if_pos limited]
    exact Program.sat_read (fun _ _ => rfl) fun w₅ drift₅ _ _ w₆ drift₆ =>
      stable _ _ drift₆ (stable _ _ drift₅ now₄)
  · rw [if_neg limited]
    exact fun w₅ drift₅ => stable _ _ drift₅ now₄

/-- What the chunk tasks of one copy leave in place while they run. -/
structure ChunksAt (k : Copy) (c held : Bytes) (w : World) : Prop where
  file : ∃ f t, k.At c (some f) held t w ∧ f.length = c.length ∧
    f.drop (chunkStart (chunkCount c.length)) =
      List.replicate (c.length - chunkStart (chunkCount c.length)) 0
  noError : (w.shared k.destPath).hasError = false

theorem ChunksAt.rely {held : Bytes} {w' : World} (here : ChunksAt k c held w) (own : k.Owned e)
    (drift : e.Rely w w') : ChunksAt k c held w' where
  file := by
    obtain ⟨f, t, now, rest⟩ := here.file
    exact ⟨f, t, now.rely own drift, rest⟩
  noError := by rw [drift.keys _ own.key, here.noError]

theorem ChunksAt.guar {held : Bytes} {w' : World} {i : Nat} (here : ChunksAt k c held w)
    (lower : i < chunkCount c.length) (did : ChunkGuar k e i w w') : ChunksAt k c held w' where
  file := by
    obtain ⟨f, t, now, length, zeros⟩ := here.file
    obtain ⟨f', file', length', -, back⟩ := did.dest f now.dest
    obtain ⟨t', text⟩ : ∃ t' : Option Bytes, w'.fs.entry k.record = t'.map .file := by
      have notDir := did.record now.recordNotDir
      cases entry : w'.fs.entry k.record with
      | none => exact ⟨none, rfl⟩
      | some kind =>
          cases kind with
          | dir => exact absurd entry notDir
          | file text => exact ⟨some text, rfl⟩
    refine ⟨f', t', ?_, length'.trans length, ?_⟩
    · exact {
        srcFound := did.own.dirs.resolve now.srcFound
        source := did.src.trans now.source
        destFound := did.own.dirs.resolve now.destFound
        dest := file'
        held := did.held.trans now.held
        recordFound := did.own.dirs.resolve now.recordFound
        record := text
        backupFound := did.own.dirs.resolve now.backupFound }
    · obtain ⟨more, after⟩ := Nat.exists_eq_add_of_le (chunkStart_mono (Nat.succ_le_of_lt lower))
      rw [← zeros, after, ← List.drop_drop, ← List.drop_drop, back]
  noError := did.noError here.noError

/-- Once every chunk is there, the destination is the image of the source. -/
theorem ChunksAt.image {held : Bytes} (here : ChunksAt k c held w)
    (chunks : ∀ i < chunkCount c.length, ChunkAt k c i (chunkLength c.length i) w) :
    ∃ t, k.At c (some (asyncImage c)) held t w := by
  obtain ⟨f, t, now, length, zeros⟩ := here.file
  refine ⟨t, ?_⟩
  have image : f = asyncImage c := by
    refine eq_asyncImage length (fun i lower => ?_) zeros
    obtain ⟨f', file, -, part⟩ := (chunks i lower).dest
    rw [now.dest] at file
    cases file
    exact part
  rw [← image]
  exact now

/-- The parallel copy of an opened and sized destination. -/
theorem runChunks_sat (sound : ∀ op choice w, policy op choice w →
      Policy.reliable space op choice w)
    (own : k.Owned e) {f held : Bytes} {t : Option Bytes} {fuel : Nat}
    (here : k.At c (some f) held t w) (length : f.length = c.length)
    (zeros : f.drop (chunkStart (chunkCount c.length)) =
      List.replicate (c.length - chunkStart (chunkCount c.length)) 0)
    (enough : spins ∨ ASYNC_CHUNK_SIZE < fuel) :
    Program.Sat (handler policy spins) e.interference
      (runChunks self fuel k.srcPath k.destPath c.length 0)
      (fun ok w' => ok = true ∧ k.At c (some (asyncImage c)) held none w') w := by
  simp only [runChunks, Program.ask_bind, Program.fork_bind, Program.pure_eq, Program.done_bind,
    Nat.zero_add]
  refine Program.sat_op.mpr fun w₁ drift₁ choice₁ _ => ?_
  have now₁ := here.rely own drift₁
  refine ⟨Estate.guar_of_key own.key rfl rfl fun _ other => Function.update_of_ne other _ _, ?_⟩
  have clean : ((Op.initShared k.destPath 0).run choice₁ w₁).2.shared k.destPath = ⟨0, false⟩ :=
    Function.update_self _ _ _
  have start : ChunksAt k c held ((Op.initShared k.destPath 0).run choice₁ w₁).2 := {
    file := ⟨f, t, { now₁ with }, length, zeros⟩
    noError := by rw [clean] }
  refine Program.sat_fork.mpr ⟨fun i => chunkInterference k e i,
    fun i ok w' => ok = true ∧ ChunkAt k c i (chunkLength c.length i) w', ChunksAt k c held,
    fun i w w' drift => Estate.Rely.chunk own drift i,
    fun i j other w w' did => did.rely (Fin.val_ne_of_ne other), fun i w w' did => did.own,
    ⟨start, fun w w' drift now => now.rely own drift, fun i w w' did now => now.guar i.isLt did⟩,
    fun i => ?_, fun verdicts w₂ now₂ chunks => ?_⟩
  · have begin : ChunkAt k c i 0 ((Op.initShared k.destPath 0).run choice₁ w₁).2 := {
      srcFound := now₁.srcFound
      source := now₁.source
      destFound := now₁.destFound
      dest := ⟨f, now₁.dest, length, by simp [slice]⟩
      recordFound := now₁.recordFound
      record := now₁.recordNotDir
      noError := by rw [clean] }
    exact chunkTask_sat sound own begin (chunkStart_lt i.isLt) enough _
  · -- the verdicts are read off first, or the test of all of them would be evaluated
    rw [if_pos fun i => (chunks i).1]
    obtain ⟨t', now'⟩ := now₂.image fun i lower => (chunks ⟨i, lower⟩).2
    exact remove_record_sat (Policy.removing_of_reliable sound) (Copy.hosts_estate own) now'
      fun w₃ _ now₃ w₄ drift₄ =>
      ⟨rfl, now₃.rely own drift₄⟩

end

end FileSync

end SyncTool
