import SyncTool.ProgramTally
import SyncTool.SyncFileOutcome

set_option autoImplicit false

namespace SyncTool

open SyncTool.Path LinuxFileUtil FileSync World

/-- The world as if no task had reported an error. -/
def World.calm (key : Bytes) (w : World) : World :=
  { w with shared := Function.update w.shared key ⟨(w.shared key).transferred, false⟩ }

theorem World.Change.calm {key : Bytes} {p : Path} {entry : Option Entry} {held : Bytes}
    {w w' : World} (change : Change p entry held w w') :
    Change p entry held (w.calm key) (w'.calm key) where
  cwd := change.cwd
  tree := change.tree
  pending := change.pending
  shared := by rw [World.calm, World.calm, change.shared]

namespace FileSync

section

variable {self : FileSync} {policy : Policy} {I : Interference World} {k : Copy} {e : Estate}
  {c : Bytes} {w : World} {i m fuel : Nat}

/-- Reading a range of a file that nobody writes gets a part of it. -/
theorem robustPread_part {A : World → Prop} {path : Bytes}
    (stable : ∀ w w', I.rely w w' → A w → A w') (source : ∀ w, A w → w.fs.read path = some c)
    (here : A w) {count offset : Nat} {buffer : Bytes}
    (sofar : buffer = slice c offset buffer.length) (within : buffer.length ≤ count) :
    Program.Sat (handler policy True) I (robustPread path count offset fuel buffer)
      (fun read w' => A w' ∧ ∀ bytes, read = some bytes →
        bytes = slice c offset bytes.length ∧ bytes.length ≤ count) w := by
  induction fuel generalizing buffer w with
  | zero => trivial
  | succ fuel ih =>
      have stop : ∀ w₁, A w₁ → ∀ out, (∀ bytes, out = some bytes → bytes = buffer) →
          Program.Sat (handler policy True) I (.done out)
            (fun read w' => A w' ∧ ∀ bytes, read = some bytes →
              bytes = slice c offset bytes.length ∧ bytes.length ≤ count) w₁ := by
        intro w₁ now out same w₂ drift
        refine ⟨stable _ _ drift now, fun bytes given => ?_⟩
        rw [same bytes given]
        exact ⟨sofar, within⟩
      rw [robustPread]
      split
      · rw [Program.ask_bind]
        refine Program.sat_op.mpr fun w₁ drift₁ choice _ => ?_
        have now₁ := stable _ _ drift₁ here
        rcases @run_pread_cases w₁ choice path (offset + buffer.length) (count - buffer.length)
          with ran | ran | ⟨n, ran⟩
        · rw [ran]
          exact ⟨I.guar_refl _, ih now₁ sofar within⟩
        · rw [ran]
          exact ⟨I.guar_refl _, stop w₁ now₁ _ (by simp)⟩
        · rw [ran, source w₁ now₁, Option.getD_some]
          refine ⟨I.guar_refl _, ?_⟩
          have split := slice_add c offset buffer.length (count - buffer.length)
          rw [Nat.add_sub_cancel' within, ← sofar] at split
          generalize slice c (offset + buffer.length) (count - buffer.length) = block at split
          show Program.Sat _ _ (if block.take n = [] then _ else _) _ _
          by_cases ended : block.take n = []
          · rw [if_pos ended]
            exact stop w₁ now₁ _ (by simp)
          · rw [if_neg ended]
            have long : (slice c offset count).length ≤ count := by
              rw [length_slice]
              omega
            have longer : (buffer ++ block.take n).length ≤ count := by
              rw [split, List.length_append] at long
              rw [List.length_append, List.length_take]
              omega
            apply ih now₁ _ longer
            rw [← take_slice c offset longer, split]
            exact List.prefix_iff_eq_take.mp
              ((List.prefix_append_right_inj buffer).mpr (List.take_prefix _ _))
      · exact stop w here _ (by simp)

/-- What the task of chunk `i` suffers and does, whoever reports an error. -/
def chunkFaults (k : Copy) (e : Estate) (i : Nat) : Interference World :=
  (chunkInterference k e i).comap (World.calm k.destPath)

/-- Writing a chunk gets on with it until it is done or fails. -/
theorem robustPwrite_part (own : k.Owned e) {data : Bytes}
    (here : ChunkAt k c i m (w.calm k.destPath))
    (part : data = slice c (chunkStart i) data.length) (inside : data.length ≤ ASYNC_CHUNK_SIZE)
    (within : chunkStart i + data.length ≤ c.length) (sofar : m ≤ data.length) :
    Program.Sat (handler policy True) (chunkFaults k e i)
      (robustPwrite k.destPath data (chunkStart i) fuel m)
      (fun out w' => ∃ m, m ≤ data.length ∧ ChunkAt k c i m (w'.calm k.destPath) ∧
        ∀ written, out = some written → written = m) w := by
  induction fuel generalizing m w with
  | zero => trivial
  | succ fuel ih =>
      have stop : ∀ w₁, ChunkAt k c i m (w₁.calm k.destPath) → ∀ out,
          (∀ written, out = some written → written = m) →
          Program.Sat (handler policy True) (chunkFaults k e i) (.done out)
            (fun out w' => ∃ m, m ≤ data.length ∧ ChunkAt k c i m (w'.calm k.destPath) ∧
              ∀ written, out = some written → written = m) w₁ := by
        intro w₁ now out same w₂ drift
        exact ⟨m, sofar, now.rely (by omega) drift, same⟩
      rw [robustPwrite]
      split
      · rw [Program.ask_bind]
        refine Program.sat_op.mpr fun w₁ drift₁ choice _ => ?_
        have now₁ : ChunkAt k c i m (w₁.calm k.destPath) := here.rely (by omega) drift₁
        obtain ⟨f, file, -⟩ := now₁.dest
        rcases @run_pwrite_cases w₁ choice _ _ now₁.destFound f file (chunkStart i + m)
          (data.drop m) with ran | ran | ⟨n, short, answer, change⟩
        · rw [ran]
          exact ⟨(chunkFaults k e i).guar_refl _, ih now₁ sofar⟩
        · rw [ran]
          exact ⟨(chunkFaults k e i).guar_refl _, stop w₁ now₁ _ (by simp)⟩
        · have length : ((data.drop m).take n).length = n := by
            rw [List.length_take]
            omega
          rw [List.length_drop] at short
          have next : slice c (chunkStart i) m ++ (data.drop m).take n =
              slice c (chunkStart i) (m + n) := by
            rw [← take_slice c (chunkStart i) sofar, ← part,
              ← take_slice c (chunkStart i) (show m + n ≤ data.length by omega), ← part,
              List.take_add]
          have wrote := ChunkAt.write own now₁ file (by rw [length]; omega)
            (by rw [length]; omega) (by rw [length]; exact next) change.calm
          rw [length] at wrote
          rw [answer]
          refine ⟨wrote.1, ?_⟩
          show Program.Sat _ _ (if n = 0 then _ else _) _ _
          split
          · next nothing =>
              subst nothing
              exact stop _ wrote.2 _ (by simp)
          · exact ih wrote.2 (by omega)
      · exact stop w here _ (by simp)

/-- A chunk that is reported as copied is copied. -/
theorem transferChunk_part (own : k.Owned e) (here : ChunkAt k c i 0 (w.calm k.destPath))
    (starts : chunkStart i < c.length) :
    Program.Sat (handler policy True) (chunkFaults k e i)
      (transferChunk fuel k.srcPath k.destPath (chunkStart i) (chunkLength c.length i)
        ASYNC_CHUNK_SIZE)
      (fun ok w' => ∃ m, m ≤ chunkLength c.length i ∧ ChunkAt k c i m (w'.calm k.destPath) ∧
        (ok = true → m = chunkLength c.length i)) w := by
  have small : chunkLength c.length i ≤ ASYNC_CHUNK_SIZE := Nat.min_le_left _ _
  have fits : chunkStart i + chunkLength c.length i ≤ c.length := by
    unfold chunkLength
    omega
  have failed : ∀ w₁ m, m ≤ chunkLength c.length i → ChunkAt k c i m (w₁.calm k.destPath) →
      Program.Sat (handler policy True) (chunkFaults k e i) (.done false)
        (fun ok w' => ∃ m, m ≤ chunkLength c.length i ∧ ChunkAt k c i m (w'.calm k.destPath) ∧
          (ok = true → m = chunkLength c.length i)) w₁ := by
    intro w₁ m le now w₂ drift
    exact ⟨m, le, now.rely (by omega) drift, by simp⟩
  rw [transferChunk, if_neg (by omega)]
  apply Program.Sat.bind
  have read := @robustPread_part policy (chunkFaults k e i) c w fuel
    (fun w => ChunkAt k c i 0 (w.calm k.destPath)) k.srcPath
    (fun w w' drift now => now.rely (by omega) drift)
    (fun w now => FileSystem.read_eq_some.mpr ⟨_, now.srcFound, now.source⟩) here
    (chunkLength c.length i) (chunkStart i) [] (by simp [slice]) (by simp)
  apply read.weaken
  rintro out w₁ ⟨now₁, given⟩
  cases out with
  | none => exact failed w₁ 0 (Nat.zero_le _) now₁
  | some buffer =>
      obtain ⟨part, -⟩ := given buffer rfl
      show Program.Sat _ _ (if buffer.length ≠ chunkLength c.length i then _ else _) _ _
      split
      · exact failed w₁ 0 (Nat.zero_le _) now₁
      · next full =>
          have length : buffer.length = chunkLength c.length i := by simpa using full
          apply Program.Sat.bind
          apply (robustPwrite_part own now₁ part (by omega) (by omega) (Nat.zero_le _)).weaken
          rintro out w₂ ⟨m, le, now₂, same⟩ w₃ drift₃
          refine ⟨m, by omega, now₂.rely (by omega) drift₃, fun success => ?_⟩
          exact (same _ (by simpa using success)).symm

/-- Counting and reporting change nothing that a task can see. -/
theorem guar_of_shared (own : k.Owned e) {w' : World} (fs : w'.fs = w.fs)
    (pending : w'.pending = w.pending)
    (others : ∀ other, other ≠ k.destPath → w'.shared other = w.shared other) :
    (chunkFaults k e i).guar w w' where
  own := by
    refine Estate.guar_of_key own.key (by exact fs) (by exact pending) fun other different => ?_
    show Function.update w'.shared _ _ other = Function.update w.shared _ _ other
    rw [Function.update_of_ne different, Function.update_of_ne different, others other different]
  src := by
    show w'.fs.entry k.src = w.fs.entry k.src
    rw [fs]
  held := by
    show w'.pending k.dest = w.pending k.dest
    rw [pending]
  dest f file := by
    refine ⟨f, ?_, rfl, rfl, rfl⟩
    show w'.fs.entry k.dest = _
    rw [fs]
    exact file
  record notDir := by
    show w'.fs.entry k.record ≠ _
    rw [fs]
    exact notDir
  noError _ := by simp [World.calm]

theorem ChunkAt.of_shared {w' : World} (here : ChunkAt k c i m (w.calm k.destPath))
    (fs : w'.fs = w.fs) : ChunkAt k c i m (w'.calm k.destPath) where
  srcFound := by rw [World.calm, fs]; exact here.srcFound
  source := by rw [World.calm, fs]; exact here.source
  destFound := by rw [World.calm, fs]; exact here.destFound
  dest := by rw [World.calm, fs]; exact here.dest
  recordFound := by rw [World.calm, fs]; exact here.recordFound
  record := by rw [World.calm, fs]; exact here.record
  noError := by simp [World.calm]

theorem chunkTask_part (own : k.Owned e) (here : ChunkAt k c i 0 (w.calm k.destPath))
    (starts : chunkStart i < c.length) (totalSize : Nat) :
    Program.Sat (handler policy True) (chunkFaults k e i)
      (chunkTask self fuel k.srcPath k.destPath totalSize (chunkStart i) (chunkLength c.length i))
      (fun ok w' => ok = true → ChunkAt k c i (chunkLength c.length i) (w'.calm k.destPath)) w := by
  have small : chunkLength c.length i ≤ ASYNC_CHUNK_SIZE := Nat.min_le_left _ _
  have stable : ∀ w w', (chunkFaults k e i).rely w w' →
      ChunkAt k c i (chunkLength c.length i) (w.calm k.destPath) →
      ChunkAt k c i (chunkLength c.length i) (w'.calm k.destPath) :=
    fun w w' drift now => now.rely small drift
  simp only [chunkTask, Program.ask_bind]
  refine Program.sat_read (fun _ _ => rfl) fun w₁ drift₁ _ _ => ?_
  have now₁ : ChunkAt k c i 0 (w₁.calm k.destPath) := here.rely (Nat.zero_le _) drift₁
  split
  · intro w₂ _ success
    cases success
  apply Program.Sat.bind
  apply (transferChunk_part own now₁ starts).weaken
  rintro ok w₂ ⟨m, -, now₂, full⟩
  cases ok with
  | false =>
      refine Program.sat_op.mpr fun w₃ drift₃ choice₃ _ => ⟨?_, ?_⟩
      · exact guar_of_shared own rfl rfl fun _ other => Function.update_of_ne other _ _
      · intro w₄ _ success
        cases success
  | true =>
      obtain rfl := full rfl
      refine Program.sat_op.mpr fun w₃ drift₃ choice₃ _ => ⟨?_, ?_⟩
      · exact guar_of_shared own rfl rfl fun _ other => Function.update_of_ne other _ _
      · have now₃ : ChunkAt k c i (chunkLength c.length i)
            (World.calm k.destPath ((Op.fetchAdd k.destPath (chunkLength c.length i)).run
              choice₃ w₃).2) := (stable _ _ drift₃ now₂).of_shared rfl
        apply Program.Sat.bind
        apply (saveProgress_keeps (p := k.record) stable (fun w now => now.recordFound)
          (fun w w' text rest now change => now.of_record own change.calm) now₃ _ _).weaken
        intro _ w₄ now₄
        unfold throttle
        split
        · exact Program.sat_read (fun _ _ => rfl) fun w₅ drift₅ _ _ w₆ drift₆ _ =>
            stable _ _ drift₆ (stable _ _ drift₅ now₄)
        · exact fun w₅ drift₅ _ => stable _ _ drift₅ now₄

/-- The parallel copy of an opened and sized destination copies everything, or cleans up. -/
theorem runChunks_faults (removes : ∀ op choice w, policy op choice w →
      Policy.removing op choice w)
    {f held : Bytes} {t : Option Bytes} (here : k.At c (some f) held t w)
    (length : f.length = c.length)
    (zeros : f.drop (chunkStart (chunkCount c.length)) =
      List.replicate (c.length - chunkStart (chunkCount c.length)) 0) :
    Program.Sat (handler policy True) .free (runChunks self fuel k.srcPath k.destPath c.length 0)
      (fun ok w' => k.At c (if ok then some (asyncImage c) else none) held none w') w := by
  have own := k.owned_solo
  simp only [runChunks, Program.ask_bind, Program.fork_bind, Program.pure_eq, Program.done_bind,
    Nat.zero_add]
  rintro w₁ rfl _ w₂ ⟨choice, -, ran⟩
  obtain rfl : w₂ = { w with shared := Function.update w.shared k.destPath ⟨0, false⟩ } :=
    (congrArg Prod.snd ran).symm
  refine ⟨trivial, ?_⟩
  -- the number of the tasks is not to be evaluated
  generalize counted : (numChunks c.length 0).toNat = count
  have start : ChunksAt k c held (World.calm k.destPath
      { w with shared := Function.update w.shared k.destPath ⟨0, false⟩ }) := {
    file := ⟨f, t, { here with }, length, zeros⟩
    noError := by simp [World.calm] }
  refine Program.sat_fork.mpr ⟨fun i => chunkFaults k k.solo i,
    fun i ok w' => ok = true → ChunkAt k c i (chunkLength c.length i) (w'.calm k.destPath),
    fun w' => ChunksAt k c held (w'.calm k.destPath), ?_,
    fun i j other w w' did => did.rely (Fin.val_ne_of_ne other), fun _ _ _ _ => trivial,
    ⟨start, ?_, fun i w w' did now => now.guar (i.isLt.trans_eq counted.symm) did⟩, fun i => ?_,
    fun verdicts w₃ now₃ chunks => ?_⟩
  · rintro i w w' rfl
    exact ChunkRely.refl _ _ _
  · rintro w w' rfl now
    exact now
  · apply chunkTask_part own _ (chunkStart_lt (i.isLt.trans_eq counted.symm))
    exact {
      srcFound := here.srcFound
      source := here.source
      destFound := here.destFound
      dest := ⟨f, here.dest, length, by simp [slice]⟩
      recordFound := here.recordFound
      record := here.recordNotDir
      noError := by simp [World.calm] }
  · apply Program.Sat.ite
    · intro all
      obtain ⟨t', now'⟩ := now₃.image fun i lower =>
        chunks ⟨i, lower.trans_eq counted⟩ (all _)
      have now : k.At c (some (asyncImage c)) held t' w₃ := { now' with }
      apply Program.Sat.mono _ (Interference.free_le k.solo.interference) fun _ _ holds => holds
      apply remove_record_sat removes (Copy.hosts_estate own) now
      intro w₄ _ now₄ w₅ drift₅
      exact now₄.rely own drift₅
    · intro _
      obtain ⟨f', t', now', -, -⟩ := now₃.file
      have now : k.At c (some f') held t' w₃ := { now' with }
      apply Program.Sat.bind
      apply ((cleanupCorruptedFile_sat removes own now).mono
        (Interference.free_le k.solo.interference) fun _ _ holds => holds).weaken
      rintro - w₄ now₄ w₅ rfl
      exact now₄

/-- The parallel copy copies everything, cleans up, or has not begun. -/
theorem transferLargeFileAsync_faults (removes : ∀ op choice w, policy op choice w →
      Policy.removing op choice w)
    {d t : Option Bytes} {held : Bytes} (here : k.At c d held t w) :
    Program.Sat (handler policy True) .free
      (transferLargeFileAsync self fuel k.srcPath k.destPath 0)
      (fun ok w' => k.At c (if ok then some (asyncImage c) else none) held none w' ∨
        ok = false ∧ k.At c d held t w' ∧ w'.shared = w.shared) w := by
  have untouched : Program.Sat (handler policy True) .free (.done false)
      (fun ok w' => k.At c (if ok then some (asyncImage c) else none) held none w' ∨
        ok = false ∧ k.At c d held t w' ∧ w'.shared = w.shared) w := by
    rintro w' rfl
    exact .inr ⟨rfl, here, rfl⟩
  simp only [transferLargeFileAsync, getFileStat, checkDiskSpace, Program.ask_bind]
  refine Program.sat_read (fun _ _ => rfl) ?_
  rintro w₁ rfl - -
  obtain ⟨perm, mtime, stat⟩ := stat_src here
  rw [stat]
  simp only [Node.st_size, Program.call_bind]
  refine Program.sat_read (fun _ _ => rfl) ?_
  rintro w₂ rfl choice₂ -
  split
  · exact untouched
  simp only [Program.pure_eq, Program.done_bind]
  split
  · exact untouched
  refine Program.sat_read (fun _ _ => rfl) ?_
  rintro w rfl choice₃ -
  split
  · exact untouched
  simp only [↓reduceIte]
  refine Program.sat_op.mpr ?_
  rintro w₄ rfl choice₄ -
  refine ⟨trivial, ?_⟩
  by_cases opens : choice₄.fault = .none
  · obtain ⟨opened, change₄⟩ := run_openFd opens here.destFound here.notDir k.destProper .trunc
    rw [here.held] at change₄
    have then₄ := Copy.At.of_dest (g := some []) here change₄
    rw [opened]
    simp only [Bool.not_true, Bool.false_eq_true, ↓reduceIte]
    refine Program.sat_op.mpr ?_
    rintro w₅ rfl choice₅ -
    refine ⟨trivial, ?_⟩
    by_cases sizes : choice₅.fault = .none
    · obtain ⟨sized, change₅⟩ := run_ftruncate sizes then₄.destFound then₄.dest c.length
      rw [then₄.held] at change₅
      have blank : World.resize [] c.length = List.replicate c.length 0 := by simp [World.resize]
      rw [blank] at change₅
      rw [sized]
      apply (runChunks_faults removes (Copy.At.of_dest (g := some _) then₄ change₅) (by simp)
        (by simp)).weaken
      exact fun _ _ holds => .inl holds
    · have failed : (Op.ftruncate k.destPath c.length).run choice₅
          ((Op.openFd k.destPath .trunc true).run choice₄ w).2 =
          (false, ((Op.openFd k.destPath .trunc true).run choice₄ w).2) := by
        simp [Op.run, World.attempt, sizes]
      rw [failed]
      apply Program.Sat.bind
      apply ((cleanupCorruptedFile_sat removes k.owned_solo then₄).mono
        (Interference.free_le k.solo.interference) fun _ _ holds => holds).weaken
      rintro - w₅ now₅ w₆ rfl
      exact .inl now₅
  · have failed : (Op.openFd k.destPath .trunc true).run choice₄ w = (false, w) := by
      simp [Op.run, World.attempt, opens]
    rw [failed]
    exact untouched

end

end FileSync

end SyncTool
