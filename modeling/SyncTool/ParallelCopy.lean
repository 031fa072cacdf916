import SyncTool.SyncFileFailure
import SyncTool.TransferFaults

set_option autoImplicit false

namespace SyncTool

open SyncTool.Path LinuxFileUtil FileSync World

namespace FileSync

section

variable {self : FileSync} {k : Copy} {c held : Bytes} {d t : Option Bytes} {w w' : World}
  {fuel most tally : Nat}

/-- The answers that have a call made once more. -/
def interrupted : (op : Op) → Res op → Bool
  | .pread _ _ _, answer => answer = .eintr
  | .pwrite _ _ _, answer => answer = .eintr
  | _, _ => false

theorem robustPread_halts (path : Bytes) (count offset : Nat) (buffer : Bytes)
    (enough : count - buffer.length + (most - tally) < fuel) :
    Program.Halts interrupted most (robustPread path count offset fuel buffer) tally := by
  induction fuel generalizing buffer tally with
  | zero => omega
  | succ fuel ih =>
      rw [robustPread]
      split
      · next more =>
          intro answer
          cases answer with
          | eintr => exact fun left => ih buffer (by omega)
          | error => trivial
          | ok bytes =>
              show Program.Halts _ _ (if bytes = [] then _ else _) _
              split
              · trivial
              · next some =>
                  have positive := List.length_pos_iff.mpr some
                  apply ih
                  rw [List.length_append]
                  omega
      · trivial

theorem robustPwrite_halts (path data : Bytes) (offset totalWritten : Nat)
    (enough : data.length - totalWritten + (most - tally) < fuel) :
    Program.Halts interrupted most (robustPwrite path data offset fuel totalWritten) tally := by
  induction fuel generalizing totalWritten tally with
  | zero => omega
  | succ fuel ih =>
      rw [robustPwrite]
      split
      · next more =>
          intro answer
          cases answer with
          | eintr => exact fun left => ih totalWritten (by omega)
          | error => trivial
          | ok written =>
              show Program.Halts _ _ (if written = 0 then _ else _) _
              split
              · trivial
              · exact ih _ (by omega)
      · trivial

theorem transferChunk_halts (srcPath destPath : Bytes) (chunkOffset chunkSize : Nat)
    (enough : ASYNC_CHUNK_SIZE + most < fuel) :
    Program.Halts interrupted most
      (transferChunk fuel srcPath destPath chunkOffset chunkSize ASYNC_CHUNK_SIZE) tally := by
  rw [transferChunk]
  split
  · trivial
  apply Program.Halts.bind
  · apply robustPread_halts
    rw [List.length_nil]
    omega
  · intro out
    cases out with
    | none => trivial
    | some buffer =>
        show Program.Halts _ _ (if buffer.length ≠ chunkSize then _ else _) _
        split
        · trivial
        · next full =>
            apply Program.Halts.bind
            · apply robustPwrite_halts
              omega
            · intro written
              trivial

theorem saveProgress_halts (filePath : Bytes) (offset totalSize : Nat) :
    Program.Halts interrupted most (saveProgress filePath offset totalSize) tally := by
  refine (Program.halts_call fun _ => rfl).mpr fun opened => ?_
  cases opened with
  | false => trivial
  | true =>
      exact (Program.halts_call fun _ => rfl).mpr fun _ => Program.halts_ask fun _ => rfl

theorem cleanupCorruptedFile_halts (destPath : Bytes) :
    Program.Halts interrupted most (cleanupCorruptedFile destPath) tally := by
  have removal : ∀ (exist : Bool) (path : Bytes) (next : Prog Unit),
      Program.Halts interrupted most next tally →
      Program.Halts interrupted most
        (if exist then .call (.remove path) fun _ => next else next) tally := by
    intro exist path next halts
    cases exist with
    | false => exact halts
    | true => exact (Program.halts_call fun _ => rfl).mpr fun _ => halts
  simp only [cleanupCorruptedFile, fileExists, Program.ask_bind, Program.call_bind,
    Program.pure_eq, Program.done_bind]
  refine (Program.halts_call fun _ => rfl).mpr fun found => removal _ _ _ ?_
  exact (Program.halts_call fun _ => rfl).mpr fun found => removal _ _ _ trivial

theorem chunkTask_halts (srcPath destPath : Bytes) (totalSize chunkOffset currentChunkSize : Nat)
    (enough : ASYNC_CHUNK_SIZE + most < fuel) :
    Program.Halts interrupted most
      (chunkTask self fuel srcPath destPath totalSize chunkOffset currentChunkSize) tally := by
  refine (Program.halts_call fun _ => rfl).mpr fun hasError => ?_
  cases hasError with
  | true => trivial
  | false =>
      refine (transferChunk_halts _ _ _ _ enough).bind fun ok => ?_
      cases ok with
      | false => exact (Program.halts_call fun _ => rfl).mpr fun _ => trivial
      | true =>
          refine (Program.halts_call fun _ => rfl).mpr fun transferred => ?_
          refine (saveProgress_halts _ _ _).bind fun _ => Program.Halts.bind ?_ fun _ => trivial
          unfold throttle
          split
          · exact Program.halts_ask fun _ => rfl
          · trivial

theorem runChunks_halts (srcPath destPath : Bytes) (fileSize offset : Nat)
    (enough : ASYNC_CHUNK_SIZE + most < fuel) :
    Program.Halts interrupted most
      (runChunks self fuel srcPath destPath fileSize offset) tally := by
  refine (Program.halts_call fun _ => rfl).mpr fun _ => ?_
  refine ⟨fun i => chunkTask_halts _ _ _ _ _ enough, fun verdicts => ?_⟩
  show Program.Halts _ _ (if ∀ i, verdicts i = true then _ else _) _
  split
  · exact (Program.halts_call fun _ => rfl).mpr fun _ => trivial
  · exact (cleanupCorruptedFile_halts _).bind fun _ => trivial

theorem transferLargeFileAsync_halts (srcPath destPath : Bytes) (offset : Nat)
    (enough : ASYNC_CHUNK_SIZE + most < fuel) :
    Program.Halts interrupted most
      (transferLargeFileAsync self fuel srcPath destPath offset) tally := by
  simp only [transferLargeFileAsync, getFileStat, checkDiskSpace, Program.ask_bind,
    Program.call_bind]
  refine (Program.halts_call fun _ => rfl).mpr fun stat => ?_
  cases stat with
  | none => trivial
  | some statbuf =>
      dsimp only
      refine (Program.halts_call fun _ => rfl).mpr fun vfs => ?_
      cases vfs with
      | none => trivial
      | some available =>
          simp only [Program.pure_eq, Program.done_bind]
          split
          · trivial
          refine (Program.halts_call fun _ => rfl).mpr fun srcFd => ?_
          split
          · trivial
          split
          · refine (Program.halts_call fun _ => rfl).mpr fun destFd => ?_
            split
            · trivial
            refine (Program.halts_call fun _ => rfl).mpr fun sized => ?_
            split
            · exact runChunks_halts _ _ _ _ enough
            · exact (cleanupCorruptedFile_halts _).bind fun _ => trivial
          · refine (Program.halts_call fun _ => rfl).mpr fun destFd => ?_
            split
            · exact runChunks_halts _ _ _ _ enough
            · trivial

/-- A chunk task reports an error to the other tasks of its copy. -/
def reports (key : Bytes) (op : Op) : Prop := op = .storeError key

/-- An error of the copy to `key` has been reported. -/
def Reported (key : Bytes) (w : World) : Prop := (w.shared key).hasError = true

theorem fresh_shared (w : World) (path : Bytes) : (w.fresh path).shared = w.shared := by
  unfold World.fresh
  split <;> rfl

theorem reported_of_run {key : Bytes} (op : Op) (choice : Choice) (other : ¬ reports key op)
    (raised : Reported key (op.run choice w).2) : Reported key w := by
  unfold Reported at raised ⊢
  have same : ∀ result : Option FileSystem,
      ((w.attempt choice result).2.shared key) = w.shared key := by
    intro result
    unfold World.attempt
    split
    · split <;> rfl
    · rfl
  have flushed : ∀ path data, ((w.flush choice path data).2.shared key) = w.shared key := by
    intro path data
    rcases found : w.fs.resolve path with _ | p
    · simp [World.flush, found]
    · rcases @flush_touches w choice _ _ found data with same | ⟨_, _, change⟩
      · rw [same]
      · rw [change.shared]
  cases op with
  | mkdir path mode | chmod path mode | remove path | rename old new | openFd path how create
  | ftruncate path size =>
      have kept := same
      simp only [Op.run] at raised
      rwa [kept] at raised
  | openOut path append =>
      simp only [Op.run] at raised
      generalize w.fs.open_ path (if append = true then .append
        else .trunc) true 0o666 choice.time = result at raised
      by_cases opened : (w.attempt choice result).1 = true
      · rwa [if_pos opened, fresh_shared, same] at raised
      · rwa [if_neg opened, same] at raised
  | put path data | closeOut path =>
      simp only [Op.run] at raised
      rwa [flushed] at raised
  | pwrite path pos data | write path append pos data =>
      simp only [Op.run] at raised
      split at raised <;> exact raised
  | send data | recv count =>
      simp only [Op.run] at raised
      split at raised <;> exact raised
  | pread path pos count =>
      simp only [Op.run] at raised
      split at raised <;> exact raised
  | initShared key' offset =>
      simp only [Op.run] at raised
      by_cases mine : key = key'
      · subst mine
        simp at raised
      · rwa [Function.update_of_ne mine] at raised
  | storeError key' =>
      have different : key ≠ key' := by
        rintro rfl
        exact other rfl
      simp only [Op.run] at raised
      rwa [Function.update_of_ne different] at raised
  | fetchAdd key' amount =>
      simp only [Op.run] at raised
      by_cases mine : key = key'
      · subst mine
        simpa using raised
      · rwa [Function.update_of_ne mine] at raised
  | _ => exact raised

/-- A task that reports an error has failed. -/
theorem chunkTask_reports (srcPath destPath : Bytes)
    (totalSize chunkOffset currentChunkSize : Nat) :
    Program.EndsWith (reports destPath) false
      (chunkTask self fuel srcPath destPath totalSize chunkOffset currentChunkSize) := by
  simp only [chunkTask, Program.ask_bind]
  refine ⟨fun impossible => ?_, fun hasError => ?_⟩
  · simp [reports] at impossible
  cases hasError with
  | true => trivial
  | false =>
      have silent : Program.All (fun op => ¬ reports destPath op)
          (transferChunk fuel srcPath destPath chunkOffset currentChunkSize ASYNC_CHUNK_SIZE) :=
        transferChunk_all (fun _ _ impossible => by cases impossible)
          (fun _ _ impossible => by cases impossible) _ _ _ _
      simp only [Bool.false_eq_true, ↓reduceIte]
      refine Program.EndsWith.bind silent fun ok => ?_
      cases ok with
      | false => exact ⟨fun _ _ => rfl, fun _ => trivial⟩
      | true =>
          refine ⟨fun impossible => ?_, fun transferred => ?_⟩
          · simp [reports] at impossible
          refine Program.EndsWith.bind (by simp [saveProgress, reports]) fun _ => ?_
          exact Program.EndsWith.bind (by simp [throttle, reports]) fun _ => trivial

/-- A run in which an error has been reported returns `false`. -/
def Admits (policy : Policy) (key : Bytes) (p : Prog Bool) (w : World) : Prop :=
  ∀ ok w', Program.Reach (handler policy True).exec Eq p w (.done ok) w' → Reported key w' →
    ok = false

variable {policy : Policy} {key : Bytes}

theorem admits_false : Admits policy key (.done false) w := by
  intro ok w' run _
  have returned := (Program.sat_done.mpr (fun _ _ => rfl) : Program.Sat (handler policy True) .free
    (.done false) (fun ok _ => ok = false) w).returned run
  exact returned

theorem admits_call {op : Op} {next : Res op → Prog Bool}
    (rest : ∀ answer w₁, Admits policy key (next answer) w₁) :
    Admits policy key (.call op next) w := by
  intro ok w' run raised
  rcases run.of_call with ⟨impossible, -⟩ | ⟨answer, w₁, -, onward⟩
  · cases impossible
  · exact rest answer w₁ ok w' onward raised

/-- Whatever the cleanup does, the copy has failed. -/
theorem admits_cleanup (destPath : Bytes) :
    Admits policy key (cleanupCorruptedFile destPath >>= fun _ => .done false) w := by
  intro ok w' run _
  have all : Program.All (CopyCall destPath) (cleanupCorruptedFile destPath) :=
    cleanupCorruptedFile_calls
  have sat : Program.Sat (handler policy True) .free
      (cleanupCorruptedFile destPath >>= fun _ => .done false) (fun ok _ => ok = false) w :=
    ((all.sat (fun _ => True) trivial (fun _ _ _ _ => trivial)
      (fun _ _ _ _ _ _ _ => ⟨trivial, trivial⟩) trivial).weaken fun _ _ _ _ _ => rfl).bind
  exact sat.returned run

theorem runChunks_admits (srcPath destPath : Bytes) (fileSize offset : Nat) :
    Admits policy destPath (runChunks self fuel srcPath destPath fileSize offset) w := by
  have kept : ∀ op w answer w', (handler policy True).exec op w answer w' →
      ¬ reports destPath op → Reported destPath w' → Reported destPath w := by
    rintro op w answer w' ⟨choice, -, ran⟩ other raised
    apply reported_of_run op choice other
    rw [ran]
    exact raised
  intro ok w' run raised
  simp only [runChunks, Program.ask_bind, Program.fork_bind, Program.pure_eq,
    Program.done_bind] at run
  rcases run.of_call with ⟨impossible, -⟩ | ⟨answer, w₁, ⟨choice, -, ran⟩, onward⟩
  · cases impossible
  have start : ¬ Reported destPath w₁ := by
    obtain rfl : _ = w₁ := congrArg Prod.snd ran
    simp [Reported, Op.run]
  obtain ⟨verdicts, w₂, told, last⟩ := Program.Reach.flagged kept
    (fun i => chunkTask_reports srcPath destPath fileSize (offset + i.val * ASYNC_CHUNK_SIZE)
      (min ASYNC_CHUNK_SIZE (fileSize - (offset + i.val * ASYNC_CHUNK_SIZE)))) start onward
  rcases Classical.em (∀ i, verdicts i = true) with all | some
  · -- nobody has reported anything, and what is left reports nothing
    have silent : ¬ Reported destPath w₂ := fun up => by
      obtain ⟨i, failed⟩ := told up
      rw [all i] at failed
      cases failed
    rw [if_pos all] at last
    rcases last.of_call with ⟨impossible, -⟩ | ⟨removed, w₃, ran₃, final⟩
    · cases impossible
    have same : w₃ = w' := by
      have sat : Program.Sat (handler policy True) .free (.done true) (fun _ w' => w₃ = w') w₃ :=
        fun _ same => same
      exact sat.returned final
    subst same
    exact absurd (kept _ _ _ _ ran₃ (fun impossible => by cases impossible) raised) silent
  · rw [if_neg some] at last
    exact admits_cleanup destPath ok w' last raised

theorem transferLargeFileAsync_admits (srcPath destPath : Bytes) (offset : Nat) :
    Admits policy destPath (transferLargeFileAsync self fuel srcPath destPath offset) w := by
  simp only [transferLargeFileAsync, getFileStat, checkDiskSpace, Program.ask_bind,
    Program.call_bind]
  apply admits_call
  intro stat w₁
  cases stat with
  | none => exact admits_false
  | some statbuf =>
      dsimp only
      apply admits_call
      intro vfs w₂
      cases vfs with
      | none => exact admits_false
      | some available =>
          simp only [Program.pure_eq, Program.done_bind]
          split
          · exact admits_false
          apply admits_call
          intro srcFd w₃
          split
          · exact admits_false
          split
          · apply admits_call
            intro destFd w₄
            split
            · exact admits_false
            apply admits_call
            intro sized w₅
            split
            · exact runChunks_admits _ _ _ _
            · exact admits_cleanup _
          · apply admits_call
            intro destFd w₄
            split
            · exact runChunks_admits _ _ _ _
            · exact admits_false

/-- What a parallel copy leaves of the destination and of its record. -/
structure Parallel (self : FileSync) (k : Copy) (c : Bytes) (w : World) (ok : Bool) (w' : World) :
    Prop where
  copied : ok = true → w'.fs.entry k.dest = some (.file c) ∧ w'.fs.entry k.record = none
  /-- As a copy in one go leaves them when nothing fails. -/
  plain : ok = true → ∀ fuel ok₁ w₁,
    Program.Reach (handler (Policy.reliable fun _ => True) True).exec Eq
      (transferFile self fuel k.srcPath k.destPath 0) w (.done ok₁) w₁ →
    ok₁ = true ∧ w₁.fs.entry k.dest = w'.fs.entry k.dest ∧
      w₁.fs.entry k.record = w'.fs.entry k.record
  /-- A chunk has failed. -/
  cleaned : Reported k.destPath w' →
    ok = false ∧ w'.fs.entry k.dest = none ∧ w'.fs.entry k.record = none
  /-- The disk is too full, or a file cannot be opened or sized. -/
  refused : ok = false → ¬ Reported k.destPath w' →
    w'.fs.entry k.dest = none ∧ w'.fs.entry k.record = none ∨
    w'.fs.entry k.dest = w.fs.entry k.dest ∧ w'.fs.entry k.record = w.fs.entry k.record

/-- Whatever calls fail, and however often they are interrupted, the parallel copy returns and
either has copied the source or has cleaned up. -/
theorem transferLargeFileAsync_refines (here : k.At c d held t w)
    (silent : ¬ Reported k.destPath w)
    (small : c.length ≤ (2 ^ 31 - 1) * ASYNC_CHUNK_SIZE) (enough : ASYNC_CHUNK_SIZE + most < fuel) :
    Program.Returns
      (Program.Tallied (handler Policy.removing True).exec interrupted most)
      (fun ok s => Parallel self k c w ok s.1)
      (transferLargeFileAsync self fuel k.srcPath k.destPath 0) (w, 0) := by
  have halts : Program.Halts interrupted most
      (transferLargeFileAsync self fuel k.srcPath k.destPath 0) 0 :=
    transferLargeFileAsync_halts k.srcPath k.destPath 0 enough
  refine halts.returns (Q := fun ok w' => Parallel self k c w ok w') ?_ ?_
  · intro op w
    refine ⟨_, _, ⟨⟨0, .none, none, []⟩, ?_, rfl⟩, ?_⟩
    · cases op <;> trivial
    · cases op with
      | pread path pos count => rfl
      | pwrite path pos data =>
          dsimp only [Op.run, interrupted]
          cases w.fs.edit path _ 0 <;> rfl
      | _ => rfl
  · intro ok w' run
    have left := (transferLargeFileAsync_faults (fun _ _ _ allowed => allowed) here).returned run
    have told := transferLargeFileAsync_admits k.srcPath k.destPath 0 ok w' run
    rw [asyncImage_eq small] at left
    have untouched : k.At c d held t w' →
        w'.fs.entry k.dest = w.fs.entry k.dest ∧ w'.fs.entry k.record = w.fs.entry k.record :=
      fun now => ⟨now.dest.trans here.dest.symm, now.record.trans here.record.symm⟩
    rcases left with now | ⟨rfl, now, same⟩
    · refine ⟨?_, ?_, ?_, ?_⟩
      · rintro rfl
        exact ⟨now.dest, now.record⟩
      · rintro rfl fuel ok₁ w₁ run₁
        have sound : ∀ op choice w, Policy.reliable (fun _ => True) op choice w →
            Policy.reliable (fun _ => True) op choice w := fun _ _ _ allowed => allowed
        obtain ⟨rfl, now₁⟩ := ((transferFile_sat sound (Copy.hosts_estate k.owned_solo) here 0
          (.inl (Nat.zero_le _)) (fun _ => trivial) (.inl trivial)).mono (Interference.free_le _)
            fun _ _ holds => holds).returned run₁
        refine ⟨rfl, ?_, now₁.record.trans now.record.symm⟩
        rw [now₁.dest, now.dest]
        simp
      · intro raised
        obtain rfl := told raised
        exact ⟨rfl, now.dest, now.record⟩
      · rintro rfl -
        exact .inl ⟨now.dest, now.record⟩
    · refine ⟨by simp, by simp, fun raised => absurd ?_ silent, fun _ _ => .inr (untouched now)⟩
      rw [Reported, ← same]
      exact raised

/-- From `/s` to `/t/d`. -/
def nestedCopy : Copy where
  srcPath := [47, 115]
  destPath := [47, 116, 47, 100]
  src := [[115]]
  dest := [[116], [100]]
  record := [[116], [100] ++ progressSuffix]
  backup := [[116], [100] ++ bakSuffix]
  srcDest := by decide
  srcRecord := by decide
  destRecord := by decide
  backupOther := by decide
  destProper := by decide
  recordProper := by decide
  backupProper := by decide

/-- `/s` holds `content`, and `/t` is an empty directory. -/
def nestedFs (content : Bytes) : FileSystem := (plainFs content).put [[116]] (.dir 4096 0o755 0)

theorem nested_at (content : Bytes) :
    nestedCopy.At content none [] none (World.boot (nestedFs content)) where
  srcFound := rfl
  source := rfl
  destFound := rfl
  dest := rfl
  held := rfl
  recordFound := rfl
  record := rfl
  backupFound := rfl

/-- A chunk and one byte more, which make two chunk tasks. -/
def twoChunks : Bytes := List.replicate (ASYNC_CHUNK_SIZE + 1) 65

/-- A copy of them in which a thousand calls may be interrupted. -/
theorem transferLargeFileAsync_refines_two :
    Program.Returns
      (Program.Tallied (handler Policy.removing True).exec interrupted 1000)
      (fun ok s => Parallel plainSync nestedCopy twoChunks (World.boot (nestedFs twoChunks)) ok s.1)
      (transferLargeFileAsync plainSync (ASYNC_CHUNK_SIZE + 1001) nestedCopy.srcPath
        nestedCopy.destPath 0) (World.boot (nestedFs twoChunks), 0) := by
  have length : twoChunks.length = ASYNC_CHUNK_SIZE + 1 := List.length_replicate
  apply transferLargeFileAsync_refines (nested_at twoChunks)
  · simp [Reported, World.boot]
  · rw [length]
    decide
  · omega

end

end FileSync

end SyncTool
