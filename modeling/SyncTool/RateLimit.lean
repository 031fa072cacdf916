import SyncTool.ParallelCopy
import SyncTool.TransferTimed

set_option autoImplicit false

namespace SyncTool

open SyncTool.Path FileSync LinuxFileUtil

namespace FileSync

section

variable {self : FileSync}

theorem robustPread_instant (path : Bytes) (count offset fuel : Nat) (buffer : Bytes) :
    (robustPread path count offset fuel buffer).Calls fun op => op.delay = 0 := by
  induction fuel generalizing buffer with
  | zero => trivial
  | succ fuel ih =>
      simp only [robustPread, Program.ask_bind]
      split
      · refine ⟨rfl, fun answer => ?_⟩
        cases answer with
        | error => trivial
        | eintr => exact ih _
        | ok bytes =>
            show Program.Calls _ (if bytes = [] then _ else _)
            split
            · trivial
            · exact ih _
      · trivial

theorem robustPwrite_instant (path data : Bytes) (offset fuel totalWritten : Nat) :
    (robustPwrite path data offset fuel totalWritten).Calls fun op => op.delay = 0 := by
  induction fuel generalizing totalWritten with
  | zero => trivial
  | succ fuel ih =>
      simp only [robustPwrite, Program.ask_bind]
      split
      · refine ⟨rfl, fun answer => ?_⟩
        cases answer with
        | error => trivial
        | eintr => exact ih _
        | ok written =>
            show Program.Calls _ (if written = 0 then _ else _)
            split
            · trivial
            · exact ih _
      · trivial

theorem transferChunk_instant (fuel : Nat) (srcPath destPath : Bytes)
    (chunkOffset chunkSize bufferSize : Nat) :
    (transferChunk fuel srcPath destPath chunkOffset chunkSize bufferSize).Calls
      fun op => op.delay = 0 := by
  unfold transferChunk
  split
  · trivial
  · apply (robustPread_instant _ _ _ _ _).bind
    intro buffer
    cases buffer with
    | none => trivial
    | some buffer =>
        show Program.Calls _ (if buffer.length ≠ chunkSize then _ else _)
        split
        · trivial
        · exact (robustPwrite_instant _ _ _ _ _).bind fun _ => trivial

/-- A chunk that is copied is slept for once, a quarter of the time that its size asks for. -/
theorem chunkTask_spends (fuel : Nat) (srcPath destPath : Bytes)
    (totalSize chunkOffset currentChunkSize : Nat) :
    Program.Spends Op.delay
      (chunkTask self fuel srcPath destPath totalSize chunkOffset currentChunkSize)
      (fun ok spent => ok = true → spent = currentChunkSize * 1000 / self.speedLimit / 4) 0 := by
  simp only [chunkTask, Program.ask_bind]
  intro hasError
  cases hasError with
  | true => exact fun impossible => absurd impossible Bool.false_ne_true
  | false =>
      apply Program.Spends.bind
      apply ((transferChunk_instant fuel srcPath destPath chunkOffset currentChunkSize
        ASYNC_CHUNK_SIZE).spends (fun _ free => free) _).mono
      rintro ok spent rfl
      cases ok with
      | false => exact fun _ impossible => absurd impossible Bool.false_ne_true
      | true =>
          intro transferred
          apply Program.Spends.bind
          apply ((saveProgress_instant destPath _ totalSize).spends (fun _ free => free) _).mono
          rintro - spent rfl
          unfold throttle
          by_cases limited : 0 < self.speedLimit
          · rw [if_pos limited]
            intro _ _
            simp [Op.delay]
          · rw [if_neg limited]
            have none : self.speedLimit = 0 := by omega
            intro _
            simp [Op.delay, none]

theorem cleanupCorruptedFile_instant (destPath : Bytes) :
    (cleanupCorruptedFile destPath).Calls fun op => op.delay = 0 := by
  have removal : ∀ (exist : Bool) (path : Bytes) (next : Prog Unit),
      next.Calls (fun op => op.delay = 0) →
      Program.Calls (fun op => op.delay = 0) (if exist then .call (.remove path) fun _ => next
        else next) := by
    intro exist path next calls
    cases exist with
    | false => exact calls
    | true => exact ⟨rfl, fun _ => calls⟩
  simp only [cleanupCorruptedFile, fileExists, Program.ask_bind, Program.call_bind,
    Program.pure_eq, Program.done_bind]
  exact ⟨rfl, fun found => removal _ _ _ ⟨rfl, fun found => removal _ _ _ trivial⟩⟩

/-- A copy that has failed is not slept for any more. -/
theorem cleanup_spends (destPath : Bytes) {total spent : Nat} :
    Program.Spends Op.delay (cleanupCorruptedFile destPath >>= fun _ => .done false)
      (fun ok spent' => ok = true → spent' = total) spent := by
  apply Program.Spends.bind
  apply ((cleanupCorruptedFile_instant destPath).spends (fun _ free => free) spent).mono
  intro _ _ _ impossible
  exact absurd impossible Bool.false_ne_true

/-- What the slowest chunk of a file sleeps. -/
def chunksDelay (self : FileSync) (fileSize : Nat) : Nat :=
  Finset.univ.sup fun i : Fin (chunkCount fileSize) =>
    chunkLength fileSize i * 1000 / self.speedLimit / 4

/-- Chunks that are copied at the same time take what the slowest one does. -/
theorem fork_spends {count : Nat} {child : Fin count → Prog Bool} {each : Fin count → Nat}
    (path destPath : Bytes) (children : ∀ i, Program.Spends Op.delay (child i)
      (fun ok spent => ok = true → spent = each i) 0) (spent : Nat) :
    Program.Spends Op.delay
      (.fork count child fun verdicts =>
        if ∀ i, verdicts i = true then .call (.remove path) fun _ => .done true
        else cleanupCorruptedFile destPath >>= fun _ => .done false)
      (fun ok spent' => ok = true → spent' = spent + Finset.univ.sup each) spent := by
  refine ⟨fun i ok spent => ok = true → spent = each i, children, fun verdicts delays all => ?_⟩
  dsimp only
  apply Program.Spends.ite
  · intro good _ _
    have same : delays = each := funext fun i => all i (good i)
    rw [same]
    rfl
  · exact fun _ => cleanup_spends destPath

theorem runChunks_spends (fuel : Nat) (srcPath destPath : Bytes) (fileSize : Nat) :
    Program.Spends Op.delay (runChunks self fuel srcPath destPath fileSize 0)
      (fun ok spent => ok = true → spent = chunksDelay self fileSize) 0 := by
  simp only [runChunks, Program.ask_bind, Program.fork_bind, Program.pure_eq, Program.done_bind,
    Nat.zero_add]
  intro _
  apply (fork_spends _ destPath
    (fun i => chunkTask_spends fuel srcPath destPath fileSize _ _) _).mono
  intro ok spent known good
  rw [known good]
  simp only [Op.delay, Nat.zero_add]
  rfl

/-- Once the size of its source is known, the time of a copy that succeeds is. -/
theorem transferLargeFileAsync_spends (self : FileSync) (fuel : Nat) (srcPath destPath : Bytes) :
    ∃ next, transferLargeFileAsync self fuel srcPath destPath 0 = .call (.stat srcPath) next ∧
      ∀ statbuf, Program.Spends Op.delay (next (some statbuf))
        (fun ok spent => ok = true → spent = chunksDelay self statbuf.st_size) 0 := by
  refine ⟨_, rfl, fun statbuf => ?_⟩
  have refused : ∀ spent, Program.Spends Op.delay (.done false : Prog Bool)
      (fun ok spent => ok = true → spent = chunksDelay self statbuf.st_size) spent :=
    fun _ impossible => absurd impossible Bool.false_ne_true
  simp only [checkDiskSpace, Program.ask_bind, Program.call_bind]
  intro vfs
  cases vfs with
  | none => exact refused _
  | some available =>
      simp only [Program.pure_eq, Program.done_bind]
      apply Program.Spends.ite
      · exact fun _ => refused _
      intro _ srcFd
      apply Program.Spends.ite
      · exact fun _ => refused _
      intro _
      simp only [↓reduceIte]
      intro destFd
      apply Program.Spends.ite
      · exact fun _ => refused _
      intro _ sized
      apply Program.Spends.ite
      · exact fun _ => runChunks_spends fuel srcPath destPath statbuf.st_size
      · exact fun _ => cleanup_spends destPath

/-- A copy that succeeds takes what its slowest chunk sleeps. -/
theorem transferLargeFileAsync_delay {policy : Policy} {spins : Prop} {fuel delay : Nat}
    {srcPath destPath content : Bytes} {w w' : World} (read : w.fs.read srcPath = some content)
    (timed : Program.Timed (handler policy spins).exec Op.delay
      (transferLargeFileAsync self fuel srcPath destPath 0) w delay true w') :
    delay = chunksDelay self content.length := by
  obtain ⟨perm, mtime, stat⟩ := FileSystem.stat_of_read read
  obtain ⟨next, same, spends⟩ := transferLargeFileAsync_spends self fuel srcPath destPath
  rw [same] at timed
  cases timed with
  | call first rest =>
      obtain ⟨choice, -, ran⟩ := first
      cases ran
      rw [stat] at rest
      have told := (spends _).timed rest rfl
      show 0 + _ = _
      exact told

theorem chunkTask_sequential (fuel : Nat) (srcPath destPath : Bytes)
    (totalSize chunkOffset currentChunkSize : Nat) :
    (chunkTask self fuel srcPath destPath totalSize chunkOffset currentChunkSize).Calls
      fun _ => True := by
  have instant : ∀ {α : Type} {p : Prog α}, p.Calls (fun op => op.delay = 0) →
      p.Calls fun _ => True :=
    fun calls => calls.mono fun _ _ => trivial
  simp only [chunkTask, Program.ask_bind, Program.calls_call]
  refine ⟨trivial, fun hasError => ?_⟩
  cases hasError with
  | true => trivial
  | false =>
      apply (instant (transferChunk_instant fuel srcPath destPath chunkOffset currentChunkSize
        ASYNC_CHUNK_SIZE)).bind
      intro ok
      cases ok with
      | false => exact ⟨trivial, fun _ => trivial⟩
      | true =>
          refine ⟨trivial, fun transferred => ?_⟩
          apply (instant (saveProgress_instant destPath _ totalSize)).bind
          intro _
          exact (throttle_sequential _).bind fun _ => trivial

theorem runChunks_shallow (fuel : Nat) (srcPath destPath : Bytes) (fileSize offset : Nat) :
    (runChunks self fuel srcPath destPath fileSize offset).Shallow := by
  simp only [runChunks, Program.ask_bind, Program.fork_bind, Program.pure_eq, Program.done_bind]
  intro _
  refine ⟨fun i => chunkTask_sequential _ _ _ _ _ _, fun verdicts => ?_⟩
  dsimp only
  apply Program.Shallow.ite
  · exact fun _ => trivial
  · exact (cleanupCorruptedFile_instant destPath).shallow.bind fun _ => trivial

theorem transferLargeFileAsync_shallow (fuel : Nat) (srcPath destPath : Bytes) (offset : Nat) :
    (transferLargeFileAsync self fuel srcPath destPath offset).Shallow := by
  have refused : Program.Shallow (.done false : Prog Bool) := trivial
  simp only [transferLargeFileAsync, getFileStat, checkDiskSpace, Program.ask_bind,
    Program.call_bind]
  intro stat
  cases stat with
  | none => trivial
  | some statbuf =>
      intro vfs
      cases vfs with
      | none => trivial
      | some available =>
          simp only [Program.pure_eq, Program.done_bind]
          apply Program.Shallow.ite refused
          intro srcFd
          apply Program.Shallow.ite refused
          apply Program.Shallow.ite
          · intro destFd
            apply Program.Shallow.ite refused
            intro sized
            apply Program.Shallow.ite (runChunks_shallow _ _ _ _ _)
            exact (cleanupCorruptedFile_instant destPath).shallow.bind fun _ => trivial
          · intro destFd
            exact Program.Shallow.ite (runChunks_shallow _ _ _ _ _) refused

/-- What the rate limit asks of a copy: one block apart, no more than `speedLimit` bytes
per second. -/
def Limited (speedLimit size block delay : Nat) : Prop :=
  1000 * size ≤ delay * speedLimit + 1000 * block

/-- Every copy of `size` bytes by `transferFile` keeps to the limit. -/
def TransferFileLimited (speedLimit size : Nat) : Prop :=
  ∀ {self : FileSync} {k : Transfer} {c held : Bytes} {d t : Option Bytes} {w w' : World}
    {fuel delay : Nat} {ok : Bool}, self.speedLimit = speedLimit →
      c.length = size → k.At c d held t w →
    Program.Timed (handler (Policy.reliable fun _ => True) False).exec Op.delay
      (transferFile self fuel k.srcPath k.destPath 0) w delay ok w' →
    Limited speedLimit size bufferSize delay

/-- Every sending of `size` bytes by `sendFileSync` does. -/
def SendFileSyncLimited (speedLimit size : Nat) : Prop :=
  ∀ {self : FileSync} {k : Transfer} {c held : Bytes} {d t : Option Bytes} {w w' : World}
    {fuel delay : Nat} {out : Bool × TcpClient}, self.speedLimit = speedLimit → c.length = size →
    k.At c d held t w →
    Program.Timed (handler (Policy.reliable fun _ => True) False).exec Op.delay
      (sendFileSync self fuel k.srcPath k.destPath ⟨true⟩ 0) w delay out w' →
    Limited speedLimit size bufferSize delay

/-- Every parallel copy of `size` bytes that succeeds does. -/
def TransferLargeFileAsyncLimited (speedLimit size : Nat) : Prop :=
  ∀ {policy : Policy} {self : FileSync} {srcPath destPath c : Bytes} {w w' : World}
    {fuel delay : Nat},
    self.speedLimit = speedLimit → c.length = size → w.fs.read srcPath = some c →
    Program.Timed (handler policy False).exec Op.delay
      (transferLargeFileAsync self fuel srcPath destPath 0) w delay true w' →
    Limited speedLimit size ASYNC_CHUNK_SIZE delay

theorem transferFile_delay {k : Transfer} {c held : Bytes} {d t : Option Bytes} {w w' : World}
    {fuel delay : Nat} {ok : Bool} (here : k.At c d held t w)
    (timed : Program.Timed (handler (Policy.reliable fun _ => True) False).exec Op.delay
      (transferFile self fuel k.srcPath k.destPath 0) w delay ok w') :
    delay = c.length / bufferSize * self.pause := by
  have clocks : Program.Sat (timing (Policy.reliable fun _ => True) True) .free
      (transferFile self fuel k.srcPath k.destPath 0)
      (fun _ s => s.2 = 0 + c.length / bufferSize * self.pause) (w, 0) := by
    apply (transferFile_timed (fun _ _ _ allowed => allowed) here 0 (.inl (Nat.zero_le _))
      (.inl trivial)).weaken
    exact fun _ _ after => after.2.2
  simpa using clocks.timed (transferFile_sequential fuel k.srcPath k.destPath 0) timed

theorem sendFileSync_delay {k : Transfer} {c held : Bytes} {d t : Option Bytes} {w w' : World}
    {fuel delay : Nat} {out : Bool × TcpClient} (here : k.At c d held t w)
    (timed : Program.Timed (handler (Policy.reliable fun _ => True) False).exec Op.delay
      (sendFileSync self fuel k.srcPath k.destPath ⟨true⟩ 0) w delay out w') :
    delay = (c.length + (bufferSize - 1)) / bufferSize * self.pause := by
  have clocks : Program.Sat (timing (Policy.reliable fun _ => True) True) .free
      (sendFileSync self fuel k.srcPath k.destPath ⟨true⟩ 0)
      (fun _ s => s.2 = 0 + (c.length + (bufferSize - 1)) / bufferSize * self.pause) (w, 0) := by
    apply (sendFileSync_timed (fun _ _ _ allowed => allowed) here 0 (.inl trivial)).weaken
    exact fun _ _ after => after.2
  simpa using clocks.timed (sendFileSync_sequential fuel k.srcPath k.destPath ⟨true⟩ 0) timed

theorem chunk_delay (size : Nat) :
    size * 1000 / self.speedLimit / 4 = 250 * size / self.speedLimit := by
  have four : size * 1000 = 250 * size * 4 := by omega
  rw [Nat.div_div_eq_div_mul, four, Nat.mul_div_mul_right _ _ (by omega)]

/-- No chunk sleeps for longer than one of full length. -/
theorem chunksDelay_le (size : Nat) :
    chunksDelay self size ≤ 250 * ASYNC_CHUNK_SIZE / self.speedLimit := by
  apply Finset.sup_le
  intro i _
  rw [chunk_delay]
  apply Nat.div_le_div_right
  apply Nat.mul_le_mul_left
  exact Nat.min_le_left _ _

/-- With a second chunk, the first one is of full length. -/
theorem chunksDelay_eq {size : Nat} (more : ASYNC_CHUNK_SIZE < size)
    (few : size ≤ 2 * ASYNC_CHUNK_SIZE) :
    chunksDelay self size = 250 * ASYNC_CHUNK_SIZE / self.speedLimit := by
  apply Nat.le_antisymm (chunksDelay_le size)
  have first : 0 < chunkCount size := by
    rw [chunkCount, numChunks_eq, toInt32_of_lt] <;> simp only [ASYNC_CHUNK_SIZE] at more few ⊢ <;>
      omega
  have full : chunkLength size 0 = ASYNC_CHUNK_SIZE := by
    rw [chunkLength, chunkStart, Nat.zero_mul, Nat.sub_zero]
    exact Nat.min_eq_left (by omega)
  have longest : chunkLength size 0 * 1000 / self.speedLimit / 4 ≤ chunksDelay self size := by
    unfold chunksDelay
    exact Finset.le_sup (f := fun i : Fin (chunkCount size) =>
      chunkLength size i * 1000 / self.speedLimit / 4) (b := ⟨0, first⟩) (Finset.mem_univ _)
  rwa [full, chunk_delay] at longest

section

variable {speedLimit size : Nat}

/-- Of what a block asks for, its remainder by the limit is not slept. -/
theorem limited_iff {block blocks amount : Nat} :
    Limited speedLimit size block (blocks * (amount / speedLimit)) ↔
      1000 * size + blocks * (amount % speedLimit) ≤ blocks * amount + 1000 * block := by
  have rounded : blocks * (amount / speedLimit) * speedLimit + blocks * (amount % speedLimit) =
      blocks * amount := by
    rw [Nat.mul_assoc, ← Nat.mul_add, Nat.div_add_mod']
  unfold Limited
  omega

theorem limited_copy :
    Limited speedLimit size bufferSize (size / bufferSize * (bufferSize * 1000 / speedLimit)) ↔
    size / bufferSize * (bufferSize * 1000 % speedLimit) ≤
      1000 * (bufferSize - size % bufferSize) := by
  rw [limited_iff]
  simp only [bufferSize]
  omega

theorem limited_sent : Limited speedLimit size bufferSize
      ((size + (bufferSize - 1)) / bufferSize * (bufferSize * 1000 / speedLimit)) ↔
    (size + (bufferSize - 1)) / bufferSize * (bufferSize * 1000 % speedLimit) ≤
      1000 * (bufferSize * ((size + (bufferSize - 1)) / bufferSize + 1) - size) := by
  rw [limited_iff]
  simp only [bufferSize]
  omega

theorem limited_chunk :
    Limited speedLimit size ASYNC_CHUNK_SIZE (250 * ASYNC_CHUNK_SIZE / speedLimit) ↔
    1000 * (size - ASYNC_CHUNK_SIZE) + 250 * ASYNC_CHUNK_SIZE % speedLimit ≤
      250 * ASYNC_CHUNK_SIZE := by
  have one := @limited_iff speedLimit size ASYNC_CHUNK_SIZE 1 (250 * ASYNC_CHUNK_SIZE)
  rw [Nat.one_mul, Nat.one_mul, Nat.one_mul] at one
  rw [one]
  have some := Nat.mod_le (250 * ASYNC_CHUNK_SIZE) speedLimit
  generalize 250 * ASYNC_CHUNK_SIZE % speedLimit = lost at some ⊢
  omega

/-- A synchroniser with a limit, and a source for it. -/
def limitedSync (speedLimit : Nat) : FileSync := { plainSync with speedLimit := speedLimit }

def zeros (size : Nat) : Bytes := List.replicate size 0

theorem zeros_at (size : Nat) :
    plainCopy.transfer.At (zeros size) none [] none (World.boot (plainFs (zeros size))) :=
  (plain_at (zeros size)).transfer

theorem length_zeros (size : Nat) : (zeros size).length = size := List.length_replicate

theorem transferFileLimited_iff : TransferFileLimited speedLimit size ↔
    size / bufferSize * (bufferSize * 1000 % speedLimit) ≤
      1000 * (bufferSize - size % bufferSize) := by
  constructor
  · intro every
    have enough : (zeros size).length < (size + 1) * bufferSize := by
      rw [length_zeros]
      simp only [bufferSize]
      omega
    obtain ⟨ok, w', run, -⟩ := (transferFile_exact (limitedSync speedLimit) (zeros_at size) 0
      (.inl (Nat.zero_le _)) enough).exists_run
    obtain ⟨delay, timed⟩ : ∃ delay, Program.Timed _ Op.delay _ _ delay ok w' :=
      Program.Timed.of_reach (transferFile_sequential _ _ _ _).shallow run
    have kept := every rfl (length_zeros size) (zeros_at size) timed
    rw [transferFile_delay (zeros_at size) timed, length_zeros] at kept
    exact limited_copy.mp kept
  · intro enough self k c held d t w w' fuel delay ok limit length here timed
    rw [transferFile_delay here timed, length, pause, limit]
    exact limited_copy.mpr enough

theorem sendFileSyncLimited_iff : SendFileSyncLimited speedLimit size ↔
    (size + (bufferSize - 1)) / bufferSize * (bufferSize * 1000 % speedLimit) ≤
      1000 * (bufferSize * ((size + (bufferSize - 1)) / bufferSize + 1) - size) := by
  constructor
  · intro every
    have enough : 2 ≤ size + 2 ∧
        ((zeros size).length - 0 + (bufferSize - 1)) / bufferSize < size + 2 := by
      rw [length_zeros]
      simp only [bufferSize]
      omega
    have sends : Program.Sat (timing (Policy.reliable fun _ => True) False) .free
        (sendFileSync (limitedSync speedLimit)
          (size + 2) plainCopy.srcPath plainCopy.destPath ⟨true⟩ 0)
        (fun _ _ => True) (World.boot (plainFs (zeros size)), 0) := by
      apply (sendFileSync_timed (fun _ _ _ allowed => allowed) (zeros_at size) 0
        (.inr enough)).weaken
      exact fun _ _ _ => trivial
    have plain : Program.Sat (handler (Policy.reliable fun _ => True) False) .free
        (sendFileSync (limitedSync speedLimit)
          (size + 2) plainCopy.srcPath plainCopy.destPath ⟨true⟩ 0)
        (fun _ _ => True) (World.boot (plainFs (zeros size))) :=
      Program.Sat.unclocked (sendFileSync_sequential _ _ _ _ _) sends
    have returns := plain.returns id fun op s =>
      ⟨_, _, Policy.quietly_reliable (fun _ => True) False 0 trivial op s⟩
    obtain ⟨out, w', run, -⟩ := returns.exists_run
    obtain ⟨delay, timed⟩ : ∃ delay, Program.Timed _ Op.delay _ _ delay out w' :=
      Program.Timed.of_reach (sendFileSync_sequential _ _ _ _ _).shallow run
    have kept := every rfl (length_zeros size) (zeros_at size) timed
    rw [sendFileSync_delay (zeros_at size) timed, length_zeros] at kept
    exact limited_sent.mp kept
  · intro enough self k c held d t w w' fuel delay out limit length here timed
    rw [sendFileSync_delay here timed, length, pause, limit]
    exact limited_sent.mpr enough

theorem transferLargeFileAsyncLimited_iff :
    TransferLargeFileAsyncLimited speedLimit size ↔
      1000 * (size - ASYNC_CHUNK_SIZE) + 250 * ASYNC_CHUNK_SIZE % speedLimit ≤
        250 * ASYNC_CHUNK_SIZE := by
  constructor
  · intro every
    have here := nested_at (zeros size)
    have copies :
        Program.Sat (handler (Policy.reliable (· = size)) False) nestedCopy.solo.interference
        (transferLargeFileAsync (limitedSync speedLimit) (ASYNC_CHUNK_SIZE + 1) nestedCopy.srcPath
          nestedCopy.destPath 0) _ (World.boot (nestedFs (zeros size))) :=
      transferLargeFileAsync_sat (fun _ _ _ allowed => allowed) nestedCopy.owned_solo here
        (.inr (Nat.lt_succ_self _))
    have returns := (copies.mono (Interference.free_le _) fun _ _ holds => holds).returns id
      fun op s =>
      ⟨_, _, Policy.quietly_reliable (· = size) False size rfl op s⟩
    obtain ⟨ok, w', run, outcome⟩ := returns.exists_run
    rcases outcome with ⟨rfl, -, -⟩ | ⟨-, cramped, -⟩
    · obtain ⟨delay, timed⟩ : ∃ delay, Program.Timed _ Op.delay _ _ delay true w' :=
        Program.Timed.of_reach (transferLargeFileAsync_shallow _ _ _ _) run
      have kept := every rfl (length_zeros size) here.read_src timed
      have longest := @chunksDelay_le (limitedSync speedLimit) size
      rw [transferLargeFileAsync_delay here.read_src timed, length_zeros] at kept
      apply limited_chunk.mp
      exact Nat.le_trans kept (Nat.add_le_add_right (Nat.mul_le_mul_right _ longest) _)
    · obtain ⟨amount, rfl, short⟩ := cramped (by decide)
      rw [length_zeros] at short
      omega
  · intro enough policy self srcPath destPath c w w' fuel delay limit length read timed
    rw [transferLargeFileAsync_delay read timed, length]
    by_cases more : ASYNC_CHUNK_SIZE < size
    · have few : size ≤ 2 * ASYNC_CHUNK_SIZE := by omega
      rw [chunksDelay_eq more few, limit]
      exact limited_chunk.mpr enough
    · unfold Limited
      omega

/-- The three copies keep to the limit as long as what the division of their blocks loses comes to
no more than the block that is left out. -/
theorem speedLimit_iff (speedLimit size : Nat) :
    (TransferFileLimited speedLimit size ↔
      size / bufferSize * (bufferSize * 1000 % speedLimit) ≤
        1000 * (bufferSize - size % bufferSize)) ∧
    (SendFileSyncLimited speedLimit size ↔
      (size + (bufferSize - 1)) / bufferSize * (bufferSize * 1000 % speedLimit) ≤
        1000 * (bufferSize * ((size + (bufferSize - 1)) / bufferSize + 1) - size)) ∧
    (TransferLargeFileAsyncLimited speedLimit size ↔
      1000 * (size - ASYNC_CHUNK_SIZE) + 250 * ASYNC_CHUNK_SIZE % speedLimit ≤
        250 * ASYNC_CHUNK_SIZE) :=
  ⟨transferFileLimited_iff, sendFileSyncLimited_iff, transferLargeFileAsyncLimited_iff⟩

/-- At ten megabytes per second, a block of 4096 bytes is not slept for at all, and the chunks of a
file of 16 megabytes for a tenth of a second. -/
theorem speedLimit_exceeded : ¬ TransferFileLimited 10485760 16777216 ∧
    ¬ SendFileSyncLimited 10485760 16777216 ∧
    ¬ TransferLargeFileAsyncLimited 10485760 16777216 := by
  rw [transferFileLimited_iff, sendFileSyncLimited_iff, transferLargeFileAsyncLimited_iff]
  decide

end

end

end FileSync

end SyncTool
