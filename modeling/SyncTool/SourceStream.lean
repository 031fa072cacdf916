import SyncTool.Connection
import SyncTool.ProgramRuns
import SyncTool.SyncFileOutcome

set_option autoImplicit false

namespace SyncTool

open SyncTool.Path

/-- What comes of the stream that a source is read from: the length its end is found at, if it
can be opened, and how many bytes there are for each of the reads, were it not to fail before. -/
structure SourceStream where
  length : Option Nat
  delivers : Nat → Nat

namespace SourceStream

/-- A machine and the stream it reads the source from: how many reads there have been, and
whether one of them came short. -/
structure Reading where
  world : World
  reads : Nat
  failed : Bool

/-- Streams that have failed deliver nothing any more. -/
def exec (stream : SourceStream) (policy : Policy) :
    (op : Op) → Reading → Res op → Reading → Prop
  | .openIn _, s, opened, s' => opened = stream.length.isSome ∧ s' = s
  | .seekEnd _, s, size, s' => size = stream.length.getD 0 ∧ s' = s
  | .get _ _ count, s, block, s' =>
      block.length = (if s.failed then 0 else min count (stream.delivers s.reads)) ∧
        s' = ⟨s.world, s.reads + 1, s.failed || decide (block.length < count)⟩
  | op, s, answer, s' => ∃ choice, policy op choice s.world ∧
      s' = { s with world := (op.run choice s.world).2 } ∧ answer = (op.run choice s.world).1

def handler (stream : SourceStream) (policy : Policy) (spins : Prop) : Handler Op Res Reading where
  exec := stream.exec policy
  spins := spins

/-- Anything may fail but the sending, which takes something each time. -/
def sending : Policy
  | .send _, choice, _ => choice.fault = .none ∧ choice.count ≠ some 0
  | _, _, _ => True

/-- The read at the position of the `i`-th block finds all that is asked for. -/
def Whole (stream : SourceStream) (size offset i : Nat) : Prop :=
  min FileSync.bufferSize (size - (offset + i * FileSync.bufferSize)) ≤ stream.delivers i

variable {stream : SourceStream} {policy : Policy} {spins : Prop} {s : Reading} {α : Type}

/-- Calls that neither touch the stream nor the connection. -/
def Aside : Op → Prop
  | .openIn _ | .seekEnd _ | .get _ _ _ | .send _ => False
  | _ => True

/-- Where the stream and the connection are. -/
structure Same (s s' : Reading) : Prop where
  reads : s'.reads = s.reads
  failed : s'.failed = s.failed
  sent : s'.world.sent = s.world.sent

theorem Same.refl (s : Reading) : Same s s := ⟨rfl, rfl, rfl⟩

theorem Same.trans {s₁ s₂ s₃ : Reading} (first : Same s₁ s₂) (second : Same s₂ s₃) :
    Same s₁ s₃ where
  reads := second.reads.trans first.reads
  failed := second.failed.trans first.failed
  sent := second.sent.trans first.sent

theorem exec_aside {op : Op} {s' : Reading} {answer : Res op} (aside : Aside op)
    (ran : stream.exec policy op s answer s') : Same s s' := by
  have kept : ∀ choice, s' = { s with world := (op.run choice s.world).2 } → Same s s' := by
    rintro choice rfl
    refine ⟨rfl, rfl, run_sent op ?_ _ _⟩
    rintro data rfl
    exact aside
  cases op with
  | openIn path => exact aside.elim
  | seekEnd path => exact aside.elim
  | get path pos count => exact aside.elim
  | send data => exact aside.elim
  | _ =>
      obtain ⟨choice, -, left_, -⟩ := ran
      exact kept choice left_

theorem exists_exec (stream : SourceStream) (op : Op) (s : Reading) :
    ∃ answer s', stream.exec sending op s answer s' := by
  cases op with
  | openIn path => exact ⟨_, _, rfl, rfl⟩
  | seekEnd path => exact ⟨_, _, rfl, rfl⟩
  | get path pos count => exact ⟨List.replicate _ 0, _, List.length_replicate, rfl⟩
  | send data => exact ⟨_, _, ⟨0, .none, none, []⟩, ⟨rfl, by simp⟩, rfl, rfl⟩
  | _ => exact ⟨_, _, ⟨0, .none, none, []⟩, trivial, rfl, rfl⟩

/-- One such call. -/
theorem sat_aside {op : Op} {next : Res op → Prog α} {Q : α → Reading → Prop} (aside : Aside op)
    (holds : ∀ answer s', Same s s' →
      Program.Sat (stream.handler policy spins) .free (next answer) Q s') :
    Program.Sat (stream.handler policy spins) .free (.call op next) Q s := by
  intro s₁ drift answer s' ran
  obtain rfl : s = s₁ := drift
  exact ⟨trivial, holds answer s' (exec_aside aside ran)⟩

theorem saveProgress_aside (filePath : Bytes) (offset totalSize : Nat) :
    Program.Sat (stream.handler policy spins) .free
      (FileSync.saveProgress filePath offset totalSize) (fun _ s' => Same s s') s := by
  simp only [FileSync.saveProgress, Program.ask_bind]
  refine sat_aside trivial fun opened s₁ same₁ => ?_
  apply Program.Sat.ite
  · intro _
    refine sat_aside trivial fun _ s₂ same₂ => ?_
    refine sat_aside trivial fun _ s₃ same₃ => ?_
    intro s₄ drift
    obtain rfl : s₃ = s₄ := drift
    exact (same₁.trans same₂).trans same₃
  · intro _ s₂ drift
    obtain rfl : s₁ = s₂ := drift
    exact same₁

theorem throttle_aside (self : FileSync) (milliseconds : Nat) :
    Program.Sat (stream.handler policy spins) .free (FileSync.throttle self milliseconds)
      (fun _ s' => Same s s') s := by
  unfold FileSync.throttle
  apply Program.Sat.ite
  · intro _
    refine sat_aside trivial fun _ s₁ same => ?_
    intro s₂ drift
    obtain rfl : s₁ = s₂ := drift
    exact same
  · intro _ s₁ drift
    obtain rfl : s = s₁ := drift
    exact Same.refl s

/-- The stream is where it was, and `n` more bytes are sent. -/
structure Sent (n : Nat) (s s' : Reading) : Prop where
  reads : s'.reads = s.reads
  failed : s'.failed = s.failed
  sent : s'.world.sent.length = s.world.sent.length + n

theorem Sent.same {n : Nat} {s₁ s₂ s₃ : Reading} (first : Sent n s₁ s₂) (second : Same s₂ s₃) :
    Sent n s₁ s₃ where
  reads := second.reads.trans first.reads
  failed := second.failed.trans first.failed
  sent := by rw [second.sent, first.sent]

/-- Sends that do not fail send everything. -/
theorem sendLoop_sends {data : Bytes} {fuel k : Nat} (within : k ≤ data.length)
    (enough : spins ∨ data.length - k < fuel) :
    Program.Sat (stream.handler sending spins) .free (sendLoop data fuel k)
      (fun ok s' => ok = true ∧ Sent (data.length - k) s s') s := by
  induction fuel generalizing k s with
  | zero => exact enough.resolve_right (by omega)
  | succ fuel ih =>
      simp only [sendLoop, Program.ask_bind]
      apply Program.Sat.ite
      · rintro left_ s₁ drift answer s' ⟨choice, ⟨fine, some_⟩, rfl, rfl⟩
        obtain rfl : s = s₁ := drift
        refine ⟨trivial, ?_⟩
        have length : (data.drop k).length = data.length - k := List.length_drop
        have positive := choice.limit_pos some_ (show 0 < (data.drop k).length by omega)
        have short := choice.limit_le (data.drop k).length
        simp only [Op.run, fine]
        generalize choice.limit (data.drop k).length = n at *
        apply (ih (by omega) (enough.imp_right fun _ => by omega)).weaken
        rintro ok s' ⟨rfl, sent⟩
        refine ⟨rfl, sent.reads, sent.failed, ?_⟩
        rw [sent.sent]
        simp only [List.length_append, List.length_take]
        omega
      · intro all s₁ drift
        obtain rfl : s = s₁ := drift
        have nothing : data.length - k = 0 := by omega
        exact ⟨rfl, rfl, rfl, by rw [nothing]; rfl⟩

theorem send_sends {data : Bytes} {fuel : Nat} (enough : spins ∨ data.length < fuel) :
    Program.Sat (stream.handler sending spins) .free (TcpClient.send ⟨true⟩ fuel data)
      (fun out s' => out = (true, ⟨true⟩) ∧ Sent data.length s s') s := by
  apply Program.Sat.bind
  apply (sendLoop_sends (Nat.zero_le _) enough).weaken
  rintro ok s₁ ⟨rfl, sent⟩ s₂ drift
  obtain rfl : s₁ = s₂ := drift
  exact ⟨rfl, sent⟩

variable {self : FileSync} {srcPath destPath : Bytes} {size sends fuel transferred : Nat}
  {Q : Bool × TcpClient → Reading → Prop}

/-- A round of the loop: `n` bytes are read and sent, and the stream is as it is after the read. -/
theorem sendBlocks_round (left : transferred < size) (enough : spins ∨ FileSync.bufferSize < sends)
    {n : Nat} (delivered : n = if s.failed then 0 else
      min (min FileSync.bufferSize (size - transferred)) (stream.delivers s.reads))
    (next : ∀ s' : Reading, s'.reads = s.reads + 1 →
      s'.failed = (s.failed || decide (n < min FileSync.bufferSize (size - transferred))) →
      s'.world.sent.length = s.world.sent.length + n →
      Program.Sat (stream.handler sending spins) .free
        (self.sendBlocks srcPath destPath size sends fuel ⟨true⟩ (transferred + n)) Q s') :
    Program.Sat (stream.handler sending spins) .free
      (self.sendBlocks srcPath destPath size sends (fuel + 1) ⟨true⟩ transferred) Q s := by
  simp only [FileSync.sendBlocks, Program.ask_bind]
  rw [if_pos left]
  rintro s₁ drift block s₂ ⟨length, rfl⟩
  obtain rfl : s = s₁ := drift
  refine ⟨trivial, ?_⟩
  rw [← delivered] at length
  apply Program.Sat.ite
  · intro positive
    have short : block.length ≤ FileSync.bufferSize := by
      rw [length, delivered]
      split
      · exact Nat.zero_le _
      · exact (Nat.min_le_left _ _).trans (Nat.min_le_left _ _)
    apply Program.Sat.bind
    apply (send_sends (enough.imp_right fun _ => by omega)).weaken
    rintro out s₂ ⟨rfl, sent⟩
    simp only [↓reduceIte]
    apply Program.Sat.bind
    apply (saveProgress_aside destPath _ size).weaken
    intro _ s₃ saved
    apply Program.Sat.bind
    apply (throttle_aside self _).weaken
    intro _ s₄ waited
    have now := (sent.same saved).same waited
    rw [length]
    apply next
    · exact now.reads
    · rw [now.failed, length]
    · rw [now.sent, length]
  · intro nothing
    have none_ : n = 0 := by omega
    subst none_
    apply next
    · rfl
    · rw [length]
    · rfl

/-- A stream that has failed keeps the loop going for ever. -/
theorem sendBlocks_stuck (loops : spins) (failed : s.failed = true) (left : transferred < size) :
    Program.Sat (stream.handler sending spins) .free
      (self.sendBlocks srcPath destPath size sends fuel ⟨true⟩ transferred)
        (fun _ _ => False) s := by
  induction fuel generalizing s with
  | zero => exact loops
  | succ fuel ih =>
      apply @sendBlocks_round _ _ _ _ _ _ _ _ _ _ _ left (.inl loops) 0
      · rw [if_pos failed]
      · intro s' _ failed' _
        apply ih
        rw [failed', failed]
        rfl

/-- So does one that comes short at one of the blocks that are left. -/
theorem sendBlocks_short {offset i : Nat} (loops : spins)
    (short : ∃ j, i ≤ j ∧ offset + j * FileSync.bufferSize < size ∧ ¬ stream.Whole size offset j)
    (reads : s.reads = i) :
    Program.Sat (stream.handler sending spins) .free
      (self.sendBlocks srcPath destPath size sends fuel ⟨true⟩ (offset + i * FileSync.bufferSize))
      (fun _ _ => False) s := by
  obtain ⟨j, later, inside, short⟩ := short
  have left : offset + i * FileSync.bufferSize < size := by
    have := Nat.mul_le_mul_right FileSync.bufferSize later
    omega
  induction fuel generalizing s i with
  | zero => exact loops
  | succ fuel ih =>
      by_cases failed : s.failed = true
      · exact sendBlocks_stuck loops failed left
      apply @sendBlocks_round _ _ _ _ _ _ _ _ _ _ _ left (.inl loops) _ rfl
      intro s' reads' failed' _
      rw [if_neg failed, reads] at failed' ⊢
      by_cases whole : stream.Whole size offset i
      · rw [Nat.min_eq_left whole] at failed' ⊢
        have other : i ≠ j := fun same => short (same ▸ whole)
        have further := Nat.mul_le_mul_right FileSync.bufferSize (show i + 1 ≤ j by omega)
        have full : min FileSync.bufferSize (size - (offset + i * FileSync.bufferSize)) =
            FileSync.bufferSize := by
          rw [Nat.add_mul] at further
          omega
        have behind : offset + i * FileSync.bufferSize + FileSync.bufferSize =
            offset + (i + 1) * FileSync.bufferSize := by
          rw [Nat.add_mul]
          omega
        rw [full, behind]
        apply ih
        · omega
        · omega
        · omega
      · unfold Whole at whole
        apply sendBlocks_stuck loops
        · rw [failed']
          simp only [Bool.or_eq_true, decide_eq_true_eq]
          right
          omega
        · omega

/-- Streams that do not come short are sent to the end. -/
theorem sendBlocks_whole {offset i : Nat}
    (whole : ∀ i, offset + i * FileSync.bufferSize < size → stream.Whole size offset i)
    (reads : s.reads = i) (running : s.failed = false)
    (position : transferred = min (offset + i * FileSync.bufferSize) size)
    (loops : spins ∨ FileSync.bufferSize < sends) (enough : spins ∨ size - transferred < fuel) :
    Program.Sat (stream.handler sending spins) .free
      (self.sendBlocks srcPath destPath size sends fuel ⟨true⟩ transferred)
      (fun out s' => out.1 = true ∧
        s'.world.sent.length = s.world.sent.length + (size - transferred)) s := by
  induction fuel generalizing s i transferred with
  | zero => exact enough.resolve_right (by omega)
  | succ fuel ih =>
      by_cases left : transferred < size
      · have here : transferred = offset + i * FileSync.bufferSize := by omega
        have all := whole i (by omega)
        unfold Whole at all
        rw [← here] at all
        apply @sendBlocks_round _ _ _ _ _ _ _ _ _ _ _ left loops
          (min FileSync.bufferSize (size - transferred))
        · rw [running, reads]
          exact (Nat.min_eq_left all).symm
        · intro s' reads' failed' sent
          have further : transferred + min FileSync.bufferSize (size - transferred) =
              min (offset + (i + 1) * FileSync.bufferSize) size := by
            rw [Nat.succ_mul]
            omega
          have positive : 0 < min FileSync.bufferSize (size - transferred) := by
            simp only [FileSync.bufferSize]
            omega
          apply (ih (by omega) _ further (enough.imp_right fun _ => by omega)).weaken
          · rintro out s'' ⟨ok, sent'⟩
            refine ⟨ok, ?_⟩
            rw [sent', sent]
            omega
          · rw [failed', running]
            simp
      · simp only [FileSync.sendBlocks]
        rw [if_neg left]
        intro s₁ drift
        obtain rfl : s = s₁ := drift
        exact ⟨rfl, by omega⟩

variable {offset : Nat} {w : World}

theorem sendFileSync_whole
    (whole : ∀ i, offset + i * FileSync.bufferSize < stream.length.getD 0 →
      stream.Whole (stream.length.getD 0) offset i)
    (position : offset ≤ stream.length.getD 0) (running : s.failed = false) (reads : s.reads = 0)
    (enough : spins ∨ FileSync.bufferSize < fuel ∧ stream.length.getD 0 - offset < fuel) :
    Program.Sat (stream.handler sending spins) .free
      (self.sendFileSync fuel srcPath destPath ⟨true⟩ offset)
      (fun out s' => out.1 = true →
        s'.world.sent.length = s.world.sent.length + (stream.length.getD 0 - offset)) s := by
  simp only [FileSync.sendFileSync, Program.ask_bind]
  rintro s₁ drift opened s₂ ⟨rfl, rfl⟩
  obtain rfl : s = s₂ := drift
  refine ⟨trivial, ?_⟩
  apply Program.Sat.ite
  · rintro - s₁ drift fileSize s₂ ⟨rfl, rfl⟩
    obtain rfl : s = s₂ := drift
    refine ⟨trivial, ?_⟩
    apply Program.Sat.bind
    have start : offset = min (offset + 0 * FileSync.bufferSize) (stream.length.getD 0) := by omega
    apply (sendBlocks_whole whole reads running start (enough.imp_right And.left)
      (enough.imp_right And.right)).weaken
    rintro ⟨ok, client⟩ s₁ ⟨rfl, sent⟩
    refine sat_aside trivial fun _ s₂ same => ?_
    rintro s₃ drift -
    obtain rfl : s₂ = s₃ := drift
    rw [same.sent, sent]
  · rintro - s₁ drift impossible
    cases impossible

theorem sendFileSync_short (loops : spins)
    (short : ∃ i, offset + i * FileSync.bufferSize < stream.length.getD 0 ∧
      ¬ stream.Whole (stream.length.getD 0) offset i) (reads : s.reads = 0) :
    Program.Sat (stream.handler sending spins) .free
      (self.sendFileSync fuel srcPath destPath ⟨true⟩ offset) (fun _ _ => False) s := by
  obtain ⟨i, inside, short⟩ := short
  simp only [FileSync.sendFileSync, Program.ask_bind]
  rintro s₁ drift opened s₂ ⟨rfl, rfl⟩
  obtain rfl : s = s₂ := drift
  refine ⟨trivial, ?_⟩
  have present : stream.length.isSome = true := by
    cases length : stream.length with
    | none => simp [length] at inside
    | some size => rfl
  simp only [present, ↓reduceIte]
  rintro s₁ drift fileSize s₂ ⟨rfl, rfl⟩
  obtain rfl : s = s₂ := drift
  refine ⟨trivial, ?_⟩
  apply Program.Sat.bind
  have stuck := @sendBlocks_short stream spins s self srcPath destPath (stream.length.getD 0) fuel
    fuel offset 0 loops ⟨i, Nat.zero_le i, inside, short⟩ reads
  rw [Nat.zero_mul, Nat.add_zero] at stuck
  apply stuck.weaken
  intro _ _ impossible
  exact impossible.elim

/-- A loop that never returns does not return, whatever it is given. -/
theorem not_returns_short {Q : Bool × TcpClient → Reading → Prop}
    (short : ∃ i, offset + i * FileSync.bufferSize < stream.length.getD 0 ∧
      ¬ stream.Whole (stream.length.getD 0) offset i) (reads : s.reads = 0) :
    ¬ Program.Returns (stream.exec sending) Q
      (self.sendFileSync fuel srcPath destPath ⟨true⟩ offset) s := by
  intro returns
  obtain ⟨out, s', run, -⟩ := returns.exists_run
  have never : Program.Sat (stream.handler sending True) .free
      (self.sendFileSync fuel srcPath destPath ⟨true⟩ offset) _ s :=
    sendFileSync_short trivial short reads
  exact never.returned run

/-- Sending ends exactly if no read comes short of what was there when the file was opened. -/
theorem sendFileSync_ends_iff (self : FileSync) (stream : SourceStream) (srcPath destPath : Bytes)
    (offset : Nat) (within : offset ≤ stream.length.getD 0) (w : World) :
    (∃ enough, ∀ fuel, enough ≤ fuel → Program.Returns (stream.exec sending)
      (fun out s' => out.1 = true →
        s'.world.sent.length = w.sent.length + (stream.length.getD 0 - offset))
      (self.sendFileSync fuel srcPath destPath ⟨true⟩ offset) ⟨w, 0, false⟩) ↔
    ∀ i, offset + i * FileSync.bufferSize < stream.length.getD 0 →
      stream.Whole (stream.length.getD 0) offset i := by
  constructor
  · rintro ⟨enough, ends⟩ i inside
    by_contra short
    exact not_returns_short ⟨i, inside, short⟩ rfl (ends enough (le_refl enough))
  · intro whole
    refine ⟨FileSync.bufferSize + stream.length.getD 0 + 1, fun fuel more => ?_⟩
    have holds : Program.Sat (stream.handler sending False) .free
        (self.sendFileSync fuel srcPath destPath ⟨true⟩ offset) _ ⟨w, 0, false⟩ :=
      sendFileSync_whole whole within rfl rfl (.inr ⟨by omega, by omega⟩)
    exact holds.returns id (exists_exec stream)

/-- A file of one byte, of which the byte is still there or not when it is read. -/
def oneByte (there : Bool) : SourceStream where
  length := some 1
  delivers _ := if there then 1 else 0

theorem sendFileSync_ends_byte : ∃ enough, ∀ fuel, enough ≤ fuel →
    Program.Returns ((oneByte true).exec sending)
      (fun out s' => out.1 = true →
        s'.world.sent.length = (World.boot FileSystem.empty).sent.length + (1 - 0))
      (FileSync.plainSync.sendFileSync fuel [47, 115] [47, 100] ⟨true⟩ 0)
      ⟨World.boot FileSystem.empty, 0, false⟩ := by
  apply (sendFileSync_ends_iff FileSync.plainSync (oneByte true) _ _ 0 (Nat.zero_le 1) _).mpr
  intro i inside
  have first : i = 0 := by
    simp only [FileSync.bufferSize, oneByte, Option.getD_some] at inside
    omega
  subst first
  show min FileSync.bufferSize (1 - 0) ≤ 1
  omega

/-- Truncated in between, the file is waited for for ever. -/
theorem sendFileSync_endless : ¬ ∃ enough, ∀ fuel, enough ≤ fuel →
    Program.Returns ((oneByte false).exec sending)
      (fun out s' => out.1 = true →
        s'.world.sent.length = (World.boot FileSystem.empty).sent.length + (1 - 0))
      (FileSync.plainSync.sendFileSync fuel [47, 115] [47, 100] ⟨true⟩ 0)
      ⟨World.boot FileSystem.empty, 0, false⟩ := by
  rintro ⟨enough, ends⟩
  refine not_returns_short ⟨0, ?_, ?_⟩ rfl (ends enough (le_refl enough))
  · decide
  · unfold Whole
    decide

end SourceStream

end SyncTool
