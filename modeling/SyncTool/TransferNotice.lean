import SyncTool.ParallelRecords
import SyncTool.ProgramPair

set_option autoImplicit false

namespace SyncTool

open SyncTool.Path FileSync World

section

variable {w : World} {choice : Choice} {path : Bytes} {p : Path}

/-- A flush appends what goes through; on a fault the rest is lost. -/
theorem flush_outcome (found : w.fs.resolve path = some p) {content : Bytes}
    (file : w.fs.entry p = some (.file content)) (data : Bytes) :
    (w.flush choice path data).1 = decide (choice.fault = .none) ∧
      Change p (some (.file (content ++
          (w.pending p ++ data).take (choice.limit (w.pending p ++ data).length))))
        (if choice.fault = .none then
          (w.pending p ++ data).drop (choice.limit (w.pending p ++ data).length) else [])
        w (w.flush choice path data).2 := by
  obtain ⟨fs, edited⟩ := Option.isSome_iff_exists.mp (FileSystem.edit_of_file found file
    (· ++ (w.pending p ++ data).take (choice.limit (w.pending p ++ data).length)) choice.time)
  obtain ⟨q, old, foundAgain, here, cwd, tree⟩ := FileSystem.edit_effect edited
  obtain rfl : p = q := Option.some.inj (found.symm.trans foundAgain)
  have same : content = old := by
    rw [file] at here
    cases here
    rfl
  subst same
  simp only [World.flush, found, edited]
  by_cases ok : choice.fault = .none
  · simp only [ok, ↓reduceIte]
    exact ⟨rfl, cwd, tree, rfl, rfl⟩
  · simp only [ok, ↓reduceIte]
    exact ⟨rfl, cwd, tree, rfl, rfl⟩

end

namespace Copy.At

variable {k : Copy} {c held f : Bytes} {d t : Option Bytes} {w : World}

theorem put (here : k.At c (some f) held t w) (choice : Choice) (data : Bytes) :
    ((Op.put k.destPath data).run choice w).1 = decide (choice.fault = .none) ∧
      k.At c (some (f ++ (held ++ data).take (choice.limit (held ++ data).length)))
        (if choice.fault = .none then
          (held ++ data).drop (choice.limit (held ++ data).length) else [])
        t ((Op.put k.destPath data).run choice w).2 := by
  have outcome := @flush_outcome w choice _ _ here.destFound f here.dest data
  rw [here.held] at outcome
  exact ⟨outcome.1, here.of_dest outcome.2⟩

theorem closeOut (here : k.At c (some f) held t w) (choice : Choice) :
    k.At c (some (f ++ held.take (choice.limit held.length)))
      (if choice.fault = .none then held.drop (choice.limit held.length) else []) t
      ((Op.closeOut k.destPath).run choice w).2 := by
  have outcome := here.put choice []
  rw [List.append_nil] at outcome
  exact outcome.2

/-- Removing the record, whether or not it fails. -/
theorem remove (here : k.At c d held t w) (choice : Choice) :
    ∃ t', k.At c d held t' ((Op.remove (getProgressFilePath k.destPath)).run choice w).2 := by
  cases t with
  | none =>
      rw [run_remove_missing here.recordFound here.record]
      exact ⟨none, here⟩
  | some text =>
      by_cases ok : choice.fault = .none
      · exact ⟨none, here.of_record (run_remove_file ok here.recordFound here.record).2⟩
      · have stays : ((Op.remove (getProgressFilePath k.destPath)).run choice w).2 = w := by
          simp [Op.run, World.attempt, ok]
        rw [stays]
        exact ⟨some text, here⟩

end Copy.At

namespace FileSync

/-- Nobody else is there, and nothing is promised. -/
theorem hosts_free {k : Copy} {c : Bytes} : k.Hosts c (fun _ => True) Interference.free where
  rely here same := by
    obtain rfl := same
    exact here
  same _ _ := trivial
  dest _ _ _ := trivial
  record _ _ _ := trivial
  forget _ _ := trivial

/-- Reading a file and writing one through a stream fail only at calls in `failing`; a stream
that closes without a fault has written everything. Everything else may fail at any time. -/
def FaultsAt (failing : Op → Prop) : Policy := fun op choice _ =>
  match op with
  | .get _ _ _ | .put _ _ => choice.fault ≠ .none → failing op
  | .closeOut _ => (choice.fault ≠ .none → failing op) ∧
      (choice.fault = .none → choice.count = none)
  | _ => True

/-- No failure hits a read of the source with bytes still to come, the write of a last block
that is not full, or the flush at the close of a destination that was written to. -/
structure Watched (k : Copy) (c : Bytes) (offset : Nat) (failing : Op → Prop) : Prop where
  reads : ∀ i, offset + i * bufferSize < c.length →
    ¬ failing (.get k.srcPath (offset + i * bufferSize) bufferSize)
  last : ∀ i, c.drop (offset + i * bufferSize) ≠ [] →
    (c.drop (offset + i * bufferSize)).length < bufferSize →
    ¬ failing (.put k.destPath (c.drop (offset + i * bufferSize)))
  close : offset < c.length → ¬ failing (.closeOut k.destPath)

section

variable {self : FileSync} {k : Copy} {c held f : Bytes} {d t : Option Bytes} {w : World}
  {offset : Nat} {failing : Op → Prop} {α : Type}

theorem sat_any {policy : Policy} (p : Prog α) (w : World) :
    Program.Sat (handler policy True) Interference.free p (fun _ _ => True) w := by
  have all : p.All fun _ => True := by
    induction p with
    | done value => trivial
    | call op next ih => exact ⟨trivial, ih⟩
    | fork count child join ihChild ihJoin => exact ⟨ihChild, ihJoin⟩
    | spin => trivial
  exact all.sat (fun _ => True) trivial (fun _ _ _ _ => trivial)
    (fun _ _ _ _ _ _ _ => ⟨trivial, trivial⟩) trivial

/-- The end of the read loop, where everything has been given to the stream. -/
theorem finish_watched (watched : Watched k c offset failing) (here : k.At c (some f) held t w)
    (whole : f ++ held = c) (wrote : held ≠ [] → offset < c.length) :
    Program.Sat (handler (FaultsAt failing) True) Interference.free
      (.call (.remove (getProgressFilePath k.destPath)) fun _ =>
        .call (.closeOut k.destPath) fun _ => .done true)
      (fun ok w' => ok = true → w'.fs.entry k.dest = some (.file c)) w := by
  refine Program.sat_op.mpr fun w₁ same₁ choice₁ _ => ⟨trivial, ?_⟩
  obtain rfl : w = w₁ := same₁
  obtain ⟨t₁, now₁⟩ := here.remove choice₁
  refine Program.sat_op.mpr fun w₂ same₂ choice₂ allowed₂ => ⟨trivial, ?_⟩
  obtain rfl := same₂
  have now₂ := now₁.closeOut choice₂
  intro w₃ same₃ _
  obtain rfl := same₃
  rw [now₂.dest]
  by_cases blank : held = []
  · subst blank
    simpa using whole
  · have clean : choice₂.fault = .none := by
      by_contra fault
      exact watched.close (wrote blank) (allowed₂.1 fault)
    have everything : choice₂.limit held.length = held.length := by
      simp [Choice.limit, allowed₂.2 clean]
    rw [everything, List.take_length]
    simpa using whole

variable (self) in
theorem copyBlocks_watched (fuel : Nat) (watched : Watched k c offset failing) {i : Nat}
    (here : k.At c (some f) held t w)
    (sofar : f ++ held = c.take (offset + i * bufferSize))
    (inside : offset + i * bufferSize ≤ c.length) (wrote : held ≠ [] → offset < c.length)
    (totalSize : Nat) :
    Program.Sat (handler (FaultsAt failing) True) Interference.free
      (copyBlocks self k.srcPath k.destPath totalSize fuel (offset + i * bufferSize))
      (fun ok w' => ok = true → w'.fs.entry k.dest = some (.file c)) w := by
  induction fuel generalizing f held t i w with
  | zero => trivial
  | succ fuel ih =>
      obtain ⟨pos, at_⟩ : ∃ pos, offset + i * bufferSize = pos := ⟨_, rfl⟩
      have next : pos + bufferSize = offset + (i + 1) * bufferSize := by
        rw [Nat.succ_mul]
        omega
      rw [at_] at sofar inside ⊢
      simp only [copyBlocks, Program.ask_bind]
      refine Program.sat_op.mpr fun w₁ same₁ choice₁ allowed₁ => ⟨trivial, ?_⟩
      obtain rfl : w = w₁ := same₁
      obtain ⟨buffer, read⟩ : ∃ buffer, slice c pos bufferSize = buffer := ⟨_, rfl⟩
      have length := length_slice c pos bufferSize
      have rest := slice_append_drop c pos bufferSize
      have grown := take_append_slice c pos bufferSize
      -- a read that fails has nothing to lose
      have answer : ((Op.get k.srcPath pos bufferSize).run choice₁ w).1 = buffer := by
        simp only [Op.run, here.read_src, Option.getD_some, read]
        split
        · rfl
        · next fault =>
            have ended : ¬ pos < c.length := fun more => by
              rw [← at_] at more allowed₁
              exact watched.reads i more (allowed₁ fault)
            have blank : buffer = [] := by
              apply List.eq_nil_of_length_eq_zero
              rw [← read, length]
              omega
            simp [blank]
      have stays : ((Op.get k.srcPath pos bufferSize).run choice₁ w).2 = w := rfl
      rw [answer, stays]
      rw [read] at length rest grown
      by_cases full : buffer.length = bufferSize
      · rw [if_pos full]
        refine Program.sat_op.mpr fun w₂ same₂ choice₂ _ => ⟨trivial, ?_⟩
        obtain rfl := same₂
        obtain ⟨verdict, now₂⟩ := here.put choice₂ buffer
        rw [verdict]
        by_cases ok : choice₂.fault = .none
        · simp only [ok, ↓reduceIte, decide_true] at now₂ ⊢
          refine Program.Sat.bind ((saveProgress_sat hosts_free now₂ trivial _ _).weaken ?_)
          rintro - w₃ ⟨t₃, now₃⟩
          refine Program.Sat.bind ((throttle_sat hosts_free now₃ _).weaken fun _ w₄ now₄ => ?_)
          rw [full, next]
          apply ih now₄
          · rw [List.append_assoc, List.take_append_drop, ← List.append_assoc, sofar, grown, next]
          · rw [← next]
            omega
          · have some_ : bufferSize = 4096 := rfl
            omega
        · simp only [ok, decide_false, Bool.false_eq_true, ↓reduceIte]
          apply Program.Sat.bind
          apply (sat_any _ _).weaken
          intro _ w₃ _
          refine Program.sat_op.mpr fun w₄ _ choice₄ _ => ⟨trivial, ?_⟩
          intro w₅ _ impossible
          cases impossible
      · rw [if_neg full]
        have last : buffer = c.drop pos := by
          rw [← read]
          apply slice_eq_drop
          rw [read]
          omega
        by_cases some_ : 0 < buffer.length
        · rw [if_pos some_]
          refine Program.sat_op.mpr fun w₂ same₂ choice₂ allowed₂ => ⟨trivial, ?_⟩
          obtain rfl := same₂
          obtain ⟨-, now₂⟩ := here.put choice₂ buffer
          have clean : choice₂.fault = .none := by
            by_contra fault
            have failed : failing (.put k.destPath buffer) := allowed₂ fault
            rw [last, ← at_] at failed some_ full length
            exact watched.last i (List.ne_nil_of_length_pos some_) (by omega) failed
          simp only [clean, ↓reduceIte] at now₂
          apply finish_watched watched now₂
          · rw [List.append_assoc, List.take_append_drop, ← List.append_assoc, sofar, last,
              List.take_append_drop]
          · intro _
            omega
        · rw [if_neg some_]
          have none_ : c.drop pos = [] := by
            rw [← last]
            exact List.eq_nil_of_length_eq_zero (by omega)
          apply finish_watched watched here _ wrote
          rw [sofar]
          exact List.take_of_length_le (by simpa using none_)

/-- What a transfer to resume at `offset` finds at its destination. -/
def HoldsFront (c : Bytes) (offset : Nat) (d : Option Bytes) : Prop :=
  offset = 0 ∨ d = some (c.take offset) ∧ offset ≤ c.length

theorem openOut_front (here : k.At c d held t w) (start : HoldsFront c offset d) {choice : Choice}
    (ok : choice.fault = .none) :
    ((Op.openOut k.destPath (0 < offset)).run choice w).1 = true ∧
      k.At c (some (c.take offset)) [] t ((Op.openOut k.destPath (0 < offset)).run choice w).2 := by
  obtain ⟨opened, change⟩ := run_openOut ok here.destFound here.notDir k.destProper (0 < offset)
  have content : (if decide (0 < offset) = true then (w.fs.contentAt k.dest).getD [] else []) =
      c.take offset := by
    rcases start with rfl | ⟨rfl, -⟩
    · simp
    · by_cases first : offset = 0
      · simp [first]
      · simp [FileSystem.contentAt, here.dest, Nat.pos_of_ne_zero first]
  rw [content] at change
  exact ⟨opened, here.of_dest (g := some (c.take offset)) change⟩

theorem HoldsFront.inside (start : HoldsFront c offset d) : offset ≤ c.length := by
  rcases start with rfl | ⟨-, inside⟩
  · exact Nat.zero_le _
  · exact inside

/-- The seek leaves everything as it is, whatever comes of it. -/
theorem seekTo_same (self : FileSync) (policy : Policy) (spins : Prop) (srcPath : Bytes)
    (offset : Nat) (w : World) :
    Program.Sat (handler policy spins) Interference.free (seekTo self srcPath offset)
      (fun _ w' => w' = w) w := by
  unfold seekTo
  split
  · refine Program.sat_read (fun _ _ => rfl) fun w₁ same₁ _ _ => ?_
    intro w₂ same₂
    rw [same₁, same₂]
  · intro w₁ same₁
    exact same₁.symm

/-- Where every failure is watched for, a transfer returns true only with the whole
source copied. -/
theorem transferFile_watched (watched : Watched k c offset failing) (here : k.At c d held t w)
    (start : HoldsFront c offset d) (fuel : Nat) :
    Program.Sat (handler (FaultsAt failing) True) Interference.free
      (transferFile self fuel k.srcPath k.destPath offset)
      (fun ok w' => ok = true → w'.fs.entry k.dest = some (.file c)) w := by
  simp only [transferFile, Program.ask_bind]
  refine Program.sat_op.mpr fun w₁ same₁ choice₁ _ => ⟨trivial, ?_⟩
  obtain rfl := same₁
  refine Program.sat_op.mpr fun w₂ same₂ choice₂ _ => ⟨trivial, ?_⟩
  obtain rfl := same₂
  have stays : ((Op.openIn k.srcPath).run choice₁ w).2 = w := rfl
  rw [stays]
  by_cases ok : choice₂.fault = .none
  · obtain ⟨-, now⟩ := openOut_front here start ok
    apply Program.Sat.ite
    · intro _
      apply Program.Sat.bind
      apply (seekTo_same self _ _ _ _ _).weaken
      intro found w₃ same
      subst same
      cases found with
      | false =>
          refine Program.sat_op.mpr fun w₄ same₄ choice₄ _ => ⟨trivial, fun w₅ _ impossible => ?_⟩
          cases impossible
      | true =>
          refine Program.sat_op.mpr fun w₄ same₄ choice₄ _ => ⟨trivial, ?_⟩
          obtain rfl := same₄
          have copy := copyBlocks_watched self fuel (i := 0) watched now (by simp)
            (by simpa using start.inside) (fun some_ => absurd rfl some_)
          rw [Nat.zero_mul, Nat.add_zero] at copy
          exact copy _
    · intro _ w₃ _ impossible
      cases impossible
  · have refused : ((Op.openOut k.destPath (0 < offset)).run choice₂ w).1 = false := by
      simp [Op.run, World.attempt, ok]
    rw [refused, Bool.and_false]
    intro w₃ _ impossible
    cases impossible

/-- Nothing fails or is held back until the destination holds `front`; from then on the calls in
`bad` go as `worse` says. -/
def WorseFrom (k : Copy) (front : Bytes) (bad : Op → Prop) (worse : Op → Fault) : Policy :=
  fun op choice w =>
    (w.fs.contentAt k.dest = some front → bad op → choice.fault = worse op ∧
      choice.count = some 0) ∧
    (¬ (w.fs.contentAt k.dest = some front ∧ bad op) → choice.fault = .none ∧ choice.count = none)

theorem worseFrom_answered (front : Bytes) (bad : Op → Prop) (worse : Op → Fault) (op : Op)
    (w : World) :
    ∃ answer w', (handler (WorseFrom k front bad worse) False).exec op w answer w' := by
  classical
  by_cases now : w.fs.contentAt k.dest = some front ∧ bad op
  · exact ⟨_, _, ⟨0, worse op, some 0, []⟩, ⟨fun _ _ => ⟨rfl, rfl⟩, fun not_ => absurd now not_⟩,
      rfl⟩
  · exact ⟨_, _, ⟨0, .none, none, []⟩,
      ⟨fun there is => absurd ⟨there, is⟩ now, fun _ => ⟨rfl, rfl⟩⟩, rfl⟩

/-- Up to the failure the blocks arrive one by one. -/
theorem copyBlocks_front {bad : Op → Prop} {worse : Op → Fault} {pos stop fuel n : Nat}
    (inside : stop < c.length) (way : pos + n * bufferSize = stop) {totalSize : Nat}
    (here : k.At c (some (c.take pos)) [] t w) {Q : Bool → World → Prop}
    (fails : ∀ t' w', k.At c (some (c.take stop)) [] t' w' →
      Program.Sat (handler (WorseFrom k (c.take stop) bad worse) False) Interference.free
        (copyBlocks self k.srcPath k.destPath totalSize fuel stop) Q w') :
    Program.Sat (handler (WorseFrom k (c.take stop) bad worse) False) Interference.free
      (copyBlocks self k.srcPath k.destPath totalSize (fuel + n) pos) Q w := by
  induction n generalizing pos t w with
  | zero =>
      obtain rfl : pos = stop := by simpa using way
      exact fails t w here
  | succ n ih =>
      have block : bufferSize = 4096 := rfl
      have before : pos + bufferSize ≤ stop := by
        rw [Nat.succ_mul] at way
        omega
      have clean : ∀ {t w} op choice, k.At c (some (c.take pos)) [] t w →
          WorseFrom k (c.take stop) bad worse op choice w →
          choice.fault = .none ∧ choice.count = none := by
        intro t w op choice now allowed
        apply allowed.2
        rintro ⟨there, -⟩
        rw [FileSystem.contentAt_eq_some, now.dest] at there
        have same : c.take pos = c.take stop := by simpa using there
        have lengths := congrArg List.length same
        simp only [List.length_take] at lengths
        omega
      rw [← Nat.add_assoc]
      simp only [copyBlocks, Program.ask_bind]
      refine Program.sat_op.mpr fun w₁ same₁ choice₁ allowed₁ => ⟨trivial, ?_⟩
      obtain rfl := same₁
      have answer : ((Op.get k.srcPath pos bufferSize).run choice₁ w).1 =
          slice c pos bufferSize := by
        simp only [Op.run, here.read_src, Option.getD_some]
        rw [if_pos (clean _ _ here allowed₁).1]
      have stays : ((Op.get k.srcPath pos bufferSize).run choice₁ w).2 = w := rfl
      have full : (slice c pos bufferSize).length = bufferSize := by
        rw [length_slice]
        omega
      rw [answer, stays, if_pos full]
      refine Program.sat_op.mpr fun w₂ same₂ choice₂ allowed₂ => ⟨trivial, ?_⟩
      obtain rfl := same₂
      obtain ⟨good, whole⟩ := clean _ _ here allowed₂
      obtain ⟨verdict, now₂⟩ := here.put choice₂ (slice c pos bufferSize)
      simp only [good, whole, Choice.limit, List.nil_append, List.take_length, List.drop_length,
        ↓reduceIte, decide_true, take_append_slice] at verdict now₂
      rw [verdict]
      refine Program.Sat.bind ((saveProgress_sat hosts_free now₂ trivial _ _).weaken ?_)
      rintro - w₃ ⟨t₃, now₃⟩
      refine Program.Sat.bind ((throttle_sat hosts_free now₃ _).weaken fun _ w₄ now₄ => ?_)
      rw [full]
      apply ih _ now₄
      rw [← way, Nat.succ_mul]
      omega

section

variable {bad : Op → Prop} {worse : Op → Fault} {front : Bytes}

theorem worseFrom_faultsAt (only : ∀ op, bad op → worse op ≠ .none → failing op)
    (closing : ∀ path, bad (.closeOut path) → worse (.closeOut path) ≠ .none) (op : Op)
    (choice : Choice) (w : World) (allowed : WorseFrom k front bad worse op choice w) :
    FaultsAt failing op choice w := by
  have fault : choice.fault ≠ .none → failing op := by
    intro fault
    by_cases now : w.fs.contentAt k.dest = some front ∧ bad op
    · apply only op now.2
      rwa [← (allowed.1 now.1 now.2).1]
    · exact absurd (allowed.2 now).1 fault
  cases op with
  | get path pos count => exact fault
  | put path data => exact fault
  | closeOut path =>
      refine ⟨fault, fun ok => ?_⟩
      by_cases now : w.fs.contentAt k.dest = some front ∧ bad (.closeOut path)
      · rw [(allowed.1 now.1 now.2).1] at ok
        exact absurd ok (closing path now.2)
      · exact (allowed.2 now).2
  | _ => trivial

/-- What the stream still holds is lost when it closes. -/
theorem finish_worse (here : k.At c (some front) held t w)
    (lost : held = [] ∨ bad (.closeOut k.destPath) ∧ worse (.closeOut k.destPath) = .error) :
    Program.Sat (handler (WorseFrom k front bad worse) False) Interference.free
      (.call (.remove (getProgressFilePath k.destPath)) fun _ =>
        .call (.closeOut k.destPath) fun _ => .done true)
      (fun ok w' => ok = true ∧ w'.fs.entry k.dest = some (.file front)) w := by
  refine Program.sat_op.mpr fun w₁ same₁ choice₁ _ => ⟨trivial, ?_⟩
  obtain rfl := same₁
  obtain ⟨t₁, now₁⟩ := here.remove choice₁
  refine Program.sat_op.mpr fun w₂ same₂ choice₂ allowed₂ => ⟨trivial, ?_⟩
  obtain rfl := same₂
  have now₂ := now₁.closeOut choice₂
  intro w₃ same₃
  obtain rfl := same₃
  refine ⟨rfl, ?_⟩
  rw [now₂.dest]
  rcases lost with rfl | ⟨closes, -⟩
  · simp
  · have there :
        ((Op.remove (getProgressFilePath k.destPath)).run choice₁ w).2.fs.contentAt k.dest =
        some front := by
      rw [FileSystem.contentAt_eq_some, now₁.dest]
      rfl
    simp [Choice.limit, (allowed₂.1 there closes).2]

/-- A read fails with bytes still to come: it is taken for the end of the file. -/
theorem copyBlocks_unread {stop fuel totalSize : Nat} (here : k.At c (some (c.take stop)) [] t w) :
    Program.Sat (handler (WorseFrom k (c.take stop) (· = .get k.srcPath stop bufferSize)
        fun _ => .error) False) Interference.free
      (copyBlocks self k.srcPath k.destPath totalSize (fuel + 1) stop)
      (fun ok w' => ok = true ∧ w'.fs.entry k.dest = some (.file (c.take stop))) w := by
  simp only [copyBlocks, Program.ask_bind]
  refine Program.sat_op.mpr fun w₁ same₁ choice₁ allowed₁ => ⟨trivial, ?_⟩
  obtain rfl := same₁
  have there : w.fs.contentAt k.dest = some (c.take stop) := by
    rw [FileSystem.contentAt_eq_some, here.dest]
    rfl
  obtain ⟨fault, count⟩ := allowed₁.1 there rfl
  have answer : ((Op.get k.srcPath stop bufferSize).run choice₁ w).1 = [] := by
    simp [Op.run, fault, Choice.limit, count]
  have stays : ((Op.get k.srcPath stop bufferSize).run choice₁ w).2 = w := rfl
  rw [answer, stays, if_neg (by decide), if_neg (by decide)]
  exact finish_worse here (.inl rfl)

/-- The write of the last block fails if that block is not full: its result is not looked at. -/
theorem copyBlocks_unwritten {stop fuel totalSize : Nat} (some_ : c.drop stop ≠ [])
    (short : (c.drop stop).length < bufferSize) (here : k.At c (some (c.take stop)) [] t w) :
    Program.Sat (handler (WorseFrom k (c.take stop) (· = .put k.destPath (c.drop stop))
        fun _ => .error) False) Interference.free
      (copyBlocks self k.srcPath k.destPath totalSize (fuel + 1) stop)
      (fun ok w' => ok = true ∧ w'.fs.entry k.dest = some (.file (c.take stop))) w := by
  simp only [copyBlocks, Program.ask_bind]
  refine Program.sat_op.mpr fun w₁ same₁ choice₁ allowed₁ => ⟨trivial, ?_⟩
  obtain rfl := same₁
  have clean := (allowed₁.2 (fun both => by cases both.2)).1
  have answer : ((Op.get k.srcPath stop bufferSize).run choice₁ w).1 = c.drop stop := by
    simp only [Op.run, here.read_src, Option.getD_some]
    rw [if_pos clean]
    exact List.take_of_length_le (Nat.le_of_lt short)
  have stays : ((Op.get k.srcPath stop bufferSize).run choice₁ w).2 = w := rfl
  rw [answer, stays, if_neg (Nat.ne_of_lt short), if_pos (List.length_pos_iff.mpr some_)]
  refine Program.sat_op.mpr fun w₂ same₂ choice₂ allowed₂ => ⟨trivial, ?_⟩
  obtain rfl := same₂
  have there : w.fs.contentAt k.dest = some (c.take stop) := by
    rw [FileSystem.contentAt_eq_some, here.dest]
    rfl
  obtain ⟨fault, count⟩ := allowed₂.1 there rfl
  have now₂ := (here.put choice₂ (c.drop stop)).2
  simp only [fault, Choice.limit, count, Nat.zero_min, List.take_zero, List.append_nil,
    reduceCtorEq, ↓reduceIte] at now₂
  exact finish_worse now₂ (.inl rfl)

/-- The last block stays with the stream, and the flush at its close fails. -/
theorem copyBlocks_unflushed {stop fuel totalSize : Nat} (inside : stop < c.length)
    (last : c.length ≤ stop + bufferSize) (here : k.At c (some (c.take stop)) [] t w) :
    Program.Sat (handler (WorseFrom k (c.take stop)
        (fun op => (∃ data, op = .put k.destPath data) ∨ op = .closeOut k.destPath)
        (fun | .closeOut _ => .error | _ => .none)) False) Interference.free
      (copyBlocks self k.srcPath k.destPath totalSize (fuel + 2) stop)
      (fun ok w' => ok = true ∧ w'.fs.entry k.dest = some (.file (c.take stop))) w := by
  have read : ∀ {held t w pos choice}, k.At c (some (c.take stop)) held t w →
      WorseFrom k (c.take stop)
        (fun op => (∃ data, op = .put k.destPath data) ∨ op = .closeOut k.destPath)
        (fun | .closeOut _ => .error | _ => .none) (.get k.srcPath pos bufferSize) choice w →
      ((Op.get k.srcPath pos bufferSize).run choice w).1 = slice c pos bufferSize := by
    intro held t w pos choice now allowed
    have clean := (allowed.2 (fun both => by rcases both.2 with ⟨_, same⟩ | same <;> cases same)).1
    simp only [Op.run, now.read_src, Option.getD_some]
    rw [if_pos clean]
  have some_ : 0 < (slice c stop bufferSize).length := by
    rw [length_slice]
    have block : bufferSize = 4096 := rfl
    omega
  rw [copyBlocks]
  simp only [Program.ask_bind]
  refine Program.sat_op.mpr fun w₁ same₁ choice₁ allowed₁ => ⟨trivial, ?_⟩
  obtain rfl := same₁
  have stays : ((Op.get k.srcPath stop bufferSize).run choice₁ w).2 = w := rfl
  have there : w.fs.contentAt k.dest = some (c.take stop) := by
    rw [FileSystem.contentAt_eq_some, here.dest]
    rfl
  -- the block is taken and held back
  have holds : ∀ choice, WorseFrom k (c.take stop)
        (fun op => (∃ data, op = .put k.destPath data) ∨ op = .closeOut k.destPath)
        (fun | .closeOut _ => .error | _ => .none)
          (.put k.destPath (slice c stop bufferSize)) choice w →
      ((Op.put k.destPath (slice c stop bufferSize)).run choice w).1 = true ∧
      k.At c (some (c.take stop)) (slice c stop bufferSize) t
        ((Op.put k.destPath (slice c stop bufferSize)).run choice w).2 := by
    intro choice allowed
    obtain ⟨fault, count⟩ := allowed.1 there (.inl ⟨_, rfl⟩)
    have now := here.put choice (slice c stop bufferSize)
    simpa [fault, Choice.limit, count] using now
  rw [read here allowed₁, stays]
  by_cases full : (slice c stop bufferSize).length = bufferSize
  · rw [if_pos full]
    refine Program.sat_op.mpr fun w₂ same₂ choice₂ allowed₂ => ⟨trivial, ?_⟩
    obtain rfl := same₂
    obtain ⟨verdict, now₂⟩ := holds choice₂ allowed₂
    rw [verdict]
    simp only [↓reduceIte]
    refine Program.Sat.bind ((saveProgress_sat hosts_free now₂ trivial _ _).weaken ?_)
    rintro - w₃ ⟨t₃, now₃⟩
    refine Program.Sat.bind ((throttle_sat hosts_free now₃ _).weaken fun _ w₄ now₄ => ?_)
    rw [full, copyBlocks]
    simp only [Program.ask_bind]
    refine Program.sat_op.mpr fun w₅ same₅ choice₅ allowed₅ => ⟨trivial, ?_⟩
    obtain rfl := same₅
    have nothing : slice c (stop + bufferSize) bufferSize = [] := by
      apply List.eq_nil_of_length_eq_zero
      rw [length_slice]
      omega
    have stays : ((Op.get k.srcPath (stop + bufferSize) bufferSize).run choice₅ w₄).2 = w₄ := rfl
    rw [read now₄ allowed₅, stays, nothing, if_neg (by decide), if_neg (by decide)]
    exact finish_worse now₄ (.inr ⟨.inr rfl, rfl⟩)
  · rw [if_neg full, if_pos some_]
    refine Program.sat_op.mpr fun w₂ same₂ choice₂ allowed₂ => ⟨trivial, ?_⟩
    obtain rfl := same₂
    exact finish_worse (holds choice₂ allowed₂).2 (.inr ⟨.inr rfl, rfl⟩)

end

/-- A seek that nothing is wrong with finds its way. -/
theorem seekTo_found {front : Bytes} {bad : Op → Prop} {worse : Op → Fault}
    (start : HoldsFront c offset d) (seeks : ∀ beyond, ¬ bad (.seek k.srcPath offset beyond))
    (here : k.At c (some f) held t w) :
    Program.Sat (handler (WorseFrom k front bad worse) False) Interference.free
      (seekTo self k.srcPath offset) (fun found w' => found = true ∧ w' = w) w := by
  unfold seekTo
  split
  · refine Program.sat_read (fun _ _ => rfl) fun w₁ same₁ choice₁ allowed₁ => ?_
    obtain rfl := same₁
    have ok := (allowed₁.2 fun both => seeks _ both.2).1
    intro w₂ same₂
    refine ⟨?_, same₂.symm⟩
    simp [ok, here.read_src, start.inside]
  · intro w₁ same₁
    exact ⟨rfl, same₁.symm⟩

variable (self) in
/-- A failure in the copying at `stop` that the copying does not see, the transfer does not see. -/
theorem transferFile_misses (bad : Op → Prop) (worse : Op → Fault) {stop n : Nat}
    (here : k.At c d held t w) (start : HoldsFront c offset d)
    (only : ∀ op, bad op → worse op ≠ .none → failing op)
    (closing : ∀ path, bad (.closeOut path) → worse (.closeOut path) ≠ .none)
    (opens : ¬ bad (.openIn k.srcPath) ∧ ¬ bad (.openOut k.destPath (0 < offset)) ∧
      ∀ beyond, ¬ bad (.seek k.srcPath offset beyond))
    (inside : stop < c.length) (way : offset + n * bufferSize = stop)
    (fails : ∀ totalSize t' w', k.At c (some (c.take stop)) [] t' w' →
      Program.Sat (handler (WorseFrom k (c.take stop) bad worse) False) Interference.free
        (copyBlocks self k.srcPath k.destPath totalSize 2 stop)
        (fun ok w' => ok = true ∧ w'.fs.entry k.dest = some (.file (c.take stop))) w') :
    ∃ fuel w', Program.Reach (handler (FaultsAt failing) True).exec Eq
        (transferFile self fuel k.srcPath k.destPath offset) w (.done true) w' ∧
      w'.fs.entry k.dest ≠ some (.file c) := by
  have transfer :
      Program.Sat (handler (WorseFrom k (c.take stop) bad worse) False) Interference.free
      (transferFile self (2 + n) k.srcPath k.destPath offset)
      (fun ok w' => ok = true ∧ w'.fs.entry k.dest = some (.file (c.take stop))) w := by
    simp only [transferFile, Program.ask_bind]
    refine Program.sat_op.mpr fun w₁ same₁ choice₁ allowed₁ => ⟨trivial, ?_⟩
    obtain rfl := same₁
    refine Program.sat_op.mpr fun w₂ same₂ choice₂ allowed₂ => ⟨trivial, ?_⟩
    obtain rfl := same₂
    have stays : ((Op.openIn k.srcPath).run choice₁ w).2 = w := rfl
    rw [stays] at allowed₂ ⊢
    have exist := FileSystem.exists_of_read here.read_src
    have readable : ((Op.openIn k.srcPath).run choice₁ w).1 = true := by
      simp [Op.run, (allowed₁.2 fun both => opens.1 both.2).1, exist]
    obtain ⟨writable, now⟩ := openOut_front here start (allowed₂.2 fun both => opens.2.1 both.2).1
    rw [readable, writable]
    simp only [Bool.and_self, ↓reduceIte]
    apply Program.Sat.bind
    apply (seekTo_found start opens.2.2 now).weaken
    rintro found w₃ ⟨rfl, same⟩
    subst same
    simp only [↓reduceIte]
    refine Program.sat_op.mpr fun w₄ same₄ choice₄ _ => ⟨trivial, ?_⟩
    obtain rfl := same₄
    exact copyBlocks_front inside way now (fails _)
  obtain ⟨ok, w', run, rfl, there⟩ :=
    (transfer.returns id (worseFrom_answered _ _ _)).exists_run
  refine ⟨2 + n, w', run.mono ?_, ?_⟩
  · rintro op w answer w' ⟨choice, allowed, ran⟩
    exact ⟨choice, worseFrom_faultsAt only closing op choice w allowed, ran⟩
  · rw [there]
    intro same
    have lengths : (c.take stop).length = c.length := by
      rw [Entry.file.inj (Option.some.inj same)]
    rw [List.length_take] at lengths
    omega

/-- With failures at the calls in `failing`, `transferFile` returns true only with the whole source
at the destination exactly when none of them is one it does not look for. -/
theorem transferFile_notices_iff (self : FileSync) (failing : Op → Prop) (here : k.At c d held t w)
    (start : HoldsFront c offset d) :
    (∀ fuel w', Program.Reach (handler (FaultsAt failing) True).exec Eq
        (transferFile self fuel k.srcPath k.destPath offset) w (.done true) w' →
      w'.fs.entry k.dest = some (.file c)) ↔
    Watched k c offset failing := by
  constructor
  · intro notices
    have noticed : ¬ ∃ fuel w', Program.Reach (handler (FaultsAt failing) True).exec Eq
          (transferFile self fuel k.srcPath k.destPath offset) w (.done true) w' ∧
        w'.fs.entry k.dest ≠ some (.file c) := by
      rintro ⟨fuel, w', run, wrong⟩
      exact wrong (notices fuel w' run)
    refine ⟨fun i more fault => noticed ?_, fun i some_ short fault => noticed ?_,
      fun more fault => noticed ?_⟩
    · apply transferFile_misses self (· = _) (fun _ => .error) here start _ _ _ more rfl
        fun totalSize t' w' now => copyBlocks_unread now
      · rintro op rfl -
        exact fault
      · exact fun path impossible => absurd impossible (by simp)
      · simp
    · have more : offset + i * bufferSize < c.length := by
        by_contra done
        exact some_ (List.drop_eq_nil_of_le (by omega))
      apply transferFile_misses self (· = _) (fun _ => .error) here start _ _ _ more rfl
        fun totalSize t' w' now => copyBlocks_unwritten some_ short now
      · rintro op rfl -
        exact fault
      · exact fun path impossible => absurd impossible (by simp)
      · simp
    · -- the last block, full or not
      have block : bufferSize = 4096 := rfl
      obtain ⟨i, inside, last⟩ : ∃ i, offset + i * bufferSize < c.length ∧
          c.length ≤ offset + i * bufferSize + bufferSize :=
        ⟨(c.length - offset - 1) / bufferSize, by rw [block]; omega, by rw [block]; omega⟩
      apply transferFile_misses self _ _ here start _ _ _ inside rfl
        fun totalSize t' w' now => copyBlocks_unflushed inside last now
      · rintro op (⟨data, rfl⟩ | rfl) worse
        · exact absurd rfl worse
        · exact fault
      · simp
      · simp
  · intro watched fuel w' run
    exact (transferFile_watched watched here start fuel).returned run rfl

end

/-- A source of exactly one block. -/
def oneBlock : Bytes := List.replicate bufferSize 65

/-- The read behind its end fails. -/
def unreadEnd (op : Op) (w : World) : Res op × World :=
  op.run ⟨0, match op with
    | .get _ pos _ => if pos = bufferSize then .error else .none
    | _ => .none, none, []⟩ w

theorem unreadEnd_allowed (op : Op) (w : World) :
    (handler (FaultsAt fun op => ∃ path count, op = .get path bufferSize count) True).exec op w
      (unreadEnd op w).1 (unreadEnd op w).2 := by
  refine ⟨_, ?_, rfl⟩
  cases op <;> simp [FaultsAt]

/-- Nothing is lost by that. -/
theorem transferFile_notices_behind : ∃ w', Program.Reach
      (handler (FaultsAt fun op => ∃ path count, op = .get path bufferSize count) True).exec Eq
      (transferFile plainSync 3 plainCopy.srcPath plainCopy.destPath 0)
      (World.boot (plainFs oneBlock)) (.done true) w' ∧
    w'.fs.entry plainCopy.dest = some (.file oneBlock) := by
  obtain ⟨w', run, -⟩ := Program.reach_of_play Eq unreadEnd_allowed
    (transferFile plainSync 3 plainCopy.srcPath plainCopy.destPath 0)
    (World.boot (plainFs oneBlock)) true (fun _ => ()) () (by decide +kernel)
  have notices := (transferFile_notices_iff plainSync
    (fun op => ∃ path count, op = .get path bufferSize count) (plain_at oneBlock) (.inl rfl)).mpr
  have length : oneBlock.length = bufferSize := List.length_replicate
  refine ⟨w', run, notices ?_ 3 w' run⟩
  constructor
  · rintro i inside ⟨path, count, same⟩
    have pos := (Op.get.inj same).2.1
    omega
  · rintro i _ _ ⟨path, count, impossible⟩
    cases impossible
  · rintro _ ⟨path, count, impossible⟩
    cases impossible

/-- The one byte of the source is not written, and the transfer returns true. -/
theorem transferFile_unnoticed : ∃ w', Program.Reach (handler (FaultsAt fun _ => True) True).exec Eq
      (transferFile plainSync 1 plainCopy.srcPath plainCopy.destPath 0) (World.boot (plainFs [65]))
      (.done true) w' ∧
    w'.fs.read plainCopy.srcPath = some [65] ∧ w'.fs.read plainCopy.destPath = some [] := by
  have allowed : ∀ op w, (handler (FaultsAt fun _ => True) True).exec op w
      (op.run ⟨0, match op with | .put _ _ => .error | _ => .none,
        match op with | .put _ _ => some 0 | _ => none, []⟩ w).1
      (op.run ⟨0, match op with | .put _ _ => .error | _ => .none,
        match op with | .put _ _ => some 0 | _ => none, []⟩ w).2 := by
    intro op w
    refine ⟨_, ?_, rfl⟩
    cases op <;> simp [FaultsAt]
  obtain ⟨w', run, seen⟩ := Program.reach_of_play Eq allowed
    (transferFile plainSync 1 plainCopy.srcPath plainCopy.destPath 0)
      (World.boot (plainFs [65])) true
    (fun w => (w.fs.read plainCopy.srcPath, w.fs.read plainCopy.destPath))
    (some [65], some []) (by decide +kernel)
  exact ⟨w', run, congrArg Prod.fst seen, congrArg Prod.snd seen⟩

end FileSync

end SyncTool
