import SyncTool.FileSyncRemote
import SyncTool.ProgramDelay
import SyncTool.SyncFileOutcome

set_option autoImplicit false

namespace SyncTool

open SyncTool.Path FileSync

/-- What a call keeps its thread asleep for, in milliseconds. -/
def Op.delay : Op → Nat
  | .sleep milliseconds => milliseconds
  | _ => 0

/-- One transfer: its source, its destination and its progress record are three different files. -/
structure Transfer where
  srcPath : Bytes
  destPath : Bytes
  src : Path
  dest : Path
  record : Path
  srcDest : src ≠ dest
  srcRecord : src ≠ record
  destRecord : dest ≠ record
  destProper : ∀ name ∈ dest, ProperName name
  recordProper : ∀ name ∈ record, ProperName name

namespace Transfer

/-- The source holds `c`, the destination holds `d` and its open stream `held` besides, and the
record holds `t`. -/
structure At (k : Transfer) (c : Bytes) (d : Option Bytes) (held : Bytes) (t : Option Bytes)
    (w : World) : Prop where
  srcFound : w.fs.resolve k.srcPath = some k.src
  source : w.fs.entry k.src = some (.file c)
  destFound : w.fs.resolve k.destPath = some k.dest
  dest : w.fs.entry k.dest = d.map .file
  held : w.pending k.dest = held
  recordFound : w.fs.resolve (getProgressFilePath k.destPath) = some k.record
  record : w.fs.entry k.record = t.map .file

variable {k : Transfer} {c held : Bytes} {d t : Option Bytes} {w w' : World}

theorem At.notDir (here : k.At c d held t w) : w.fs.entry k.dest ≠ some .dir := by
  rw [here.dest]
  cases d <;> simp

theorem At.recordNotDir (here : k.At c d held t w) : w.fs.entry k.record ≠ some .dir := by
  rw [here.record]
  cases t <;> simp

theorem At.read_src (here : k.At c d held t w) : w.fs.read k.srcPath = some c :=
  FileSystem.read_eq_some.mpr ⟨_, here.srcFound, here.source⟩

theorem At.of_dest {g : Option Bytes} {held' : Bytes} (here : k.At c d held t w)
    (change : World.Change k.dest (g.map .file) held' w w') : k.At c g held' t w' := by
  have kept := change.dirsKept fun isDir => absurd isDir here.notDir
  exact {
    srcFound := kept.resolve here.srcFound
    source := (change.entry_ne k.srcDest).trans here.source
    destFound := kept.resolve here.destFound
    dest := change.entry_self
    held := change.pending_self
    recordFound := kept.resolve here.recordFound
    record := (change.entry_ne k.destRecord.symm).trans here.record }

theorem At.of_record {g : Option Bytes} {pending : Bytes} (here : k.At c d held t w)
    (change : World.Change k.record (g.map .file) pending w w') : k.At c d held g w' := by
  have kept := change.dirsKept fun isDir => absurd isDir here.recordNotDir
  exact {
    srcFound := kept.resolve here.srcFound
    source := (change.entry_ne k.srcRecord).trans here.source
    destFound := kept.resolve here.destFound
    dest := (change.entry_ne k.destRecord).trans here.dest
    held := (change.pending_ne k.destRecord).trans here.held
    recordFound := kept.resolve here.recordFound
    record := change.entry_self }

end Transfer

/-- The three files of a copy. -/
def Copy.transfer (k : Copy) : Transfer where
  srcPath := k.srcPath
  destPath := k.destPath
  src := k.src
  dest := k.dest
  record := k.record
  srcDest := k.srcDest
  srcRecord := k.srcRecord
  destRecord := k.destRecord
  destProper := k.destProper
  recordProper := k.recordProper

theorem Copy.At.transfer {k : Copy} {c held : Bytes} {d t : Option Bytes} {w : World}
    (here : k.At c d held t w) : k.transfer.At c d held t w where
  srcFound := here.srcFound
  source := here.source
  destFound := here.destFound
  dest := here.dest
  held := here.held
  recordFound := here.recordFound
  record := here.record

/-- What a transfer waits for after a block. -/
def FileSync.pause (self : FileSync) : Nat := FileSync.bufferSize * 1000 / self.speedLimit

section

variable {policy : Policy} {spins : Prop} {α : Type} {Q : α → World × Nat → Prop} {s : World × Nat}

/-- A machine with a clock that its sleeps move on. -/
abbrev timing (policy : Policy) (spins : Prop) : Handler Op Res (World × Nat) :=
  Program.clocked (handler policy spins) Op.delay

theorem timed_call {op : Op} {next : Res op → Prog α}
    (holds : ∀ choice, policy op choice s.1 →
      Program.Sat (timing policy spins) .free (next (op.run choice s.1).1) Q
        ((op.run choice s.1).2, s.2 + op.delay)) :
    Program.Sat (timing policy spins) .free (.call op next) Q s := by
  rintro s₁ rfl answer s₂ ⟨⟨choice, allowed, ran⟩, moved⟩
  refine ⟨trivial, ?_⟩
  have rest := holds choice allowed
  rw [ran, ← moved] at rest
  exact rest

end

namespace FileSync

section

variable {self : FileSync} {policy : Policy} {spins : Prop} {space : Nat → Prop}
  {k : Transfer} {c held : Bytes} {d t : Option Bytes} {w : World} {slept : Nat}

theorem saveProgress_instant (filePath : Bytes) (offset totalSize : Nat) :
    (saveProgress filePath offset totalSize).Calls fun op => op.delay = 0 := by
  simp only [saveProgress, Program.ask_bind]
  refine ⟨rfl, fun opened => ?_⟩
  cases opened with
  | false => trivial
  | true => exact ⟨rfl, fun _ => ⟨rfl, fun _ => trivial⟩⟩

theorem saveProgress_timed (here : k.At c d held t w) (offset totalSize : Nat) :
    Program.Sat (timing policy spins) .free (saveProgress k.destPath offset totalSize)
      (fun _ s => (∃ t', k.At c d held t' s.1) ∧ s.2 = slept) (w, slept) := by
  have keeps : Program.Sat (handler policy spins) .free (saveProgress k.destPath offset totalSize)
      (fun _ w' => ∃ t', k.At c d held t' w') w := by
    refine saveProgress_keeps (p := k.record) ?_ ?_ ?_ ⟨t, here⟩ _ _
    · rintro w w' rfl now
      exact now
    · exact fun w ⟨t, now⟩ => now.recordFound
    · rintro w w' text rest ⟨t, now⟩ change
      exact ⟨trivial, some text, Transfer.At.of_record (g := some text) now change⟩
  exact Program.Calls.sat_clocked (s := (w, slept)) (saveProgress_instant _ _ _)
    (fun op free => free) keeps

theorem throttle_timed (here : k.At c d held t w) :
    Program.Sat (timing policy spins) .free (throttle self self.pause)
      (fun _ s => k.At c d held t s.1 ∧ s.2 = slept + self.pause) (w, slept) := by
  unfold throttle
  apply Program.Sat.ite
  · intro _
    refine timed_call fun choice _ => ?_
    rintro s rfl
    exact ⟨here, rfl⟩
  · intro unlimited
    rintro s rfl
    refine ⟨here, ?_⟩
    have none : self.speedLimit = 0 := by omega
    show slept = slept + self.pause
    rw [pause, none, Nat.div_zero, Nat.add_zero]

/-- The last steps of a transfer: the record goes, and the stream is closed. -/
theorem finish_timed (sound : ∀ op choice w, policy op choice w → Policy.reliable space op choice w)
    {f : Bytes} (here : k.At c (some f) held t w) :
    Program.Sat (timing policy spins) .free
      (do let _ ← Sys.remove (getProgressFilePath k.destPath); Sys.closeOut k.destPath; pure true)
      (fun ok s => ok = true ∧ k.At c (some (f ++ held)) [] none s.1 ∧ s.2 = slept) (w, slept) := by
  simp only [Program.ask_bind]
  refine timed_call fun choice₁ allowed₁ => ?_
  have removed :
      k.At c (some f) held none ((Op.remove (getProgressFilePath k.destPath)).run choice₁ w).2 := by
    cases t with
    | none =>
        rw [run_remove_missing here.recordFound here.record]
        exact here
    | some text =>
        have change := (run_remove_file (sound _ _ _ allowed₁).1 here.recordFound here.record).2
        exact here.of_record (g := none) change
  refine timed_call fun choice₂ allowed₂ => ?_
  obtain ⟨ok, all⟩ := sound _ _ _ allowed₂
  obtain ⟨-, through, held', moved, closed, change⟩ :=
    flush_effect ok removed.destFound removed.dest []
  obtain rfl := closed all
  rw [removed.held, List.append_nil, List.append_nil] at moved
  subst moved
  rintro s rfl
  exact ⟨rfl, removed.of_dest change, rfl⟩

/-- The read loop appends what is left of the source, and sleeps after every full block. -/
theorem copyBlocks_timed
    (sound : ∀ op choice w, policy op choice w → Policy.reliable space op choice w) {f : Bytes}
    {fuel transferred : Nat} (here : k.At c (some f) held t w)
    (enough : spins ∨ c.length - transferred < fuel * bufferSize) (totalSize : Nat) :
    Program.Sat (timing policy spins) .free
      (copyBlocks self k.srcPath k.destPath totalSize fuel transferred)
      (fun ok s => ok = true ∧ k.At c (some (f ++ held ++ c.drop transferred)) [] none s.1 ∧
        s.2 = slept + (c.length - transferred) / bufferSize * self.pause) (w, slept) := by
  induction fuel generalizing f held t transferred w slept with
  | zero =>
      rcases enough with spin | impossible
      · exact spin
      · omega
  | succ fuel ih =>
      rw [copyBlocks]
      simp only [Program.ask_bind]
      refine timed_call fun choice₁ allowed₁ => ?_
      obtain ⟨buffer, read⟩ : ∃ buffer, World.slice c transferred bufferSize = buffer := ⟨_, rfl⟩
      have answer : ((Op.get k.srcPath transferred bufferSize).run choice₁ w).1 = buffer := by
        simp only [Op.run, (sound _ _ _ allowed₁).1, here.read_src,
          Option.getD_some, ↓reduceIte, read]
      rw [answer]
      show Program.Sat _ _ _ _ (w, slept)
      have length := World.length_slice c transferred bufferSize
      have rest := World.slice_append_drop c transferred bufferSize
      rw [read] at length rest
      -- what the file and its stream hold together grows by the block
      have written : ∀ choice, policy (.put k.destPath buffer) choice w →
          ((Op.put k.destPath buffer).run choice w).1 = true ∧ ∃ f' held',
            f' ++ held' = f ++ held ++ buffer ∧
              k.At c (some f') held' t ((Op.put k.destPath buffer).run choice w).2 := by
        intro choice allowed
        have ok : choice.fault = .none := sound _ _ _ allowed
        obtain ⟨wrote, through, held', moved, -, change⟩ :=
          flush_effect ok here.destFound here.dest buffer
        rw [here.held] at moved
        refine ⟨wrote, f ++ through, held', ?_, here.of_dest change⟩
        rw [List.append_assoc, moved, List.append_assoc]
      apply Program.Sat.ite
      · intro full
        refine timed_call fun choice₂ allowed₂ => ?_
        obtain ⟨wrote, f', held', moved, now₂⟩ := written choice₂ allowed₂
        rw [wrote]
        simp only [↓reduceIte]
        apply Program.Sat.bind
        apply (saveProgress_timed now₂ _ _).weaken
        rintro - ⟨w₃, slept₃⟩ ⟨⟨text, now₃⟩, same⟩
        obtain rfl : slept₃ = slept := same
        apply Program.Sat.bind
        apply (throttle_timed now₃).weaken
        rintro - ⟨w₄, slept₄⟩ ⟨now₄, same⟩
        obtain rfl : slept₄ = slept₃ + self.pause := same
        rw [full]
        have blocks : bufferSize ≤ c.length - transferred := by omega
        have positive : 0 < bufferSize := by decide
        have less : spins ∨ c.length - (transferred + bufferSize) < fuel * bufferSize := by
          rw [Nat.succ_mul] at enough
          exact enough.imp_right fun bound => by omega
        apply (ih now₄ less).weaken
        rintro ok s ⟨rfl, final, clock⟩
        refine ⟨rfl, ?_, ?_⟩
        · rwa [moved, List.append_assoc, rest] at final
        · have one : (c.length - transferred) / bufferSize =
              (c.length - (transferred + bufferSize)) / bufferSize + 1 := by
            rw [← Nat.sub_sub]
            exact Nat.div_eq_sub_div positive blocks
          rw [clock, one, Nat.succ_mul]
          omega
      · intro short
        have last : buffer = c.drop transferred := by
          rw [← read]
          apply World.slice_eq_drop
          rw [read]
          omega
        have none : (c.length - transferred) / bufferSize = 0 := by
          apply Nat.div_eq_of_lt
          omega
        rw [none, Nat.zero_mul, Nat.add_zero, ← last]
        apply Program.Sat.ite
        · intro some
          refine timed_call fun choice₂ allowed₂ => ?_
          obtain ⟨-, f', held', moved, now₂⟩ := written choice₂ allowed₂
          rw [← moved]
          exact finish_timed sound now₂
        · intro blank
          have empty : buffer = [] := List.eq_nil_of_length_eq_zero (by omega)
          rw [empty, List.append_nil]
          exact finish_timed sound here

theorem seekTo_timed (sound : ∀ op choice w, policy op choice w → Policy.reliable space op choice w)
    (here : k.At c d held t w) {offset : Nat} (seeks : self.Seeks c offset) :
    Program.Sat (timing policy spins) .free (seekTo self k.srcPath offset)
      (fun found s => found = true ∧ s = (w, slept)) (w, slept) := by
  unfold seekTo
  apply Program.Sat.ite
  · intro _
    refine timed_call fun choice allowed => ?_
    rintro s rfl
    refine ⟨?_, rfl⟩
    have reaches : (decide (offset ≤ c.length) || decide (offset ≤ self.maxbytes)) = true := by
      simpa [Seeks] using seeks
    simpa [Op.run, (sound _ _ _ allowed).1, here.read_src] using reaches
  · intro _
    rintro s rfl
    exact ⟨rfl, rfl⟩

/-- A transfer from offset 0 replaces the destination by the source, one from a later offset appends
the rest of the source to what the destination holds. -/
theorem transferFile_timed
    (sound : ∀ op choice w, policy op choice w → Policy.reliable space op choice w) {fuel : Nat}
    (here : k.At c d held t w) (offset : Nat) (seeks : self.Seeks c offset)
    (enough : spins ∨ c.length < fuel * bufferSize) :
    Program.Sat (timing policy spins) .free (transferFile self fuel k.srcPath k.destPath offset)
      (fun ok s => ok = true ∧
        k.At c (some ((if 0 < offset then d.getD [] else []) ++ c.drop offset)) [] none s.1 ∧
        s.2 = slept + (c.length - offset) / bufferSize * self.pause) (w, slept) := by
  have exist := FileSystem.exists_of_read here.read_src
  simp only [transferFile, Program.ask_bind]
  refine timed_call fun choice₁ allowed₁ => ?_
  have opens : ((Op.openIn k.srcPath).run choice₁ w).1 = true := by
    simp only [Op.run, (sound _ _ _ allowed₁).1, exist, decide_true, Bool.and_self]
  rw [opens]
  refine timed_call fun choice₂ allowed₂ => ?_
  obtain ⟨opened, change⟩ := run_openOut (sound _ _ _ allowed₂).1 here.destFound here.notDir
    k.destProper (decide (0 < offset))
  have old : (w.fs.contentAt k.dest).getD [] = d.getD [] := by
    rw [FileSystem.contentAt_of_entry here.dest]
  have now := here.of_dest
    (g := some (if decide (0 < offset) then (w.fs.contentAt k.dest).getD [] else [])) change
  rw [old] at now
  simp only [decide_eq_true_eq] at now
  have opened' : ((Op.openOut k.destPath (decide (0 < offset))).run choice₂
      ((Op.openIn k.srcPath).run choice₁ w).2).1 = true := opened
  rw [opened']
  simp only [Bool.and_self, ↓reduceIte]
  apply Program.Sat.bind
  apply (seekTo_timed sound now seeks).weaken
  rintro found s ⟨rfl, rfl⟩
  simp only [↓reduceIte]
  refine timed_call fun choice₃ _ => ?_
  have less : spins ∨ c.length - offset < fuel * bufferSize := enough.imp_right fun bound => by
    omega
  apply (copyBlocks_timed sound now less _).weaken
  rintro ok s ⟨rfl, final, clock⟩
  rw [List.append_nil] at final
  exact ⟨rfl, final, clock⟩

theorem throttle_sequential (milliseconds : Nat) :
    (throttle self milliseconds).Calls fun _ => True := by
  unfold throttle
  split
  · exact ⟨trivial, fun _ => trivial⟩
  · trivial

theorem copyBlocks_sequential (srcPath destPath : Bytes) (totalSize fuel transferred : Nat) :
    (copyBlocks self srcPath destPath totalSize fuel transferred).Calls fun _ => True := by
  have saving : ∀ offset, (saveProgress destPath offset totalSize).Calls fun _ => True :=
    fun offset =>
    (saveProgress_instant destPath offset totalSize).mono fun _ _ => trivial
  induction fuel generalizing transferred with
  | zero => trivial
  | succ fuel ih =>
      simp only [copyBlocks, Program.ask_bind, Program.calls_call]
      refine ⟨trivial, fun buffer => ?_⟩
      split
      · refine ⟨trivial, fun good => ?_⟩
        cases good with
        | false => exact (saving _).bind fun _ => ⟨trivial, fun _ => trivial⟩
        | true =>
            exact (saving _).bind fun _ => (throttle_sequential _).bind fun _ => ih _
      · split
        · exact ⟨trivial, fun _ => ⟨trivial, fun _ => ⟨trivial, fun _ => trivial⟩⟩⟩
        · exact ⟨trivial, fun _ => ⟨trivial, fun _ => trivial⟩⟩

theorem seekTo_sequential (srcPath : Bytes) (offset : Nat) :
    (seekTo self srcPath offset).Calls fun _ => True := by
  unfold seekTo
  split
  · exact ⟨trivial, fun _ => trivial⟩
  · trivial

theorem transferFile_sequential (fuel : Nat) (srcPath destPath : Bytes) (offset : Nat) :
    (transferFile self fuel srcPath destPath offset).Calls fun _ => True := by
  simp only [transferFile, Program.ask_bind, Program.calls_call]
  refine ⟨trivial, fun srcFile => ⟨trivial, fun destFile => ?_⟩⟩
  cases srcFile && destFile with
  | true =>
      apply (seekTo_sequential srcPath offset).bind
      intro found
      cases found with
      | true => exact ⟨trivial, fun totalSize => copyBlocks_sequential _ _ _ _ _⟩
      | false => exact ⟨trivial, fun _ => trivial⟩
  | false => trivial

/-- What is left behind by a transfer from `offset`: the source as a whole if there was nothing
wrong with the front of the destination, and no record. -/
structure Transferred (k : Transfer) (c : Bytes) (d : Option Bytes) (offset : Nat) (ok : Bool)
    (w' : World) : Prop where
  verdict : ok = true
  dest : w'.fs.entry k.dest =
    some (.file (if offset = 0 then c else d.getD [] ++ c.drop offset))
  flushed : w'.pending k.dest = []
  whole : d.getD [] = c.take offset → w'.fs.entry k.dest = some (.file c)
  record : w'.fs.entry k.record = none
  source : w'.fs.entry k.src = some (.file c)

/-- The copy loop is exact from every offset on that the source can be read from, whatever the
destination held. -/
theorem transferFile_exact (self : FileSync) (here : k.At c d held t w) (offset : Nat)
    (seeks : self.Seeks c offset) {fuel : Nat} (enough : c.length < fuel * bufferSize) :
    Program.Returns (handler (Policy.reliable fun _ => True) False).exec
      (fun ok w' => Transferred k c d offset ok w')
      (transferFile self fuel k.srcPath k.destPath offset) w := by
  have timed : Program.Sat (timing (Policy.reliable fun _ => True) False) .free
      (transferFile self fuel k.srcPath k.destPath offset)
      (fun ok s => Transferred k c d offset ok s.1) (w, 0) := by
    apply (transferFile_timed (fun _ _ _ allowed => allowed) here offset seeks (.inr enough)).weaken
    rintro ok s ⟨rfl, final, -⟩
    have front : (if 0 < offset then d.getD [] else []) ++ c.drop offset =
        if offset = 0 then c else d.getD [] ++ c.drop offset := by
      by_cases start : offset = 0
      · simp [start]
      · rw [if_pos (by omega), if_neg start]
    have dest : s.1.fs.entry k.dest = some (.file _) := final.dest
    rw [front] at dest
    refine ⟨rfl, dest, final.held, ?_, final.record, final.source⟩
    intro same
    rw [dest, same, List.take_append_drop, ite_self]
  have holds := timed.unclocked (transferFile_sequential fuel k.srcPath k.destPath offset)
  exact holds.returns id fun op s =>
    ⟨_, _, Policy.quietly_reliable (fun _ => True) False 0 trivial op s⟩

end

/-- `/d` holds the first byte of `/s` already. -/
def halfFs : FileSystem := (plainFs [65, 66]).put [[100]] (.file [65] 0o644 0)

theorem half_at : plainCopy.transfer.At [65, 66] (some [65]) [] none (World.boot halfFs) where
  srcFound := rfl
  source := rfl
  destFound := rfl
  dest := rfl
  held := rfl
  recordFound := rfl
  record := rfl

theorem transferFile_exact_half :
    Program.Returns (handler (Policy.reliable fun _ => True) False).exec
    (fun ok w' => Transferred plainCopy.transfer [65, 66] (some [65]) 1 ok w')
    (transferFile plainSync 1 [47, 115] [47, 100] 1) (World.boot halfFs) :=
  transferFile_exact plainSync half_at 1 (.inl (by decide)) (by decide)

section

variable {self : FileSync} {policy : Policy} {spins : Prop} {space : Nat → Prop}
  {k : Transfer} {c held : Bytes} {d t : Option Bytes} {w : World} {slept : Nat}

theorem send_timed (sound : ∀ op choice w, policy op choice w → Policy.reliable space op choice w)
    (here : k.At c d held t w) {fuel : Nat} (enough : spins ∨ 2 ≤ fuel) (data : Bytes) :
    Program.Sat (timing policy spins) .free ((⟨true⟩ : TcpClient).send fuel data)
      (fun out s => out = (true, ⟨true⟩) ∧ k.At c d held t s.1 ∧ s.2 = slept) (w, slept) := by
  have sent : Program.Sat (timing policy spins) .free (sendLoop data fuel 0)
      (fun ok s => ok = true ∧ k.At c d held t s.1 ∧ s.2 = slept) (w, slept) := by
    cases fuel with
    | zero => exact enough.resolve_right (by omega)
    | succ fuel =>
        rw [sendLoop]
        apply Program.Sat.ite
        · intro _
          simp only [Program.ask_bind]
          refine timed_call fun choice allowed => ?_
          obtain ⟨ok, all⟩ := sound _ _ _ allowed
          have through : (Op.send (data.drop 0)).run choice w =
              (.ok data.length, { w with sent := w.sent ++ data.take data.length }) := by
            simp [Op.run, ok, Choice.limit, all]
          rw [through]
          simp only [Nat.zero_add]
          cases fuel with
          | zero => exact enough.resolve_right (by omega)
          | succ fuel =>
              rw [sendLoop, if_neg (Nat.lt_irrefl _)]
              rintro s rfl
              exact ⟨rfl, { here with }, rfl⟩
        · intro _
          rintro s rfl
          exact ⟨rfl, here, rfl⟩
  rw [TcpClient.send, if_pos rfl]
  apply Program.Sat.bind
  apply sent.weaken
  rintro ok s ⟨rfl, now, clock⟩ s' rfl
  exact ⟨rfl, now, clock⟩

/-- Sending sleeps after every block, the last one included. -/
theorem sendBlocks_timed
    (sound : ∀ op choice w, policy op choice w → Policy.reliable space op choice w)
    {sends fuel transferred : Nat} (here : k.At c d held t w)
    (enough : spins ∨ 2 ≤ sends ∧ (c.length - transferred + (bufferSize - 1)) / bufferSize < fuel) :
    Program.Sat (timing policy spins) .free
      (sendBlocks self k.srcPath k.destPath c.length sends fuel ⟨true⟩ transferred)
      (fun out s => out = (true, ⟨true⟩) ∧ (∃ t', k.At c d held t' s.1) ∧
        s.2 = slept + (c.length - transferred + (bufferSize - 1)) / bufferSize * self.pause)
          (w, slept) := by
  have size : bufferSize = 4096 := rfl
  induction fuel generalizing t transferred w slept with
  | zero => exact enough.resolve_right fun both => Nat.not_lt_zero _ both.2
  | succ fuel ih =>
      rw [sendBlocks]
      apply Program.Sat.ite
      · intro more
        simp only [Program.ask_bind]
        refine timed_call fun choice₁ allowed₁ => ?_
        obtain ⟨buffer, read⟩ :
            ∃ buffer, World.slice c transferred (min bufferSize (c.length - transferred)) =
              buffer := ⟨_, rfl⟩
        have answer : ((Op.get k.srcPath transferred (min bufferSize (c.length - transferred))).run
            choice₁ w).1 = buffer := by
          simp only [Op.run, (sound _ _ _ allowed₁).1, here.read_src,
            Option.getD_some, ↓reduceIte, read]
        rw [answer]
        show Program.Sat _ _ _ _ (w, slept)
        have length := World.length_slice c transferred (min bufferSize (c.length - transferred))
        rw [read] at length
        rw [if_pos (by omega)]
        apply Program.Sat.bind
        apply (send_timed sound here (enough.imp_right fun both => both.1) buffer).weaken
        rintro out ⟨w₂, slept₂⟩ ⟨rfl, now₂, same⟩
        obtain rfl : slept₂ = slept := same
        simp only [↓reduceIte]
        apply Program.Sat.bind
        apply (saveProgress_timed now₂ _ _).weaken
        rintro - ⟨w₃, slept₃⟩ ⟨⟨text, now₃⟩, same⟩
        obtain rfl : slept₃ = slept₂ := same
        apply Program.Sat.bind
        apply (throttle_timed now₃).weaken
        rintro - ⟨w₄, slept₄⟩ ⟨now₄, same⟩
        obtain rfl : slept₄ = slept₃ + self.pause := same
        have one : (c.length - transferred + (bufferSize - 1)) / bufferSize =
            (c.length - (transferred + buffer.length) + (bufferSize - 1)) / bufferSize + 1 := by
          rw [size] at length ⊢
          omega
        rw [one] at enough ⊢
        apply (ih now₄ (enough.imp_right fun both => ⟨both.1, by omega⟩)).weaken
        rintro out s ⟨rfl, final, clock⟩
        refine ⟨rfl, final, ?_⟩
        rw [clock, Nat.succ_mul]
        omega
      · intro finished
        have none : (c.length - transferred + (bufferSize - 1)) / bufferSize = 0 := by
          rw [size]
          omega
        rintro s rfl
        refine ⟨rfl, ⟨t, here⟩, ?_⟩
        rw [none, Nat.zero_mul, Nat.add_zero]

theorem sendFileSync_timed
    (sound : ∀ op choice w, policy op choice w → Policy.reliable space op choice w) {fuel : Nat}
    (here : k.At c d held t w) (offset : Nat)
    (enough : spins ∨ 2 ≤ fuel ∧ (c.length - offset + (bufferSize - 1)) / bufferSize < fuel) :
    Program.Sat (timing policy spins) .free
      (sendFileSync self fuel k.srcPath k.destPath ⟨true⟩ offset)
      (fun out s => out = (true, ⟨true⟩) ∧
        s.2 = slept + (c.length - offset + (bufferSize - 1)) / bufferSize * self.pause)
          (w, slept) := by
  have exist := FileSystem.exists_of_read here.read_src
  simp only [sendFileSync, Program.ask_bind]
  refine timed_call fun choice₁ allowed₁ => ?_
  have opens : ((Op.openIn k.srcPath).run choice₁ w).1 = true := by
    simp only [Op.run, (sound _ _ _ allowed₁).1, exist, decide_true, Bool.and_self]
  rw [opens]
  simp only [↓reduceIte]
  refine timed_call fun choice₂ _ => ?_
  have measured : ((Op.seekEnd k.srcPath).run choice₂ ((Op.openIn k.srcPath).run choice₁ w).2).1 =
      c.length := by
    show ((w.fs.read k.srcPath).getD []).length = _
    rw [here.read_src, Option.getD_some]
  rw [measured]
  apply Program.Sat.bind
  apply (sendBlocks_timed sound here enough).weaken
  rintro out s ⟨rfl, -, clock⟩
  simp only [↓reduceIte]
  refine timed_call fun choice₃ _ => ?_
  rintro s' rfl
  exact ⟨rfl, clock⟩

theorem send_sequential (client : TcpClient) (fuel : Nat) (data : Bytes) :
    (client.send fuel data).Calls fun _ => True := by
  have looping : ∀ sent, (sendLoop data fuel sent).Calls fun _ => True := by
    induction fuel with
    | zero => exact fun _ => trivial
    | succ fuel ih =>
        intro sent
        simp only [sendLoop, Program.ask_bind]
        split
        · refine ⟨trivial, fun answer => ?_⟩
          cases answer with
          | ok more => exact ih _
          | eintr => trivial
          | error => trivial
        · trivial
  unfold TcpClient.send
  split
  · exact (looping 0).bind fun _ => trivial
  · trivial

theorem sendBlocks_sequential (srcPath destPath : Bytes) (fileSize sends fuel : Nat)
    (client : TcpClient) (transferred : Nat) :
    (sendBlocks self srcPath destPath fileSize sends fuel client transferred).Calls
      fun _ => True := by
  have saving : ∀ offset, (saveProgress destPath offset fileSize).Calls fun _ => True :=
    fun offset =>
    (saveProgress_instant destPath offset fileSize).mono fun _ _ => trivial
  induction fuel generalizing client transferred with
  | zero => trivial
  | succ fuel ih =>
      simp only [sendBlocks, Program.ask_bind]
      split
      · refine ⟨trivial, fun buffer => ?_⟩
        dsimp only
        split
        · refine (send_sequential client sends _).bind fun out => ?_
          split
          · exact (saving _).bind fun _ => (throttle_sequential _).bind fun _ => ih _ _
          · exact (saving _).bind fun _ => trivial
        · exact ih _ _
      · trivial

theorem sendFileSync_sequential (fuel : Nat) (srcPath destPath : Bytes) (client : TcpClient)
    (offset : Nat) :
    (sendFileSync self fuel srcPath destPath client offset).Calls fun _ => True := by
  simp only [sendFileSync, Program.ask_bind, Program.calls_call]
  refine ⟨trivial, fun srcFile => ?_⟩
  cases srcFile with
  | false => trivial
  | true =>
      refine ⟨trivial, fun fileSize => (sendBlocks_sequential _ _ _ _ _ _ _).bind fun out => ?_⟩
      split
      · exact ⟨trivial, fun _ => trivial⟩
      · trivial

end

end FileSync

end SyncTool
