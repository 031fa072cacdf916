import SyncTool.FileSyncTransfer
import SyncTool.MachineEffects

set_option autoImplicit false

namespace SyncTool

open SyncTool.Path FileSync

/-- One copy: its path strings and the places they name, which are different and can hold
files. `record` is the place of the progress record, `backup` the one an existing destination
is renamed to. -/
structure Copy where
  srcPath : Bytes
  destPath : Bytes
  src : Path
  dest : Path
  record : Path
  backup : Path
  srcDest : src ≠ dest
  srcRecord : src ≠ record
  destRecord : dest ≠ record
  backupOther : backup ≠ src ∧ backup ≠ dest ∧ backup ≠ record
  destProper : ∀ name ∈ dest, ProperName name
  recordProper : ∀ name ∈ record, ProperName name
  backupProper : ∀ name ∈ backup, ProperName name

namespace Copy

/-- The source holds `c`; the destination holds `d` and its open stream `held` besides; the
progress record holds `t`. -/
structure At (k : Copy) (c : Bytes) (d : Option Bytes) (held : Bytes) (t : Option Bytes)
    (w : World) : Prop where
  srcFound : w.fs.resolve k.srcPath = some k.src
  source : w.fs.entry k.src = some (.file c)
  destFound : w.fs.resolve k.destPath = some k.dest
  dest : w.fs.entry k.dest = d.map .file
  held : w.pending k.dest = held
  recordFound : w.fs.resolve (getProgressFilePath k.destPath) = some k.record
  record : w.fs.entry k.record = t.map .file
  backupFound : w.fs.resolve (k.destPath ++ bakSuffix) = some k.backup

/-- The copy has its destination and its record to itself, and nobody writes its source. -/
structure Owned (k : Copy) (e : Estate) : Prop where
  dest : k.dest ∈ e.writes
  record : k.record ∈ e.writes
  src : k.src ∈ e.reads
  key : k.destPath ∈ e.keys

variable {k : Copy} {e : Estate} {c held : Bytes} {d t : Option Bytes} {w w' : World}

theorem At.rely (here : k.At c d held t w) (own : k.Owned e) (drift : e.Rely w w') :
    k.At c d held t w' where
  srcFound := drift.dirs.resolve here.srcFound
  source := (drift.reads _ own.src).trans here.source
  destFound := drift.dirs.resolve here.destFound
  dest := (drift.writes _ own.dest).trans here.dest
  held := (drift.pending _ own.dest).trans here.held
  recordFound := drift.dirs.resolve here.recordFound
  record := (drift.writes _ own.record).trans here.record
  backupFound := drift.dirs.resolve here.backupFound

theorem At.notDir (here : k.At c d held t w) : w.fs.entry k.dest ≠ some .dir := by
  rw [here.dest]
  cases d <;> simp

theorem At.recordNotDir (here : k.At c d held t w) : w.fs.entry k.record ≠ some .dir := by
  rw [here.record]
  cases t <;> simp

theorem At.read_src (here : k.At c d held t w) : w.fs.read k.srcPath = some c :=
  FileSystem.read_eq_some.mpr ⟨_, here.srcFound, here.source⟩

theorem At.of_dest {g : Option Bytes} {held' : Bytes} (here : k.At c d held t w)
    (change : World.Change k.dest (g.map .file) held' w w') : k.At c g held' t w' := by
  have kept := change.dirsKept fun isDir => absurd isDir here.notDir
  exact {
    srcFound := kept.resolve here.srcFound
    source := (change.entry_ne k.srcDest).trans here.source
    destFound := kept.resolve here.destFound
    dest := change.entry_self
    held := change.pending_self
    recordFound := kept.resolve here.recordFound
    record := (change.entry_ne k.destRecord.symm).trans here.record
    backupFound := kept.resolve here.backupFound }

theorem At.of_record {g : Option Bytes} {pending : Bytes} (here : k.At c d held t w)
    (change : World.Change k.record (g.map .file) pending w w') : k.At c d held g w' := by
  have kept := change.dirsKept fun isDir => absurd isDir here.recordNotDir
  exact {
    srcFound := kept.resolve here.srcFound
    source := (change.entry_ne k.srcRecord).trans here.source
    destFound := kept.resolve here.destFound
    dest := (change.entry_ne k.destRecord).trans here.dest
    held := (change.pending_ne k.destRecord).trans here.held
    recordFound := kept.resolve here.recordFound
    record := change.entry_self
    backupFound := kept.resolve here.backupFound }

theorem At.of_same (here : k.At c d held t w) (same : World.Same w w') : k.At c d held t w' where
  srcFound := same.dirsKept.resolve here.srcFound
  source := by rw [same.tree, here.source]
  destFound := same.dirsKept.resolve here.destFound
  dest := by rw [same.tree, here.dest]
  held := by rw [same.pending, here.held]
  recordFound := same.dirsKept.resolve here.recordFound
  record := by rw [same.tree, here.record]
  backupFound := same.dirsKept.resolve here.backupFound

/-- What the surroundings of a copy grant it: nobody disturbs it, and it may change its
destination and its record as long as what the destination holds is `Good`. -/
structure Hosts (k : Copy) (c : Bytes) (Good : Bytes → Prop) (I : Interference World) : Prop where
  rely : ∀ {d held t w w'}, k.At c d held t w → I.rely w w' → k.At c d held t w'
  same : ∀ {d held t w w'}, k.At c d held t w → World.Same w w' → I.guar w w'
  dest : ∀ {d held t w w' f held'}, k.At c d held t w →
    World.Change k.dest (some (.file f)) held' w w' → Good (f ++ held') → I.guar w w'
  record : ∀ {d held t w w' text rest}, k.At c d held t w → Good (d.getD [] ++ held) →
    World.Change k.record (some (.file text)) rest w w' → I.guar w w'
  forget : ∀ {d held t w w' rest}, k.At c d held t w →
    World.Change k.record none rest w w' → I.guar w w'

/-- An estate grants it whatever the destination comes to hold. -/
theorem hosts_estate (own : k.Owned e) : k.Hosts c (fun _ => True) e.interference where
  rely here drift := here.rely own drift
  same _ same := Estate.guar_of_same same
  dest here change _ := Estate.guar_of_change change own.dest fun isDir => absurd isDir here.notDir
  record here _ change :=
    Estate.guar_of_change change own.record fun isDir => absurd isDir here.recordNotDir
  forget here change :=
    Estate.guar_of_change change own.record fun isDir => absurd isDir here.recordNotDir

end Copy

namespace FileSync

section

variable {self : FileSync} {policy : Policy} {spins : Prop} {space : Nat → Prop}
  {I : Interference World} {Good : Bytes → Prop} {k : Copy} {c held : Bytes} {d t : Option Bytes}
  {w : World}

/-- Opening the destination as a stream. -/
theorem openOut_dest_sat (sound : ∀ op choice w, policy op choice w →
      Policy.reliable space op choice w)
    (hosts : k.Hosts c Good I) (here : k.At c d held t w) (append : Bool)
    (good : Good (if append then d.getD [] else [])) {α : Type} {next : Bool → Prog α}
    {Q : α → World → Prop}
    (holds : ∀ w', k.At c (some (if append then d.getD [] else [])) [] t w' →
      Program.Sat (handler policy spins) I (next true) Q w') :
    Program.Sat (handler policy spins) I (.call (.openOut k.destPath append) next) Q w := by
  refine Program.sat_op.mpr fun w₁ drift choice allowed => ?_
  have now := hosts.rely here drift
  obtain ⟨opened, change⟩ := run_openOut (sound _ _ _ allowed).1 now.destFound now.notDir
    k.destProper append
  have old : (w₁.fs.contentAt k.dest).getD [] = d.getD [] := by
    cases d <;> simp [FileSystem.contentAt, now.dest]
  rw [old] at change
  rw [opened]
  exact ⟨hosts.dest now change (by rw [List.append_nil]; exact good), holds _ (now.of_dest change)⟩

/-- Writing to the destination's stream: what the file and its stream hold together grows by
the data. -/
theorem put_dest_sat (sound : ∀ op choice w, policy op choice w →
      Policy.reliable space op choice w)
    (hosts : k.Hosts c Good I) {f : Bytes} (here : k.At c (some f) held t w) (data : Bytes)
    (good : Good (f ++ held ++ data)) {α : Type} {next : Bool → Prog α} {Q : α → World → Prop}
    (holds : ∀ w' f' held', f' ++ held' = f ++ held ++ data → k.At c (some f') held' t w' →
      Program.Sat (handler policy spins) I (next true) Q w') :
    Program.Sat (handler policy spins) I (.call (.put k.destPath data) next) Q w := by
  refine Program.sat_op.mpr fun w₁ drift choice allowed => ?_
  have now := hosts.rely here drift
  have ok : choice.fault = .none := sound _ _ _ allowed
  obtain ⟨wrote, through, held', moved, -, change⟩ := flush_effect ok now.destFound now.dest data
  rw [now.held] at moved
  have whole : f ++ through ++ held' = f ++ held ++ data := by
    rw [List.append_assoc, moved, List.append_assoc]
  simp only [Op.run]
  rw [wrote]
  exact ⟨hosts.dest now change (by rw [whole]; exact good),
    holds _ (f ++ through) held' whole (now.of_dest change)⟩

/-- Closing the destination's stream: it holds nothing back any more. -/
theorem closeOut_dest_sat (sound : ∀ op choice w, policy op choice w →
      Policy.reliable space op choice w)
    (hosts : k.Hosts c Good I) {f : Bytes} (here : k.At c (some f) held t w)
    (good : Good (f ++ held)) {α : Type} {next : Unit → Prog α} {Q : α → World → Prop}
    (holds : ∀ w', k.At c (some (f ++ held)) [] t w' →
      Program.Sat (handler policy spins) I (next ()) Q w') :
    Program.Sat (handler policy spins) I (.call (.closeOut k.destPath) next) Q w := by
  refine Program.sat_op.mpr fun w₁ drift choice allowed => ?_
  have now := hosts.rely here drift
  obtain ⟨ok, all⟩ := sound _ _ _ allowed
  obtain ⟨-, through, held', moved, closed, change⟩ :=
    flush_effect ok now.destFound now.dest []
  obtain rfl := closed all
  rw [now.held, List.append_nil, List.append_nil] at moved
  subst moved
  exact ⟨hosts.dest now change (by rw [List.append_nil]; exact good), holds _ (now.of_dest change)⟩

/-- The record is removed if it is there. -/
theorem remove_record_sat (removes : ∀ op choice w, policy op choice w →
      Policy.removing op choice w)
    (hosts : k.Hosts c Good I) (here : k.At c d held t w) {α : Type} {next : Bool → Prog α}
    {Q : α → World → Prop}
    (holds : ∀ w' removed, k.At c d held none w' →
      Program.Sat (handler policy spins) I (next removed) Q w') :
    Program.Sat (handler policy spins) I (.call (.remove (getProgressFilePath k.destPath)) next)
      Q w := by
  refine Program.sat_op.mpr fun w₁ drift choice allowed => ?_
  have now := hosts.rely here drift
  cases t with
  | none =>
      rw [run_remove_missing now.recordFound now.record]
      exact ⟨I.guar_refl w₁, holds _ _ now⟩
  | some text =>
      obtain ⟨-, change⟩ := run_remove_file (removes _ _ _ allowed) now.recordFound now.record
      exact ⟨hosts.forget now change, holds _ _ (now.of_record change)⟩

/-- Saving a record keeps whatever survives a change of the record's file, whoever else may
be writing records there, and whatever fails. -/
theorem saveProgress_keeps {A : World → Prop} {filePath : Bytes} {p : Path}
    (stable : ∀ w w', I.rely w w' → A w → A w')
    (found : ∀ w, A w → w.fs.resolve (getProgressFilePath filePath) = some p)
    (keeps : ∀ w w' text rest, A w → World.Change p (some (.file text)) rest w w' →
      I.guar w w' ∧ A w')
    (here : A w) (offset totalSize : Nat) :
    Program.Sat (handler policy spins) I (saveProgress filePath offset totalSize)
      (fun _ w' => A w') w := by
  have flush_keeps : ∀ w choice data, A w →
      I.guar w (w.flush choice (getProgressFilePath filePath) data).2 ∧
        A (w.flush choice (getProgressFilePath filePath) data).2 := by
    intro w choice data now
    rcases @flush_touches w choice _ _ (found w now) data with same | ⟨text, rest, change⟩
    · rw [same]
      exact ⟨I.guar_refl w, now⟩
    · exact keeps _ _ _ _ now change
  have opened_keeps : ∀ w choice, A w →
      I.guar w ((Op.openOut (getProgressFilePath filePath) false).run choice w).2 ∧
        A ((Op.openOut (getProgressFilePath filePath) false).run choice w).2 := by
    intro w choice now
    rcases @run_openOut_touches w choice _ _ (found w now) false with same | ⟨text, change⟩
    · rw [same]
      exact ⟨I.guar_refl w, now⟩
    · exact keeps _ _ _ _ now change
  simp only [saveProgress, Program.ask_bind]
  refine Program.sat_op.mpr fun w₁ drift₁ choice₁ _ => ?_
  obtain ⟨promised₁, then₁⟩ := opened_keeps w₁ choice₁ (stable _ _ drift₁ here)
  refine ⟨promised₁, ?_⟩
  split
  · refine Program.sat_op.mpr fun w₂ drift₂ choice₂ _ => ?_
    obtain ⟨promised₂, then₂⟩ := flush_keeps w₂ choice₂ (progressRecord filePath offset totalSize)
      (stable _ _ drift₂ then₁)
    refine ⟨promised₂, ?_⟩
    refine Program.sat_op.mpr fun w₃ drift₃ choice₃ _ => ?_
    obtain ⟨promised₃, then₃⟩ := flush_keeps w₃ choice₃ [] (stable _ _ drift₃ then₂)
    exact ⟨promised₃, fun w₄ drift₄ => stable _ _ drift₄ then₃⟩
  · exact fun w₂ drift₂ => stable _ _ drift₂ then₁

/-- Whatever a record says, saving it leaves the destination alone. -/
theorem saveProgress_sat (hosts : k.Hosts c Good I) (here : k.At c d held t w)
    (good : Good (d.getD [] ++ held)) (offset totalSize : Nat) :
    Program.Sat (handler policy spins) I (saveProgress k.destPath offset totalSize)
      (fun _ w' => ∃ t', k.At c d held t' w') w := by
  refine saveProgress_keeps (p := k.record) ?_ ?_ ?_ ⟨t, here⟩ _ _
  · exact fun w w' drift ⟨t, now⟩ => ⟨t, hosts.rely now drift⟩
  · exact fun w ⟨t, now⟩ => now.recordFound
  · rintro w w' text rest ⟨t, now⟩ change
    exact ⟨hosts.record now good change, some text, Copy.At.of_record (g := some text) now change⟩

theorem throttle_sat (hosts : k.Hosts c Good I) (here : k.At c d held t w) (milliseconds : Nat) :
    Program.Sat (handler policy spins) I (throttle self milliseconds)
      (fun _ w' => k.At c d held t w') w := by
  unfold throttle
  by_cases limited : 0 < self.speedLimit
  · rw [if_pos limited]
    exact Program.sat_read (fun _ _ => rfl) fun w₁ drift₁ _ _ w₂ drift₂ =>
      hosts.rely (hosts.rely here drift₁) drift₂
  · rw [if_neg limited]
    exact fun w₁ drift₁ => hosts.rely here drift₁

/-- The read loop appends what is left of the source and removes the record. -/
theorem copyBlocks_sat (sound : ∀ op choice w, policy op choice w →
      Policy.reliable space op choice w)
    (hosts : k.Hosts c Good I) {f : Bytes} {fuel transferred : Nat}
    (here : k.At c (some f) held t w)
    (good : ∀ n, Good (f ++ held ++ World.slice c transferred n))
    (enough : spins ∨ c.length - transferred < fuel * bufferSize) (totalSize : Nat) :
    Program.Sat (handler policy spins) I
      (copyBlocks self k.srcPath k.destPath totalSize fuel transferred)
      (fun ok w' => ok = true ∧ k.At c (some (f ++ held ++ c.drop transferred)) [] none w') w := by
  induction fuel generalizing f held t transferred w with
  | zero =>
      rcases enough with enough | impossible
      · exact enough
      · omega
  | succ fuel ih =>
      simp only [copyBlocks, Program.ask_bind]
      refine Program.sat_read (fun _ _ => rfl) fun w₁ drift₁ choice₁ allowed₁ => ?_
      have now₁ := hosts.rely here drift₁
      rw [if_pos (sound _ _ _ allowed₁).1, now₁.read_src, Option.getD_some]
      obtain ⟨buffer, read⟩ : ∃ buffer, World.slice c transferred bufferSize = buffer := ⟨_, rfl⟩
      have nothing : Good (f ++ held) := by simpa [World.slice] using good 0
      have everything : Good (f ++ held ++ c.drop transferred) := by
        have all := good c.length
        rwa [World.slice, List.take_of_length_le (by rw [List.length_drop]; omega)] at all
      have more := good bufferSize
      have length := World.length_slice c transferred bufferSize
      have rest := World.slice_append_drop c transferred bufferSize
      rw [read] at more length rest ⊢
      by_cases full : buffer.length = bufferSize
      · rw [if_pos full]
        refine put_dest_sat sound hosts now₁ _ more fun w₂ f' held' moved now₂ => ?_
        have still : Good (f' ++ held') := by rwa [moved]
        simp only [↓reduceIte]
        refine Program.Sat.bind ((saveProgress_sat hosts now₂ still _ _).weaken ?_)
        rintro - w₃ ⟨text, now₃⟩
        refine Program.Sat.bind ((throttle_sat hosts now₃ _).weaken fun _ w₄ now₄ => ?_)
        rw [full]
        have less : spins ∨ c.length - (transferred + bufferSize) < fuel * bufferSize := by
          rw [full] at length
          rcases enough with spin | bound
          · exact .inl spin
          · rw [Nat.succ_mul] at bound
            exact .inr (by omega)
        have later : ∀ n, Good (f' ++ held' ++ World.slice c (transferred + bufferSize) n) := by
          intro n
          have next := good (bufferSize + n)
          rwa [World.slice_add, read, ← List.append_assoc, ← moved] at next
        refine (ih now₄ later less).weaken ?_
        rintro ok w' ⟨rfl, final⟩
        rw [moved, List.append_assoc, rest] at final
        exact ⟨rfl, final⟩
      · rw [if_neg full]
        have last : buffer = c.drop transferred := by
          rw [← read]
          refine World.slice_eq_drop ?_
          rw [read]
          omega
        by_cases some : 0 < buffer.length
        · rw [if_pos some]
          refine put_dest_sat sound hosts now₁ _ more fun w₂ f' held' moved now₂ => ?_
          refine remove_record_sat (Policy.removing_of_reliable sound) hosts now₂
            fun w₃ _ now₃ => ?_
          refine closeOut_dest_sat sound hosts now₃ (by rwa [moved]) fun w₄ now₄ => ?_
          rw [moved, last] at now₄
          exact fun w₅ drift₅ => ⟨rfl, hosts.rely now₄ drift₅⟩
        · rw [if_neg some]
          have none : c.drop transferred = [] := by
            rw [← last]
            exact List.eq_nil_of_length_eq_zero (by omega)
          refine remove_record_sat (Policy.removing_of_reliable sound) hosts now₁
            fun w₂ _ now₂ => ?_
          refine closeOut_dest_sat sound hosts now₂ nothing fun w₃ now₃ => ?_
          rw [none, List.append_nil]
          exact fun w₄ drift₄ => ⟨rfl, hosts.rely now₃ drift₄⟩

/-- The offsets at which a source can be read: those up to its size, and those behind it that
the file system has. -/
def Seeks (self : FileSync) (c : Bytes) (offset : Nat) : Prop :=
  offset ≤ c.length ∨ offset ≤ self.maxbytes

instance (self : FileSync) (c : Bytes) (offset : Nat) : Decidable (self.Seeks c offset) :=
  inferInstanceAs (Decidable (_ ∨ _))

theorem seekTo_sat (sound : ∀ op choice w, policy op choice w →
      Policy.reliable space op choice w)
    (hosts : k.Hosts c Good I) (here : k.At c d held t w) (offset : Nat) :
    Program.Sat (handler policy spins) I (seekTo self k.srcPath offset)
      (fun found w' => (found = true ↔ self.Seeks c offset) ∧ k.At c d held t w') w := by
  unfold seekTo
  by_cases later : 0 < offset
  · rw [if_pos later]
    refine Program.sat_read (fun _ _ => rfl) fun w₁ drift₁ choice₁ allowed₁ => ?_
    have now₁ := hosts.rely here drift₁
    intro w₂ drift₂
    refine ⟨?_, hosts.rely now₁ drift₂⟩
    rw [(sound _ _ _ allowed₁).1, now₁.read_src]
    simp [Seeks]
  · rw [if_neg later]
    intro w₁ drift₁
    refine ⟨?_, hosts.rely here drift₁⟩
    have start : self.Seeks c offset := .inl (by omega)
    simp [start]

/-- Both streams open, and the source is positioned. -/
theorem transferFile_opened (sound : ∀ op choice w, policy op choice w →
      Policy.reliable space op choice w)
    (hosts : k.Hosts c Good I) (here : k.At c d held t w) (offset : Nat) {fuel : Nat}
    (start : Good (if 0 < offset then d.getD [] else [])) {Q : Bool → World → Prop}
    (rest : ∀ w' found, (found = true ↔ self.Seeks c offset) →
      k.At c (some (if 0 < offset then d.getD [] else [])) [] t w' →
      Program.Sat (handler policy spins) I (if found = true then do
          let totalSize ← Sys.seekEnd k.srcPath
          copyBlocks self k.srcPath k.destPath totalSize fuel offset
        else do
          Sys.closeOut k.destPath
          pure false) Q w') :
    Program.Sat (handler policy spins) I
      (transferFile self fuel k.srcPath k.destPath offset) Q w := by
  simp only [transferFile, Program.ask_bind]
  refine Program.sat_read (fun _ _ => rfl) fun w₁ drift₁ choice₁ allowed₁ => ?_
  have now₁ := hosts.rely here drift₁
  have exist := FileSystem.exists_of_read now₁.read_src
  have opens : (decide (choice₁.fault = .none) && (w₁.fs.stat k.srcPath).isSome) = true := by
    simp [(sound _ _ _ allowed₁).1, exist]
  rw [opens]
  have start' : Good (if decide (0 < offset) then d.getD [] else []) := by simpa using start
  refine openOut_dest_sat sound hosts now₁ _ start' fun w₂ now₂ => ?_
  simp only [Bool.and_self, ↓reduceIte, decide_eq_true_eq] at now₂ ⊢
  refine Program.Sat.bind ((seekTo_sat sound hosts now₂ offset).weaken ?_)
  rintro found w₃ ⟨seeks, now₃⟩
  exact rest w₃ found seeks now₃

/-- A transfer from offset 0 replaces the destination by the source; from a later offset it
appends the rest of the source to whatever the destination holds. -/
theorem transferFile_sat (sound : ∀ op choice w, policy op choice w →
      Policy.reliable space op choice w)
    (hosts : k.Hosts c Good I) (here : k.At c d held t w) (offset : Nat) {fuel : Nat}
    (seeks : self.Seeks c offset)
    (good : ∀ n, Good ((if 0 < offset then d.getD [] else []) ++ World.slice c offset n))
    (enough : spins ∨ c.length < fuel * bufferSize) :
    Program.Sat (handler policy spins) I
      (transferFile self fuel k.srcPath k.destPath offset)
      (fun ok w' => ok = true ∧
        k.At c (some ((if 0 < offset then d.getD [] else []) ++ c.drop offset)) [] none w') w := by
  have start : Good (if 0 < offset then d.getD [] else []) := by simpa [World.slice] using good 0
  apply transferFile_opened sound hosts here offset start
  intro w₃ found told now₃
  rw [if_pos (told.mpr seeks), Program.ask_bind]
  refine Program.sat_read (fun _ _ => rfl) fun w₄ drift₄ _ _ => ?_
  have less : spins ∨ c.length - offset < fuel * bufferSize := by
    rcases enough with spin | bound
    · exact .inl spin
    · exact .inr (by omega)
  refine (copyBlocks_sat sound hosts (hosts.rely now₃ drift₄)
    (by simpa only [List.append_nil] using good) less _).weaken ?_
  rintro ok w' ⟨rfl, final⟩
  rw [List.append_nil] at final
  exact ⟨rfl, final⟩

/-- A transfer from an offset that the file system does not have fails; the destination is there
afterwards, with what it held. -/
theorem transferFile_refused (sound : ∀ op choice w, policy op choice w →
      Policy.reliable space op choice w)
    (hosts : k.Hosts c Good I) (here : k.At c d held t w) {offset fuel : Nat}
    (refused : ¬ self.Seeks c offset) (good : Good (d.getD [])) :
    Program.Sat (handler policy spins) I
      (transferFile self fuel k.srcPath k.destPath offset)
      (fun ok w' => ok = false ∧ k.At c (some (d.getD [])) [] t w') w := by
  have later : 0 < offset := by
    by_contra first
    exact refused (.inl (by omega))
  apply transferFile_opened sound hosts here offset (by rwa [if_pos later])
  intro w₃ found told now₃
  rw [if_neg fun yes => refused (told.mp yes), Program.ask_bind]
  rw [if_pos later] at now₃
  refine closeOut_dest_sat sound hosts now₃ (by rwa [List.append_nil]) fun w₄ now₄ => ?_
  rw [List.append_nil] at now₄
  exact fun w₅ drift₅ => ⟨rfl, hosts.rely now₄ drift₅⟩

end

end FileSync

end SyncTool
