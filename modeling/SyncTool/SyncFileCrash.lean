import SyncTool.SyncFileOutcome

set_option autoImplicit false

namespace SyncTool

open SyncTool.Path FileSync

/-- The process dies. Of what the stream on a file still held back, a prefix may have reached
the file; the rest, and all memory, is lost. -/
def World.die (w : World) (time : Int) (count : Option Nat) (path : Bytes) : World :=
  { (w.flush ⟨time, .none, count, []⟩ path []).2 with
    pending := fun _ => []
    shared := fun _ => ⟨0, false⟩ }

namespace FileSync

variable {self : FileSync} {k : Copy} {c : Bytes} {d t : Option Bytes} {w w' : World}

/-- What holds whenever the process may die: if the record would be gone on from, the
destination and what its stream holds back are the beginning of the source. -/
def Resumable (k : Copy) (c : Bytes) (w : World) : Prop :=
  ∃ d t, Ready k k.solo c d t w ∧
    (resumeAt k.destPath t = none ∨ d.getD [] ++ w.pending k.dest <+: c)

/-- A copy that runs alone and keeps this. -/
def crashing (k : Copy) (c : Bytes) : Interference World :=
  .alone (fun w w' => Resumable k c w → Resumable k c w') fun _ h => h

theorem others_of_change {p : Path} {entry : Option Entry} {held : Bytes}
    (change : World.Change p entry held w w') (own : p ∈ k.solo.writes) :
    ∀ q ∉ k.solo.writes, w'.fs.entry q = w.fs.entry q :=
  fun _ other => change.entry_ne fun same => other (same ▸ own)

theorem hosts_crashing : k.Hosts c (· <+: c) (crashing k c) where
  rely here same := same ▸ here
  same here same := by
    rintro ⟨d, t, ready, safe⟩
    refine ⟨d, t, ready.of_kept same.dirsKept (fun p _ => by rw [same.tree]) ?_ ?_ ?_, ?_⟩
    · rw [same.tree, ready.source]
    · rw [same.tree, ready.dest]
    · rw [same.tree, ready.record]
    · rwa [same.pending]
  dest here change good := by
    rintro ⟨d, t, ready, -⟩
    have kept := change.dirsKept fun isDir => absurd isDir here.notDir
    refine ⟨some _, t, ready.of_kept kept (others_of_change change (.inl rfl))
      ((change.entry_ne k.srcDest).trans ready.source) change.entry_self
      ((change.entry_ne k.destRecord.symm).trans ready.record), .inr ?_⟩
    rw [change.pending_self]
    exact good
  record here good change := by
    rintro ⟨d, t, ready, -⟩
    have kept := change.dirsKept fun isDir => absurd isDir here.recordNotDir
    refine ⟨_, some _, ready.of_kept kept (others_of_change change (.inr (.inl rfl)))
      ((change.entry_ne k.srcRecord).trans ready.source)
      ((change.entry_ne k.destRecord).trans here.dest) change.entry_self, .inr ?_⟩
    rw [change.pending_ne k.destRecord, here.held]
    exact good
  forget here change := by
    rintro ⟨d, t, ready, -⟩
    have kept := change.dirsKept fun isDir => absurd isDir here.recordNotDir
    exact ⟨d, none, ready.of_kept kept (others_of_change change (.inr (.inl rfl)))
      ((change.entry_ne k.srcRecord).trans ready.source)
      ((change.entry_ne k.destRecord).trans ready.dest) change.entry_self, .inl rfl⟩

theorem crashing_le : (crashing k c).Le k.solo.quiet.interference := by
  refine ⟨fun w w' same => ?_, fun w w' did => ?_⟩
  · cases same
    exact k.solo.quiet.interference.rely_refl w
  · rintro ⟨d, t, ready, safe⟩
    refine ⟨d, t, ready.rely k.owned_solo (Estate.quiet_rely did), ?_⟩
    rwa [did.pending k.dest id]

/-- A plain copy that starts right keeps resumable all along and leaves the source's bytes. -/
theorem syncFile_resumable {spins : Prop} {space : Nat → Prop} (overwrites : Overwrites self)
    (plain : ¬ self.Large c) (here : Ready k k.solo c d t w)
    (right : ∀ offset, resumeAt k.destPath t = some offset → d.getD [] = c.take offset) {fuel : Nat}
    (enough : Enough spins c.length fuel) (mode : UInt32) :
    Program.Sat (handler (Policy.reliable space) spins) (crashing k c)
      (syncFile self fuel k.srcPath k.destPath mode)
      (fun ok w' => ok = true ∧ w'.fs.contentAt k.dest = some c) w := by
  refine syncFile_sat (fun _ _ _ h => h) crashing_le (.inl fun _ _ same => Eq.symm same)
    k.owned_solo here fun w₁ _ now₁ => ?_
  refine resolveConflict_sat hosts_crashing overwrites now₁ fun w₂ now₂ => ?_
  refine (copyOrResume_sat (fun _ _ _ h => h) hosts_crashing now₂ ?_ enough mode
    fun _ d' held' w₃ _ now₃ => copyFresh_plain (fun _ _ _ h => h) hosts_crashing now₃
      (fun n => List.take_prefix n c) plain enough mode).weaken ?_
  · intro offset n usable
    rw [right offset usable, World.take_append_slice]
    exact List.take_prefix _ c
  · rintro ok w' ⟨rfl, f, held, image, final⟩
    refine ⟨rfl, ?_⟩
    have whole : f = c := by
      unfold CopyImage at image
      split at image
      · rename_i offset goesOn
        rw [image, right offset (resumeAt_of_goesOnAt goesOn), List.take_append_drop]
      · cases image with
        | plain _ => rfl
        | cramped _ _ _ => rfl
        | parallel _ large _ _ _ => exact absurd large plain
    rw [FileSystem.contentAt_of_entry final.dest, whole]

/-- What a record says there is of the source is there. -/
def Sound (k : Copy) (c : Bytes) (w : World) : Prop :=
  ∃ d t, Ready k k.solo c d t w ∧
    (resumeAt k.destPath t = none ∨ d.getD [] ++ w.pending k.dest <+: c) ∧
    ∀ offset, resumeAt k.destPath t = some offset → d.getD [] = c.take offset ∧ offset ≤ c.length

/-- A program that runs alone and removes no directory. -/
def keepingDirs : Interference World :=
  .alone (fun w w' => FileSystem.DirsKept w.fs w'.fs) fun w => .refl w.fs

theorem keepingDirs_le : keepingDirs.Le k.solo.interference := by
  constructor
  · intro w w' same
    cases same
    exact k.solo.interference.rely_refl w
  · exact fun w w' did => did.dirs

/-- Wherever a program of that kind dies, the directories are still there. -/
theorem dirsKept_of_sat {space : Nat → Prop} {p q : Prog Bool} {Q : Bool → World → Prop}
    (holds : Program.Sat (handler (Policy.reliable space) True) keepingDirs p Q w)
    (run : Program.Reach (handler (Policy.reliable space) True).exec Eq p w q w') :
    FileSystem.DirsKept w.fs w'.fs := by
  apply holds.invariant (fun w' : World => FileSystem.DirsKept w.fs w'.fs) (.refl w.fs) _ _ run
  · intro w₁ w₂ same sofar
    obtain rfl : w₁ = w₂ := same
    exact sofar
  · exact fun w₁ w₂ kept sofar => sofar.trans kept

/-- So wherever such a run dies, it is resumable, and no directory is gone. -/
theorem syncFile_dies {space : Nat → Prop} (overwrites : Overwrites self) (plain : ¬ self.Large c)
    (sound : Sound k c w) {fuel : Nat} {mode : UInt32} {p : Prog Bool}
    (run : Program.Reach (handler (Policy.reliable space) True).exec Eq
      (syncFile self fuel k.srcPath k.destPath mode) w p w') :
    Resumable k c w' ∧ FileSystem.DirsKept w.fs w'.fs := by
  obtain ⟨d, t, here, safe, right⟩ := sound
  constructor
  · exact (syncFile_resumable overwrites plain here (fun offset usable => (right offset usable).1)
      (.inl trivial) mode).invariant
      (Resumable k c) ⟨d, t, here, safe⟩ (fun _ _ same here => Eq.subst same here)
      (fun _ _ kept => kept) run
  · exact dirsKept_of_sat (syncFile_overwrites (fun _ _ _ allowed => allowed) keepingDirs_le
      (.inl fun _ _ same => Eq.symm same) k.owned_solo overwrites here (.inl trivial) mode) run

/-- The bytes that have reached the destination are as many as a usable record says. -/
def Aligned (k : Copy) (fs : FileSystem) : Prop :=
  ∀ offset, resumeAt k.destPath (fs.contentAt k.record) = some offset →
    ((fs.contentAt k.dest).getD []).length = offset

/-- What a sync that dies leaves: part of what the stream held back may have gone through. -/
theorem Ready.die (here : Ready k k.solo c d t w) (time : Int) (count : Option Nat) :
    ∃ d', Ready k k.solo c d' t (w.die time count k.destPath) ∧
      d'.getD [] <+: d.getD [] ++ w.pending k.dest := by
  have untouched : (w.flush ⟨time, .none, count, []⟩ k.destPath []).2 = w →
      ∃ d', Ready k k.solo c d' t (w.die time count k.destPath) ∧
        d'.getD [] <+: d.getD [] ++ w.pending k.dest := by
    intro same
    have fs_eq : (w.die time count k.destPath).fs = w.fs := by
      rw [World.die, same]
    refine ⟨d, here.of_kept ?_ (fun _ _ => by rw [fs_eq])
      (by rw [fs_eq, here.source]) (by rw [fs_eq, here.dest]) (by rw [fs_eq, here.record]),
      List.prefix_append _ _⟩
    rw [fs_eq]
    exact .refl _
  cases found : w.fs.resolve k.destPath with
  | none => exact untouched (by simp [World.flush, found])
  | some p =>
      obtain rfl : p = k.dest := by
        obtain ⟨front, name, split, proper, dest, -⟩ := here.way
        rw [FileSystem.resolve_eq_place found, place, split, List.foldl_append, List.foldl_cons,
          List.foldl_nil, enter_of_proper proper, dest]
      cases d with
      | none =>
          have missing : w.fs.lookup k.dest = none := by
            simpa [FileSystem.entry] using here.dest
          exact untouched (by simp [World.flush, found, FileSystem.edit, missing])
      | some f =>
          obtain ⟨-, through, rest, moved, -, change⟩ := flush_effect
            (show (⟨time, .none, count, []⟩ : Choice).fault = .none from rfl) found here.dest []
          have kept := change.dirsKept fun isDir => by
            rw [here.dest] at isDir
            cases isDir
          have others := others_of_change (k := k) change (.inl rfl)
          refine ⟨some (f ++ through), here.of_kept kept others
            ((change.entry_ne k.srcDest).trans here.source) change.entry_self
            ((change.entry_ne k.destRecord.symm).trans here.record), ?_⟩
          rw [List.append_nil] at moved
          rw [Option.getD_some, Option.getD_some, ← moved, ← List.append_assoc]
          exact List.prefix_append _ _

theorem die_dirs (w : World) (time : Int) (count : Option Nat) (path : Bytes) :
    FileSystem.DirsKept w.fs (w.die time count path).fs := by
  show FileSystem.DirsKept w.fs (w.flush ⟨time, .none, count, []⟩ path []).2.fs
  unfold World.flush
  split
  · exact .refl _
  · simp only
    split
    · exact .refl _
    · next fs edited =>
      obtain ⟨p, content, -, file, cwd, tree⟩ := FileSystem.edit_effect edited
      have kept : FileSystem.DirsKept w.fs fs :=
        FileSystem.dirsKept_of_update cwd tree fun isDir => by simp [file] at isDir
      split <;> exact kept

/-- A death that leaves destination and record aligned leaves a sound record. -/
theorem Resumable.die (resumable : Resumable k c w) (time : Int) (count : Option Nat)
    (aligned : Aligned k (w.die time count k.destPath).fs) :
    Sound k c (w.die time count k.destPath) := by
  obtain ⟨d₁, t, ready₁, safe₁⟩ := resumable
  obtain ⟨d, ready, part⟩ := ready₁.die time count
  have begins : ∀ offset, resumeAt k.destPath t = some offset →
      d.getD [] = c.take offset ∧ offset ≤ c.length := by
    intro offset usable
    have front : d₁.getD [] ++ w.pending k.dest <+: c := by
      rcases safe₁ with unusable | front
      · rw [unusable] at usable
        cases usable
      · exact front
    have recorded := FileSystem.contentAt_of_entry ready.record
    have length := aligned offset (by rw [recorded, usable])
    rw [FileSystem.contentAt_of_entry ready.dest] at length
    rw [← length]
    exact ⟨List.prefix_iff_eq_take.mp (part.trans front), (part.trans front).length_le⟩
  refine ⟨d, t, ready, ?_, begins⟩
  cases usable : resumeAt k.destPath t with
  | none => exact .inl rfl
  | some offset =>
      right
      have lost : (w.die time count k.destPath).pending k.dest = [] := rfl
      rw [(begins offset usable).1, lost, List.append_nil]
      exact List.take_prefix offset c

/-- The machine after any number of copies that died somewhere, each of which left the
destination and its record aligned. -/
inductive Interrupted (k : Copy) (copies : Prog Bool → Prop) (w₀ : World) : World → Prop where
  | start : Interrupted k copies w₀ w₀
  | died {w w₁ : World} {space : Nat → Prop} {p q : Prog Bool} (time : Int) (count : Option Nat) :
      Interrupted k copies w₀ w → copies p →
      Program.Reach (handler (Policy.reliable space) True).exec Eq p w q w₁ →
      Aligned k (w₁.die time count k.destPath).fs →
      Interrupted k copies w₀ (w₁.die time count k.destPath)

theorem Interrupted.mono {copies copies' : Prog Bool → Prop} {w₀ : World}
    (fewer : ∀ p, copies p → copies' p) (interrupted : Interrupted k copies w₀ w) :
    Interrupted k copies' w₀ w := by
  induction interrupted with
  | start => exact .start
  | died time count _ copy run aligned ih => exact .died time count ih (fewer _ copy) run aligned

/-- Copies that can be gone on from wherever they die leave sound records, and no directory
goes. -/
theorem Interrupted.sound {copies : Prog Bool → Prop} {w₀ : World}
    (here : Ready k k.solo c d none w₀)
    (dies : ∀ {space : Nat → Prop} {w w₁ : World} {p q : Prog Bool}, Sound k c w →
      FileSystem.DirsKept w₀.fs w.fs → copies p →
      Program.Reach (handler (Policy.reliable space) True).exec Eq p w q w₁ →
      Resumable k c w₁ ∧ FileSystem.DirsKept w.fs w₁.fs)
    (interrupted : Interrupted k copies w₀ w) : Sound k c w ∧ FileSystem.DirsKept w₀.fs w.fs := by
  induction interrupted with
  | start =>
      exact ⟨⟨d, none, here, .inl rfl, fun offset impossible => by cases impossible⟩, .refl _⟩
  | @died w w₁ space p q time count _ copy run aligned ih =>
      obtain ⟨sound, dirs⟩ := ih
      obtain ⟨resumable, kept⟩ := dies sound dirs copy run
      exact ⟨resumable.die time count aligned,
        (dirs.trans kept).trans (die_dirs w₁ time count k.destPath)⟩

/-- The machine after any number of runs of `syncFile` that died so. -/
def Crashes (self : FileSync) (k : Copy) (mode : UInt32) : World → World → Prop :=
  Interrupted k fun p => ∃ fuel, p = syncFile self fuel k.srcPath k.destPath mode

/-- After any number of crashes that left the destination as long as its record says, a sync
of the same source returns, reports success and leaves the source's bytes. -/
theorem syncFile_after_crashes {mode : UInt32} {w₀ : World} (overwrites : Overwrites self)
    (plain : ¬ self.Large c) (here : Ready k k.solo c d none w₀)
    (crashes : Crashes self k mode w₀ w) (space : Nat → Prop) {amount : Nat} (free : space amount)
    {fuel : Nat} (blocks : c.length < fuel * bufferSize) (chunks : ASYNC_CHUNK_SIZE < fuel) :
    Program.Returns (handler (Policy.reliable space) False).exec
      (fun ok w' => ok = true ∧ w'.fs.contentAt k.dest = some c)
      (syncFile self fuel k.srcPath k.destPath mode) w := by
  obtain ⟨⟨d', t, ready, -, right⟩, -⟩ := Interrupted.sound here (fun sound _ copy run => by
    obtain ⟨fuel', rfl⟩ := copy
    exact syncFile_dies overwrites plain sound run) crashes
  exact (syncFile_resumable overwrites plain ready (fun offset usable => (right offset usable).1)
    (.inr ⟨blocks, chunks⟩) mode).returns id
    fun op s => ⟨_, _, Policy.quietly_reliable space False amount free op s⟩

/-- A file of two blocks. -/
def twoBlocks : Bytes := List.replicate bufferSize 65 ++ List.replicate bufferSize 66

theorem length_twoBlocks : twoBlocks.length = 2 * bufferSize := by
  rw [twoBlocks, List.length_append, List.length_replicate, List.length_replicate, Nat.two_mul]

/-- Where a copy of it stands after some of its calls, if nothing is held back. -/
def afterCalls (calls : Nat) : World :=
  (Program.playFor (Policy.quietly 0)
    (syncFile plainSync 3 plainCopy.srcPath plainCopy.destPath 0o644)
    (World.boot (plainFs twoBlocks)) calls).2

/-- The process dies right after the record of the first block has been saved. -/
def afterRecord : World := (afterCalls 11).die 0 none plainCopy.destPath

theorem afterRecord_crashes :
    Crashes plainSync plainCopy 0o644 (World.boot (plainFs twoBlocks)) afterRecord := by
  apply Interrupted.died 0 none .start ⟨3, rfl⟩
  · exact Program.playFor_reach Eq (Policy.quietly_reliable (· = 0) True 0 rfl) _ _ 11
  · intro offset found
    have usable : resumeAt plainCopy.destPath (afterRecord.fs.contentAt plainCopy.record) =
        some bufferSize := by
      decide +kernel
    have length : ((afterRecord.fs.contentAt plainCopy.dest).getD []).length = bufferSize := by
      decide +kernel
    obtain rfl : offset = bufferSize := Option.some.inj (found.symm.trans usable)
    exact length

theorem syncFile_after_block :
    Program.Returns (handler (Policy.reliable (· = 0)) False).exec
      (fun ok w' => ok = true ∧ w'.fs.contentAt plainCopy.dest = some twoBlocks)
      (syncFile plainSync (ASYNC_CHUNK_SIZE + 1) plainCopy.srcPath plainCopy.destPath 0o644)
      afterRecord :=
  syncFile_after_crashes (.inl rfl) (fun large => Bool.false_ne_true large.2)
    (plain_ready twoBlocks) afterRecord_crashes (· = 0) rfl
    (by rw [length_twoBlocks]; simp only [bufferSize, ASYNC_CHUNK_SIZE]; omega)
    (Nat.lt_succ_self _)

/-- The process dies after the second of two blocks has been written but before its record is:
the next sync goes on behind it from the first, and reports success. -/
theorem syncFile_block_lost : ∃ p w w',
    Program.Reach (handler (Policy.reliable (· = 0)) True).exec Eq
      (syncFile plainSync 3 plainCopy.srcPath plainCopy.destPath 0o644)
      (World.boot (plainFs twoBlocks)) p w ∧
    Program.Reach (handler (Policy.reliable (· = 0)) True).exec Eq
      (syncFile plainSync 3 plainCopy.srcPath plainCopy.destPath 0o644)
      (w.die 0 none plainCopy.destPath) (.done true) w' ∧
    (w.die 0 none plainCopy.destPath).fs.read plainCopy.srcPath = some twoBlocks ∧
    (w'.fs.read plainCopy.destPath).map List.length = some (3 * bufferSize) := by
  obtain ⟨w', run, -⟩ := Program.reach_of_play Eq (Policy.quietly_reliable (· = 0) True 0 rfl)
    (syncFile plainSync 3 plainCopy.srcPath plainCopy.destPath 0o644)
    ((afterCalls 14).die 0 none plainCopy.destPath) true
    (fun _ => ()) () (by decide +kernel)
  have died := Program.playFor_reach Eq (Policy.quietly_reliable (· = 0) True 0 rfl)
    (syncFile plainSync 3 plainCopy.srcPath plainCopy.destPath 0o644)
    (World.boot (plainFs twoBlocks)) 14
  have start : Sound plainCopy twoBlocks (World.boot (plainFs twoBlocks)) :=
    ⟨_, _, plain_ready _, .inl rfl, fun _ impossible => by cases impossible⟩
  obtain ⟨⟨d₁, t, ready₁, -⟩, -⟩ := syncFile_dies (.inl rfl)
    (fun large => Bool.false_ne_true large.2) start died
  obtain ⟨d, ready, -⟩ := ready₁.die 0 none
  have written := FileSystem.contentAt_of_entry ready.dest
  have recorded := FileSystem.contentAt_of_entry ready.record
  have length : (d.getD []).length = 2 * bufferSize := by
    rw [← written]
    decide +kernel
  have usable : goesOnAt plainSync plainCopy.destPath twoBlocks t = some bufferSize := by
    rw [← recorded]
    decide +kernel
  obtain ⟨-, f, held, image, final⟩ := (syncFile_overwrites (fun _ _ _ allowed => allowed)
    (Interference.free_le _) (LinuxFileUtil.unraced_free _) plainCopy.owned_solo (.inl rfl) ready
    (.inl trivial) 0o644).returned run
  rw [CopyImage, usable] at image
  subst image
  refine ⟨_, _, w', died, run, FileSystem.read_eq_some.mpr ⟨_, ready.srcFound, ready.source⟩, ?_⟩
  rw [FileSystem.read_eq_some.mpr ⟨_, final.destFound, final.dest⟩, Option.map_some,
    List.length_append, length, List.length_drop, length_twoBlocks]
  congr 1

end FileSync

end SyncTool
