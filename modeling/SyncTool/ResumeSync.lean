import SyncTool.SyncFileCrash

set_option autoImplicit false

namespace SyncTool

open SyncTool.Path

namespace FileSync

variable {self : FileSync} {policy : Policy} {spins : Prop}
  {space : Nat → Prop} {Good : Bytes → Prop}
  {I : Interference World} {k : Copy} {c held : Bytes} {d t : Option Bytes} {w w' : World}

/-- What `resumeSync` leaves behind: where the record says to go on, and can, the rest of the
source behind what was there, and no record. Where it says so and cannot, nothing is added and
the record stays. Else everything is as it was. -/
def ResumeImage (self : FileSync) (k : Copy) (c : Bytes) (d : Option Bytes) (held : Bytes)
    (t : Option Bytes) (ok : Bool) (w' : World) : Prop :=
  match resumeAt k.destPath t with
  | some offset =>
      if self.Seeks c offset then ok = true ∧ k.At c (some (d.getD [] ++ c.drop offset)) [] none w'
      else ok = false ∧ k.At c (some (d.getD [])) [] t w'
  | none => ok = false ∧ k.At c d held t w'

theorem resumeSync_sat
    (sound : ∀ op choice w, policy op choice w → Policy.reliable space op choice w)
    (hosts : k.Hosts c Good I) (here : k.At c d held t w)
    (good : ∀ offset n, resumeAt k.destPath t = some offset →
      Good (d.getD [] ++ World.slice c offset n))
    {fuel : Nat} (enough : spins ∨ c.length < fuel * bufferSize) :
    Program.Sat (handler policy spins) I (resumeSync self fuel k.srcPath k.destPath)
      (fun ok w' => ResumeImage self k c d held t ok w') w := by
  rw [resumeSync]
  apply Program.Sat.bind
  apply (loadProgress_sat sound hosts here).weaken
  intro progress w₁ after
  obtain ⟨rfl, now₁⟩ := after
  unfold ResumeImage
  apply Program.Sat.ite
  · intro usable
    have offset : resumeAt k.destPath t = some (loaded k.destPath t).offset.toNat := if_pos usable
    have positive := resumeAt_pos offset
    rw [offset]
    by_cases seeks : self.Seeks c (loaded k.destPath t).offset.toNat
    · have front : ∀ n, Good ((if 0 < (loaded k.destPath t).offset.toNat then d.getD [] else []) ++
          World.slice c (loaded k.destPath t).offset.toNat n) := by
        intro n
        rw [if_pos positive]
        exact good _ n offset
      apply (transferFile_sat sound hosts now₁ _ seeks front enough).weaken
      intro ok w₂ after
      rw [if_pos positive] at after
      show if _ then _ else _
      rw [if_pos seeks]
      exact after
    · have kept : Good (d.getD []) := by
        simpa [World.slice] using good _ 0 offset
      apply (transferFile_refused sound hosts now₁ seeks kept).weaken
      intro ok w₂ after
      show if _ then _ else _
      rw [if_neg seeks]
      exact after
  · intro unusable
    have nothing : resumeAt k.destPath t = none := if_neg unusable
    rw [nothing]
    exact fun w₂ drift => ⟨rfl, hosts.rely now₁ drift⟩

theorem Named.kept (named : Named k w) (kept : FileSystem.DirsKept w.fs w'.fs) : Named k w' :=
  ⟨kept.resolve named.dest, kept.resolve named.record, kept.resolve named.backup⟩

theorem Ready.at_named (here : Ready k k.solo c d t w) (named : Named k w) :
    k.At c d (w.pending k.dest) t w :=
  ⟨here.srcFound, here.source, named.dest, here.dest, rfl, named.record, here.record, named.backup⟩

/-- A run of either kind of copy. -/
def CopyRun (self : FileSync) (k : Copy) (mode : UInt32) (fuel : Nat) (p : Prog Bool) : Prop :=
  p = syncFile self fuel k.srcPath k.destPath mode ∨ p = resumeSync self fuel k.srcPath k.destPath

/-- Wherever a copy dies, it can be gone on from, and the directories are still there. -/
theorem copyRun_dies (overwrites : Overwrites self) (plain : ¬ self.Large c) (sound : Sound k c w)
    (named : Named k w) {fuel : Nat} {mode : UInt32} {p q : Prog Bool}
    (copies : CopyRun self k mode fuel p)
    (run : Program.Reach (handler (Policy.reliable space) True).exec Eq p w q w') :
    Resumable k c w' ∧ FileSystem.DirsKept w.fs w'.fs := by
  rcases copies with rfl | rfl
  · exact syncFile_dies overwrites plain sound run
  · obtain ⟨d, t, here, safe, right⟩ := sound
    have good : ∀ offset n, resumeAt k.destPath t = some offset →
        d.getD [] ++ World.slice c offset n <+: c := by
      intro offset n usable
      rw [(right offset usable).1, World.take_append_slice]
      exact List.take_prefix _ c
    constructor
    · apply (resumeSync_sat (fun _ _ _ allowed => allowed) hosts_crashing (here.at_named named) good
        (.inl trivial)).invariant (Resumable k c) ⟨d, t, here, safe⟩ _ _ run
      · exact fun _ _ same here => Eq.subst same here
      · exact fun _ _ kept => kept
    · exact dirsKept_of_sat ((resumeSync_sat (fun _ _ _ allowed => allowed)
        (Copy.hosts_estate k.owned_solo) (here.at_named named) (fun _ _ _ => trivial)
        (.inl trivial)).mono keepingDirs_le fun _ _ done => done) run

/-- The machine after any number of copies of either kind that died somewhere, each of which
left the destination and its record aligned. -/
def CopyRuns (self : FileSync) (k : Copy) (mode : UInt32) : World → World → Prop :=
  Interrupted k fun p => ∃ fuel, CopyRun self k mode fuel p

/-- Whether there is something to go on from. -/
def Pending (k : Copy) (fs : FileSystem) : Prop :=
  resumeAt k.destPath (fs.contentAt k.record) ≠ none

/-- After any number of copies that died and left the destination as long as its record says,
`resumeSync` returns: with the whole source copied and no record, if there is a record to go on
from, and else with `false` and everything as it was. -/
theorem resumeSync_after_crashes {mode : UInt32} {w₀ : World} (overwrites : Overwrites self)
    (plain : ¬ self.Large c) (here : Ready k k.solo c d none w₀) (named : Named k w₀)
    (runs : CopyRuns self k mode w₀ w) (space : Nat → Prop) {amount : Nat} (free : space amount)
    {fuel : Nat} (blocks : c.length < fuel * bufferSize) :
    Program.Returns (handler (Policy.reliable space) False).exec
      (fun ok w' => (ok = true ↔ Pending k w.fs) ∧
        (ok = true → w'.fs.contentAt k.dest = some c ∧ w'.fs.entry k.record = none) ∧
        (ok = false → w'.fs.entry k.dest = w.fs.entry k.dest ∧
          w'.fs.entry k.record = w.fs.entry k.record))
      (resumeSync self fuel k.srcPath k.destPath) w := by
  obtain ⟨⟨d', t, ready, safe, right⟩, dirs⟩ :=
    Interrupted.sound here (fun sound dirs copy run => by
    obtain ⟨fuel', copies⟩ := copy
    exact copyRun_dies overwrites plain sound (named.kept dirs) copies run) runs
  have recorded : w.fs.contentAt k.record = t := FileSystem.contentAt_of_entry ready.record
  have resumes : Program.Sat (handler (Policy.reliable space) False) k.solo.interference
      (resumeSync self fuel k.srcPath k.destPath)
      (fun ok w' => ResumeImage self k c d' (w.pending k.dest) t ok w') w :=
    resumeSync_sat (fun _ _ _ allowed => allowed) (Copy.hosts_estate k.owned_solo)
      (ready.at_named (named.kept dirs)) (fun _ _ _ => trivial) (.inr blocks)
  have alone := resumes.mono (Interference.free_le _) fun _ _ image => image
  apply (alone.weaken _).returns id fun op s =>
    ⟨_, _, Policy.quietly_reliable space False amount free op s⟩
  intro ok w' image
  unfold ResumeImage at image
  unfold Pending
  rw [recorded]
  split at image
  · next offset usable =>
    obtain ⟨begins, inside⟩ := right offset usable
    rw [if_pos (show self.Seeks c offset from .inl inside)] at image
    obtain ⟨rfl, final⟩ := image
    refine ⟨by simp [usable], fun _ => ⟨?_, final.record⟩, by simp⟩
    rw [FileSystem.contentAt_of_entry final.dest, begins, List.take_append_drop]
  · next nothing =>
    obtain ⟨rfl, final⟩ := image
    refine ⟨by simp [nothing], by simp, fun _ => ⟨?_, ?_⟩⟩
    · rw [final.dest, ready.dest]
    · rw [final.record, ready.record]

theorem resumeSync_after_block :
    Program.Returns (handler (Policy.reliable (· = 0)) False).exec
      (fun ok w' =>
        (ok = true ↔ Pending plainCopy afterRecord.fs) ∧
        (ok = true → w'.fs.contentAt plainCopy.dest = some twoBlocks ∧
          w'.fs.entry plainCopy.record = none) ∧
        (ok = false →
          w'.fs.entry plainCopy.dest = afterRecord.fs.entry plainCopy.dest ∧
          w'.fs.entry plainCopy.record = afterRecord.fs.entry plainCopy.record))
      (resumeSync plainSync 3 plainCopy.srcPath plainCopy.destPath) afterRecord := by
  have runs : CopyRuns plainSync plainCopy 0o644 (World.boot (plainFs twoBlocks)) afterRecord :=
    Interrupted.mono (fun p copy => copy.imp fun fuel same => .inl same) afterRecord_crashes
  exact resumeSync_after_crashes (.inl rfl) (fun large => Bool.false_ne_true large.2)
    (plain_ready twoBlocks) ⟨rfl, rfl, rfl⟩ runs (· = 0) rfl
    (by rw [length_twoBlocks]; simp only [bufferSize]; omega)

end FileSync

end SyncTool
