import SyncTool.SyncFile

set_option autoImplicit false

namespace SyncTool

open SyncTool.Path FileSync LinuxFileUtil

namespace Estate

variable {e lent : Estate} {w w' : World}

/-- Who keeps to a part of an estate keeps to the whole. -/
theorem Guar.of_part (did : lent.Guar w w') (writes : lent.writes ⊆ e.writes)
    (grows : lent.grows ⊆ e.grows) (keys : lent.keys ⊆ e.keys) : e.Guar w w' where
  dirs := did.dirs
  tree p other := by
    rcases did.tree p fun own => other (writes own) with same | ⟨mine, made⟩
    · exact .inl same
    · exact .inr ⟨grows mine, made⟩
  pending p other := did.pending p fun own => other (writes own)
  keys key other := did.keys key fun own => other (keys own)

/-- The same estate with one of its places only read. -/
def sparing (e : Estate) (p : Path) (own : p ∈ e.writes) : Estate where
  writes := e.writes \ {p}
  reads := e.reads ∪ {p}
  grows := e.grows
  keys := e.keys
  unwritten q grown inside := e.unwritten q grown inside.1
  unread q grown inside := by
    rcases inside with before | rfl
    · exact e.unread q grown before
    · exact e.unwritten q grown own
  proper := e.proper

theorem sparing_le (e : Estate) {p : Path} (own : p ∈ e.writes) :
    e.interference.Le (e.sparing p own).interference := by
  constructor
  · intro w w' drift
    exact {
      dirs := drift.dirs
      writes := fun q inside => drift.writes q inside.1
      pending := fun q inside => drift.pending q inside.1
      reads := fun q inside => inside.elim (drift.reads q) fun same => by
        rw [Set.mem_singleton_iff.mp same, drift.writes p own]
      grows := drift.grows
      keys := drift.keys }
  · intro w w' did
    exact Guar.of_part did Set.sdiff_subset (subset_refl _) (subset_refl _)

/-- Work on the rest of an estate leaves the spared place as it is. -/
theorem sparing_sat {H : Handler Op Res World} {α : Type} {p : Path} (own : p ∈ e.writes)
    {prog : Program Op Res α} {Q : α → World → Prop}
    (works : Program.Sat H (e.sparing p own).interference prog Q w) :
    Program.Sat H e.interference prog (fun value w' => Q value w' ∧
      w'.fs.entry p = w.fs.entry p) w := by
  have trans : ∀ w₁ w₂ w₃ : World, w₂.fs.entry p = w₁.fs.entry p → w₃.fs.entry p = w₂.fs.entry p →
      w₃.fs.entry p = w₁.fs.entry p := fun _ _ _ first second => second.trans first
  have ofRely : ∀ w w', (e.sparing p own).Rely w w' → w'.fs.entry p = w.fs.entry p :=
    fun w w' drift => drift.reads p (.inr rfl)
  have ofGuar : ∀ w w', (e.sparing p own).Guar w w' → w'.fs.entry p = w.fs.entry p := by
    intro w w' did
    rcases did.tree p fun inside => inside.2 rfl with same | ⟨mine, -⟩
    · exact same
    · exact absurd own (e.unwritten p mine)
  have tracked := works.track (fun w w' => w'.fs.entry p = w.fs.entry p)
    (fun _ => rfl) trans ofRely ofGuar
  exact tracked.mono (e.sparing_le own) fun _ _ both => both

end Estate

namespace FileSync

/-- What a copy from the start makes of the source when the disk is not too full. -/
def freshOf (self : FileSync) (destPath c : Bytes) : Bytes :=
  if self.Large c ∧ Measured destPath then asyncImage c else c

/-- What a copy over a destination `d` with a record `t` makes of the source. -/
def copyOf (self : FileSync) (destPath c : Bytes) (d t : Option Bytes) : Bytes :=
  match goesOnAt self destPath c t with
  | some offset => d.getD [] ++ c.drop offset
  | none => freshOf self destPath c

/-- The strategy lets the copy have a destination that holds `d`, when `b` is at the backup. -/
def Proceeds (self : FileSync) (d : Option Bytes) (b : Option Entry) : Prop :=
  d ≠ none → self.conflictStrategy ≠ .skip ∧ (self.conflictStrategy = .rename → b ≠ some .dir)

/-- The destination is renamed first. -/
def Renames (self : FileSync) (d : Option Bytes) : Prop :=
  self.conflictStrategy = .rename ∧ d ≠ none

section

variable {self : FileSync} {policy : Policy} {spins : Prop} {space : Nat → Prop}
  {I : Interference World} {e : Estate} {k : Copy} {c destPath f : Bytes} {d t : Option Bytes}
  {w : World}

theorem FreshImage.eq_freshOf (image : FreshImage self space destPath c f)
    (roomy : ∀ amount, space amount → c.length ≤ amount) : f = freshOf self destPath c := by
  cases image with
  | plain small => rw [freshOf, if_neg small]
  | cramped amount allowed short =>
      have room := roomy amount allowed
      omega
  | parallel amount large measured => rw [freshOf, if_pos ⟨large, measured⟩]

theorem CopyImage.eq_copyOf (image : CopyImage self space destPath c d t f)
    (roomy : ∀ amount, space amount → c.length ≤ amount) : f = copyOf self destPath c d t := by
  unfold CopyImage at image
  unfold copyOf
  cases offset : goesOnAt self destPath c t with
  | some offset' =>
      rw [offset] at image
      exact image
  | none =>
      rw [offset] at image
      exact image.eq_freshOf roomy

/-- What a copy that goes ahead leaves. -/
structure Copied (sync : FileSync) (k : Copy) (c : Bytes) (d t : Option Bytes) (w : World) :
    Prop where
  dest : w.fs.entry k.dest = some (.file (copyOf sync k.destPath c (keptBytes sync d) t))
  record : w.fs.entry k.record = none
  backup : Renames sync d → w.fs.entry k.backup = d.map .file

theorem copyOrResume_image (sound : ∀ op choice w, policy op choice w →
      Policy.reliable space op choice w)
    (roomy : ∀ amount, space amount → c.length ≤ amount) (own : k.Owned e) {held : Bytes}
    (here : k.At c d held t w) {fuel : Nat} (enough : Enough spins c.length fuel) (mode : UInt32) :
    Program.Sat (handler policy spins) e.interference
      (copyOrResume self fuel k.srcPath k.destPath mode)
      (fun ok w' => ok = true ∧
        w'.fs.entry k.dest = some (.file (copyOf self k.destPath c d t)) ∧
        w'.fs.entry k.record = none) w := by
  apply (copyOrResume_estate sound own here enough mode).weaken
  rintro ok w' ⟨right, f, held', image, now⟩
  have image_eq := image.eq_copyOf roomy
  refine ⟨right, ?_, now.record⟩
  rw [now.dest, ← image_eq]
  rfl

/-- Where the destination has nothing, every strategy lets the copy go ahead. -/
theorem resolveConflict_absent (own : k.Owned e) {held : Bytes} (here : k.At c none held t w)
    {fuel : Nat} {mode : UInt32} {Q : Bool → World → Prop}
    (copies : ∀ w', k.At c none held t w' → Program.Sat (handler policy spins) e.interference
      (copyOrResume self fuel k.srcPath k.destPath mode) Q w') :
    Program.Sat (handler policy spins) e.interference
      (resolveConflict self fuel k.srcPath k.destPath mode) Q w := by
  simp only [resolveConflict, fileExists, Program.ask_bind, Program.call_bind, Program.pure_eq,
    Program.done_bind]
  refine Program.sat_read (fun _ _ => rfl) fun w₁ drift₁ _ _ => ?_
  have now₁ := here.rely own drift₁
  rw [stat_dest now₁]
  simp only [Option.isSome_none, Bool.false_eq_true, ↓reduceIte]
  exact copies w₁ now₁

/-- Once the directory is there, a copy that may proceed does. -/
theorem resolveConflict_copied (sound : ∀ op choice w, policy op choice w →
      Policy.reliable space op choice w)
    (roomy : ∀ amount, space amount → c.length ≤ amount) (own : k.Owned e)
    (ownBackup : Renames self d → k.backup ∈ e.writes) {held : Bytes} (here : k.At c d held t w)
    (proceeds : Proceeds self d (w.fs.entry k.backup)) {fuel : Nat}
    (enough : Enough spins c.length fuel) (mode : UInt32) :
    Program.Sat (handler policy spins) e.interference
      (resolveConflict self fuel k.srcPath k.destPath mode)
      (fun ok w' => ok = true ∧ Copied self k c d t w') w := by
  by_cases renames : Renames self d
  · obtain ⟨strategy, exist⟩ := renames
    obtain ⟨f, rfl⟩ := Option.ne_none_iff_exists'.mp exist
    have notDir := (proceeds exist).2 strategy
    have spared := ownBackup ⟨strategy, exist⟩
    simp only [resolveConflict, fileExists, Program.ask_bind, Program.call_bind, Program.pure_eq,
      Program.done_bind, handleConflict, strategy]
    refine Program.sat_read (fun _ _ => rfl) fun w₁ drift₁ _ _ => ?_
    have now₁ := here.rely own drift₁
    rw [stat_dest now₁]
    simp only [Option.isSome_some, ↓reduceIte]
    have free₁ : w₁.fs.entry k.backup ≠ some .dir := by
      rw [drift₁.writes k.backup spared]
      exact notDir
    refine rename_sat sound own spared now₁ ?_ ?_
    · intro w₂ drift₂ _ isDir
      rw [drift₂.writes k.backup spared] at isDir
      exact absurd isDir free₁
    · intro w₂ now₂ moved
      simp only [↓reduceIte]
      have part : k.Owned (e.sparing k.backup spared) :=
        ⟨⟨own.dest, k.backupOther.2.1.symm⟩, ⟨own.record, k.backupOther.2.2.symm⟩,
          .inl own.src, own.key⟩
      apply (Estate.sparing_sat spared
        (copyOrResume_image sound roomy part now₂ enough mode)).weaken
      rintro ok w' ⟨⟨right, image, gone⟩, kept⟩
      refine ⟨right, ?_, gone, fun _ => kept.trans moved⟩
      rw [keptBytes, if_pos strategy]
      exact image
  · have copies : keptBytes self d = d → ∀ {w' : World}, k.At c d held t w' →
        Program.Sat (handler policy spins) e.interference
          (copyOrResume self fuel k.srcPath k.destPath mode)
          (fun ok w'' => ok = true ∧ Copied self k c d t w'') w' := by
      intro kept w' now
      apply (copyOrResume_image sound roomy own now enough mode).weaken
      rintro ok w'' ⟨right, image, gone⟩
      refine ⟨right, ?_, gone, fun moved => absurd moved renames⟩
      rw [kept]
      exact image
    cases d with
    | none =>
        have kept : keptBytes self none = none := by simp [keptBytes]
        exact resolveConflict_absent own here fun w₁ now₁ => copies kept now₁
    | some f =>
        have notRename : self.conflictStrategy ≠ .rename :=
          fun strategy => renames ⟨strategy, by simp⟩
        have overwrites : Overwrites self := by
          cases strategy : self.conflictStrategy with
          | overwrite => exact .inl strategy
          | skip => exact absurd strategy (proceeds (by simp)).1
          | rename => exact absurd strategy notRename
          | other => exact .inr strategy
        apply resolveConflict_sat (Copy.hosts_estate own) overwrites here
        intro w₁ now₁
        exact copies (if_neg notRename) now₁

/-- A copy that may proceed does. -/
theorem syncFile_copied
    (sound : ∀ op choice w, policy op choice w → Policy.reliable space op choice w)
    (roomy : ∀ amount, space amount → c.length ≤ amount) (le : I.Le e.interference)
    (unraced : Unraced policy I) (own : k.Owned e)
    (ownBackup : Renames self d → k.backup ∈ e.writes) (here : Ready k e c d t w)
    (proceeds : Proceeds self d (w.fs.entry k.backup)) {fuel : Nat}
    (enough : Enough spins c.length fuel) (mode : UInt32) :
    Program.Sat (handler policy spins) I (syncFile self fuel k.srcPath k.destPath mode)
      (fun ok w' => ok = true ∧ Copied self k c d t w') w := by
  apply syncFile_sat sound (le.trans e.interference_le_quiet) unraced own here
  intro w₁ drift now
  have free : Proceeds self d (w₁.fs.entry k.backup) := by
    intro exist
    refine ⟨(proceeds exist).1, fun strategy => ?_⟩
    rw [drift.reads k.backup (.inl (ownBackup ⟨strategy, exist⟩))]
    exact (proceeds exist).2 strategy
  exact (resolveConflict_copied sound roomy own ownBackup now free enough mode).mono le
    fun _ _ done => done

/-- Where the destination has nothing, the copy is made whatever the strategy. -/
theorem syncFile_absent
    (sound : ∀ op choice w, policy op choice w → Policy.reliable space op choice w)
    (le : I.Le e.interference) (unraced : Unraced policy I) (own : k.Owned e)
    (here : Ready k e c none t w) {fuel : Nat} (enough : Enough spins c.length fuel)
    (mode : UInt32) :
    Program.Sat (handler policy spins) I (syncFile self fuel k.srcPath k.destPath mode)
      (fun ok w' => ok = true ∧ ∃ f held', CopyImage self space k.destPath c none t f ∧
        k.At c (some f) held' none w') w := by
  apply syncFile_sat sound (le.trans e.interference_le_quiet) unraced own here
  intro w₁ drift now
  have copied := @resolveConflict_absent self _ _ _ _ _ _ _ own _ now _ _ _ fun w₂ now₂ =>
    copyOrResume_estate sound own now₂ enough mode
  exact copied.mono le fun _ _ done => done

/-- What keeps a copy from having its destination: the strategy, or a directory at the backup. -/
theorem syncFile_declined
    (sound : ∀ op choice w, policy op choice w → Policy.reliable space op choice w)
    (le : I.Le e.interference) (unraced : Unraced policy I) (source : k.src ∈ e.reads)
    (spared : k.dest ∈ e.reads) (here : Approach k e c w)
    (exist : w.fs.entry k.dest = some (.file f))
    (refused : ¬ Proceeds self (some f) (w.fs.entry k.backup)) {fuel : Nat} {mode : UInt32} :
    Program.Sat (handler policy spins) I (syncFile self fuel k.srcPath k.destPath mode)
      (fun ok _ => ok = false) w := by
  apply syncFile_front sound (le.trans e.interference_le_quiet) unraced source here
  intro w₁ drift₁ named
  have exist₁ : w₁.fs.entry k.dest = some (.file f) := (drift₁.reads _ (.inr spared)).trans exist
  simp only [resolveConflict, fileExists, Program.ask_bind, Program.call_bind, Program.pure_eq,
    Program.done_bind]
  refine Program.sat_read (fun _ _ => rfl) fun w₂ drift₂ _ _ => ?_
  have rely₂ := le.1 _ _ drift₂
  have exist₂ : w₂.fs.entry k.dest = some (.file f) := (rely₂.reads _ spared).trans exist₁
  have found₂ := rely₂.dirs.resolve named.dest
  have seen : (w₂.fs.stat k.destPath).isSome = true := by
    apply Option.isSome_iff_ne_none.mpr
    exact FileSystem.stat_ne_none.mpr ⟨_, found₂, by simp [exist₂]⟩
  rw [if_pos seen]
  by_cases skips : self.conflictStrategy = .skip
  · simp only [handleConflict, skips, Program.pure_eq, Program.done_bind, Bool.false_eq_true,
      ↓reduceIte]
    exact fun w₃ drift₃ => rfl
  · have blocked : self.conflictStrategy = .rename ∧ w.fs.entry k.backup = some .dir := by
      by_contra free
      apply refused
      intro _
      exact ⟨skips, fun strategy isDir => free ⟨strategy, isDir⟩⟩
    obtain ⟨strategy, isDir⟩ := blocked
    simp only [handleConflict, strategy, Program.ask_bind]
    refine Program.sat_op.mpr fun w₃ drift₃ choice _ => ?_
    have rely₃ := le.1 _ _ drift₃
    have stuck : w₃.fs.rename k.destPath (k.destPath ++ bakSuffix) choice.time = none := by
      apply FileSystem.rename_dir (rely₃.dirs.resolve found₂)
        (rely₃.dirs.resolve (rely₂.dirs.resolve named.backup)) ((rely₃.reads _ spared).trans exist₂)
      exact rely₃.dirs.2 _ (rely₂.dirs.2 _ (drift₁.dirs.2 _ isDir))
    have same : (Op.rename k.destPath (k.destPath ++ bakSuffix)).run choice w₃ = (false, w₃) := by
      simp only [Op.run, World.attempt, stuck]
      split
      · rfl
      · rfl
    rw [same]
    exact ⟨I.guar_refl w₃, fun w₄ drift₄ => rfl⟩

end

end FileSync

end SyncTool
