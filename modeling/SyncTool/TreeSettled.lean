import SyncTool.ProgramCrew
import SyncTool.TreeCompare
import SyncTool.TreeSidecars

set_option autoImplicit false

namespace SyncTool

open SyncTool.Path LinuxFileUtil FileSync

/-- The disk is never reported too full for a file. -/
def Roomy (fs : FileSystem) (amount : Nat) : Prop :=
  ∀ p content, fs.entry p = some (.file content) → content.length ≤ amount

/-- The task for `names` has been done: a directory is there, and a copy that the strategy lets go
ahead has left what it makes of the source, of the old destination and of its record. -/
structure Settled (sync : FileSync) (fs : FileSystem) (destDir : Bytes) (src dest names : Path)
    (fs' : FileSystem) : Prop where
  dir : fs.entry (src ++ names) = some .dir → fs'.entry (dest ++ names) = some .dir
  copied : ∀ content, fs.entry (src ++ names) = some (.file content) →
    CopyProceeds sync fs src dest names →
    fs'.entry (dest ++ names) = some (.file (copyOf sync (destDir ++ below names) content
      (keptBytes sync (fs.contentAt (dest ++ names)))
      (fs.contentAt (dest ++ suffixed progressSuffix names)))) ∧
    fs'.entry (dest ++ suffixed progressSuffix names) = none ∧
    (Renames sync (fs.contentAt (dest ++ names)) →
      fs'.entry (dest ++ suffixed bakSuffix names) = fs.entry (dest ++ names))

/-- What the task for `names` returns. -/
def Succeeds (self : FileSync) (fs : FileSystem) (src dest names : Path) : Prop :=
  fs.entry (src ++ names) = some .dir ∨ CopyProceeds self fs src dest names

namespace Separate

variable {self : FileSync} {fs : FileSystem} {srcDir destDir : Bytes} {src dest : Path}
  {tasked : Set Path} (separate : Separate self fs src dest tasked)
  (trees : Trees fs srcDir destDir src dest) (nonempty : ∀ names ∈ tasked, names ≠ [])
  {names : Path} {w₀ w w' : World}

/-- What is done stays done while others work. -/
theorem settled_rely (member : names ∈ tasked)
    (settled : Settled self fs destDir src dest names w.fs)
    (drift : (separate.share trees names).Rely w w') :
    Settled self fs destDir src dest names w'.fs where
  dir isDir := drift.dirs.2 _ (settled.dir isDir)
  copied content file proceeds := by
    obtain ⟨image, gone, moved⟩ := settled.copied content file proceeds
    refine ⟨?_, ?_, fun renames => ?_⟩
    · exact (drift.writes _ (.dest member proceeds)).trans image
    · exact (drift.writes _ (.record member proceeds)).trans gone
    · exact (drift.writes _ (.backup member proceeds renames)).trans (moved renames)

variable {policy : Policy} {spins : Prop} {I : Interference World}

include nonempty

/-- The task of a file, in its turn. -/
theorem file_settles (sound : ∀ op choice w, policy op choice w →
      Policy.reliable (Roomy fs) op choice w) (member : names ∈ tasked) {content : Bytes}
    (file : fs.entry (src ++ names) = some (.file content)) {fuel : Nat}
    (enough : Enough spins content.length fuel)
    (le : I.Le (separate.share trees names).interference) (unraced : Unraced policy I)
    (start : w₀.fs = fs) (drift : (separate.share trees names).Rely w₀ w) (mode : UInt32) :
    Program.Sat (handler policy spins) I
      (syncFile self fuel (srcDir ++ below names) (destDir ++ below names) mode)
      (fun ok w' => (ok = true ↔ Succeeds self fs src dest names) ∧
        Settled self fs destDir src dest names w'.fs) w := by
  obtain ⟨init, name, rfl⟩ := (List.eq_nil_or_concat' names).resolve_left (nonempty names member)
  have notDir : ¬ fs.entry (src ++ (init ++ [name])) = some .dir := by simp [file]
  have record_eq : (trees.copy file).record = dest ++ suffixed progressSuffix (init ++ [name]) := by
    rw [suffixed_concat]
    rfl
  have backup_eq : (trees.copy file).backup = dest ++ suffixed bakSuffix (init ++ [name]) := by
    rw [suffixed_concat]
    rfl
  by_cases proceeds : CopyProceeds self fs src dest (init ++ [name])
  · have own : (trees.copy file).Owned (separate.share trees (init ++ [name])) := by
      refine ⟨.dest member proceeds, ?_, .source, ⟨rfl, ?_⟩⟩
      · rw [record_eq]
        exact .record member proceeds
      · exact fun other inside => (FileSystem.proper_below file other inside).2.1
    have ownBackup : Renames self (fs.contentAt (dest ++ (init ++ [name]))) →
        (trees.copy file).backup ∈ (separate.share trees (init ++ [name])).writes := by
      intro renames
      rw [backup_eq]
      exact .backup member proceeds renames
    have record := FileSystem.entry_of_notDir (separate.record _ member proceeds).2.2
    rw [suffixed_concat] at record
    have ready := trees.overlay.ready trees.different rfl start file drift .source own.dest
      own.record record
    have free : Proceeds self (fs.contentAt (dest ++ (init ++ [name])))
        (w.fs.entry (trees.copy file).backup) := by
      intro exist
      refine ⟨(proceeds.2 exist).1, fun strategy => ?_⟩
      rw [drift.writes _ (ownBackup ⟨strategy, exist⟩), start, backup_eq]
      exact (proceeds.2 exist).2 strategy
    apply (syncFile_copied sound (fun amount roomy => roomy _ _ file) le unraced own ownBackup ready
      free enough mode).weaken
    rintro ok w' ⟨right, copied⟩
    refine ⟨by simp [right, Succeeds, proceeds], fun isDir => absurd isDir notDir, ?_⟩
    intro content' file' _
    obtain rfl : content = content' := by simpa [file] using file'
    rw [← record_eq, ← backup_eq]
    refine ⟨?_, copied.record, fun renames => ?_⟩
    · rw [record_eq, suffixed_concat]
      exact copied.dest
    · rw [copied.backup renames]
      exact (trees.overlay.entry_dest file).symm
  · have exist : ∃ f, fs.contentAt (dest ++ (init ++ [name])) = some f := by
      apply Option.ne_none_iff_exists'.mp
      intro missing
      exact proceeds ⟨⟨content, file⟩, fun exist => absurd missing exist⟩
    obtain ⟨f, held⟩ := exist
    have existNow : w.fs.entry (trees.copy file).dest = some (.file f) := by
      refine (drift.reads _ (.dest member file proceeds)).trans ?_
      rw [start]
      exact FileSystem.contentAt_eq_some.mp held
    have refused : ¬ Proceeds self (some f) (w.fs.entry (trees.copy file).backup) := by
      intro allowed
      apply proceeds
      refine ⟨⟨content, file⟩, fun _ => ⟨(allowed (by simp)).1, fun strategy isDir => ?_⟩⟩
      apply (allowed (by simp)).2 strategy
      rw [backup_eq]
      exact drift.dirs.2 _ (start ▸ isDir)
    have approach := trees.overlay.approach trees.different rfl start file drift .source
    have ownSource :
        (trees.copy file).src ∈ (separate.share trees (init ++ [name])).reads := .source
    have spared : (trees.copy file).dest ∈ (separate.share trees (init ++ [name])).reads :=
      .dest member file proceeds
    apply (syncFile_declined sound le unraced ownSource spared approach existNow refused).weaken
    rintro ok w' rfl
    refine ⟨by simp [Succeeds, notDir, proceeds], fun isDir => absurd isDir notDir, ?_⟩
    exact fun _ _ allowed => absurd allowed proceeds

/-- The task of any node, in its turn. -/
theorem task_settles (sound : ∀ op choice w, policy op choice w →
      Policy.reliable (Roomy fs) op choice w) (member : names ∈ tasked) {node : Node}
    (here : fs.lookup (src ++ names) = some node) {fuel : Nat}
    (enough : ∀ content, node.entry = .file content → Enough spins content.length fuel)
    (le : I.Le (separate.share trees names).interference) (unraced : Unraced policy I)
    (start : w₀.fs = fs) (drift : (separate.share trees names).Rely w₀ w) :
    Program.Sat (handler policy spins) I
      (executeSyncTask self fuel (taskFor srcDir destDir names node))
      (fun ok w' => (ok = true ↔ Succeeds self fs src dest names) ∧
        Settled self fs destDir src dest names w'.fs) w := by
  have entry_eq : fs.entry (src ++ names) = some node.entry := by simp [FileSystem.entry, here]
  cases kind : node.entry with
  | dir =>
      rw [kind] at entry_eq
      simp only [executeSyncTask, taskFor, kind, decide_true, ↓reduceIte]
      apply (trees.overlay.syncDirectory_sat sound rfl le unraced entry_eq start drift _).weaken
      rintro ok w' ⟨right, made⟩
      refine ⟨by simp [right, Succeeds, entry_eq], fun _ => made, ?_⟩
      intro content file
      rw [entry_eq] at file
      cases file
  | file content =>
      rw [kind] at entry_eq
      simp only [executeSyncTask, taskFor, kind, reduceCtorEq, decide_false, Bool.false_eq_true,
        ↓reduceIte]
      exact separate.file_settles trees nonempty sound member entry_eq
        (enough content kind) le unraced start drift _

end Separate

end SyncTool
