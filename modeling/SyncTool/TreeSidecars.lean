import SyncTool.SyncFileConflict
import SyncTool.TreeGround

set_option autoImplicit false

namespace SyncTool

open SyncTool.Path LinuxFileUtil FileSync

/-- The place of the same name with a suffix. -/
def suffixed (suffix : Name) (names : Path) : Path :=
  names.dropLast ++ [names.getLast?.getD [] ++ suffix]

theorem suffixed_concat (suffix : Name) (init : Path) (name : Name) :
    suffixed suffix (init ++ [name]) = init ++ [name ++ suffix] := by
  simp [suffixed]

theorem suffixed_injective {suffix : Name} {names names' : Path} (nonempty : names ≠ [])
    (nonempty' : names' ≠ []) (same : suffixed suffix names = suffixed suffix names') :
    names = names' := by
  obtain ⟨init, name, rfl⟩ := (List.eq_nil_or_concat' names).resolve_left nonempty
  obtain ⟨init', name', rfl⟩ := (List.eq_nil_or_concat' names').resolve_left nonempty'
  rw [suffixed_concat, suffixed_concat] at same
  obtain ⟨sameInit, last⟩ := List.append_inj' same rfl
  have sameName : name = name' := List.append_cancel_right (List.singleton_inj.mp last)
  rw [sameInit, sameName]

/-- A record is not a backup. -/
theorem record_ne_backup (names names' : Path) :
    suffixed progressSuffix names ≠ suffixed bakSuffix names' := by
  intro same
  have last := (List.append_inj' same rfl).2
  have ends := congrArg List.getLast? (List.singleton_inj.mp last)
  simp [progressSuffix, bakSuffix] at ends

/-- The source has a file there, and the strategy lets the copy have its destination. -/
def CopyProceeds (self : FileSync) (fs : FileSystem) (src dest names : Path) : Prop :=
  (∃ content, fs.entry (src ++ names) = some (.file content)) ∧
    Proceeds self (fs.contentAt (dest ++ names)) (fs.entry (dest ++ suffixed bakSuffix names))

/-- Every copy that goes ahead has its record to itself, and its backup if it makes one: no other
task is for a node of that name, and no directory is in the way. -/
structure Separate (sync : FileSync) (fs : FileSystem) (src dest : Path) (tasked : Set Path) :
    Prop where
  record : ∀ names ∈ tasked, CopyProceeds sync fs src dest names →
    suffixed progressSuffix names ∉ tasked ∧
      fs.entry (src ++ suffixed progressSuffix names) ≠ some .dir ∧
      fs.entry (dest ++ suffixed progressSuffix names) ≠ some .dir
  backup : ∀ names ∈ tasked, CopyProceeds sync fs src dest names →
    Renames sync (fs.contentAt (dest ++ names)) →
      suffixed bakSuffix names ∉ tasked ∧ fs.entry (src ++ suffixed bakSuffix names) ≠ some .dir

/-- The places that the task of a file writes. -/
inductive Written (self : FileSync) (fs : FileSystem) (src dest : Path) (tasked : Set Path)
    (names : Path) : Path → Prop where
  | dest : names ∈ tasked → CopyProceeds self fs src dest names →
      Written self fs src dest tasked names (dest ++ names)
  | record : names ∈ tasked → CopyProceeds self fs src dest names →
      Written self fs src dest tasked names (dest ++ suffixed progressSuffix names)
  | backup : names ∈ tasked → CopyProceeds self fs src dest names →
      Renames self (fs.contentAt (dest ++ names)) →
      Written self fs src dest tasked names (dest ++ suffixed bakSuffix names)

/-- The places it looks at: its source, and a destination that it leaves alone. -/
inductive Watched (self : FileSync) (fs : FileSystem) (src dest : Path) (tasked : Set Path)
    (names : Path) : Path → Prop where
  | source : Watched self fs src dest tasked names (src ++ names)
  | dest {content : Bytes} : names ∈ tasked → fs.entry (src ++ names) = some (.file content) →
      ¬ CopyProceeds self fs src dest names → Watched self fs src dest tasked names (dest ++ names)

namespace Separate

variable {self : FileSync} {fs : FileSystem} {srcDir destDir : Bytes} {src dest : Path}
  {tasked : Set Path} (separate : Separate self fs src dest tasked)
  (trees : Trees fs srcDir destDir src dest) (nonempty : ∀ names ∈ tasked, names ≠ [])

include separate trees

theorem written_notMem_growth {names p : Path} (written : Written self fs src dest tasked names p) :
    p ∉ growth fs src dest := by
  intro grown
  cases written with
  | dest member proceeds =>
      obtain ⟨⟨content, file⟩, -⟩ := proceeds
      have isDir := trees.overlay.dest_mem_growth grown
      rw [file] at isDir
      cases isDir
  | record member proceeds =>
      exact (separate.record names member proceeds).2.1 (trees.overlay.dest_mem_growth grown)
  | backup member proceeds renames =>
      exact (separate.backup names member proceeds renames).2 (trees.overlay.dest_mem_growth grown)

omit separate in
theorem watched_notMem_growth {names p : Path} (watched : Watched self fs src dest tasked names p) :
    p ∉ growth fs src dest := by
  intro grown
  cases watched with
  | source => exact trees.src_notMem_growth names grown
  | dest member file refused =>
      have isDir := trees.overlay.dest_mem_growth grown
      rw [file] at isDir
      cases isDir

/-- What the task for `names` has to itself. -/
def share (names : Path) : Estate where
  writes := {p | Written self fs src dest tasked names p}
  reads := {p | Watched self fs src dest tasked names p}
  grows := growth fs src dest
  keys := {key | key = destDir ++ below names ∧ ∀ name ∈ names, slash ∉ name}
  unwritten _ grown written := separate.written_notMem_growth trees written grown
  unread _ grown watched := watched_notMem_growth trees watched grown
  proper _ grown := growth_proper grown

omit trees in
/-- Nobody writes the destination of another task. -/
theorem written_ne_dest {names names' : Path} (other : names ≠ names') (member' : names' ∈ tasked) :
    ¬ Written self fs src dest tasked names (dest ++ names') := by
  intro written
  generalize same : dest ++ names' = p at written
  cases written with
  | dest member proceeds => exact other (List.append_cancel_left same).symm
  | record member proceeds =>
      obtain rfl := List.append_cancel_left same
      exact (separate.record names member proceeds).1 member'
  | backup member proceeds renames =>
      obtain rfl := List.append_cancel_left same
      exact (separate.backup names member proceeds renames).1 member'

omit trees in
include nonempty in
theorem written_apart {names names' p : Path} (other : names ≠ names')
    (written : Written self fs src dest tasked names p) :
    ¬ Written self fs src dest tasked names' p := by
  intro written'
  cases written' with
  | dest member' proceeds' => exact separate.written_ne_dest other member' written
  | record member' proceeds' =>
      generalize same : dest ++ suffixed progressSuffix names' = p at written
      cases written with
      | dest member proceeds =>
          obtain rfl := List.append_cancel_left same
          exact (separate.record names' member' proceeds').1 member
      | record member proceeds =>
          have equal := suffixed_injective (nonempty _ member') (nonempty _ member)
            (List.append_cancel_left same)
          exact other equal.symm
      | backup member proceeds renames => exact record_ne_backup _ _ (List.append_cancel_left same)
  | backup member' proceeds' renames' =>
      generalize same : dest ++ suffixed bakSuffix names' = p at written
      cases written with
      | dest member proceeds =>
          obtain rfl := List.append_cancel_left same
          exact (separate.backup names' member' proceeds' renames').1 member
      | record member proceeds => exact record_ne_backup _ _ (List.append_cancel_left same).symm
      | backup member proceeds renames =>
          have equal := suffixed_injective (nonempty _ member') (nonempty _ member)
            (List.append_cancel_left same)
          exact other equal.symm

theorem written_unwatched {names names' p : Path} (other : names ≠ names')
    (written : Written self fs src dest tasked names p) :
    ¬ Watched self fs src dest tasked names' p := by
  intro watched
  cases watched with
  | source =>
      generalize same : src ++ names' = p at written
      cases written with
      | dest member proceeds => exact trees.src_ne_dest _ _ same
      | record member proceeds => exact trees.src_ne_dest _ _ same
      | backup member proceeds renames => exact trees.src_ne_dest _ _ same
  | dest member' file refused => exact separate.written_ne_dest other member' written

include nonempty in
/-- The tasks of different nodes do not touch each other's places. -/
theorem share_apart {names names' : Path} (other : names ≠ names') :
    Estate.Apart (separate.share trees names) (separate.share trees names') where
  writes p written := by
    refine ⟨separate.written_apart nonempty other written,
      separate.written_unwatched trees other written, ?_⟩
    exact separate.written_notMem_growth trees written
  grows p grown := by
    refine ⟨fun written => separate.written_notMem_growth trees written grown, ?_⟩
    exact fun watched => watched_notMem_growth trees watched grown
  keys := by
    rintro key ⟨rfl, noSlash⟩ ⟨same, noSlash'⟩
    exact other (below_injective noSlash noSlash' (List.append_cancel_left same))

end Separate

end SyncTool
