import SyncTool.SyncFileOutcome
import SyncTool.TreeGround

set_option autoImplicit false

namespace SyncTool

open SyncTool.Path LinuxFileUtil FileSync

/-- A source tree and a place for its copy. What is missing on the way to the destination can
be made; the trees lie apart, agree on what is a directory, and hold no progress records. -/
structure Site (fs : FileSystem) (srcDir destDir : Bytes) (src dest : Path) : Prop where
  srcFound : fs.resolve srcDir = some src
  srcIsDir : fs.entry src = some .dir
  destNonempty : destDir ≠ []
  destPlace : place fs.cwd destDir = dest
  destProper : ∀ name ∈ dest, ProperName name
  home : fs.entry (origin fs.cwd destDir) = some .dir
  way : ∀ p ∈ trail fs.cwd destDir, fs.entry p = some .dir ∨ fs.entry p = none ∧ p <+: dest
  apart : ¬ src <+: dest ∧ ¬ dest <+: src
  kinds : ∀ names, names ≠ [] → ∀ entry entry', fs.entry (src ++ names) = some entry →
    fs.entry (dest ++ names) = some entry' → (entry = .dir ↔ entry' = .dir)
  noRecords : ∀ names name, (fs.entry (src ++ (names ++ [name])) ≠ none ∨
    fs.entry (dest ++ (names ++ [name])) ≠ none) → ¬ progressSuffix <:+ name

namespace Site

variable {fs : FileSystem} {srcDir destDir : Bytes} {src dest : Path}
  (site : Site fs srcDir destDir src dest)

include site

theorem trees : Trees fs srcDir destDir src dest where
  srcFound := site.srcFound
  srcIsDir := site.srcIsDir
  destNonempty := site.destNonempty
  destPlace := site.destPlace
  destProper := site.destProper
  home := site.home
  way := site.way
  apart := site.apart
  kinds := site.kinds

/-- No place of the source or the destination is that of a progress record. -/
theorem record_free (init : Path) (name : Name) :
    fs.entry (src ++ (init ++ [name ++ progressSuffix])) = none ∧
      fs.entry (dest ++ (init ++ [name ++ progressSuffix])) = none := by
  have suffix := List.suffix_append name progressSuffix
  constructor <;> by_contra exist
  · exact site.noRecords init _ (.inl exist) suffix
  · exact site.noRecords init _ (.inr exist) suffix

/-- What the task for `names` has to itself: a file's destination and record. -/
def share (names : Path) : Estate where
  writes := {p | ∃ init name content, names = init ++ [name] ∧
    fs.entry (src ++ names) = some (.file content) ∧
      (p = dest ++ names ∨ p = dest ++ (init ++ [name ++ progressSuffix]))}
  reads := {p | p = src ++ names}
  grows := growth fs src dest
  keys := {key | key = destDir ++ below names ∧ ∀ name ∈ names, slash ∉ name}
  unwritten p grown := by
    rintro ⟨init, name, content, -, file, rfl | rfl⟩
    · have isDir := site.trees.overlay.dest_mem_growth grown
      rw [file] at isDir
      cases isDir
    · have isDir := site.trees.overlay.dest_mem_growth grown
      rw [(site.record_free init name).1] at isDir
      cases isDir
  unread p grown := by
    rintro rfl
    exact site.trees.src_notMem_growth names grown
  proper _ grown := growth_proper grown

/-- The tasks of different nodes do not touch each other's places. -/
theorem share_apart {names names' : Path} (other : names ≠ names') :
    Estate.Apart (site.share names) (site.share names') where
  writes := by
    rintro p ⟨init, name, content, rfl, file, which⟩
    have notRecord : ∀ init' name', init ++ [name] ≠ init' ++ [name' ++ progressSuffix] := by
      intro init' name' same
      have free := (site.record_free init' name').1
      rw [← same, file] at free
      cases free
    refine ⟨?_, ?_, ?_⟩
    · rintro ⟨init', name', content', rfl, file', which'⟩
      have notRecord' : ∀ init name, init' ++ [name'] ≠ init ++ [name ++ progressSuffix] := by
        intro init name same
        have free := (site.record_free init name).1
        rw [← same, file'] at free
        cases free
      rcases which with rfl | rfl <;> rcases which' with same | same
      · exact other (List.append_cancel_left same)
      · exact notRecord _ _ (List.append_cancel_left same)
      · exact notRecord' _ _ (List.append_cancel_left same).symm
      · obtain ⟨rfl, last⟩ := List.append_inj' (List.append_cancel_left same) rfl
        have equal : name = name' := List.append_cancel_right (List.singleton_inj.mp last)
        exact other (by rw [equal])
    · rintro same
      rcases which with rfl | rfl <;> exact site.trees.src_ne_dest _ _ same.symm
    · intro grown
      rcases which with rfl | rfl
      · exact (site.share (init ++ [name])).unwritten _ grown
          ⟨init, name, content, rfl, file, .inl rfl⟩
      · exact (site.share (init ++ [name])).unwritten _ grown
          ⟨init, name, content, rfl, file, .inr rfl⟩
  grows := by
    intro p grown
    exact ⟨(site.share names').unwritten p grown, (site.share names').unread p grown⟩
  keys := by
    rintro key ⟨rfl, noSlash⟩ ⟨same, noSlash'⟩
    exact other (below_injective noSlash noSlash' (List.append_cancel_left same))

/-- The copy of one file of the source. -/
def copy {init : Path} {name : Name} {content : Bytes}
    (file : fs.entry (src ++ (init ++ [name])) = some (.file content)) : Copy :=
  site.trees.copy file

/-- The task of `names` has been done: the destination has there what the source has. -/
def Done (fs : FileSystem) (src dest names : Path) (fs' : FileSystem) : Prop :=
  ∀ entry, fs.entry (src ++ names) = some entry → fs'.entry (dest ++ names) = some entry

variable {w₀ w w' : World}

/-- What is done stays done while others work. -/
theorem done_rely {names : Path} (done : Done fs src dest names w.fs)
    (drift : (site.share names).Rely w w') : Done fs src dest names w'.fs := by
  intro entry here
  have there := done entry here
  cases entry with
  | dir => exact drift.dirs.2 _ there
  | file content =>
      rcases List.eq_nil_or_concat names with blank | ⟨init, name, rfl⟩
      · rw [blank, List.append_nil, site.srcIsDir] at here
        cases here
      · rw [List.concat_eq_append] at *
        exact (drift.writes _ ⟨init, name, content, rfl, here, .inl rfl⟩).trans there

/-- Before its turn, the task of a file finds everything as it was planned. -/
theorem ready {init : Path} {name : Name} {content : Bytes} (start : w₀.fs = fs)
    (file : fs.entry (src ++ (init ++ [name])) = some (.file content))
    (drift : (site.share (init ++ [name])).Rely w₀ w) :
    Ready (site.copy file) (site.share (init ++ [name])) content
      (fs.contentAt (dest ++ (init ++ [name]))) none w :=
  site.trees.overlay.ready site.trees.different rfl start file drift rfl
    ⟨init, name, content, rfl, file, .inl rfl⟩
    ⟨init, name, content, rfl, file, .inr rfl⟩ (site.record_free init name).2

variable {self : FileSync} {policy : Policy} {spins : Prop} {space : Nat → Prop}
  {I : Interference World}

theorem task_sat (sound : ∀ op choice w, policy op choice w →
      Policy.reliable space op choice w) (overwrites : Overwrites self) {names : Path} {node : Node}
    (here : fs.lookup (src ++ names) = some node) {fuel : Nat}
    (small : ∀ content, node.entry = .file content →
      content.length ≤ (2 ^ 31 - 1) * ASYNC_CHUNK_SIZE ∧ Enough spins content.length fuel)
    (le : I.Le (site.share names).interference) (unraced : Unraced policy I) (start : w₀.fs = fs)
    (drift : (site.share names).Rely w₀ w) :
    Program.Sat (handler policy spins) I
      (executeSyncTask self fuel (taskFor srcDir destDir names node))
      (fun ok w' => ok = true ∧ Done fs src dest names w'.fs) w := by
  have entry_eq : fs.entry (src ++ names) = some node.entry := by simp [FileSystem.entry, here]
  cases kind : node.entry with
  | dir =>
      rw [kind] at entry_eq
      simp only [executeSyncTask, taskFor, kind, decide_true, ↓reduceIte]
      apply (site.trees.overlay.syncDirectory_sat sound rfl le unraced
        entry_eq start drift _).weaken
      rintro ok w' ⟨rfl, made⟩
      refine ⟨rfl, fun entry there => ?_⟩
      rw [entry_eq] at there
      cases there
      exact made
  | file content =>
      rw [kind] at entry_eq
      obtain ⟨bound, enough⟩ := small content kind
      simp only [executeSyncTask, taskFor, kind, reduceCtorEq, decide_false, Bool.false_eq_true,
        ↓reduceIte]
      rcases List.eq_nil_or_concat names with blank | ⟨init, name, rfl⟩
      · rw [blank, List.append_nil, site.srcIsDir] at entry_eq
        cases entry_eq
      · rw [List.concat_eq_append] at *
        have own : (site.copy entry_eq).Owned (site.share (init ++ [name])) :=
          ⟨⟨init, name, content, rfl, entry_eq, .inl rfl⟩,
            ⟨init, name, content, rfl, entry_eq, .inr rfl⟩, rfl,
            ⟨rfl, fun other member => (FileSystem.proper_below entry_eq other member).2.1⟩⟩
        apply (syncFile_overwrites sound le unraced own overwrites
          (site.ready start entry_eq drift) enough node.st_mode).weaken
        rintro ok w' ⟨rfl, f, held, image, final⟩
        refine ⟨rfl, fun entry there => ?_⟩
        have fresh : FreshImage self space _ content f := image
        rw [fresh.exact (asyncImage_eq bound)] at final
        rw [entry_eq] at there
        rw [← there]
        exact final.dest

end Site

end SyncTool
