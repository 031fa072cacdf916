import SyncTool.SyncFile
import SyncTool.TreePlan

set_option autoImplicit false

namespace SyncTool

open SyncTool.Path LinuxFileUtil FileSync

namespace Path

/-- What leads to a place is on the way there, or leads to where the way starts. -/
theorem prefix_of_foldl_enter {names : List Name} {start p : Path}
    (before : p <+: names.foldl enter start) : p <+: start ∨ p ∈ names.scanl enter start := by
  induction names generalizing start with
  | nil => exact .inl before
  | cons name names ih =>
      rw [List.scanl_cons]
      rcases ih before with first | later
      · by_cases same : p = enter start name
        · right
          rw [same]
          exact List.mem_cons_of_mem _ (List.mem_of_mem_head? (by simp))
        · left
          unfold enter at first same
          split at first
          · exact first
          · split at first
            · exact first.trans (List.dropLast_prefix start)
            · next notBlank notUp =>
                rw [if_neg notBlank, if_neg notUp] at same
                exact (List.prefix_concat_iff.mp first).resolve_left same
      · exact .inr (List.mem_cons_of_mem _ later)

end Path

/-- A source tree and a place for its copy. What is missing on the way to the destination can
be made; the trees lie apart and agree on what is a directory. -/
structure Trees (fs : FileSystem) (srcDir destDir : Bytes) (src dest : Path) : Prop where
  srcFound : fs.resolve srcDir = some src
  srcIsDir : fs.entry src = some .dir
  destNonempty : destDir ≠ []
  destPlace : place fs.cwd destDir = dest
  destProper : ∀ name ∈ dest, ProperName name
  home : fs.entry (origin fs.cwd destDir) = some .dir
  way : ∀ p ∈ trail fs.cwd destDir, fs.entry p = some .dir ∨ fs.entry p = none ∧ p <+: dest
  apart : ¬ src <+: dest ∧ ¬ dest <+: src
  kinds : ∀ names, names ≠ [] → ∀ entry entry', fs.entry (src ++ names) = some entry →
    fs.entry (dest ++ names) = some entry' → (entry = .dir ↔ entry' = .dir)

/-- Where any task may make a directory: on the way to the destination, and wherever the
source has one. -/
def growth (fs : FileSystem) (src dest : Path) : Set Path :=
  {p | (∀ name ∈ p, ProperName name) ∧
    (p <+: dest ∨ ∃ names, p = dest ++ names ∧ fs.entry (src ++ names) = some .dir)}

theorem growth_proper {fs : FileSystem} {src dest p : Path} (member : p ∈ growth fs src dest) :
    ∀ name ∈ p, ProperName name :=
  member.1

/-- The same where the trees may lie one in the other. -/
structure Overlay (fs : FileSystem) (srcDir destDir : Bytes) (src dest : Path) : Prop where
  srcFound : fs.resolve srcDir = some src
  srcIsDir : fs.entry src = some .dir
  destNonempty : destDir ≠ []
  destPlace : place fs.cwd destDir = dest
  destProper : ∀ name ∈ dest, ProperName name
  home : fs.entry (origin fs.cwd destDir) = some .dir
  way : ∀ p ∈ trail fs.cwd destDir, fs.entry p = some .dir ∨ fs.entry p = none ∧ p <+: dest
  kinds : ∀ names, names ≠ [] → ∀ entry entry', fs.entry (src ++ names) = some entry →
    fs.entry (dest ++ names) = some entry' → (entry = .dir ↔ entry' = .dir)

/-- A name with a suffix is another name, wherever it is. -/
theorem ne_beside {p q init : Path} {name suffix : Name} (nonempty : suffix ≠ []) :
    p ++ (init ++ [name]) ≠ q ++ (init ++ [name ++ suffix]) := by
  intro same
  rw [← List.append_assoc, ← List.append_assoc] at same
  have last := List.singleton_inj.mp (List.append_inj' same rfl).2
  have length := congrArg List.length last
  have positive := List.length_pos_iff.mpr nonempty
  rw [List.length_append] at length
  omega

namespace Overlay

variable {fs : FileSystem} {srcDir destDir : Bytes} {src dest : Path}
  (overlay : Overlay fs srcDir destDir src dest)

include overlay

/-- A place below the destination is grown only where the source has a directory. -/
theorem dest_mem_growth {names : Path} (member : dest ++ names ∈ growth fs src dest) :
    fs.entry (src ++ names) = some .dir := by
  obtain ⟨-, before | ⟨names', same, isDir⟩⟩ := member
  · have short := before.length_le
    rw [List.length_append] at short
    have blank : names = [] := List.eq_nil_of_length_eq_zero (by omega)
    rw [blank, List.append_nil]
    exact overlay.srcIsDir
  · rw [List.append_cancel_left same]
    exact isDir

/-- Where directories may be made, there are no files. -/
theorem growth_notFile {p : Path} (member : p ∈ growth fs src dest) :
    fs.entry p = none ∨ fs.entry p = some .dir := by
  obtain ⟨-, before | ⟨names, rfl, isDir⟩⟩ := member
  · have here : (components destDir).foldl enter (origin fs.cwd destDir) = dest := overlay.destPlace
    rw [← here] at before
    rcases prefix_of_foldl_enter before with ⟨rest, whole⟩ | onWay
    · right
      by_cases last : rest = []
      · rw [last, List.append_nil] at whole
        rw [whole]
        exact overlay.home
      · apply FileSystem.entry_of_append last
        rw [whole, overlay.home]
        simp
    · rcases overlay.way p onWay with isDir | ⟨missing, -⟩
      · exact .inr isDir
      · exact .inl missing
  · by_cases first : names = []
    · rw [first, List.append_nil]
      have onTrail := place_mem_trail fs.cwd destDir
      rw [overlay.destPlace] at onTrail
      rcases overlay.way dest onTrail with isDir | ⟨missing, -⟩
      · exact .inr isDir
      · exact .inl missing
    · cases there : fs.entry (dest ++ names) with
      | none => exact .inl rfl
      | some entry =>
          right
          rw [(overlay.kinds names first _ _ isDir there).mp rfl]

/-- A place beside a file of the copy can hold a file. -/
theorem beside_proper {init : Path} {name : Name} {entry : Entry}
    (here : fs.entry (src ++ (init ++ [name])) = some entry) {suffix : Name}
    (noSlash : slash ∉ suffix) (noNul : 0 ∉ suffix) (long : 2 < suffix.length) :
    ∀ other ∈ dest ++ (init ++ [name ++ suffix]), ProperName other := by
  have proper := FileSystem.proper_below here
  intro other member
  rw [List.mem_append, List.mem_append, List.mem_singleton] at member
  rcases member with above | inside | rfl
  · exact overlay.destProper other above
  · exact proper other (by simp [inside])
  · exact properName_append (proper name (by simp)) noSlash noNul long

/-- The copy of one file of the source. -/
def copy (different : src ≠ dest) {init : Path} {name : Name} {content : Bytes}
    (file : fs.entry (src ++ (init ++ [name])) = some (.file content)) : Copy where
  srcPath := srcDir ++ below (init ++ [name])
  destPath := destDir ++ below (init ++ [name])
  src := src ++ (init ++ [name])
  dest := dest ++ (init ++ [name])
  record := dest ++ (init ++ [name ++ progressSuffix])
  backup := dest ++ (init ++ [name ++ bakSuffix])
  srcDest same := different (List.append_cancel_right same)
  srcRecord := ne_beside (by decide)
  destRecord := by simp [progressSuffix]
  backupOther :=
    ⟨(ne_beside (by decide)).symm, by simp [bakSuffix], by simp [bakSuffix, progressSuffix]⟩
  destProper other member := by
    rcases List.mem_append.mp member with above | inside
    · exact overlay.destProper other above
    · exact FileSystem.proper_below file other inside
  recordProper := overlay.beside_proper file (by decide) (by decide) (by decide)
  backupProper := overlay.beside_proper file (by decide) (by decide) (by decide)

/-- Every place on the way to a directory of the copy is a directory or can be made one. -/
theorem way_open {names : Path} (isDir : fs.entry (src ++ names) = some .dir) {p : Path}
    (member : p ∈ (components destDir ++ names).scanl enter (origin fs.cwd destDir)) :
    fs.entry p = some .dir ∨ p ∈ growth fs src dest ∧ fs.entry p = none := by
  have proper := FileSystem.proper_below isDir
  rw [List.scanl_append, List.mem_append] at member
  rcases member with above | inside
  · rcases overlay.way p above with isDir | ⟨missing, before⟩
    · exact .inl isDir
    · refine .inr ⟨⟨fun name inside => ?_, .inl before⟩, missing⟩
      exact overlay.destProper name (before.subset inside)
  · have here : (components destDir).foldl enter (origin fs.cwd destDir) = dest := overlay.destPlace
    rw [here] at inside
    obtain ⟨front, before, rfl⟩ := mem_scanl_enter proper (List.mem_of_mem_tail inside)
    obtain ⟨rest, rfl⟩ := before
    have frontDir : fs.entry (src ++ front) = some .dir := by
      by_cases whole : rest = []
      · simpa [whole] using isDir
      · have exist : fs.entry (src ++ front ++ rest) ≠ none := by simp [isDir]
        exact FileSystem.entry_of_append whole exist
    have grown : dest ++ front ∈ growth fs src dest := by
      refine ⟨fun name member => ?_, .inr ⟨front, rfl, frontDir⟩⟩
      rcases List.mem_append.mp member with above | inside
      · exact overlay.destProper name above
      · exact proper name (by simp [inside])
    cases there : fs.entry (dest ++ front) with
    | none => exact .inr ⟨grown, rfl⟩
    | some entry =>
        left
        by_cases first : front = []
        · have onTrail := place_mem_trail fs.cwd destDir
          rw [overlay.destPlace] at onTrail
          rcases overlay.way dest onTrail with isDir | ⟨missing, -⟩
          · rw [← there, first, List.append_nil, isDir]
          · rw [first, List.append_nil, missing] at there
            cases there
        · rw [(overlay.kinds front first _ _ frontDir there).mp rfl]

/-- The path string of a node of the source names it. -/
theorem src_found {names : Path} {entry : Entry} (here : fs.entry (src ++ names) = some entry) :
    fs.resolve (srcDir ++ below names) = some (src ++ names) := by
  apply FileSystem.resolve_below overlay.srcFound (FileSystem.proper_below here)
  intro k inside
  have whole : src ++ names = src ++ names.take k ++ names.drop k := by simp
  have more : names.drop k ≠ [] := by simpa using inside
  rw [whole] at here
  exact FileSystem.entry_of_append more (Option.ne_none_iff_exists'.mpr ⟨_, here⟩)

theorem origin_below (cwd : Path) (names : Path) :
    origin cwd (destDir ++ below names) = origin cwd destDir :=
  origin_append cwd overlay.destNonempty _

/-- The destination directory is there under its path string, or missing altogether. -/
theorem dest_found : fs.resolve destDir = some dest ∧ fs.entry dest = some .dir ∨
    fs.stat destDir = none ∧ fs.entry dest = none := by
  have onTrail : dest ∈ trail fs.cwd destDir := overlay.destPlace ▸ place_mem_trail fs.cwd destDir
  rcases overlay.way dest onTrail with isDir | ⟨missing, -⟩
  · left
    have dirs : ∀ p ∈ trail fs.cwd destDir, fs.entry p = some .dir := by
      intro p member
      rcases overlay.way p member with here | ⟨missing, rest, whole⟩
      · exact here
      · by_cases last : rest = []
        · rw [last, List.append_nil] at whole
          rw [whole, isDir]
        · have exist : fs.entry (p ++ rest) ≠ none := by simp [whole, isDir]
          exact FileSystem.entry_of_append last exist
    refine ⟨?_, isDir⟩
    rw [FileSystem.resolve, if_neg overlay.destNonempty, FileSystem.walk_of_scanl dirs]
    exact congrArg some overlay.destPlace
  · right
    refine ⟨?_, missing⟩
    by_contra exist
    obtain ⟨p, found, occupied⟩ := FileSystem.stat_ne_none.mp exist
    rw [FileSystem.resolve_eq_place found, overlay.destPlace] at occupied
    exact occupied missing

variable {e : Estate} {w₀ w : World}

omit overlay in
/-- What the places to be grown are before a task's turn. -/
theorem open_of_way (grows : e.grows = growth fs src dest) (start : w₀.fs = fs)
    (drift : e.Rely w₀ w) {p : Path}
    (here : fs.entry p = some .dir ∨ p ∈ growth fs src dest ∧ fs.entry p = none) : e.Open w p := by
  have before : e.Open w₀ p := by
    rw [Estate.Open, start, grows]
    exact here
  exact before.rely drift

/-- Before its turn, the task of a file finds its source and the way to its destination. -/
theorem approach (different : src ≠ dest) {init : Path} {name : Name} {content : Bytes}
    (grows : e.grows = growth fs src dest) (start : w₀.fs = fs)
    (file : fs.entry (src ++ (init ++ [name])) = some (.file content)) (drift : e.Rely w₀ w)
    (source : src ++ (init ++ [name]) ∈ e.reads) :
    Approach (overlay.copy different file) e content w := by
  have kept : FileSystem.DirsKept fs w.fs := start ▸ drift.dirs
  have proper := FileSystem.proper_below file
  have initProper : ∀ other ∈ init, ProperName other := fun other member =>
    proper other (by simp [member])
  have cwd : w.fs.cwd = fs.cwd := kept.1
  have initDir : fs.entry (src ++ init) = some .dir := by
    have parent := FileSystem.entry_dropLast (Option.ne_none_iff_exists'.mpr ⟨_, file⟩)
    rwa [← List.append_assoc, List.dropLast_concat] at parent
  have from_ : origin w.fs.cwd (overlay.copy different file).destPath = origin fs.cwd destDir := by
    rw [cwd]
    exact overlay.origin_below _ _
  have reached : (components destDir ++ init).foldl enter
      (origin w.fs.cwd (overlay.copy different file).destPath) = dest ++ init := by
    have here : (components destDir).foldl enter (origin fs.cwd destDir) = dest := overlay.destPlace
    rw [from_, List.foldl_append, here, foldl_enter_of_proper initProper]
  exact {
    srcFound := kept.resolve (overlay.src_found file)
    source := (drift.reads _ source).trans (start ▸ file)
    home := by
      rw [from_]
      exact kept.2 _ overlay.home
    way := by
      refine ⟨components destDir ++ init, name, ?_, proper name (by simp), ?_, ?_, ?_, ?_⟩
      · have noSlash : ∀ other ∈ init ++ [name], slash ∉ other := fun other member =>
          (proper other member).2.1
        exact (components_below noSlash).trans (List.append_assoc _ _ _).symm
      · rw [reached, List.append_assoc]
        rfl
      · rw [reached, List.append_assoc]
        rfl
      · rw [reached, List.append_assoc]
        rfl
      · intro p member
        rw [from_] at member
        exact open_of_way grows start drift (overlay.way_open initDir member) }

/-- Where the source has a file, the destination has a file or nothing. -/
theorem entry_dest {init : Path} {name : Name} {content : Bytes}
    (file : fs.entry (src ++ (init ++ [name])) = some (.file content)) :
    fs.entry (dest ++ (init ++ [name])) = (fs.contentAt (dest ++ (init ++ [name]))).map .file := by
  apply FileSystem.entry_of_notDir
  intro isDir
  have impossible := (overlay.kinds _ (by simp) _ _ file isDir).mpr rfl
  cases impossible

/-- It finds everything as it was planned, if its places have been left alone. -/
theorem ready (different : src ≠ dest) {init : Path} {name : Name} {content : Bytes}
    {t : Option Bytes}
    (grows : e.grows = growth fs src dest) (start : w₀.fs = fs)
    (file : fs.entry (src ++ (init ++ [name])) = some (.file content)) (drift : e.Rely w₀ w)
    (source : src ++ (init ++ [name]) ∈ e.reads) (own : dest ++ (init ++ [name]) ∈ e.writes)
    (ownRecord : dest ++ (init ++ [name ++ progressSuffix]) ∈ e.writes)
    (record : fs.entry (dest ++ (init ++ [name ++ progressSuffix])) = t.map .file) :
    Ready (overlay.copy different file) e content
      (fs.contentAt (dest ++ (init ++ [name]))) t w := by
  refine ⟨overlay.approach different grows start file drift source,
    (drift.writes _ own).trans ?_, (drift.writes _ ownRecord).trans ?_⟩
  · rw [start]
    exact overlay.entry_dest file
  · rw [start]
    exact record

variable {self : FileSync} {policy : Policy} {spins : Prop} {space : Nat → Prop}
  {I : Interference World}

theorem syncDirectory_sat (sound : ∀ op choice w, policy op choice w →
      Policy.reliable space op choice w) {names : Path} (grows : e.grows = growth fs src dest)
    (le : I.Le e.interference) (unraced : Unraced policy I)
    (isDir : fs.entry (src ++ names) = some .dir) (start : w₀.fs = fs) (drift : e.Rely w₀ w)
    (mode : UInt32) :
    Program.Sat (handler policy spins) I (syncDirectory (destDir ++ below names) mode)
      (fun ok w' => ok = true ∧ w'.fs.entry (dest ++ names) = some .dir) w := by
  have kept : FileSystem.DirsKept fs w.fs := start ▸ drift.dirs
  have proper := FileSystem.proper_below isDir
  have cwd : w.fs.cwd = fs.cwd := kept.1
  have from_ : origin w.fs.cwd (destDir ++ below names) = origin fs.cwd destDir := by
    rw [cwd]
    exact overlay.origin_below _ _
  have noSlash : ∀ name ∈ names, slash ∉ name := fun name member => (proper name member).2.1
  have there : place w.fs.cwd (destDir ++ below names) = dest ++ names := by
    rw [cwd, place_below _ overlay.destNonempty proper, overlay.destPlace]
  rw [syncDirectory]
  apply Program.Sat.bind
  apply (createDirectory_sat sound le unraced (by simp [overlay.destNonempty]) ?_ ?_ _).weaken
  · rintro made w₁ ⟨rfl, made, found, drift₁⟩
    rw [there] at made found
    simp only [↓reduceIte, setFileMode]
    refine Program.sat_op.mpr fun w₂ drift₂ choice allowed => ?_
    have rely₂ := (le.1 _ _ drift₂).dirs
    have changed := run_chmod_true (sound _ _ _ allowed).1 (rely₂.resolve found)
      (by simp [rely₂.2 _ made]) mode
    have same := @run_chmod_same w₂ choice (destDir ++ below names) mode
    refine ⟨le.2 _ _ (Estate.guar_of_same same), fun w₃ drift₃ => ⟨changed, ?_⟩⟩
    exact (le.1 _ _ drift₃).dirs.2 _ (same.dirsKept.2 _ (rely₂.2 _ made))
  · rw [from_]
    exact kept.2 _ overlay.home
  · intro p member
    rw [trail, from_, components_below noSlash] at member
    exact open_of_way grows start drift (overlay.way_open isDir member)

end Overlay

namespace Trees

variable {fs : FileSystem} {srcDir destDir : Bytes} {src dest : Path}
  (trees : Trees fs srcDir destDir src dest)

include trees

theorem overlay : Overlay fs srcDir destDir src dest where
  srcFound := trees.srcFound
  srcIsDir := trees.srcIsDir
  destNonempty := trees.destNonempty
  destPlace := trees.destPlace
  destProper := trees.destProper
  home := trees.home
  way := trees.way
  kinds := trees.kinds

theorem src_ne_dest (names names' : Path) : src ++ names ≠ dest ++ names' := by
  intro same
  rcases List.append_eq_append_iff.mp same with ⟨more, rfl, -⟩ | ⟨more, rfl, -⟩
  · exact trees.apart.1 (List.prefix_append _ _)
  · exact trees.apart.2 (List.prefix_append _ _)

theorem src_notMem_growth (names : Path) : src ++ names ∉ growth fs src dest := by
  rintro ⟨-, before | ⟨names', same, -⟩⟩
  · exact trees.apart.1 ((List.prefix_append src names).trans before)
  · exact trees.src_ne_dest names names' same

theorem different : src ≠ dest := fun same => trees.apart.1 (same ▸ List.prefix_rfl)

/-- The copy of one file of the source. -/
def copy {init : Path} {name : Name} {content : Bytes}
    (file : fs.entry (src ++ (init ++ [name])) = some (.file content)) : Copy where
  srcPath := srcDir ++ below (init ++ [name])
  destPath := destDir ++ below (init ++ [name])
  src := src ++ (init ++ [name])
  dest := dest ++ (init ++ [name])
  record := dest ++ (init ++ [name ++ progressSuffix])
  backup := dest ++ (init ++ [name ++ bakSuffix])
  srcDest := trees.src_ne_dest _ _
  srcRecord := trees.src_ne_dest _ _
  destRecord := by simp [progressSuffix]
  backupOther :=
    ⟨(trees.src_ne_dest _ _).symm, by simp [bakSuffix], by simp [bakSuffix, progressSuffix]⟩
  destProper other member := by
    rcases List.mem_append.mp member with above | inside
    · exact trees.destProper other above
    · exact FileSystem.proper_below file other inside
  recordProper := trees.overlay.beside_proper file (by decide) (by decide) (by decide)
  backupProper := trees.overlay.beside_proper file (by decide) (by decide) (by decide)

end Trees

end SyncTool
