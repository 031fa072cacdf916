import SyncTool.FileSyncChanges
import SyncTool.MachineEffects

set_option autoImplicit false

namespace SyncTool

open SyncTool.Path LinuxFileUtil

theorem mode_kind (kind : UInt32) (inside : kind &&& S_IFMT = kind) (perm : UInt32) :
    (kind ||| (perm &&& 0o7777)) &&& S_IFMT = kind := by
  have apart : (0o7777 : UInt32) &&& S_IFMT = 0 := by decide
  have distrib : (kind ||| (perm &&& 0o7777)) &&& S_IFMT =
      (kind &&& S_IFMT) ||| (perm &&& 0o7777 &&& S_IFMT) :=
    UInt32.toBitVec_inj.mp BitVec.and_or_distrib_right
  rw [distrib, UInt32.and_assoc, apart, inside, UInt32.and_zero, UInt32.or_zero]

namespace Node

@[simp] theorem isReg_st_mode (node : Node) :
    S_ISREG node.st_mode = decide (node.entry ≠ .dir) := by
  cases node with
  | file content perm mtime => simp [S_ISREG, st_mode, entry, mode_kind S_IFREG (by decide)]
  | dir size perm mtime =>
      simp only [S_ISREG, st_mode, entry, mode_kind S_IFDIR (by decide), ne_eq,
        not_true_eq_false, decide_false]
      decide

@[simp] theorem isDir_st_mode (node : Node) :
    S_ISDIR node.st_mode = decide (node.entry = .dir) := by
  cases node with
  | file content perm mtime =>
      simp only [S_ISDIR, st_mode, entry, mode_kind S_IFREG (by decide), reduceCtorEq,
        decide_false]
      decide
  | dir size perm mtime => simp [S_ISDIR, st_mode, entry, mode_kind S_IFDIR (by decide)]

end Node

namespace FileSystem

theorem mem_children {fs : FileSystem} {p : Path} {name : Name} :
    name ∈ fs.children p ↔ fs.entry (p ++ [name]) ≠ none := by
  simp only [children, List.mem_filterMap]
  constructor
  · rintro ⟨q, member, given⟩
    split at given
    · rename_i split
      have whole : q = p ++ [name] := by
        rw [← split.2]
        exact (List.dropLast_append_getLast? name given).symm
      rw [← whole]
      exact entry_ne_none_of_mem member
    · cases given
  · intro exist
    exact ⟨p ++ [name], mem_keys_of_entry exist, by simp⟩

theorem exists_bound_of_list {α : Type} (size : α → Nat) (list : List α) :
    ∃ bound, ∀ a ∈ list, size a < bound := by
  induction list with
  | nil => exact ⟨0, by simp⟩
  | cons a list ih =>
      obtain ⟨bound, all⟩ := ih
      refine ⟨bound + size a + 1, fun a' member => ?_⟩
      rcases List.mem_cons.mp member with rfl | member
      · omega
      · have := all a' member
        omega

/-- Paths and files of a file system are of bounded length. -/
theorem exists_bound (fs : FileSystem) : ∃ bound,
    (∀ p, fs.entry p ≠ none → p.length < bound) ∧
      ∀ p content, fs.entry p = some (.file content) → content.length < bound := by
  obtain ⟨bound, all⟩ := exists_bound_of_list
    (fun entry : (_ : Path) × Node => entry.1.length + entry.2.st_size) fs.nodes.entries
  refine ⟨bound, fun p exist => ?_, fun p content file => ?_⟩
  · obtain ⟨node, found⟩ : ∃ node, fs.lookup p = some node := by
      rw [← Option.ne_none_iff_exists']
      intro missing
      exact exist (by simp [FileSystem.entry, missing])
    have := all _ (AList.mem_lookup_iff.mp found)
    simp only at this
    omega
  · obtain ⟨node, found, kind⟩ := Option.map_eq_some_iff.mp file
    have := all _ (AList.mem_lookup_iff.mp found)
    cases node with
    | dir size perm mtime => cases kind
    | file content' perm mtime =>
        cases kind
        simp only [Node.st_size] at this
        omega

end FileSystem

/-- The calls that change nothing. -/
def Op.looks : Op → Prop
  | .stat _ | .ctime _ | .readdir _ | .openIn _ | .get _ _ _ | .connect => True
  | _ => False

theorem run_looks {op : Op} (looks : op.looks) (choice : Choice) (w : World) :
    (op.run choice w).2 = w := by
  cases op with
  | stat path => rfl
  | ctime path => rfl
  | readdir path => rfl
  | openIn path => rfl
  | get path pos count => rfl
  | connect => rfl
  | _ => exact looks.elim

/-- No call that only looks fails. -/
def Policy.Scanning (policy : Policy) : Prop :=
  ∀ op choice w, op.looks → policy op choice w → choice.fault = .none

theorem Policy.scanning_of_reliable {policy : Policy} {space : Nat → Prop}
    (sound : ∀ op choice w, policy op choice w → reliable space op choice w) : policy.Scanning := by
  intro op choice w looks allowed
  have both := sound op choice w allowed
  cases op with
  | stat path => exact both.1
  | ctime path => exact both.1
  | readdir path => exact both.1
  | openIn path => exact both.1
  | get path pos count => exact both.1
  | connect => exact both.1
  | _ => exact looks.elim

section

variable {policy : Policy} {spins : Prop} {I : Interference World} {w : World} {α : Type}

/-- A call that changes nothing, while the environment rests. -/
theorem Program.sat_look (still : ∀ w w', I.rely w w' → w' = w) {op : Op}
    {answer : Choice → World → Res op} {next : Res op → Prog α} {Q : α → World → Prop}
    (reads : ∀ choice w, op.run choice w = (answer choice w, w))
    (holds : ∀ choice, policy op choice w →
      Program.Sat (handler policy spins) I (next (answer choice w)) Q w) :
    Program.Sat (handler policy spins) I (.call op next) Q w := by
  refine Program.sat_read reads fun w' drift choice allowed => ?_
  obtain rfl := still _ _ drift
  exact holds choice allowed

variable {self : FileSync} {md5 : Md5} {path content : Bytes}

theorem updateBlocks_sat (scanning : policy.Scanning) (still : ∀ w w', I.rely w w' → w' = w)
    (read : w.fs.read path = some content) {fuel pos : Nat} (ctx : md5.Ctx)
    (inside : pos ≤ content.length) (enough : spins ∨ content.length < pos + fuel * 4096) :
    Program.Sat (handler policy spins) I (updateBlocks md5 path fuel pos ctx)
      (fun ctx' w' => ctx' = md5.MD5_Update ctx (content.drop pos) ∧ w' = w) w := by
  induction fuel generalizing pos ctx with
  | zero =>
      rcases enough with spins | enough
      · exact spins
      · omega
  | succ fuel ih =>
      simp only [updateBlocks, Program.ask_bind]
      refine Program.sat_look still (fun _ _ => rfl) fun choice allowed => ?_
      have quiet := scanning (.get path pos 4096) _ _ trivial allowed
      simp only [quiet, read, Option.getD_some, ↓reduceIte]
      have length := World.length_slice content pos 4096
      by_cases full : (World.slice content pos 4096).length = 4096
      · rw [if_pos full]
        have more := World.slice_append_drop content pos 4096
        rw [← more, ← md5.update_append]
        apply ih
        · omega
        · exact enough.imp_right fun bound => by omega
      · have short : (World.slice content pos 4096).length < 4096 := by omega
        have rest := World.slice_eq_drop short
        rw [if_neg full, rest]
        by_cases some : 0 < (content.drop pos).length
        · rw [if_pos some]
          intro w' drift
          exact ⟨rfl, still _ _ drift⟩
        · rw [if_neg some]
          have blank : content.drop pos = [] := List.eq_nil_of_length_eq_zero (by omega)
          intro w' drift
          rw [blank, md5.update_nil]
          exact ⟨rfl, still _ _ drift⟩

theorem calculateMD5_sat (scanning : policy.Scanning) (still : ∀ w w', I.rely w w' → w' = w)
    (read : w.fs.read path = some content) {fuel : Nat}
    (enough : spins ∨ content.length < fuel * 4096) :
    Program.Sat (handler policy spins) I (calculateMD5 md5 fuel path)
      (fun hash w' => hash = md5.digest content ∧ w' = w) w := by
  have exist : (w.fs.stat path).isSome = true := FileSystem.exists_of_read read
  simp only [calculateMD5, Program.ask_bind]
  refine Program.sat_look still (fun _ _ => rfl) fun choice allowed => ?_
  simp only [scanning (.openIn path) _ _ trivial allowed, exist, decide_true, Bool.and_self,
    ↓reduceIte]
  apply Program.Sat.bind
  apply (updateBlocks_sat scanning still read _ (Nat.zero_le _) (by simpa using enough)).weaken
  rintro ctx w' ⟨rfl, rfl⟩ w'' drift
  exact ⟨by rw [List.drop_zero, Md5.digest], still _ _ drift⟩

/-- What the scan records of a node. -/
def describe (md5 : Md5) (path : Bytes) (node : Node) : FileMetadata where
  path := path
  size := node.st_size
  mtime := node.st_mtime
  mode := node.st_mode
  md5 := match node with
    | .file content _ _ => md5.digest content
    | .dir _ _ _ => []

/-- Every entry describes a node below the directory. -/
def Describes (md5 : Md5) (fs : FileSystem) (directory : Bytes) (p : Path) (map : MetadataMap) :
    Prop :=
  ∀ key entry, map.lookup key = some entry → ∃ names node, names ≠ [] ∧
    key = directory ++ below names ∧ fs.lookup (p ++ names) = some node ∧
      entry = describe md5 key node

/-- Everything below one name of the directory has an entry. -/
def Covers (fs : FileSystem) (directory : Bytes) (p : Path) (map : MetadataMap) (name : Name) :
    Prop :=
  ∀ names, fs.entry (p ++ name :: names) ≠ none → directory ++ below (name :: names) ∈ map

/-- The map of a directory: its entries describe exactly what is below it. -/
structure Scanned (md5 : Md5) (fs : FileSystem) (directory : Bytes) (p : Path)
    (map : MetadataMap) : Prop where
  sound : Describes md5 fs directory p map
  complete : ∀ name, Covers fs directory p map name

/-- The files of a tree are small enough for the fuel, and it is not nested too deep. -/
structure Affords (spins : Prop) (fs : FileSystem) (p : Path) (fuel depth : Nat) : Prop where
  blocks : spins ∨ ∀ names content, fs.entry (p ++ names) = some (.file content) →
    content.length < fuel * 4096
  depth : spins ∨ ∀ names, fs.entry (p ++ names) ≠ none → names.length < depth

theorem Affords.child {fs : FileSystem} {p : Path} {name : Name} {fuel depth : Nat}
    (affords : Affords spins fs p fuel (depth + 1)) :
    Affords spins fs (p ++ [name]) fuel depth where
  blocks := affords.blocks.imp_right fun small names content file =>
    small (name :: names) content (by simpa using file)
  depth := affords.depth.imp_right fun shallow names exist => by
    have := shallow (name :: names) (by simpa using exist)
    simpa using this

theorem describes_empty {fs : FileSystem} {directory : Bytes} {p : Path} :
    Describes md5 fs directory p ∅ := by
  intro key entry found
  simp at found

section

variable {fs : FileSystem} {directory : Bytes} {p : Path} {map sub : MetadataMap} {name : Name}
  {node : Node}

theorem Describes.insert (sofar : Describes md5 fs directory p map)
    (here : fs.lookup (p ++ [name]) = some node) :
    Describes md5 fs directory p (map.insert (directory ++ slash :: name)
      (describe md5 (directory ++ slash :: name) node)) := by
  intro key entry found
  by_cases same : key = directory ++ slash :: name
  · subst same
    rw [AList.lookup_insert] at found
    exact ⟨[name], node, by simp, by simp, here, (Option.some.inj found).symm⟩
  · rw [AList.lookup_insert_ne same] at found
    exact sofar key entry found

theorem Describes.union (sofar : Describes md5 fs directory p map)
    (below_ : Describes md5 fs (directory ++ slash :: name) (p ++ [name]) sub) :
    Describes md5 fs directory p (map ∪ sub) := by
  intro key entry found
  rcases AList.lookup_union_eq_some.mp found with old | ⟨-, new⟩
  · exact sofar key entry old
  · obtain ⟨names, node, -, whole, here, same⟩ := below_ key entry new
    exact ⟨name :: names, node, by simp, by simpa using whole, by simpa using here, same⟩

theorem Covers.mono {map' : MetadataMap} (covers : Covers fs directory p map name)
    (more : ∀ key, key ∈ map → key ∈ map') : Covers fs directory p map' name :=
  fun names exist => more _ (covers names exist)

/-- A file has only its own entry. -/
theorem covers_file (file : fs.entry (p ++ [name]) ≠ some .dir)
    (own : directory ++ slash :: name ∈ map) : Covers fs directory p map name := by
  intro names exist
  by_cases last : names = []
  · subst last
    simpa using own
  · refine absurd (FileSystem.entry_of_append last ?_) file
    simpa using exist

/-- A directory has its own entry and those of its own scan. -/
theorem covers_dir (scanned : Scanned md5 fs (directory ++ slash :: name) (p ++ [name]) sub)
    (own : directory ++ slash :: name ∈ map) : Covers fs directory p (map ∪ sub) name := by
  intro names exist
  rw [AList.mem_union]
  cases names with
  | nil => exact .inl (by simpa using own)
  | cons next names =>
      right
      have below_ := scanned.complete next names (by simpa using exist)
      simpa using below_

end

variable {directory : Bytes} {p : Path}

/-- The loop over the names of one directory. -/
theorem collectEach_sat (scanning : policy.Scanning) (still : ∀ w w', I.rely w w' → w' = w)
    (found : w.fs.resolve directory = some p) (isDir : w.fs.entry p = some .dir)
    {recurse : Bytes → Prog MetadataMap} {fuel : Nat}
    (blocks : spins ∨ ∀ names content, w.fs.entry (p ++ names) = some (.file content) →
      content.length < fuel * 4096)
    (recurses : ∀ name, w.fs.entry (p ++ [name]) = some .dir →
      w.fs.resolve (directory ++ slash :: name) = some (p ++ [name]) →
      Program.Sat (handler policy spins) I (recurse (directory ++ slash :: name))
        (fun sub w' => Scanned self.md5 w.fs (directory ++ slash :: name) (p ++ [name]) sub ∧
          w' = w) w)
    {names : List Name} (present : ∀ name ∈ names, w.fs.entry (p ++ [name]) ≠ none)
    {map : MetadataMap} (sofar : Describes self.md5 w.fs directory p map) :
    Program.Sat (handler policy spins) I
      (FileSync.collectEach self fuel recurse
        (names.map fun name => directory ++ slash :: name) map)
      (fun map' w' => (Describes self.md5 w.fs directory p map' ∧
        ∀ name, name ∈ names ∨ Covers w.fs directory p map name →
          Covers w.fs directory p map' name) ∧ w' = w) w := by
  induction names generalizing map with
  | nil =>
      intro w' drift
      refine ⟨⟨sofar, fun name old => ?_⟩, still _ _ drift⟩
      exact old.resolve_left (by simp)
  | cons name names ih =>
      have exist := present name (by simp)
      have later : ∀ other ∈ names, w.fs.entry (p ++ [other]) ≠ none := fun other member =>
        present other (by simp [member])
      have proper : ProperName name := FileSystem.entry_proper exist name (by simp)
      have here : w.fs.resolve (directory ++ slash :: name) = some (p ++ [name]) := by
        rw [FileSystem.resolve_slash found isDir proper.2.1, enter_of_proper proper]
      obtain ⟨node, node_eq⟩ : ∃ node, w.fs.lookup (p ++ [name]) = some node := by
        rw [← Option.ne_none_iff_exists']
        intro missing
        exact exist (by simp [FileSystem.entry, missing])
      have entry_eq : w.fs.entry (p ++ [name]) = some node.entry := by
        simp [FileSystem.entry, node_eq]
      have stat : w.fs.stat (directory ++ slash :: name) = some node :=
        FileSystem.stat_eq_some.mpr ⟨_, here, node_eq⟩
      -- what is left to do once the entry of `name` is known
      have rest : ∀ map' : MetadataMap, Describes self.md5 w.fs directory p map' →
          Covers w.fs directory p map' name →
          (∀ other, Covers w.fs directory p map other → Covers w.fs directory p map' other) →
          Program.Sat (handler policy spins) I
            (FileSync.collectEach self fuel recurse
              (names.map fun name => directory ++ slash :: name) map')
            (fun map' w' => (Describes self.md5 w.fs directory p map' ∧
              ∀ other, other ∈ name :: names ∨ Covers w.fs directory p map other →
                Covers w.fs directory p map' other) ∧ w' = w) w := by
        intro map' sofar' covered kept
        apply (ih later sofar').weaken
        rintro map'' w' ⟨⟨sofar'', all⟩, same⟩
        refine ⟨⟨sofar'', fun other which => all other ?_⟩, same⟩
        rcases which with member | old
        · rcases List.mem_cons.mp member with rfl | member
          · exact .inr covered
          · exact .inl member
        · exact .inr (kept other old)
      rw [List.map_cons]
      simp only [FileSync.collectEach, getFileStat, Program.ask_bind]
      refine Program.sat_look still (fun _ _ => rfl) fun choice _ => ?_
      rw [stat]
      simp only [Node.isReg_st_mode, Node.isDir_st_mode, decide_eq_true_eq]
      have own : directory ++ slash :: name ∈ map.insert (directory ++ slash :: name)
          (describe self.md5 (directory ++ slash :: name) node) :=
            AList.mem_insert _ |>.mpr (.inl rfl)
      have described : Describes _ _ _ _ (map.insert (directory ++ slash :: name) _) :=
        sofar.insert node_eq
      have older : ∀ key, key ∈ map → key ∈ map.insert (directory ++ slash :: name)
          (describe self.md5 (directory ++ slash :: name) node) := fun key member =>
        (AList.mem_insert _).mpr (.inr member)
      cases node with
      | file content perm mtime =>
          have read : w.fs.read (directory ++ slash :: name) = some content :=
            FileSystem.read_eq_some.mpr ⟨_, here, entry_eq⟩
          simp only [Node.entry, ne_eq, reduceCtorEq, not_false_eq_true, ↓reduceIte]
          apply Program.Sat.bind
          apply (calculateMD5_sat scanning still read (blocks.imp_right fun small =>
            small [name] content entry_eq)).weaken
          rintro hash w' ⟨rfl, rfl⟩
          exact rest _ described (covers_file (by simp [entry_eq, Node.entry]) own)
            fun other old => old.mono older
      | dir size perm mtime =>
          simp only [Node.entry, ne_eq, not_true_eq_false, ↓reduceIte, Program.pure_eq,
            Program.done_bind]
          apply Program.Sat.bind
          apply (recurses name entry_eq here).weaken
          rintro sub w' ⟨scanned, rfl⟩
          exact rest _ (described.union scanned.sound) (covers_dir scanned own)
            fun other old => old.mono fun key member =>
              AList.mem_union.mpr (.inl (older key member))

/-- The scan of a directory that is there, while nothing moves. -/
theorem collectMetadata_sat (scanning : policy.Scanning) (still : ∀ w w', I.rely w w' → w' = w)
    (found : w.fs.resolve directory = some p) (isDir : w.fs.entry p = some .dir) {fuel depth : Nat}
    (affords : Affords spins w.fs p fuel depth) :
    Program.Sat (handler policy spins) I (FileSync.collectMetadata self fuel depth directory)
      (fun map w' => Scanned self.md5 w.fs directory p map ∧ w' = w) w := by
  induction depth generalizing directory p with
  | zero =>
      rcases affords.depth with spins | shallow
      · exact spins
      · have := shallow [] (by simp [isDir])
        omega
  | succ depth ih =>
      simp only [FileSync.collectMetadata, listDirectory, Program.ask_bind, Program.call_bind,
        Program.pure_eq, Program.done_bind]
      refine Program.sat_look still (fun _ _ => rfl) fun choice _ => ?_
      have names : w.fs.readdir directory = w.fs.children p := by
        simp [FileSystem.readdir, found, isDir]
      rw [names]
      apply (collectEach_sat scanning still found isDir affords.blocks
        (fun name entry here => ih here entry affords.child)
        (fun name member => FileSystem.mem_children.mp member) describes_empty).weaken
      rintro map w' ⟨⟨described, covered⟩, same⟩
      refine ⟨⟨described, fun name names exist => ?_⟩, same⟩
      have child : name ∈ w.fs.children p := by
        rw [FileSystem.mem_children]
        by_cases last : names = []
        · simpa [last] using exist
        · rw [FileSystem.entry_of_append last (by simpa using exist)]
          simp
      exact covered name (.inl child) names exist

/-- The scan of a directory in which there is nothing. -/
theorem collectMetadata_missing (still : ∀ w w', I.rely w w' → w' = w)
    (blank : w.fs.readdir directory = []) {fuel depth : Nat} (positive : spins ∨ 0 < depth) :
    Program.Sat (handler policy spins) I (FileSync.collectMetadata self fuel depth directory)
      (fun map w' => map = ∅ ∧ w' = w) w := by
  cases depth with
  | zero => exact positive.resolve_right (Nat.lt_irrefl 0)
  | succ depth =>
      simp only [FileSync.collectMetadata, listDirectory, Program.ask_bind, Program.call_bind,
        Program.pure_eq, Program.done_bind]
      refine Program.sat_look still (fun _ _ => rfl) fun choice _ => ?_
      rw [blank]
      intro w' drift
      exact ⟨rfl, still _ _ drift⟩

theorem readdir_missing {fs : FileSystem} (missing : fs.stat directory = none) :
    fs.readdir directory = [] := by
  unfold FileSystem.readdir
  split
  · rename_i p found
    rw [if_neg]
    intro isDir
    exact FileSystem.stat_ne_none.mpr ⟨p, found, by simp [isDir]⟩ missing
  · rfl

theorem scanned_missing {fs : FileSystem} (missing : fs.entry p = none) :
    Scanned md5 fs directory p ∅ where
  sound := describes_empty
  complete name names exist := by
    rw [FileSystem.entry_of_append (by simp) exist] at missing
    cases missing

end

end SyncTool
