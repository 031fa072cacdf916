import SyncTool.TreeScan

set_option autoImplicit false

namespace SyncTool

open SyncTool.Path LinuxFileUtil FileSync

namespace Path

theorem below_injective {first second : Path} (noSlash : ∀ name ∈ first, slash ∉ name)
    (noSlash' : ∀ name ∈ second, slash ∉ name) (same : below first = below second) :
    first = second := by
  have cut : components ([] ++ below first) = components [] ++ first := components_below noSlash
  rw [same, components_below noSlash'] at cut
  exact (List.append_cancel_left cut).symm

end Path

/-- The task for the node at `names` below the source. -/
def taskFor (srcDir destDir : Bytes) (names : Path) (node : Node) : SyncTask where
  srcPath := srcDir ++ below names
  destPath := destDir ++ below names
  isDirectory := decide (node.entry = .dir)
  mode := node.st_mode

/-- What a list of tasks has to do with the two trees it was made from: each task is one for
a node of the source, and a node without a task has its like at the destination. -/
structure Plan (fs : FileSystem) (srcDir destDir : Bytes) (src dest : Path)
    (tasks : List SyncTask) : Prop where
  only : ∀ task ∈ tasks, ∃ names node, names ≠ [] ∧ fs.lookup (src ++ names) = some node ∧
    task = taskFor srcDir destDir names node
  distinct : tasks.Pairwise fun task other => task.srcPath ≠ other.srcPath
  covers : ∀ names node, names ≠ [] → fs.lookup (src ++ names) = some node →
    taskFor srcDir destDir names node ∈ tasks ∨ fs.entry (dest ++ names) = some node.entry

/-- MD5 tells apart what the two trees hold at the same place. -/
def CollisionFree (md5 : Md5) (fs : FileSystem) (src dest : Path) : Prop :=
  ∀ names content other, fs.entry (src ++ names) = some (.file content) →
    fs.entry (dest ++ names) = some (.file other) → md5.digest content = md5.digest other →
      content = other

section

variable {md5 : Md5} {fs : FileSystem} {srcDir destDir : Bytes} {src dest : Path}
  {map other : MetadataMap}

/-- A pair of entries that needs no sync is a pair of equals. -/
theorem entry_eq_of_needSync {key key' : Bytes} {node node' : Node}
    (apart : ∀ content content', node.entry = .file content → node'.entry = .file content' →
      md5.digest content = md5.digest content' → content = content')
    (same : needSync (describe md5 key node) (describe md5 key' node') = false) :
    node'.entry = node.entry := by
  unfold needSync describe at same
  simp only [Node.isReg_st_mode] at same
  cases node with
  | dir size perm mtime =>
      cases node' with
      | dir size' perm' mtime' => rfl
      | file content' perm' mtime' => simp [Node.entry] at same
  | file content perm mtime =>
      cases node' with
      | dir size' perm' mtime' => simp [Node.entry] at same
      | file content' perm' mtime' =>
          have hash : md5.digest content = md5.digest content' := by
            simp only [Node.entry, ne_eq, reduceCtorEq, not_false_eq_true, decide_true,
              bne_self_eq_false, Bool.false_eq_true, ↓reduceIte] at same
            split at same
            · cases same
            · simpa using same
          rw [Node.entry, Node.entry, apart content content' rfl rfl hash]

variable (md5 srcDir destDir other) in
/-- The comparison at one entry of the source's scan. -/
theorem compareEntry_eq (names : Path) (node : Node) :
    compareEntry other srcDir destDir
        ⟨srcDir ++ below names, describe md5 (srcDir ++ below names) node⟩ =
      match other.lookup (destDir ++ below names) with
      | none => some (taskFor srcDir destDir names node)
      | some destMeta =>
          if needSync (describe md5 (srcDir ++ below names) node) destMeta then
            some (taskFor srcDir destDir names node)
          else none := by
  have mode : (describe md5 (srcDir ++ below names) node).mode = node.st_mode := rfl
  unfold compareEntry
  dsimp only
  rw [List.drop_left, mode, Node.isDir_st_mode]
  rfl

theorem compareEntry_task {entry : (_ : Bytes) × FileMetadata} {task : SyncTask}
    (given : compareEntry other srcDir destDir entry = some task) :
    task = ⟨entry.1, destDir ++ entry.1.drop srcDir.length,
      S_ISDIR entry.2.mode, entry.2.mode⟩ := by
  unfold compareEntry at given
  dsimp only at given
  split at given
  · exact (Option.some.inj given).symm
  · split at given
    · exact (Option.some.inj given).symm
    · cases given

theorem compareEntry_srcPath {entry : (_ : Bytes) × FileMetadata} {task : SyncTask}
    (given : compareEntry other srcDir destDir entry = some task) : task.srcPath = entry.1 :=
  (compareEntry_task given) ▸ rfl

/-- The comparison has at most one task for a path. -/
theorem compareMetadata_distinct {self : FileSync} :
    (compareMetadata self map other srcDir destDir).Pairwise fun task task' =>
      task.srcPath ≠ task'.srcPath := by
  have keys : (self.order.arrange map.entries).Pairwise fun entry entry' => entry.1 ≠ entry'.1 :=
    (self.order.perm _).symm.pairwise map.nodupKeys.pairwise_ne fun different => different.symm
  apply List.Pairwise.filterMap _ _ keys
  intro entry entry' different task given task' given'
  rw [compareEntry_srcPath given, compareEntry_srcPath given']
  exact different

theorem noSlash_of_lookup {p names : Path} {node : Node}
    (here : fs.lookup (p ++ names) = some node) : ∀ name ∈ names, slash ∉ name := by
  intro name member
  have exist : fs.entry (p ++ names) ≠ none := by simp [FileSystem.entry, here]
  exact (FileSystem.entry_proper exist name (by simp [member])).2.1

/-- An entry of a scan describes the node at the names of its key. -/
theorem Scanned.names (scan : Scanned md5 fs srcDir src map) {names : Path}
    (noSlash : ∀ name ∈ names, slash ∉ name) {entry : FileMetadata}
    (found : map.lookup (srcDir ++ below names) = some entry) :
    ∃ node, fs.lookup (src ++ names) = some node ∧
      entry = describe md5 (srcDir ++ below names) node := by
  obtain ⟨names', node, -, key, here, described⟩ := scan.sound _ _ found
  have same := below_injective noSlash (noSlash_of_lookup here) (List.append_cancel_left key)
  subst same
  exact ⟨node, here, described⟩

/-- The tasks that the comparison of two scans gives. -/
theorem compareMetadata_plan {self : FileSync} (scan : Scanned self.md5 fs srcDir src map)
    (scan' : Scanned self.md5 fs destDir dest other)
    (collisionFree : CollisionFree self.md5 fs src dest) :
    Plan fs srcDir destDir src dest (compareMetadata self map other srcDir destDir) where
  only task member := by
    obtain ⟨⟨key, entry⟩, listed, given⟩ := List.mem_filterMap.mp member
    have found := AList.mem_lookup_iff.mpr ((self.order.perm _).mem_iff.mp listed)
    obtain ⟨names, node, nonempty, rfl, here, rfl⟩ := scan.sound _ _ found
    refine ⟨names, node, nonempty, here, ?_⟩
    rw [compareEntry_eq self.md5] at given
    split at given
    · exact (Option.some.inj given).symm
    · split at given
      · exact (Option.some.inj given).symm
      · cases given
  distinct := compareMetadata_distinct
  covers names node nonempty here := by
    have present : srcDir ++ below names ∈ map := by
      obtain ⟨name, rest, rfl⟩ := List.exists_cons_of_ne_nil nonempty
      exact scan.complete name rest (by simp [FileSystem.entry, here])
    obtain ⟨entry, found⟩ := Option.isSome_iff_exists.mp (AList.lookup_isSome.mpr present)
    have noSlash := noSlash_of_lookup here
    obtain ⟨node', here', rfl⟩ := scan.names noSlash found
    obtain rfl : node = node' := Option.some.inj (here.symm.trans here')
    have listed := (self.order.perm _).mem_iff.mpr (AList.mem_lookup_iff.mp found)
    have compared := compareEntry_eq self.md5 srcDir destDir other names node
    cases old : other.lookup (destDir ++ below names) with
    | none =>
        rw [old] at compared
        exact .inl (List.mem_filterMap.mpr ⟨_, listed, compared⟩)
    | some destMeta =>
        rw [old] at compared
        by_cases different : needSync (describe self.md5 (srcDir ++ below names) node) destMeta
        · simp only [different, ↓reduceIte] at compared
          exact .inl (List.mem_filterMap.mpr ⟨_, listed, compared⟩)
        · right
          obtain ⟨node', there, rfl⟩ := scan'.names noSlash old
          have entries : fs.entry (src ++ names) = some node.entry := by
            simp [FileSystem.entry, here]
          have entries' : fs.entry (dest ++ names) = some node'.entry := by
            simp [FileSystem.entry, there]
          rw [entries', entry_eq_of_needSync ?_ (by simpa using different)]
          intro content content' file file'
          rw [file] at entries
          rw [file'] at entries'
          exact collisionFree names content content' entries entries'

/-- The detection of changes, while nothing moves: it only looks, and what it returns is a plan. -/
theorem detectChanges_sat {self : FileSync} {policy : Policy} {spins : Prop} {space : Nat → Prop}
    {I : Interference World} {w : World}
    (sound : ∀ op choice w, policy op choice w → Policy.reliable space op choice w)
    (still : ∀ w w', I.rely w w' → w' = w) (srcFound : w.fs.resolve srcDir = some src)
    (srcIsDir : w.fs.entry src = some .dir)
    (destFound : w.fs.resolve destDir = some dest ∧ w.fs.entry dest = some .dir ∨
      w.fs.stat destDir = none ∧ w.fs.entry dest = none)
    (collisionFree : CollisionFree self.md5 w.fs src dest) {fuel : Nat}
    (affords : Affords spins w.fs src fuel fuel) (affords' : Affords spins w.fs dest fuel fuel) :
    Program.Sat (handler policy spins) I (detectChanges self fuel srcDir destDir)
      (fun tasks w' => Plan w.fs srcDir destDir src dest tasks ∧ w' = w) w := by
  rw [detectChanges]
  apply Program.Sat.bind
  apply (collectMetadata_sat (Policy.scanning_of_reliable sound) still srcFound srcIsDir
    affords).weaken
  rintro map w₁ ⟨scan, rfl⟩
  apply Program.Sat.bind
  rcases destFound with ⟨found, isDir⟩ | ⟨unresolved, missing⟩
  · apply (collectMetadata_sat (Policy.scanning_of_reliable sound) still found isDir
      affords').weaken
    rintro other w₂ ⟨scan', rfl⟩ w₃ drift
    exact ⟨compareMetadata_plan scan scan' collisionFree, still _ _ drift⟩
  · have positive : spins ∨ 0 < fuel := affords.depth.imp_right fun shallow => by
      have := shallow [] (by simp [srcIsDir])
      omega
    apply (collectMetadata_missing still (readdir_missing unresolved) positive).weaken
    rintro other w₂ ⟨rfl, rfl⟩ w₃ drift
    exact ⟨compareMetadata_plan scan (scanned_missing missing) collisionFree, still _ _ drift⟩

end

end SyncTool
