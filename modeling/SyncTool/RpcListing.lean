import Mathlib.Data.List.TakeWhile
import SyncTool.ProgramRuns
import SyncTool.RpcServer
import SyncTool.SyncFileOutcome
import SyncTool.TreeCompare

set_option autoImplicit false

namespace SyncTool

open SyncTool.Path LinuxFileUtil FileSync

namespace FileSystem

theorem children_nodup (fs : FileSystem) (p : Path) : (fs.children p).Nodup := by
  unfold children
  apply List.Nodup.filterMap _ fs.nodes.keys_nodup
  intro q q' name told told'
  split at told
  · next child =>
    split at told'
    · next child' =>
      have split : p ++ [name] = q := by
        rw [← child.2]
        exact List.dropLast_append_getLast? name told
      have split' : p ++ [name] = q' := by
        rw [← child'.2]
        exact List.dropLast_append_getLast? name told'
      exact split.symm.trans split'
    · cases told'
  · cases told

/-- A string that names in a directory can be put behind. -/
structure Opens (fs : FileSystem) (stem : Bytes) (p : Path) : Prop where
  found : fs.resolve stem = some p
  isDir : fs.entry p = some .dir
  names : ∀ name, ProperName name → fs.resolve (stem ++ name) = some (p ++ [name])

variable {fs : FileSystem} {stem path : Bytes} {p : Path} {name : Name}

theorem opens_slash (found : fs.resolve path = some p) (isDir : fs.entry p = some .dir) :
    fs.Opens (path ++ [slash]) p where
  found := by
    rw [resolve_slash found isDir (by simp)]
    simp [enter]
  isDir := isDir
  names name proper := by
    rw [List.append_assoc, List.singleton_append, resolve_slash found isDir proper.2.1,
      enter_of_proper proper]

/-- A slash that is there already serves as well. -/
theorem opens_of_slash (found : fs.resolve (path ++ [slash]) = some p)
    (isDir : fs.entry p = some .dir) :
    fs.Opens (path ++ [slash]) p := by
  by_cases root : path = []
  · subst root
    rw [List.nil_append] at found ⊢
    have top : p = [] := by
      have named := resolve_root_slash fs (show slash ∉ ([] : Name) by simp)
      rw [found] at named
      simpa [enter] using named
    subst top
    refine ⟨found, isDir, fun name proper => ?_⟩
    rw [List.singleton_append, resolve_root_slash fs proper.2.1, enter_of_proper proper]
  · apply opens_slash _ isDir
    unfold resolve at found ⊢
    rw [if_neg (by simp), origin_append _ root, components_append_slash, walk_append] at found
    rw [if_neg root]
    obtain ⟨here, walked, last⟩ := Option.bind_eq_some_iff.mp found
    have stays : here = p := by
      have only : components [] = [[]] := rfl
      rw [only, walk] at last
      split at last
      · simpa [walk, enter] using last
      · cases last
    rw [walked, stays]

theorem Opens.child (opens : fs.Opens stem p) (proper : ProperName name)
    (isDir : fs.entry (p ++ [name]) = some .dir) :
    fs.Opens (stem ++ name ++ [slash]) (p ++ [name]) :=
  opens_slash (opens.names name proper) isDir

theorem Opens.cString (opens : fs.Opens stem p) : SyncTool.cString stem = stem :=
  cString_of_resolve opens.found (by simp [opens.isDir])

theorem Opens.readdir (opens : fs.Opens stem p) : fs.readdir stem = fs.children p := by
  simp [FileSystem.readdir, opens.found, opens.isDir]

end FileSystem

namespace RpcServer

/-- The base directory gets a slash at its end, unless it is empty. -/
def setBaseDirectory (server : RpcServer) (baseDir : Bytes) : RpcServer :=
  { server with baseDirectory := withSlash baseDir }

theorem withSlash_cases (path : Bytes) :
    (path = [] ∧ withSlash path = []) ∨ (path ≠ [] ∧ withSlash path = path ++ [slash]) ∨
      ∃ front, path = front ++ [slash] ∧ withSlash path = path := by
  unfold withSlash
  by_cases nonempty : path = []
  · simp [nonempty]
  · right
    by_cases ends : path.getLast? = some slash
    · right
      refine ⟨path.dropLast, ?_, by simp [ends]⟩
      exact (List.dropLast_append_getLast? slash ends).symm
    · left
      simp [nonempty, ends]

theorem withSlash_eq_append (path : Bytes) : ∃ tail, withSlash path = path ++ tail := by
  unfold withSlash
  split
  · exact ⟨[slash], rfl⟩
  · exact ⟨[], (List.append_nil path).symm⟩

/-- A name goes behind, and a slash behind it. -/
theorem withSlash_append (front : Bytes) {name : Name} (proper : ProperName name) :
    withSlash (withSlash front ++ name) = withSlash front ++ name ++ [slash] := by
  apply if_pos
  refine ⟨by simp [proper.1], ?_⟩
  rw [List.getLast?_append_of_ne_nil _ proper.1]
  intro last
  exact proper.2.1 (List.mem_of_getLast? last)

/-- Where the listing of a directory opens it. -/
theorem opens_withSlash {fs : FileSystem} {baseDir directory : Bytes} {p : Path}
    (found : fs.resolve (withSlash baseDir ++ directory) = some p)
    (isDir : fs.entry p = some .dir) :
    fs.Opens (withSlash baseDir ++ withSlash directory) p := by
  rcases withSlash_cases directory with ⟨rfl, same⟩ | ⟨-, same⟩ | ⟨front, rfl, same⟩
  · rw [same]
    rw [List.append_nil] at found ⊢
    rcases withSlash_cases baseDir with ⟨rfl, none_⟩ | ⟨-, ends⟩ | ⟨front, rfl, ends⟩
    · rw [none_] at found
      cases found
    · rw [ends] at found ⊢
      exact FileSystem.opens_of_slash found isDir
    · rw [ends] at found ⊢
      exact FileSystem.opens_of_slash found isDir
  · rw [same, ← List.append_assoc]
    exact FileSystem.opens_slash found isDir
  · rw [same]
    rw [← List.append_assoc] at found ⊢
    exact FileSystem.opens_of_slash found isDir

/-- The entry of what is at some names below a directory. -/
def entryAt (fullRel : Bytes) (name : Name) (names : Path) (node : Node) : FileEntry where
  name := (name :: names).getLast (List.cons_ne_nil name names)
  path := fullRel ++ name ++ below names
  is_directory := S_ISDIR node.st_mode
  size := node.st_size
  mtime := node.st_mtime
  mode := node.st_mode

/-- A response with more entries, and counted as many. -/
def extend (response : ListFilesResponse) (files : List FileEntry) : ListFilesResponse :=
  { response with
    files := response.files ++ files
    total_count := toInt32 (response.files ++ files).length }

/-- The count is that of the entries, as far as it fits. -/
def Counted (response : ListFilesResponse) : Prop :=
  response.total_count = toInt32 response.files.length

/-- One entry for everything below the chosen names of a directory; only for the names themselves,
if the listing is not recursive. -/
structure Listed (fs : FileSystem) (recursive : Bool) (fullRel : Bytes) (p : Path)
    (chosen : Name → Prop) (files : List FileEntry) : Prop where
  members : ∀ entry, entry ∈ files ↔ ∃ name names node, chosen name ∧
    (recursive = true ∨ names = []) ∧
    fs.lookup (p ++ name :: names) = some node ∧ entry = entryAt fullRel name names node
  once : (files.map FileEntry.path).Nodup

section

variable {fs : FileSystem} {recursive : Bool} {fullRel : Bytes} {p : Path}
  {name : Name} {names : List Name}
  {node : Node} {files more : List FileEntry} {response : ListFilesResponse}

theorem counted_extend : Counted (extend response files) := rfl

theorem extend_extend : extend (extend response files) more = extend response (files ++ more) := by
  simp [extend, List.append_assoc]

theorem extend_nil (counted : Counted response) : extend response [] = response := by
  unfold extend
  rw [List.append_nil, ← counted]

/-- An entry is added and counted. -/
theorem extend_singleton (counted : Counted response) (entry : FileEntry) :
    { response with
      files := response.files ++ [entry]
      total_count := toInt32 (response.total_count + 1) } = extend response [entry] := by
  unfold extend
  rw [counted, toInt32_succ]
  simp

theorem entryAt_child (child : Name) (rest : Path) :
    entryAt (fullRel ++ name ++ [slash]) child rest node =
      entryAt fullRel name (child :: rest) node := by
  simp [entryAt, List.append_assoc]

/-- Entries of different names have different paths. -/
theorem entryAt_path_inj {name' : Name} {rest rest' : Path} {node' : Node}
    (noSlash : ∀ other ∈ name :: rest, slash ∉ other)
    (noSlash' : ∀ other ∈ name' :: rest', slash ∉ other)
    (same : (entryAt fullRel name rest node).path = (entryAt fullRel name' rest' node').path) :
    name = name' ∧ rest = rest' := by
  have tails : name ++ below rest = name' ++ below rest' := by
    simp only [entryAt, List.append_assoc] at same
    exact List.append_cancel_left same
  have whole : below (name :: rest) = below (name' :: rest') := by
    rw [below_cons, below_cons, List.cons_append, List.cons_append, tails]
  simpa using below_injective noSlash noSlash' whole

theorem listed_nil : Listed fs recursive fullRel p (· ∈ ([] : List Name)) [] where
  members entry := by simp
  once := List.nodup_nil

/-- The entries of one name and of what is below it, in front of those of the others. -/
theorem Listed.cons (here : fs.lookup (p ++ [name]) = some node) (other : name ∉ names)
    (inner : recursive = true → node.entry = .dir →
      Listed fs recursive (fullRel ++ name ++ [slash]) (p ++ [name]) (fun _ => True) files)
    (leaf : ¬ (recursive = true ∧ node.entry = .dir) → files = [])
    (rest : Listed fs recursive fullRel p (· ∈ names) more) :
    Listed fs recursive fullRel p (· ∈ name :: names)
      (entryAt fullRel name [] node :: files ++ more) := by
  -- what is below the name
  have below_ : ∀ entry, entry ∈ files ↔ ∃ child names' node', recursive = true ∧
      fs.lookup (p ++ name :: child :: names') = some node' ∧
      entry = entryAt fullRel name (child :: names') node' := by
    intro entry
    by_cases goes : recursive = true ∧ node.entry = .dir
    · rw [(inner goes.1 goes.2).members]
      constructor
      · rintro ⟨child, names', node', -, -, found, rfl⟩
        exact ⟨child, names', node', goes.1, by simpa using found, entryAt_child child names'⟩
      · rintro ⟨child, names', node', recursive_, found, rfl⟩
        exact ⟨child, names', node', trivial, .inl recursive_, by simpa using found,
          (entryAt_child child names').symm⟩
    · rw [leaf goes]
      constructor
      · intro impossible
        cases impossible
      · rintro ⟨child, names', node', recursive_, found, -⟩
        have exist : fs.entry (p ++ [name] ++ child :: names') ≠ none := by
          simp [FileSystem.entry, found]
        have isDir := FileSystem.entry_of_append (List.cons_ne_nil child names') exist
        simp [FileSystem.entry, here] at isDir
        exact absurd ⟨recursive_, isDir⟩ goes
  constructor
  · intro entry
    rw [List.cons_append, List.mem_cons, List.mem_append, below_, rest.members]
    constructor
    · rintro (rfl | ⟨child, names', node', recursive_, found, rfl⟩ | ⟨name', names', node', chosen,
        deep, found, rfl⟩)
      · exact ⟨name, [], node, List.mem_cons_self, .inr rfl, here, rfl⟩
      · exact ⟨name, child :: names', node', List.mem_cons_self, .inl recursive_, found, rfl⟩
      · exact ⟨name', names', node', List.mem_cons_of_mem _ chosen, deep, found, rfl⟩
    · rintro ⟨name', names', node', chosen, deep, found, rfl⟩
      rcases List.mem_cons.mp chosen with rfl | chosen
      · cases names' with
        | nil =>
            obtain rfl := Option.some.inj (here.symm.trans found)
            exact .inl rfl
        | cons child names' =>
            right
            left
            exact ⟨child, names', node', deep.resolve_right (by simp), found, rfl⟩
      · exact .inr (.inr ⟨name', names', node', chosen, deep, found, rfl⟩)
  · have apart : ∀ entry ∈ more, ∀ rest' : Path, ∀ node',
        (∀ other ∈ name :: rest', slash ∉ other) →
          (entryAt fullRel name rest' node').path ≠ entry.path := by
      intro entry member rest' node' noSlash same
      obtain ⟨name', names', node'', chosen, -, found, rfl⟩ := (rest.members entry).mp member
      have equal := (entryAt_path_inj noSlash (noSlash_of_lookup found) same).1
      exact other (equal ▸ chosen)
    rw [List.cons_append, List.map_cons, List.map_append, List.nodup_cons, List.nodup_append]
    refine ⟨?_, ?_, rest.once, ?_⟩
    · rw [List.mem_append]
      rintro (inside | outside)
      · obtain ⟨entry, member, same⟩ := List.mem_map.mp inside
        obtain ⟨child, names', node', -, found, rfl⟩ := (below_ entry).mp member
        have equal := (entryAt_path_inj (noSlash_of_lookup found) (noSlash_of_lookup here) same).2
        cases equal
      · obtain ⟨entry, member, same⟩ := List.mem_map.mp outside
        exact apart entry member [] node (noSlash_of_lookup here) same.symm
    · by_cases goes : recursive = true ∧ node.entry = .dir
      · exact (inner goes.1 goes.2).once
      · rw [leaf goes]
        exact List.nodup_nil
    · intro path inside path' outside same
      obtain ⟨entry, member, rfl⟩ := List.mem_map.mp inside
      obtain ⟨entry', member', rfl⟩ := List.mem_map.mp outside
      obtain ⟨child, names', node', -, found, rfl⟩ := (below_ entry).mp member
      exact apart entry' member' (child :: names') node' (noSlash_of_lookup found) same

end

section

variable {policy : Policy} {spins : Prop} {I : Interference World} {w : World} {server : RpcServer}
  {recursive : Bool} {fullRel : Bytes} {p : Path} {fuel depth : Nat} {response : ListFilesResponse}

/-- The loop over the names of one directory. -/
theorem listEach_sat (still : ∀ w w', I.rely w w' → w' = w)
    (opens : w.fs.Opens (server.baseDirectory ++ fullRel) p)
    {recurse : Bytes → ListFilesResponse → Prog ListFilesResponse}
    (recurses : recursive = true → ∀ name, w.fs.entry (p ++ [name]) = some .dir → ∀ response,
      Counted response → Program.Sat (handler policy spins) I (recurse (fullRel ++ name) response)
        (fun response' w' => (∃ files,
          Listed w.fs recursive (fullRel ++ name ++ [slash]) (p ++ [name])
          (fun _ => True) files ∧ response' = extend response files) ∧ w' = w) w)
    {names : List Name} (present : ∀ name ∈ names, w.fs.entry (p ++ [name]) ≠ none)
    (once : names.Nodup) (counted : Counted response) :
    Program.Sat (handler policy spins) I (server.listEach recurse recursive fullRel names response)
      (fun response' w' => (∃ files, Listed w.fs recursive fullRel p (· ∈ names) files ∧
        response' = extend response files) ∧ w' = w) w := by
  induction names generalizing response with
  | nil =>
      intro w' drift
      exact ⟨⟨[], listed_nil, (extend_nil counted).symm⟩, still _ _ drift⟩
  | cons name names ih =>
      have exist := present name List.mem_cons_self
      have later : ∀ other ∈ names, w.fs.entry (p ++ [other]) ≠ none := fun other member =>
        present other (List.mem_cons_of_mem _ member)
      obtain ⟨different, once⟩ := List.nodup_cons.mp once
      have proper : ProperName name := FileSystem.entry_proper exist name (by simp)
      obtain ⟨node, here⟩ := Option.ne_none_iff_exists'.mp (FileSystem.entry_ne_none.mp exist)
      have stat : w.fs.stat (server.baseDirectory ++ (fullRel ++ name)) = some node := by
        rw [← List.append_assoc]
        exact FileSystem.stat_eq_some.mpr ⟨_, opens.names name proper, here⟩
      have whole : cString (server.baseDirectory ++ (fullRel ++ name)) =
          server.baseDirectory ++ (fullRel ++ name) := by
        rw [← List.append_assoc]
        exact FileSystem.cString_of_resolve (opens.names name proper) exist
      -- what is left to do once the entries of `name` are there
      have rest : ∀ files, (recursive = true → node.entry = .dir →
            Listed w.fs recursive (fullRel ++ name ++ [slash]) (p ++ [name])
              (fun _ => True) files) →
          (¬ (recursive = true ∧ node.entry = .dir) → files = []) →
          Program.Sat (handler policy spins) I
            (server.listEach recurse recursive fullRel names
              (extend response (entryAt fullRel name [] node :: files)))
            (fun response' w' => (∃ files,
              Listed w.fs recursive fullRel p (· ∈ name :: names) files ∧
              response' = extend response files) ∧ w' = w) w := by
        intro files inner leaf
        apply (ih later once counted_extend).weaken
        rintro response' w' ⟨⟨more, listed, rfl⟩, same⟩
        exact ⟨⟨_, Listed.cons here different inner leaf listed, extend_extend⟩, same⟩
      simp only [listEach, Program.ask_bind]
      refine Program.sat_look still (fun _ _ => rfl) fun choice _ => ?_
      rw [whole, stat]
      have own : entryAt fullRel name [] node = ⟨name, fullRel ++ name, decide (node.entry = .dir),
          node.st_size, node.st_mtime, node.st_mode⟩ := by
        simp [entryAt]
      simp only [extend_singleton counted, Node.isDir_st_mode]
      rw [← own]
      by_cases goes : recursive = true ∧ node.entry = .dir
      · obtain ⟨recursive_, isDir⟩ := goes
        rw [if_pos (by simp [recursive_, isDir])]
        have entry : w.fs.entry (p ++ [name]) = some .dir := by
          rw [FileSystem.entry, here, Option.map_some, isDir]
        apply Program.Sat.bind
        apply (recurses recursive_ name entry _ counted_extend).weaken
        rintro response' w' ⟨⟨files, listed, rfl⟩, rfl⟩
        rw [extend_extend]
        exact rest files (fun _ _ => listed) fun leaf => absurd ⟨recursive_, isDir⟩ leaf
      · rw [if_neg (by simpa using goes)]
        exact rest [] (fun recursive_ isDir => absurd ⟨recursive_, isDir⟩ goes) fun _ => rfl

/-- The listing of a directory: everything in it, and everything below it if it is recursive. -/
theorem listDirectory_sat (still : ∀ w w', I.rely w w' → w' = w) {relDir : Bytes}
    (opens : w.fs.Opens (server.baseDirectory ++ withSlash relDir) p)
    (affords : Affords spins w.fs p fuel depth) (counted : Counted response) :
    Program.Sat (handler policy spins) I (server.listDirectory recursive depth relDir response)
      (fun response' w' => (∃ files,
        Listed w.fs recursive (withSlash relDir) p (fun _ => True) files ∧
        response' = extend response files) ∧ w' = w) w := by
  induction depth generalizing relDir p response with
  | zero =>
      rcases affords.depth with spins | shallow
      · exact spins
      · have := shallow [] (by simp [opens.isDir])
        omega
  | succ depth ih =>
      simp only [listDirectory, Program.ask_bind]
      refine Program.sat_look still (fun _ _ => rfl) fun choice _ => ?_
      rw [opens.cString, opens.readdir]
      have recurses : recursive = true → ∀ name, w.fs.entry (p ++ [name]) = some .dir → ∀ response,
          Counted response → Program.Sat (handler policy spins) I
            (server.listDirectory recursive depth (withSlash relDir ++ name) response)
            (fun response' w' => (∃ files,
              Listed w.fs recursive (withSlash relDir ++ name ++ [slash])
              (p ++ [name]) (fun _ => True) files ∧ response' = extend response files) ∧
                w' = w) w := by
        intro _ name isDir response counted
        have exist : w.fs.entry (p ++ [name]) ≠ none := by simp [isDir]
        have proper : ProperName name := FileSystem.entry_proper exist name (by simp)
        have ends := withSlash_append relDir proper
        have below_ := opens.child proper isDir
        have found : w.fs.Opens (server.baseDirectory ++ withSlash (withSlash relDir ++ name))
            (p ++ [name]) := by
          rw [ends]
          simpa [List.append_assoc] using below_
        have inner := ih found affords.child counted
        rwa [ends] at inner
      apply (listEach_sat still opens recurses
        (fun name member => FileSystem.mem_children.mp member)
        (w.fs.children_nodup p) counted).weaken
      rintro response' w' ⟨⟨files, listed, rfl⟩, same⟩
      refine ⟨⟨files, ⟨fun entry => ?_, listed.once⟩, rfl⟩, same⟩
      rw [listed.members]
      constructor
      · rintro ⟨name, names, node, -, deep, found, rfl⟩
        exact ⟨name, names, node, trivial, deep, found, rfl⟩
      · rintro ⟨name, names, node, -, deep, found, rfl⟩
        refine ⟨name, names, node, FileSystem.mem_children.mpr ?_, deep, found, rfl⟩
        by_cases last : names = []
        · subst last
          simp [FileSystem.entry, found]
        · have exist : w.fs.entry (p ++ [name] ++ names) ≠ none := by simp [FileSystem.entry, found]
          rw [FileSystem.entry_of_append last exist]
          simp

/-- The loop over the names of a directory whose subdirectories are not entered. -/
theorem listEach_ends (still : ∀ w w', I.rely w w' → w' = w)
    {recurse : Bytes → ListFilesResponse → Prog ListFilesResponse} {names : List Name}
    (flat : recursive = false ∨ names = []) :
    Program.Sat (handler policy spins) I (server.listEach recurse recursive fullRel names response)
      (fun _ w' => w' = w) w := by
  induction names generalizing response with
  | nil => exact still w
  | cons name names ih =>
      have plain : recursive = false := flat.resolve_right (List.cons_ne_nil name names)
      subst plain
      simp only [listEach, Program.ask_bind]
      apply Program.sat_look still (fun _ _ => rfl)
      intro choice _
      cases w.fs.stat (cString (server.baseDirectory ++ (fullRel ++ name))) with
      | none => exact ih (.inl rfl)
      | some st =>
          simp only [Bool.false_and, Bool.false_eq_true, ↓reduceIte]
          exact ih (.inl rfl)

/-- A listing that enters no subdirectory. -/
theorem listDirectory_ends (still : ∀ w w', I.rely w w' → w' = w) {relDir : Bytes}
    (positive : 0 < depth) (flat : recursive = false ∨
      w.fs.readdir (cString (server.baseDirectory ++ withSlash relDir)) = []) :
    Program.Sat (handler policy spins) I (server.listDirectory recursive depth relDir response)
      (fun _ w' => w' = w) w := by
  obtain ⟨depth, rfl⟩ := Nat.exists_eq_add_of_lt positive
  simp only [listDirectory, Program.ask_bind]
  apply Program.sat_look still (fun _ _ => rfl)
  intro choice _
  exact listEach_ends still flat

/-- A zero byte in a path string hides the slash behind it, too. -/
theorem cString_withSlash {relDir : Bytes} (zero : 0 ∈ server.baseDirectory ++ relDir) :
    cString (server.baseDirectory ++ withSlash relDir) =
      cString (server.baseDirectory ++ relDir) := by
  obtain ⟨tail, same⟩ := withSlash_eq_append relDir
  rw [same, ← List.append_assoc, cString_append zero]

/-- Where a zero byte cuts the path strings of a directory and of everything in it to one and the
same, and that names a directory with something in it, a recursive listing goes round for ever. -/
theorem listDirectory_endless {σ : Type} {H : Handler Op Res σ} (spins : H.spins)
    (Inv : σ → Prop) {path relDir : Bytes} (zero : 0 ∈ server.baseDirectory ++ relDir)
    (cut : cString (server.baseDirectory ++ relDir) = path)
    (lists : ∀ s names s', Inv s → H.exec (.readdir path) s names s' → names ≠ [] ∧ Inv s')
    (looks : ∀ s st s', Inv s → H.exec (.stat path) s st s' →
      (∃ node, st = some node ∧ node.entry = .dir) ∧ Inv s') {s : σ} (now : Inv s) :
    Program.Sat H .free (server.listDirectory true depth relDir response) (fun _ _ => False) s := by
  induction depth generalizing relDir response s with
  | zero => exact spins
  | succ depth ih =>
      obtain ⟨tail, same⟩ := withSlash_eq_append relDir
      simp only [listDirectory, Program.ask_bind]
      rw [cString_withSlash zero, cut]
      intro s₁ here names s₂ told
      obtain rfl : s = s₁ := here
      refine ⟨trivial, ?_⟩
      obtain ⟨some_, now₂⟩ := lists _ _ _ now told
      obtain ⟨name, names, rfl⟩ := List.exists_cons_of_ne_nil some_
      have looked : cString (server.baseDirectory ++ (withSlash relDir ++ name)) = path := by
        rw [same, List.append_assoc, ← List.append_assoc, cString_append zero, cut]
      simp only [listEach, Program.ask_bind]
      rw [looked]
      intro s₃ here st s₄ told'
      obtain rfl : s₂ = s₃ := here
      refine ⟨trivial, ?_⟩
      obtain ⟨⟨node, rfl, isDir⟩, now₄⟩ := looks _ _ _ now₂ told'
      simp only [Node.isDir_st_mode, isDir, decide_true, Bool.and_self, ↓reduceIte]
      apply Program.Sat.bind
      apply (ih _ looked now₄).weaken
      · exact fun _ _ impossible => impossible.elim
      · rw [same, List.append_assoc, ← List.append_assoc]
        exact List.mem_append_left _ zero

theorem baseName_of_notMem {name : Name} (noSlash : slash ∉ name) : baseName name = name := by
  have all : ∀ byte ∈ name.reverse, decide (byte ≠ slash) = true := by
    intro byte member
    rw [decide_eq_true_eq]
    rintro rfl
    exact noSlash (List.mem_reverse.mp member)
  rw [baseName, List.takeWhile_eq_self_iff.mpr all, List.reverse_reverse]

theorem baseName_append_slash (front : Bytes) {name : Name} (noSlash : slash ∉ name) :
    baseName (front ++ slash :: name) = name := by
  have all : ∀ byte ∈ name.reverse, decide (byte ≠ slash) = true := by
    intro byte member
    rw [decide_eq_true_eq]
    rintro rfl
    exact noSlash (List.mem_reverse.mp member)
  rw [baseName, List.reverse_append, List.reverse_cons, List.append_assoc,
    List.takeWhile_append_of_pos all]
  simp

/-- What follows the last slash in the path of an entry is its name. -/
theorem baseName_entryAt {relDir : Bytes} {name : Name} {names : Path} {node : Node}
    (noSlash : ∀ other ∈ name :: names, slash ∉ other) :
    baseName (entryAt (withSlash relDir) name names node).path =
      (entryAt (withSlash relDir) name names node).name := by
  simp only [entryAt]
  cases names using List.reverseRecOn with
  | nil =>
      have plain := noSlash name List.mem_cons_self
      rw [below_nil, List.append_nil, List.getLast_singleton]
      rcases withSlash_cases relDir with ⟨-, same⟩ | ⟨-, same⟩ | ⟨front, rfl, same⟩
      · rw [same, List.nil_append, baseName_of_notMem plain]
      · rw [same, List.append_assoc, List.singleton_append, baseName_append_slash _ plain]
      · rw [same, List.append_assoc, List.singleton_append, baseName_append_slash _ plain]
  | append_singleton front last =>
      have plain := noSlash last (by simp)
      rw [below_append, ← List.append_assoc]
      simp only [below_cons, below_nil, List.append_nil]
      rw [baseName_append_slash _ plain]
      simp

/-- What is told of a node when it is asked for by the path of its entry. -/
theorem handleGetFileMeta_sat (scanning : policy.Scanning) (still : ∀ w w', I.rely w w' → w' = w)
    {relDir : Bytes} {name : Name} {names : Path} {node : Node}
    (opens : w.fs.Opens (server.baseDirectory ++ withSlash relDir) p)
    (here : w.fs.lookup (p ++ name :: names) = some node)
    (enough : spins ∨ ∀ content, node.entry = .file content → content.length < fuel * 4096) :
    Program.Sat (handler policy spins) I
      (server.handleGetFileMeta fuel ⟨(entryAt (withSlash relDir) name names node).path⟩)
      (fun answer w' => (∃ ctime md5,
        answer = some ⟨⟨(entryAt (withSlash relDir) name names node).name,
        (entryAt (withSlash relDir) name names node).path, node.st_size, node.st_mtime, ctime,
        node.st_mode, md5, S_ISDIR node.st_mode, true⟩, true, []⟩) ∧ w' = w) w := by
  have exist : w.fs.entry (p ++ name :: names) ≠ none := by simp [FileSystem.entry, here]
  have proper : ∀ other ∈ name :: names, ProperName other := fun other member =>
    FileSystem.entry_proper exist other (List.mem_append_right p member)
  have found :
      w.fs.resolve (server.baseDirectory ++ (entryAt (withSlash relDir) name names node).path) =
      some (p ++ name :: names) := by
    have first := opens.names name (proper name List.mem_cons_self)
    have dirs : ∀ k < names.length, w.fs.entry (p ++ [name] ++ names.take k) = some .dir := by
      intro k inside
      apply FileSystem.entry_of_append (show names.drop k ≠ [] by simpa using inside)
      simpa using exist
    have whole := FileSystem.resolve_below first
      (fun other member => proper other (List.mem_cons_of_mem _ member)) dirs
    simpa [entryAt, List.append_assoc] using whole
  have stat :
      w.fs.stat (server.baseDirectory ++ (entryAt (withSlash relDir) name names node).path) =
      some node := FileSystem.stat_eq_some.mpr ⟨_, found, here⟩
  have whole := FileSystem.cString_of_resolve found exist
  simp only [handleGetFileMeta, Program.ask_bind]
  refine Program.sat_look still (fun _ _ => rfl) fun choice _ => ?_
  rw [whole, stat]
  simp only
  refine Program.sat_look still (fun _ _ => rfl) fun choice' _ => ?_
  have named := @baseName_entryAt relDir name names node fun other member =>
    (proper other member).2.1
  simp only [named]
  cases node with
  | dir size perm mtime =>
      simp only [Node.isDir_st_mode, Node.entry, decide_true, ↓reduceIte, Program.pure_eq,
        Program.done_bind]
      intro w' drift
      exact ⟨⟨_, [], rfl⟩, still _ _ drift⟩
  | file content perm mtime =>
      simp only [Node.isDir_st_mode, Node.entry, reduceCtorEq, decide_false, Bool.false_eq_true,
        ↓reduceIte]
      have read : w.fs.read (server.baseDirectory ++
          (entryAt (withSlash relDir) name names (.file content perm mtime)).path) = some content :=
        FileSystem.read_eq_some.mpr ⟨_, found, by simp [FileSystem.entry, here, Node.entry]⟩
      rw [← whole] at read
      apply Program.Sat.bind
      apply (calculateMD5_sat scanning still read
        (enough.imp_right fun small => small content rfl)).weaken
      rintro md5 w' ⟨rfl, rfl⟩ w'' drift
      exact ⟨⟨_, _, rfl⟩, still _ _ drift⟩

end

/-- What is told of an entry, when it is asked for by its path, is what the entry says. -/
def Agrees (server : RpcServer) (fuel : Nat) (w : World) (entry : FileEntry) : Prop :=
  Program.Returns (handler (Policy.reliable fun _ => True) False).exec
    (fun answer _ => ∃ told, answer = some told ∧ told.info.exists_ = true ∧
      told.info.name = entry.name ∧ told.info.is_directory = entry.is_directory ∧
      told.info.size = entry.size ∧ told.info.mtime = entry.mtime ∧ told.info.mode = entry.mode)
    (server.handleGetFileMeta fuel ⟨entry.path⟩) w

/-- A response to a request for the directory at `p`. -/
structure Complete (server : RpcServer) (fuel : Nat) (w : World) (p : Path)
    (request : ListFilesRequest) (response : ListFilesResponse) : Prop where
  listed :
    Listed w.fs request.recursive (withSlash request.directory) p (fun _ => True) response.files
  counted : response.files.length < 2 ^ 31 → response.total_count = response.files.length
  agrees : ∀ entry ∈ response.files, Agrees server fuel w entry

/-- A directory is listed completely, each entry once, and what is told of an entry when it is asked
for by its path is what the entry says. -/
theorem handleListFiles_complete (server : RpcServer) (baseDir : Bytes) (request : ListFilesRequest)
    {w : World} {p : Path} (found : w.fs.resolve (withSlash baseDir ++ request.directory) = some p)
    (isDir : w.fs.entry p = some .dir) : ∃ enough, ∀ fuel, enough ≤ fuel →
    Program.Returns (handler (Policy.reliable fun _ => True) False).exec
      (fun out w' => w' = w ∧ ∃ response, out = some response ∧
        Complete (server.setBaseDirectory baseDir) fuel w p request response)
      ((server.setBaseDirectory baseDir).handleListFiles fuel request) w := by
  obtain ⟨enough, scannable⟩ := exists_scannable w.fs
  refine ⟨enough, fun fuel more => ?_⟩
  have scanning : (Policy.reliable fun _ => True).Scanning :=
    Policy.scanning_of_reliable fun _ _ _ allowed => allowed
  have still : ∀ s s' : World, (Interference.free : Interference World).rely s s' → s' = s :=
    fun _ _ same => Eq.symm same
  have answered : ∀ op s, ∃ answer s',
      (handler (Policy.reliable fun _ => True) False).exec op s answer s' :=
    fun op s => ⟨_, _, Policy.quietly_reliable (fun _ => True) False 0 trivial op s⟩
  have affords := (scannable fuel more _).affords p found
  have opens :
      w.fs.Opens ((server.setBaseDirectory baseDir).baseDirectory ++
        withSlash request.directory) p :=
    opens_withSlash found isDir
  obtain ⟨node, here, kind⟩ := Option.map_eq_some_iff.mp isDir
  have stat :
      w.fs.stat ((server.setBaseDirectory baseDir).baseDirectory ++ request.directory) =
        some node :=
    FileSystem.stat_eq_some.mpr ⟨p, found, here⟩
  have whole : cString ((server.setBaseDirectory baseDir).baseDirectory ++ request.directory) =
      (server.setBaseDirectory baseDir).baseDirectory ++ request.directory :=
    FileSystem.cString_of_resolve found (by simp [isDir])
  have listing : Program.Sat (handler (Policy.reliable fun _ => True) False) .free
      ((server.setBaseDirectory baseDir).handleListFiles fuel request)
      (fun out w' => (∃ files, Listed w.fs request.recursive (withSlash request.directory) p
        (fun _ => True) files ∧ out = some (extend ⟨[], request.directory, 0⟩ files)) ∧
          w' = w) w := by
    simp only [handleListFiles, Program.ask_bind]
    refine Program.sat_look still (fun _ _ => rfl) fun choice _ => ?_
    rw [whole, stat]
    simp only [Node.isDir_st_mode, kind, decide_true, ↓reduceIte]
    apply Program.Sat.bind
    have blank : Counted ⟨[], request.directory, 0⟩ := rfl
    apply (listDirectory_sat still opens affords blank).weaken
    rintro response w' ⟨⟨files, listed, rfl⟩, rfl⟩ w'' drift
    exact ⟨⟨files, listed, rfl⟩, still _ _ drift⟩
  apply (listing.weaken _).returns id answered
  rintro out w' ⟨⟨files, listed, rfl⟩, rfl⟩
  refine ⟨rfl, _, rfl, listed, fun few => ?_, fun entry member => ?_⟩
  · show toInt32 (([] : List FileEntry) ++ files).length = _
    rw [List.nil_append]
    exact toInt32_of_lt (Int.natCast_nonneg _) (by exact_mod_cast few)
  · obtain ⟨name, names, node, -, -, found, rfl⟩ := (listed.members entry).mp member
    have blocks : False ∨ ∀ content, node.entry = .file content → content.length < fuel * 4096 :=
      affords.blocks.imp_right fun small content file => small (name :: names) content (by
        rw [FileSystem.entry, found, Option.map_some, file])
    have asked : Program.Sat (handler (Policy.reliable fun _ => True) False) .free
        ((server.setBaseDirectory baseDir).handleGetFileMeta fuel
          ⟨(entryAt (withSlash request.directory) name names node).path⟩) _ _ :=
      handleGetFileMeta_sat scanning still opens found blocks
    apply (asked.weaken _).returns id answered
    rintro answer w'' ⟨⟨ctime, md5, rfl⟩, -⟩
    exact ⟨_, rfl, rfl, rfl, rfl, rfl, rfl, rfl⟩

/-- `/a`, and in it `b` of one byte. -/
def nestedFs : FileSystem :=
  (FileSystem.empty.put [[97]] (.dir 4096 0o755 0)).put [[97], [98]] (.file [65] 0o644 7)

/-- A server that is asked nothing over the connection. -/
def localServer : RpcServer :=
  ⟨plainAbi, plainMd5, ⟨fun _ => none, fun _ => none, fun _ => none, fun _ => none⟩, []⟩

/-- Besides, a directory `/a/c`, and in it `d`. -/
def deeperFs : FileSystem :=
  (nestedFs.put [[97], [99]] (.dir 4096 0o755 0)).put [[97], [99], [100]] (.file [66, 67] 0o600 8)

theorem handleListFiles_complete_deeper : ∃ enough, ∀ fuel, enough ≤ fuel →
    Program.Returns (handler (Policy.reliable fun _ => True) False).exec
      (fun out w' => w' = World.boot deeperFs ∧ ∃ response, out = some response ∧
        Complete (localServer.setBaseDirectory [47]) fuel (World.boot deeperFs) [[97]]
          ⟨[97, 47], true⟩ response)
      ((localServer.setBaseDirectory [47]).handleListFiles fuel ⟨[97, 47], true⟩)
        (World.boot deeperFs) :=
  handleListFiles_complete localServer [47] ⟨[97, 47], true⟩ (by decide +kernel) (by decide +kernel)

end RpcServer

end SyncTool
