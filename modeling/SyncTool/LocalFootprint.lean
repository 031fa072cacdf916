import SyncTool.FileView
import SyncTool.SyncManager
import SyncTool.TreeCompare
import SyncTool.RemoteScan

set_option autoImplicit false

namespace SyncTool

open SyncTool.Path LinuxFileUtil FileSync

/-- The path strings that a local sync may touch: the destination directory and the directories
on the way to it, the image of what is below the source, and the two names beside an image. -/
inductive Derived (fs : FileSystem) (srcDir destDir : Bytes) : Bytes → Prop where
  | destination : Derived fs srcDir destDir destDir
  | ancestor {path : Bytes} : path ≠ [] → path ++ [slash] <+: destDir →
      Derived fs srcDir destDir path
  | image {names : Path} : names ≠ [] → fs.entry (place fs.cwd srcDir ++ names) ≠ none →
      Derived fs srcDir destDir (destDir ++ below names)
  | record {names : Path} : names ≠ [] → fs.entry (place fs.cwd srcDir ++ names) ≠ none →
      Derived fs srcDir destDir (getProgressFilePath (destDir ++ below names))
  | backup {names : Path} : names ≠ [] → fs.entry (place fs.cwd srcDir ++ names) ≠ none →
      Derived fs srcDir destDir (destDir ++ below names ++ bakSuffix)

/-- The calls that change nothing but what is at derived names. -/
def DerivedCall (fs : FileSystem) (srcDir destDir : Bytes) (op : Op) : Prop :=
  ∀ path ∈ op.marks, Derived fs srcDir destDir path

section

variable {fs : FileSystem} {srcDir destDir path rest : Bytes} {names : Path}

/-- Where a slash stands in the string that leads down to a place. -/
theorem split_of_below {top : Bytes} (noSlash : ∀ name ∈ names, slash ∉ name)
    (split : below names = top ++ slash :: rest) :
    ∃ front back, names = front ++ back ∧ top = below front := by
  induction names generalizing top with
  | nil => simp at split
  | cons name names ih =>
      have later : ∀ other ∈ names, slash ∉ other := fun other member =>
        noSlash other (List.mem_cons_of_mem _ member)
      cases top with
      | nil => exact ⟨[], name :: names, rfl, rfl⟩
      | cons byte top =>
          rw [below_cons, List.cons_append, List.cons_append] at split
          obtain ⟨rfl, tail⟩ := List.cons.inj split
          rcases List.append_eq_append_iff.mp tail with ⟨more, rfl, deeper⟩ | ⟨more, inside, after⟩
          · obtain ⟨front, back, rfl, rfl⟩ := ih later deeper
            exact ⟨name :: front, back, rfl, by simp⟩
          · cases more with
            | nil =>
                rw [List.append_nil] at inside
                exact ⟨[name], names, rfl, by simp [inside]⟩
            | cons other more =>
                obtain ⟨rfl, -⟩ := List.cons.inj after
                exact absurd (by simp [inside]) (noSlash name List.mem_cons_self)

theorem entry_of_under (there : fs.under srcDir names ≠ none) :
    fs.entry (place fs.cwd srcDir ++ names) ≠ none := by
  obtain ⟨node, here⟩ := Option.ne_none_iff_exists'.mp there
  obtain ⟨src, found, looked⟩ := Option.bind_eq_some_iff.mp here
  rw [← FileSystem.resolve_eq_place found]
  simp [FileSystem.entry, looked]

theorem entry_of_front {top front back : Path} (here : fs.entry (top ++ (front ++ back)) ≠ none) :
    fs.entry (top ++ front) ≠ none := by
  by_cases last : back = []
  · rwa [last, List.append_nil] at here
  · rw [← List.append_assoc] at here
    simp [FileSystem.entry_of_append last here]

/-- Every directory on the way to an image is one on the way to the destination or an image. -/
theorem derived_of_split (there : names ≠ [] → fs.entry (place fs.cwd srcDir ++ names) ≠ none)
    (noSlash : ∀ name ∈ names, slash ∉ name) (nonempty : path ≠ [])
    (split : destDir ++ below names = path ++ slash :: rest) : Derived fs srcDir destDir path := by
  rcases List.append_eq_append_iff.mp split with ⟨more, rfl, below_eq⟩ | ⟨more, rfl, after⟩
  · obtain ⟨front, back, rfl, rfl⟩ := split_of_below noSlash below_eq
    by_cases first : front = []
    · rw [first, below_nil, List.append_nil]
      exact .destination
    · have deeper : front ++ back ≠ [] := by simp [first]
      exact .image first (entry_of_front (there deeper))
  · cases more with
    | nil =>
        rw [List.append_nil]
        exact .destination
    | cons byte more =>
        obtain ⟨rfl, -⟩ := List.cons.inj after
        exact .ancestor nonempty (by simp)

theorem createEach_all {ok : Op → Prop} {mode : UInt32} {paths : List Bytes}
    (looks : ∀ path, ok (.stat path))
    (makes : ∀ path ∈ paths, path ≠ [] → ok (.mkdir path mode)) :
    (createEach mode paths).All ok := by
  induction paths with
  | nil => trivial
  | cons path paths ih =>
      have rest := ih fun other member => makes other (List.mem_cons_of_mem _ member)
      simp only [createEach, ensureDirectory, Program.ask_bind, Program.call_bind, Program.all_ite,
        Program.all_call]
      refine ⟨fun _ => rest, fun nonempty => ⟨looks path, fun exist => ?_⟩⟩
      apply Program.All.bind
      · simp [makes path List.mem_cons_self nonempty]
      · intro made
        simp only [Program.all_ite, Program.pure_eq]
        exact ⟨fun _ => rest, fun _ => trivial⟩

/-- Making the directory of an image, or the destination, makes derived names only. -/
theorem createDirectory_derived
    (there : names ≠ [] → fs.entry (place fs.cwd srcDir ++ names) ≠ none)
    (noSlash : ∀ name ∈ names, slash ∉ name) (mode : UInt32) :
    (createDirectory (destDir ++ below names) mode).All (DerivedCall fs srcDir destDir) := by
  apply createEach_all
  · intro path
    simp [DerivedCall, Op.marks, Op.writes]
  · intro path member nonempty
    suffices derived : Derived fs srcDir destDir path by
      simpa [DerivedCall, Op.marks, Op.writes] using derived
    rcases List.mem_append.mp member with before | last
    · obtain ⟨more, split⟩ := mem_slashPrefixes before
      exact derived_of_split there noSlash nonempty split
    · obtain rfl := List.mem_singleton.mp last
      by_cases top : names = []
      · rw [top, below_nil, List.append_nil]
        exact .destination
      · exact .image top (there top)

end

/-- A program that runs alone and changes nothing. -/
def unmoved : Interference World := Interference.alone (fun w w' => w' = w) fun _ => rfl

/-- The keys of a scan are the path strings of what is below the directory. -/
def Found (fs : FileSystem) (srcDir : Bytes) (map : MetadataMap) : Prop :=
  ∀ key entry, map.lookup key = some entry →
    ∃ names, names ≠ [] ∧ fs.under srcDir names ≠ none ∧ key = srcDir ++ below names

section

variable {fs : FileSystem} {srcDir destDir : Bytes} {map sub : MetadataMap} {w : World} {α : Type}
  {self : FileSync} {fuel depth : Nat} {front : Path}

theorem faulty_looks {op : Op} {w' : World} {answer : Res op} (looks : op.looks)
    (ran : faulty.exec op w answer w') : w' = w := by
  rcases ran with ⟨choice, ran⟩ | ⟨-, same⟩
  · have same := run_looks looks choice w
    rwa [ran] at same
  · exact same

theorem looks_unmoved {p : Prog α} (all : p.All Op.looks) :
    Program.Sat faulty unmoved p (fun _ w' => w' = w) w := by
  apply all.sat (fun w' => w' = w) rfl _ _ trivial
  · intro w₁ w₂ same now
    exact same ▸ now
  · intro op w₁ answer w₂ looks now ran
    have same := faulty_looks looks ran
    exact ⟨same, same.trans now⟩

theorem Found.union (first : Found fs srcDir map) (second : Found fs srcDir sub) :
    Found fs srcDir (map ∪ sub) := by
  intro key entry inside
  rcases AList.lookup_union_eq_some.mp inside with old | ⟨-, new⟩
  · exact first key entry old
  · exact second key entry new

theorem Found.insert (first : Found fs srcDir map) {names : Path} (nonempty : names ≠ [])
    (there : fs.under srcDir names ≠ none) (entry : FileMetadata) :
    Found fs srcDir (map.insert (srcDir ++ below names) entry) := by
  intro key entry' inside
  by_cases same : key = srcDir ++ below names
  · exact ⟨names, nonempty, there, same⟩
  · rw [AList.lookup_insert_ne same] at inside
    exact first key entry' inside

/-- What is listed below the source is below the source. -/
theorem under_of_readdir {name : Name} (there : front ≠ [] → fs.under srcDir front ≠ none)
    (listed : name ∈ fs.readdir (srcDir ++ below front)) :
    fs.under srcDir (front ++ [name]) ≠ none := by
  unfold FileSystem.readdir at listed
  split at listed
  · next p found =>
      split at listed
      · have child := FileSystem.mem_children.mp listed
        have apart : ∀ src, fs.resolve srcDir = some src → p = src ++ front →
            fs.under srcDir (front ++ [name]) ≠ none := by
          rintro src top rfl
          rw [FileSystem.under, top, Option.bind_some, ← List.append_assoc]
          simpa [FileSystem.entry] using child
        by_cases first : front = []
        · subst first
          rw [below_nil, List.append_nil] at found
          exact apart p found (by simp)
        · obtain ⟨node, here⟩ := Option.ne_none_iff_exists'.mp (there first)
          obtain ⟨src, top, looked⟩ := Option.bind_eq_some_iff.mp here
          apply apart src top
          have whole := FileSystem.resolve_below top (proper_of_under here) ?_
          · exact Option.some.inj (found.symm.trans whole)
          · intro k inside
            apply FileSystem.entry_of_append (show front.drop k ≠ [] by simpa using inside)
            rw [List.append_assoc, List.take_append_drop]
            simp [FileSystem.entry, looked]
      · cases listed
  · cases listed

theorem collectEach_found {recurse : Bytes → Prog MetadataMap}
    (recurses : ∀ name, w.fs.under srcDir (front ++ [name]) ≠ none →
      Program.Sat faulty unmoved (recurse (srcDir ++ below (front ++ [name])))
        (fun sub w' => Found w.fs srcDir sub ∧ w' = w) w)
    {names : List Name} (there : ∀ name ∈ names, w.fs.under srcDir (front ++ [name]) ≠ none)
    (sofar : Found w.fs srcDir map) :
    Program.Sat faulty unmoved
      (collectEach self fuel recurse (names.map fun name => srcDir ++ below (front ++ [name])) map)
      (fun map' w' => Found w.fs srcDir map' ∧ w' = w) w := by
  induction names generalizing map with
  | nil => exact fun w' same => ⟨sofar, Eq.symm same⟩
  | cons name names ih =>
      have here := there name List.mem_cons_self
      have later : ∀ {map}, Found w.fs srcDir map → _ := fun {map} =>
        @ih map fun other member => there other (List.mem_cons_of_mem _ member)
      rw [List.map_cons]
      simp only [collectEach, getFileStat, Program.ask_bind, Program.sat_call]
      intro w₁ same₁ stat w₂ ran
      obtain rfl : w = w₁ := same₁
      have looks : (Op.stat (srcDir ++ below (front ++ [name]))).looks := trivial
      obtain rfl := faulty_looks looks ran
      refine ⟨rfl, ?_⟩
      cases stat with
      | none => exact later sofar
      | some node =>
          have grown := fun entry => sofar.insert (List.append_ne_nil_of_right_ne_nil front
            (List.cons_ne_nil name [])) here entry
          have rest : ∀ md5 : Bytes, Program.Sat faulty unmoved
              (if S_ISDIR node.st_mode then do
                let subMetadata ← recurse (srcDir ++ below (front ++ [name]))
                collectEach self fuel recurse
                  (names.map fun name => srcDir ++ below (front ++ [name]))
                  (map.insert (srcDir ++ below (front ++ [name]))
                    ⟨srcDir ++ below (front ++ [name]), node.st_size,
                      node.st_mtime, node.st_mode, md5⟩ ∪
                    subMetadata)
              else collectEach self fuel recurse
                (names.map fun name => srcDir ++ below (front ++ [name]))
                (map.insert (srcDir ++ below (front ++ [name]))
                  ⟨srcDir ++ below (front ++ [name]), node.st_size,
                    node.st_mtime, node.st_mode, md5⟩))
              (fun map' w' => Found w₂.fs srcDir map' ∧ w' = w₂) w₂ := by
            intro md5
            apply Program.Sat.ite
            · intro _
              apply Program.Sat.bind
              apply (recurses name here).weaken
              rintro sub w₃ ⟨found, rfl⟩
              exact later ((grown _).union found)
            · exact fun _ => later (grown _)
          dsimp only
          split
          · apply Program.Sat.bind
            apply (looks_unmoved (calculateMD5_looks fuel _ _)).weaken
            rintro md5 w₃ rfl
            exact rest md5
          · rw [Program.pure_eq, Program.done_bind]
            exact rest []

theorem collectMetadata_found (there : front ≠ [] → w.fs.under srcDir front ≠ none) :
    Program.Sat faulty unmoved (collectMetadata self fuel depth (srcDir ++ below front))
      (fun map w' => Found w.fs srcDir map ∧ w' = w) w := by
  induction depth generalizing front with
  | zero => trivial
  | succ depth ih =>
      have paths : ∀ name, srcDir ++ below front ++ slash :: name =
          srcDir ++ below (front ++ [name]) := by
        intro name
        simp [below_append]
      simp only [collectMetadata, listDirectory, Program.ask_bind, Program.call_bind,
        Program.pure_eq, Program.done_bind, Program.sat_call, paths]
      intro w₁ same₁ names w₂ ran
      obtain rfl : w = w₁ := same₁
      have listed : ∀ name ∈ names, name ∈ w.fs.readdir (srcDir ++ below front) := by
        intro name member
        rcases ran with ⟨choice, ran⟩ | ⟨missed, -⟩
        · rwa [← (Prod.mk.inj ran).1] at member
        · cases missed with
          | readdir short => exact short.subset member
      have looks : (Op.readdir (srcDir ++ below front)).looks := trivial
      obtain rfl := faulty_looks looks ran
      refine ⟨rfl, collectEach_found (fun name here => ih fun _ => here) ?_ ?_⟩
      · exact fun name member => under_of_readdir there (listed name member)
      · intro key entry inside
        simp at inside

/-- The tasks of a detection with failures are for what is below the source. -/
theorem detectChanges_found : Program.Sat faulty unmoved (detectChanges self fuel srcDir destDir)
    (fun tasks w' => (∀ task ∈ tasks, ∃ names, names ≠ [] ∧ w.fs.under srcDir names ≠ none ∧
      task.destPath = destDir ++ below names) ∧ w' = w) w := by
  have scan := @collectMetadata_found srcDir w self fuel fuel [] (fun some_ => absurd rfl some_)
  rw [below_nil, List.append_nil] at scan
  unfold detectChanges
  apply Program.Sat.bind
  apply scan.weaken
  rintro map w₁ ⟨found, rfl⟩
  apply Program.Sat.bind
  apply (looks_unmoved (collectMetadata_looks self fuel fuel destDir)).weaken
  rintro other w₂ rfl w₃ same
  refine ⟨?_, Eq.symm same⟩
  intro task member
  obtain ⟨⟨key, entry⟩, listed, given⟩ := List.mem_filterMap.mp member
  have inside := AList.mem_lookup_iff.mpr ((self.order.perm _).mem_iff.mp listed)
  obtain ⟨names, nonempty, here, rfl⟩ := found _ _ inside
  refine ⟨names, nonempty, here, ?_⟩
  rw [compareEntry_task given, List.drop_left]

end

/-- Two trees, neither in the other, with no directory on the way to the destination in the
source. They agree on what is a directory, so that `rename` only ever meets regular files. -/
structure SeparateTrees (fs : FileSystem) (srcDir destDir : Bytes) : Prop where
  nonempty : destDir ≠ []
  apart : ¬ place fs.cwd srcDir <+: place fs.cwd destDir ∧
    ¬ place fs.cwd destDir <+: place fs.cwd srcDir
  way : ∀ path, path ≠ [] → path ++ [slash] <+: destDir →
    ¬ place fs.cwd srcDir <+: place fs.cwd path
  kinds : ∀ names, names ≠ [] → ∀ entry entry',
    fs.entry (place fs.cwd srcDir ++ names) = some entry →
    fs.entry (place fs.cwd destDir ++ names) = some entry' → (entry = .dir ↔ entry' = .dir)

/-- Everything but what is at derived names looks as before. -/
structure RestKept (fs : FileSystem) (srcDir destDir : Bytes) (fs' : FileSystem) : Prop where
  cwd : fs'.cwd = fs.cwd
  others : ∀ q, (∀ path, Derived fs srcDir destDir path → place fs.cwd path ≠ q) →
    fs'.seen q = fs.seen q

section

variable {fs fs' : FileSystem} {srcDir destDir : Bytes} {w w' : World}
  {self : FileSync} {fuel : Nat}

theorem RestKept.call {op : Op} {answer : Res op} (calls : DerivedCall fs srcDir destDir op)
    (now : RestKept fs srcDir destDir w.fs) (ran : faulty.exec op w answer w') :
    RestKept fs srcDir destDir w'.fs := by
  have apart : ∀ q, (∀ path, Derived fs srcDir destDir path → place fs.cwd path ≠ q) →
      ∀ path ∈ op.marks, place w.fs.cwd path ≠ q := by
    intro q others path member
    rw [now.cwd]
    exact others path (calls path member)
  constructor
  · rcases ran with ⟨choice, ran⟩ | ⟨-, rfl⟩
    · have cwd := (run_frame op choice w).1
      rw [ran] at cwd
      exact cwd.trans now.cwd
    · exact now.cwd
  · intro q others
    exact (faulty_seen ran (apart q others)).2.trans (now.others q others)

theorem restKept_sat {α : Type} {p : Prog α} (all : p.All (DerivedCall fs srcDir destDir))
    (now : RestKept fs srcDir destDir w.fs) :
    Program.Sat faulty Interference.free p (fun _ w' => RestKept fs srcDir destDir w'.fs) w := by
  apply all.sat (fun w' : World => RestKept fs srcDir destDir w'.fs) now _ _ trivial
  · rintro w₁ w₂ rfl now
    exact now
  · exact fun op w₁ answer w₂ calls now ran => ⟨trivial, now.call calls ran⟩

/-- A task for what is below the source touches derived names only. -/
theorem executeSyncTask_derived {task : SyncTask} {names : Path} (nonempty : names ≠ [])
    (there : fs.entry (place fs.cwd srcDir ++ names) ≠ none)
    (image : task.destPath = destDir ++ below names) :
    (executeSyncTask self fuel task).All (DerivedCall fs srcDir destDir) := by
  have proper := FileSystem.entry_proper there
  have noSlash : ∀ name ∈ names, slash ∉ name := fun name member =>
    (proper name (by simp [member])).2.1
  have derived : Derived fs srcDir destDir task.destPath := image ▸ .image nonempty there
  have record : Derived fs srcDir destDir (getProgressFilePath task.destPath) :=
    image ▸ .record nonempty there
  have backup : Derived fs srcDir destDir (task.destPath ++ bakSuffix) :=
    image ▸ .backup nonempty there
  have mode : (setFileMode task.destPath task.mode).All (DerivedCall fs srcDir destDir) := by
    simp [setFileMode, DerivedCall, Op.marks, derived]
  unfold executeSyncTask
  split
  · unfold syncDirectory
    rw [image]
    apply (createDirectory_derived (fun _ => there) noSlash _).bind
    intro created
    rw [← image]
    simp only [Program.all_ite, Program.pure_eq]
    exact ⟨fun _ => mode, fun _ => trivial⟩
  · have copy : (copyOrResume self fuel task.srcPath task.destPath task.mode).All
        (DerivedCall fs srcDir destDir) := by
      apply (copyOrResume_calls fuel task.mode).mono
      intro op calls path member
      rcases calls path member with rfl | rfl
      · exact derived
      · exact record
    have conflict : (handleConflict self task.destPath).All (DerivedCall fs srcDir destDir) := by
      unfold handleConflict
      split
      · trivial
      · trivial
      · simp [DerivedCall, Op.marks, Op.writes, derived, backup]
      · trivial
    have looks : ∀ path, (fileExists path).All (DerivedCall fs srcDir destDir) := by
      intro path
      simp [fileExists, DerivedCall, Op.marks, Op.writes]
    have resolve : (resolveConflict self fuel task.srcPath task.destPath task.mode).All
        (DerivedCall fs srcDir destDir) := by
      apply (looks _).bind
      intro exist
      simp only [Program.all_ite, Program.pure_eq]
      refine ⟨fun _ => ?_, fun _ => copy⟩
      apply conflict.bind
      intro proceed
      simp only [Program.all_ite]
      exact ⟨fun _ => copy, fun _ => trivial⟩
    obtain ⟨init, name, rfl⟩ := (List.eq_nil_or_concat' names).resolve_left nonempty
    have parent : parentPath task.destPath = some (destDir ++ below init) := by
      have whole : task.destPath = (destDir ++ below init) ++ slash :: name := by
        simp [image, below_append]
      rw [whole]
      exact parentPath_append_slash (noSlash name (by simp))
    apply (looks _).bind
    intro exist
    simp only [Program.all_ite, Program.pure_eq]
    refine ⟨fun _ => trivial, fun _ => ?_⟩
    rw [parent]
    apply (createDirectory_derived (fun _ => entry_of_front there)
      (fun other member => noSlash other (by simp [member])) _).bind
    intro created
    simp only [Program.all_ite]
    exact ⟨fun _ => resolve, fun _ => trivial⟩

theorem executeAll_derived {tasks : List SyncTask} (each : ∀ task ∈ tasks, ∃ names, names ≠ [] ∧
      fs.entry (place fs.cwd srcDir ++ names) ≠ none ∧ task.destPath = destDir ++ below names) :
    (executeAll self fuel tasks).All (DerivedCall fs srcDir destDir) := by
  induction tasks with
  | nil => trivial
  | cons task tasks ih =>
      have rest := ih fun other member => each other (List.mem_cons_of_mem _ member)
      obtain ⟨names, nonempty, there, image⟩ := each task List.mem_cons_self
      apply (executeSyncTask_derived nonempty there image).bind
      intro ok
      simp only [Program.all_ite, Program.pure_eq]
      exact ⟨fun _ => rest, fun _ => trivial⟩

/-- No derived name is that of a place in the source. -/
theorem SeparateTrees.source (trees : SeparateTrees fs srcDir destDir) (names : Path) :
    ∀ path, Derived fs srcDir destDir path → place fs.cwd path ≠ place fs.cwd srcDir ++ names := by
  obtain ⟨nonempty, ⟨inside, outside⟩, way, -⟩ := trees
  -- what lies below the destination does not lie in the source
  have apart : ∀ rest, place fs.cwd destDir ++ rest ≠ place fs.cwd srcDir ++ names := by
    intro rest same
    rcases List.append_eq_append_iff.mp same with ⟨more, whole, -⟩ | ⟨more, whole, -⟩
    · exact outside ⟨more, whole.symm⟩
    · exact inside ⟨more, whole.symm⟩
  have proper : ∀ {names : Path}, fs.entry (place fs.cwd srcDir ++ names) ≠ none →
      ∀ name ∈ names, ProperName name := fun {names} there name member =>
    FileSystem.entry_proper there name (List.mem_append_right _ member)
  -- nor does what has a suffix to its name
  have beside : ∀ {names' : Path} {suffix : Bytes}, names' ≠ [] →
      fs.entry (place fs.cwd srcDir ++ names') ≠ none → slash ∉ suffix → 2 < suffix.length →
      place fs.cwd (destDir ++ below names' ++ suffix) ≠ place fs.cwd srcDir ++ names := by
    intro names' suffix some_ there noSlash long
    obtain ⟨init, name, rfl⟩ := (List.eq_nil_or_concat' names').resolve_left some_
    have ordinary := proper there name (by simp)
    have split : components (destDir ++ below (init ++ [name])) =
        components destDir ++ init ++ [name] := by
      rw [components_below fun other member => (proper there other member).2.1, List.append_assoc]
    have parts := proper there
    rw [place_append split ⟨ordinary.1, ordinary.2.2.2.1, ordinary.2.2.2.2⟩ noSlash long,
      List.foldl_append, foldl_enter_of_proper fun other member => parts other (by simp [member]),
      origin_append _ nonempty, List.append_assoc]
    exact apart _
  intro path derived
  cases derived with
  | destination =>
      have here := apart []
      rwa [List.append_nil] at here
  | ancestor some_ before =>
      intro same
      exact way path some_ before ⟨names, same.symm⟩
  | image some_ there =>
      rw [place_below _ nonempty (proper there)]
      exact apart _
  | record some_ there => exact beside some_ there (by decide) (by decide)
  | backup some_ there => exact beside some_ there (by decide) (by decide)

/-- The source looks as before. -/
theorem RestKept.source (spared : RestKept fs srcDir destDir fs')
    (trees : SeparateTrees fs srcDir destDir) (names : Path) :
    fs'.seen (place fs.cwd srcDir ++ names) = fs.seen (place fs.cwd srcDir ++ names) :=
  spared.others _ (trees.source names)

theorem entry_eq_of_seen {q : Path} (same : fs'.seen q = fs.seen q) : fs'.entry q = fs.entry q := by
  have first := congrArg (Option.map Prod.fst) same
  simpa [FileSystem.seen, FileSystem.entry, Function.comp_def] using first

/-- What is found below the source later was there from the start. -/
theorem RestKept.found (spared : RestKept fs srcDir destDir fs')
    (trees : SeparateTrees fs srcDir destDir) {names : Path}
    (here : fs'.under srcDir names ≠ none) :
    fs.entry (place fs.cwd srcDir ++ names) ≠ none := by
  have there := entry_of_under here
  rwa [spared.cwd, entry_eq_of_seen (spared.source trees names)] at there

/-- Whatever fails, the sequential sync leaves everything but derived names as it looked. -/
theorem syncLocal_restKept (trees : SeparateTrees fs srcDir destDir) :
    Program.Sat faulty Interference.free (syncLocal self fuel srcDir destDir)
      (fun _ w' => RestKept fs srcDir destDir w'.fs) (World.boot fs) := by
  have destination := @createDirectory_derived fs srcDir destDir [] (fun some_ => absurd rfl some_)
    (by simp) 0o755
  rw [below_nil, List.append_nil] at destination
  unfold syncLocal
  apply Program.Sat.bind
  apply (restKept_sat destination ⟨rfl, fun _ _ => rfl⟩).weaken
  intro created w₁ spared
  apply Program.Sat.ite
  · intro _
    apply Program.Sat.bind
    apply detectChanges_found.mono (J := Interference.free)
      ⟨fun _ _ same => same, fun _ _ _ => trivial⟩
    rintro tasks w₂ ⟨each, rfl⟩
    apply restKept_sat (executeAll_derived _) spared
    intro task member
    obtain ⟨names, nonempty, here, image⟩ := each task member
    exact ⟨names, nonempty, spared.found trees here, image⟩
  · rintro - w₂ rfl
    exact spared

/-- The tasks of what is below the source. -/
def Imaged (fs : FileSystem) (srcDir destDir : Bytes) (tasks : List SyncTask) : Prop :=
  ∀ task ∈ tasks, ∃ names, names ≠ [] ∧ fs.entry (place fs.cwd srcDir ++ names) ≠ none ∧
    task.destPath = destDir ++ below names

/-- What the parallel sync has reached: the scan, a pool at the tasks, or the end. -/
inductive KeepingRest {n : Nat} (self : FileSync) (fuel : Nat) (fs : FileSystem)
    (srcDir destDir : Bytes) :
    SyncManager n → Prop where
  | detecting {p : Prog (List SyncTask)} {w : World} :
      Program.Sat faulty unmoved p
        (fun tasks w' => Imaged fs srcDir destDir tasks ∧ w' = World.boot fs) w →
      KeepingRest self fuel fs srcDir destDir (.detecting p w)
  | processing {tasks : List SyncTask} {pool : ThreadPool Op Res World SyncTask n} :
      Imaged fs srcDir destDir tasks →
      Relation.ReflTransGen (ThreadPool.Step faulty.exec (executeSyncTask self fuel))
        (.boot tasks (World.boot fs)) pool →
      KeepingRest self fuel fs srcDir destDir (.processing pool)
  | returned {w : World} : RestKept fs srcDir destDir w.fs →
      KeepingRest self fuel fs srcDir destDir (.returned w)

theorem KeepingRest.step {n : Nat} {manager manager' : SyncManager n}
    (now : KeepingRest self fuel fs srcDir destDir manager)
    (one : SyncManager.StepUnder self fuel faulty.exec manager manager') :
    KeepingRest self fuel fs srcDir destDir manager' := by
  cases one with
  | detect one =>
      cases now with
      | detecting scan => exact .detecting (scan.step one).2
  | submit =>
      cases now with
      | detecting scan =>
          obtain ⟨imaged, rfl⟩ := scan _ rfl
          exact .processing imaged .refl
  | process one =>
      cases now with
      | processing imaged run => exact .processing imaged (run.tail one)
  | wake =>
      cases now with
      | processing imaged run =>
          apply KeepingRest.returned
          apply ThreadPool.run_all (fun op w answer w' calls now ran =>
            RestKept.call calls now ran) _ _ run
          · intro task member
            obtain ⟨names, nonempty, there, image⟩ := imaged task member
            exact executeSyncTask_derived nonempty there image
          · exact ⟨rfl, fun _ _ => rfl⟩

/-- Whatever fails and whatever the schedule, so does the parallel one. -/
theorem syncManager_restKept {n : Nat}
    (run : Relation.ReflTransGen (SyncManager.StepUnder self fuel faulty.exec)
      (.detecting (detectChanges self fuel srcDir destDir) (World.boot fs))
      (.returned w' : SyncManager n)) : RestKept fs srcDir destDir w'.fs := by
  suffices general : ∀ manager : SyncManager n,
      Relation.ReflTransGen (SyncManager.StepUnder self fuel faulty.exec)
        (.detecting (detectChanges self fuel srcDir destDir) (World.boot fs)) manager →
      KeepingRest self fuel fs srcDir destDir manager by
    cases general _ run with
    | returned spared => exact spared
  intro manager run
  induction run with
  | refl =>
      apply KeepingRest.detecting
      apply detectChanges_found.weaken
      rintro tasks w' ⟨each, same⟩
      refine ⟨fun task member => ?_, same⟩
      obtain ⟨names, nonempty, here, image⟩ := each task member
      exact ⟨names, nonempty, entry_of_under here, image⟩
  | tail _ one ih => exact ih.step one

/-- Local sync leaves everything else alone: after either sync returns, whatever failed and in
whatever order the tasks ran, all but what is at derived names looks as before, and the whole of
the source does. -/
theorem syncLocal_frame (self : FileSync) (fuel : Nat) (trees : SeparateTrees fs srcDir destDir) :
    (∀ verdict w', Program.Reach faulty.exec Eq (syncLocal self fuel srcDir destDir) (World.boot fs)
        (.done verdict) w' →
      (∀ q, (∀ path, Derived fs srcDir destDir path → place fs.cwd path ≠ q) →
        w'.fs.seen q = fs.seen q) ∧
      ∀ names, w'.fs.seen (place fs.cwd srcDir ++ names) = fs.seen (place fs.cwd srcDir ++ names)) ∧
    ∀ n w', Relation.ReflTransGen (SyncManager.StepUnder self fuel faulty.exec)
        (.detecting (detectChanges self fuel srcDir destDir) (World.boot fs))
        (.returned w' : SyncManager n) →
      (∀ q, (∀ path, Derived fs srcDir destDir path → place fs.cwd path ≠ q) →
        w'.fs.seen q = fs.seen q) ∧
      ∀ names, w'.fs.seen (place fs.cwd srcDir ++ names) =
        fs.seen (place fs.cwd srcDir ++ names) := by
  constructor
  · intro verdict w' run
    have spared := (syncLocal_restKept trees).returned run
    exact ⟨spared.others, spared.source trees⟩
  · intro n w' run
    have spared := syncManager_restKept run
    exact ⟨spared.others, spared.source trees⟩

end

theorem pair_trees : SeparateTrees pairFs [47, 115] [47, 100] where
  nonempty := by decide
  apart := by decide +kernel
  way := by
    intro path some_ before
    obtain ⟨byte, rest, rfl⟩ := List.exists_cons_of_ne_nil some_
    obtain ⟨more, whole⟩ := before
    have second := (List.cons.inj whole).2
    cases rest with
    | nil => cases second
    | cons other rest =>
        have third := (List.cons.inj second).2
        simp at third
  kinds := pair_site.kinds

theorem syncLocal_frame_pair : ∃ w', Program.Reach faulty.exec Eq
      (syncLocal plainSync 3 [47, 115] [47, 100]) (World.boot pairFs) (.done true) w' ∧
    w'.fs.entry [[100], [97]] = some (.file [65]) ∧
    ∀ names, w'.fs.seen ([[115]] ++ names) = pairFs.seen ([[115]] ++ names) := by
  have allowed : ∀ op w, faulty.exec op w (Policy.quietly 0 op w).1 (Policy.quietly 0 op w).2 :=
    fun op w => .inl ⟨_, rfl⟩
  obtain ⟨w', run, synced⟩ := Program.reach_of_play Eq allowed
    (syncLocal plainSync 3 [47, 115] [47, 100]) (World.boot pairFs) true
    (fun w => w.fs.entry [[100], [97]]) (some (.file [65])) (by decide +kernel)
  exact ⟨w', run, synced, ((syncLocal_frame plainSync 3 pair_trees).1 true w' run).2⟩

end SyncTool
