import SyncTool.LinkedScan

set_option autoImplicit false

namespace SyncTool

open SyncTool.Path LinuxFileUtil RpcServer

namespace LinkedFs

variable {fs : LinkedFs} {start here : Spot} {way : Path → Bytes} {names : Path} {α : Type}
  {Q : α → List Bytes → Prop}

/-- No directory that can be reached from the one of the path, in it or by links, leads back to
itself. -/
def NoWayBack (fs : LinkedFs) (path : Bytes) : Prop :=
  ∀ start, fs.resolve path = some start → fs.tree.entry start.place = some .dir →
    Descent.Acyclic fs.into Spot.place start

theorem exists_answer (fs : LinkedFs) (op : Op) : ∃ answer, fs.Answers op answer := by
  cases op with
  | stat path => exact ⟨_, rfl⟩
  | readdir path => exact ⟨_, .refl _⟩
  | openIn path => exact ⟨_, rfl⟩
  | get path pos count => exact ⟨_, rfl⟩
  | pread path pos count => exact ⟨.eintr, trivial⟩
  | pwrite path pos data => exact ⟨.eintr, trivial⟩
  | write path append pos data => exact ⟨.eintr, trivial⟩
  | send data => exact ⟨.eintr, trivial⟩
  | recv count => exact ⟨.eintr, trivial⟩
  | _ => exact ⟨default, trivial⟩

theorem descends_of_sat {p : Prog α}
    (holds : Program.Sat (fs.handler fun _ => True) (fs.staying way) p Q []) :
    fs.Descends way p := by
  have same : (fs.handler fun _ => True).exec = fs.exec := by
    funext op before answer after
    simp [handler]
  constructor
  · intro p' opened run
    rw [← same] at run
    apply holds.invariant (fun opened => ∀ path ∈ opened, fs.Fresh way path) _ _ _ run
    · simp
    · rintro before after rfl fresh
      exact fresh
    · exact fun before after grows => grows
  · rw [← same]
    apply (holds.weaken fun _ _ _ => trivial).returns id
    intro op before
    obtain ⟨answer, told⟩ := fs.exists_answer op
    exact ⟨answer, _, ⟨told, rfl⟩, fun _ _ => trivial⟩

/-- A scan that follows every descent goes round just in case there is a way back. -/
theorem descends_iff {p : Prog α} (spells : fs.Spells start way)
    (scan : ∀ allowed : Bytes → Prop, (∀ names here, Descent.leads fs.into start names = some here →
        allowed (way names) → fs.Fresh way (way names)) →
      Program.Sat (fs.handler allowed) (fs.staying way) p (fun _ _ => fs.Clear start [] start) []) :
    fs.Descends way p ↔ Descent.Acyclic fs.into Spot.place start := by
  constructor
  · intro descends
    -- the scan as far as it opens only fresh directories
    have holds := scan (fs.Fresh way) fun _ _ _ fresh => fresh
    have answered : ∀ op before, ∃ answer after, fs.exec op before answer after ∧
        ((fs.handler (fs.Fresh way)).exec op before answer after ∨
          ∃ path ∈ after, ¬ fs.Fresh way path) := by
      intro op before
      obtain ⟨answer, told⟩ := fs.exists_answer op
      refine ⟨answer, before ++ opens op, ⟨told, rfl⟩, ?_⟩
      by_cases fresh : ∀ path ∈ opens op, fs.Fresh way path
      · exact .inl ⟨⟨told, rfl⟩, fresh⟩
      · obtain ⟨path, stale⟩ := not_forall.mp fresh
        obtain ⟨member, stale⟩ := Classical.not_imp.mp stale
        exact .inr ⟨path, List.mem_append_right _ member, stale⟩
    rcases holds.returned_or id answered with
      ⟨value, opened, run, clear⟩ | ⟨p', opened, run, path, member, stale⟩
    · exact acyclic_of_clear clear
    · exact absurd (descends.fresh p' opened run path member) stale
  · intro acyclic
    apply descends_of_sat (scan _ _)
    intro names here led _
    exact (fresh_iff spells led).mpr (Descent.acyclic_iff.mp acyclic names here led)

/-- The directory that a scan starts with is on the way to no other. -/
theorem fresh_start
    (injective : ∀ names, (∀ name ∈ names, ProperName name) → way [] = way names → names = []) :
    fs.Fresh way (way []) := by
  intro names proper same
  obtain rfl := injective names proper same
  have root : [] ∈ fs.directories := mem_directories.mpr fs.tree.entry_root
  exact ⟨List.nodup_singleton _, List.length_pos_of_mem root⟩

/-- There is nothing in what is not a directory. -/
theorem readdir_of_missing {path : Bytes}
    (missing : ¬ ∃ start, fs.resolve path = some start ∧ fs.tree.entry start.place = some .dir) :
    fs.readdir path = [] := by
  unfold readdir
  split
  · next start found =>
      rw [if_neg]
      exact fun isDir => missing ⟨start, found, isDir⟩
  · rfl

theorem down_eq_below (names : Path) : slash :: down names = below names ++ [slash] := by
  induction names with
  | nil => rfl
  | cons name names ih =>
      rw [below_cons, List.append_assoc, ← ih]
      simp [down]

theorem below_way_injective (directory : Bytes) {names names' : Path}
    (proper : ∀ name ∈ names, ProperName name) (proper' : ∀ name ∈ names', ProperName name)
    (same : directory ++ below names = directory ++ below names') : names = names' :=
  below_injective (fun name member => (proper name member).2.1)
    (fun name member => (proper' name member).2.1) (List.append_cancel_left same)

theorem down_way_injective (stem : Bytes) {names names' : Path}
    (proper : ∀ name ∈ names, ProperName name) (proper' : ∀ name ∈ names', ProperName name)
    (same : stem ++ down names = stem ++ down names') : names = names' := by
  apply below_way_injective [] proper proper'
  have cut := congrArg (slash :: ·) (List.append_cancel_left same)
  simp only [down_eq_below] at cut
  rw [List.append_cancel_right cut]

theorem spells_below {directory : Bytes} (found : fs.resolve directory = some start)
    (isDir : fs.tree.entry start.place = some .dir) :
    fs.Spells start fun names => directory ++ below names where
  isDir := isDir
  found names here led := by
    induction names using List.reverseRecOn generalizing here with
    | nil =>
        obtain rfl := Option.some.inj led
        rw [below_nil, List.append_nil]
        exact found
    | append_singleton names name ih =>
        rw [Descent.leads_append] at led
        obtain ⟨parent, before, last⟩ := Option.bind_eq_some_iff.mp led
        have one : fs.into parent name = some here := by simpa [Descent.leads] using last
        have stem := opens_slash (ih parent before) (leads_isDir isDir before)
        have named := (stem.into one).1
        simpa [below_append] using named
  injective _ _ proper proper' same := below_way_injective directory proper proper' same

theorem Opens.down {stem : Bytes} (opening : fs.Opens stem start)
    (led : Descent.leads fs.into start names = some here) : fs.Opens (stem ++ down names) here := by
  induction names generalizing start stem with
  | nil =>
      obtain rfl := Option.some.inj led
      simpa [LinkedFs.down] using opening
  | cons name names ih =>
      obtain ⟨next, one, rest⟩ := Option.bind_eq_some_iff.mp led
      have below_ := ih (opening.into one).2 rest
      simpa [LinkedFs.down, List.append_assoc] using below_

theorem spells_down {stem : Bytes} (opening : fs.Opens stem start) :
    fs.Spells start fun names => stem ++ down names where
  isDir := opening.isDir
  found _ _ led := (opening.down led).found
  injective _ _ proper proper' same := down_way_injective stem proper proper' same

/-- Enough fuel for every file, and for every descent that passes no directory twice. -/
theorem exists_readable (fs : LinkedFs) :
    ∃ enough, ∀ fuel, enough ≤ fuel → fs.Readable fuel ∧ fs.directories.length < fuel := by
  obtain ⟨bound, -, files⟩ := fs.tree.exists_bound
  refine ⟨bound + fs.directories.length + 1, fun fuel more => ⟨fun p => ?_, by omega⟩⟩
  cases held : fs.tree.contentAt p with
  | none =>
      rw [Option.getD_none, List.length_nil]
      omega
  | some content =>
      have small := files p content (FileSystem.contentAt_eq_some.mp held)
      rw [Option.getD_some]
      omega

theorem noWayBack_iff {path : Bytes} (found : fs.resolve path = some start)
    (isDir : fs.tree.entry start.place = some .dir) :
    fs.NoWayBack path ↔ Descent.Acyclic fs.into Spot.place start := by
  constructor
  · exact fun acyclic => acyclic start found isDir
  · intro acyclic start' found' _
    rw [found] at found'
    obtain rfl := Option.some.inj found'
    exact acyclic

/-- The scan of what is not a directory opens nothing else. -/
theorem descends_of_missing {next : List Name → Prog α} {value : α}
    (missing : ¬ ∃ start, fs.resolve (way []) = some start ∧ fs.tree.entry start.place = some .dir)
    (injective : ∀ names, (∀ name ∈ names, ProperName name) → way [] = way names → names = [])
    (returns : next [] = .done value) : fs.Descends way (.call (.readdir (way [])) next) := by
  apply @descends_of_sat fs way α fun _ _ => True
  apply sat_readdir fun _ => fresh_start injective
  intro _ names perm
  rw [readdir_of_missing missing] at perm
  rw [perm.eq_nil, returns]
  exact fun _ _ => trivial

/-- What a listing opens ends with a slash. -/
theorem withSlash_append_cases (baseDir relDir : Bytes) :
    withSlash baseDir ++ withSlash relDir = [] ∨
    ∃ front, withSlash baseDir ++ withSlash relDir = front ++ [slash] := by
  rcases withSlash_cases relDir with ⟨-, same⟩ | ⟨-, same⟩ | ⟨front, rfl, same⟩
  · rw [same, List.append_nil]
    rcases withSlash_cases baseDir with ⟨-, same⟩ | ⟨-, same⟩ | ⟨front, rfl, same⟩
    · exact .inl same
    · exact .inr ⟨baseDir, same⟩
    · exact .inr ⟨front, same⟩
  · right
    exact ⟨withSlash baseDir ++ relDir, by rw [same, List.append_assoc]⟩
  · right
    exact ⟨withSlash baseDir ++ front, by rw [same, List.append_assoc]⟩

section

variable {self : FileSync} {server : RpcServer} {directory baseDir relDir : Bytes} {fuel : Nat}
  {response : ListFilesResponse} (readable : fs.Readable fuel) (deep : fs.directories.length < fuel)

include readable deep

theorem collectMetadata_descends :
    fs.Descends (fun names => directory ++ below names)
      (FileSync.collectMetadata self fuel fuel directory) ↔
      fs.NoWayBack directory := by
  have begins : directory ++ below [] = directory := by simp
  by_cases exist : ∃ start, fs.resolve directory = some start ∧
    fs.tree.entry start.place = some .dir
  · obtain ⟨start, found, isDir⟩ := exist
    have spells := spells_below found isDir
    rw [noWayBack_iff found isDir]
    apply descends_iff spells
    intro allowed fresh
    have scan :
        Program.Sat (fs.handler allowed) _
          (FileSync.collectMetadata self fuel fuel (directory ++ below []))
        _ [] := collectMetadata_sat readable spells fresh rfl List.nodup_nil (by simpa using deep)
    rwa [begins] at scan
  · obtain ⟨depth, rfl⟩ := Nat.exists_eq_succ_of_ne_zero (by omega : fuel ≠ 0)
    constructor
    · intro _ start found isDir
      exact absurd ⟨start, found, isDir⟩ exist
    · intro _
      have missing := @descends_of_missing fs (fun names => directory ++ below names) _
        (fun names => FileSync.collectEach self (depth + 1)
          (FileSync.collectMetadata self (depth + 1) depth)
          (names.map fun name => directory ++ slash :: name) ∅) ∅ (by rwa [begins])
        (fun names proper same => (below_way_injective directory (by simp) proper same).symm) rfl
      rw [begins] at missing
      exact missing

omit readable deep in
/-- Where a zero byte cuts all path strings below a directory to that of the directory itself, its
listing comes to an end only if there is nothing to list. -/
theorem listDirectory_cut (zero : 0 ∈ withSlash baseDir ++ withSlash relDir) :
    fs.Descends (fun names => withSlash baseDir ++ withSlash relDir ++ down names)
        ((server.setBaseDirectory baseDir).listDirectory true (fuel + 1) relDir response) ↔
      fs.readdir (cString (withSlash baseDir ++ withSlash relDir)) = [] := by
  obtain ⟨tail, same⟩ := withSlash_eq_append relDir
  have early : 0 ∈ withSlash baseDir ++ relDir := by
    rw [same, ← List.append_assoc, List.mem_append] at zero
    rcases zero with early | late
    · exact early
    · unfold withSlash at same
      split at same
      · rw [List.append_cancel_left same.symm] at late
        exact absurd late (by decide)
      · have none_ : tail = [] := by simpa using same
        rw [none_] at late
        cases late
  have cut : cString (withSlash baseDir ++ relDir) =
      cString (withSlash baseDir ++ withSlash relDir) :=
    (@RpcServer.cString_withSlash (server.setBaseDirectory baseDir) relDir early).symm
  constructor
  · intro descends
    by_contra some_
    obtain ⟨value, opened, run, -⟩ := descends.ends.exists_run
    have endless : Program.Sat ⟨fs.exec, True⟩ .free
        ((server.setBaseDirectory baseDir).listDirectory true (fuel + 1) relDir response)
        (fun _ _ => False) [] := by
      apply listDirectory_endless trivial (fun _ => True) early cut _ _ trivial
      · intro s names s' _ told
        refine ⟨fun empty => ?_, trivial⟩
        rw [empty] at told
        exact some_ told.1.symm.eq_nil
      · intro s st s' _ told
        refine ⟨?_, trivial⟩
        obtain rfl : st = fs.stat _ := told.1
        unfold readdir at some_
        split at some_
        · next here found =>
          split at some_
          · next isDir =>
            obtain ⟨node, looked, kind⟩ := Option.map_eq_some_iff.mp isDir
            exact ⟨node, by rw [stat, found, Option.bind_some, looked], kind⟩
          · exact absurd rfl some_
        · exact absurd rfl some_
    exact endless.returned run
  · intro nothing
    apply @descends_of_sat fs _ _ fun _ _ => True
    simp only [RpcServer.listDirectory, Program.ask_bind]
    apply sat_readdir
    · intro _ names proper elsewhere
      have free : 0 ∉ cString (withSlash baseDir ++ withSlash relDir) := by
        intro member
        simpa using List.mem_takeWhile_imp member
      have spelt : 0 ∈ withSlash baseDir ++ withSlash relDir ++ down names :=
        List.mem_append_left _ zero
      have same : cString (withSlash baseDir ++ withSlash relDir) =
          withSlash baseDir ++ withSlash relDir ++ down names := elsewhere
      rw [← same] at spelt
      exact absurd spelt free
    · intro _ names perm
      have opened : fs.readdir (cString ((server.setBaseDirectory baseDir).baseDirectory ++
          withSlash relDir)) = [] := nothing
      rw [opened] at perm
      rw [perm.eq_nil]
      exact fun _ _ => trivial

omit readable in
theorem listDirectory_descends (plain : 0 ∉ withSlash baseDir ++ withSlash relDir) :
    fs.Descends (fun names => withSlash baseDir ++ withSlash relDir ++ down names)
        ((server.setBaseDirectory baseDir).listDirectory true fuel relDir response) ↔
      fs.NoWayBack (withSlash baseDir ++ withSlash relDir) := by
  have begins : withSlash baseDir ++ withSlash relDir ++ down [] = withSlash baseDir ++
      withSlash relDir := by
    simp [down]
  by_cases exist : ∃ start, fs.resolve (withSlash baseDir ++ withSlash relDir) = some start ∧
      fs.tree.entry start.place = some .dir
  · obtain ⟨start, found, isDir⟩ := exist
    have opening : fs.Opens (withSlash baseDir ++ withSlash relDir) start := by
      rcases withSlash_append_cases baseDir relDir with nothing | ⟨front, ends⟩
      · rw [nothing] at found
        cases found
      · rw [ends] at found ⊢
        exact opens_of_slash found isDir
    rw [noWayBack_iff found isDir]
    apply descends_iff (spells_down opening)
    intro allowed fresh
    have led : Descent.leads fs.into start [] = some start := rfl
    apply listDirectory_sat (spells_down opening) (fun names here led => opening.down led) fresh led
      begins.symm List.nodup_nil
    simpa using deep
  · obtain ⟨depth, rfl⟩ := Nat.exists_eq_succ_of_ne_zero (by omega : fuel ≠ 0)
    constructor
    · intro _ start found isDir
      exact absurd ⟨start, found, isDir⟩ exist
    · intro _
      have missing := @descends_of_missing fs
        (fun names => withSlash baseDir ++ withSlash relDir ++ down names) _
        (fun names => (server.setBaseDirectory baseDir).listEach
          ((server.setBaseDirectory baseDir).listDirectory true depth)
            true (withSlash relDir) names response)
        response (by rwa [begins])
        (fun names proper same => (down_way_injective _ (by simp) proper same).symm) rfl
      rw [begins] at missing
      simp only [RpcServer.listDirectory, Program.ask_bind]
      have whole : cString ((server.setBaseDirectory baseDir).baseDirectory ++ withSlash relDir) =
          withSlash baseDir ++ withSlash relDir := cString_eq_self.mpr plain
      rw [whole]
      exact missing

end

/-- The directory that a listing is for, and what is in it, are told apart: nothing in it leads back
to itself, and no zero byte cuts the path strings of both to the same, unless there is nothing in
it. -/
def Distinct (fs : LinkedFs) (path : Bytes) : Prop :=
  if 0 ∈ path then fs.readdir (cString path) = [] else fs.NoWayBack path

/-- A scan keeps out of the directories it is in, and ends, just in case nothing in the directory it
is for leads back to itself. -/
theorem scans_descend (fs : LinkedFs) (self : FileSync) (server : RpcServer) :
    ∃ enough, ∀ fuel, enough ≤ fuel →
    (∀ directory, fs.Descends (fun names => directory ++ below names)
      (FileSync.collectMetadata self fuel fuel directory) ↔ fs.NoWayBack directory) ∧
    ∀ baseDir relDir response,
      fs.Descends (fun names => withSlash baseDir ++ withSlash relDir ++ down names)
      ((server.setBaseDirectory baseDir).listDirectory true fuel relDir response) ↔
        fs.Distinct (withSlash baseDir ++ withSlash relDir) := by
  obtain ⟨enough, affords⟩ := exists_readable fs
  refine ⟨enough, fun fuel more => ?_⟩
  obtain ⟨readable, deep⟩ := affords fuel more
  constructor
  · intro directory
    exact collectMetadata_descends readable deep
  · intro baseDir relDir response
    unfold Distinct
    split
    · next zero =>
      obtain ⟨depth, rfl⟩ := Nat.exists_eq_succ_of_ne_zero (by omega : fuel ≠ 0)
      exact listDirectory_cut zero
    · next plain => exact listDirectory_descends deep plain

/-- `/s`, and in it a link `l` to `/s`; forty links are followed. -/
def loopFs : LinkedFs where
  tree := FileSystem.empty.put [[115]] (.dir 4096 0o755 0)
  links := AList.singleton [[115], [108]] ⟨[[115]], 1⟩
  limit := some 40
  placed := by decide +kernel

theorem scans_return : (¬ ∃ enough, ∀ fuel, enough ≤ fuel →
      loopFs.Descends (fun names => [47, 115] ++ below names)
        (FileSync.collectMetadata FileSync.plainSync fuel fuel [47, 115])) ∧
    ¬ ∃ enough, ∀ fuel, enough ≤ fuel →
      loopFs.Descends (fun names => withSlash [47] ++ withSlash [115] ++ down names)
        ((localServer.setBaseDirectory [47]).listDirectory true fuel [115] ⟨[], [115], 0⟩) := by
  have back : ∀ path, loopFs.resolve path = some ⟨[[115]], 0⟩ → ¬ loopFs.NoWayBack path := by
    intro path found acyclic
    have edge : Descent.Edge loopFs.into ⟨[[115]], 0⟩ ⟨[[115]], 1⟩ := ⟨[108], by decide +kernel⟩
    exact acyclic _ found (by decide +kernel) _ .refl _ (.single edge) rfl
  obtain ⟨bound, affords⟩ := exists_readable loopFs
  constructor
  · intro ⟨enough, all⟩
    obtain ⟨readable, deep⟩ := affords (max bound enough) (le_max_left _ _)
    have descends := all (max bound enough) (le_max_right _ _)
    exact back [47, 115] (by decide +kernel) ((collectMetadata_descends readable deep).mp descends)
  · intro ⟨enough, all⟩
    obtain ⟨-, deep⟩ := affords (max bound enough) (le_max_left _ _)
    have descends := all (max bound enough) (le_max_right _ _)
    exact back [47, 115, 47] (by decide +kernel)
      ((listDirectory_descends deep (by decide)).mp descends)

end LinkedFs

end SyncTool
