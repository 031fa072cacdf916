import Mathlib.Data.List.Infix
import SyncTool.LinkedFiles
import SyncTool.RpcListing

set_option autoImplicit false

namespace SyncTool

open SyncTool.Path LinuxFileUtil

namespace LinkedFs

variable (fs : LinkedFs)

/-- What the calls of a scan answer. -/
def Answers : (op : Op) → Res op → Prop
  | .stat path, answer => answer = fs.stat path
  | .readdir path, answer => answer.Perm (fs.readdir path)
  | .openIn path, answer => answer = (fs.stat path).isSome
  | .get path pos count, answer => answer = World.slice ((fs.read path).getD []) pos count
  | _, _ => True

/-- The directory that a call opens. -/
def opens : Op → List Bytes
  | .readdir path => [path]
  | _ => []

/-- A call of a scan, and the directories that were opened until then and after it. -/
def exec (op : Op) (before : List Bytes) (answer : Res op) (after : List Bytes) : Prop :=
  fs.Answers op answer ∧ after = before ++ opens op

/-- The places on the way down to some names; `way` is how the directories are spelt. -/
def along (way : Path → Bytes) (names : Path) : List (Option Path) :=
  names.inits.map fun front => (fs.resolve (way front)).map Spot.place

/-- On the way to an opened directory none is met twice, nor more than there are. -/
def Fresh (way : Path → Bytes) (path : Bytes) : Prop :=
  ∀ names, (∀ name ∈ names, ProperName name) → path = way names →
    (fs.along way names).Nodup ∧ (fs.along way names).length ≤ fs.directories.length

/-- A scan opens no directory that it is in already, and ends. -/
structure Descends {α : Type} (way : Path → Bytes) (p : Prog α) : Prop where
  fresh : ∀ p' opened, Program.Reach fs.exec Eq p [] p' opened → ∀ path ∈ opened, fs.Fresh way path
  ends : Program.Returns fs.exec (fun _ _ => True) p []

/-- How a scan that starts at `start` spells the directories it opens. -/
structure Spells (start : Spot) (way : Path → Bytes) : Prop where
  isDir : fs.tree.entry start.place = some .dir
  found : ∀ names here, Descent.leads fs.into start names = some here →
    fs.resolve (way names) = some here
  injective : ∀ names names', (∀ name ∈ names, ProperName name) →
    (∀ name ∈ names', ProperName name) →
    way names = way names' → names = names'

variable {fs} {start here next : Spot} {way : Path → Bytes} {names : Path} {name : Name}

section Chains

variable (spells : fs.Spells start way) (led : Descent.leads fs.into start names = some here)

include spells led

theorem along_eq_chain :
    fs.along way names = (Descent.chain fs.into Spot.place start names).map some := by
  induction names using List.reverseRecOn generalizing here with
  | nil =>
      have found := spells.found [] start rfl
      simp [along, Descent.chain, found]
  | append_singleton names name ih =>
      have whole := spells.found _ _ led
      rw [Descent.leads_append] at led
      obtain ⟨parent, before, last⟩ := Option.bind_eq_some_iff.mp led
      have one : fs.into parent name = some here := by simpa [Descent.leads] using last
      rw [Descent.chain_concat before one, List.map_append, ← ih before]
      simp [along, List.inits_append, whole]

theorem chain_inside : ∀ p ∈ Descent.chain fs.into Spot.place start names, p ∈ fs.directories := by
  intro p member
  obtain ⟨front, back, u, -, toU, -, rfl⟩ := Descent.mem_chain led member
  exact mem_directories.mpr (leads_isDir spells.isDir toU)

theorem fresh_iff :
    fs.Fresh way (way names) ↔ (Descent.chain fs.into Spot.place start names).Nodup := by
  have proper := leads_proper led
  constructor
  · intro fresh
    have apart := (fresh names proper rfl).1
    rw [along_eq_chain spells led] at apart
    exact apart.of_map some
  · intro nodup names' proper' same
    obtain rfl := spells.injective names names' proper proper' same
    rw [along_eq_chain spells led, List.length_map]
    refine ⟨nodup.map (Option.some_injective Path), ?_⟩
    exact Descent.length_le_of_nodup nodup (chain_inside spells led)

end Chains

variable (fs) (allowed : Bytes → Prop)

def handler : Handler Op Res (List Bytes) where
  exec op before answer after := fs.exec op before answer after ∧ ∀ path ∈ opens op, allowed path
  spins := False

/-- Every directory that a step opens is fresh, if those before it were. -/
def staying (way : Path → Bytes) : Interference (List Bytes) :=
  .alone (fun before after => (∀ path ∈ before, fs.Fresh way path) →
    ∀ path ∈ after, fs.Fresh way path) fun _ fresh => fresh

variable {fs} {allowed} {α : Type} {Q : α → List Bytes → Prop} {opened : List Bytes}

/-- A call that opens no directory. -/
theorem sat_tell {op : Op} {next : Res op → Prog α} (silent : opens op = [])
    (holds : ∀ answer, fs.Answers op answer →
      Program.Sat (fs.handler allowed) (fs.staying way) (next answer) Q opened) :
    Program.Sat (fs.handler allowed) (fs.staying way) (.call op next) Q opened := by
  intro before same answer after ran
  obtain rfl : opened = before := same
  obtain ⟨⟨told, grown⟩, -⟩ := ran
  rw [silent, List.append_nil] at grown
  subst grown
  exact ⟨fun fresh => fresh, holds answer told⟩

theorem sat_readdir {path : Bytes} {next : List Name → Prog α}
    (fresh : allowed path → fs.Fresh way path)
    (holds : allowed path → ∀ names, names.Perm (fs.readdir path) →
      Program.Sat (fs.handler allowed) (fs.staying way) (next names) Q (opened ++ [path])) :
    Program.Sat (fs.handler allowed) (fs.staying way) (.call (.readdir path) next) Q opened := by
  intro before same answer after ran
  obtain rfl : opened = before := same
  obtain ⟨⟨told, rfl⟩, allows⟩ := ran
  have allow := allows path List.mem_cons_self
  refine ⟨fun older path' member => ?_, holds allow answer told⟩
  rcases List.mem_append.mp member with old | new
  · exact older path' old
  · rw [List.mem_singleton.mp new]
    exact fresh allow

section Files

variable {md5 : Md5} {path : Bytes} {fuel : Nat}

/-- The fuel is enough to read every file. -/
def Readable (fs : LinkedFs) (fuel : Nat) : Prop :=
  ∀ p, ((fs.tree.contentAt p).getD []).length < fuel * 4096

theorem Readable.read (readable : fs.Readable fuel) (path : Bytes) :
    ((fs.read path).getD []).length < fuel * 4096 := by
  unfold LinkedFs.read
  cases fs.resolve path with
  | none =>
      -- what a directory would be read as is as short
      have none_ : fs.tree.contentAt [] = none := by simp [FileSystem.contentAt]
      have nothing := readable []
      rw [none_] at nothing
      exact nothing
  | some here => exact readable here.place

theorem updateBlocks_ends {pos : Nat} {ctx : md5.Ctx}
    (inside : pos ≤ ((fs.read path).getD []).length)
    (enough : ((fs.read path).getD []).length < pos + fuel * 4096) :
    Program.Sat (fs.handler allowed) (fs.staying way) (updateBlocks md5 path fuel pos ctx)
      (fun _ _ => True) opened := by
  induction fuel generalizing pos ctx opened with
  | zero => omega
  | succ fuel ih =>
      simp only [updateBlocks, Program.ask_bind]
      apply sat_tell rfl
      intro buffer told
      obtain rfl : buffer = World.slice ((fs.read path).getD []) pos 4096 := told
      have length := World.length_slice ((fs.read path).getD []) pos 4096
      apply Program.Sat.ite
      · intro full
        apply ih
        · omega
        · omega
      · intro _
        apply Program.Sat.ite
        · exact fun _ _ _ => trivial
        · exact fun _ _ _ => trivial

theorem calculateMD5_ends (readable : fs.Readable fuel) :
    Program.Sat (fs.handler allowed) (fs.staying way) (calculateMD5 md5 fuel path)
      (fun _ _ => True) opened := by
  simp only [calculateMD5, Program.ask_bind]
  apply sat_tell rfl
  intro exist _
  apply Program.Sat.ite
  · intro _
    apply Program.Sat.bind
    have blocks := readable.read path
    apply (updateBlocks_ends (Nat.zero_le _) (by omega)).weaken
    exact fun _ _ _ _ _ => trivial
  · exact fun _ _ _ => trivial

end Files

/-- What `stat` tells of a name in a directory: whether the scan can go into it. -/
theorem stat_into {path : Bytes} (proper : ProperName name)
    (found : fs.resolve path = fs.step here name) :
    (∃ node, fs.stat path = some node ∧ node.entry = .dir) ↔
    ∃ next, fs.into here name = some next := by
  constructor
  · rintro ⟨node, told, isDir⟩
    obtain ⟨next, stepped, looked⟩ := Option.bind_eq_some_iff.mp told
    rw [found] at stepped
    exact ⟨next, into_eq_some.mpr ⟨proper, stepped, by simp [FileSystem.entry, looked, isDir]⟩⟩
  · rintro ⟨next, one⟩
    obtain ⟨-, stepped, isDir⟩ := into_eq_some.mp one
    obtain ⟨node, looked, kind⟩ := Option.map_eq_some_iff.mp isDir
    exact ⟨node, by rw [stat, found, stepped, Option.bind_some, looked], kind⟩

/-- No descent from here passes a place twice. -/
def Clear (fs : LinkedFs) (start : Spot) (names : Path) (here : Spot) : Prop :=
  ∀ more last, Descent.leads fs.into here more = some last →
    (Descent.chain fs.into Spot.place start (names ++ more)).Nodup

theorem clear_of_children (nodup : (Descent.chain fs.into Spot.place start names).Nodup)
    (each : ∀ name next, fs.into here name = some next → fs.Clear start (names ++ [name]) next) :
    fs.Clear start names here := by
  intro more last led
  cases more with
  | nil =>
      rw [List.append_nil]
      exact nodup
  | cons name more =>
      obtain ⟨next, one, rest⟩ := Option.bind_eq_some_iff.mp led
      have passed := each name next one more last rest
      rwa [List.append_assoc, List.singleton_append] at passed

theorem acyclic_of_clear (clear : fs.Clear start [] start) :
    Descent.Acyclic fs.into Spot.place start :=
  Descent.acyclic_iff.mpr clear

/-- The directories a scan is in are not more than there are. -/
theorem length_le_directories (spells : fs.Spells start way)
    (led : Descent.leads fs.into start names = some here)
    (passed : (Descent.chain fs.into Spot.place start names).dropLast.Nodup) :
    names.length ≤ fs.directories.length := by
  have inside := chain_inside spells led
  have fits := (passed.subperm fun p member => inside p (List.dropLast_subset _ member)).length_le
  rw [List.length_dropLast, Descent.length_chain led] at fits
  omega

section Collect

variable {self : FileSync} {directory : Bytes} {fuel : Nat} {listed : List Name}

theorem collectEach_sat {clear : Name → Spot → Prop} (readable : fs.Readable fuel)
    (stem : fs.Opens (directory ++ [slash]) here) {recurse : Bytes → Prog MetadataMap}
    (recurses : ∀ name next, fs.into here name = some next → ∀ opened,
      Program.Sat (fs.handler allowed) (fs.staying way) (recurse (directory ++ slash :: name))
        (fun _ _ => clear name next) opened)
    (proper : ∀ name ∈ listed, ProperName name) {map : MetadataMap} :
    Program.Sat (fs.handler allowed) (fs.staying way)
      (FileSync.collectEach self fuel recurse
        (listed.map fun name => directory ++ slash :: name) map)
      (fun _ _ => ∀ name ∈ listed, ∀ next, fs.into here name = some next →
        clear name next) opened := by
  induction listed generalizing map opened with
  | nil =>
      intro after _ name member
      cases member
  | cons name listed ih =>
      obtain ⟨proper, later⟩ := List.forall_mem_cons.mp proper
      have found : fs.resolve (directory ++ slash :: name) = fs.step here name := by
        rw [← stem.names name proper.2.1, List.append_assoc, List.singleton_append]
      have goes := stat_into proper found
      -- what is left to do once `name` is settled
      have rest : (∀ next, fs.into here name = some next → clear name next) → ∀ map' opened',
          Program.Sat (fs.handler allowed) (fs.staying way)
            (FileSync.collectEach self fuel recurse
              (listed.map fun name => directory ++ slash :: name) map')
            (fun _ _ => ∀ other ∈ name :: listed, ∀ next, fs.into here other = some next →
              clear other next)
            opened' := by
        intro settled map' opened'
        apply (ih later).weaken
        intro _ _ others
        exact List.forall_mem_cons.mpr ⟨settled, others⟩
      rw [List.map_cons]
      simp only [FileSync.collectEach, getFileStat, Program.ask_bind]
      apply sat_tell rfl
      intro answer told
      obtain rfl : answer = fs.stat (directory ++ slash :: name) := told
      cases stat : fs.stat (directory ++ slash :: name) with
      | none =>
          apply rest
          intro next one
          obtain ⟨node, here_, -⟩ := goes.mpr ⟨next, one⟩
          rw [stat] at here_
          cases here_
      | some node =>
          simp only [Node.isReg_st_mode, Node.isDir_st_mode, decide_eq_true_eq]
          by_cases isDir : node.entry = .dir
          · simp only [isDir, ne_eq, not_true_eq_false, ↓reduceIte, Program.pure_eq,
              Program.done_bind]
            obtain ⟨next, one⟩ := goes.mp ⟨node, stat, isDir⟩
            apply Program.Sat.bind
            apply (recurses name next one opened).weaken
            intro sub opened' settled
            apply rest
            intro next' one'
            rw [one] at one'
            obtain rfl := Option.some.inj one'
            exact settled
          · simp only [isDir, ne_eq, not_false_eq_true, ↓reduceIte]
            apply Program.Sat.bind
            apply (calculateMD5_ends readable).weaken
            intro hash opened' _
            apply rest
            intro next one
            obtain ⟨node', here_, dir⟩ := goes.mpr ⟨next, one⟩
            rw [stat] at here_
            obtain rfl := Option.some.inj here_
            exact absurd dir isDir

theorem collectMetadata_sat (readable : fs.Readable fuel)
    (spells : fs.Spells start fun names => directory ++ below names)
    (fresh : ∀ names here, Descent.leads fs.into start names = some here →
      allowed (directory ++ below names) →
      fs.Fresh (fun names => directory ++ below names) (directory ++ below names))
    {depth : Nat} (led : Descent.leads fs.into start names = some here)
    (passed : (Descent.chain fs.into Spot.place start names).dropLast.Nodup)
    (deep : fs.directories.length < depth + names.length) :
    Program.Sat (fs.handler allowed) (fs.staying fun names => directory ++ below names)
      (FileSync.collectMetadata self fuel depth (directory ++ below names))
      (fun _ _ => fs.Clear start names here) opened := by
  induction depth generalizing names here opened with
  | zero =>
      have few := length_le_directories spells led passed
      omega
  | succ depth ih =>
      have found := spells.found names here led
      have isDir := leads_isDir spells.isDir led
      have stem : fs.Opens (directory ++ below names ++ [slash]) here := opens_slash found isDir
      simp only [FileSync.collectMetadata, listDirectory, Program.ask_bind, Program.call_bind,
        Program.pure_eq, Program.done_bind]
      apply sat_readdir (fresh names here led)
      intro allow listed perm
      have nodup := (fresh_iff spells led).mp (fresh names here led allow)
      have recurses : ∀ name next, fs.into here name = some next → ∀ opened,
          Program.Sat (fs.handler allowed) (fs.staying fun names => directory ++ below names)
            (FileSync.collectMetadata self fuel depth (directory ++ below names ++ slash :: name))
            (fun _ _ => fs.Clear start (names ++ [name]) next) opened := by
        intro name next one opened
        have same : directory ++ below names ++ slash :: name =
            directory ++ below (names ++ [name]) := by
          simp [below_append]
        rw [same]
        apply ih
        · rw [Descent.leads_concat led, one]
        · rw [Descent.chain_concat led one, List.dropLast_concat]
          exact nodup
        · rw [List.length_append, List.length_singleton]
          omega
      have proper : ∀ name ∈ listed, ProperName name := fun name member =>
        readdir_proper (perm.mem_iff.mp member)
      apply (collectEach_sat readable stem recurses proper).weaken
      intro _ _ settled
      apply clear_of_children nodup
      intro name next one
      exact settled name (perm.mem_iff.mpr (stem.mem_readdir one found)) next one

end Collect

section Listing

variable {server : RpcServer} {fullRel relDir stem : Bytes} {listed : List Name}
  {response : ListFilesResponse}

theorem listEach_sat {clear : Name → Spot → Prop}
    (opening : fs.Opens (server.baseDirectory ++ fullRel) here)
    {recurse : Bytes → ListFilesResponse → Prog ListFilesResponse}
    (recurses : ∀ name next, fs.into here name = some next → ∀ response opened,
      Program.Sat (fs.handler allowed) (fs.staying way) (recurse (fullRel ++ name) response)
        (fun _ _ => clear name next) opened)
    (proper : ∀ name ∈ listed, ProperName name) :
    Program.Sat (fs.handler allowed) (fs.staying way)
      (server.listEach recurse true fullRel listed response)
      (fun _ _ => ∀ name ∈ listed, ∀ next, fs.into here name = some next →
        clear name next) opened := by
  induction listed generalizing response opened with
  | nil =>
      intro after _ name member
      cases member
  | cons name listed ih =>
      obtain ⟨proper, later⟩ := List.forall_mem_cons.mp proper
      have found : fs.resolve (server.baseDirectory ++ (fullRel ++ name)) = fs.step here name := by
        rw [← opening.names name proper.2.1, List.append_assoc]
      have goes := stat_into proper found
      have whole : cString (server.baseDirectory ++ (fullRel ++ name)) =
          server.baseDirectory ++ (fullRel ++ name) := by
        rw [cString_eq_self, ← List.append_assoc, List.mem_append]
        exact not_or.mpr ⟨cString_eq_self.mp opening.cString, proper.2.2.1⟩
      -- what is left to do once `name` is settled
      have rest : (∀ next, fs.into here name = some next → clear name next) → ∀ response' opened',
          Program.Sat (fs.handler allowed) (fs.staying way)
            (server.listEach recurse true fullRel listed response')
            (fun _ _ => ∀ other ∈ name :: listed, ∀ next, fs.into here other = some next →
              clear other next)
            opened' := by
        intro settled response' opened'
        apply (ih later).weaken
        intro _ _ others
        exact List.forall_mem_cons.mpr ⟨settled, others⟩
      simp only [RpcServer.listEach, Program.ask_bind]
      rw [whole]
      apply sat_tell rfl
      intro answer told
      obtain rfl : answer = fs.stat (server.baseDirectory ++ (fullRel ++ name)) := told
      cases stat : fs.stat (server.baseDirectory ++ (fullRel ++ name)) with
      | none =>
          apply rest
          intro next one
          obtain ⟨node, here_, -⟩ := goes.mpr ⟨next, one⟩
          rw [stat] at here_
          cases here_
      | some node =>
          simp only [Node.isDir_st_mode, Bool.true_and, decide_eq_true_eq]
          apply Program.Sat.ite
          · intro isDir
            obtain ⟨next, one⟩ := goes.mp ⟨node, stat, isDir⟩
            apply Program.Sat.bind
            apply (recurses name next one _ opened).weaken
            intro response' opened' settled
            apply rest
            intro next' one'
            rw [one] at one'
            obtain rfl := Option.some.inj one'
            exact settled
          · intro notDir
            apply rest
            intro next one
            obtain ⟨node', here_, dir⟩ := goes.mpr ⟨next, one⟩
            rw [stat] at here_
            obtain rfl := Option.some.inj here_
            exact absurd dir notDir

/-- The string that leads from a directory down to one below it, with a slash at its end. -/
def down (names : Path) : Bytes := names.flatMap fun name => name ++ [slash]

theorem listDirectory_sat (spells : fs.Spells start fun names => stem ++ down names)
    (opening : ∀ names here, Descent.leads fs.into start names = some here →
      fs.Opens (stem ++ down names) here)
    (fresh : ∀ names here, Descent.leads fs.into start names = some here →
      allowed (stem ++ down names) →
      fs.Fresh (fun names => stem ++ down names) (stem ++ down names))
    {depth : Nat} (led : Descent.leads fs.into start names = some here)
    (spelt : server.baseDirectory ++ RpcServer.withSlash relDir = stem ++ down names)
    (passed : (Descent.chain fs.into Spot.place start names).dropLast.Nodup)
    (deep : fs.directories.length < depth + names.length) :
    Program.Sat (fs.handler allowed) (fs.staying fun names => stem ++ down names)
      (server.listDirectory true depth relDir response)
        (fun _ _ => fs.Clear start names here) opened := by
  induction depth generalizing names here relDir response opened with
  | zero =>
      have few := length_le_directories spells led passed
      omega
  | succ depth ih =>
      have opens_ := opening names here led
      simp only [RpcServer.listDirectory, Program.ask_bind]
      rw [spelt, opens_.cString]
      apply sat_readdir (fresh names here led)
      intro allow listed perm
      have nodup := (fresh_iff spells led).mp (fresh names here led allow)
      have recurses : ∀ name next, fs.into here name = some next → ∀ response opened,
          Program.Sat (fs.handler allowed) (fs.staying fun names => stem ++ down names)
            (server.listDirectory true depth (RpcServer.withSlash relDir ++ name) response)
            (fun _ _ => fs.Clear start (names ++ [name]) next) opened := by
        intro name next one response opened
        have proper := (into_eq_some.mp one).1
        apply ih
        · rw [Descent.leads_concat led, one]
        · rw [RpcServer.withSlash_append relDir proper, ← List.append_assoc,
            ← List.append_assoc, spelt]
          simp [down]
        · rw [Descent.chain_concat led one, List.dropLast_concat]
          exact nodup
        · rw [List.length_append, List.length_singleton]
          omega
      have proper : ∀ name ∈ listed, ProperName name := fun name member =>
        readdir_proper (perm.mem_iff.mp member)
      rw [← spelt] at opens_
      apply (listEach_sat opens_ recurses proper).weaken
      intro _ _ settled
      apply clear_of_children nodup
      intro name next one
      have member := opens_.mem_readdir one opens_.found
      rw [spelt] at member
      exact settled name (perm.mem_iff.mpr member) next one

end Listing

end LinkedFs

end SyncTool
