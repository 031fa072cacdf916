import SyncTool.ClientSession
import SyncTool.TreePlan

set_option autoImplicit false

namespace SyncTool

open SyncTool.Path FileSync LinuxFileUtil

/-- The calls of a scan. -/
def Op.scans : Op → Prop
  | .stat _ | .ctime _ | .readdir _ | .openIn _ | .get _ _ _ => True
  | _ => False

theorem scans_looks (op : Op) (scans : op.scans) : op.looks := by
  cases op with
  | stat | ctime | readdir | openIn | get => trivial
  | _ => exact scans.elim

section

variable (self : FileSync) (fuel : Nat)

theorem updateBlocks_scans (md5 : Md5) (path : Bytes) (pos : Nat) (ctx : md5.Ctx) :
    Program.All Op.scans (updateBlocks md5 path fuel pos ctx) := by
  induction fuel generalizing pos ctx with
  | zero => trivial
  | succ fuel ih =>
      simp only [updateBlocks, Program.ask_bind, Program.all_call]
      refine ⟨trivial, fun buffer => ?_⟩
      split
      · exact ih _ _
      · split <;> trivial

theorem calculateMD5_scans (md5 : Md5) (path : Bytes) :
    Program.All Op.scans (calculateMD5 md5 fuel path) := by
  simp only [calculateMD5, Program.ask_bind, Program.all_call]
  refine ⟨trivial, fun file => ?_⟩
  split
  · exact (updateBlocks_scans fuel md5 path 0 _).bind fun _ => trivial
  · trivial

theorem calculateMD5_looks (md5 : Md5) (path : Bytes) :
    Program.All Op.looks (calculateMD5 md5 fuel path) :=
  (calculateMD5_scans fuel md5 path).mono scans_looks

theorem collectEach_scans {recurse : Bytes → Prog MetadataMap}
    (recurses : ∀ path, Program.All Op.scans (recurse path)) (files : List Bytes)
    (map : MetadataMap) : Program.All Op.scans (collectEach self fuel recurse files map) := by
  induction files generalizing map with
  | nil => trivial
  | cons path files ih =>
      simp only [collectEach, getFileStat, Program.ask_bind, Program.all_call]
      refine ⟨trivial, fun stat => ?_⟩
      cases stat with
      | none => exact ih map
      | some node =>
          dsimp only
          split
          · apply (calculateMD5_scans fuel _ _).bind
            intro md5
            split
            · exact (recurses path).bind fun sub => ih _
            · exact ih _
          · rw [Program.pure_eq, Program.done_bind]
            split
            · exact (recurses path).bind fun sub => ih _
            · exact ih _

theorem collectMetadata_scans (depth : Nat) (directory : Bytes) :
    Program.All Op.scans (collectMetadata self fuel depth directory) := by
  induction depth generalizing directory with
  | zero => trivial
  | succ depth ih =>
      simp only [collectMetadata, listDirectory, Program.ask_bind, Program.call_bind,
        Program.all_call]
      exact ⟨trivial, fun names => collectEach_scans self fuel ih _ _⟩

theorem collectMetadata_looks (depth : Nat) (directory : Bytes) :
    Program.All Op.looks (collectMetadata self fuel depth directory) :=
  (collectMetadata_scans self fuel depth directory).mono scans_looks

theorem detectChanges_scans (srcDir destDir : Bytes) :
    Program.All Op.scans (detectChanges self fuel srcDir destDir) := by
  unfold detectChanges
  apply (collectMetadata_scans self fuel fuel srcDir).bind
  intro map
  apply (collectMetadata_scans self fuel fuel destDir).bind
  intro other
  trivial

theorem detectChanges_looks (srcDir destDir : Bytes) :
    Program.All Op.looks (detectChanges self fuel srcDir destDir) :=
  (detectChanges_scans self fuel srcDir destDir).mono scans_looks

end

/-- A client whose files others may change. -/
def beside : Interference World where
  rely w w' := w'.sent = w.sent ∧ w'.received = w.received
  guar w w' := w' = w
  rely_refl := traffic_refl
  rely_trans := traffic_trans
  guar_refl _ := rfl

/-- Whenever the client looks at a file below the source directory, it holds what it held at
first. -/
def Unchanged (fs : FileSystem) (srcDir : Bytes) : Policy := fun op _ w =>
  ∀ rest, (op = .stat (srcDir ++ slash :: rest) ∨ op = .seekEnd (srcDir ++ slash :: rest) ∨
    ∃ pos count, op = .get (srcDir ++ slash :: rest) pos count) →
      w.fs.read (srcDir ++ slash :: rest) = fs.read (srcDir ++ slash :: rest)

/-- The keys of a scan are paths below the directory, and what it takes for files are files. -/
def Keyed (fs : FileSystem) (srcDir : Bytes) (map : MetadataMap) : Prop :=
  ∀ key entry, map.lookup key = some entry → ∃ names, names ≠ [] ∧
    (∀ name ∈ names, ProperName name) ∧ key = srcDir ++ below names ∧
    (S_ISDIR entry.mode = false → fs.read key ≠ none)

section

variable {fs : FileSystem} {srcDir : Bytes} {policy : Policy} {map sub : MetadataMap} {w : World}
  {α : Type} {self : FileSync} {fuel : Nat}

theorem Unchanged.read {op : Op} {choice : Choice} (steady : Unchanged fs srcDir op choice w)
    {names : Path} (nonempty : names ≠ [])
    (looked : op = .stat (srcDir ++ below names) ∨ op = .seekEnd (srcDir ++ below names) ∨
      ∃ pos count, op = .get (srcDir ++ below names) pos count) :
    w.fs.read (srcDir ++ below names) = fs.read (srcDir ++ below names) := by
  obtain ⟨rest, cut⟩ := exists_below_eq nonempty
  rw [cut] at looked ⊢
  exact steady rest looked

theorem Keyed.union (first : Keyed fs srcDir map) (second : Keyed fs srcDir sub) :
    Keyed fs srcDir (map ∪ sub) := by
  intro key entry found
  rcases AList.lookup_union_eq_some.mp found with old | ⟨-, new⟩
  · exact first key entry old
  · exact second key entry new

theorem Keyed.insert (first : Keyed fs srcDir map) {names : Path} (nonempty : names ≠ [])
    (proper : ∀ name ∈ names, ProperName name) {entry : FileMetadata}
    (file : S_ISDIR entry.mode = false → fs.read (srcDir ++ below names) ≠ none) :
    Keyed fs srcDir (map.insert (srcDir ++ below names) entry) := by
  intro key entry' found
  by_cases same : key = srcDir ++ below names
  · subst same
    rw [AList.lookup_insert] at found
    obtain rfl := Option.some.inj found
    exact ⟨names, nonempty, proper, rfl, file⟩
  · rw [AList.lookup_insert_ne same] at found
    exact first key entry' found

/-- A program that only looks, while others move. -/
theorem looks_sat {p : Prog α} (all : Program.All Op.looks p) :
    Program.Sat (handler policy True) beside p (fun _ _ => True) w := by
  apply all.sat (fun _ => True) trivial (fun _ _ _ _ => trivial) _ trivial
  rintro op w₁ answer w₂ looks - ⟨choice, -, ran⟩
  have same := run_looks looks choice w₁
  rw [ran] at same
  exact ⟨same, trivial⟩

/-- What a list of tasks has to do with the source directory: the tasks are for different paths
below it, and those for files are for files. -/
structure Listed (fs : FileSystem) (srcDir destDir : Bytes) (tasks : List SyncTask) : Prop where
  only : ∀ task ∈ tasks, ∃ names, names ≠ [] ∧ (∀ name ∈ names, ProperName name) ∧
    task.srcPath = srcDir ++ below names ∧ task.destPath = destDir ++ below names
  files : ∀ task ∈ tasks, task.isDirectory = false → fs.read task.srcPath ≠ none
  distinct : tasks.Pairwise fun task other => task.srcPath ≠ other.srcPath

/-- A program that only looks says nothing and hears nothing. -/
theorem looks_silent {p p' : Prog α} {w' : World} (all : Program.All Op.looks p)
    (run : Program.Reach (handler policy True).exec beside.rely p w p' w') :
    w'.sent = w.sent ∧ w'.received = w.received := by
  apply (looks_sat all).invariant (fun s => s.sent = w.sent ∧ s.received = w.received)
    ⟨rfl, rfl⟩ _ _ run
  · exact fun s s' drift now => ⟨drift.1.trans now.1, drift.2.trans now.2⟩
  · intro s s' same now
    rwa [same]

end

end SyncTool
