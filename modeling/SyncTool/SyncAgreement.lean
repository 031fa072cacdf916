import SyncTool.SkipComplete

set_option autoImplicit false

namespace SyncTool

open SyncTool.Path LinuxFileUtil FileSync

namespace SyncManager

section

variable {self : FileSync} {srcDir destDir : Bytes} {src dest : Path} {fuel : Nat} {w w₁ : World}
  {tasks : List SyncTask} {spins : Prop} {fs fs₁ fs₂ : FileSystem}

/-- The strategy refuses no copy that is due. -/
def Unopposed (self : FileSync) (fs : FileSystem) (srcDir destDir : Bytes) (src dest : Path) :
    Prop :=
  self.conflictStrategy = .skip → ∀ names ∈ tasked self.md5 fs srcDir destDir, ∀ content,
    fs.entry (src ++ names) = some (.file content) → fs.entry (dest ++ names) = none

/-- No name of either tree ends like a backup's. -/
def Unsaved (fs : FileSystem) (src dest : Path) : Prop :=
  ∀ names name, (fs.entry (src ++ (names ++ [name])) ≠ none ∨
    fs.entry (dest ++ (names ++ [name])) ≠ none) → ¬ bakSuffix <:+ name

theorem succeeds_iff (site : Site fs srcDir destDir src dest) (unsaved : Unsaved fs src dest) :
    (∀ names ∈ tasked self.md5 fs srcDir destDir, Succeeds self fs src dest names) ↔
      Unopposed self fs srcDir destDir src dest := by
  have nodes : ∀ names ∈ tasked self.md5 fs srcDir destDir, names ≠ [] ∧
      fs.entry (src ++ names) ≠ none :=
    tasked_nodes site.srcFound
  constructor
  · intro succeed skips names member content file
    rcases succeed names member with isDir | ⟨-, proceeds⟩
    · rw [file] at isDir
      cases isDir
    · by_contra exist
      obtain ⟨entry, there⟩ := Option.ne_none_iff_exists'.mp exist
      cases entry with
      | dir =>
          have same := (site.kinds names (nodes names member).1 _ _ file there).mpr rfl
          cases same
      | file older =>
          have held : fs.contentAt (dest ++ names) ≠ none := by
            rw [FileSystem.contentAt_eq_some.mpr there]
            exact Option.some_ne_none _
          exact (proceeds held).1 skips
  · intro unopposed names member
    obtain ⟨nonempty, there⟩ := nodes names member
    obtain ⟨entry, here⟩ := Option.ne_none_iff_exists'.mp there
    cases entry with
    | dir => exact .inl here
    | file content =>
        right
        refine ⟨⟨content, here⟩, fun held => ⟨fun skips => ?_, fun _ => ?_⟩⟩
        · have free := unopposed skips names member content here
          exact held (FileSystem.contentAt_of_entry free)
        · obtain ⟨init, name, rfl⟩ := (List.eq_nil_or_concat' names).resolve_left nonempty
          rw [suffixed_concat]
          intro isDir
          exact unsaved init (name ++ bakSuffix) (.inr (by simp [isDir]))
            (List.suffix_append name bakSuffix)

/-- What the tasks of a detection leave when all of them are carried out. -/
structure Outcome (sync : FileSync) (fs : FileSystem) (srcDir destDir : Bytes) (src dest : Path)
    (fs' : FileSystem) : Prop where
  executed : Executed sync fs destDir src dest (tasked sync.md5 fs srcDir destDir) fs'
  idle : ¬ (tasked sync.md5 fs srcDir destDir).Nonempty → fs'.entry = fs.entry

theorem Outcome.unique (trees : Trees fs srcDir destDir src dest)
    (first : Outcome self fs srcDir destDir src dest fs₁)
    (second : Outcome self fs srcDir destDir src dest fs₂) : fs₁.entry = fs₂.entry := by
  by_cases inhabited : (tasked self.md5 fs srcDir destDir).Nonempty
  · funext p
    exact first.executed.unique trees (tasked_covers trees inhabited) second.executed p
  · rw [first.idle inhabited, second.idle inhabited]

/-- `FileSync::syncLocal`: every task is carried out, unless it reports a failure, and it does so
just in case a copy is refused. -/
theorem syncLocal_outcome (site : Site w.fs srcDir destDir src dest)
    (unsaved : Unsaved w.fs src dest)
    (destIsDir : w.fs.entry dest = some .dir) (source : Scannable spins w.fs srcDir fuel fuel)
    (target : Scannable spins w.fs destDir fuel fuel)
    (enough : ∀ names content, w.fs.entry (src ++ names) = some (.file content) →
      Enough spins content.length fuel) :
    Program.Sat (handler (Policy.reliable (Roomy w.fs)) spins) Interference.free
      (FileSync.syncLocal self fuel srcDir destDir)
      (fun ok w' => (ok = true ↔ Unopposed self w.fs srcDir destDir src dest) ∧
        (ok = true → Outcome self w.fs srcDir destDir src dest w'.fs)) w := by
  have sound : ∀ op choice w', Policy.reliable (Roomy w.fs) op choice w' →
      Policy.reliable (Roomy w.fs) op choice w' := fun _ _ _ allowed => allowed
  have found : w.fs.resolve destDir = some dest := by
    rcases site.trees.overlay.dest_found with ⟨found, -⟩ | ⟨-, missing⟩
    · exact found
    · rw [destIsDir] at missing
      cases missing
  have present : w.fs.stat destDir ≠ none := by
    rw [FileSystem.stat_ne_none]
    exact ⟨dest, found, by simp [destIsDir]⟩
  rw [FileSync.syncLocal]
  apply Program.Sat.bind
  apply (createDirectory_present (fun _ _ same => Eq.symm same) present _).weaken
  rintro made w₁ ⟨rfl, rfl⟩
  simp only [↓reduceIte]
  apply Program.Sat.bind
  apply (detected_sat sound site.srcFound source target).weaken
  rintro tasks w₂ ⟨⟨jobs, rfl, distinct, members⟩, rfl⟩
  rw [executeAll_eq, List.map_map]
  have separate : Separate self w₂.fs src dest (tasked self.md5 w₂.fs srcDir destDir) :=
    site.separate unsaved
  have nodes : ∀ names ∈ tasked self.md5 w₂.fs srcDir destDir, names ≠ [] ∧
      w₂.fs.entry (src ++ names) ≠ none :=
    tasked_nodes site.srcFound
  have carried := separate.inTurn_executed site.trees nodes sound enough distinct members rfl
  by_cases inhabited : (tasked self.md5 w₂.fs srcDir destDir).Nonempty
  · apply carried.weaken
    rintro ok w₃ ⟨told, executed⟩
    refine ⟨told.trans (succeeds_iff site unsaved), fun right => ⟨executed right, ?_⟩⟩
    exact fun blank => absurd inhabited blank
  · have blank : jobs = [] := by
      apply List.eq_nil_iff_forall_not_mem.mpr
      exact fun names member => inhabited ⟨names, (members names).mp member⟩
    subst blank
    intro w₃ still
    obtain rfl : w₂ = w₃ := still
    obtain ⟨told, executed⟩ := carried w₂ rfl
    exact ⟨told.trans (succeeds_iff site unsaved), fun right => ⟨executed right, fun _ => rfl⟩⟩

/-- What the pool is to achieve, and what it has to do with everybody else. -/
theorem carrying (site : Site w.fs srcDir destDir src dest)
    (separate : Separate self w.fs src dest (tasked self.md5 w.fs srcDir destDir))
    (detected : Detected self srcDir destDir src w tasks w₁)
    (enough : ∀ names content, w.fs.entry (src ++ names) = some (.file content) →
      Enough spins content.length fuel)
    {pool : ThreadPool Op Res World SyncTask 1}
    (run : Relation.ReflTransGen
      (ThreadPool.Step (handler (Policy.reliable (Roomy w.fs)) spins).exec
        (executeSyncTask self fuel))
      (.boot tasks w₁) pool) :
    ThreadPool.Sound tasks pool ∧
      ThreadPool.Working (fun task => Sum.inl (namesOf srcDir task))
        (fun i => (separate.part site.trees i).interference)
        (fun i => (separate.part site.trees i).interference.solo)
        (Separate.Goal self w.fs destDir src dest (tasked self.md5 w.fs srcDir destDir))
        (handler (Policy.reliable (Roomy w.fs)) spins) tasks w₁ pool := by
  have sound : ∀ op choice w', Policy.reliable (Roomy w.fs) op choice w' →
      Policy.reliable (Roomy w.fs) op choice w' := fun _ _ _ allowed => allowed
  obtain ⟨⟨jobs, rfl, distinct, members⟩, rfl⟩ := detected
  have nodes : ∀ names ∈ tasked self.md5 w₁.fs srcDir destDir, names ≠ [] ∧
      w₁.fs.entry (src ++ names) ≠ none :=
    tasked_nodes site.srcFound
  have nonempty : ∀ names ∈ tasked self.md5 w₁.fs srcDir destDir, names ≠ [] := fun names member =>
    (nodes names member).1
  have there : ∀ names ∈ jobs, w₁.fs.entry (src ++ names) ≠ none := fun names member =>
    (nodes names ((members names).mp member)).2
  apply ThreadPool.run_working _ _ _ (.inl (by decide)) _ _ _ run
  · intro i j other w₂ w₃ did
    exact did.rely (separate.part_apart site.trees nonempty other.symm)
  · exact fun i w₂ w₃ drift reached => separate.goal_rely site.trees drift reached
  · exact fun i w₂ w₃ promised => promised
  · intro task member w₂ drift
    obtain ⟨names, job, rfl⟩ := List.mem_map.mp member
    rw [namesOf_taskAt (there names job)] at drift ⊢
    have works := separate.works site.trees nonempty sound enough ((members names).mp job)
      (there names job) rfl drift
    apply works.weaken
    rintro ok w₃ ⟨-, reached⟩
    exact reached
  · intro task member other member' same
    exact taskAt_apart there task member other member' (Sum.inl_injective same)
  · exact taskAt_once there distinct

/-- `SyncManager::syncLocal` with one worker: every task is carried out. -/
theorem carried_out (site : Site w.fs srcDir destDir src dest)
    (separate : Separate self w.fs src dest (tasked self.md5 w.fs srcDir destDir))
    (detected : Detected self srcDir destDir src w tasks w₁)
    (enough : ∀ names content, w.fs.entry (src ++ names) = some (.file content) →
      Enough spins content.length fuel)
    {pool : ThreadPool Op Res World SyncTask 1}
    (run : Relation.ReflTransGen
      (ThreadPool.Step (handler (Policy.reliable (Roomy w.fs)) spins).exec
        (executeSyncTask self fuel))
      (.boot tasks w₁) pool) (finished : pool.Finished) :
    Outcome self w.fs srcDir destDir src dest pool.state.fs := by
  obtain ⟨books, working⟩ := carrying site separate detected enough run
  obtain ⟨goals, rest⟩ := working.finished books finished
  obtain ⟨⟨jobs, rfl, -, members⟩, rfl⟩ := detected
  have there : ∀ names ∈ jobs, w₁.fs.entry (src ++ names) ≠ none := fun names member =>
    (tasked_nodes site.srcFound names ((members names).mp member)).2
  constructor
  · apply separate.executed_of site.trees rfl jobs fun names member => (members names).mpr member
    · intro names job
      have goal := goals _ (List.mem_map_of_mem job)
      rwa [namesOf_taskAt (there names job)] at goal
    · intro q
      exact rest (.inr q) fun task _ => by simp
  · intro blank
    have none_ : jobs = [] := by
      apply List.eq_nil_iff_forall_not_mem.mpr
      exact fun names member => blank ⟨names, (members names).mp member⟩
    subst none_
    have each : ∀ (op : Op) (w₂ : World) (answer : Res op) (w₃ : World), False → w₂ = w₁ →
        (handler (Policy.reliable (Roomy w₁.fs)) spins).exec op w₂ answer w₃ → w₃ = w₁ :=
      fun _ _ _ _ impossible => impossible.elim
    have still : pool.state = w₁ := ThreadPool.run_all each (by simp) rfl run
    rw [still]

/-- The two local syncs, the second one with a single worker, both come to an end where no
call fails; they agree on success and on all that is there afterwards, if and only if no copy
is refused. -/
theorem syncLocal_agree (site : Site w.fs srcDir destDir src dest) (unsaved : Unsaved w.fs src dest)
    (destIsDir : w.fs.entry dest = some .dir) : ∃ enough, ∀ fuel, enough ≤ fuel →
      Program.Returns (handler (Policy.reliable (Roomy w.fs)) False).exec (fun _ _ => True)
        (FileSync.syncLocal self fuel srcDir destDir) w ∧
      (∃ w₂ : World, Runs self fuel (Policy.reliable (Roomy w.fs)) srcDir destDir w
        (.returned w₂ : SyncManager 1)) ∧
      ((∀ ok w₁, Program.Reach (handler (Policy.reliable (Roomy w.fs)) True).exec Eq
          (FileSync.syncLocal self fuel srcDir destDir) w (.done ok) w₁ →
        ∀ w₂ : World, Runs self fuel (Policy.reliable (Roomy w.fs)) srcDir destDir w
            (.returned w₂ : SyncManager 1) →
          ok = true ∧ w₁.fs.entry = w₂.fs.entry) ↔
        Unopposed self w.fs srcDir destDir src dest) := by
  obtain ⟨bound, scannable⟩ := exists_scannable w.fs
  obtain ⟨size, -, files⟩ := w.fs.exists_bound
  refine ⟨bound + size + ASYNC_CHUNK_SIZE + 1, fun fuel more => ?_⟩
  have enough : ∀ names content, w.fs.entry (src ++ names) = some (.file content) →
      Enough False content.length fuel := by
    intro names content file
    have short := files _ content file
    exact enough_of_lt (by omega)
  have sound : ∀ op choice w', Policy.reliable (Roomy w.fs) op choice w' →
      Policy.reliable (Roomy w.fs) op choice w' := fun _ _ _ allowed => allowed
  have answered : ∀ op w₁, ∃ answer w₂,
      (handler (Policy.reliable (Roomy w.fs)) False).exec op w₁ answer w₂ := fun op w₁ =>
    ⟨_, _, Policy.quietly_reliable (Roomy w.fs) False size
      (fun p content file => (files p content file).le) op w₁⟩
  have separate : Separate self w.fs src dest (tasked self.md5 w.fs srcDir destDir) :=
    site.separate unsaved
  have source := scannable fuel (by omega) srcDir
  have target := scannable fuel (by omega) destDir
  -- the first sync, with fuel enough
  have first : Program.Sat (handler (Policy.reliable (Roomy w.fs)) False) Interference.free
      (FileSync.syncLocal self fuel srcDir destDir) _ w :=
    syncLocal_outcome site unsaved destIsDir source target enough
  -- the scan of the second one
  have scan : Program.Sat (handler (Policy.reliable (Roomy w.fs)) False) Interference.free
      (detectChanges self fuel srcDir destDir) (Detected self srcDir destDir src w) w :=
    detected_sat sound site.srcFound source target
  have second : ∀ w₂ : World, Runs self fuel (Policy.reliable (Roomy w.fs)) srcDir destDir w
      (.returned w₂ : SyncManager 1) → Outcome self w.fs srcDir destDir src dest w₂.fs := by
    intro w₂ run
    obtain ⟨tasks, w₁, pool, detected, work, finished, rfl⟩ := phase_of_runs scan run
    exact carried_out site separate detected enough work finished
  have ran : ∃ w₂ : World, Runs self fuel (Policy.reliable (Roomy w.fs)) srcDir destDir w
      (.returned w₂ : SyncManager 1) := by
    obtain ⟨tasks, w₁, scanned, detected⟩ := (scan.returns id answered).exists_run
    obtain ⟨pool, work, finished⟩ : ∃ pool : ThreadPool Op Res World SyncTask 1,
        Relation.ReflTransGen (ThreadPool.Step (handler (Policy.reliable (Roomy w.fs)) False).exec
          (executeSyncTask self fuel)) (.boot tasks w₁) pool ∧ pool.Finished := by
      apply ThreadPool.exists_finished 0
      intro pool task p run held
      obtain ⟨-, working⟩ := carrying site separate detected enough run
      obtain ⟨verdict, w₂, ended, -⟩ :=
        ((working.running 0 task p held).returns id answered).exists_run
      exact ⟨verdict, w₂, ended⟩
    exact ⟨pool.state, run_of_phases scanned work finished⟩
  have returns := first.returns id answered
  refine ⟨returns.mono fun _ _ _ => trivial, ran, ?_⟩
  constructor
  · intro agree
    obtain ⟨ok, w₁, run, told, -⟩ := returns.exists_run
    obtain ⟨w₂, run'⟩ := ran
    exact told.mp (agree ok w₁ run w₂ run').1
  · intro unopposed ok w₁ run w₂ run'
    obtain ⟨told, outcome⟩ := first.returned run
    have right := told.mpr unopposed
    exact ⟨right, (outcome right).unique site.trees (second w₂ run')⟩

end

def backing : FileSync := { managed with conflictStrategy := .rename }

/-- `/d/a` is renamed, and both files arrive. -/
theorem syncLocal_agree_pair : ∃ enough, ∀ fuel, enough ≤ fuel →
    Program.Returns (handler (Policy.reliable (Roomy pairFs)) False).exec (fun _ _ => True)
      (FileSync.syncLocal backing fuel [47, 115] [47, 100]) (World.boot pairFs) ∧
    (∃ w₂ : World, Runs backing fuel (Policy.reliable (Roomy pairFs)) [47, 115] [47, 100]
      (World.boot pairFs) (.returned w₂ : SyncManager 1)) ∧
    ((∀ ok w₁, Program.Reach (handler (Policy.reliable (Roomy pairFs)) True).exec Eq
        (FileSync.syncLocal backing fuel [47, 115] [47, 100]) (World.boot pairFs) (.done ok) w₁ →
      ∀ w₂ : World, Runs backing fuel (Policy.reliable (Roomy pairFs)) [47, 115] [47, 100]
          (World.boot pairFs) (.returned w₂ : SyncManager 1) →
        ok = true ∧ w₁.fs.entry = w₂.fs.entry) ↔
      Unopposed backing pairFs [47, 115] [47, 100] [[115]] [[100]]) :=
  syncLocal_agree (w := World.boot pairFs) pair_site pair_noBackups (by decide +kernel)

/-- The size of the disk is not asked for. -/
def frugal : Op → World → Bool
  | .statvfs _, _ => false
  | _, _ => true

theorem admits_frugal (space : Nat → Prop) (amount : Nat) (allowed : space amount) :
    Admits (Policy.reliable space) frugal := by
  intro op w asked
  have quiet := Policy.quietly_reliable space True amount allowed op w
  cases op with
  | statvfs path => cases asked
  | _ => exact quiet

/-- The first sync gives up at the file it is to skip, before it has copied the other one; the
second one copies that and reports success. -/
theorem syncLocal_disagree : ∃ w₁ w₂ : World,
    Program.Reach (handler (Policy.reliable (Roomy pairFs)) True).exec Eq
      (FileSync.syncLocal skipping 3 [47, 115] [47, 100]) (World.boot pairFs) (.done false) w₁ ∧
    w₁.fs.entry [[100], [98]] = none ∧
    Runs skipping 3 (Policy.reliable (Roomy pairFs)) [47, 115] [47, 100] (World.boot pairFs)
      (.returned w₂ : SyncManager 1) ∧
    w₂.fs.entry [[100], [98]] = some (.file [66]) := by
  have roomy : Roomy pairFs 2 := roomy_of_keys (by decide +kernel)
  obtain ⟨w₁, run, seen⟩ := Program.reach_of_play Eq
    (Policy.quietly_reliable (Roomy pairFs) True 2 roomy)
      (FileSync.syncLocal skipping 3 [47, 115] [47, 100])
    (World.boot pairFs) false (fun w' => w'.fs.entry [[100], [98]]) none (by decide +kernel)
  obtain ⟨w₂, run', seen'⟩ :=
    runs_of_moves (admits_frugal (Roomy pairFs) 2 roomy) skipping 3 [47, 115]
    [47, 100] (World.boot pairFs)
      (List.replicate 14 .main ++ List.replicate 20 (.worker (0 : Fin 1)) ++ [.main])
    (fun w' => w'.fs.entry [[100], [98]]) (some (.file [66])) (by decide +kernel)
  exact ⟨w₁, w₂, run, seen, run', seen'⟩

end SyncManager

end SyncTool
