import SyncTool.LocalFootprint
import SyncTool.ProgramUphold
import SyncTool.RpcFraming
import SyncTool.RpcListing

set_option autoImplicit false

namespace SyncTool

open SyncTool.Path LinuxFileUtil SyncServer FileSync RpcServer

/-- Read from `b`, a path string never leads out of it. -/
def StaysIn (b : Path) (suffix : Bytes) : Prop :=
  ∀ front, front <+: components suffix → b <+: front.foldl enter b

instance {b : Path} {suffix : Bytes} : Decidable (StaysIn b suffix) :=
  decidable_of_iff (∀ front ∈ (components suffix).inits, b.isPrefixOf (front.foldl enter b) = true)
    (by simp [StaysIn, List.mem_inits])

/-- A part of a path string that ends before a slash, or the whole. -/
def Fronts (suffix whole : Bytes) : Prop := suffix = whole ∨ ∃ more, whole = suffix ++ slash :: more

section

variable {cwd b : Path} {dir suffix whole : Bytes}

/-- What is put behind a slash is read from where the slash leads to. -/
theorem place_behind (cwd : Path) (dir suffix : Bytes) :
    place cwd (dir ++ [slash] ++ suffix) =
      (components suffix).foldl enter (place cwd (dir ++ [slash])) := by
  have nothing : components [] = [[]] := rfl
  have stays : ∀ here : Path, enter here [] = here := fun here => by simp [enter]
  rw [place, place, List.append_assoc, List.singleton_append, components_append_slash,
    components_append_slash, nothing, List.foldl_append, List.foldl_append, List.foldl_cons, stays,
    List.foldl_nil]
  have first : origin cwd (dir ++ slash :: suffix) = origin cwd (dir ++ [slash]) := by
    cases dir <;> rfl
  rw [first]

theorem StaysIn.place (stays : StaysIn b suffix) (base : place cwd (dir ++ [slash]) = b) :
    b <+: place cwd (dir ++ [slash] ++ suffix) := by
  rw [place_behind, base]
  exact stays _ (List.prefix_refl _)

theorem StaysIn.front (stays : StaysIn b whole) (fronts : Fronts suffix whole) :
    StaysIn b suffix := by
  rcases fronts with rfl | ⟨more, rfl⟩
  · exact stays
  · intro front before
    apply stays
    rw [components_append_slash]
    exact before.trans (List.prefix_append _ _)

/-- A path string without `..` stays where it is. -/
theorem staysIn_of_notMem (noDotdot : dotdot ∉ components suffix) : StaysIn b suffix := by
  intro front before
  have without : dotdot ∉ front := fun member => noDotdot (before.subset member)
  clear before
  suffices grows : ∀ here : Path, here <+: front.foldl enter here from grows b
  intro here
  induction front generalizing here with
  | nil => exact List.prefix_refl here
  | cons name names ih =>
      rw [List.foldl_cons]
      have other : name ≠ dotdot := fun same => without (same ▸ List.mem_cons_self)
      have later := ih (fun member => without (List.mem_cons_of_mem _ member)) (enter here name)
      apply List.IsPrefix.trans _ later
      rw [enter, if_neg other]
      split
      · exact List.prefix_refl here
      · exact List.prefix_append here [name]

end

/-- Outside `b` everything looks as before, and every directory is still one. -/
structure ConfinedTo (b : Path) (fs fs' : FileSystem) : Prop where
  dirs : fs.DirsKept fs'
  rest : ∀ q, ¬ b <+: q → fs'.seen q = fs.seen q

/-- The base directory is there. -/
structure Based (base : Bytes) (b : Path) (fs : FileSystem) : Prop where
  found : fs.resolve base = some b
  isDir : fs.entry b = some .dir

section

variable {base : Bytes} {b : Path} {fs fs₁ fs₂ fs₃ : FileSystem} {w : World} {choice : Choice}

theorem ConfinedTo.refl (b : Path) (fs : FileSystem) : ConfinedTo b fs fs :=
  ⟨.refl fs, fun _ _ => rfl⟩

theorem ConfinedTo.trans (first : ConfinedTo b fs₁ fs₂) (second : ConfinedTo b fs₂ fs₃) :
    ConfinedTo b fs₁ fs₃ :=
  ⟨first.dirs.trans second.dirs, fun q outside =>
    (second.rest q outside).trans (first.rest q outside)⟩

theorem Based.kept (based : Based base b fs₁) (confined : ConfinedTo b fs₁ fs₂) :
    Based base b fs₂ where
  found := confined.dirs.resolve based.found
  isDir := confined.dirs.2 b based.isDir

/-- The calls that change no file, and accept no task. -/
def Op.aside (op : Op) : Prop := op.marks = [] ∧ ∀ task, op ≠ .pushTask task

theorem looks_aside (op : Op) (looks : op.looks) : op.aside := by
  cases op with
  | stat | ctime | readdir | openIn | get | connect => exact ⟨rfl, fun _ same => by cases same⟩
  | _ => exact looks.elim

/-- The calls of a session: besides those that change nothing, it makes the directories on the way
to its base directory and those of the path strings it was told, and files there. -/
inductive Touches (base : Bytes) (told : Bytes → Prop) : Op → Prop where
  | aside {op : Op} : op.aside → Touches base told op
  | way {path : Bytes} {mode : UInt32} : path ≠ [] → path ++ [slash] <+: base →
      Touches base told (.mkdir path mode)
  | mkdir {suffix : Bytes} {mode : UInt32} : told suffix →
      Touches base told (.mkdir (base ++ suffix) mode)
  | chmod {suffix : Bytes} {mode : UInt32} : told suffix →
      Touches base told (.chmod (base ++ suffix) mode)
  | openFd {suffix : Bytes} {how : FileSystem.Mode} {create : Bool} : told suffix →
      Touches base told (.openFd (base ++ suffix) how create)
  | write {suffix : Bytes} {append : Bool} {pos : Nat} {data : Bytes} : told suffix →
      Touches base told (.write (base ++ suffix) append pos data)

theorem Touches.mono {told told' : Bytes → Prop} (more : ∀ suffix, told suffix → told' suffix)
    {op : Op} (touches : Touches base told op) : Touches base told' op := by
  cases touches with
  | aside away => exact .aside away
  | way nonempty before => exact .way nonempty before
  | mkdir here => exact .mkdir (more _ here)
  | chmod here => exact .chmod (more _ here)
  | openFd here => exact .openFd (more _ here)
  | write here => exact .write (more _ here)

theorem Touches.not_push {told : Bytes → Prop} {op : Op} (touches : Touches base told op)
    (task : ServerSyncTask) : op ≠ .pushTask task := by
  cases touches with
  | aside away => exact away.2 task
  | _ => exact fun same => by cases same

/-- No call but one forgets or accepts a task. -/
theorem run_accepted {op : Op} (other : ∀ task, op ≠ .pushTask task) (choice : Choice) (w : World) :
    (op.run choice w).2.accepted = w.accepted := by
  cases op with
  | pushTask task => exact absurd rfl (other task)
  | _ =>
      simp only [Op.run, World.attempt, World.flush, World.fresh]
      repeat' split
      all_goals rfl

/-- A call that names a place in the directory leaves the others as they look. -/
theorem confined_of_dirs {op : Op} (choice : Choice) (dirs : w.fs.DirsKept (op.run choice w).2.fs)
    (inside : ∀ path ∈ op.marks, b <+: place w.fs.cwd path) :
    ConfinedTo b w.fs (op.run choice w).2.fs := by
  refine ⟨dirs, fun q outside => ?_⟩
  apply run_seen
  intro path member same
  apply outside
  rw [← same]
  exact inside path member

theorem attempt_dirs {result : Option FileSystem}
    (kept : ∀ fs, result = some fs → w.fs.DirsKept fs) :
    w.fs.DirsKept (w.attempt choice result).2.fs := by
  unfold World.attempt
  split
  · split
    · exact kept _ rfl
    · exact .refl _
  · exact .refl _

theorem run_mkdir_dirs (path : Bytes) (mode : UInt32) :
    w.fs.DirsKept ((Op.mkdir path mode).run choice w).2.fs := by
  apply attempt_dirs
  intro fs made
  obtain ⟨p, -, -, cwd, tree⟩ := FileSystem.mkdir_effect made
  exact FileSystem.dirsKept_of_update cwd tree fun _ => rfl

theorem run_chmod_dirs (path : Bytes) (mode : UInt32) :
    w.fs.DirsKept ((Op.chmod path mode).run choice w).2.fs := by
  apply attempt_dirs
  intro fs changed
  obtain ⟨cwd, tree⟩ := FileSystem.chmod_effect changed
  exact ⟨cwd, fun q isDir => by rw [tree]; exact isDir⟩

theorem run_openFd_dirs (path : Bytes) (how : FileSystem.Mode) (create : Bool) :
    w.fs.DirsKept ((Op.openFd path how create).run choice w).2.fs := by
  apply attempt_dirs
  intro fs opened
  obtain ⟨p, -, notDir, cwd, tree⟩ := FileSystem.open_effect opened
  exact FileSystem.dirsKept_of_update cwd tree fun isDir => absurd isDir notDir

theorem run_write_dirs (path : Bytes) (append : Bool) (pos : Nat) (data : Bytes) :
    w.fs.DirsKept ((Op.write path append pos data).run choice w).2.fs := by
  simp only [Op.run]
  split
  · next fs edited =>
      obtain ⟨p, content, -, file, cwd, tree⟩ := FileSystem.edit_effect edited
      exact FileSystem.dirsKept_of_update cwd tree fun isDir => by simp [file] at isDir
  · exact .refl _
  · exact .refl _

/-- Where a slash stands, what is before it is made first. -/
theorem slashPrefixes_of_split (seen path more : Bytes) :
    seen ++ path ∈ slashPrefixes seen (path ++ slash :: more) := by
  induction path generalizing seen with
  | nil => simp [slashPrefixes]
  | cons byte path ih =>
      have later := ih (seen ++ [byte])
      rw [List.append_assoc, List.singleton_append] at later
      rw [List.cons_append, slashPrefixes]
      split
      · exact List.mem_cons_of_mem _ later
      · exact later

/-- Nothing is made on the way to a directory that is there. -/
theorem run_mkdir_way (based : Based base b w.fs) {path : Bytes} {mode : UInt32}
    (nonempty : path ≠ []) (before : path ++ [slash] <+: base) :
    ((Op.mkdir path mode).run choice w).2 = w := by
  obtain ⟨more, split⟩ := before
  have exist : w.fs.stat base ≠ none :=
    FileSystem.stat_ne_none.mpr ⟨b, based.found, by simp [based.isDir]⟩
  have member : path ∈ slashPrefixes [] base ++ [base] := by
    rw [← split, List.append_assoc, List.singleton_append]
    exact List.mem_append_left _ (slashPrefixes_of_split [] path more)
  obtain ⟨p, found, there⟩ :=
    FileSystem.stat_ne_none.mp (stat_of_mem_prefixes exist member nonempty)
  have refused : w.fs.mkdir path mode choice.time = none := by
    rw [FileSystem.mkdir, found]
    simp [there]
  simp only [Op.run, refused, World.attempt]
  split <;> rfl

/-- What a session's call changes is in the base directory, if what it was told stays in there. -/
theorem Touches.run {dir : Bytes} {told : Bytes → Prop} {op : Op}
    (touches : Touches (dir ++ [slash]) told op) (stays : ∀ suffix, told suffix → StaysIn b suffix)
    (based : Based (dir ++ [slash]) b w.fs) (choice : Choice) :
    ConfinedTo b w.fs (op.run choice w).2.fs := by
  have top : place w.fs.cwd (dir ++ [slash]) = b := (FileSystem.resolve_eq_place based.found).symm
  have inside : ∀ suffix, told suffix → b <+: place w.fs.cwd (dir ++ [slash] ++ suffix) :=
    fun suffix here => (stays suffix here).place top
  cases touches with
  | aside away =>
      have nothing := away.1
      have frame := run_frame op choice w
      have unwritten : op.writes = [] := List.subset_nil.mp (nothing ▸ op.writes_subset_marks)
      apply confined_of_dirs
      · refine ⟨frame.1, fun q isDir => ?_⟩
        rw [frame.2 q (by simp [unwritten])]
        exact isDir
      · simp [nothing]
  | way nonempty before =>
      rw [run_mkdir_way based nonempty before]
      exact .refl b w.fs
  | @mkdir suffix mode here =>
      apply confined_of_dirs choice (run_mkdir_dirs _ _)
      simp only [Op.marks, Op.writes, List.mem_singleton, forall_eq]
      exact inside suffix here
  | @chmod suffix mode here =>
      apply confined_of_dirs choice (run_chmod_dirs _ _)
      simp only [Op.marks, List.mem_singleton, forall_eq]
      exact inside suffix here
  | @openFd suffix how create here =>
      apply confined_of_dirs choice (run_openFd_dirs _ _ _)
      simp only [Op.marks, Op.writes, List.mem_singleton, forall_eq]
      exact inside suffix here
  | @write suffix append pos data here =>
      apply confined_of_dirs choice (run_write_dirs _ _ _ _)
      simp only [Op.marks, Op.writes, List.mem_singleton, forall_eq]
      exact inside suffix here

end

section

variable {ok : Op → Prop}

theorem robustRead_all (reads : ∀ count, ok (.recv count)) (count fuel : Nat) (buffer : Bytes) :
    (robustRead count fuel buffer).All ok := by
  induction fuel generalizing buffer with
  | zero => trivial
  | succ fuel ih =>
      simp only [robustRead, Program.ask_bind, Program.all_ite, Program.all_call, Program.pure_eq]
      refine ⟨fun _ => ⟨reads _, fun n => ?_⟩, fun _ => trivial⟩
      cases n with
      | eintr => exact ih buffer
      | error => trivial
      | ok bytes =>
          simp only [Program.all_ite]
          exact ⟨fun _ => trivial, fun _ => ih _⟩

theorem receiveBytes_all (reads : ∀ count, ok (.recv count)) (fuel size : Nat) :
    (receiveBytes fuel size).All ok := by
  suffices rest : ∀ rounds buffer, (receiveRest size fuel rounds buffer).All ok from rest fuel []
  intro rounds
  induction rounds with
  | zero => exact fun _ => trivial
  | succ rounds ih =>
      intro buffer
      simp only [receiveRest, Program.all_ite, Program.pure_eq]
      refine ⟨fun _ => ?_, fun _ => trivial⟩
      apply (robustRead_all reads _ _ _).bind
      intro n
      cases n with
      | none => trivial
      | some bytes =>
          simp only [Program.all_ite]
          exact ⟨fun _ => trivial, fun _ => ih _⟩

theorem writeBuffer_all {path : Bytes} {append : Bool}
    (writes : ∀ pos data, ok (.write path append pos data)) (pos : Nat) (buffer : Bytes)
    (fuel written : Nat) :
    (writeBuffer path append pos buffer fuel written).All ok := by
  induction fuel generalizing written with
  | zero => trivial
  | succ fuel ih =>
      simp only [writeBuffer, Program.ask_bind, Program.all_ite, Program.all_call, Program.pure_eq]
      refine ⟨fun _ => ⟨writes _ _, fun n => ?_⟩, fun _ => trivial⟩
      cases n with
      | eintr => exact ih written
      | error => trivial
      | ok n => exact ih _

theorem receiveBlocks_all {path : Bytes} {append : Bool} (reads : ∀ count, ok (.recv count))
    (writes : ∀ pos data, ok (.write path append pos data)) (fileSize : Int) (inner fuel : Nat)
    (received : Int) (pos : Nat) :
    (receiveBlocks path append fileSize inner fuel received pos).All ok := by
  induction fuel generalizing received pos with
  | zero => trivial
  | succ fuel ih =>
      simp only [receiveBlocks, Program.all_ite, Program.pure_eq]
      refine ⟨fun _ => ?_, fun _ => trivial⟩
      apply (robustRead_all reads _ _ _).bind
      intro n
      cases n with
      | none => trivial
      | some buffer =>
          simp only [Program.all_ite]
          refine ⟨fun _ => trivial, fun _ => ?_⟩
          apply (writeBuffer_all writes _ _ _ _).bind
          intro written
          simp only [Program.all_ite]
          exact ⟨fun _ => ih _ _, fun _ => trivial⟩

theorem receiveFileData_all {path : Bytes} (reads : ∀ count, ok (.recv count))
    (opens : ∀ how create, ok (.openFd path how create)) (seeks : ok (.lseekEnd path))
    (writes : ∀ append pos data, ok (.write path append pos data)) (fuel : Nat)
    (fileSize resumeOffset : Int) : (receiveFileData fuel path fileSize resumeOffset).All ok := by
  have blocks : ∀ append received pos,
      (receiveBlocks path append fileSize fuel fuel received pos).All ok :=
    fun append => receiveBlocks_all reads (writes append) fileSize fuel fuel
  simp only [receiveFileData, Program.ask_bind, Program.all_ite, Program.all_call, Program.pure_eq]
  exact ⟨opens _ _, fun _ => ⟨fun _ => trivial, fun _ => ⟨fun _ => ⟨seeks, fun _ =>
    ⟨fun _ => ⟨opens _ _, fun _ => ⟨fun _ => trivial, fun _ => blocks _ _ _⟩⟩,
      fun _ => blocks _ _ _⟩⟩,
    fun _ => blocks _ _ _⟩⟩⟩

end

section

variable {base dest path : Bytes} {dir : Bytes} {server : SyncServer} {task : ServerSyncTask}

/-- What is made before a slash of a path string behind the base directory. -/
theorem touches_split {more : Bytes} {mode : UInt32} (nonempty : path ≠ [])
    (split : path ++ slash :: more = base ++ dest) :
    Touches base (Fronts · dest) (.mkdir path mode) := by
  rcases List.append_eq_append_iff.mp split with ⟨rest, rfl, after⟩ | ⟨rest, rfl, rfl⟩
  · cases rest with
    | nil =>
        have told : Fronts [] dest := .inr ⟨more, after.symm⟩
        have made := @Touches.mkdir (path ++ []) (Fronts · dest) [] mode told
        rw [List.append_nil]
        rwa [List.append_nil, List.append_nil] at made
    | cons byte rest =>
        obtain ⟨rfl, -⟩ := List.cons.inj after
        exact .way nonempty ⟨rest, by simp⟩
  · exact .mkdir (.inr ⟨more, rfl⟩)

theorem createDirectory_touches {mode : UInt32}
    (last : path ≠ [] → Touches base (Fronts · dest) (.mkdir path mode))
    (inner : ∀ front more, front ≠ [] → path = front ++ slash :: more →
      Touches base (Fronts · dest) (.mkdir front mode)) :
    (createDirectory path mode).All (Touches base (Fronts · dest)) := by
  apply createEach_all
  · exact fun path => .aside ⟨rfl, fun _ same => by cases same⟩
  · intro front member nonempty
    rcases List.mem_append.mp member with before | whole
    · obtain ⟨more, split⟩ := mem_slashPrefixes before
      exact inner front more nonempty split
    · obtain rfl := List.mem_singleton.mp whole
      exact last nonempty

/-- A task touches what its path string leads through, and nothing else. -/
theorem handleTask_touches (based : server.baseDirectory = base) (fuel : Nat) :
    (server.handleTask fuel task).All (Touches base (Fronts · task.destPath)) := by
  subst based
  have own : Fronts task.destPath task.destPath := .inl rfl
  have reads : ∀ count, Touches server.baseDirectory (Fronts · task.destPath) (.recv count) :=
    fun count => .aside ⟨rfl, fun _ same => by cases same⟩
  have offset :
      (server.receiveOffT fuel).All (Touches server.baseDirectory (Fronts · task.destPath)) :=
    (receiveBytes_all reads _ _).bind fun _ => trivial
  apply offset.bind
  intro resumeOffset
  cases resumeOffset with
  | none => trivial
  | some resumeOffset =>
      simp only [Program.all_ite]
      constructor
      · intro _
        apply createDirectory_touches
        · exact fun _ => .mkdir own
        · exact fun front more nonempty split => touches_split nonempty split.symm
      · intro _
        apply Program.All.bind
        · unfold makeParent
          split
          · trivial
          · next parent named =>
            obtain ⟨name, whole, -⟩ := eq_of_parentPath named
            apply createDirectory_touches
            · exact fun nonempty => touches_split nonempty whole.symm
            · intro front more nonempty split
              have longer : front ++ slash :: (more ++ slash :: name) =
                  server.baseDirectory ++ task.destPath := by
                rw [whole, split]
                simp
              exact touches_split nonempty longer
        · intro made
          simp only [Program.all_ite]
          refine ⟨fun _ => ?_, fun _ => trivial⟩
          apply (receiveFileData_all reads (fun _ _ => .openFd own)
            (.aside ⟨rfl, fun _ same => by cases same⟩) (fun _ _ _ => .write own) _ _ _).bind
          intro received
          simp only [Program.all_ite]
          refine ⟨fun _ => ?_, fun _ => trivial⟩
          apply Program.All.bind
          · exact ⟨.chmod own, fun _ => trivial⟩
          · exact fun _ => trivial

theorem handleTasks_touches (based : server.baseDirectory = base) (fuel : Nat)
    (tasks : List ServerSyncTask) :
    (server.handleTasks fuel tasks).All
      (Touches base fun suffix => ∃ task ∈ tasks, Fronts suffix task.destPath) := by
  induction tasks with
  | nil => trivial
  | cons task tasks ih =>
      have first : (server.handleTask fuel task).All
          (Touches base fun suffix => ∃ other ∈ task :: tasks, Fronts suffix other.destPath) := by
        apply (handleTask_touches based fuel).mono
        exact fun op touches => touches.mono fun suffix fronts => ⟨task, List.mem_cons_self, fronts⟩
      apply first.bind
      intro handled
      simp only [Program.all_ite]
      refine ⟨fun _ => ⟨.aside ⟨rfl, fun _ same => by cases same⟩, fun _ => ?_⟩, fun _ => trivial⟩
      apply ih.mono
      intro op touches
      apply touches.mono
      intro suffix told
      obtain ⟨other, member, fronts⟩ := told
      exact ⟨other, List.mem_cons_of_mem _ member, fronts⟩

end

open Throwing

/-- What others may do during a session: accept tasks of their own, and stay in the base directory
as well. -/
def Neighbourly (b : Path) (w w' : World) : Prop :=
  w.accepted <+: w'.accepted ∧ ConfinedTo b w.fs w'.fs

/-- A session that stays in its base directory as long as the tasks it has accepted do. -/
def confining (base : Bytes) (b : Path) : Interference World where
  rely := Neighbourly b
  guar w w' := w.accepted <+: w'.accepted ∧
    ((∀ task ∈ w'.accepted, StaysIn b task.destPath) → Based base b w.fs → ConfinedTo b w.fs w'.fs)
  rely_refl w := ⟨List.prefix_refl _, .refl b w.fs⟩
  rely_trans _ _ _ first second := ⟨first.1.trans second.1, first.2.trans second.2⟩
  guar_refl w := ⟨List.prefix_refl _, fun _ _ => .refl b w.fs⟩

section

variable {policy : Policy} {max_size fuel : Nat} {dir : Bytes} {b : Path} {server : SyncServer}
  {rpc : RpcServer} {w : World} {α β : Type}

/-- A part of a session after which no task is forgotten. -/
def Minds (policy : Policy) (max_size : Nat) (dir : Bytes) (b : Path) (p : ServerProg α) : Prop :=
  ∀ w : World, Upholds (handler policy True) max_size (confining (dir ++ [slash]) b) p
    (fun _ w' => w.accepted <+: w'.accepted) w

theorem Minds.bind {p : ServerProg α} {f : α → ServerProg β} (first : Minds policy max_size dir b p)
    (second : ∀ value, Minds policy max_size dir b (f value)) :
    Minds policy max_size dir b (p >>= f) := by
  intro w
  apply Upholds.bind
  apply (first w).weaken
  intro value w' grown
  apply (second value w').weaken
  exact fun _ _ more => grown.trans more

theorem Minds.ite {c : Prop} {_ : Decidable c} {p q : ServerProg α}
    (yes : c → Minds policy max_size dir b p) (no : ¬ c → Minds policy max_size dir b q) :
    Minds policy max_size dir b (if c then p else q) := by
  split
  · next holds => exact yes holds
  · next fails => exact no fails

theorem minds_pure (value : α) : Minds policy max_size dir b (pure value : ServerProg α) := by
  intro w
  apply upholds_pure
  exact fun w' moved => moved.1

theorem minds_system {ok : Op → Prop} {p : Prog α} (straight : p.Calls ok) (away : p.All Op.aside) :
    Minds policy max_size dir b (system p : ServerProg α) := by
  intro w
  apply upholds_system straight
  apply away.sat (fun w' : World => w.accepted <+: w'.accepted) (List.prefix_refl _)
  · exact fun w₁ w₂ moved sofar => sofar.trans moved.1
  · intro op w₁ answer w₂ away sofar ran
    obtain ⟨choice, -, ran⟩ := ran
    have touches : Touches (dir ++ [slash]) (fun _ => False) op := .aside away
    have same := run_accepted away.2 choice w₁
    rw [ran] at same
    refine ⟨⟨by rw [same], fun _ based => ?_⟩, by rwa [same]⟩
    have confined := touches.run (fun _ impossible => impossible.elim) based choice
    rwa [ran] at confined
  · trivial

theorem minds_allocate {bound size : Nat} {g : Unit → ServerProg α}
    (rest : Minds policy max_size dir b (g ())) :
    Minds policy max_size dir b (allocate bound size >>= g) :=
  fun w => upholds_allocate (rest w)

theorem recv_aside (count : Nat) : (Op.recv count).aside := ⟨rfl, fun _ same => by cases same⟩

theorem minds_close : Minds policy max_size dir b (system Sys.closeSocket : ServerProg Unit) :=
  minds_system (Program.calls_ask.mpr trivial : (Sys.closeSocket).Calls fun _ => True)
    ⟨⟨rfl, fun _ same => by cases same⟩, fun _ => trivial⟩

theorem receiveBytes_minds (size : Nat) :
    Minds policy max_size dir b (system (receiveBytes fuel size) : ServerProg (Option Bytes)) :=
  minds_system (receiveBytes_works _ _) (receiveBytes_all recv_aside _ _)

/-- A number from the connection. -/
theorem word_minds (size : Nat) (decode : Bytes → α) : Minds policy max_size dir b
    (system (receiveBytes fuel size >>= fun bytes => pure (bytes.map decode)) :
      ServerProg (Option α)) := by
  apply minds_system
  · exact (receiveBytes_works fuel size).bind fun bytes => Program.calls_done
  · exact (receiveBytes_all recv_aside fuel size).bind fun bytes => Program.all_done

theorem receivePath_minds : Minds policy max_size dir b (ServerProg.receivePath server fuel) := by
  apply (word_minds server.abi.size_t server.abi.decode).bind
  intro pathLen
  cases pathLen with
  | none => exact minds_pure none
  | some pathLen =>
      apply Minds.ite
      · intro _
        apply minds_allocate
        apply Minds.bind
        · unfold ServerProg.receiveSized
          split
          · exact receiveBytes_minds _
          · exact minds_pure none
        · exact fun buffer => minds_pure _
      · exact fun _ => minds_pure _

theorem receiveTask_minds : Minds policy max_size dir b (ServerProg.receiveTask server fuel) := by
  apply (word_minds server.abi.int server.abi.decodeInt).bind
  intro taskType
  cases taskType with
  | none => exact minds_pure none
  | some taskType =>
      apply receivePath_minds.bind
      intro srcPath
      cases srcPath with
      | none => exact minds_pure none
      | some srcPath =>
          apply receivePath_minds.bind
          intro destPath
          cases destPath with
          | none => exact minds_pure none
          | some destPath =>
              apply (word_minds server.abi.mode_t fun bytes =>
                UInt32.ofNat (server.abi.decode bytes)).bind
              intro mode
              cases mode with
              | none => exact minds_pure none
              | some mode =>
                  apply Minds.ite
                  · exact fun _ => minds_pure _
                  · exact fun _ => (word_minds server.abi.off_t server.abi.decodeInt).bind
                      fun _ => minds_pure _

/-- The tasks that are handled have been accepted. -/
theorem receiveTaskMetadata_accepts (count : Nat) (tasks : List ServerSyncTask)
    (sofar : ∀ task ∈ tasks, task ∈ w.accepted) :
    Upholds (handler policy True) max_size (confining (dir ++ [slash]) b)
      (ServerProg.receiveTaskMetadata server fuel count tasks)
      (fun out w' => w.accepted <+: w'.accepted ∧
        ∀ all, out = some all → ∀ task ∈ all, task ∈ w'.accepted) w := by
  induction count generalizing tasks w with
  | zero =>
      apply upholds_pure
      intro w' moved
      refine ⟨moved.1, ?_⟩
      intro all same
      obtain rfl := Option.some.inj same
      exact fun task member => moved.1.subset (sofar task member)
  | succ count ih =>
      apply Upholds.bind
      apply (receiveTask_minds w).weaken
      intro task w₁ grown
      cases task with
      | none =>
          apply upholds_pure
          intro w' moved
          exact ⟨grown.trans moved.1, by simp⟩
      | some task =>
          apply Upholds.bind
          have pushed :
              Program.Sat (handler policy True) (confining (dir ++ [slash]) b) (Sys.pushTask task)
              (fun _ w₃ => w₁.accepted <+: w₃.accepted ∧ task ∈ w₃.accepted) w₁ := by
            refine Program.sat_op.mpr fun w₂ moved choice _ => ?_
            refine ⟨⟨List.prefix_append _ _, fun _ _ => .refl b w₂.fs⟩, ?_⟩
            intro w₃ moved'
            have pushed : w₂.accepted ++ [task] <+: w₃.accepted := moved'.1
            constructor
            · exact moved.1.trans ((List.prefix_append _ _).trans pushed)
            · exact pushed.subset (List.mem_append_right _ List.mem_cons_self)
          apply (upholds_system (Program.calls_ask.mpr trivial : (Sys.pushTask task).Calls
            fun _ => True) pushed).weaken
          intro _ w₂ after
          obtain ⟨longer, there⟩ := after
          have all : ∀ other ∈ tasks ++ [task], other ∈ w₂.accepted := by
            intro other member
            rcases List.mem_append.mp member with before | last
            · exact longer.subset (grown.subset (sofar other before))
            · rw [List.mem_singleton.mp last]
              exact there
          apply (ih (tasks ++ [task]) all).weaken
          intro out w₃ after
          exact ⟨grown.trans (longer.trans after.1), after.2⟩

theorem handleTasks_minds (based : server.baseDirectory = dir ++ [slash])
    (tasks : List ServerSyncTask) (accepted : ∀ task ∈ tasks, task ∈ w.accepted) :
    Upholds (handler policy True) max_size (confining (dir ++ [slash]) b)
      (system (server.handleTasks fuel tasks) : ServerProg Bool)
      (fun _ w' => w.accepted <+: w'.accepted) w := by
  apply upholds_system (handleTasks_works server fuel tasks)
  apply (handleTasks_touches based fuel tasks).sat (fun w' : World => w.accepted <+: w'.accepted)
    (List.prefix_refl _)
  · exact fun w₁ w₂ moved sofar => sofar.trans moved.1
  · intro op w₁ answer w₂ touches sofar ran
    obtain ⟨choice, -, ran⟩ := ran
    have same := run_accepted touches.not_push choice w₁
    rw [ran] at same
    refine ⟨⟨by rw [same], fun stays here => ?_⟩, by rwa [same]⟩
    have confined := touches.run (b := b) ?_ here choice
    · rwa [ran] at confined
    · intro suffix told
      obtain ⟨task, member, fronts⟩ := told
      have inside : task ∈ w₂.accepted := by
        rw [same]
        exact sofar.subset (accepted task member)
      exact (stays task inside).front fronts
  · trivial

theorem serve_minds (based : server.baseDirectory = dir ++ [slash]) :
    Minds policy max_size dir b (ServerProg.serve server fuel) := by
  intro w
  have count :
      Minds policy max_size dir b (system (server.receiveInt fuel) : ServerProg (Option Int)) :=
    word_minds server.abi.int server.abi.decodeInt
  apply Upholds.bind
  apply (count w).weaken
  intro taskCount w₁ grown₁
  cases taskCount with
  | none => exact upholds_pure fun w' moved => grown₁.trans moved.1
  | some taskCount =>
      apply Upholds.bind
      apply (receiveTaskMetadata_accepts taskCount.toNat [] (by simp)).weaken
      intro tasks w₂ after
      have grown₂ := grown₁.trans after.1
      cases tasks with
      | none => exact upholds_pure fun w' moved => grown₂.trans moved.1
      | some tasks =>
          apply (handleTasks_minds based tasks (after.2 tasks rfl)).weaken
          exact fun _ _ more => grown₂.trans more

theorem sendLoop_all {ok : Op → Prop} (sends : ∀ part, ok (.send part)) (data : Bytes)
    (fuel sent : Nat) :
    (sendLoop data fuel sent).All ok := by
  induction fuel generalizing sent with
  | zero => trivial
  | succ fuel ih =>
      simp only [sendLoop, Program.ask_bind, Program.all_ite, Program.all_call, Program.pure_eq]
      refine ⟨fun _ => ⟨sends _, fun n => ?_⟩, fun _ => trivial⟩
      cases n with
      | ok n => exact ih _
      | eintr => trivial
      | error => trivial

theorem send_aside (part : Bytes) : (Op.send part).aside := ⟨rfl, fun _ same => by cases same⟩

theorem sendAck_minds (success : Bool) :
    Minds policy max_size dir b (ServerProg.sendAck fuel success) := by
  apply Minds.bind
  · intro w
    apply upholds_note
    exact fun w' moved => moved.1
  · exact fun _ => minds_system (sendLoop_serves _ _ _) (sendLoop_all send_aside _ _ _)

theorem receiveRequest_minds :
    Minds policy max_size dir b (ServerProg.receiveRequest rpc fuel) := by
  have hears : ∀ size, (recvAll size fuel []).Calls Op.aside := fun size =>
    (RpcServer.receiveLoop size).straight recv_aside fuel []
  have number :
      Minds policy max_size dir b (system (rpc.recvUint32 fuel) : ServerProg (Option Nat)) := by
    have straight : (rpc.recvUint32 fuel).Calls Op.aside :=
      (hears 4).bind fun _ => Program.calls_done
    exact minds_system straight straight.all
  apply number.bind
  intro type
  cases type with
  | none => exact minds_pure none
  | some type =>
      apply number.bind
      intro payloadLen
      cases payloadLen with
      | none => exact minds_pure none
      | some payloadLen =>
          apply Minds.ite
          · exact fun _ => minds_pure none
          · intro _
            apply minds_allocate
            exact (minds_system (hears _) (hears _).all).bind fun _ => minds_pure _

theorem sendResponse_minds (response : RpcResponse) :
    Minds policy max_size dir b (ServerProg.sendResponse rpc fuel response) := by
  unfold ServerProg.sendResponse
  split
  · exact minds_pure false
  · next serialized _ =>
    have tells : ∀ data, (sendAll data fuel 0).Calls Op.aside := fun data =>
      (RpcServer.sendLoop data).straight send_aside fuel 0
    have frame : (rpc.sendFrame fuel response.type serialized).Calls Op.aside := by
      apply (tells _).bind
      intro typed
      cases typed with
      | false => trivial
      | true =>
          apply (tells _).bind
          intro measured
          cases measured with
          | false => trivial
          | true => exact tells _
    exact minds_system frame frame.all

theorem answerRequests_minds (rounds : Nat) (first : Bool) :
    Minds policy max_size dir b (ServerProg.answerRequests rpc fuel rounds first) := by
  induction rounds generalizing first with
  | zero => exact minds_system (show Program.Calls Op.aside .spin from trivial) trivial
  | succ rounds ih =>
      apply receiveRequest_minds.bind
      intro request
      cases request with
      | none => exact minds_close.bind fun _ => minds_pure first
      | some request =>
          have handled := respond_looks rpc fuel request
          apply (minds_system handled (handled.all.mono looks_aside)).bind
          intro response
          apply (sendResponse_minds response).bind
          intro sent
          apply Minds.ite
          · exact fun _ => ih false
          · exact fun _ => minds_close.bind fun _ => minds_pure false

theorem handleClient_minds (based : server.baseDirectory = dir ++ [slash]) :
    Minds policy max_size dir b (ServerProg.handleClient server rpc fuel) := by
  apply (receiveBytes_minds 1).bind
  intro mode
  cases mode with
  | none => exact minds_close.bind fun _ => minds_pure false
  | some mode =>
      apply Minds.ite
      · exact fun _ => answerRequests_minds fuel true
      · intro _
        apply Minds.ite
        · exact fun _ => minds_close.bind fun _ => minds_pure false
        · intro _
          apply (serve_minds based).bind
          intro served
          apply (sendAck_minds served).bind
          exact fun _ => minds_close.bind fun _ => minds_pure served

end

/-- The base directory gets a slash at its end, unless it is empty. -/
def SyncServer.setBaseDirectory (server : SyncServer) (baseDir : Bytes) : SyncServer :=
  { server with baseDirectory := withSlash baseDir }

theorem exists_withSlash {path : Bytes} (nonempty : path ≠ []) :
    ∃ dir, withSlash path = dir ++ [slash] := by
  rcases withSlash_cases path with ⟨empty, -⟩ | ⟨-, behind⟩ | ⟨front, rfl, same⟩
  · exact absurd empty nonempty
  · exact ⟨path, behind⟩
  · exact ⟨front, same⟩

/-- In every state that a session reaches, whatever it is sent and whatever fails, everything
outside of the base directory looks as at first, as long as no path string it has accepted leads out
of there. -/
theorem handleClient_confined (server : SyncServer) (rpc : RpcServer) (baseDir : Bytes)
    (nonempty : baseDir ≠ [])
    (fs : FileSystem) (b : Path) (found : fs.resolve (withSlash baseDir) = some b)
    (isDir : fs.entry b = some .dir) (drift : World → World → Prop)
    (neighbourly : ∀ w w', drift w w' → Neighbourly b w w') (policy : Policy) (max_size fuel : Nat)
    (q : Program (Guarded Op Bool) (GuardedRes Res) (Except Thrown Bool)) (s : Noted Bool World)
    (run : Program.Reach ((handler policy True).guarded max_size).exec
      (fun s s' => drift s.state s'.state)
      (ServerProg.handleClient (server.setBaseDirectory baseDir) rpc fuel).run
        (Noted.start (World.boot fs)) q s)
    (stays : ∀ task ∈ s.state.accepted, StaysIn b task.destPath) : ConfinedTo b fs s.state.fs := by
  obtain ⟨dir, slashed⟩ := exists_withSlash nonempty
  have based : Based (dir ++ [slash]) b fs := ⟨by rw [← slashed]; exact found, isDir⟩
  have minds : Minds policy max_size dir b
      (ServerProg.handleClient (server.setBaseDirectory baseDir) rpc fuel) :=
        handleClient_minds slashed
  have invariant := (minds (Noted.start (World.boot fs) : Noted Bool World).state).invariant
    (fun w : World => (∀ task ∈ w.accepted, StaysIn b task.destPath) → ConfinedTo b fs w.fs)
    (fun _ => .refl b fs) neighbourly ?_ ?_ run
  · exact invariant stays
  · intro w w' moved now stays'
    obtain ⟨accepted, confined⟩ := neighbourly w w' moved
    have before := now fun task member => stays' task (accepted.subset member)
    exact before.trans confined
  · intro w w' promised now stays'
    have before := now fun task member => stays' task (promised.1.subset member)
    exact before.trans (promised.2 stays' (based.kept before))

/-- A directory `c/../d`. -/
def crooked : ServerSyncTask := ⟨[99, 47, 46, 46, 47, 100], [], true, 0o755, 0⟩

/-- Mode 0, and that task. -/
def crookedStream : Bytes :=
  [0] ++ plainAbi.encode 4 1 ++ plainAbi.encode 4 1 ++ plainAbi.encode 8 0 ++ plainAbi.encode 8 6 ++
    crooked.destPath ++ plainAbi.encode 4 0o755 ++ plainAbi.encode 8 0

/-- A session of a server of `/a` that is sent it. -/
theorem handleClient_confined_crooked : ∃ s : Noted Bool World,
    Program.Reach ((handler ServerProg.smooth True).guarded plainAbi.max_size).exec
      (fun s s' => Neighbourly [[97]] s.state s'.state)
      (ServerProg.handleClient (plainServer.setBaseDirectory [47, 97]) localServer 20).run
      (Noted.start (World.boot nestedFs)) (.done (.ok true)) s ∧
    s.state.accepted = [crooked] ∧ ConfinedTo [[97]] nestedFs s.state.fs := by
  have played : (Program.play (ServerProg.delivering crookedStream plainAbi.max_size)
      (ServerProg.handleClient (plainServer.setBaseDirectory [47, 97]) localServer 20).run
      (Noted.start (World.boot nestedFs))).map (fun r => (r.1.toOption, r.2.state.accepted)) =
        some (some true, [crooked]) := by
    decide +kernel
  obtain ⟨⟨result, s⟩, plays, seen⟩ := Option.map_eq_some_iff.mp played
  obtain ⟨returned, accepted⟩ := Prod.mk.inj seen
  cases result with
  | error thrown => cases returned
  | ok value =>
      obtain rfl : value = true := Option.some.inj returned
      have run := Program.play_reach (fun s s' : Noted Bool World =>
        Neighbourly [[97]] s.state s'.state)
        (ServerProg.delivering_exec crookedStream plainAbi.max_size) plays
      refine ⟨s, run, accepted, ?_⟩
      apply handleClient_confined plainServer localServer [47, 97] (by simp) nestedFs [[97]]
        (by decide +kernel) (by decide +kernel) _ (fun _ _ moved => moved) _ _ 20 _ s run
      intro task member
      have only : task ∈ [crooked] := accepted ▸ member
      obtain rfl := List.mem_singleton.mp only
      decide +kernel

end SyncTool
