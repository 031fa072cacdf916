import SyncTool.SyncFileOutcome

set_option autoImplicit false

namespace SyncTool

open SyncTool.Path FileSync LinuxFileUtil

/-- The path strings at whose places a call may change what is there. -/
def Op.writes : Op → List Bytes
  | .mkdir path _ | .remove path | .openOut path _ | .put path _ | .closeOut path
  | .openFd path _ _ | .ftruncate path _ | .pwrite path _ _ | .write path _ _ _ => [path]
  | .rename old new => [old, new]
  | _ => []

/-- The path strings at whose places a call may change what is there or its mode. -/
def Op.marks : Op → List Bytes
  | .chmod path _ => [path]
  | op => op.writes

theorem Op.writes_subset_marks (op : Op) : op.writes ⊆ op.marks := by
  cases op with
  | chmod path mode => exact List.nil_subset _
  | _ => exact List.Subset.refl _

section Frame

open FileSystem

variable {w : World} {choice : Choice} {q : Path}

/-- The tree is the same but for the places of some path strings. -/
def Frame (paths : List Bytes) (fs fs' : FileSystem) : Prop :=
  fs'.cwd = fs.cwd ∧ ∀ q, (∀ path ∈ paths, place fs.cwd path ≠ q) → fs'.entry q = fs.entry q

theorem Frame.refl (paths : List Bytes) (fs : FileSystem) : Frame paths fs fs :=
  ⟨rfl, fun _ _ => rfl⟩

theorem frame_of_update {fs fs' : FileSystem} {path : Bytes} {p : Path} {entry : Option Entry}
    (found : fs.resolve path = some p) (cwd : fs'.cwd = fs.cwd)
    (tree : fs'.entry = Function.update fs.entry p entry) : Frame [path] fs fs' := by
  refine ⟨cwd, fun q other => ?_⟩
  have notHere : q ≠ p := fun same =>
    other path (by simp) (by rw [same, resolve_eq_place found])
  rw [tree, Function.update_of_ne notHere]

theorem attempt_frame {paths : List Bytes} {result : Option FileSystem}
    (each : ∀ fs, result = some fs → Frame paths w.fs fs) :
    Frame paths w.fs (w.attempt choice result).2.fs := by
  unfold World.attempt
  split
  · split
    · exact each _ rfl
    · exact .refl _ _
  · exact .refl _ _

theorem fresh_fs (w : World) (path : Bytes) : (w.fresh path).fs = w.fs := by
  unfold World.fresh
  split <;> rfl

theorem edit_frame {path : Bytes} {change : Bytes → Bytes} {time : Int} {fs : FileSystem}
    (edited : w.fs.edit path change time = some fs) : Frame [path] w.fs fs := by
  obtain ⟨p, content, found, -, cwd, tree⟩ := edit_effect edited
  exact frame_of_update found cwd tree

theorem flush_frame (path data : Bytes) :
    Frame [path] w.fs (w.flush choice path data).2.fs := by
  unfold World.flush
  split
  · exact .refl _ _
  · simp only
    split
    · exact .refl _ _
    · rename_i fs edited
      split <;> exact edit_frame edited

/-- However a call ends, it changes the tree only at the places of the path strings it is
given for that. -/
theorem run_frame (op : Op) (choice : Choice) (w : World) :
    Frame op.writes w.fs (op.run choice w).2.fs := by
  cases op with
  | mkdir path mode =>
      refine attempt_frame fun fs made => ?_
      obtain ⟨p, found, -, cwd, tree⟩ := mkdir_effect made
      exact frame_of_update found cwd tree
  | chmod path mode =>
      have same := @run_chmod_same w choice path mode
      exact ⟨same.cwd, fun q _ => by rw [same.tree]⟩
  | remove path =>
      refine attempt_frame fun fs removed => ?_
      obtain ⟨p, found, -, -, cwd, tree⟩ := remove_effect removed
      exact frame_of_update found cwd tree
  | rename old new =>
      refine attempt_frame fun fs renamed => ?_
      obtain ⟨p, q, content, foundOld, foundNew, -, -, cwd, tree⟩ := rename_effect renamed
      refine ⟨cwd, fun r other => ?_⟩
      have notOld : r ≠ p := fun same =>
        other old (by simp [Op.writes]) (by rw [same, resolve_eq_place foundOld])
      have notNew : r ≠ q := fun same =>
        other new (by simp [Op.writes]) (by rw [same, resolve_eq_place foundNew])
      rw [tree]
      split
      · rfl
      · rw [Function.update_of_ne notOld, Function.update_of_ne notNew]
  | openOut path append =>
      have opened : Frame [path] w.fs (w.attempt choice (w.fs.open_ path
          (if append then .append else .trunc) true 0o666 choice.time)).2.fs := by
        refine attempt_frame fun fs opened => ?_
        obtain ⟨p, found, -, cwd, tree⟩ := open_effect opened
        exact frame_of_update found cwd tree
      simp only [Op.run, Op.writes]
      generalize w.attempt choice (w.fs.open_ path (if append then .append else .trunc) true 0o666
        choice.time) = result at opened
      split
      · rw [fresh_fs]
        exact opened
      · exact opened
  | put path data => exact flush_frame path data
  | closeOut path => exact flush_frame path []
  | openFd path how create =>
      refine attempt_frame fun fs opened => ?_
      obtain ⟨p, found, -, cwd, tree⟩ := open_effect opened
      exact frame_of_update found cwd tree
  | ftruncate path size => exact attempt_frame fun fs edited => edit_frame edited
  | pwrite path pos data =>
      simp only [Op.run, Op.writes]
      split
      · exact edit_frame ‹_›
      · exact .refl _ _
      · exact .refl _ _
  | write path append pos data =>
      simp only [Op.run, Op.writes]
      split
      · exact edit_frame ‹_›
      · exact .refl _ _
      · exact .refl _ _
  | pread path pos count =>
      simp only [Op.run]
      split <;> exact .refl _ _
  | send data =>
      simp only [Op.run]
      split <;> exact .refl _ _
  | recv count =>
      simp only [Op.run]
      split <;> exact .refl _ _
  | stat | ctime | readdir | statvfs | openIn | seek | seekEnd | get | getAll | lseekEnd | connect
  | closeSocket
  | initShared | loadError | storeError | fetchAdd | pushTask | countTask | sleep =>
      exact .refl _ _

end Frame

namespace FileSync

/-- The calls a copy to `destPath` makes: they change nothing but that file and its record. -/
def CopyCall (destPath : Bytes) (op : Op) : Prop :=
  ∀ path ∈ op.marks, path = destPath ∨ path = getProgressFilePath destPath

section Footprint

variable {self : FileSync} {srcPath destPath : Bytes}

theorem saveProgress_calls (offset totalSize : Nat) :
    (saveProgress destPath offset totalSize).All (CopyCall destPath) := by
  simp [saveProgress, CopyCall, Op.marks, Op.writes]

theorem throttle_calls (milliseconds : Nat) :
    (throttle self milliseconds).All (CopyCall destPath) := by
  simp [throttle, CopyCall, Op.marks, Op.writes]

theorem cleanupCorruptedFile_calls :
    (cleanupCorruptedFile destPath).All (CopyCall destPath) := by
  simp [cleanupCorruptedFile, fileExists, CopyCall, Op.marks, Op.writes]

theorem copyBlocks_calls (totalSize fuel transferred : Nat) :
    (copyBlocks self srcPath destPath totalSize fuel transferred).All (CopyCall destPath) := by
  induction fuel generalizing transferred with
  | zero => trivial
  | succ fuel ih =>
      simp only [copyBlocks, Program.ask_bind, Program.all_call, Program.all_ite, Program.pure_eq]
      refine ⟨by simp [CopyCall, Op.marks, Op.writes], fun buffer =>
        ⟨fun _ => ⟨by simp [CopyCall, Op.marks, Op.writes],
        fun good => ⟨fun _ => ?_, fun _ => ?_⟩⟩, fun _ => by simp [CopyCall, Op.marks, Op.writes]⟩⟩
      · exact (saveProgress_calls _ _).bind fun _ => (throttle_calls _).bind fun _ => ih _
      · exact (saveProgress_calls _ _).bind fun _ => by simp [CopyCall, Op.marks, Op.writes]

theorem seekTo_calls (offset : Nat) : (seekTo self srcPath offset).All (CopyCall destPath) := by
  unfold seekTo
  split
  · simp [CopyCall, Op.marks, Op.writes]
  · trivial

theorem transferFile_calls (fuel offset : Nat) :
    (transferFile self fuel srcPath destPath offset).All (CopyCall destPath) := by
  simp only [transferFile, Program.ask_bind, Program.all_call, Program.all_ite, Program.pure_eq]
  refine ⟨by simp [CopyCall, Op.marks, Op.writes], fun _ =>
    ⟨by simp [CopyCall, Op.marks, Op.writes], fun _ => ⟨fun _ => ?_, fun _ => trivial⟩⟩⟩
  apply (seekTo_calls offset).bind
  intro found
  simp only [Program.all_ite, Program.all_call]
  exact ⟨fun _ => ⟨by simp [CopyCall, Op.marks, Op.writes], fun _ => copyBlocks_calls _ _ _⟩,
    fun _ => ⟨by simp [CopyCall, Op.marks, Op.writes], fun _ => trivial⟩⟩

theorem robustPread_all {ok : Op → Prop} {path : Bytes}
    (reads : ∀ pos count, ok (.pread path pos count)) (count offset fuel : Nat) (buffer : Bytes) :
    (robustPread path count offset fuel buffer).All ok := by
  induction fuel generalizing buffer with
  | zero => trivial
  | succ fuel ih =>
      simp only [robustPread, Program.ask_bind, Program.all_call, Program.all_ite, Program.pure_eq]
      refine ⟨fun _ => ⟨reads _ _, fun n => ?_⟩, fun _ => trivial⟩
      cases n with
      | error => trivial
      | eintr => exact ih _
      | ok bytes => simp only [Program.all_ite]; exact ⟨fun _ => trivial, fun _ => ih _⟩

theorem robustPwrite_all {ok : Op → Prop} {path : Bytes}
    (writes : ∀ pos data, ok (.pwrite path pos data)) (data : Bytes)
    (offset fuel totalWritten : Nat) :
    (robustPwrite path data offset fuel totalWritten).All ok := by
  induction fuel generalizing totalWritten with
  | zero => trivial
  | succ fuel ih =>
      simp only [robustPwrite, Program.ask_bind, Program.all_call, Program.all_ite, Program.pure_eq]
      refine ⟨fun _ => ⟨writes _ _, fun n => ?_⟩, fun _ => trivial⟩
      cases n with
      | error => trivial
      | eintr => exact ih _
      | ok written => simp only [Program.all_ite]; exact ⟨fun _ => trivial, fun _ => ih _⟩

theorem transferChunk_all {ok : Op → Prop}
    (reads : ∀ pos count, ok (.pread srcPath pos count))
    (writes : ∀ pos data, ok (.pwrite destPath pos data))
    (fuel chunkOffset chunkSize bufferSize : Nat) :
    (transferChunk fuel srcPath destPath chunkOffset chunkSize bufferSize).All ok := by
  simp only [transferChunk, Program.all_ite, Program.pure_eq]
  refine ⟨fun _ => trivial, fun _ => (robustPread_all reads _ _ _ _).bind fun buffer => ?_⟩
  cases buffer with
  | none => trivial
  | some buffer =>
      simp only [Program.all_ite]
      exact ⟨fun _ => trivial, fun _ => (robustPwrite_all writes _ _ _ _).bind fun _ => trivial⟩

theorem transferChunk_calls (fuel chunkOffset chunkSize bufferSize : Nat) :
    (transferChunk fuel srcPath destPath chunkOffset chunkSize bufferSize).All
      (CopyCall destPath) :=
  transferChunk_all (fun _ _ => by simp [CopyCall, Op.marks, Op.writes])
    (fun _ _ => by simp [CopyCall, Op.marks, Op.writes]) _ _ _ _

theorem chunkTask_calls (fuel totalSize chunkOffset currentChunkSize : Nat) :
    (chunkTask self fuel srcPath destPath totalSize chunkOffset currentChunkSize).All
      (CopyCall destPath) := by
  simp only [chunkTask, Program.ask_bind, Program.all_call, Program.all_ite, Program.pure_eq]
  refine ⟨by simp [CopyCall, Op.marks, Op.writes], fun _ => ⟨fun _ => trivial, fun _ =>
    (transferChunk_calls _ _ _ _).bind fun ok => ?_⟩⟩
  simp only [Program.all_call, Program.all_ite]
  exact ⟨fun _ => ⟨by simp [CopyCall, Op.marks, Op.writes], fun _ =>
    (saveProgress_calls _ _).bind fun _ =>
    (throttle_calls _).bind fun _ => trivial⟩, fun _ =>
      ⟨by simp [CopyCall, Op.marks, Op.writes], fun _ => trivial⟩⟩

theorem runChunks_calls (fuel fileSize offset : Nat) :
    (runChunks self fuel srcPath destPath fileSize offset).All (CopyCall destPath) := by
  simp only [runChunks, Program.ask_bind, Program.all_call, Program.fork_bind, Program.all_fork,
    Program.pure_eq, Program.done_bind]
  refine ⟨by simp [CopyCall, Op.marks, Op.writes], fun _ =>
    ⟨fun _ => chunkTask_calls _ _ _ _, fun _ => ?_⟩⟩
  simp only [Program.all_ite, Program.all_call]
  exact ⟨fun _ => ⟨by simp [CopyCall, Op.marks, Op.writes], fun _ => trivial⟩,
    fun _ => cleanupCorruptedFile_calls.bind fun _ => trivial⟩

theorem transferLargeFileAsync_calls (fuel offset : Nat) :
    (transferLargeFileAsync self fuel srcPath destPath offset).All (CopyCall destPath) := by
  simp only [transferLargeFileAsync, getFileStat, Program.ask_bind, Program.all_call,
    Program.pure_eq]
  refine ⟨by simp [CopyCall, Op.marks, Op.writes], fun stat => ?_⟩
  cases stat with
  | none => trivial
  | some statbuf =>
      have space : (checkDiskSpace destPath ((statbuf.st_size : Int) - offset)).All
          (CopyCall destPath) := by
        simp only [checkDiskSpace, Program.ask_bind, Program.all_call, Program.pure_eq]
        refine ⟨by simp [CopyCall, Op.marks, Op.writes], fun vfs => ?_⟩
        cases vfs <;> trivial
      refine space.bind fun _ => ?_
      simp only [Program.all_call, Program.all_ite, Program.all_done, implies_true, true_and,
        and_true, runChunks_calls]
      refine fun _ => ⟨by simp [CopyCall, Op.marks, Op.writes], fun _ _ => ⟨fun _ =>
        ⟨by simp [CopyCall, Op.marks, Op.writes], fun _ _ =>
          ⟨by simp [CopyCall, Op.marks, Op.writes], fun _ _ => ?_⟩⟩,
        fun _ => by simp [CopyCall, Op.marks, Op.writes]⟩⟩
      exact cleanupCorruptedFile_calls.bind fun _ => trivial

theorem copyWhole_calls (fuel : Nat) (mode : UInt32) :
    (copyWhole self fuel srcPath destPath mode).All (CopyCall destPath) := by
  refine (transferFile_calls _ _).bind fun copied => ?_
  simp only [setFileMode, Program.ask_bind, Program.all_call, Program.all_ite, Program.pure_eq]
  exact ⟨fun _ => ⟨by simp [CopyCall, Op.marks], fun _ => trivial⟩,
    fun _ => cleanupCorruptedFile_calls.bind fun _ => trivial⟩

theorem copyFresh_calls (fuel : Nat) (mode : UInt32) :
    (copyFresh self fuel srcPath destPath mode).All (CopyCall destPath) := by
  simp only [copyFresh, getFileStat, Program.ask_bind, Program.all_call, Program.all_ite]
  refine ⟨by simp [CopyCall, Op.marks, Op.writes], fun stat => ⟨fun _ =>
    (transferLargeFileAsync_calls _ _).bind fun copied => ?_, fun _ => copyWhole_calls _ _⟩⟩
  simp only [setFileMode, Program.ask_bind, Program.all_call, Program.all_ite, Program.pure_eq]
  exact ⟨fun _ => ⟨by simp [CopyCall, Op.marks], fun _ => trivial⟩,
    fun _ => cleanupCorruptedFile_calls.bind fun _ => copyWhole_calls _ _⟩

theorem copyOrResume_calls (fuel : Nat) (mode : UInt32) :
    (copyOrResume self fuel srcPath destPath mode).All (CopyCall destPath) := by
  have load : (loadProgress destPath).All (CopyCall destPath) := by
    simp [loadProgress, CopyCall, Op.marks, Op.writes]
  refine load.bind fun progress => ?_
  simp only [Program.all_ite, copyFresh_calls, implies_true, and_true]
  refine fun _ => (transferFile_calls _ _).bind fun resumeOk => ?_
  simp only [setFileMode, Program.ask_bind, Program.all_call, Program.all_ite, Program.pure_eq,
    copyFresh_calls, implies_true, and_true]
  exact fun _ => ⟨by simp [CopyCall, Op.marks, Op.writes], fun _ =>
    ⟨by simp [CopyCall, Op.marks], fun _ => trivial⟩⟩

end Footprint

section Failure

variable {self : FileSync} {policy : Policy} {srcPath destPath : Bytes} {w : World}

/-- A copy leaves every place alone but those of its destination and its record. -/
theorem copyOrResume_frame {q : Path} (notDest : place w.fs.cwd destPath ≠ q)
    (notRecord : place w.fs.cwd (getProgressFilePath destPath) ≠ q) (fuel : Nat) (mode : UInt32) :
    Program.Sat (handler policy True) Interference.free
      (copyOrResume self fuel srcPath destPath mode)
      (fun _ w' => w'.fs.cwd = w.fs.cwd ∧ w'.fs.entry q = w.fs.entry q) w := by
  refine (copyOrResume_calls fuel mode).sat
    (fun w' : World => w'.fs.cwd = w.fs.cwd ∧ w'.fs.entry q = w.fs.entry q) ⟨rfl, rfl⟩ ?_ ?_ trivial
  · rintro w₁ w₂ rfl now
    exact now
  · rintro op w₁ answer w₂ calls ⟨cwd, same⟩ ⟨choice, -, ran⟩
    obtain ⟨cwd', frame⟩ := run_frame op choice w₁
    rw [ran] at cwd' frame
    refine ⟨trivial, cwd'.trans cwd, (frame q fun path member => ?_).trans same⟩
    rw [cwd]
    rcases calls path (op.writes_subset_marks member) with rfl | rfl
    · exact notDest
    · exact notRecord

/-- What `createDirectory` may do: directories appear where nothing was. -/
structure Grown (fs fs' : FileSystem) : Prop where
  dirs : FileSystem.DirsKept fs fs'
  tree : ∀ p, fs.entry p ≠ none → fs'.entry p = fs.entry p

def MakeCall (op : Op) : Prop := (∃ path, op = .stat path) ∨ ∃ path mode, op = .mkdir path mode

theorem createEach_calls (mode : UInt32) (paths : List Bytes) :
    (createEach mode paths).All MakeCall := by
  induction paths with
  | nil => trivial
  | cons path paths ih =>
      simp only [createEach, ensureDirectory, Program.ask_bind, Program.call_bind, Program.all_ite,
        Program.all_call]
      refine ⟨fun _ => ih, fun _ => ⟨.inl ⟨_, rfl⟩, fun exist => ?_⟩⟩
      refine Program.All.bind ?_ fun made => ?_
      · simp [MakeCall]
      · simp only [Program.all_ite, Program.pure_eq]
        exact ⟨fun _ => ih, fun _ => trivial⟩

theorem Grown.refl (fs : FileSystem) : Grown fs fs := ⟨.refl fs, fun _ _ => rfl⟩

theorem Grown.trans {fs₁ fs₂ fs₃ : FileSystem} (first : Grown fs₁ fs₂) (second : Grown fs₂ fs₃) :
    Grown fs₁ fs₃ where
  dirs := first.dirs.trans second.dirs
  tree p exist := by
    have same := first.tree p exist
    exact (second.tree p (same ▸ exist)).trans same

theorem run_mkdir_grown (w : World) (choice : Choice) (path : Bytes) (mode : UInt32) :
    Grown w.fs ((Op.mkdir path mode).run choice w).2.fs := by
  simp only [Op.run, World.attempt]
  split
  · split
    · next fs made =>
        obtain ⟨p, found, missing, cwd, tree⟩ := FileSystem.mkdir_effect made
        refine ⟨FileSystem.dirsKept_of_update cwd tree fun _ => rfl, fun q exist => ?_⟩
        have other : q ≠ p := fun here => exist (here ▸ missing)
        rw [tree, Function.update_of_ne other]
    · exact .refl _
  · exact .refl _

theorem createDirectory_grown (path : Bytes) (mode : UInt32) :
    Program.Sat (handler policy True) Interference.free (createDirectory path mode)
      (fun _ w' => Grown w.fs w'.fs) w := by
  refine (createEach_calls mode _).sat (fun w' : World => Grown w.fs w'.fs) (.refl _) ?_ ?_ trivial
  · rintro w₁ w₂ rfl now
    exact now
  · rintro op w₁ answer w₂ (⟨path, rfl⟩ | ⟨path, mode, rfl⟩) now ⟨choice, -, ran⟩
    · cases ran
      exact ⟨trivial, now⟩
    · have more := run_mkdir_grown w₁ choice path mode
      rw [ran] at more
      exact ⟨trivial, now.trans more⟩

/-- The old bytes of the destination are still there: in place, or where they were renamed to. -/
def Preserved (self : FileSync) (destPath bytes : Bytes) (fs : FileSystem) : Prop :=
  fs.contentAt (place fs.cwd destPath) = some bytes ∨
    self.conflictStrategy = .rename ∧
      fs.contentAt (place fs.cwd (destPath ++ bakSuffix)) = some bytes

/-- Renaming away or skipping, a failing sync preserves the old bytes. -/
theorem syncFile_preserves {bytes : Bytes} (dest : w.fs.read destPath = some bytes)
    (spares : self.conflictStrategy = .skip ∨ self.conflictStrategy = .rename)
    (fuel : Nat) (mode : UInt32) :
    Program.Sat (handler policy True) Interference.free
      (syncFile self fuel srcPath destPath mode)
      (fun ok w' => ok = false → Preserved self destPath bytes w'.fs) w := by
  obtain ⟨p, found, file⟩ := FileSystem.read_eq_some.mp dest
  have place_eq := FileSystem.resolve_eq_place found
  obtain ⟨front, name, split, ordinary, -, -, here⟩ :=
    FileSystem.resolve_not_dir found (by simp [file])
  have record := @place_append w.fs.cwd _ progressSuffix _ _ split ordinary
    (by decide) (by decide)
  have backup := @place_append w.fs.cwd _ bakSuffix _ _ split ordinary
    (by decide) (by decide)
  have notDest : place w.fs.cwd destPath ≠ place w.fs.cwd (destPath ++ bakSuffix) := by
    rw [← place_eq, here, backup]
    intro same
    have := congrArg List.length ((List.append_inj' same rfl).2 |> List.singleton_inj.mp)
    simp [bakSuffix] at this
  have notRecord : place w.fs.cwd (getProgressFilePath destPath) ≠
      place w.fs.cwd (destPath ++ bakSuffix) := by
    rw [getProgressFilePath, record, backup]
    intro same
    have := congrArg List.length ((List.append_inj' same rfl).2 |> List.singleton_inj.mp)
    simp [bakSuffix, progressSuffix] at this
  -- as long as directories only appear, the old bytes are in place
  have inPlace : ∀ w' : World, Grown w.fs w'.fs → Preserved self destPath bytes w'.fs := by
    intro w' grown
    left
    rw [grown.dirs.1, ← place_eq, FileSystem.contentAt_eq_some, grown.tree p (by simp [file]), file]
  have rest : ∀ w' : World, Grown w.fs w'.fs →
      Program.Sat (handler policy True) Interference.free
        (resolveConflict self fuel srcPath destPath mode)
        (fun ok w' => ok = false → Preserved self destPath bytes w'.fs) w' := by
    intro w' grown
    simp only [resolveConflict, fileExists, Program.ask_bind, Program.call_bind, Program.pure_eq,
      Program.done_bind]
    refine Program.sat_read (fun _ _ => rfl) fun w₁ drift₁ _ _ => ?_
    obtain rfl : w' = w₁ := drift₁
    have exist : (w'.fs.stat destPath).isSome = true := by
      rw [Option.isSome_iff_ne_none]
      exact FileSystem.stat_ne_none.mpr
        ⟨p, grown.dirs.resolve found, by simp [grown.tree p (by simp [file]), file]⟩
    rw [exist]
    simp only [↓reduceIte]
    rcases spares with skip | renames
    · have stops : handleConflict self destPath = .done false := by simp [handleConflict, skip]
      rw [stops, Program.done_bind]
      simp only [Bool.false_eq_true, ↓reduceIte]
      rintro w₂ rfl -
      exact inPlace _ grown
    · have strategy : handleConflict self destPath =
          Sys.rename destPath (destPath ++ bakSuffix) := by simp [handleConflict, renames]
      rw [strategy, Program.ask_bind]
      refine Program.sat_op.mpr fun w₁ drift₁ choice _ => ⟨trivial, ?_⟩
      obtain rfl : w' = w₁ := drift₁
      simp only [Op.run, World.attempt]
      split
      · split
        · rename_i fs renamed
          simp only [↓reduceIte]
          obtain ⟨q, r, content, foundOld, foundNew, old, notDir, cwd, tree⟩ :=
            FileSystem.rename_effect renamed
          have cwd' : fs.cwd = w.fs.cwd := cwd.trans grown.dirs.1
          obtain rfl : p = q := Option.some.inj ((grown.dirs.resolve found).symm.trans foundOld)
          obtain rfl : bytes = content := by
            rw [grown.tree p (by simp [file]), file] at old
            cases old
            rfl
          have there := FileSystem.resolve_eq_place foundNew
          rw [grown.dirs.1] at there
          have moved : fs.entry r = some (.file bytes) := by
            have other : p ≠ r := by rwa [← place_eq, ← there] at notDest
            rw [tree, if_neg other, Function.update_of_ne other.symm, Function.update_self]
          refine (copyOrResume_frame (q := r) (by simpa [cwd', there] using notDest)
            (by simpa [cwd', there] using notRecord) fuel mode).weaken ?_
          rintro ok w₂ ⟨cwd₂, same⟩ -
          refine .inr ⟨renames, ?_⟩
          rw [cwd₂, cwd', ← there, FileSystem.contentAt_eq_some, same, moved]
        · simp only [Bool.false_eq_true, ↓reduceIte]
          rintro w₂ rfl -
          exact inPlace _ grown
      · simp only [Bool.false_eq_true, ↓reduceIte]
        rintro w₂ rfl -
        exact inPlace _ grown
  have none : Grown w.fs w.fs := ⟨.refl _, fun _ _ => rfl⟩
  simp only [syncFile, fileExists, Program.ask_bind, Program.call_bind, Program.pure_eq,
    Program.done_bind]
  refine Program.sat_read (fun _ _ => rfl) fun w₁ drift₁ _ _ => ?_
  obtain rfl : w = w₁ := drift₁
  cases (w.fs.stat srcPath).isSome with
  | false =>
      simp only [Bool.not_false, ↓reduceIte]
      rintro w₂ rfl -
      exact inPlace _ none
  | true =>
      simp only [Bool.not_true, Bool.false_eq_true, ↓reduceIte]
      cases parentPath destPath with
      | none => exact rest w none
      | some parent =>
          refine Program.Sat.bind ((createDirectory_grown parent 0o755).weaken ?_)
          intro made w₂ grown
          cases made with
          | true => exact rest w₂ grown
          | false =>
              simp only [Bool.false_eq_true, ↓reduceIte]
              rintro w₃ rfl -
              exact inPlace _ grown

/-- No file can be opened as a stream and no disk space is reported; everything else works. -/
def failing (op : Op) (w : World) : Res op × World :=
  op.run
    ⟨0, match op with | .openIn _ | .openOut _ _ | .statvfs _ => .error | _ => .none, none, []⟩ w

theorem failing_allowed (op : Op) (w : World) :
    (handler (fun _ _ _ => True) True).exec op w (failing op w).1 (failing op w).2 :=
  ⟨_, trivial, rfl⟩

theorem createEach_play {path : Bytes} {here p : Path} {names : List Name} {mode : UInt32}
    (found : path = [] ∧ here = [] ∨ path ≠ [] ∧ w.fs.resolve path = some here)
    (noSlash : ∀ name ∈ names, slash ∉ name) (walked : w.fs.walk here names = some p)
    (isDir : w.fs.entry p = some .dir) :
    Program.play failing (createEach mode (stages path names)) w = some (true, w) := by
  have step : ∀ {path : Bytes} {here : Path} (rest : List Bytes),
      w.fs.resolve path = some here → w.fs.entry here = some .dir → path ≠ [] →
      Program.play failing (createEach mode (path :: rest)) w =
        Program.play failing (createEach mode rest) w := by
    intro path here rest found isDir nonempty
    have exist : (w.fs.stat path).isSome = true := by
      rw [Option.isSome_iff_ne_none]
      exact FileSystem.stat_ne_none.mpr ⟨_, found, by simp [isDir]⟩
    simp [createEach, nonempty, ensureDirectory, failing, Op.run, exist]
  induction names generalizing path here with
  | nil =>
      obtain rfl := Option.some.inj walked
      rcases found with ⟨rfl, rfl⟩ | ⟨nonempty, found⟩
      · rfl
      · exact step [] found isDir nonempty
  | cons name names ih =>
      have later : ∀ other ∈ names, slash ∉ other := fun other member =>
        noSlash other (by simp [member])
      unfold FileSystem.walk at walked
      split at walked
      · rename_i hereDir
        rcases found with ⟨rfl, rfl⟩ | ⟨nonempty, found⟩
        · have next := w.fs.resolve_root_slash (noSlash name (by simp))
          have rest := ih (.inr ⟨List.cons_ne_nil slash name, next⟩) later walked
          rw [← rest]
          simp [stages, createEach]
        · rw [stages, step _ found hereDir nonempty]
          exact ih (.inr ⟨by simp, FileSystem.resolve_slash found hereDir (noSlash name (by simp))⟩)
            later walked
      · cases walked

/-- The parent of an existing place needs no making. -/
theorem createDirectory_play {parent : Bytes} {p : Path} (nonempty : parent ≠ [])
    (walked : w.fs.walk (origin w.fs.cwd parent) (components parent) = some p)
    (isDir : w.fs.entry p = some .dir) (mode : UInt32) :
    Program.play failing (createDirectory parent mode) w = some (true, w) := by
  obtain ⟨first, names, split⟩ := List.exists_cons_of_ne_nil (components_ne_nil parent)
  have noSlash : ∀ name ∈ first :: names, slash ∉ name := fun name member =>
    notMem_of_mem_components parent (split ▸ member)
  rw [split] at walked
  unfold FileSystem.walk at walked
  split at walked
  · rename_i home
    rw [createDirectory_eq split]
    refine createEach_play ?_ (fun other member => noSlash other (by simp [member])) walked isDir
    by_cases blank : first = []
    · subst blank
      have absolute : origin w.fs.cwd parent = [] := by
        cases names with
        | nil => exact absurd (eq_append_below split) nonempty
        | cons name names => simp [origin, eq_append_below split]
      exact .inl ⟨rfl, by simp [absolute, enter]⟩
    · have relative : origin w.fs.cwd parent = w.fs.cwd := by
        rw [eq_append_below split, origin_append _ blank, origin, if_neg]
        intro absolute
        exact noSlash first (by simp) (List.mem_of_mem_head? absolute)
      rw [relative] at home ⊢
      exact .inr ⟨blank, FileSystem.resolve_of_notMem blank (noSlash first (by simp)) home⟩
  · cases walked

theorem cleanup_play (apart : place w.fs.cwd (getProgressFilePath destPath) ≠
      place w.fs.cwd destPath)
    (here : w.fs.entry (place w.fs.cwd destPath) = none ∨
      ∃ bytes, w.fs.read destPath = some bytes) :
    ∃ w', Program.play failing (cleanupCorruptedFile destPath) w = some ((), w') ∧
      w'.fs.cwd = w.fs.cwd ∧ w'.fs.entry (place w.fs.cwd destPath) = none := by
  have record : ∀ v : World, v.fs.cwd = w.fs.cwd → v.fs.entry (place w.fs.cwd destPath) = none →
      ∃ w', Program.play failing (do
          let exist ← fileExists (getProgressFilePath destPath)
          if exist then let _ ← Sys.remove (getProgressFilePath destPath)) v = some ((), w') ∧
        w'.fs.cwd = w.fs.cwd ∧ w'.fs.entry (place w.fs.cwd destPath) = none := by
    intro v cwd missing
    simp only [fileExists, Program.ask_bind, Program.call_bind, Program.pure_eq,
      Program.done_bind, Program.play_call]
    split
    · obtain ⟨cwd', frame⟩ := run_frame (.remove (getProgressFilePath destPath))
        ⟨0, .none, none, []⟩ v
      refine ⟨_, rfl, cwd'.trans cwd, (frame _ fun path member => ?_).trans missing⟩
      obtain rfl : path = getProgressFilePath destPath := by simpa [Op.writes] using member
      rw [cwd]
      exact apart
    · exact ⟨v, rfl, cwd, missing⟩
  simp only [cleanupCorruptedFile]
  rw [fileExists, Program.ask_bind, Program.call_bind, Program.play_call]
  simp only [Program.pure_eq, Program.done_bind]
  rcases here with missing | ⟨bytes, read⟩
  · have absent : (w.fs.stat destPath).isSome = false := by
      rw [Option.isSome_eq_false_iff, Option.isNone_iff_eq_none]
      by_contra exist
      obtain ⟨p, found, occupied⟩ := FileSystem.stat_ne_none.mp exist
      rw [FileSystem.resolve_eq_place found] at occupied
      exact occupied missing
    simp only [failing, Op.run, absent, Bool.false_eq_true, ↓reduceIte]
    exact record w rfl missing
  · obtain ⟨p, found, file⟩ := FileSystem.read_eq_some.mp read
    have exist : (w.fs.stat destPath).isSome = true := by
      rw [Option.isSome_iff_ne_none]
      exact FileSystem.stat_ne_none.mpr ⟨p, found, by simp [file]⟩
    obtain ⟨-, change⟩ := run_remove_file
      (show (⟨0, .none, none, []⟩ : Choice).fault = .none from rfl) found file
    rw [FileSystem.resolve_eq_place found] at change
    simp only [failing, exist, Op.run, ↓reduceIte]
    exact record _ change.cwd change.entry_self

variable (self srcPath) in
theorem copyWhole_play (apart : place w.fs.cwd (getProgressFilePath destPath) ≠
      place w.fs.cwd destPath)
    (here : w.fs.entry (place w.fs.cwd destPath) = none ∨ ∃ bytes, w.fs.read destPath = some bytes)
    (fuel : Nat) (mode : UInt32) :
    ∃ w', Program.play failing (copyWhole self fuel srcPath destPath mode) w = some (false, w') ∧
      w'.fs.cwd = w.fs.cwd ∧ w'.fs.entry (place w.fs.cwd destPath) = none := by
  have transfer : Program.play failing (transferFile self fuel srcPath destPath 0) w =
      some (false, w) := by
    simp [transferFile, failing, Op.run, World.attempt]
  obtain ⟨w', cleanup, cwd, gone⟩ := cleanup_play apart here
  refine ⟨w', ?_, cwd, gone⟩
  rw [copyWhole, Program.play_bind, transfer, Option.bind_some]
  simp only [Bool.false_eq_true, ↓reduceIte]
  rw [Program.play_bind, cleanup]
  rfl

variable (self) in
theorem copyOrResume_play {bytes : Bytes} (dest : w.fs.read destPath = some bytes)
    (apart : place w.fs.cwd (getProgressFilePath destPath) ≠ place w.fs.cwd destPath)
    (source : w.fs.stat srcPath ≠ none) (fuel : Nat) (mode : UInt32) :
    ∃ w', Program.play failing (copyOrResume self fuel srcPath destPath mode) w =
        some (false, w') ∧
      w'.fs.cwd = w.fs.cwd ∧ w'.fs.entry (place w.fs.cwd destPath) = none := by
  obtain ⟨node, stat⟩ := Option.ne_none_iff_exists'.mp source
  have load : Program.play failing (loadProgress destPath) w = some (⟨destPath, 0, 0⟩, w) := by
    simp [loadProgress, failing, Op.run]
  have async : Program.play failing (transferLargeFileAsync self fuel srcPath destPath 0) w =
      some (false, w) := by
    simp [transferLargeFileAsync, getFileStat, checkDiskSpace, failing, Op.run, stat]
  rw [copyOrResume, Program.play_bind, load, Option.bind_some]
  simp only [lt_self_iff_false, false_and, ↓reduceIte]
  simp only [copyFresh, getFileStat, Program.ask_bind, Program.play_call]
  have answer : (failing (.stat srcPath) w).1 = some node := stat
  have stays : (failing (.stat srcPath) w).2 = w := rfl
  rw [answer, stays]
  simp only
  split
  · obtain ⟨w₁, cleanup, cwd₁, gone₁⟩ := cleanup_play apart (.inr ⟨bytes, dest⟩)
    rw [← cwd₁] at apart gone₁
    obtain ⟨w₂, copy, cwd₂, gone₂⟩ := copyWhole_play self srcPath apart (.inl gone₁)
      fuel mode
    refine ⟨w₂, ?_, cwd₂.trans cwd₁, cwd₁ ▸ gone₂⟩
    rw [Program.play_bind, async, Option.bind_some]
    simp only [Bool.false_eq_true, ↓reduceIte]
    rw [Program.play_bind, cleanup, Option.bind_some]
    exact copy
  · exact copyWhole_play self srcPath apart (.inr ⟨bytes, dest⟩) fuel mode

/-- Overwriting, a sync of an existing source can fail with the destination gone. -/
theorem syncFile_destroys {bytes : Bytes} (dest : w.fs.read destPath = some bytes)
    (overwrites : Overwrites self) (source : w.fs.stat srcPath ≠ none) (fuel : Nat)
    (mode : UInt32) :
    ∃ w', Program.play failing (syncFile self fuel srcPath destPath mode) w = some (false, w') ∧
      w'.fs.contentAt (place w'.fs.cwd destPath) = none := by
  obtain ⟨p, found, file⟩ := FileSystem.read_eq_some.mp dest
  obtain ⟨front, name, split, ordinary, walked, isDir, here⟩ :=
    FileSystem.resolve_not_dir found (by simp [file])
  have place_eq := FileSystem.resolve_eq_place found
  have record := @place_append w.fs.cwd _ progressSuffix _ _ split ordinary
    (by decide) (by decide)
  have apart : place w.fs.cwd (getProgressFilePath destPath) ≠ place w.fs.cwd destPath := by
    rw [getProgressFilePath, record, ← place_eq, here]
    intro same
    have := congrArg List.length ((List.append_inj' same rfl).2 |> List.singleton_inj.mp)
    simp [progressSuffix] at this
  have proceed : handleConflict self destPath = .done true := by
    rcases overwrites with strategy | strategy <;> simp [handleConflict, strategy]
  obtain ⟨w', copy, cwd, gone⟩ := copyOrResume_play self dest apart source fuel mode
  have conflict : Program.play failing (resolveConflict self fuel srcPath destPath mode) w =
      some (false, w') := by
    simp only [resolveConflict, fileExists, Program.ask_bind, Program.call_bind, Program.pure_eq,
      Program.done_bind, proceed, ↓reduceIte, ite_self, Program.play_call]
    exact copy
  refine ⟨w', ?_, ?_⟩
  · simp only [syncFile, fileExists, Program.ask_bind, Program.call_bind, Program.pure_eq,
      Program.done_bind, Program.play_call]
    have exist : (failing (.stat srcPath) w).1.isSome = true :=
      Option.isSome_iff_ne_none.mpr source
    have stays : (failing (.stat srcPath) w).2 = w := rfl
    rw [exist, stays]
    simp only [Bool.not_true, Bool.false_eq_true, ↓reduceIte]
    by_cases relative : front = []
    · subst relative
      have same : destPath = name := eq_of_components split
      have noSlash : slash ∉ destPath :=
        same ▸ notMem_of_mem_components destPath (by simp [split])
      rw [parentPath_of_notMem noSlash]
      exact conflict
    · obtain ⟨parent, whole, comps⟩ := eq_append_slash split relative
      have noSlash : slash ∉ name := notMem_of_mem_components destPath (by simp [split])
      have ensured : Program.play failing (createDirectory parent 0o755) w = some (true, w) := by
        by_cases top : parent = []
        · subst top
          rfl
        · rw [whole, origin_append _ top] at walked isDir
          exact createDirectory_play top (by rw [comps]; exact walked) isDir _
      have parented : parentPath destPath = some parent := by
        rw [whole, parentPath_append_slash noSlash]
      rw [parented]
      simp only
      rw [Program.play_bind, ensured, Option.bind_some]
      exact conflict
  · rw [cwd, FileSystem.contentAt, gone]

/-- Every failing run preserves the old bytes of the destination exactly when they are skipped
or renamed away, or when there is no source. -/
theorem syncFile_failure_iff {bytes : Bytes} (dest : w.fs.read destPath = some bytes) (fuel : Nat)
    (mode : UInt32) :
    (∀ w', Program.Reach (handler (fun _ _ _ => True) True).exec Eq
        (syncFile self fuel srcPath destPath mode) w (.done false) w' →
      Preserved self destPath bytes w'.fs) ↔
    self.conflictStrategy = .skip ∨ self.conflictStrategy = .rename ∨ w.fs.stat srcPath = none := by
  constructor
  · intro preserves
    by_contra neither
    simp only [not_or] at neither
    obtain ⟨notSkip, notRename, source⟩ := neither
    have overwrites : Overwrites self := by
      cases strategy : self.conflictStrategy with
      | overwrite => exact .inl strategy
      | skip => exact absurd strategy notSkip
      | rename => exact absurd strategy notRename
      | other => exact .inr strategy
    obtain ⟨w', played, gone⟩ := syncFile_destroys dest overwrites source fuel mode
    have run := Program.play_reach Eq failing_allowed played
    rcases preserves w' run with inPlace | ⟨renames, -⟩
    · rw [gone] at inPlace
      cases inPlace
    · exact notRename renames
  · rintro (skip | renames | missing) w' run
    · exact (syncFile_preserves dest (.inl skip) fuel mode).returned run rfl
    · exact (syncFile_preserves dest (.inr renames) fuel mode).returned run rfl
    · have holds : Program.Sat (handler (fun _ _ _ => True) True) Interference.free
          (syncFile self fuel srcPath destPath mode) (fun _ w' => w' = w) w := by
        simp only [syncFile, fileExists, Program.ask_bind, Program.call_bind, Program.pure_eq,
          Program.done_bind]
        refine Program.sat_read (fun _ _ => rfl) fun w₁ drift₁ _ _ => ?_
        obtain rfl : w = w₁ := drift₁
        rw [missing]
        exact fun w₂ drift₂ => Eq.symm drift₂
      obtain rfl := holds.returned run
      obtain ⟨p, found, file⟩ := FileSystem.read_eq_some.mp dest
      left
      rw [← FileSystem.resolve_eq_place found, FileSystem.contentAt_eq_some, file]

/-- `/s` holds `AB` and `/d` holds `C`. -/
def bothFs : FileSystem := (plainFs [65, 66]).put [[100]] (.file [67] 0o644 0)

theorem syncFile_failure_both :
    (∀ w', Program.Reach (handler (fun _ _ _ => True) True).exec Eq
        (syncFile plainSync 1 plainCopy.srcPath plainCopy.destPath 0o644) (World.boot bothFs)
        (.done false) w' →
      Preserved plainSync plainCopy.destPath [67] w'.fs) ↔
    plainSync.conflictStrategy = .skip ∨ plainSync.conflictStrategy = .rename ∨
      (World.boot bothFs).fs.stat plainCopy.srcPath = none :=
  syncFile_failure_iff (by decide +kernel) 1 0o644

/-- Neither file can be opened, so nothing is written; the cleanup removes the destination. -/
theorem syncFile_unopened : ∃ w', Program.Reach (handler (fun _ _ _ => True) True).exec Eq
      (syncFile plainSync 1 plainCopy.srcPath plainCopy.destPath 0o644) (World.boot bothFs)
      (.done false) w' ∧
    bothFs.read plainCopy.destPath = some [67] ∧ w'.fs.read plainCopy.destPath = none ∧
    w'.fs.read (plainCopy.destPath ++ bakSuffix) = none := by
  obtain ⟨w', run, seen⟩ := Program.reach_of_play Eq failing_allowed
    (syncFile plainSync 1 plainCopy.srcPath plainCopy.destPath 0o644) (World.boot bothFs) false
    (fun w => (w.fs.read plainCopy.destPath, w.fs.read (plainCopy.destPath ++ bakSuffix)))
    (none, none) (by decide +kernel)
  exact ⟨w', run, by decide +kernel, congrArg Prod.fst seen, congrArg Prod.snd seen⟩

end Failure

end FileSync

end SyncTool
