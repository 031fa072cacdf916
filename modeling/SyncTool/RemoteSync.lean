import SyncTool.RemoteResume
import SyncTool.RemoteScan

set_option autoImplicit false

namespace SyncTool

open SyncTool.Path FileSync

namespace Path

/-- Paths below a directory name places below one place. -/
theorem exists_place_below (cwd : Path) (path : Bytes) : ∃ root : Path, ∀ names, names ≠ [] →
    (∀ name ∈ names, ProperName name) → place cwd (path ++ below names) = root ++ names := by
  by_cases blank : path = []
  · subst blank
    refine ⟨[], fun names nonempty proper => ?_⟩
    have noSlash : ∀ name ∈ names, slash ∉ name := fun name member => (proper name member).2.1
    obtain ⟨rest, cut⟩ := exists_below_eq nonempty
    have absolute : origin cwd ([] ++ below names) = [] := by simp [cut, origin]
    rw [place, components_below noSlash, List.foldl_append, absolute, foldl_enter_of_proper proper]
    rfl
  · exact ⟨place cwd path, fun names _ proper => place_below cwd blank proper⟩

end Path

section

variable {server : SyncServer} {fs fs' : FileSystem} {srcDir destDir : Bytes}
  {tasks : List SyncTask} {cwd : Path}

/-- Tasks for different paths have different places. -/
theorem Listed.apart (listed : Listed fs srcDir destDir tasks) : Apart server cwd tasks := by
  obtain ⟨root, below_⟩ := exists_place_below cwd (server.baseDirectory ++ destDir)
  have places : tasks.Pairwise fun task other =>
      server.placeOf cwd task ≠ server.placeOf cwd other := by
    apply listed.distinct.imp_of_mem
    intro task other member member' different same
    obtain ⟨names, nonempty, proper, src, dest⟩ := listed.only task member
    obtain ⟨names', nonempty', proper', src', dest'⟩ := listed.only other member'
    unfold SyncServer.placeOf at same
    rw [dest, dest', ← List.append_assoc, ← List.append_assoc, below_ _ nonempty proper,
      below_ _ nonempty' proper'] at same
    apply different
    rw [src, src', List.append_cancel_left same]
  unfold Apart
  rw [List.nodup_iff_pairwise_ne, List.pairwise_map]
  exact places.filter _

/-- What the server is left with at the place of one of the items. -/
theorem foldl_put_of_mem {content : Bytes → Bytes} {start : SyncTask → Nat}
    {before : Path → Option Bytes} {task : SyncTask} (apart : Apart server cwd tasks)
    (member : task ∈ tasks) (file : task.isDirectory = false) :
    (tasks.map (Item.steady content start)).foldl (Item.put server cwd) before
      (server.placeOf cwd task) = some (content task.srcPath) := by
  obtain ⟨front, later, rfl⟩ := List.append_of_mem member
  have target : place cwd ((Item.steady content start task).target server) =
      server.placeOf cwd task := by
    rw [Item.target, Item.steady_task]
    rfl
  have isFile : (Item.steady content start task).isFile := by
    rw [Item.isFile, Item.steady_task]
    exact file
  rw [List.map_append, List.map_cons, List.foldl_append, List.foldl_cons, foldl_put_of_ne]
  · unfold Item.put
    rw [if_pos isFile, target, Function.update_self, Item.steady_of_file file, List.take_length]
  · intro item inside file'
    obtain ⟨other, member', rfl⟩ := List.mem_map.mp inside
    rw [Item.isFile, Item.steady_task] at file'
    rw [Item.target, Item.steady_task]
    obtain ⟨first, second, rfl⟩ := List.append_of_mem member'
    have split : front ++ task :: (first ++ other :: second) =
        (front ++ task :: first) ++ other :: second := by simp
    exact Ne.symm (apart.ne_of_split split (by simp) file' file)

end

section

variable {server : SyncServer} {srcDir destDir : Bytes} {self : FileSync} {abi : Abi}
  {policy policy' : Policy}
  {w here : World} {fuel fuel' : Nat} {fs : FileSystem} {now : Pair Op Res World Bool Bool}

/-- The session in which a client has connected and has detected `tasks`, and has come to where it
is now in sending them. -/
def Syncing (drift : World → World → Prop) (policy policy' : Policy) (self : FileSync) (abi : Abi)
    (fuel : Nat) (srcDir destDir : Bytes) (resume : Bool) (w : World) (server : SyncServer)
    (fuel' : Nat) (fs : FileSystem) (tasks : List SyncTask)
    (now : Pair Op Res World Bool Bool) : Prop :=
  ∃ w₀ q₀ t₀ w₁ q₁ t₁,
    Relation.ReflTransGen
      (Pair.Step (handler policy True).exec (handler policy' True).exec drift Linked)
      ⟨Program.ask Op.connect, w, server.handleClient fuel', World.boot fs⟩
      ⟨.done true, w₀, q₀, t₀⟩ ∧
    Relation.ReflTransGen
      (Pair.Step (handler policy True).exec (handler policy' True).exec drift Linked)
      ⟨detectChanges self fuel srcDir destDir, w₀, q₀, t₀⟩ ⟨.done tasks, w₁, q₁, t₁⟩ ∧
    Relation.ReflTransGen
      (Pair.Step (handler policy True).exec (handler policy' True).exec drift Linked)
      ⟨sendTasks self abi fuel resume tasks, w₁, q₁, t₁⟩ now

namespace Syncing

variable {resume : Bool} {drift : World → World → Prop} {tasks : List SyncTask}

/-- What its client has done, part by part; nothing went over the connection before the tasks were
there. -/
theorem reach (gentle : ∀ w w', drift w w' → Aside w w')
    (sent : Syncing drift policy policy' self abi fuel srcDir destDir resume w server fuel' fs tasks
      now) :
    ∃ w₀ w₁, Program.Reach (handler policy True).exec drift (Program.ask Op.connect) w
        (.done true) w₀ ∧
      Program.Reach (handler policy True).exec drift (detectChanges self fuel srcDir destDir) w₀
        (.done tasks) w₁ ∧
      w₁.sent = w.sent ∧ w₁.received = w.received ∧
      Program.Reach (handler policy True).exec drift (sendTasks self abi fuel resume tasks) w₁
        now.left now.here := by
  obtain ⟨w₀, q₀, t₀, w₁, q₁, t₁, opened, detected, rest⟩ := sent
  have opened := Pair.left_reach opened
  have detected := Pair.left_reach detected
  have looks : Program.All Op.looks (Program.ask Op.connect : Prog Bool) :=
    Program.all_ask.mpr trivial
  have before := looks_silent looks (opened.relax gentle)
  have during := looks_silent (detectChanges_looks self fuel srcDir destDir)
    (detected.relax gentle)
  exact ⟨w₀, w₁, opened, detected, during.1.trans before.1, during.2.trans before.2,
    Pair.left_reach rest⟩

end Syncing

/-- A task as the server is to keep it. -/
def SyncTask.received (fs : FileSystem) (task : SyncTask) : ServerSyncTask :=
  ⟨task.destPath, task.srcPath, task.isDirectory, task.mode,
    if task.isDirectory then 0 else ((fs.read task.srcPath).getD []).length⟩

theorem Listed.small {tasks : List SyncTask} (listed : Listed fs srcDir destDir tasks)
    (small : ∀ rest content, fs.read (srcDir ++ slash :: rest) = some content →
      content.length < LARGE_FILE_THRESHOLD) {task : SyncTask} (member : task ∈ tasks) :
    ((fs.read task.srcPath).getD []).length < LARGE_FILE_THRESHOLD := by
  obtain ⟨names, nonempty, -, src, -⟩ := listed.only task member
  obtain ⟨rest, cut⟩ := exists_below_eq nonempty
  cases read : fs.read task.srcPath with
  | none =>
      show 0 < LARGE_FILE_THRESHOLD
      decide
  | some content =>
      rw [src, cut] at read
      exact small rest content read

end

end SyncTool
