import SyncTool.RemoteSync
import SyncTool.TreeCompare

set_option autoImplicit false

namespace SyncTool

open SyncTool.Path FileSync

/-- The file that the server has at a path below its base directory. -/
def SyncServer.fileAt (server : SyncServer) (fs : FileSystem) (path : Bytes) : Option Bytes :=
  fs.contentAt (place fs.cwd (server.baseDirectory ++ path))

section

variable {server : SyncServer} {srcDir destDir : Bytes} {self : FileSync} {policy' : Policy}
  {w : World} {fuel fuel' : Nat} {fs : FileSystem} {now : Pair Op Res World Bool Bool}
  {tasks : List SyncTask}

/-- The tasks that a client detects while nobody touches its files. -/
structure Compared (md5 : Md5) (fs : FileSystem) (srcDir destDir : Bytes)
    (tasks : List SyncTask) : Prop where
  only : ∀ task, task ∈ tasks ↔ ∃ names node, names ≠ [] ∧ fs.under srcDir names = some node ∧
    ¬ Spared md5 fs srcDir destDir names ∧ task = taskFor srcDir destDir names node
  distinct : tasks.Pairwise fun task other => task.srcPath ≠ other.srcPath

namespace Compared

variable {here there : FileSystem}

theorem listed (compared : Compared self.md5 here srcDir destDir tasks) :
    Listed here srcDir destDir tasks where
  only task member := by
    obtain ⟨names, node, nonempty, exist, -, rfl⟩ := (compared.only task).mp member
    exact ⟨names, nonempty, proper_of_under exist, rfl, rfl⟩
  files task member file := by
    obtain ⟨names, node, nonempty, exist, -, rfl⟩ := (compared.only task).mp member
    obtain ⟨content, read⟩ :=
      FileSystem.read_of_stat (stat_of_under exist) (of_decide_eq_false file)
    rw [show (taskFor srcDir destDir names node).srcPath = srcDir ++ below names from rfl, read]
    exact Option.some_ne_none content
  distinct := compared.distinct

/-- The server has stored all that it was sent: a file with a task is there. -/
theorem stored (compared : Compared self.md5 here srcDir destDir tasks) (cwd : there.cwd = fs.cwd)
    (kept : ∀ q, there.contentAt q =
      (tasks.map (Item.steady (fun path => (here.read path).getD []) fun _ => 0)).foldl
        (Item.put server fs.cwd) fs.contentAt q)
    {names : Path} {content : Bytes} {perm : UInt32} {mtime : Int} (nonempty : names ≠ [])
    (file : here.under srcDir names = some (.file content perm mtime))
    (notSpared : ¬ Spared self.md5 here srcDir destDir names) :
    server.fileAt there (destDir ++ below names) = some content := by
  have member := (compared.only _).mpr ⟨names, _, nonempty, file, notSpared, rfl⟩
  have put := @foldl_put_of_mem server tasks fs.cwd (fun path => (here.read path).getD [])
    (fun _ => 0) fs.contentAt _ compared.listed.apart member rfl
  have read : here.read (srcDir ++ below names) = some content := by
    obtain ⟨p, found, looked⟩ := FileSystem.stat_eq_some.mp (stat_of_under file)
    exact FileSystem.read_eq_some.mpr ⟨p, found, by simp [FileSystem.entry, looked, Node.entry]⟩
  have source : (taskFor srcDir destDir names (.file content perm mtime)).srcPath =
      srcDir ++ below names := rfl
  rw [source, read, Option.getD_some] at put
  rw [SyncServer.fileAt, cwd, kept]
  exact put

/-- A file that is spared is left alone. -/
theorem spared (compared : Compared self.md5 here srcDir destDir tasks) (cwd : there.cwd = fs.cwd)
    (kept : ∀ q, there.contentAt q =
      (tasks.map (Item.steady (fun path => (here.read path).getD []) fun _ => 0)).foldl
        (Item.put server fs.cwd) fs.contentAt q)
    {names : Path} (nonempty : names ≠ [])
    (same : Spared self.md5 here srcDir destDir names) :
    server.fileAt there (destDir ++ below names) =
      server.fileAt fs (destDir ++ below names) := by
  rw [SyncServer.fileAt, SyncServer.fileAt, cwd, kept, foldl_put_of_ne]
  intro item inside _ at_
  obtain ⟨task, member, rfl⟩ := List.mem_map.mp inside
  obtain ⟨names', node, nonempty', exist, notSpared, rfl⟩ := (compared.only task).mp member
  obtain ⟨root, below_⟩ := exists_place_below fs.cwd (server.baseDirectory ++ destDir)
  obtain ⟨node₁, -, exist₁, -⟩ := id same
  have dest : (taskFor srcDir destDir names' node).destPath = destDir ++ below names' := rfl
  rw [Item.target, Item.steady_task, dest, ← List.append_assoc, ← List.append_assoc,
    below_ _ nonempty (proper_of_under exist₁), below_ _ nonempty' (proper_of_under exist)] at at_
  obtain rfl := List.append_cancel_left at_
  exact notSpared same

end Compared

end

end SyncTool
