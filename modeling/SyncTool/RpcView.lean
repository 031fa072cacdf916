import SyncTool.RpcAgreement
import SyncTool.RpcListing

set_option autoImplicit false

namespace SyncTool

open SyncTool.Path LinuxFileUtil FileSync

theorem run_looks_files {op : Op} (looks : op.looks) (choice : Choice) {w w' : World}
    (same : w'.fs = w.fs) :
    (op.run choice w').1 = (op.run choice w).1 := by
  cases op with
  | stat path => simp only [Op.run, same]
  | ctime path => rfl
  | readdir path => simp only [Op.run, same]
  | openIn path => simp only [Op.run, same]
  | get path pos count => simp only [Op.run, same]
  | connect => rfl
  | _ => exact looks.elim

/-- What some machine with these files would allow. -/
def Policy.onFiles (policy : Policy) : Policy :=
  fun op choice w => ∃ w' : World, w'.fs = w.fs ∧ policy op choice w'

theorem Policy.Scanning.onFiles {policy : Policy} (scanning : policy.Scanning) :
    policy.onFiles.Scanning := by
  intro op choice w looks allowed
  obtain ⟨w', _, allowed'⟩ := allowed
  exact scanning op choice w' looks allowed'

/-- Where the surroundings leave the files alone, a program that only looks may as well run on a
machine where nothing else moves. -/
theorem Program.Reach.alone {α : Type} {policy : Policy} {drift : World → World → Prop}
    (quiet : ∀ w w', drift w w' → w'.fs = w.fs) {p q : Prog α} {w w' : World}
    (looks : p.Calls Op.looks) (run : Program.Reach (handler policy True).exec drift p w q w') :
    q.Calls Op.looks ∧ w'.fs = w.fs ∧
    Program.Reach (handler policy.onFiles True).exec Eq p w q w := by
  induction run with
  | refl => exact ⟨looks, rfl, .refl⟩
  | env _ moved ih =>
      obtain ⟨straight, same, sofar⟩ := ih
      exact ⟨straight, (quiet _ _ moved).trans same, sofar⟩
  | @step p' q' w₁ w₂ _ one ih =>
      obtain ⟨straight, same, sofar⟩ := ih
      cases one with
      | @call _ op next _ _ answer ran =>
          obtain ⟨choice, allowed, ran⟩ := ran
          have still := run_looks straight.1 choice w₁
          have told := run_looks_files straight.1 choice same
          rw [ran] at still told
          refine ⟨straight.2 answer, ?_, sofar.step (.call ⟨choice, ⟨w₁, same, allowed⟩, ?_⟩)⟩
          · exact (congrArg World.fs still).trans same
          · exact Prod.ext told.symm (run_looks straight.1 choice w)
      | child i one => exact straight.elim
      | join verdicts all => exact straight.elim

namespace RpcServer

/-- The digest of a file, and nothing for a directory. -/
def digestOf (server : RpcServer) : Node → Bytes
  | .dir .. => []
  | .file content _ _ => server.md5.digest content

/-- What there is to be told of a path, up to its first zero byte. When the node was last changed is
all that is not in the files. -/
def describe (server : RpcServer) (fs : FileSystem) (filePath : Bytes) (st_ctime : Int) :
    FileMeta :=
  match fs.stat (cString (server.baseDirectory ++ filePath)) with
  | none => ⟨[], [], 0, 0, 0, 0, [], false, false⟩
  | some node => ⟨baseName filePath, filePath, node.st_size, node.st_mtime, st_ctime, node.st_mode,
      server.digestOf node, S_ISDIR node.st_mode, true⟩

/-- A listing is asked for of a directory in whose path string no zero byte is. -/
def Plain (server : RpcServer) : RpcCall → Prop
  | .listFiles directory _ => 0 ∉ server.baseDirectory ++ directory
  | .getFileMeta _ => True

section

variable {policy : Policy} {I : Interference World} {w : World} {server : RpcServer} {fuel : Nat}

end

end RpcServer

/-- Nobody speaks for the server, and nobody changes its files. -/
def Undisturbed (w w' : World) : Prop := Aside w w' ∧ w'.fs = w.fs

end SyncTool
