import SyncTool.ParallelCopy
import SyncTool.ProgressRecord
import SyncTool.SyncFileCrash

set_option autoImplicit false

namespace SyncTool

open SyncTool.Path LinuxFileUtil FileSync World

namespace Program

variable {Op : Type} {Res : Op → Type} {α σ : Type}

/-- While one child runs, the others may wait. -/
theorem Reach.child {exec : (op : Op) → σ → Res op → σ → Prop} {count : Nat}
    {child : Fin count → Program Op Res Bool} {join : (Fin count → Bool) → Program Op Res α}
    {s s' : σ} {p' : Program Op Res Bool} (i : Fin count)
    (run : Reach exec Eq (child i) s p' s') :
    Reach exec Eq (.fork count child join) s
      (.fork count (Function.update child i p') join) s' := by
  induction run with
  | refl =>
      rw [Function.update_eq_self]
      exact .refl
  | step _ one ih =>
      have next := ih.step (.child i (by rwa [Function.update_self]))
      rwa [Function.update_idem] at next
  | env _ same ih => exact same ▸ ih

end Program

namespace FileSync

variable {self other : FileSync} {k : Copy} {c held : Bytes} {d t : Option Bytes} {w w' w'' : World}
  {amount : Nat}

/-- Nothing differs but the destination, its record and its backup. -/
structure Beside (k : Copy) (w w' : World) : Prop where
  dirs : FileSystem.DirsKept w.fs w'.fs
  others : ∀ p ∉ k.solo.writes, w'.fs.entry p = w.fs.entry p

theorem Beside.refl (k : Copy) (w : World) : Beside k w w := ⟨.refl _, fun _ _ => rfl⟩

theorem Beside.trans (first : Beside k w w') (second : Beside k w' w'') : Beside k w w'' :=
  ⟨first.dirs.trans second.dirs, fun p notMine =>
    (second.others p notMine).trans (first.others p notMine)⟩

/-- What such calls keep of a place without a record. -/
def Unrecorded (k : Copy) (cwd : Path) (w : World) : Prop :=
  w.fs.cwd = cwd ∧ w.fs.entry k.record = none

end FileSync

end SyncTool
