import SyncTool.ProgramRuns
import SyncTool.SyncFile

set_option autoImplicit false

namespace SyncTool

open SyncTool.Path FileSync

/-- What a copy that runs alone has to itself: everything but its source. -/
def Copy.solo (k : Copy) : Estate where
  writes := {k.dest, k.record, k.backup}
  reads := {k.src}
  grows := {p | (p ≠ k.dest ∧ p ≠ k.record ∧ p ≠ k.backup ∧ p ≠ k.src) ∧
    ∀ name ∈ p, ProperName name}
  keys := {k.destPath}
  unwritten p mine own := by
    rcases own with same | same | same
    · exact mine.1.1 same
    · exact mine.1.2.1 same
    · exact mine.1.2.2.1 same
  unread p mine own := mine.1.2.2.2 own
  proper p mine := mine.2

theorem Copy.owned_solo (k : Copy) : k.Owned k.solo :=
  ⟨.inl rfl, .inr (.inl rfl), rfl, rfl⟩

theorem Interference.free_le (I : Interference World) : Interference.free.Le I :=
  ⟨fun w w' same => by cases same; exact I.rely_refl w, fun _ _ _ => trivial⟩

theorem LinuxFileUtil.unraced_free (policy : Policy) : Unraced policy Interference.free :=
  .inl fun _ _ same => Eq.symm same

namespace FileSync

variable {self : FileSync} {available : Nat} {c f : Bytes} {d t : Option Bytes} {destPath : Bytes}

/-- What the destination and the record must be for the copy to come out right: a record that
is gone on from was written for the bytes the destination holds, and a parallel copy covers
all of the source that is not zero anyway. -/
def RightStart (self : FileSync) (available : Nat) (destPath c : Bytes) (d t : Option Bytes) :
    Prop :=
  match goesOnAt self destPath c t with
  | some offset => (keptBytes self d).getD [] = c.take offset
  | none => self.Large c → Measured destPath → c.length ≤ available → asyncImage c = c

theorem freshImage_eq_iff (image : FreshImage self (· = available) destPath c f) :
    f = c ↔ (self.Large c → Measured destPath → c.length ≤ available → asyncImage c = c) := by
  cases image with
  | plain small => exact ⟨fun _ large measured => absurd ⟨large, measured⟩ small, fun _ => rfl⟩
  | cramped amount same short =>
      subst same
      exact ⟨fun _ _ _ room => absurd room (by omega), fun _ => rfl⟩
  | parallel amount large measured same room =>
      subst same
      exact ⟨fun right _ _ _ => right, fun right => right large measured room⟩

theorem copyImage_eq_iff
    (image : CopyImage self (· = available) destPath c (keptBytes self d) t f) :
    f = c ↔ RightStart self available destPath c d t := by
  unfold CopyImage at image
  unfold RightStart
  cases offset : goesOnAt self destPath c t with
  | none =>
      rw [offset] at image
      exact freshImage_eq_iff image
  | some offset' =>
      rw [offset] at image
      subst image
      constructor
      · intro same
        refine List.append_cancel_right (?_ : _ ++ c.drop offset' = _ ++ c.drop offset')
        rw [same, List.take_append_drop]
      · intro same
        simp only [same, List.take_append_drop]

/-- A run of `syncFile` that reports success, without failing calls, leaves the source's bytes
in the destination exactly when it starts right. -/
theorem syncFile_exact_iff {k : Copy} {w w' : World} {fuel : Nat} {mode : UInt32}
    (copies : self.conflictStrategy ≠ .skip) (here : Ready k k.solo c d t w)
    (run : Program.Reach (handler (Policy.reliable (· = available)) True).exec Eq
      (syncFile self fuel k.srcPath k.destPath mode) w (.done true) w') :
    w'.fs.contentAt k.dest = some c ↔ RightStart self available k.destPath c d t := by
  have sound : ∀ op choice w, Policy.reliable (· = available) op choice w →
      Policy.reliable (· = available) op choice w := fun _ _ _ h => h
  have holds : Program.Sat (handler (Policy.reliable (· = available)) True) Interference.free
      (syncFile self fuel k.srcPath k.destPath mode) _ w :=
        syncFile_sat sound (Interference.free_le _) (LinuxFileUtil.unraced_free _) k.owned_solo here
    fun w₁ _ now => (resolveConflict_image sound k.owned_solo (.inr (.inr rfl)) copies now
      (.inl trivial) mode).mono (Interference.free_le _) fun _ _ done => done
  obtain ⟨f, held, image, final⟩ := holds.returned run rfl
  rw [FileSystem.contentAt_eq_some, final.dest]
  simpa using copyImage_eq_iff image

/-- A digest that is the content itself. -/
def plainMd5 : Md5 where
  Ctx := Bytes
  MD5_Init := []
  MD5_Update ctx data := ctx ++ data
  MD5_Final := id
  update_nil _ := List.append_nil _
  update_append _ _ _ := List.append_assoc _ _ _

def plainSync : FileSync where
  md5 := plainMd5
  order := ⟨id, fun _ => .refl _⟩
  speedLimit := 0
  conflictStrategy := .overwrite
  threadPool := false
  asyncIOHandler := none
  maxbytes := 2 ^ 44 - 4096

/-- From `/s` to `/d`. -/
def plainCopy : Copy where
  srcPath := [47, 115]
  destPath := [47, 100]
  src := [[115]]
  dest := [[100]]
  record := [[100] ++ progressSuffix]
  backup := [[100] ++ bakSuffix]
  srcDest := by decide
  srcRecord := by decide
  destRecord := by decide
  backupOther := by decide
  destProper := by decide
  recordProper := by decide
  backupProper := by decide

/-- `/s` holds `content`, and there is no `/d`. -/
def plainFs (content : Bytes) : FileSystem :=
  FileSystem.empty.put [[115]] (.file content 0o644 0)

/-- Besides, a record claims that one byte of `/d` is there already. -/
def staleFs : FileSystem :=
  (plainFs [65, 66]).put [[100] ++ progressSuffix] (.file (progressRecord [47, 100] 1 2) 0o644 0)

/-- And that byte is there. -/
def begunFs : FileSystem := staleFs.put [[100]] (.file [65] 0o644 0)

theorem plain_ready (content : Bytes) :
    Ready plainCopy plainCopy.solo content none none (World.boot (plainFs content)) where
  srcFound := rfl
  source := rfl
  home := rfl
  way := ⟨[[]], [100], by decide +kernel, by decide, rfl, rfl, rfl, fun p member => .inl (by
    have only : ∀ p ∈ [([] : Name)].scanl enter [], p = [] := by decide
    obtain rfl := only p member
    rfl)⟩
  dest := rfl
  record := rfl

theorem plain_at (content : Bytes) :
    plainCopy.At content none [] none (World.boot (plainFs content)) where
  srcFound := rfl
  source := rfl
  destFound := rfl
  dest := rfl
  held := rfl
  recordFound := rfl
  record := rfl
  backupFound := rfl

theorem begun_ready :
    Ready plainCopy plainCopy.solo [65, 66] (some [65]) (some (progressRecord [47, 100] 1 2))
      (World.boot begunFs) where
  srcFound := rfl
  source := rfl
  home := rfl
  way := ⟨[[]], [100], by decide +kernel, by decide, rfl, rfl, rfl, fun p member => .inl (by
    have only : ∀ p ∈ [([] : Name)].scanl enter [], p = [] := by decide
    obtain rfl := only p member
    rfl)⟩
  dest := rfl
  record := rfl

theorem syncFile_exact_begun : ∃ w', Program.Reach
    (handler (Policy.reliable (· = 0)) True).exec Eq
      (syncFile plainSync 1 plainCopy.srcPath plainCopy.destPath 0o644) (World.boot begunFs)
      (.done true) w' ∧
    (w'.fs.contentAt plainCopy.dest = some [65, 66] ↔
      RightStart plainSync 0 plainCopy.destPath [65, 66] (some [65])
        (some (progressRecord [47, 100] 1 2))) := by
  obtain ⟨w', run, -⟩ := Program.reach_of_play Eq (Policy.quietly_reliable (· = 0) True 0 rfl)
    (syncFile plainSync 1 plainCopy.srcPath plainCopy.destPath 0o644) (World.boot begunFs) true
    (fun w => w.fs.read plainCopy.destPath) (some [65, 66]) (by decide +kernel)
  exact ⟨w', run, syncFile_exact_iff (by decide) begun_ready run⟩

/-- The stale record is gone on from: success is reported of a copy that lacks its first byte. -/
theorem syncFile_stale : ∃ w', Program.Reach (handler (Policy.reliable (· = 0)) True).exec Eq
      (syncFile plainSync 1 plainCopy.srcPath plainCopy.destPath 0o644) (World.boot staleFs)
      (.done true) w' ∧
    w'.fs.read plainCopy.srcPath = some [65, 66] ∧ w'.fs.read plainCopy.destPath = some [66] := by
  obtain ⟨w', run, seen⟩ := Program.reach_of_play Eq (Policy.quietly_reliable (· = 0) True 0 rfl)
    (syncFile plainSync 1 plainCopy.srcPath plainCopy.destPath 0o644) (World.boot staleFs) true
    (fun w => (w.fs.read plainCopy.srcPath, w.fs.read plainCopy.destPath))
    (some [65, 66], some [66]) (by decide +kernel)
  exact ⟨w', run, congrArg Prod.fst seen, congrArg Prod.snd seen⟩

end FileSync

end SyncTool
