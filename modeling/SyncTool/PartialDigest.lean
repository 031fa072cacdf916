import SyncTool.RpcServer
import SyncTool.SyncFileOutcome
import SyncTool.TreeScan

set_option autoImplicit false

namespace SyncTool

open World LinuxFileUtil

/-- How much of a range is digested: all of it, or of one that reaches past the end of the file
the whole blocks that are there. -/
def digested (length offset size : Nat) : Nat :=
  if offset + size ≤ length then size else (length - offset) / 4096 * 4096

theorem digested_zero {length offset : Nat} (inside : offset ≤ length) :
    digested length offset 0 = 0 := by
  rw [digested, if_pos (by omega)]

/-- A block that is there is digested before the rest of the range is. -/
theorem digested_full {length offset size : Nat} (there : min 4096 size ≤ length - offset)
    (inside : offset ≤ length) :
    digested length offset size =
      min 4096 size + digested length (offset + min 4096 size) (size - min 4096 size) := by
  unfold digested
  by_cases within : offset + size ≤ length
  · rw [if_pos within, if_pos (by omega)]
    omega
  · rw [if_neg within, if_neg (by omega)]
    -- only a whole block fits in front of a range that does not end in the file
    have whole : min 4096 size = 4096 := by omega
    rw [whole] at there ⊢
    omega

theorem digested_short {length offset size : Nat} (short : length - offset < min 4096 size)
    (inside : offset ≤ length) : digested length offset size = 0 := by
  rw [digested, if_neg (by omega)]
  omega

theorem digested_eq_iff {length offset size : Nat} (inside : offset ≤ length) :
    digested length offset size = min size (length - offset) ↔
      offset + size ≤ length ∨ 4096 ∣ length - offset := by
  unfold digested
  by_cases within : offset + size ≤ length
  · rw [if_pos within]
    omega
  · rw [if_neg within]
    omega

section

variable {policy : Policy} {spins : Prop} {I : Interference World} {w : World}
variable {md5 : Md5} {path content : Bytes}

theorem updateRange_sat (scanning : policy.Scanning) (still : ∀ w w', I.rely w w' → w' = w)
    (read : w.fs.read path = some content) {fuel pos remaining : Nat} (ctx : md5.Ctx)
    (inside : pos ≤ content.length)
    (enough : spins ∨ 0 < fuel ∧ (remaining = 0 ∨ content.length + 4096 < pos + fuel * 4096)) :
    Program.Sat (handler policy spins) I (updateRange md5 path fuel pos remaining ctx)
      (fun ctx' w' =>
        ctx' = md5.MD5_Update ctx (slice content pos (digested content.length pos remaining)) ∧
        w' = w) w := by
  induction fuel generalizing pos remaining ctx with
  | zero =>
      rcases enough with spins | ⟨positive, _⟩
      · exact spins
      · omega
  | succ fuel ih =>
      rw [updateRange]
      apply Program.Sat.ite
      · intro more
        simp only [Program.ask_bind]
        refine Program.sat_look still (fun _ _ => rfl) fun choice allowed => ?_
        have quiet := scanning (.get path pos (min 4096 remaining)) _ _ trivial allowed
        simp only [quiet, read, Option.getD_some, ↓reduceIte]
        have length := World.length_slice content pos (min 4096 remaining)
        apply Program.Sat.ite
        · intro full
          have there : min 4096 remaining ≤ content.length - pos := by omega
          rw [digested_full there inside, World.slice_add, ← md5.update_append]
          apply ih
          · omega
          · exact enough.imp_right fun bound => by omega
        · intro short w' drift
          have less : content.length - pos < min 4096 remaining := by omega
          rw [digested_short less inside, slice, List.take_zero, md5.update_nil]
          exact ⟨rfl, still _ _ drift⟩
      · intro none w' drift
        obtain rfl : remaining = 0 := by omega
        rw [digested_zero inside, slice, List.take_zero, md5.update_nil]
        exact ⟨rfl, still _ _ drift⟩

theorem calculatePartialMD5_sat (scanning : policy.Scanning) (still : ∀ w w', I.rely w w' → w' = w)
    (read : w.fs.read path = some content) {fuel offset size : Nat}
    (inside : offset ≤ content.length) (enough : spins ∨ content.length + 4096 < fuel * 4096) :
    Program.Sat (handler policy spins) I (calculatePartialMD5 md5 fuel path offset size)
      (fun hash w' =>
        hash = md5.digest (slice content offset (digested content.length offset size)) ∧
        w' = w) w := by
  have exist : (w.fs.stat path).isSome = true := FileSystem.exists_of_read read
  have behind : ¬ (offset : Int) < 0 := by omega
  simp only [calculatePartialMD5, Program.ask_bind]
  refine Program.sat_look still (fun _ _ => rfl) fun choice allowed => ?_
  simp only [scanning (.openIn path) _ _ trivial allowed, exist, decide_true, Bool.and_self,
    ↓reduceIte]
  rw [if_neg behind, Int.toNat_natCast]
  apply Program.Sat.bind
  apply (updateRange_sat scanning still read _ inside
    (enough.imp_right fun bound => by omega)).weaken
  rintro ctx w' ⟨rfl, rfl⟩ w'' drift
  exact ⟨rfl, still _ _ drift⟩

end

/-- Every run of a digest returns `hash`. -/
def Hashes (p : Prog Bytes) (hash : Bytes) (w : World) : Prop :=
  Program.Returns (handler (Policy.reliable fun _ => True) False).exec
    (fun value w' => value = hash ∧ w' = w) p w

theorem Hashes.unique {p : Prog Bytes} {hash hash' : Bytes} {w : World} (first : Hashes p hash w)
    (second : Hashes p hash' w) : hash = hash' := by
  obtain ⟨value, w', run, rfl, -⟩ := first.exists_run
  have last := second.reach run
  cases last with
  | done holds => exact holds.1
  | step moves _ =>
      obtain ⟨_, _, one⟩ := moves
      exact absurd one Program.not_step_done

section

variable {w : World} {path content : Bytes} {fuel offset size : Nat}

/-- A program that only reads, seen from its specification. -/
theorem Hashes.of_sat {p : Prog Bytes} {hash : Bytes}
    (holds : Program.Sat (handler (Policy.reliable fun _ => True) False) .free p
      (fun value w' => value = hash ∧ w' = w) w) : Hashes p hash w :=
  holds.returns id fun op s => ⟨_, _, Policy.quietly_reliable (fun _ => True) False 0 trivial op s⟩

theorem scanning_reliable : (Policy.reliable fun _ => True).Scanning :=
  Policy.scanning_of_reliable fun _ _ _ allowed => allowed

theorem calculatePartialMD5_hashes (md5 : Md5) (read : w.fs.read path = some content)
    (inside : offset ≤ content.length) (enough : content.length + 4096 < fuel * 4096) :
    Hashes (calculatePartialMD5 md5 fuel path offset size)
      (md5.digest (slice content offset (digested content.length offset size))) w := by
  apply Hashes.of_sat
  exact calculatePartialMD5_sat scanning_reliable
    (fun _ _ same => Eq.symm same) read inside (.inr enough)

theorem calculateMD5_hashes (md5 : Md5) (read : w.fs.read path = some content)
    (enough : content.length + 4096 < fuel * 4096) :
    Hashes (calculateMD5 md5 fuel path) (md5.digest content) w := by
  apply Hashes.of_sat
  exact calculateMD5_sat scanning_reliable (fun _ _ same => Eq.symm same) read (.inr (by omega))

theorem calculateFileMD5_hashes (server : RpcServer) (read : w.fs.read path = some content)
    (enough : content.length + 4096 < fuel * 4096) :
    Hashes (server.calculateFileMD5 fuel path) (server.md5.digest content) w := by
  have whole : cString path = path := FileSystem.cString_of_read read
  have opened : w.fs.read (cString path) = some content := by rwa [whole]
  exact calculateMD5_hashes server.md5 opened enough

/-- The digest of a range is that of its bytes, and the digests of a whole file are that of the
range that covers it. -/
def Digests (server : RpcServer) (fuel : Nat) (path content : Bytes) (offset size : Nat)
    (w : World) : Prop :=
  Hashes (calculatePartialMD5 server.md5 fuel path offset size)
      (server.md5.digest (slice content offset size)) w ∧
    (offset = 0 → content.length ≤ size → ∀ hash,
      Hashes (calculatePartialMD5 server.md5 fuel path 0 size) hash w →
        Hashes (calculateMD5 server.md5 fuel path) hash w ∧
          Hashes (server.calculateFileMD5 fuel path) hash w)

theorem digests_of_whole (server : RpcServer) (read : w.fs.read path = some content)
    (inside : offset ≤ content.length) (enough : content.length + 4096 < fuel * 4096)
    (whole : digested content.length offset size = min size (content.length - offset)) :
    Digests server fuel path content offset size w := by
  have range : Hashes (calculatePartialMD5 server.md5 fuel path offset size)
      (server.md5.digest (slice content offset size)) w := by
    have hashed : Hashes _ _ w :=
      @calculatePartialMD5_hashes w path content fuel offset size server.md5 read inside enough
    rwa [whole, World.slice_min] at hashed
  refine ⟨range, fun start covers hash returned => ?_⟩
  subst start
  have all : slice content 0 size = content := by
    rw [slice, List.drop_zero, List.take_of_length_le covers]
  rw [all] at range
  obtain rfl : hash = server.md5.digest content := returned.unique range
  exact ⟨calculateMD5_hashes server.md5 read enough, calculateFileMD5_hashes server read enough⟩

theorem length_digest_plain (content : Bytes) :
    (FileSync.plainMd5.digest content).length = content.length * 2 := by
  show (hex ([] ++ content)).length = _
  simp [hex, List.length_flatMap]

/-- The routines digest the bytes of a range exactly if it does not reach past the end of the file
or a whole number of blocks is left there. -/
theorem digests_iff (server : RpcServer) (read : w.fs.read path = some content)
    (inside : offset ≤ content.length) (enough : content.length + 4096 < fuel * 4096) :
    (∀ md5, Digests { server with md5 := md5 } fuel path content offset size w) ↔
      offset + size ≤ content.length ∨ 4096 ∣ content.length - offset := by
  rw [← digested_eq_iff inside]
  constructor
  · intro all
    -- with a digest that is the content itself, nothing is left out unnoticed
    have range := (all FileSync.plainMd5).1
    have hashed : Hashes _ _ w :=
      @calculatePartialMD5_hashes w path content fuel offset size
        FileSync.plainMd5 read inside enough
    have same := congrArg List.length (hashed.unique range)
    rw [length_digest_plain, length_digest_plain, World.length_slice, World.length_slice] at same
    have less : digested content.length offset size ≤ content.length - offset := by
      unfold digested
      split
      · omega
      · exact Nat.div_mul_le_self _ _
    omega
  · intro whole md5
    exact digests_of_whole { server with md5 := md5 } read inside enough whole

end

/-- The library on no bytes and on the letter `a`. -/
def letterMd5 : Md5 where
  Ctx := Bytes
  MD5_Init := []
  MD5_Update ctx data := ctx ++ data
  MD5_Final ctx :=
    if ctx = [] then [0xd4, 0x1d, 0x8c, 0xd9, 0x8f, 0x00, 0xb2, 0x04, 0xe9, 0x80, 0x09, 0x98, 0xec,
      0xf8, 0x42, 0x7e]
    else if ctx = [97] then
      [0x0c, 0xc1, 0x75, 0xb9, 0xc0, 0xf1, 0xb6, 0xa8, 0x31, 0xc3, 0x99, 0xe2,
        0x69, 0x77, 0x26, 0x61]
    else ctx
  update_nil _ := List.append_nil _
  update_append _ _ _ := List.append_assoc _ _ _

def letterServer : RpcServer :=
  ⟨plainAbi, letterMd5, ⟨fun _ => none, fun _ => none, fun _ => none, fun _ => none⟩, [47]⟩

def letterFs : FileSystem := FileSystem.empty.put [[97]] (.file [97] 0o644 0)

theorem digests_letter : Digests letterServer 2 [47, 97] [97] 0 1 (World.boot letterFs) :=
  (digests_iff letterServer (by decide +kernel) (by decide) (by decide)).mpr
    (.inl (by decide)) letterMd5

/-- Asked for two bytes of the one there is, none is digested. -/
theorem digests_past_end :
    Hashes (calculatePartialMD5 letterMd5 2 [47, 97] 0 2) (ascii "d41d8cd98f00b204e9800998ecf8427e")
        (World.boot letterFs) ∧
      ¬ Digests letterServer 2 [47, 97] [97] 0 2 (World.boot letterFs) := by
  have hashed : Hashes (calculatePartialMD5 letterMd5 2 [47, 97] 0 2)
      (ascii "d41d8cd98f00b204e9800998ecf8427e") (World.boot letterFs) :=
    @calculatePartialMD5_hashes _ [47, 97] [97] 2 0 2 letterMd5 (by decide +kernel) (by decide)
      (by decide)
  refine ⟨hashed, fun digests => ?_⟩
  have same := hashed.unique digests.1
  exact absurd same (by decide +kernel)

end SyncTool
