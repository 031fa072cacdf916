import SyncTool.CreateDirectory
import SyncTool.FileSyncLocal
import SyncTool.TransferChunks

set_option autoImplicit false

namespace SyncTool

open SyncTool.Path FileSync LinuxFileUtil

namespace FileSync

/-- Whether a source goes through the parallel copy. -/
def Large (self : FileSync) (c : Bytes) : Prop :=
  LARGE_FILE_THRESHOLD ≤ c.length ∧ self.threadPool = true

instance (self : FileSync) (c : Bytes) : Decidable (self.Large c) :=
  inferInstanceAs (Decidable (_ ∧ _))

/-- The disk space can be asked for: the path string of the destination's directory is not the
empty one, as it is directly below the root. -/
def Measured (destPath : Bytes) : Prop := parentPath destPath ≠ some []

instance (destPath : Bytes) : Decidable (Measured destPath) :=
  inferInstanceAs (Decidable (_ ≠ _))

theorem parentPath_of_notMem {path : Bytes} (noSlash : slash ∉ path) : parentPath path = none :=
  if_neg noSlash

theorem parentPath_append_slash {parent : Bytes} {name : Name} (noSlash : slash ∉ name) :
    parentPath (parent ++ slash :: name) = some parent := by
  have skip : (name.reverse ++ slash :: parent.reverse).dropWhile (· ≠ slash) =
      slash :: parent.reverse := by
    rw [List.dropWhile_append_of_pos]
    · simp
    · intro byte member
      have other : byte ≠ slash := fun same => noSlash (same ▸ List.mem_reverse.mp member)
      simpa using other
  have reversed : (parent ++ slash :: name).reverse = name.reverse ++ slash :: parent.reverse := by
    simp
  rw [parentPath, if_pos (by simp), reversed, skip, List.tail_cons, List.reverse_reverse]

theorem eq_of_parentPath {path parent : Bytes} (named : parentPath path = some parent) :
    ∃ name, path = parent ++ slash :: name ∧ slash ∉ name := by
  by_cases has : slash ∈ path
  · obtain ⟨last, front, split, noSlash⟩ := List.eq_append_cons_of_mem (List.mem_reverse.mpr has)
    have whole : path = front.reverse ++ slash :: last.reverse := by
      rw [← List.reverse_reverse path, split]
      simp
    have cut : slash ∉ last.reverse := by simpa using noSlash
    rw [whole, parentPath_append_slash cut] at named
    exact ⟨last.reverse, by rw [whole, Option.some.inj named], cut⟩
  · rw [parentPath_of_notMem has] at named
    cases named

/-- Where a destination has a place, its directory can be asked for the space, if it
can be named. -/
theorem stat_parent {fs : FileSystem} {path : Bytes} {p : Path} (found : fs.resolve path = some p) :
    (fs.stat ((parentPath path).getD dot)).isSome = true ↔ Measured path := by
  have there : ∀ q : Path, fs.entry q = some .dir → (fs.lookup q).isSome = true := by
    intro q isDir
    rw [FileSystem.entry, Option.map_eq_some_iff] at isDir
    obtain ⟨node, looked, -⟩ := isDir
    rw [looked, Option.isSome_some]
  unfold FileSystem.resolve at found
  split at found
  · cases found
  · next nonempty =>
    unfold Measured
    cases named : parentPath path with
    | none =>
        have noSlash : slash ∉ path := by
          intro member
          rw [parentPath, if_pos member] at named
          cases named
        have relative : ∀ name : Bytes, slash ∉ name → origin fs.cwd name = fs.cwd :=
          fun name cut => if_neg fun absolute => cut (List.mem_of_mem_head? absolute)
        rw [relative path noSlash, components_of_notMem noSlash, FileSystem.walk] at found
        split at found
        · next home =>
          have cut : slash ∉ dot := by decide
          have dotted : fs.resolve dot = some fs.cwd := by
            rw [FileSystem.resolve, if_neg (by decide), relative dot cut, components_of_notMem cut,
              FileSystem.walk, if_pos home]
            rfl
          simp [FileSystem.stat, dotted, there _ home]
        · cases found
    | some parent =>
        obtain ⟨name, rfl, noSlash⟩ := eq_of_parentPath named
        rw [Option.getD_some]
        by_cases top : parent = []
        · subst top
          simp [FileSystem.stat, FileSystem.resolve]
        · rw [origin_append _ top, components_append_slash, components_of_notMem noSlash,
            FileSystem.walk_append] at found
          obtain ⟨here, walked, last⟩ := Option.bind_eq_some_iff.mp found
          rw [FileSystem.walk] at last
          split at last
          · next isDir =>
            have resolved : fs.resolve parent = some here := by
              rw [FileSystem.resolve, if_neg top, walked]
            simp [FileSystem.stat, resolved, there _ isDir, top]
          · cases last

/-- What a copy from the start makes of the source, given the disk space that may be reported. -/
inductive FreshImage (self : FileSync) (space : Nat → Prop) (destPath c : Bytes) :
    Bytes → Prop where
  | plain : ¬ (self.Large c ∧ Measured destPath) → FreshImage self space destPath c c
  | cramped (amount : Nat) : space amount → amount < c.length → FreshImage self space destPath c c
  | parallel (amount : Nat) : self.Large c → Measured destPath → space amount → c.length ≤ amount →
      FreshImage self space destPath c (asyncImage c)

/-- What `loadProgress` makes of a record's file, if there is one. -/
def loaded (destPath : Bytes) : Option Bytes → SyncProgress
  | none => ⟨destPath, 0, 0⟩
  | some text => parseProgress destPath text

/-- Where the record tells the copy to go on, if it does. -/
def resumeAt (destPath : Bytes) (t : Option Bytes) : Option Nat :=
  if 0 < (loaded destPath t).offset ∧ 0 < (loaded destPath t).totalSize then
    some (loaded destPath t).offset.toNat
  else none

/-- Where a copy of the source goes on: where the record tells it to, unless that is refused. -/
def goesOnAt (self : FileSync) (destPath c : Bytes) (t : Option Bytes) : Option Nat :=
  (resumeAt destPath t).filter fun offset => self.Seeks c offset

/-- What a copy over a destination `d` with a record `t` makes of the source. -/
def CopyImage (self : FileSync) (space : Nat → Prop) (destPath c : Bytes) (d t : Option Bytes)
    (f : Bytes) : Prop :=
  match goesOnAt self destPath c t with
  | some offset => f = d.getD [] ++ c.drop offset
  | none => FreshImage self space destPath c f

/-- A copy that no record interferes with is exact if the parallel copy would be. -/
theorem FreshImage.exact {self : FileSync} {space : Nat → Prop} {destPath c f : Bytes}
    (image : FreshImage self space destPath c f) (covers : asyncImage c = c) : f = c := by
  cases image with
  | plain => rfl
  | cramped => rfl
  | parallel => exact covers

theorem resumeAt_pos {destPath : Bytes} {t : Option Bytes} {offset : Nat}
    (found : resumeAt destPath t = some offset) : 0 < offset := by
  unfold resumeAt at found
  split at found
  · rename_i good
    cases found
    omega
  · cases found

section

variable {self : FileSync} {policy : Policy} {spins : Prop} {space : Nat → Prop}
  {I : Interference World} {Good : Bytes → Prop} {e : Estate} {k : Copy} {c held : Bytes}
  {d t : Option Bytes} {w : World} {destPath : Bytes} {offset : Nat}

theorem goesOnAt_of_none (nothing : resumeAt destPath t = none) :
    goesOnAt self destPath c t = none := by
  rw [goesOnAt, nothing, Option.filter_none]

theorem goesOnAt_of_seeks (usable : resumeAt destPath t = some offset)
    (seeks : self.Seeks c offset) :
    goesOnAt self destPath c t = some offset := by
  rw [goesOnAt, usable, Option.filter_some, if_pos (decide_eq_true seeks)]

theorem goesOnAt_of_refused (usable : resumeAt destPath t = some offset)
    (refused : ¬ self.Seeks c offset) : goesOnAt self destPath c t = none := by
  rw [goesOnAt, usable, Option.filter_some, if_neg (by simpa using refused)]

/-- A copy that goes on does so where its record says. -/
theorem resumeAt_of_goesOnAt (goesOn : goesOnAt self destPath c t = some offset) :
    resumeAt destPath t = some offset :=
  (Option.filter_eq_some_iff.mp goesOn).1

theorem stat_src (here : k.At c d held t w) :
    ∃ perm mtime, w.fs.stat k.srcPath = some (.file c perm mtime) := by
  have kind := here.source
  unfold FileSystem.entry at kind
  obtain ⟨node, looked, entry⟩ := Option.map_eq_some_iff.mp kind
  cases node with
  | dir size perm mtime => cases entry
  | file content perm mtime =>
      cases entry
      exact ⟨perm, mtime, FileSystem.stat_eq_some.mpr ⟨_, here.srcFound, looked⟩⟩

theorem stat_dest (here : k.At c d held t w) : (w.fs.stat k.destPath).isSome = d.isSome := by
  rw [FileSystem.stat, here.destFound, Option.bind_some, ← Option.isSome_map (f := Node.entry)]
  change (w.fs.entry k.dest).isSome = d.isSome
  rw [here.dest, Option.isSome_map]

theorem stat_record (here : k.At c d held t w) :
    (w.fs.stat (getProgressFilePath k.destPath)).isSome = t.isSome := by
  rw [FileSystem.stat, here.recordFound, Option.bind_some, ← Option.isSome_map (f := Node.entry)]
  change (w.fs.entry k.record).isSome = t.isSome
  rw [here.record, Option.isSome_map]

theorem setFileMode_sat (hosts : k.Hosts c Good I) (here : k.At c d held t w) (path : Bytes)
    (mode : UInt32) {α : Type} {next : Bool → Prog α} {Q : α → World → Prop}
    (holds : ∀ w' changed, k.At c d held t w' →
      Program.Sat (handler policy spins) I (next changed) Q w') :
    Program.Sat (handler policy spins) I (.call (.chmod path mode) next) Q w := by
  refine Program.sat_op.mpr fun w₁ drift choice _ => ?_
  have now := hosts.rely here drift
  have same := @run_chmod_same w₁ choice path mode
  exact ⟨hosts.same now same, holds _ _ (now.of_same same)⟩

theorem remove_dest_sat (removes : ∀ op choice w, policy op choice w →
      Policy.removing op choice w)
    (own : k.Owned e) {f : Bytes} (here : k.At c (some f) held t w) {α : Type}
    {next : Bool → Prog α} {Q : α → World → Prop}
    (holds : ∀ w' removed, k.At c none held t w' →
      Program.Sat (handler policy spins) e.interference (next removed) Q w') :
    Program.Sat (handler policy spins) e.interference (.call (.remove k.destPath) next) Q w := by
  refine Program.sat_op.mpr fun w₁ drift choice allowed => ?_
  have now := here.rely own drift
  obtain ⟨-, change⟩ := run_remove_file (removes _ _ _ allowed) now.destFound now.dest
  rw [now.held] at change
  exact ⟨Estate.guar_of_change change own.dest fun isDir => absurd isDir now.notDir,
    holds _ _ (@Copy.At.of_dest _ _ _ _ _ _ _ none _ now change)⟩

/-- The cleanup removes the destination and its record. -/
theorem cleanupCorruptedFile_sat (removes : ∀ op choice w, policy op choice w →
      Policy.removing op choice w)
    (own : k.Owned e) (here : k.At c d held t w) :
    Program.Sat (handler policy spins) e.interference (cleanupCorruptedFile k.destPath)
      (fun _ w' => k.At c none held none w') w := by
  simp only [cleanupCorruptedFile, fileExists, Program.ask_bind, Program.call_bind,
    Program.pure_eq, Program.done_bind]
  refine Program.sat_read (fun _ _ => rfl) fun w₁ drift₁ _ _ => ?_
  have now₁ := here.rely own drift₁
  have record : ∀ {w : World}, k.At c none held t w →
      Program.Sat (handler policy spins) e.interference
        (.call (.stat (getProgressFilePath k.destPath)) fun answer =>
          if answer.isSome = true then
            .call (.remove (getProgressFilePath k.destPath)) fun _ => .done ()
          else .done ())
        (fun _ w' => k.At c none held none w') w := by
    intro w here
    refine Program.sat_read (fun _ _ => rfl) fun w₂ drift₂ _ _ => ?_
    have now₂ := here.rely own drift₂
    rw [stat_record now₂]
    cases t with
    | none => exact fun w₃ drift₃ => now₂.rely own drift₃
    | some text =>
        exact remove_record_sat removes (Copy.hosts_estate own) now₂
          fun w₃ _ now₃ w₄ drift₄ => now₃.rely own drift₄
  rw [stat_dest now₁]
  cases d with
  | none => exact record now₁
  | some f => exact remove_dest_sat removes own now₁ fun w₂ _ now₂ => record now₂

/-- The parallel copy succeeds, or reports that the disk is too full, or cannot ask, before it
touches anything. -/
theorem transferLargeFileAsync_sat (sound : ∀ op choice w, policy op choice w →
      Policy.reliable space op choice w)
    (own : k.Owned e) (here : k.At c d held t w) {fuel : Nat}
    (enough : spins ∨ ASYNC_CHUNK_SIZE < fuel) :
    Program.Sat (handler policy spins) e.interference
      (transferLargeFileAsync self fuel k.srcPath k.destPath 0)
      (fun ok w' =>
        ok = true ∧ (Measured k.destPath ∧ ∃ amount, space amount ∧ c.length ≤ amount) ∧
            k.At c (some (asyncImage c)) held none w' ∨
        ok = false ∧ (Measured k.destPath → ∃ amount, space amount ∧ amount < c.length) ∧
            k.At c d held t w') w := by
  simp only [transferLargeFileAsync, getFileStat, checkDiskSpace, Program.ask_bind]
  refine Program.sat_read (fun _ _ => rfl) fun w₁ drift₁ _ _ => ?_
  have now₁ := here.rely own drift₁
  obtain ⟨perm, mtime, stat⟩ := stat_src now₁
  rw [stat]
  simp only [Node.st_size, Program.call_bind]
  refine Program.sat_read (fun _ _ => rfl)
    fun w₂ drift₂ choice₂ allowed₂ => ?_
  have now₂ := now₁.rely own drift₂
  obtain ⟨ok₂, amount, count, allowed⟩ := sound _ _ _ allowed₂
  by_cases measured : Measured k.destPath
  swap
  · rw [if_neg fun asked => measured ((stat_parent now₂.destFound).mp asked.2)]
    exact fun w₃ drift₃ => .inr ⟨rfl, fun named => absurd named measured, now₂.rely own drift₃⟩
  rw [if_pos ⟨ok₂, (stat_parent now₂.destFound).mpr measured⟩]
  simp only [count, Option.getD_some, Program.pure_eq, Program.done_bind,
    Int.natCast_zero, Int.sub_zero, Int.ofNat_le, Bool.not_eq_true', decide_eq_false_iff_not]
  by_cases room : c.length ≤ amount
  · rw [if_neg (by simpa using room)]
    refine Program.sat_read (fun _ _ => rfl) fun w₃ drift₃ choice₃ allowed₃ => ?_
    have now₃ := now₂.rely own drift₃
    obtain ⟨perm₃, mtime₃, stat₃⟩ := stat_src now₃
    simp only [(sound _ _ _ allowed₃).1, stat₃, decide_true, Option.isSome_some, Bool.and_self,
      Bool.true_eq_false, ↓reduceIte]
    refine Program.sat_op.mpr fun w₄ drift₄ choice₄ allowed₄ => ?_
    have now₄ := now₃.rely own drift₄
    obtain ⟨opened, change₄⟩ := run_openFd (sound _ _ _ allowed₄).1 now₄.destFound now₄.notDir
      k.destProper .trunc
    rw [now₄.held] at change₄
    have then₄ := Copy.At.of_dest (g := some []) now₄ change₄
    rw [opened]
    refine ⟨Estate.guar_of_change change₄ own.dest fun isDir => absurd isDir now₄.notDir, ?_⟩
    simp only [Bool.true_eq_false, ↓reduceIte]
    refine Program.sat_op.mpr fun w₅ drift₅ choice₅ allowed₅ => ?_
    have now₅ := then₄.rely own drift₅
    obtain ⟨sized, change₅⟩ := run_ftruncate (sound _ _ _ allowed₅).1 now₅.destFound now₅.dest
      c.length
    rw [now₅.held] at change₅
    have blank : World.resize [] c.length = List.replicate c.length 0 := by simp [World.resize]
    rw [blank] at change₅
    have then₅ := Copy.At.of_dest (g := some (List.replicate c.length 0)) now₅ change₅
    rw [sized]
    refine ⟨Estate.guar_of_change change₅ own.dest fun isDir => absurd isDir now₅.notDir, ?_⟩
    simp only [↓reduceIte]
    refine (runChunks_sat sound own then₅ (by simp) (by simp) enough).weaken ?_
    rintro ok w' ⟨rfl, final⟩
    exact .inl ⟨rfl, ⟨measured, amount, allowed, room⟩, final⟩
  · rw [if_pos (by simpa using room)]
    exact fun w₃ drift₃ => .inr ⟨rfl, fun _ => ⟨amount, allowed, by omega⟩, now₂.rely own drift₃⟩

/-- How much fuel the loops over a source of `size` bytes need. -/
def Enough (spins : Prop) (size fuel : Nat) : Prop :=
  spins ∨ size < fuel * bufferSize ∧ ASYNC_CHUNK_SIZE < fuel

theorem enough_of_lt {spins : Prop} {size fuel : Nat} (more : size + ASYNC_CHUNK_SIZE < fuel) :
    Enough spins size fuel := by
  refine .inr ⟨?_, by omega⟩
  simp only [bufferSize]
  omega

theorem copyWhole_sat (sound : ∀ op choice w, policy op choice w →
      Policy.reliable space op choice w)
    (hosts : k.Hosts c Good I) (here : k.At c d held t w) (good : ∀ n, Good (c.take n)) {fuel : Nat}
    (enough : Enough spins c.length fuel) (mode : UInt32) :
    Program.Sat (handler policy spins) I (copyWhole self fuel k.srcPath k.destPath mode)
      (fun ok w' => ok = true ∧ k.At c (some c) [] none w') w := by
  rw [copyWhole]
  refine Program.Sat.bind ((transferFile_sat sound hosts here 0 (.inl (Nat.zero_le _))
    (by simpa [World.slice] using good) (enough.imp_right And.left)).weaken ?_)
  rintro ok w₁ ⟨rfl, now₁⟩
  simp only [↓reduceIte, setFileMode, Program.ask_bind]
  simp only [Nat.lt_irrefl, ↓reduceIte, List.drop_zero, List.nil_append] at now₁
  exact setFileMode_sat hosts now₁ _ _ fun w₂ _ now₂ w₃ drift₃ => ⟨rfl, hosts.rely now₂ drift₃⟩

/-- A source that is not large goes the plain way. -/
theorem copyFresh_plain (sound : ∀ op choice w, policy op choice w →
      Policy.reliable space op choice w)
    (hosts : k.Hosts c Good I) (here : k.At c d held t w) (good : ∀ n, Good (c.take n))
    (plain : ¬ self.Large c) {fuel : Nat} (enough : Enough spins c.length fuel) (mode : UInt32) :
    Program.Sat (handler policy spins) I (copyFresh self fuel k.srcPath k.destPath mode)
      (fun ok w' => ok = true ∧ ∃ f held', FreshImage self space k.destPath c f ∧
        k.At c (some f) held' none w') w := by
  simp only [copyFresh, getFileStat, Program.ask_bind]
  refine Program.sat_read (fun _ _ => rfl) fun w₁ drift₁ _ _ => ?_
  have now₁ := hosts.rely here drift₁
  obtain ⟨perm, mtime, stat⟩ := stat_src now₁
  have size : (Node.file c perm mtime).st_size = c.length := rfl
  simp only [stat, size, Bool.and_eq_true, decide_eq_true_eq]
  rw [if_neg (show ¬ (_ ∧ _) from plain)]
  refine (copyWhole_sat sound hosts now₁ good enough mode).weaken ?_
  rintro ok w' ⟨rfl, final⟩
  exact ⟨rfl, c, [], .plain fun both => plain both.1, final⟩

theorem copyFresh_sat (sound : ∀ op choice w, policy op choice w →
      Policy.reliable space op choice w)
    (own : k.Owned e) (here : k.At c d held t w) {fuel : Nat} (enough : Enough spins c.length fuel)
    (mode : UInt32) :
    Program.Sat (handler policy spins) e.interference
      (copyFresh self fuel k.srcPath k.destPath mode)
      (fun ok w' => ok = true ∧ ∃ f held', FreshImage self space k.destPath c f ∧
        k.At c (some f) held' none w') w := by
  by_cases large : self.Large c
  · simp only [copyFresh, getFileStat, Program.ask_bind]
    refine Program.sat_read (fun _ _ => rfl) fun w₁ drift₁ _ _ => ?_
    have now₁ := here.rely own drift₁
    obtain ⟨perm, mtime, stat⟩ := stat_src now₁
    have size : (Node.file c perm mtime).st_size = c.length := rfl
    simp only [stat, size, Bool.and_eq_true, decide_eq_true_eq]
    rw [if_pos (show _ ∧ _ from large)]
    have hosts := Copy.hosts_estate (c := c) own
    refine Program.Sat.bind ((transferLargeFileAsync_sat sound own now₁
      (enough.imp_right And.right)).weaken ?_)
    rintro ok w₂ (⟨rfl, ⟨measured, amount, allowed, room⟩, now₂⟩ | ⟨rfl, short, now₂⟩)
    · simp only [↓reduceIte, setFileMode, Program.ask_bind]
      exact setFileMode_sat hosts now₂ _ _ fun w₃ _ now₃ w₄ drift₄ =>
        ⟨rfl, _, _, .parallel amount large measured allowed room, now₃.rely own drift₄⟩
    · simp only [Bool.false_eq_true, ↓reduceIte]
      refine Program.Sat.bind
        ((cleanupCorruptedFile_sat (Policy.removing_of_reliable sound) own now₂).weaken
          fun _ w₃ now₃ => ?_)
      refine (copyWhole_sat sound hosts now₃ (fun _ => trivial) enough mode).weaken ?_
      rintro ok w' ⟨rfl, final⟩
      refine ⟨rfl, c, [], ?_, final⟩
      by_cases measured : Measured k.destPath
      · obtain ⟨amount, allowed, short⟩ := short measured
        exact .cramped amount allowed short
      · exact .plain fun both => measured both.2
  · exact copyFresh_plain sound (Copy.hosts_estate own) here (fun _ => trivial) large enough mode

theorem loadProgress_sat (sound : ∀ op choice w, policy op choice w →
      Policy.reliable space op choice w)
    (hosts : k.Hosts c Good I) (here : k.At c d held t w) :
    Program.Sat (handler policy spins) I (loadProgress k.destPath)
      (fun progress w' => progress = loaded k.destPath t ∧ k.At c d held t w') w := by
  simp only [loadProgress, Program.ask_bind]
  refine Program.sat_read (fun _ _ => rfl) fun w₁ drift₁ choice₁ allowed₁ => ?_
  have now₁ := hosts.rely here drift₁
  rw [stat_record now₁]
  simp only [(sound _ _ _ allowed₁).1, decide_true, Bool.true_and]
  cases t with
  | none => exact fun w₂ drift₂ => ⟨rfl, hosts.rely now₁ drift₂⟩
  | some text =>
      simp only [Option.isSome_some, ↓reduceIte]
      refine Program.sat_read (fun _ _ => rfl) fun w₂ drift₂ choice₂ allowed₂ => ?_
      have now₂ := hosts.rely now₁ drift₂
      have read : w₂.fs.read (getProgressFilePath k.destPath) = some text :=
        FileSystem.read_eq_some.mpr ⟨_, now₂.recordFound, now₂.record⟩
      rw [if_pos (sound _ _ _ allowed₂).1, read]
      exact fun w₃ drift₃ => ⟨rfl, hosts.rely now₂ drift₃⟩

/-- The copy once conflicts are out of the way: it always reports success. A copy from the
start is given by its own specification. -/
theorem copyOrResume_sat (sound : ∀ op choice w, policy op choice w →
      Policy.reliable space op choice w)
    (hosts : k.Hosts c Good I) (here : k.At c d held t w)
    (good : ∀ offset n, resumeAt k.destPath t = some offset →
      Good (d.getD [] ++ World.slice c offset n))
    {fuel : Nat} (enough : Enough spins c.length fuel) (mode : UInt32)
    (fresh : goesOnAt self k.destPath c t = none → ∀ d' held' w', d'.getD [] = d.getD [] →
      k.At c d' held' t w' →
      Program.Sat (handler policy spins) I (copyFresh self fuel k.srcPath k.destPath mode)
        (fun ok w' => ok = true ∧ ∃ f held', FreshImage self space k.destPath c f ∧
          k.At c (some f) held' none w') w') :
    Program.Sat (handler policy spins) I (copyOrResume self fuel k.srcPath k.destPath mode)
      (fun ok w' => ok = true ∧ ∃ f held', CopyImage self space k.destPath c d t f ∧
        k.At c (some f) held' none w') w := by
  rw [copyOrResume]
  refine Program.Sat.bind ((loadProgress_sat sound hosts here).weaken ?_)
  rintro progress w₁ ⟨rfl, now₁⟩
  by_cases usable : 0 < (loaded k.destPath t).offset ∧ 0 < (loaded k.destPath t).totalSize
  · have offset : resumeAt k.destPath t = some (loaded k.destPath t).offset.toNat := if_pos usable
    have positive := resumeAt_pos offset
    rw [if_pos usable]
    by_cases seeks : self.Seeks c (loaded k.destPath t).offset.toNat
    · have goesOn := goesOnAt_of_seeks offset seeks
      refine Program.Sat.bind ((transferFile_sat sound hosts now₁ _ seeks
        (by rw [if_pos positive]; exact fun n => good _ n offset)
        (enough.imp_right And.left)).weaken ?_)
      rintro ok w₂ ⟨rfl, now₂⟩
      rw [if_pos positive] at now₂
      simp only [↓reduceIte, setFileMode, Program.ask_bind]
      refine remove_record_sat (Policy.removing_of_reliable sound) hosts now₂ fun w₃ _ now₃ => ?_
      refine setFileMode_sat hosts now₃ _ _ fun w₄ _ now₄ w₅ drift₅ => ⟨rfl, _, _, ?_,
        hosts.rely now₄ drift₅⟩
      rw [CopyImage, goesOn]
    · have goesOn := goesOnAt_of_refused offset seeks
      refine Program.Sat.bind ((transferFile_refused sound hosts now₁ seeks
        (by simpa [World.slice] using good _ 0 offset)).weaken ?_)
      rintro ok w₂ ⟨rfl, now₂⟩
      simp only [Bool.false_eq_true, ↓reduceIte]
      refine (fresh goesOn _ _ w₂ (by simp) now₂).weaken ?_
      rintro ok w₃ ⟨rfl, f, held', image, now₃⟩
      refine ⟨rfl, f, held', ?_, now₃⟩
      rw [CopyImage, goesOn]
      exact image
  · have none : goesOnAt self k.destPath c t = none := goesOnAt_of_none (if_neg usable)
    rw [if_neg usable]
    refine (fresh none _ _ w₁ rfl now₁).weaken ?_
    rintro ok w₂ ⟨rfl, f, held', image, now₂⟩
    refine ⟨rfl, f, held', ?_, now₂⟩
    rw [CopyImage, none]
    exact image

/-- Strategies that copy over an existing destination. -/
def Overwrites (self : FileSync) : Prop :=
  self.conflictStrategy = .overwrite ∨ self.conflictStrategy = .other

/-- Such a strategy goes on to the copy. -/
theorem resolveConflict_sat (hosts : k.Hosts c Good I) (overwrites : Overwrites self)
    (here : k.At c d held t w) {fuel : Nat} {mode : UInt32} {Q : Bool → World → Prop}
    (rest : ∀ w', k.At c d held t w' → Program.Sat (handler policy spins) I
      (copyOrResume self fuel k.srcPath k.destPath mode) Q w') :
    Program.Sat (handler policy spins) I (resolveConflict self fuel k.srcPath k.destPath mode)
      Q w := by
  have proceed : ∀ destPath, handleConflict self destPath = .done true := by
    intro destPath
    rcases overwrites with strategy | strategy <;> simp [handleConflict, strategy]
  simp only [resolveConflict, fileExists, Program.ask_bind, Program.call_bind, Program.pure_eq,
    Program.done_bind, proceed, ↓reduceIte, ite_self]
  exact Program.sat_read (fun _ _ => rfl) fun w₁ drift₁ _ _ => rest w₁ (hosts.rely here drift₁)

/-- On an estate, the copy leaves the image that the destination and the record determine. -/
theorem copyOrResume_estate (sound : ∀ op choice w, policy op choice w →
      Policy.reliable space op choice w)
    (own : k.Owned e) (here : k.At c d held t w) {fuel : Nat} (enough : Enough spins c.length fuel)
    (mode : UInt32) :
    Program.Sat (handler policy spins) e.interference
      (copyOrResume self fuel k.srcPath k.destPath mode)
      (fun ok w' => ok = true ∧ ∃ f held', CopyImage self space k.destPath c d t f ∧
        k.At c (some f) held' none w') w :=
  copyOrResume_sat sound (Copy.hosts_estate own) here (fun _ _ _ => trivial) enough mode
    fun _ _ _ _ _ now => copyFresh_sat sound own now enough mode

end

/-- Before `syncFile`, what no other task changes: the source, and the directories on the way to
the destination, which are there or can be made and lead to the places of the destination, of its
record and of its backup. -/
structure Approach (k : Copy) (e : Estate) (c : Bytes) (w : World) : Prop where
  srcFound : w.fs.resolve k.srcPath = some k.src
  source : w.fs.entry k.src = some (.file c)
  home : w.fs.entry (origin w.fs.cwd k.destPath) = some .dir
  way : ∃ front name, components k.destPath = front ++ [name] ∧ ProperName name ∧
    k.dest = front.foldl enter (origin w.fs.cwd k.destPath) ++ [name] ∧
    k.record = front.foldl enter (origin w.fs.cwd k.destPath) ++ [name ++ progressSuffix] ∧
    k.backup = front.foldl enter (origin w.fs.cwd k.destPath) ++ [name ++ bakSuffix] ∧
    ∀ p ∈ front.scanl enter (origin w.fs.cwd k.destPath), e.Open w p

/-- What the destination and the record are before `syncFile`. -/
structure Ready (k : Copy) (e : Estate) (c : Bytes) (d t : Option Bytes) (w : World) : Prop
    extends approach : Approach k e c w where
  dest : w.fs.entry k.dest = d.map .file
  record : w.fs.entry k.record = t.map .file

/-- The path strings name the places of the copy. -/
structure Named (k : Copy) (w : World) : Prop where
  dest : w.fs.resolve k.destPath = some k.dest
  record : w.fs.resolve (getProgressFilePath k.destPath) = some k.record
  backup : w.fs.resolve (k.destPath ++ bakSuffix) = some k.backup

section

variable {self : FileSync} {policy : Policy} {spins : Prop} {space : Nat → Prop}
  {I : Interference World} {e : Estate} {k : Copy} {c : Bytes} {d t : Option Bytes} {w w' : World}

theorem Approach.rely (here : Approach k e c w) (own : k.src ∈ e.reads)
    (drift : e.quiet.Rely w w') : Approach k e c w' where
  srcFound := drift.dirs.resolve here.srcFound
  source := (drift.reads _ (.inr own)).trans here.source
  home := by
    rw [drift.dirs.1]
    exact drift.dirs.2 _ here.home
  way := by
    obtain ⟨front, name, split, proper, dest, record, backup, way⟩ := here.way
    rw [drift.dirs.1]
    exact ⟨front, name, split, proper, dest, record, backup, fun p member =>
      Estate.Open.rely (e := e.quiet) (way p member) drift⟩

theorem Ready.rely (here : Ready k e c d t w) (own : k.Owned e) (drift : e.quiet.Rely w w') :
    Ready k e c d t w' :=
  ⟨here.approach.rely own.src drift, (drift.reads _ (.inl own.dest)).trans here.dest,
    (drift.reads _ (.inl own.record)).trans here.record⟩

/-- A change at the destination or the record leaves the way there alone. -/
theorem Ready.of_kept {d' t' : Option Bytes} (here : Ready k e c d t w)
    (kept : FileSystem.DirsKept w.fs w'.fs)
    (others : ∀ p ∉ e.writes, w'.fs.entry p = w.fs.entry p)
    (source : w'.fs.entry k.src = some (.file c))
    (dest : w'.fs.entry k.dest = d'.map .file) (record : w'.fs.entry k.record = t'.map .file) :
    Ready k e c d' t' w' where
  srcFound := kept.resolve here.srcFound
  source := source
  home := by
    rw [kept.1]
    exact kept.2 _ here.home
  way := by
    obtain ⟨front, name, split, proper, dest, record, backup, way⟩ := here.way
    rw [kept.1]
    refine ⟨front, name, split, proper, dest, record, backup, fun p member => ?_⟩
    rcases way p member with isDir | ⟨mine, missing⟩
    · exact .inl (kept.2 p isDir)
    · exact .inr ⟨mine, (others p (e.unwritten p mine)).trans missing⟩
  dest := dest
  record := record

/-- A suffix without a slash keeps a name proper. -/
theorem properName_append {name suffix : Name} (proper : ProperName name) (noSlash : slash ∉ suffix)
    (noNul : 0 ∉ suffix) (long : 2 < suffix.length) : ProperName (name ++ suffix) := by
  obtain ⟨nonempty, cut, nul, -, -⟩ := proper
  refine ⟨by simp [nonempty], by simp [cut, noSlash], by simp [nul, noNul], ?_, ?_⟩
  · intro same
    have := congrArg List.length same
    simp [dot] at this
    omega
  · intro same
    have := congrArg List.length same
    simp [dotdot] at this
    omega

/-- Once the directories are there, the path strings name the places. -/
theorem Approach.named (here : Approach k e c w) {front : List Name} {name : Name} {head : Bytes}
    (split : components k.destPath = front ++ [name]) (whole : k.destPath = head ++ name)
    (leads : ∀ last, last ≠ [] → slash ∉ last →
      w.fs.resolve (head ++ last) =
        some (enter (front.foldl enter (origin w.fs.cwd k.destPath)) last)) :
    Named k w := by
  obtain ⟨front', name', split', proper, dest, record, backup, -⟩ := here.way
  rw [split] at split'
  obtain ⟨sameFront, sameName⟩ := List.append_inj' split' rfl
  obtain rfl : name = name' := by simpa using sameName
  subst sameFront
  have suffixed : ProperName (name ++ progressSuffix) :=
    properName_append proper (by decide) (by decide) (by decide)
  have renamed : ProperName (name ++ bakSuffix) :=
    properName_append proper (by decide) (by decide) (by decide)
  constructor
  · rw [whole, leads name proper.1 proper.2.1, enter_of_proper proper, ← dest]
  · rw [getProgressFilePath, whole, List.append_assoc, leads _ suffixed.1 suffixed.2.1,
      enter_of_proper suffixed, ← record]
  · rw [whole, List.append_assoc, leads _ renamed.1 renamed.2.1, enter_of_proper renamed, ← backup]

/-- `syncFile` up to the point where the destination's directory is there. -/
theorem syncFile_front (sound : ∀ op choice w, policy op choice w →
      Policy.reliable space op choice w)
    (le : I.Le e.quiet.interference) (unraced : Unraced policy I) (own : k.src ∈ e.reads)
    (here : Approach k e c w) {fuel : Nat} {mode : UInt32} {Q : Bool → World → Prop}
    (rest : ∀ w', e.quiet.Rely w w' → Named k w' →
      Program.Sat (handler policy spins) I
        (resolveConflict self fuel k.srcPath k.destPath mode) Q w') :
    Program.Sat (handler policy spins) I (syncFile self fuel k.srcPath k.destPath mode) Q w := by
  simp only [syncFile, fileExists, Program.ask_bind, Program.call_bind, Program.pure_eq,
    Program.done_bind]
  refine Program.sat_read (fun _ _ => rfl) fun w₁ drift₁ _ _ => ?_
  have rely₁ := le.1 _ _ drift₁
  have now₁ := here.rely own rely₁
  have exist := FileSystem.exists_of_read
    (FileSystem.read_eq_some.mpr ⟨_, now₁.srcFound, now₁.source⟩)
  rw [exist]
  simp only [Bool.not_true, Bool.false_eq_true, ↓reduceIte]
  obtain ⟨front, name, split, proper, -, -, -, way⟩ := now₁.way
  by_cases relative : front = []
  · subst relative
    have whole : k.destPath = name := by
      exact eq_of_components split
    have start : origin w₁.fs.cwd k.destPath = w₁.fs.cwd := by
      rw [origin, if_neg]
      intro absolute
      exact proper.2.1 (whole ▸ List.mem_of_mem_head? absolute)
    rw [whole, parentPath_of_notMem proper.2.1, ← whole]
    refine rest w₁ rely₁ (now₁.named split (show k.destPath = [] ++ name from whole) ?_)
    intro last nonempty noSlash
    have home := now₁.home
    rw [start] at home ⊢
    exact FileSystem.resolve_of_notMem nonempty noSlash home
  · obtain ⟨parent, whole, comps⟩ := eq_append_slash split relative
    have found : parentPath k.destPath = some parent := by
      rw [whole, parentPath_append_slash proper.2.1]
    rw [found]
    simp only
    have joined : k.destPath = (parent ++ [slash]) ++ name := by simp [whole]
    by_cases top : parent = []
    · subst top
      have blank : front = [[]] := by
        rw [← comps]
        rfl
      have start : origin w₁.fs.cwd k.destPath = [] := by simp [origin, whole]
      have nothing : createDirectory [] 0o755 = .done true := rfl
      rw [nothing, Program.done_bind]
      simp only [↓reduceIte]
      refine rest w₁ rely₁ (now₁.named split joined fun last _ noSlash => ?_)
      rw [start, blank]
      exact FileSystem.resolve_root_slash _ noSlash
    · have start : origin w₁.fs.cwd k.destPath = origin w₁.fs.cwd parent := by
        rw [whole, origin_append _ top]
      rw [start] at way
      have home := now₁.home
      rw [start] at home
      refine Program.Sat.bind ((createDirectory_sat sound le unraced top home
        (by rw [trail, comps]; exact way) 0o755).weaken ?_)
      rintro made w₂ ⟨rfl, isDir, resolved, rely₂⟩
      simp only [↓reduceIte]
      have now₂ := now₁.rely own rely₂
      refine rest w₂ (rely₁.trans e.quiet rely₂) (now₂.named split joined fun last _ noSlash => ?_)
      have place_eq : place w₁.fs.cwd parent =
          front.foldl enter (origin w₂.fs.cwd k.destPath) := by
        rw [place, comps, ← start, rely₂.dirs.1]
      rw [place_eq] at resolved isDir
      rw [List.append_assoc]
      exact FileSystem.resolve_slash resolved isDir noSlash

theorem syncFile_sat (sound : ∀ op choice w, policy op choice w →
      Policy.reliable space op choice w)
    (le : I.Le e.quiet.interference) (unraced : Unraced policy I) (own : k.Owned e)
    (here : Ready k e c d t w) {fuel : Nat} {mode : UInt32} {Q : Bool → World → Prop}
    (rest : ∀ w', e.quiet.Rely w w' → k.At c d (w'.pending k.dest) t w' →
      Program.Sat (handler policy spins) I
        (resolveConflict self fuel k.srcPath k.destPath mode) Q w') :
    Program.Sat (handler policy spins) I (syncFile self fuel k.srcPath k.destPath mode) Q w := by
  apply syncFile_front sound le unraced own.src here.approach
  intro w' drift named
  apply rest w' drift
  exact {
    srcFound := drift.dirs.resolve here.srcFound
    source := (drift.reads _ (.inr own.src)).trans here.source
    destFound := named.dest
    dest := (drift.reads _ (.inl own.dest)).trans here.dest
    held := rfl
    recordFound := named.record
    record := (drift.reads _ (.inl own.record)).trans here.record
    backupFound := named.backup }

/-- The rename of an existing destination: it fails over a directory, else the destination's
place is free afterwards. -/
theorem rename_sat (sound : ∀ op choice w, policy op choice w →
      Policy.reliable space op choice w)
    (own : k.Owned e) (ownBackup : k.backup ∈ e.writes) {f held : Bytes}
    (here : k.At c (some f) held t w) {next : Bool → Prog Bool} {Q : Bool → World → Prop}
    (fails : ∀ w', e.Rely w w' → k.At c (some f) held t w' → w'.fs.entry k.backup = some .dir →
      Program.Sat (handler policy spins) e.interference (next false) Q w')
    (holds : ∀ w', k.At c none held t w' → w'.fs.entry k.backup = some (.file f) →
      Program.Sat (handler policy spins) e.interference (next true) Q w') :
    Program.Sat (handler policy spins) e.interference
      (.call (.rename k.destPath (k.destPath ++ bakSuffix)) next) Q w := by
  refine Program.sat_op.mpr fun w₁ drift choice allowed => ?_
  have now := here.rely own drift
  have ok := (sound _ _ _ allowed).1
  simp only [Op.run, World.attempt, ok, ↓reduceIte]
  cases renamed : w₁.fs.rename k.destPath (k.destPath ++ bakSuffix) choice.time with
  | none =>
      refine ⟨Estate.Guar.refl e w₁, fails w₁ drift now ?_⟩
      by_contra notDir
      have free : (w₁.fs.rename k.destPath (k.destPath ++ bakSuffix) choice.time).isSome :=
        FileSystem.rename_free now.destFound now.backupFound now.dest notDir k.backupProper
      rw [renamed] at free
      cases free
  | some fs =>
      obtain ⟨p, q, content, foundOld, foundNew, file, notDir, cwd, tree⟩ :=
        FileSystem.rename_effect renamed
      obtain rfl : k.dest = p := Option.some.inj (now.destFound.symm.trans foundOld)
      obtain rfl : k.backup = q := Option.some.inj (now.backupFound.symm.trans foundNew)
      obtain rfl : f = content := by
        have same := now.dest.symm.trans file
        cases same
        rfl
      obtain ⟨backupSrc, backupDest, backupRecord⟩ := k.backupOther
      rw [if_neg backupDest.symm] at tree
      have others : ∀ p, p ≠ k.dest → p ≠ k.backup → fs.entry p = w₁.fs.entry p := by
        intro p notDest notBackup
        rw [tree, Function.update_of_ne notDest, Function.update_of_ne notBackup]
      have kept : FileSystem.DirsKept w₁.fs fs := by
        refine ⟨cwd, fun p isDir => ?_⟩
        rw [others p (fun same => now.notDir (same ▸ isDir)) (fun same => notDir (same ▸ isDir)),
          isDir]
      refine ⟨?_, ?_⟩
      · exact {
          dirs := kept
          tree := fun p other => .inl (others p (fun same => other (same ▸ own.dest))
            fun same => other (same ▸ ownBackup))
          pending := fun _ _ => rfl
          keys := fun _ _ => rfl }
      · refine holds _ ?_ ?_
        · exact {
            srcFound := kept.resolve now.srcFound
            source := (others _ k.srcDest backupSrc.symm).trans now.source
            destFound := kept.resolve now.destFound
            dest := by rw [tree, Function.update_self]; rfl
            held := now.held
            recordFound := kept.resolve now.recordFound
            record := (others _ k.destRecord.symm backupRecord.symm).trans now.record
            backupFound := kept.resolve now.backupFound }
        · rw [tree, Function.update_of_ne backupDest, Function.update_self]

/-- What the destination holds when the copy over it begins. -/
def keptBytes (self : FileSync) (d : Option Bytes) : Option Bytes :=
  if self.conflictStrategy = .rename then none else d

/-- Under every strategy but `skip`, a sync that reports success leaves the image of the copy. -/
theorem resolveConflict_image (sound : ∀ op choice w, policy op choice w →
      Policy.reliable space op choice w)
    (own : k.Owned e) (ownBackup : k.backup ∈ e.writes) (copies : self.conflictStrategy ≠ .skip)
    {held : Bytes} (here : k.At c d held t w) {fuel : Nat} (enough : Enough spins c.length fuel)
    (mode : UInt32) :
    Program.Sat (handler policy spins) e.interference
      (resolveConflict self fuel k.srcPath k.destPath mode)
      (fun ok w' => ok = true →
        ∃ f held', CopyImage self space k.destPath c (keptBytes self d) t f ∧
        k.At c (some f) held' none w') w := by
  by_cases renames : self.conflictStrategy = .rename
  · have strategy : ∀ destPath, handleConflict self destPath =
        Sys.rename destPath (destPath ++ bakSuffix) := fun _ => by simp [handleConflict, renames]
    have kept : keptBytes self d = none := if_pos renames
    rw [kept]
    simp only [resolveConflict, fileExists, Program.ask_bind, Program.call_bind, Program.pure_eq,
      Program.done_bind, strategy]
    refine Program.sat_read (fun _ _ => rfl) fun w₁ drift₁ _ _ => ?_
    have now₁ := here.rely own drift₁
    rw [stat_dest now₁]
    cases d with
    | none =>
        simp only [Option.isSome_none, Bool.false_eq_true, ↓reduceIte]
        exact (copyOrResume_estate sound own now₁ enough mode).weaken fun _ _ done _ => done.2
    | some f =>
        simp only [Option.isSome_some, ↓reduceIte]
        refine rename_sat sound own ownBackup now₁ ?_ ?_
        · intro w₂ _ _ _ w₃ _ impossible
          cases impossible
        · intro w₂ now₂ _
          simp only [↓reduceIte]
          exact (copyOrResume_estate sound own now₂ enough mode).weaken fun _ _ done _ => done.2
  · have kept : keptBytes self d = d := if_neg renames
    have overwrites : Overwrites self := by
      cases strategy : self.conflictStrategy with
      | overwrite => exact .inl strategy
      | skip => exact absurd strategy copies
      | rename => exact absurd strategy renames
      | other => exact .inr strategy
    rw [kept]
    exact resolveConflict_sat (Copy.hosts_estate own) overwrites here fun w₁ now₁ =>
      (copyOrResume_estate sound own now₁ enough mode).weaken fun _ _ done _ => done.2

/-- A sync that overwrites always reports success, and leaves the image of the copy. -/
theorem syncFile_overwrites (sound : ∀ op choice w, policy op choice w →
      Policy.reliable space op choice w)
    (le : I.Le e.interference) (unraced : Unraced policy I) (own : k.Owned e)
    (overwrites : Overwrites self) (here : Ready k e c d t w) {fuel : Nat}
    (enough : Enough spins c.length fuel) (mode : UInt32) :
    Program.Sat (handler policy spins) I (syncFile self fuel k.srcPath k.destPath mode)
      (fun ok w' => ok = true ∧ ∃ f held', CopyImage self space k.destPath c d t f ∧
        k.At c (some f) held' none w') w :=
  syncFile_sat sound (le.trans e.interference_le_quiet) unraced own here fun _ _ now =>
    (resolveConflict_sat (Copy.hosts_estate own) overwrites now fun _ now' =>
      copyOrResume_estate sound own now' enough mode).mono le fun _ _ done => done

end

end FileSync

end SyncTool
