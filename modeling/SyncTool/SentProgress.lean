import SyncTool.BrokenReception
import SyncTool.ProgressRecord
import SyncTool.RemoteSession
import SyncTool.SyncFileCrash

set_option autoImplicit false

namespace SyncTool

open SyncTool.Path FileSync

/-- What cannot be written is not there after its removal either. -/
theorem read_of_remove {path : Bytes} {choice : Choice} {w : World}
    (missing : w.fs.read path = none) :
    ((Op.remove path).run choice w).2.fs.read path = none := by
  simp only [Op.run, World.attempt]
  split
  · cases removed : w.fs.remove path choice.time with
    | none => exact missing
    | some fs =>
        obtain ⟨p, found, -, -, cwd, tree⟩ := FileSystem.remove_effect removed
        show fs.read path = none
        cases read : fs.read path with
        | none => rfl
        | some content =>
            obtain ⟨q, found', file⟩ := FileSystem.read_eq_some.mp read
            have same : q = p := by
              rw [FileSystem.resolve_eq_place found', FileSystem.resolve_eq_place found, cwd]
            rw [same, tree, Function.update_self] at file
            cases file
  · exact missing

/-- A file that is to be sent from `offset` on. -/
structure Sending where
  srcPath : Bytes
  destPath : Bytes
  source : Bytes
  offset : Nat
  within : offset ≤ source.length

namespace Sending

variable (j : Sending)

/-- The record says `t`. It has no place if it cannot be written. -/
def Filed (record : Option Path) (t : Option Bytes) (fs : FileSystem) : Prop :=
  match record with
  | some p => fs.resolve (getProgressFilePath j.destPath) = some p ∧ fs.entry p = t.map .file ∧
      ∀ name ∈ p, ProperName name
  | none => fs.writable (getProgressFilePath j.destPath) = false ∧ t = none

/-- The first `s` bytes that are left of the source have been taken, and the record says `t`. -/
structure At (record : Option Path) (s : Nat) (t : Option Bytes) (w : World) : Prop where
  source : ∃ src, w.fs.resolve j.srcPath = some src ∧ w.fs.entry src = some (.file j.source) ∧
    record ≠ some src
  filed : j.Filed record t w.fs
  sent : w.sent = World.slice j.source j.offset s
  inside : j.offset + s ≤ j.source.length

/-- What is recorded, if anything can be. -/
def text (record : Option Path) (k : Nat) : Option Bytes :=
  record.map fun _ => progressRecord j.destPath k j.source.length

variable {j} {record : Option Path} {s : Nat} {t : Option Bytes} {w w' : World}

theorem Filed.read {fs : FileSystem} (filed : j.Filed record t fs) :
    fs.read (getProgressFilePath j.destPath) = t := by
  cases record with
  | none =>
      rw [FileSystem.read_of_not_writable filed.1, filed.2]
  | some p =>
      cases t with
      | none => simp [FileSystem.read, filed.1, filed.2.1]
      | some content => exact FileSystem.read_eq_some.mpr ⟨p, filed.1, filed.2.1⟩

theorem At.read (here : j.At record s t w) : w.fs.read j.srcPath = some j.source := by
  obtain ⟨src, found, file, -⟩ := here.source
  exact FileSystem.read_eq_some.mpr ⟨src, found, file⟩

/-- Only the record changes. -/
theorem At.of_record {p : Path} {g : Option Bytes} {rest : Bytes} (here : j.At (some p) s t w)
    (change : World.Change p (g.map .file) rest w w') (sent : w'.sent = w.sent) :
    j.At (some p) s g w' := by
  obtain ⟨src, found, file, apart⟩ := here.source
  obtain ⟨recordFound, is, proper⟩ := here.filed
  have notDir : w.fs.entry p ≠ some .dir := by
    rw [is]
    cases t <;> simp
  have kept := change.dirsKept fun isDir => absurd isDir notDir
  have other : src ≠ p := fun same => apart (by rw [same])
  exact {
    source := ⟨src, kept.resolve found, (change.entry_ne other).trans file, apart⟩
    filed := ⟨kept.resolve recordFound, change.entry_self, proper⟩
    sent := sent.trans here.sent
    inside := here.inside }

/-- More of the source is taken. -/
theorem At.said {n : Nat} (here : j.At record s t w)
    (inside : j.offset + (s + n) ≤ j.source.length) :
    j.At record (s + n) t (w.said (World.slice j.source (j.offset + s) n)) where
  source := here.source
  filed := here.filed
  sent := by
    show w.sent ++ _ = _
    rw [here.sent, World.slice_add]
  inside := inside

variable {policy : Policy} {reset : Bool} {self : FileSync}

/-- A record that nothing goes wrong with says what it was given, if it can be written at all. -/
theorem saveProgress_records
    (breaks : ∀ op choice w, policy op choice w → Policy.breaking reset op choice w)
    (here : j.At record s t w) (offset : Nat) :
    Program.Sat (handler policy True) .free (saveProgress j.destPath offset j.source.length)
      (fun _ w' => j.At record s (j.text record offset) w') w := by
  simp only [saveProgress, Program.ask_bind]
  refine Program.sat_op.mpr fun w₁ drift₁ choice₁ allowed₁ => ⟨trivial, ?_⟩
  obtain rfl : w = w₁ := drift₁
  cases record with
  | none =>
      have refused : (Op.openOut (getProgressFilePath j.destPath) false).run choice₁ w =
          (false, w) := by
        simp [Op.run, World.attempt, FileSystem.open_of_not_writable here.filed.1]
      rw [refused]
      intro w₂ drift₂
      obtain rfl : w = w₂ := drift₂
      have nothing := here.filed.2
      subst nothing
      exact here
  | some p =>
      obtain ⟨found, is, proper⟩ := here.filed
      have notDir : w.fs.entry p ≠ some .dir := by
        rw [is]
        cases t <;> simp
      obtain ⟨opened, change₁⟩ := run_openOut (breaks _ _ _ allowed₁).1 found notDir proper false
      have now₁ : j.At (some p) s (some []) _ := here.of_record change₁ (run_sent _ (by simp) _ _)
      rw [opened]
      simp only [↓reduceIte]
      refine Program.sat_op.mpr fun w₂ drift₂ choice₂ allowed₂ => ⟨trivial, ?_⟩
      obtain rfl := drift₂
      obtain ⟨-, through, rest, moved, -, change₂⟩ := flush_effect (breaks _ _ _ allowed₂)
        now₁.filed.1 now₁.filed.2.1 (progressRecord j.destPath offset j.source.length)
      rw [change₁.pending_self, List.nil_append] at moved
      have now₂ : j.At (some p) s (some ([] ++ through)) _ :=
        now₁.of_record (g := some _) change₂ (run_sent (.put _ _) (by simp) _ _)
      refine Program.sat_op.mpr fun w₃ drift₃ choice₃ allowed₃ => ⟨trivial, ?_⟩
      obtain rfl := drift₃
      obtain ⟨-, through', rest', moved', all, change₃⟩ := flush_effect (breaks _ _ _ allowed₃).1
        now₂.filed.1 now₂.filed.2.1 []
      rw [change₂.pending_self, List.append_nil, all (breaks _ _ _ allowed₃).2,
        List.append_nil] at moved'
      have now₃ := now₂.of_record (g := some _) change₃ (run_sent (.closeOut _) (by simp) _ _)
      rw [List.nil_append, moved', moved] at now₃
      exact fun w₄ drift₄ => drift₄ ▸ now₃

/-- One block is taken, or its beginning. -/
theorem send_block (here : j.At record s t w) (client : TcpClient) (sends : Nat) {count : Nat}
    (block : j.offset + (s + count) ≤ j.source.length) :
    Program.Sat (handler policy True) .free
      (client.send sends (World.slice j.source (j.offset + s) count))
      (fun out w' => (out.1 = true ∧ j.At record (s + count) t w') ∨
        (out.1 = false ∧ ∃ k, (k < count ∨ k = 0) ∧ j.At record (s + k) t w')) w := by
  have length : (World.slice j.source (j.offset + s) count).length = count := by
    rw [World.length_slice]
    omega
  unfold TcpClient.send
  split
  · apply Program.Sat.bind
    apply (sendLoop_sat trivial (fun k w' => j.At record (s + k) t w') _ _
      (Nat.zero_le _) here).weaken
    · rintro ok w' ⟨k, le, now, all⟩ w'' drift
      obtain rfl : w' = w'' := drift
      rw [length] at le all
      cases ok with
      | true =>
          obtain rfl := all.mp rfl
          exact .inl ⟨rfl, now⟩
      | false =>
          have short : k ≠ count := fun same => Bool.false_ne_true (all.mpr same)
          exact .inr ⟨rfl, k, .inl (by omega), now⟩
    · exact fun k w₁ w₂ same now => same ▸ now
    · intro k n w₁ le now
      rw [length] at le
      refine ⟨trivial, ?_⟩
      have part : ((World.slice j.source (j.offset + s) count).drop k).take n =
          World.slice j.source (j.offset + (s + k)) n := by
        rw [World.slice, World.slice, List.drop_take, List.take_take, List.drop_drop,
          Nat.min_eq_left (by omega), Nat.add_assoc]
      rw [part, ← Nat.add_assoc s]
      exact now.said (by omega)
  · intro w' drift
    obtain rfl : w = w' := drift
    exact .inr ⟨rfl, 0, .inr rfl, here⟩

/-- The send loop: it sends all that is left and leaves the record at that, or stops and
records the whole blocks that have been taken. -/
theorem sendBlocks_sat
    (breaks : ∀ op choice w, policy op choice w → Policy.breaking reset op choice w)
    {sends fuel : Nat} (here : j.At record s t w)
    (blocks : s % bufferSize = 0 ∨ j.offset + s = j.source.length) (client : TcpClient) :
    Program.Sat (handler policy True) .free
      (sendBlocks self j.srcPath j.destPath j.source.length sends fuel client (j.offset + s))
      (fun out w' => (out.1 = true ∧ ∃ t, j.At record (j.source.length - j.offset) t w') ∨
        (out.1 = false ∧ ∃ s, s < j.source.length - j.offset ∧
          j.At record s (j.text record (j.offset + s / bufferSize * bufferSize)) w')) w := by
  induction fuel generalizing s t client w with
  | zero => trivial
  | succ fuel ih =>
      have inside := here.inside
      simp only [sendBlocks]
      split
      · next left =>
        simp only [Program.ask_bind]
        refine Program.sat_op.mpr fun w₁ drift choice allowed => ⟨trivial, ?_⟩
        obtain rfl : w = w₁ := drift
        have get : (Op.get j.srcPath (j.offset + s)
            (min bufferSize (j.source.length - (j.offset + s)))).run choice w =
            (World.slice j.source (j.offset + s)
              (min bufferSize (j.source.length - (j.offset + s))), w) := by
          simp only [Op.run, here.read, Option.getD_some, (breaks _ _ _ allowed).1, ↓reduceIte]
        rw [get]
        have whole : s % bufferSize = 0 := blocks.resolve_right (by omega)
        generalize size : min bufferSize (j.source.length - (j.offset + s)) = count
        have positive : 0 < count := by
          have := size
          simp only [bufferSize] at this
          omega
        have small : count ≤ bufferSize := size ▸ Nat.min_le_left _ _
        have block : j.offset + (s + count) ≤ j.source.length := by omega
        have length : (World.slice j.source (j.offset + s) count).length = count := by
          rw [World.length_slice]
          omega
        have further : (s + count) % bufferSize = 0 ∨ j.offset + (s + count) = j.source.length := by
          simp only [bufferSize] at size whole ⊢
          omega
        rw [if_pos (by rw [length]; exact positive)]
        apply Program.Sat.bind
        apply (send_block here client sends block).weaken
        rintro ⟨sent, client'⟩ w₂ (⟨rfl, now⟩ | ⟨rfl, k, short, now⟩)
        · simp only [↓reduceIte]
          apply Program.Sat.bind
          rw [length]
          apply (saveProgress_records breaks now _).weaken
          intro _ w₃ saved
          have again := ih saved further client'
          rw [← Nat.add_assoc] at again
          apply Program.Sat.bind
          unfold throttle
          split
          · exact Program.sat_read (fun _ _ => rfl) fun w₄ drift₄ _ _ w₅ drift₅ =>
              drift₅ ▸ drift₄ ▸ again
          · exact fun w₄ drift₄ => drift₄ ▸ again
        · simp only [Bool.false_eq_true, ↓reduceIte]
          apply Program.Sat.bind
          apply (saveProgress_records breaks now _).weaken
          intro _ w₃ saved w₄ drift
          obtain rfl : w₃ = w₄ := drift
          have less : k < bufferSize := by
            rcases short with short | rfl
            · omega
            · exact Nat.lt_of_lt_of_le positive small
          have begun : j.offset + s = j.offset + (s + k) / bufferSize * bufferSize := by
            simp only [bufferSize] at less whole ⊢
            omega
          rw [begun] at saved
          exact .inr ⟨rfl, s + k, by omega, saved⟩
      · intro w₁ drift
        obtain rfl : w = w₁ := drift
        have all : s = j.source.length - j.offset := by omega
        exact .inl ⟨rfl, t, all ▸ here⟩

/-- What the sending of a file leaves: no record of what has been taken altogether, or a record
of the whole blocks. -/
theorem sendFileSync_sat
    (breaks : ∀ op choice w, policy op choice w → Policy.breaking reset op choice w) {fuel : Nat}
    (here : j.At record 0 t w) (client : TcpClient) :
    Program.Sat (handler policy True) .free
      (sendFileSync self fuel j.srcPath j.destPath client j.offset)
      (fun out w' => ∃ s, w'.sent = World.slice j.source j.offset s ∧
        ((out.1 = true ∧ s = j.source.length - j.offset ∧
            w'.fs.read (getProgressFilePath j.destPath) = none) ∨
          (out.1 = false ∧ s < j.source.length - j.offset ∧
            w'.fs.read (getProgressFilePath j.destPath) =
              j.text record (j.offset + s / bufferSize * bufferSize)))) w := by
  simp only [sendFileSync, Program.ask_bind]
  refine Program.sat_op.mpr fun w₁ drift₁ choice₁ allowed₁ => ⟨trivial, ?_⟩
  obtain rfl : w = w₁ := drift₁
  have open_ : (Op.openIn j.srcPath).run choice₁ w = (true, w) := by
    simp [Op.run, (breaks _ _ _ allowed₁).1, FileSystem.exists_of_read here.read]
  rw [open_]
  simp only [↓reduceIte]
  refine Program.sat_op.mpr fun w₂ drift₂ choice₂ _ => ⟨trivial, ?_⟩
  obtain rfl : w = w₂ := drift₂
  have size : (Op.seekEnd j.srcPath).run choice₂ w = (j.source.length, w) := by
    simp [Op.run, here.read]
  rw [size]
  apply Program.Sat.bind
  have start := @sendBlocks_sat j record 0 t w policy reset self breaks fuel fuel here (.inl rfl)
    client
  rw [Nat.add_zero] at start
  apply start.weaken
  rintro ⟨sent, client'⟩ w₃ (⟨rfl, t', now⟩ | ⟨rfl, s, short, now⟩)
  · simp only [↓reduceIte]
    refine Program.sat_op.mpr fun w₄ drift₄ choice₄ allowed₄ => ⟨trivial, ?_⟩
    obtain rfl : w₃ = w₄ := drift₄
    have gone : ((Op.remove (getProgressFilePath j.destPath)).run choice₄ w₃).2.fs.read
        (getProgressFilePath j.destPath) = none := by
      cases t' with
      | none => exact read_of_remove now.filed.read
      | some text =>
          cases record with
          | none => cases now.filed.2
          | some p =>
              obtain ⟨-, change⟩ := run_remove_file (breaks _ _ _ allowed₄).1 now.filed.1
                now.filed.2.1
              exact (now.of_record (g := none)
                change (run_sent (.remove _) (by simp) _ _)).filed.read
    have same : ((Op.remove (getProgressFilePath j.destPath)).run choice₄ w₃).2.sent = w₃.sent :=
      run_sent (.remove _) (by simp) _ _
    intro w₅ drift₅
    obtain rfl := drift₅
    exact ⟨_, same.trans now.sent, .inl ⟨rfl, rfl, gone⟩⟩
  · simp only [Bool.false_eq_true, ↓reduceIte]
    intro w₄ drift₄
    obtain rfl : w₃ = w₄ := drift₄
    exact ⟨s, now.sent, .inr ⟨rfl, short, now.filed.read⟩⟩

variable (j) {path : Bytes} {client server : FileSystem}

/-- A transfer, with any connection between the two; `reset` tells how the server is to see a break
of it. -/
def Transfer (self : FileSync) (tcp : TcpClient) (fuel fuel' : Nat) (reset : Bool) (path : Bytes)
    (client server : FileSystem) (now : Pair Op Res World (Bool × TcpClient) Bool) : Prop :=
  Relation.ReflTransGen
    (Pair.Step (handler (Policy.breaking reset) True).exec
      (handler (Policy.breaking reset) True).exec Eq Heard)
    ⟨sendFileSync self fuel j.srcPath j.destPath tcp j.offset, World.boot client,
      SyncServer.receiveFileData fuel' path j.source.length j.offset, World.boot server⟩ now

/-- The record says `k`; there is none for 0. -/
def Recorded (client : FileSystem) (k : Nat) : Prop :=
  (client.read (getProgressFilePath j.destPath) = none ∧ k = 0) ∨
    client.read (getProgressFilePath j.destPath) =
      some (progressRecord j.destPath k j.source.length)

/-- What the client has recorded is what the server holds. -/
def Matched (path : Bytes) (client server : FileSystem) : Prop :=
  ∃ k, j.Recorded client k ∧ server.lengthOf path = k ∧
    (server.read path).getD [] = j.source.take k

/-- What the client counts when `taken` bytes of the file have been taken: the whole blocks. It
counts nothing where its record cannot be written, and removes the record of a whole file. -/
def saved (client : FileSystem) (taken : Nat) : Nat :=
  if client.writable (getProgressFilePath j.destPath) = true ∧
    taken ≠ j.source.length - j.offset then j.offset + taken / bufferSize * bufferSize
  else 0

/-- What the server keeps of `delivered` bytes. -/
def kept (reset : Bool) (path : Bytes) (server : FileSystem) (delivered : Nat) : Nat :=
  settled reset (j.source.length - (server.begun path j.offset).length) delivered

/-- As many bytes as the client counts are what the server goes on behind and what it keeps, and
these are the beginning of the source. -/
structure Agrees (reset : Bool) (path : Bytes) (client server : FileSystem)
    (taken delivered : Nat) : Prop where
  counted : (server.begun path j.offset).length + j.kept reset path server delivered =
    j.saved client taken
  begins : server.begun path j.offset ++
    World.slice j.source j.offset (j.kept reset path server delivered) <+: j.source

variable {j}

theorem progressRecord_inj {filePath : Bytes} {k k' total : Nat}
    (same : progressRecord filePath k total = progressRecord filePath k' total) : k = k' := by
  simp only [progressRecord, List.append_assoc, List.cons_append, List.append_cancel_left_eq,
    List.cons.injEq, true_and] at same
  have digits := List.append_cancel_right same
  rw [← @digitsValue_decimal k, digits, digitsValue_decimal]

theorem recorded_none {fs : FileSystem} (missing : fs.read (getProgressFilePath j.destPath) = none)
    (k : Nat) : j.Recorded fs k ↔ k = 0 := by
  simp [Recorded, missing]

theorem recorded_some {fs : FileSystem} {k₀ : Nat}
    (read : fs.read (getProgressFilePath j.destPath) =
      some (progressRecord j.destPath k₀ j.source.length)) (k : Nat) :
    j.Recorded fs k ↔ k = k₀ := by
  rw [Recorded, read]
  constructor
  · intro recorded
    rcases recorded with ⟨impossible, -⟩ | same
    · cases impossible
    · exact (progressRecord_inj (Option.some.inj same)).symm
  · intro same
    subst same
    exact .inr rfl

/-- The client at the start. -/
theorem at_start (source : client.read j.srcPath = some j.source)
    (apart : client.resolve j.srcPath ≠ client.resolve (getProgressFilePath j.destPath)) :
    ∃ record t, j.At record 0 t (World.boot client) ∧
      (record = none ↔ client.writable (getProgressFilePath j.destPath) = false) := by
  have within := j.within
  obtain ⟨src, found, file⟩ := FileSystem.read_eq_some.mp source
  cases can : client.writable (getProgressFilePath j.destPath) with
  | false =>
      exact ⟨none, none, ⟨⟨src, found, file, nofun⟩, ⟨can, rfl⟩, by simp [World.boot, World.slice],
        by omega⟩, by simp⟩
  | true =>
      obtain ⟨p, found', notDir, proper⟩ := FileSystem.writable_iff.mp can
      have other : some p ≠ some src := by
        intro same
        rw [found, found', same] at apart
        exact apart rfl
      have is : client.entry p = (client.contentAt p).map .file := by
        unfold FileSystem.contentAt
        cases here : client.entry p with
        | none => rfl
        | some entry =>
            cases entry with
            | dir => exact absurd here notDir
            | file content => rfl
      exact ⟨some p, _, ⟨⟨src, found, file, other⟩, ⟨found', is, proper⟩,
        by simp [World.boot, World.slice], by omega⟩, by simp⟩

/-- What the client has recorded when it has stopped. -/
theorem sendFileSync_recorded {fuel : Nat} {tcp : TcpClient} {out : Bool × TcpClient}
    (breaks : ∀ op choice w, policy op choice w → Policy.breaking reset op choice w)
    (source : client.read j.srcPath = some j.source)
    (apart : client.resolve j.srcPath ≠ client.resolve (getProgressFilePath j.destPath))
    (run : Program.Reach (handler policy True).exec Eq
      (sendFileSync self fuel j.srcPath j.destPath tcp j.offset) (World.boot client)
        (.done out) w) :
    w.sent = World.slice j.source j.offset w.sent.length ∧
      w.sent.length ≤ j.source.length - j.offset ∧
      ∀ k, j.Recorded w.fs k ↔ k = j.saved client w.sent.length := by
  obtain ⟨record, t, here, place⟩ := at_start source apart
  obtain ⟨s, sent, outcome⟩ := (@sendFileSync_sat j record t (World.boot client) policy reset self
    breaks fuel here tcp).returned run
  have length : w.sent.length = s := by
    have within : s ≤ j.source.length - j.offset := by
      rcases outcome with ⟨-, rfl, -⟩ | ⟨-, short, -⟩
      · exact le_refl _
      · omega
    rw [sent, World.length_slice, Nat.min_eq_left within]
  rw [length]
  rcases outcome with ⟨-, all, missing⟩ | ⟨-, short, read⟩
  · refine ⟨sent, by omega, fun k => ?_⟩
    rw [recorded_none missing, saved, if_neg (by omega)]
  · refine ⟨sent, by omega, fun k => ?_⟩
    cases record with
    | none =>
        have refused := place.mp rfl
        rw [recorded_none read, saved, if_neg (by simp [refused])]
    | some p =>
        have can : client.writable (getProgressFilePath j.destPath) = true := by
          cases can : client.writable (getProgressFilePath j.destPath) with
          | false => cases place.mpr can
          | true => rfl
        rw [recorded_some read, saved, if_pos ⟨can, by omega⟩]

/-- The record matches what the server holds just when what the client counts is what the server
goes on behind and keeps: whatever the two begin with, and wherever and however the connection
breaks. -/
theorem sendFileSync_matched_iff {self : FileSync} {tcp : TcpClient} {fuel fuel' : Nat}
    (source : client.read j.srcPath = some j.source)
    (apart : client.resolve j.srcPath ≠ client.resolve (getProgressFilePath j.destPath))
    {now : Pair Op Res World (Bool × TcpClient) Bool}
    (run : j.Transfer self tcp fuel fuel' reset path client server now)
    {out : Bool × TcpClient} (stopped : now.left = .done out)
    {ok : Bool} (stopped' : now.right = .done ok) :
    j.Matched path now.here.fs now.there.fs ↔
      j.Agrees reset path client server now.here.sent.length now.there.received.length := by
  have left := Pair.left_reach run
  have right := Pair.right_reach Heard (fun _ _ heard => heard)
    (fun _ _ _ _ _ one heard => heard.trans (step_sent one))
    (fun _ _ t same heard => Eq.subst (motive := (Heard · t)) same heard) run
  simp only [stopped, stopped'] at left right
  obtain ⟨taken, less, recorded⟩ := sendFileSync_recorded (fun _ _ _ allowed => allowed) source
    apart left
  have within := j.within
  have reads : Reads (fun op choice w => Policy.breaking reset op choice w ∧
      Fed now.here.sent op choice w) True .free now.here.sent :=
    ⟨fun _ _ _ allowed => allowed.2, fun _ _ same => Eq.symm same, trivial⟩
  have heeds : Program.Reach (handler (fun op choice w => Policy.breaking reset op choice w ∧
      Fed now.here.sent op choice w) True).exec Eq
      (SyncServer.receiveFileData fuel' path j.source.length j.offset) (World.boot server)
      (.done ok) now.there := by
    apply right.mono
    rintro op w answer w' ⟨⟨choice, allowed, ran⟩, fed⟩
    refine ⟨choice, ⟨allowed, ?_⟩, ran⟩
    rw [Fed, ran]
    exact fed
  obtain ⟨delivered, room, held⟩ := (receiveFileData_breaking (w := World.boot server) reads
    (fun _ _ _ allowed => allowed.1) rfl within).returned heeds
  have short : j.kept reset path server now.there.received.length ≤ now.there.received.length := by
    unfold kept settled
    split
    · exact Nat.div_mul_le_self _ _
    · exact le_refl _
  have heard := delivered.length_le
  have part : now.here.sent.take (j.kept reset path server now.there.received.length) =
      World.slice j.source j.offset (j.kept reset path server now.there.received.length) := by
    rw [taken, World.slice, World.slice, List.take_take, Nat.min_eq_left (by omega)]
  have length : (World.slice j.source j.offset
      (j.kept reset path server now.there.received.length)).length =
      j.kept reset path server now.there.received.length := by
    rw [World.length_slice]
    omega
  change (now.there.fs.read path).getD [] = server.begun path j.offset ++
    now.here.sent.take (j.kept reset path server now.there.received.length) at held
  rw [part] at held
  have size : now.there.fs.lengthOf path = (server.begun path j.offset).length +
      j.kept reset path server now.there.received.length := by
    rw [FileSystem.lengthOf, held, List.length_append, length]
  constructor
  · intro matched
    obtain ⟨k, noted, long, same⟩ := matched
    rw [size] at long
    rw [held] at same
    refine ⟨long.trans ((recorded k).mp noted), ?_⟩
    rw [same]
    exact List.take_prefix _ _
  · intro agrees
    refine ⟨_, (recorded _).mpr rfl, size.trans agrees.counted, ?_⟩
    rw [held, ← agrees.counted]
    have whole := List.prefix_iff_eq_take.mp agrees.begins
    rw [List.length_append, length] at whole
    exact whole

/-- The run in which the connection takes `taken` bytes in all and then fails, and brings `stream`
before it is seen to be closed or reset. -/
def cutting (reset : Bool) (taken : Nat) (stream : Bytes) (op : Op) (w : World) : Res op × World :=
  op.run ⟨0, match op with
    | .send _ => if w.sent.length < taken then .none else .error
    | .recv count =>
        if reset = true ∧ (stream.drop w.received.length).take count = [] then .error else .none
    | _ => .none, match op with
    | .send _ => some (taken - w.sent.length)
    | .statvfs _ => some 0
    | _ => none, stream.drop w.received.length⟩ w

theorem cutting_breaking (reset : Bool) (taken : Nat) (stream : Bytes) (op : Op) (w : World) :
    (handler (Policy.breaking reset) True).exec op w (cutting reset taken stream op w).1
      (cutting reset taken stream op w).2 := by
  refine ⟨_, ?_, rfl⟩
  cases op with
  | recv count =>
      unfold Policy.breaking
      cases reset with
      | false => simp [Op.run]
      | true =>
          by_cases ended : (stream.drop w.received.length).take count = []
          · simp only [Op.run, true_and, ended, ↓reduceIte]
            intro same
            cases same
          · simp only [Op.run, true_and, ended, ↓reduceIte]
            intro same
            exact ended (Io.ok.inj same)
  | _ => simp [Policy.breaking, Policy.reliable]

theorem cutting_fed (reset : Bool) (taken : Nat) (stream : Bytes) (op : Op) (w : World)
    (inside : w.received <+: stream) : (cutting reset taken stream op w).2.received <+: stream := by
  obtain ⟨rest, rfl⟩ := inside
  unfold cutting
  rcases run_received op _ w with same | ⟨n, more⟩
  · rw [same]
    exact List.prefix_append _ _
  · rw [more]
    apply (List.prefix_append_right_inj _).mpr
    simpa using List.take_prefix n rest

/-- `/s`, to be sent to `/d`. -/
def plainSending (source : Bytes) (offset : Nat) (within : offset ≤ source.length) : Sending where
  srcPath := [47, 115]
  destPath := [47, 100]
  source := source
  offset := offset
  within := within

/-- A transfer in which the connection takes `taken` bytes, which are `stream`, and brings them. -/
theorem transfer_cut {reset : Bool} {taken : Nat} {source stream : Bytes} {offset : Nat}
    (within : offset ≤ source.length) {γ δ : Type} (observe : World → γ)
    (seen : γ) (observe' : World → δ) (seen' : δ) (tcp : TcpClient) (ok : Bool)
    (left : (Program.play (cutting reset taken [])
      (sendFileSync plainSync 3 [47, 115] [47, 100] ⟨true⟩ offset)
      (World.boot (plainFs source))).map (fun r => (r.1, r.2.sent, observe r.2)) =
      some ((false, tcp), stream, seen))
    (right : (Program.play (cutting reset taken stream)
      (SyncServer.receiveFileData 3 path source.length offset)
      (World.boot server)).map (fun r => (r.1, observe' r.2)) = some (ok, seen')) :
    ∃ here there, (plainSending source offset within).Transfer plainSync ⟨true⟩ 3 3 reset path
        (plainFs source) server ⟨.done (false, tcp), here, .done ok, there⟩ ∧
      observe here = seen ∧ observe' there = seen' := by
  have silent : ∀ w, Heard w (World.boot server) := fun _ => List.nil_prefix
  have first : ∃ here, Program.Reach
      (Within (handler (Policy.breaking reset) True).exec (Heard · (World.boot server))) Eq
      (sendFileSync plainSync 3 [47, 115] [47, 100] ⟨true⟩ offset) (World.boot (plainFs source))
      (.done (false, tcp)) here ∧ (here.sent, observe here) = (stream, seen) :=
    Program.reach_of_play Eq (fun op w => ⟨cutting_breaking reset taken [] op w, silent _⟩) _ _ _
      (fun w => (w.sent, observe w)) (stream, seen) left
  obtain ⟨here, run, same⟩ := first
  obtain ⟨sent, same⟩ := Prod.mk.inj same
  have second : ∃ there, Program.Reach
      (Within (handler (Policy.breaking reset) True).exec (Heard here)) Eq
      (SyncServer.receiveFileData 3 path source.length offset) (World.boot server)
      (.done ok) there ∧ observe' there = seen' := by
    apply Program.reach_of_play_within Eq (fun w => w.received <+: stream) _ _ _ List.nil_prefix _
      observe' seen' right
    intro op w inside
    have fed := cutting_fed reset taken stream op w inside
    refine ⟨⟨cutting_breaking reset taken stream op w, ?_⟩, fed⟩
    rwa [Heard, sent]
  obtain ⟨there, run', same'⟩ := second
  refine ⟨here, there, ?_, same, same'⟩
  exact (Pair.of_left_reach (silent _) run).1.trans (Pair.of_right_reach (silent _) run').1

/-- The server holds a byte and is to go on behind it; another one arrives, and is lost with the
reset, as it is for the client. -/
theorem sendFileSync_matched_reset : ∃ now,
    (plainSending [65, 66, 67] 1 (by decide)).Transfer plainSync ⟨true⟩ 3 3 true [47, 100]
      (plainFs [65, 66, 67]) begunFs now ∧
    now.there.received.length = 1 ∧
    (plainSending [65, 66, 67] 1 (by decide)).Matched [47, 100] now.here.fs now.there.fs := by
  obtain ⟨here, there, run, sent, received⟩ := @transfer_cut [47, 100] begunFs true 1 [65, 66, 67]
    [66] 1 (by decide) _ _ (fun w => w.sent.length) 1 (fun w => w.received.length) 1 ⟨false⟩ false
    (by decide +kernel) (by decide +kernel)
  refine ⟨_, run, received, (sendFileSync_matched_iff (j := plainSending [65, 66, 67] 1 (by decide))
    (by decide +kernel) (by decide +kernel) run rfl rfl).mpr ?_⟩
  show Agrees _ true [47, 100] (plainFs [65, 66, 67]) begunFs here.sent.length there.received.length
  rw [sent, received]
  exact ⟨by decide +kernel, by decide +kernel⟩

/-- Half a block goes through: the server holds a byte of which the client has no record. -/
theorem sendFileSync_unmatched : ∃ now out ok,
    (plainSending [65, 66] 0 (by decide)).Transfer plainSync ⟨true⟩ 3 3 false [47, 100]
      (plainFs [65, 66]) FileSystem.empty now ∧ now.left = .done out ∧ now.right = .done ok ∧
    ¬ (plainSending [65, 66] 0 (by decide)).Matched [47, 100] now.here.fs now.there.fs := by
  obtain ⟨here, there, run, record, length⟩ := @transfer_cut [47, 100] FileSystem.empty false 1
    [65, 66] [65] 0 (by decide) _ _ (fun w => w.fs.read (getProgressFilePath [47, 100]))
    (some (progressRecord [47, 100] 0 2)) (fun w => w.fs.lengthOf [47, 100]) 1 ⟨false⟩ false
    (by decide +kernel) (by decide +kernel)
  refine ⟨_, _, _, run, rfl, rfl, ?_⟩
  intro matched
  obtain ⟨k, recorded, same, -⟩ := matched
  obtain rfl : 1 = k := length.symm.trans same
  rcases recorded with ⟨-, zero⟩ | other
  · cases zero
  · have text := record.symm.trans other
    exact absurd (progressRecord_inj (Option.some.inj text)) (by decide)

end Sending

end SyncTool
