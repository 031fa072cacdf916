import SyncTool.ServerWrites
import SyncTool.ProgramRuns

set_option autoImplicit false

namespace SyncTool

open SyncTool.Path SyncServer

namespace FileSystem

/-- The length of a file; 0 if there is none. -/
def lengthOf (fs : FileSystem) (path : Bytes) : Nat := ((fs.read path).getD []).length

end FileSystem

/-- One session for a file whose content is `source`: it is to go on where the file ends, the
stream brings the rest, or the beginning of the rest, and any write may fail. -/
def FileSession (path source : Bytes) (fuel : Nat) (fs : FileSystem) (p : Prog Bool) (w : World) :
    Prop :=
  Program.Reach (handler (Fed (source.drop (fs.lengthOf path))) True).exec Eq
    (receiveFileData fuel path source.length (fs.lengthOf path)) (World.boot fs) p w

/-- Sessions for one file, one after the other, each broken off anywhere. -/
inductive FileSessions (path source : Bytes) (fs₀ : FileSystem) : FileSystem → Prop where
  | start : FileSessions path source fs₀ fs₀
  | session {fuel : Nat} {fs : FileSystem} {p : Prog Bool} {w : World} :
      FileSessions path source fs₀ fs → FileSession path source fuel fs p w →
      FileSessions path source fs₀ w.fs

/-- Whatever file is there is a beginning of the source. -/
def Partial (path source : Bytes) (fs : FileSystem) : Prop :=
  ∀ content, fs.read path = some content → content <+: source

variable {path source : Bytes} {fs fs₀ : FileSystem} {w : World} {p : Path}

theorem contentAt_of_read {content : Bytes} (read : fs.read path = some content) :
    fs.contentAt (place fs.cwd path) = some content := by
  obtain ⟨p, found, file⟩ := FileSystem.read_eq_some.mp read
  rw [← FileSystem.resolve_eq_place found]
  exact FileSystem.contentAt_eq_some.mpr file

/-- The beginning that a session starts from. -/
theorem startOf_lengthOf (partial_ : Partial path source w.fs) :
    startOf w (place w.fs.cwd path) (w.fs.lengthOf path) = source.take (w.fs.lengthOf path) := by
  by_cases nothing : w.fs.lengthOf path = 0
  · rw [startOf, nothing, if_neg (Nat.lt_irrefl 0), List.take_zero]
  · rw [startOf, if_pos (Nat.pos_of_ne_zero nothing)]
    cases read : w.fs.read path with
    | none => exact absurd (by rw [FileSystem.lengthOf, read]; rfl) nothing
    | some content =>
        rw [contentAt_of_read read, Option.getD_some, FileSystem.lengthOf, read, Option.getD_some]
        exact List.prefix_iff_eq_take.mp (partial_ content read)

theorem lengthOf_le (partial_ : Partial path source fs) : fs.lengthOf path ≤ source.length := by
  unfold FileSystem.lengthOf
  cases read : fs.read path with
  | none => exact Nat.zero_le _
  | some content => exact (partial_ content read).length_le

theorem partial_of_stored {w₁ : World} {content data : Bytes}
    (stored : Stored w (place w.fs.cwd path) content data w₁) (short : content <+: source) :
    Partial path source w₁.fs := by
  intro content' read
  have here := contentAt_of_read read
  rw [stored.cwd, stored.contentAt_self] at here
  exact Option.some.inj here ▸ short

theorem session_sat (partial_ : Partial path source fs) (fuel : Nat) :
    Program.Sat (handler (Fed (source.drop (fs.lengthOf path))) True)
      (Interference.alone (fun w w' => Partial path source w.fs → Partial path source w'.fs)
        fun _ kept => kept)
      (receiveFileData fuel path source.length (fs.lengthOf path))
      (fun ok w' => ok = true → w'.fs.read path = some source) (World.boot fs) := by
  have reads : Reads (Fed (source.drop (fs.lengthOf path))) True
      (Interference.alone (fun w w' => Partial path source w.fs → Partial path source w'.fs)
        fun _ kept => kept) (source.drop (fs.lengthOf path)) :=
    ⟨fun _ _ _ fed => fed, fun _ _ same => Eq.symm same, trivial⟩
  have within := lengthOf_le partial_
  have grown : ∀ n, startOf (World.boot fs) (place fs.cwd path) (fs.lengthOf path) ++
      (source.drop (fs.lengthOf path)).take n = source.take (fs.lengthOf path + n) := by
    intro n
    have start : startOf (World.boot fs) (place fs.cwd path) (fs.lengthOf path) =
        source.take (fs.lengthOf path) := startOf_lengthOf (w := World.boot fs) partial_
    rw [List.take_add, start]
  have need : source.length - fs.lengthOf path =
      ((source.length : Int) - (fs.lengthOf path : Nat)).toNat := by omega
  apply (receiveFileData_sat (w := World.boot fs) (p := place fs.cwd path) reads
    (List.nil_append _).symm rfl need ?_ ?_ ?_).weaken
  · intro ok w' outcome success
    rcases outcome with ⟨failed, -⟩ | ⟨found, notDir, -, n, m, -, -, stored, all, -⟩
    · rw [success] at failed
      cases failed
    · obtain ⟨rfl, -, -⟩ := all success
      rw [grown, Nat.add_sub_cancel' within, List.take_length] at stored
      exact FileSystem.read_eq_some.mpr ⟨_, (stored.dirsKept notDir).resolve found,
        stored.entry_self⟩
  · intro _
    have whole := grown 0
    rw [List.take_zero, List.append_nil, Nat.add_zero] at whole
    rw [whole, List.length_take, Nat.min_eq_left within]
  · intro w₁ _ _ opened _
    have whole := grown 0
    rw [List.take_zero, List.append_nil] at whole
    exact partial_of_stored opened (whole ▸ List.take_prefix _ _)
  · intro _ n m n' m' w₁ w₂ _ _ _ _ _ second _
    rw [grown] at second
    exact partial_of_stored second (List.take_prefix _ _)

theorem partial_of_sessions (partial_ : Partial path source fs₀)
    (sessions : FileSessions path source fs₀ fs) : Partial path source fs := by
  induction sessions with
  | start => exact partial_
  | session _ run ih =>
      apply (session_sat ih _).invariant (fun w => Partial path source w.fs) ih _ _ run
      · intro w w' same kept
        exact same ▸ kept
      · intro w w' promised kept
        exact promised kept

/-- However many sessions are broken off anywhere, the file stays a beginning of the source, and
a session that reports success has completed it. -/
theorem receiveFileData_resumable (partial_ : Partial path source fs₀)
    (sessions : FileSessions path source fs₀ fs) :
    Partial path source fs ∧ ∀ fuel w, FileSession path source fuel fs (.done true) w →
      w.fs.read path = some source := by
  have now := partial_of_sessions partial_ sessions
  exact ⟨now, fun fuel w run => (session_sat now fuel).returned run rfl⟩

/-- `/d` holds the first byte of `AB`. -/
def begunFs : FileSystem := FileSystem.empty.put [[100]] (.file [65] 0o644 0)

theorem begun_partial : Partial [47, 100] [65, 66] begunFs := by
  intro content read
  have here : begunFs.read [47, 100] = some [65] := by decide +kernel
  rw [here] at read
  cases read
  decide

theorem receiveFileData_resumable_begun : ∃ w,
    FileSession [47, 100] [65, 66] 3 begunFs (.done true) w ∧
    w.fs.read [47, 100] = some [65, 66] := by
  obtain ⟨w, run, -⟩ := Program.reach_of_play_within Eq (fun w => w.received <+: [66])
    (feeding_fed [66]) (receiveFileData 3 [47, 100] 2 1) (World.boot begunFs) (by decide) true
    (fun _ => ()) () (by decide +kernel)
  have length : begunFs.lengthOf [47, 100] = 1 := by decide +kernel
  have session : FileSession [47, 100] [65, 66] 3 begunFs (.done true) w := by
    rw [FileSession, length]
    exact run
  exact ⟨w, session, (receiveFileData_resumable begun_partial .start).2 3 w session⟩

end SyncTool
