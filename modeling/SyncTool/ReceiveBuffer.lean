import SyncTool.ServerExceptions
import SyncTool.TaskWords

set_option autoImplicit false

namespace SyncTool

open SyncServer

/-- A byte is stored at an index of a buffer of some size. -/
structure Store where
  size : Nat
  index : Nat

/-- What receives into buffers. Its notes are the bytes that it stores. -/
abbrev BufferProg (α : Type) : Type 1 := Throwing Op Res Store α

/-- A `size_t` taken for a `ssize_t`. -/
def Abi.toSsize (abi : Abi) (count : Nat) : Int := Int.bmod count (256 ^ abi.size_t)

theorem Abi.half_size (abi : Abi) : 256 ^ abi.size_t = 2 * (256 ^ abi.size_t / 2) := by
  have even : 256 ^ 1 ∣ 256 ^ abi.size_t := Nat.pow_dvd_pow 256 (by have := abi.size_t_wide; omega)
  omega

theorem Abi.toSsize_small {abi : Abi} {count : Nat} (small : count < 256 ^ abi.size_t / 2) :
    abi.toSsize count = count := by
  have half := abi.half_size
  unfold toSsize
  apply Int.bmod_eq_of_le_mul_two
  · omega
  · omega

/-- The upper half of the sizes is below zero. -/
theorem Abi.toSsize_large {abi : Abi} {count : Nat} (large : 256 ^ abi.size_t / 2 ≤ count)
    (fits : count < 256 ^ abi.size_t) : abi.toSsize count = count - 256 ^ abi.size_t := by
  have half := abi.half_size
  have cast : ((256 ^ abi.size_t : Nat) : Int) = 256 ^ abi.size_t := by push_cast; rfl
  unfold toSsize
  rw [← Int.sub_bmod_right, cast]
  apply Int.bmod_eq_of_le_mul_two
  · rw [cast]
    omega
  · rw [cast]
    omega

namespace BufferProg

open Throwing

variable (server : SyncServer) (fuel : Nat)

def storeEach (size : Nat) : Nat → Nat → BufferProg Unit
  | _, 0 => pure ()
  | index, count + 1 => do
      note ⟨size, index⟩
      storeEach size (index + 1) count

/-- `robustRead` into a buffer of `size`, from `start` on; it has stored `totalRead`. -/
def robustRead (size start count : Nat) : Nat → Bytes → BufferProg (Option Bytes)
  | 0, _ => system .spin
  | fuel + 1, totalRead =>
      if (totalRead.length : Int) < server.abi.toSsize count then do
        let n ← system (Sys.recv (count - totalRead.length))
        match n with
        | .eintr => robustRead size start count fuel totalRead
        | .error => pure none
        | .ok bytes =>
            if bytes = [] then pure (some totalRead)
            else do
              storeEach size (start + totalRead.length) bytes.length
              robustRead size start count fuel (totalRead ++ bytes)
      else pure (some totalRead)

def receiveRest (capacity size reads : Nat) : Nat → Bytes → BufferProg (Option Bytes)
  | 0, _ => system .spin
  | fuel + 1, totalReceived =>
      if totalReceived.length < size then do
        let n ← robustRead server capacity totalReceived.length
            (size - totalReceived.length) reads []
        match n with
        | none => pure none
        | some bytes =>
            if bytes = [] then pure none
            else receiveRest capacity size reads fuel (totalReceived ++ bytes)
      else pure (some totalReceived)

/-- `receiveBytes` into a buffer of `capacity`. -/
def receiveBytes (capacity size : Nat) : BufferProg (Option Bytes) :=
  receiveRest server capacity size fuel fuel []

def receiveInt : BufferProg (Option Int) := do
  let bytes ← receiveBytes server fuel server.abi.int server.abi.int
  pure (bytes.map server.abi.decodeInt)

def receiveSizeT : BufferProg (Option Nat) := do
  let bytes ← receiveBytes server fuel server.abi.size_t server.abi.size_t
  pure (bytes.map server.abi.decode)

def receiveOffT : BufferProg (Option Int) := do
  let bytes ← receiveBytes server fuel server.abi.off_t server.abi.off_t
  pure (bytes.map server.abi.decodeInt)

def receiveModeT : BufferProg (Option UInt32) := do
  let bytes ← receiveBytes server fuel server.abi.mode_t server.abi.mode_t
  pure (bytes.map fun bytes => UInt32.ofNat (server.abi.decode bytes))

/-- A path of `receiveTaskMetadata`: the buffer is as large as the sum of the length and one comes
out in a `size_t`. -/
def receivePath : BufferProg (Option Bytes) := do
  let pathLen ← receiveSizeT server fuel
  match pathLen with
  | none => pure none
  | some pathLen =>
      if 0 < pathLen then do
        let size := (pathLen + 1) % 256 ^ server.abi.size_t
        allocate server.abi.max_size size
        let buffer ← receiveBytes server fuel size pathLen
        match buffer with
        | none => pure none
        | some buffer => do
            note ⟨size, pathLen⟩
            pure (some (cString buffer))
      else pure (some [])

def receiveTask : BufferProg (Option ServerSyncTask) := do
  let taskType ← receiveInt server fuel
  match taskType with
  | none => pure none
  | some taskType => do
      let isDirectory := decide (taskType = 1)
      let srcPath ← receivePath server fuel
      match srcPath with
      | none => pure none
      | some srcPath => do
          let destPath ← receivePath server fuel
          match destPath with
          | none => pure none
          | some destPath => do
              let mode ← receiveModeT server fuel
              match mode with
              | none => pure none
              | some mode =>
                  if isDirectory then pure (some ⟨destPath, srcPath, true, mode, 0⟩)
                  else do
                    let fileSize ← receiveOffT server fuel
                    pure (fileSize.map fun fileSize => ⟨destPath, srcPath, false, mode, fileSize⟩)

def receiveTaskMetadata : Nat → List ServerSyncTask → BufferProg (Option (List ServerSyncTask))
  | 0, tasks => pure (some tasks)
  | taskCount + 1, tasks => do
      let task ← receiveTask server fuel
      match task with
      | none => pure none
      | some task => do
          system (Sys.pushTask task)
          receiveTaskMetadata taskCount (tasks ++ [task])

section

variable {server} {Note : Type}

theorem mute_storeEach (size index count : Nat) :
    (mute (storeEach size index count) : Throwing Op Res Note Unit) = pure () := by
  induction count generalizing index with
  | zero => rfl
  | succ count ih => exact ih (index + 1)

theorem mute_robustRead {size start count : Nat} (small : count < 256 ^ server.abi.size_t / 2)
    (fuel : Nat) (totalRead : Bytes) :
    (mute (robustRead server size start count fuel totalRead) : Throwing Op Res Note
      (Option Bytes)) = system (SyncTool.robustRead count fuel totalRead) := by
  induction fuel generalizing totalRead with
  | zero => rfl
  | succ fuel ih =>
      unfold robustRead SyncTool.robustRead
      rw [Abi.toSsize_small small]
      by_cases more : totalRead.length < count
      · rw [if_pos (by exact_mod_cast more), if_pos more, mute_bind, mute_system, system_bind]
        congr 1
        funext n
        cases n with
        | eintr => exact ih totalRead
        | error => rfl
        | ok bytes =>
            show mute (if bytes = [] then _ else _) = system (if bytes = [] then _ else _)
            by_cases ended : bytes = []
            · rw [if_pos ended, if_pos ended]
              rfl
            · rw [if_neg ended, if_neg ended, mute_bind, mute_storeEach]
              exact ih _
      · rw [if_neg (by exact_mod_cast more), if_neg more]
        rfl

theorem mute_receiveRest {capacity size reads : Nat} (small : size < 256 ^ server.abi.size_t / 2)
    (fuel : Nat) (totalReceived : Bytes) :
    (mute (receiveRest server capacity size reads fuel totalReceived) :
        Throwing Op Res Note (Option Bytes)) =
      system (SyncTool.receiveRest size reads fuel totalReceived) := by
  induction fuel generalizing totalReceived with
  | zero => rfl
  | succ fuel ih =>
      unfold receiveRest SyncTool.receiveRest
      by_cases more : totalReceived.length < size
      · rw [if_pos more, if_pos more, mute_bind, mute_robustRead (by omega), system_bind]
        congr 1
        funext n
        cases n with
        | none => rfl
        | some bytes =>
            show mute (if bytes = [] then _ else _) = system (if bytes = [] then _ else _)
            by_cases ended : bytes = []
            · rw [if_pos ended, if_pos ended]
              rfl
            · rw [if_neg ended, if_neg ended]
              exact ih _
      · rw [if_neg more, if_neg more]
        rfl

/-- A size that is below zero as a `ssize_t` is received as nothing at all. -/
theorem mute_receiveBytes {capacity size fuel : Nat} (some_ : 0 < fuel)
    (fits : size < 256 ^ server.abi.size_t) :
    (mute (receiveBytes server fuel capacity size) : Throwing Op Res Note (Option Bytes)) =
      system (ServerProg.receiveSized server fuel size) := by
  unfold ServerProg.receiveSized
  split
  · next small => exact mute_receiveRest small fuel []
  · next large =>
      obtain ⟨fuel, rfl⟩ := Nat.exists_eq_add_one_of_ne_zero (Nat.pos_iff_ne_zero.mp some_)
      have half := server.abi.half_size
      have below := @Abi.toSsize_large server.abi size (by omega) fits
      have cast : ((256 ^ server.abi.size_t : Nat) : Int) = 256 ^ server.abi.size_t := by
        push_cast; rfl
      have wide : 0 < 256 ^ server.abi.size_t := by positivity
      unfold receiveBytes receiveRest robustRead
      rw [if_pos (show ([] : Bytes).length < size by simp only [List.length_nil]; omega),
        if_neg (by simp only [List.length_nil, Nat.sub_zero]; omega)]
      rfl

end

/-- Nothing has been stored outside of its buffer. -/
def Inside (s : Noted Store World) : Prop := ∀ stored ∈ s.notes, stored.1.index < stored.1.size

/-- A step that stores nothing outside. -/
def careful : Interference (Noted Store World) :=
  .alone (fun s s' => Inside s → Inside s') fun _ inside => inside

section

variable {server fuel} {α : Type} {policy : Policy} {max_size : Nat} {s : Noted Store World}

theorem storeEach_sat {size index count : Nat} (room : index + count ≤ size) :
    Program.Sat ((handler policy True).guarded max_size) careful (storeEach size index count).run
      (fun result _ => result = .ok ()) s := by
  induction count generalizing index s with
  | zero => exact fun _ _ => rfl
  | succ count ih =>
      intro s₁ same _ s₂ ran
      obtain rfl : s = s₁ := same
      obtain rfl := ran
      refine ⟨fun inside stored member => ?_, ih (by omega)⟩
      rcases List.mem_append.mp member with old | new
      · exact inside stored old
      · obtain rfl := List.mem_singleton.mp new
        show index < size
        omega

/-- A call of the system stores nothing; what it answers is handed on, unless memory runs out in
front of it. -/
theorem sat_ask {op : Op} {next : Res op → BufferProg α}
    {Q : Except Thrown α → Noted Store World → Prop} (thrown : ∀ s', Q (.error .bad_alloc) s')
    (holds : ∀ choice s', Program.Sat ((handler policy True).guarded max_size) careful
      (next (op.run choice s.state).1).run Q s') :
    Program.Sat ((handler policy True).guarded max_size) careful
      (system (Program.ask op) >>= next).run Q s := by
  intro s₁ same answer s₂ ran
  obtain rfl : s = s₁ := same
  cases answer with
  | none =>
      obtain rfl := ran
      exact ⟨fun inside => inside, fun s₃ _ => thrown s₃⟩
  | some answer =>
      obtain ⟨state, ⟨choice, -, ran⟩, rfl⟩ := ran
      have told : answer = (op.run choice s.state).1 := by rw [ran]
      subst told
      exact ⟨fun inside => inside, holds choice _⟩

theorem robustRead_sat {size start count : Nat} {totalRead : Bytes}
    (short : totalRead.length ≤ count)
    (room : 0 < server.abi.toSsize count → start + count ≤ size)
    (begun : totalRead = [] ∨ 0 < server.abi.toSsize count) :
    Program.Sat ((handler policy True).guarded max_size) careful
      (robustRead server size start count fuel totalRead).run
      (fun result _ => ∀ bytes, result = .ok (some bytes) → bytes.length ≤ count ∧
        (bytes = [] ∨ 0 < server.abi.toSsize count)) s := by
  induction fuel generalizing totalRead s with
  | zero => trivial
  | succ fuel ih =>
      have stop : ∀ s', Program.Sat ((handler policy True).guarded max_size) careful
          (pure (some totalRead) : BufferProg (Option Bytes)).run
          (fun result _ => ∀ bytes, result = .ok (some bytes) → bytes.length ≤ count ∧
            (bytes = [] ∨ 0 < server.abi.toSsize count)) s' := by
        intro s' s'' _ bytes given
        cases given
        exact ⟨short, begun⟩
      unfold robustRead
      by_cases more : (totalRead.length : Int) < server.abi.toSsize count
      · rw [if_pos more]
        have positive : 0 < server.abi.toSsize count := by omega
        apply sat_ask
        · intro s' bytes impossible
          cases impossible
        · intro choice s₁
          rcases run_recv choice s.state (count - totalRead.length) with
            ran | ran | ⟨data, length, ran⟩
          · rw [ran]
            exact ih short begun
          · rw [ran]
            intro s₂ _ bytes impossible
            cases impossible
          · rw [ran]
            show Program.Sat _ _ (ExceptT.run (if data = [] then _ else _)) _ _
            by_cases ended : data = []
            · rw [if_pos ended]
              exact stop s₁
            · rw [if_neg ended]
              have inside := room positive
              apply sat_bind_alone
              apply (storeEach_sat (by omega)).weaken
              rintro result s₂ rfl
              apply ih _ (.inr positive)
              rw [List.length_append]
              omega
      · rw [if_neg more]
        exact stop s

/-- Only what has room is received: a size that is none as a `ssize_t` is not read for. -/
theorem receiveRest_sat {capacity size reads : Nat} {totalReceived : Bytes}
    (short : totalReceived.length ≤ size)
    (room : size ≤ capacity ∨ totalReceived = [] ∧ ¬ 0 < server.abi.toSsize size) :
    Program.Sat ((handler policy True).guarded max_size) careful
      (receiveRest server capacity size reads fuel totalReceived).run
      (fun result _ => ∀ bytes, result = .ok (some bytes) → bytes.length = size ∧
        (size ≤ capacity ∨ size = 0)) s := by
  induction fuel generalizing totalReceived s with
  | zero => trivial
  | succ fuel ih =>
      unfold receiveRest
      by_cases more : totalReceived.length < size
      · rw [if_pos more]
        apply sat_bind_alone
        have enough : 0 < server.abi.toSsize (size - totalReceived.length) →
            totalReceived.length + (size - totalReceived.length) ≤ capacity := by
          intro positive
          rcases room with room | ⟨rfl, nothing⟩
          · omega
          · exact absurd positive nothing
        apply (robustRead_sat (Nat.zero_le _) enough (.inl rfl)).weaken
        intro result s₁ read
        cases result with
        | error thrown =>
            intro bytes impossible
            cases impossible
        | ok out =>
            cases out with
            | none =>
                intro s₂ _ bytes impossible
                cases impossible
            | some bytes =>
                show Program.Sat _ _ (ExceptT.run (if bytes = [] then _ else _)) _ _
                by_cases ended : bytes = []
                · rw [if_pos ended]
                  intro s₂ _ bytes impossible
                  cases impossible
                · rw [if_neg ended]
                  obtain ⟨length, some_⟩ := read bytes rfl
                  have positive := some_.resolve_left ended
                  apply ih
                  · rw [List.length_append]
                    omega
                  · left
                    have := enough positive
                    omega
      · rw [if_neg more]
        intro s₁ _ bytes given
        cases given
        refine ⟨by omega, ?_⟩
        rcases room with room | ⟨rfl, -⟩
        · exact .inl room
        · right
          simpa using more

/-- What has a buffer of its own size is received into it. -/
theorem receiveBytes_sat {size : Nat} :
    Program.Sat ((handler policy True).guarded max_size) careful
      (receiveBytes server fuel size size).run
      (fun result _ => ∀ bytes, result = .ok (some bytes) → bytes.length = size) s :=
  (receiveRest_sat (Nat.zero_le size) (.inl (le_refl size))).weaken fun _ _ gave bytes given =>
    (gave bytes given).1

theorem receiveSizeT_sat :
    Program.Sat ((handler policy True).guarded max_size) careful (receiveSizeT server fuel).run
      (fun result _ => ∀ len, result = .ok (some len) → len < 256 ^ server.abi.size_t) s := by
  apply sat_bind_alone
  apply receiveBytes_sat.weaken
  intro result s₁ gave
  cases result with
  | error thrown =>
      intro len impossible
      cases impossible
  | ok out =>
      intro s₂ _ len given
      cases out with
      | none => cases given
      | some bytes =>
          cases given
          rw [← gave bytes rfl]
          exact server.abi.decode_lt bytes

/-- An allocation, granted or not. -/
theorem sat_allocate {bound size : Nat} {next : Unit → BufferProg α}
    {Q : Except Thrown α → Noted Store World → Prop} (thrown : ∀ what s', Q (.error what) s')
    (holds : ∀ s', Program.Sat ((handler policy True).guarded max_size) careful
      (next ()).run Q s') :
    Program.Sat ((handler policy True).guarded max_size) careful
      (allocate bound size >>= next).run Q s := by
  rintro s₁ same granted s₂ ⟨-, rfl⟩
  obtain rfl : s = s₁ := same
  refine ⟨fun inside => inside, ?_⟩
  cases granted with
  | true => exact holds _
  | false => exact fun s₃ _ => thrown _ s₃

/-- Neither the bytes of a path nor the zero behind them are stored outside of its buffer, also
where the size of that has wrapped around. -/
theorem receivePath_sat :
    Program.Sat ((handler policy True).guarded max_size) careful (receivePath server fuel).run
      (fun _ _ => True) s := by
  apply sat_bind_alone
  apply receiveSizeT_sat.weaken
  intro result s₁ gave
  cases result with
  | error thrown => trivial
  | ok out =>
  cases out with
  | none => exact fun _ _ => trivial
  | some pathLen =>
  have fits := gave pathLen rfl
  show Program.Sat _ _ (ExceptT.run (if 0 < pathLen then _ else _)) _ _
  by_cases positive : 0 < pathLen
  · rw [if_pos positive]
    apply sat_allocate fun _ _ => trivial
    intro s₂
    apply sat_bind_alone
    have room : pathLen ≤ (pathLen + 1) % 256 ^ server.abi.size_t ∨
        ([] : Bytes) = [] ∧ ¬ 0 < server.abi.toSsize pathLen := by
      by_cases wraps : pathLen + 1 = 256 ^ server.abi.size_t
      · right
        have half := server.abi.half_size
        have cast : ((256 ^ server.abi.size_t : Nat) : Int) = 256 ^ server.abi.size_t := by
          push_cast
          rfl
        rw [Abi.toSsize_large (by omega) fits]
        exact ⟨rfl, by omega⟩
      · left
        rw [Nat.mod_eq_of_lt (by omega)]
        omega
    apply (receiveRest_sat (Nat.zero_le pathLen) room).weaken
    intro result s₃ gave
    cases result with
    | error thrown => trivial
    | ok out =>
    cases out with
    | none => exact fun _ _ => trivial
    | some buffer =>
    -- what has been received has room, so the size has not wrapped around
    have enough := (gave buffer rfl).2.resolve_right (by omega)
    have inside : pathLen < (pathLen + 1) % 256 ^ server.abi.size_t := by
      have wraps : pathLen + 1 ≠ 256 ^ server.abi.size_t := by
        intro wraps
        rw [wraps, Nat.mod_self] at enough
        omega
      rw [Nat.mod_eq_of_lt (by omega)]
      omega
    intro s₄ same _ s₅ ran
    obtain rfl : s₃ = s₄ := same
    obtain rfl := ran
    refine ⟨fun before stored member => ?_, fun _ _ => trivial⟩
    rcases List.mem_append.mp member with old | new
    · exact before stored old
    · obtain rfl := List.mem_singleton.mp new
      exact inside
  · rw [if_neg positive]
    exact fun _ _ => trivial

theorem receiveTask_sat :
    Program.Sat ((handler policy True).guarded max_size) careful (receiveTask server fuel).run
      (fun _ _ => True) s := by
  apply sat_bind_alone
  apply sat_bind_alone
  apply receiveBytes_sat.weaken
  intro result s₁ _
  cases result with
  | error thrown => trivial
  | ok out =>
  intro s₂ _
  cases out with
  | none => exact fun _ _ => trivial
  | some taskType =>
  apply sat_bind_alone
  apply receivePath_sat.weaken
  intro result s₃ _
  cases result with
  | error thrown => trivial
  | ok srcPath =>
  cases srcPath with
  | none => exact fun _ _ => trivial
  | some srcPath =>
  apply sat_bind_alone
  apply receivePath_sat.weaken
  intro result s₄ _
  cases result with
  | error thrown => trivial
  | ok destPath =>
  cases destPath with
  | none => exact fun _ _ => trivial
  | some destPath =>
  apply sat_bind_alone
  apply sat_bind_alone
  apply receiveBytes_sat.weaken
  intro result s₅ _
  cases result with
  | error thrown => trivial
  | ok mode =>
  intro s₆ _
  cases mode with
  | none => exact fun _ _ => trivial
  | some mode =>
  show Program.Sat _ _ (ExceptT.run (if _ then _ else _)) _ _
  split
  · exact fun _ _ => trivial
  · apply sat_bind_alone
    apply sat_bind_alone
    apply receiveBytes_sat.weaken
    intro result s₇ _
    cases result with
    | error thrown => trivial
    | ok fileSize => exact fun _ _ _ _ => trivial

theorem receiveTaskMetadata_sat {taskCount : Nat} {tasks : List ServerSyncTask} :
    Program.Sat ((handler policy True).guarded max_size) careful
      (receiveTaskMetadata server fuel taskCount tasks).run (fun _ _ => True) s := by
  induction taskCount generalizing tasks s with
  | zero => exact fun _ _ => trivial
  | succ taskCount ih =>
      apply sat_bind_alone
      apply receiveTask_sat.weaken
      intro result s₁ _
      cases result with
      | error thrown => trivial
      | ok task =>
          cases task with
          | none => exact fun _ _ => trivial
          | some task =>
              apply sat_ask fun _ => trivial
              exact fun _ _ => ih

/-- Whatever the client sends, and however it comes in, no byte is stored outside of its buffer. -/
theorem receiveTaskMetadata_inside (taskCount : Nat) (tasks : List ServerSyncTask) {w : World}
    {p : Program (Guarded Op Store) (GuardedRes Res) (Except Thrown (Option (List ServerSyncTask)))}
    (run : Program.Reach ((handler (fun _ _ _ => True) True).guarded server.abi.max_size).exec Eq
      (receiveTaskMetadata server fuel taskCount tasks).run (Noted.start w) p s) :
    ∀ stored ∈ s.notes, stored.1.index < stored.1.size := by
  have holds : Program.Sat ((handler (fun _ _ _ => True) True).guarded server.abi.max_size) careful
      (receiveTaskMetadata server fuel taskCount tasks).run _ (Noted.start w) :=
        receiveTaskMetadata_sat
  apply holds.invariant Inside
  · intro stored member
    cases member
  · intro s s' same inside
    obtain rfl : s = s' := same
    exact inside
  · exact fun s s' kept => kept
  · exact run

end

/-- A machine on which nothing fails, with `stream` coming in. -/
def filling (stream : Bytes) (max_size : Nat) :
    (op : Guarded Op Store) → Noted Store World → GuardedRes Res op × Noted Store World
  | .sys op, s =>
      let ran := feeding stream op s.state
      (some ran.1, { s with state := ran.2 })
  | .alloc size, s => (decide (size ≤ max_size), { s with requests := s.requests ++ [size] })
  | .note what, s => ((), { s with notes := s.notes ++ [(what, s.state)] })

theorem filling_exec (stream : Bytes) (max_size : Nat) (op : Guarded Op Store)
    (s : Noted Store World) :
    ((handler (fun _ _ _ => True) True).guarded max_size).exec op s (filling stream max_size op s).1
      (filling stream max_size op s).2 := by
  cases op with
  | sys op => exact ⟨_, ⟨_, trivial, rfl⟩, rfl⟩
  | alloc size => exact ⟨by simp [filling], by simp [filling]⟩
  | note what => rfl

/-- A directory, with a source path of two bytes and a destination path announced with
`2 ^ 64 - 1`. -/
def twoBytes : Bytes :=
  plainAbi.encode plainAbi.int 1 ++ plainAbi.encode plainAbi.size_t 2 ++ [47, 97] ++
    plainAbi.encode plainAbi.size_t (2 ^ 64 - 1) ++ [47, 97]

/-- The path of two bytes is stored with its zero; for one of `2 ^ 64 - 1`, nothing is. -/
theorem receiveTaskMetadata_inside_two : ∃ s p,
    Program.Reach ((handler (fun _ _ _ => True) True).guarded plainServer.abi.max_size).exec Eq
      (receiveTaskMetadata plainServer 9 1 []).run (Noted.start (World.boot FileSystem.empty)) p s ∧
    s.requests = [3, 0] ∧ (s.notes.map fun stored => (stored.1.size, stored.1.index)).drop 12 =
      [(3, 0), (3, 1), (3, 2), (8, 0), (8, 1), (8, 2), (8, 3), (8, 4), (8, 5), (8, 6), (8, 7)] ∧
    ∀ stored ∈ s.notes, stored.1.index < stored.1.size := by
  obtain ⟨s, run, seen⟩ := Program.reach_of_play Eq (filling_exec twoBytes plainServer.abi.max_size)
    (receiveTaskMetadata plainServer 9 1 []).run
      (Noted.start (World.boot FileSystem.empty)) (.ok none)
    (fun s => (s.requests, (s.notes.map fun stored => (stored.1.size, stored.1.index)).drop 12))
    ([3, 0], [(3, 0), (3, 1), (3, 2), (8, 0), (8, 1), (8, 2), (8, 3), (8, 4),
      (8, 5), (8, 6), (8, 7)])
    (by decide +kernel)
  obtain ⟨requests, notes⟩ := Prod.mk.inj seen
  exact ⟨s, _, run, requests, notes, receiveTaskMetadata_inside 1 [] run⟩

end BufferProg

end SyncTool
