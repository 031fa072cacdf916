import Mathlib.Data.List.TakeWhile
import SyncTool.ProgramRuns
import SyncTool.ServerWrites
import SyncTool.SessionStream

set_option autoImplicit false

namespace SyncTool

open SyncTool.Path LinuxFileUtil SyncServer

/-- No file differs, and nothing else but the tree. -/
structure Quiet (w w' : World) : Prop where
  dirs : FileSystem.DirsKept w.fs w'.fs
  files : ∀ q, w'.fs.contentAt q = w.fs.contentAt q
  rest : w' = { w with fs := w'.fs }

/-- The calls that touch no file's content. -/
def Op.quiet : Op → Prop
  | .stat _ | .mkdir _ _ | .chmod _ _ => True
  | _ => False

theorem Quiet.refl (w : World) : Quiet w w := ⟨.refl _, fun _ => rfl, rfl⟩

theorem Quiet.trans {w w₁ w₂ : World} (first : Quiet w w₁) (second : Quiet w₁ w₂) : Quiet w w₂ where
  dirs := first.dirs.trans second.dirs
  files q := (second.files q).trans (first.files q)
  rest := by
    have last := second.rest
    rw [first.rest] at last
    exact last

theorem run_quiet {op : Op} (quiet : op.quiet) (choice : Choice) (w : World) :
    Quiet w (op.run choice w).2 := by
  cases op with
  | stat path => exact .refl w
  | mkdir path mode =>
      simp only [Op.run, World.attempt]
      split
      · split
        · next fs made =>
            obtain ⟨p, -, missing, cwd, tree⟩ := FileSystem.mkdir_effect made
            refine ⟨FileSystem.dirsKept_of_update cwd tree fun _ => rfl, fun q => ?_, rfl⟩
            simp only [FileSystem.contentAt, tree]
            by_cases same : q = p
            · subst same
              simp [missing]
            · rw [Function.update_of_ne same]
        · exact .refl w
      · exact .refl w
  | chmod path mode =>
      simp only [Op.run, World.attempt]
      split
      · split
        · next fs changed =>
            obtain ⟨cwd, tree⟩ := FileSystem.chmod_effect changed
            refine ⟨⟨cwd, fun q isDir => ?_⟩, fun q => ?_, rfl⟩
            · rw [tree, isDir]
            · simp only [FileSystem.contentAt, tree]
        · exact .refl w
      · exact .refl w
  | _ => exact quiet.elim

theorem createDirectory_all (path : Bytes) (mode : UInt32) :
    Program.All Op.quiet (createDirectory path mode) := by
  have each : ∀ paths : List Bytes, Program.All Op.quiet (createEach mode paths) := by
    intro paths
    induction paths with
    | nil => trivial
    | cons first rest ih =>
        simp only [createEach]
        split
        · exact ih
        · apply Program.All.bind
          · simp only [ensureDirectory, Program.ask_bind]
            refine ⟨trivial, fun found => ?_⟩
            cases found with
            | none => exact Program.all_ask.mpr trivial
            | some node => trivial
          · intro made
            split
            · exact ih
            · trivial
  exact each _

section

variable {policy : Policy} {spins : Prop} {I : Interference World} {w : World} {α : Type}

theorem quiet_sat (loops : spins) (still : ∀ w w', I.rely w w' → w' = w)
    (may : ∀ w₁ w₂, Quiet w w₁ → Quiet w₁ w₂ → I.guar w₁ w₂) {p : Prog α}
    (all : Program.All Op.quiet p) :
    Program.Sat (handler policy spins) I p (fun _ w' => Quiet w w') w := by
  apply all.sat (Quiet w) (.refl w)
  · intro w₁ w₂ drift sofar
    rwa [still _ _ drift]
  · rintro op w₁ answer w₂ quiet sofar ⟨choice, -, ran⟩
    have step := run_quiet quiet choice w₁
    rw [ran] at step
    exact ⟨may w₁ w₂ sofar step, sofar.trans step⟩
  · exact loops

end

namespace Item

/-- Where the server puts a task. -/
def target (server : SyncServer) (item : Item) : Bytes :=
  server.baseDirectory ++ item.task.destPath

/-- The files after one more task. -/
def put (server : SyncServer) (cwd : Path) (files : Path → Option Bytes) (item : Item) :
    Path → Option Bytes :=
  if item.isFile then
    Function.update files (place cwd (item.target server)) (some (item.content.take item.size))
  else files

end Item

section

variable (server : SyncServer) (items : List Item)

/-- The server is in step: what it has read ends within what the client says of the task the
server is at, and begins with all that the client says of the tasks it has done. -/
def InStep (w : World) : Prop :=
  w.received <+: upTo server.abi items (w.processedTasks + 1) ∧
  (0 < w.processedTasks → upTo server.abi (items.map Item.declared) w.processedTasks <+: w.received)

/-- All tasks are taken as they were given, and all files are stored. -/
structure Complete (before : Path → Option Bytes) (w : World) : Prop where
  accepted : w.accepted = items.map Item.serverTask
  received : w.received = upTo server.abi (items.map Item.declared) items.length
  files : ∀ q, w.fs.contentAt q = items.foldl (Item.put server w.fs.cwd) before q
  resolved : ∀ item ∈ items, item.isFile →
    w.fs.resolve (item.target server) = some (place w.fs.cwd (item.target server))
  enough : ∀ item ∈ items, item.isFile → item.size ≤ item.content.length

/-- Success is acknowledged only when everything is done. -/
def Honest (before : Path → Option Bytes) (w : World) : Prop :=
  ack.take 1 <+: w.sent → Complete server items before w

/-- What every step of the server is good for. -/
structure Served (before : Path → Option Bytes) (w w' : World) : Prop where
  dirs : FileSystem.DirsKept w.fs w'.fs
  files : ∀ q, w'.fs.contentAt q = w.fs.contentAt q ∨
    ∃ item ∈ items, item.isFile ∧ q = place w.fs.cwd (item.target server) ∧
      ∃ content, w'.fs.contentAt q = some content ∧ content <+: item.content
  inStep : InStep server items w → InStep server items w'
  honest : Honest server items before w → Honest server items before w'

variable {server items} {before : Path → Option Bytes} {w w₁ w₂ : World}

theorem Served.refl (w : World) : Served server items before w w :=
  ⟨.refl _, fun _ => .inl rfl, id, id⟩

/-- The server, which runs alone. -/
def serving (server : SyncServer) (items : List Item) (before : Path → Option Bytes) :
    Interference World :=
  .alone (Served server items before) Served.refl

theorem honest_of_silent (silent : w.sent = []) : Honest server items before w := by
  intro spoken
  rw [silent] at spoken
  exact absurd spoken.length_le (by decide)

theorem served_of_quiet (quiet : Quiet w w₁) (silent : w.sent = []) :
    Served server items before w w₁ where
  dirs := quiet.dirs
  files q := .inl (quiet.files q)
  inStep sofar := by
    rw [quiet.rest]
    exact sofar
  honest _ := honest_of_silent (by rw [quiet.rest, silent])

/-- Reading on, within what belongs to the task the server is at. -/
theorem mayTake_serving {size : Nat} (silent : w.sent = [])
    (within : w.received.length + size ≤ (upTo server.abi items (w.processedTasks + 1)).length) :
    MayTake (serving server items before) (stream server.abi items) w size := by
  intro first second short inside
  have total : (first ++ second).length = first.length + second.length := List.length_append
  refine ⟨.refl _, fun _ => .inl rfl, ?_, fun _ => honest_of_silent silent⟩
  rintro ⟨-, lower⟩
  refine ⟨?_, fun positive => ?_⟩
  · apply List.prefix_of_prefix_length_le inside upTo_prefix_stream
    simp only [World.got_processedTasks]
    rw [List.length_append]
    omega
  · have begun := lower positive
    simp only [World.got_received, World.got_processedTasks] at begun ⊢
    apply begun.trans
    rw [← List.append_assoc]
    exact List.prefix_append _ _

/-- A read that gets `text`, which stands for `value`, or fails before anything is answered. -/
def Yields {α : Type} (w : World) (value : α) (text : Bytes) (out : Option α) (w' : World) : Prop :=
  w'.sent = [] ∧ ∀ given, out = some given → given = value ∧ w' = w.got text

section Reading

variable {policy : Policy} {spins : Prop} {I : Interference World} {fuel : Nat}
  {α : Type} {value : α} {text : Bytes}

theorem yields_none (still : ∀ w w', I.rely w w' → w' = w) (silent : w₁.sent = []) :
    Program.Sat (handler policy spins) I (.done none) (Yields w value text) w₁ := by
  intro w' drift
  rw [still _ _ drift]
  exact ⟨silent, by simp⟩

theorem yields_some (still : ∀ w w', I.rely w w' → w' = w) (silent : w.sent = []) :
    Program.Sat (handler policy spins) I (.done (some value))
      (Yields w value text) (w.got text) := by
  intro w' drift
  rw [still _ _ drift]
  exact ⟨silent, fun given same => ⟨(Option.some.inj same).symm, rfl⟩⟩

theorem yields_map {β : Type} {read : Prog (Option α)} (still : ∀ w w', I.rely w w' → w' = w)
    (f : α → β) (first : Program.Sat (handler policy spins) I read (Yields w value text) w) :
    Program.Sat (handler policy spins) I (read >>= fun out => pure (out.map f))
      (Yields w (f value) text) w := by
  apply Program.Sat.bind
  apply first.weaken
  rintro out w' ⟨silent, given⟩ w'' drift
  rw [still _ _ drift]
  refine ⟨silent, fun result same => ?_⟩
  obtain ⟨value', rfl, rfl⟩ := Option.map_eq_some_iff.mp same
  obtain ⟨rfl, rfl⟩ := given value' rfl
  exact ⟨rfl, rfl⟩

variable (reads : Reads policy spins (serving server items before) (stream server.abi items))

include reads

theorem receiveBytes_next {expected : Bytes} {size : Nat} (length : expected.length = size)
    (silent : w.sent = [])
    (next : w.received ++ expected <+: upTo server.abi items (w.processedTasks + 1)) :
    Program.Sat (handler policy spins) (serving server items before) (receiveBytes fuel size)
      (Yields w expected expected) w := by
  subst length
  have within := next.length_le
  rw [List.length_append] at within
  apply (receiveBytes_sat reads (mayTake_serving silent within)
    (next.trans upTo_prefix_stream)).weaken
  rintro out w' ⟨data, rfl, given⟩
  refine ⟨silent, fun bytes same => ?_⟩
  obtain ⟨rfl, rfl⟩ := given bytes same
  exact ⟨rfl, rfl⟩

/-- A word of the wire, read as what was written. -/
theorem receiveAs_next {expected : Bytes} {size : Nat} (length : expected.length = size)
    (read : Bytes → α) (means : read expected = value) (silent : w.sent = [])
    (next : w.received ++ expected <+: upTo server.abi items (w.processedTasks + 1)) :
    Program.Sat (handler policy spins) (serving server items before)
      (receiveBytes fuel size >>= fun bytes => pure (bytes.map read))
      (Yields w value expected) w := by
  rw [← means]
  exact yields_map reads.still read (receiveBytes_next reads length silent next)

theorem receiveInt_next {n : Nat} (small : n < 2 ^ 31) (silent : w.sent = [])
    (next : w.received ++ server.abi.encode server.abi.int n <+:
      upTo server.abi items (w.processedTasks + 1)) :
    Program.Sat (handler policy spins) (serving server items before) (server.receiveInt fuel)
      (Yields w (n : Int) (server.abi.encode server.abi.int n)) w :=
  receiveAs_next reads (server.abi.length_encode _ _) _
    (server.abi.decodeInt_encode_small server.abi.int_wide small) silent next

theorem receiveOffT_next {n : Nat} (fits : 2 * n < 256 ^ server.abi.off_t) (silent : w.sent = [])
    (next : w.received ++ server.abi.encode server.abi.off_t n <+:
      upTo server.abi items (w.processedTasks + 1)) :
    Program.Sat (handler policy spins) (serving server items before) (server.receiveOffT fuel)
      (Yields w (n : Int) (server.abi.encode server.abi.off_t n)) w := by
  have cast : (2 * n : Int) < 256 ^ server.abi.off_t := by exact_mod_cast fits
  refine receiveAs_next reads (server.abi.length_encode _ _) _
    (server.abi.decodeInt_encode ?_ cast) silent next
  have positive : (0 : Int) ≤ 256 ^ server.abi.off_t := by positivity
  omega

theorem receiveModeT_next {mode : UInt32} (silent : w.sent = [])
    (next : w.received ++ server.abi.encode server.abi.mode_t mode.toNat <+:
      upTo server.abi items (w.processedTasks + 1)) :
    Program.Sat (handler policy spins) (serving server items before) (server.receiveModeT fuel)
      (Yields w mode (server.abi.encode server.abi.mode_t mode.toNat)) w := by
  refine receiveAs_next reads (server.abi.length_encode _ _) _ ?_ silent next
  have room : 256 ^ 4 ≤ 256 ^ server.abi.mode_t :=
    Nat.pow_le_pow_right (by decide) server.abi.mode_t_wide
  have small : mode.toNat < 256 ^ 4 := mode.toNat_lt
  rw [server.abi.decode_encode (by omega)]
  exact UInt32.ofNat_toNat

omit reads in
/-- A step of a decoder: what it reads now, and what it reads then. -/
theorem yields_bind {β : Type} {read : Prog (Option α)} {then_ : Option α → Prog (Option β)}
    {result : β} {more bound : Bytes} (still : ∀ w w', I.rely w w' → w' = w)
    (stops : then_ none = .done none) (silent : w.sent = [])
    (next : w.received ++ (text ++ more) <+: bound)
    (first : w.received ++ text <+: bound →
      Program.Sat (handler policy spins) I read (Yields w value text) w)
    (second : (w.got text).sent = [] → (w.got text).received ++ more <+: bound →
      Program.Sat (handler policy spins) I (then_ (some value))
        (Yields (w.got text) result more) (w.got text)) :
    Program.Sat (handler policy spins) I (read >>= then_) (Yields w result (text ++ more)) w := by
  rw [← List.append_assoc] at next
  apply Program.Sat.bind
  apply (first ((List.prefix_append _ _).trans next)).weaken
  rintro out w' ⟨silent', given⟩
  cases out with
  | none =>
      rw [stops]
      exact yields_none still silent'
  | some value' =>
      obtain ⟨rfl, rfl⟩ := given value' rfl
      apply (second silent next).weaken
      rintro out w'' ⟨silent'', given'⟩
      refine ⟨silent'', fun value'' same => ?_⟩
      obtain ⟨rfl, rfl⟩ := given' value'' same
      exact ⟨rfl, by rw [World.got_got]⟩

omit reads in
/-- The end of a decoder. -/
theorem yields_pure (still : ∀ w w', I.rely w w' → w' = w) (silent : w.sent = []) :
    Program.Sat (handler policy spins) I (.done (some value)) (Yields w value []) w := by
  have done := @yields_some w policy spins I α value [] still silent
  rwa [World.got_nil] at done

theorem receivePath_next {path : Bytes} (short : path.length < 256 ^ server.abi.size_t)
    (noNul : 0 ∉ path) (silent : w.sent = [])
    (next : w.received ++ (server.abi.encode server.abi.size_t path.length ++ path) <+:
      upTo server.abi items (w.processedTasks + 1)) :
    Program.Sat (handler policy spins) (serving server items before) (server.receivePath fuel)
      (Yields w path (server.abi.encode server.abi.size_t path.length ++ path)) w := by
  have whole : cString path = path :=
    List.takeWhile_eq_self_iff.mpr fun byte member => by
      simpa using fun same : byte = 0 => noNul (same ▸ member)
  apply yields_bind reads.still (by rfl) silent next
  · exact receiveAs_next reads (server.abi.length_encode _ _) server.abi.decode
      (server.abi.decode_encode short) silent
  intro silent next
  show Program.Sat _ _ (if 0 < path.length then _ else _) _ _
  split
  · have bytes := @receiveBytes_next server items before _ policy spins fuel
      reads _ _ rfl silent next
    have read := yields_map reads.still cString bytes
    rwa [whole] at read
  · next empty =>
      obtain rfl : path = [] := List.eq_nil_of_length_eq_zero (by omega)
      exact yields_pure reads.still silent

omit reads in
theorem header_eq (abi : Abi) (item : Item) :
    item.header abi =
      abi.encode abi.int ((if item.task.isDirectory then 1 else 0 : Nat)) ++
        ((abi.encode abi.size_t item.task.srcPath.length ++ item.task.srcPath) ++
          ((abi.encode abi.size_t item.task.destPath.length ++ item.task.destPath) ++
            (abi.encode abi.mode_t item.task.mode.toNat ++
              if item.task.isDirectory then [] else abi.encode abi.off_t item.size))) := by
  simp only [Item.header, List.append_assoc, Nat.cast_ite, Nat.cast_one, Nat.cast_zero]

/-- One round of the metadata loop takes the task as it was given. -/
theorem receiveTask_next {item : Item} (fits : item.Fits server.abi) (proper : item.Proper)
    (silent : w.sent = [])
    (next : w.received ++ item.header server.abi <+: upTo server.abi items (w.processedTasks + 1)) :
    Program.Sat (handler policy spins) (serving server items before) (server.receiveTask fuel)
      (Yields w item.serverTask (item.header server.abi)) w := by
  rw [header_eq] at next ⊢
  apply yields_bind reads.still (by rfl) silent next
  · exact receiveInt_next reads (by split <;> decide) silent
  intro silent next
  have isDirectory : decide (((if item.task.isDirectory then 1 else 0 : Nat) : Int) = 1) =
      item.task.isDirectory := by
    cases item.task.isDirectory <;> rfl
  dsimp only
  rw [isDirectory]
  apply yields_bind reads.still (by rfl) silent next
  · exact receivePath_next reads fits.srcPath.1 fits.srcPath.2 silent
  intro silent next
  apply yields_bind reads.still (by rfl) silent next
  · exact receivePath_next reads fits.destPath.1 fits.destPath.2 silent
  intro silent next
  apply yields_bind reads.still (by rfl) silent next
  · exact receiveModeT_next reads silent
  intro silent next
  dsimp only
  rw [Item.serverTask]
  unfold Item.Proper at proper
  cases directory : item.task.isDirectory with
  | true =>
      rw [directory] at proper
      rw [proper.2]
      exact yields_pure reads.still silent
  | false =>
      rw [directory] at next
      exact yields_map reads.still
        (fun fileSize => ServerSyncTask.mk item.task.destPath item.task.srcPath false
          item.task.mode fileSize)
        (receiveOffT_next reads fits.size silent next)

end Reading

end

end SyncTool
