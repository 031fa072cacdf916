import SyncTool.RemoteSession
import SyncTool.SyncFileOutcome

set_option autoImplicit false

namespace SyncTool

open SyncTool.Path FileSync

/-- The sources of a session may change between the metadata and the data, where `content` is
read of them, but only those of the tasks in `free` may change their size. -/
def Changes (content : Bytes → Bytes) (tasks : List SyncTask) (free : SyncTask → Prop) : Policy :=
  fun op _ w => ∀ task ∈ tasks, task.isDirectory = false →
    (op = .stat task.srcPath → ∃ now, w.fs.read task.srcPath = some now ∧
      now.length < LARGE_FILE_THRESHOLD ∧
      (free task ∨ now.length = (content task.srcPath).length)) ∧
    ((op = .seekEnd task.srcPath ∨ ∃ pos count, op = .get task.srcPath pos count) →
      w.fs.read task.srcPath = some (content task.srcPath))

/-- Only the last source may change its size. -/
abbrev LastChanges (content : Bytes → Bytes) (tasks : List SyncTask) : Policy :=
  Changes content tasks (· ∉ tasks.dropLast)

section

variable {content : Bytes → Bytes} {tasks : List SyncTask} {self : FileSync} {server : SyncServer}
  {policy' : Policy} {fs : FileSystem} {w : World} {fuel fuel' : Nat}
  {now : Pair Op Res World Bool Bool}

/-- Sizes are below the threshold, and those of all files but the last are right. -/
def changingSources (content : Bytes → Bytes) (tasks : List SyncTask)
    (small : ∀ path, (content path).length < LARGE_FILE_THRESHOLD) : Sources where
  content := content
  sized task size := size < LARGE_FILE_THRESHOLD ∧
    (task ∈ tasks.dropLast → size = (content task.srcPath).length)
  started _ offset := offset = 0
  inhabited task := ⟨(content task.srcPath).length, 0, ⟨small _, fun _ => rfl⟩, rfl⟩
  ordered _ _ _ _ fresh := fresh ▸ Nat.zero_le _

theorem views_lastChanges (small : ∀ path, (content path).length < LARGE_FILE_THRESHOLD) :
    Views self (LastChanges content tasks) (changingSources content tasks small) false tasks where
  stat task member file choice w allowed := by
    obtain ⟨now, read, below, same⟩ := (allowed task member file).1 rfl
    obtain ⟨perm, mtime, found⟩ := FileSystem.stat_of_read read
    exact ⟨_, found, below, fun inside => same.resolve_left (not_not_intro inside)⟩
  seekEnd task member file choice w allowed := (allowed task member file).2 (.inl rfl)
  get task member file pos count choice w allowed :=
    (allowed task member file).2 (.inr ⟨pos, count, rfl⟩)
  fresh _ _ := rfl
  loads := nofun
  direct := .inr fun _ _ _ => .inl fun _ sized => sized.1

theorem small_fits (abi : Abi) {size : Nat} (small : size < LARGE_FILE_THRESHOLD) :
    2 * size < 256 ^ abi.off_t := by
  have room : 256 ^ 4 ≤ 256 ^ abi.off_t := Nat.pow_le_pow_right (by decide) abi.off_t_wide
  unfold LARGE_FILE_THRESHOLD at small
  omega

/-- Where only the last file changes its size, a session never takes what it says of one file for
another: what the server reads for a task is what the client says of it, files only become
beginnings of their own sources, and an acknowledgement means that all are stored. -/
theorem sendTasks_separate (small : ∀ path, (content path).length < LARGE_FILE_THRESHOLD)
    (carried : Carried server.abi tasks) (silent : w.sent = []) (deaf : w.received = [])
    (run : Session (LastChanges content tasks) policy'
      (sendTasks self server.abi fuel' false tasks) w server fuel fs now) :
    ∃ items, items.map Item.task = tasks ∧
      (∀ item ∈ items, item.offset = 0 ∧
        (item.isFile → item.content = content item.task.srcPath)) ∧
      now.here.sent <+: stream server.abi items ∧ Serves server items fs now.there := by
  have playable : ∀ items, Items (changingSources content tasks small) tasks items →
      Playable server items fs.cwd fs.contentAt := by
    intro items all
    apply all.playable_fresh carried
    · exact fun _ _ _ sized => small_fits _ sized.1
    · rintro front task later rfl more size sized
      apply (sized.2 _).symm
      rw [List.dropLast_append_of_ne_nil (by simp), List.dropLast_cons_of_ne_nil more]
      simp
    · exact fun _ _ fresh => fresh
  obtain ⟨items, all, said, serves⟩ :=
    session_serves (views_lastChanges small) silent deaf playable run
  refine ⟨items, all.tasks, fun item member => ?_, said, serves⟩
  have offered := all.offered item member
  refine ⟨?_, offered.content⟩
  cases directory : item.task.isDirectory with
  | true => exact (offered.directory directory).2.1
  | false => exact offered.started directory

end

/-- `/a` and `/b`, to be put below the server's directory. -/
def twoTasks : List SyncTask :=
  [⟨[47, 97], [47, 97], false, 0o100644⟩, ⟨[47, 98], [47, 98], false, 0o100644⟩]

def twoFs (a b : Bytes) : FileSystem :=
  (FileSystem.empty.put [[97]] (.file a 0o644 0)).put [[98]] (.file b 0o644 0)

/-- What the two files hold in the data phase. -/
def twoContent (a b : Bytes) (path : Bytes) : Bytes := if path = [47, 98] then b else a

theorem two_carried : Carried plainServer.abi twoTasks where
  few := by decide
  srcPath := by decide
  destPath := by decide

/-- What the two files may hold when a call looks at them; `free` are those that may change their
size. -/
def twoChecked (a b : Bytes) (free : List Bytes) (op : Op) (w : World) : Bool :=
  match op with
  | .stat path => (w.fs.read path).any fun now =>
      now.length < 100 && (path ∈ free || now.length == (twoContent a b path).length)
  | .seekEnd path | .get path _ _ => w.fs.read path = some (twoContent a b path)
  | _ => true

theorem two_changes (a b : Bytes) {free : List Bytes} {free' : SyncTask → Prop}
    (within : ∀ task ∈ twoTasks, task.srcPath ∈ free → free' task) (op : Op) (choice : Choice)
    (w : World) (passes : twoChecked a b free op w = true) :
    Changes (twoContent a b) twoTasks free' op choice w := by
  intro task member file
  constructor
  · rintro rfl
    obtain ⟨now, read, small⟩ := (Option.any_eq_true _ _).mp passes
    simp only [Bool.and_eq_true, Bool.or_eq_true, decide_eq_true_eq, beq_iff_eq] at small
    refine ⟨now, read, ?_, small.2.imp_left (within task member)⟩
    have below := small.1
    unfold LARGE_FILE_THRESHOLD
    omega
  · rintro (rfl | ⟨pos, count, rfl⟩)
    · exact of_decide_eq_true passes
    · exact of_decide_eq_true passes

/-- A session over the two files: what they hold at first, and what they hold from the data on.
The client stops before the data and before the answer, where the files change and the server
reads. -/
def twoSession (a b a' b' : Bytes) (free : List Bytes) :
    Option ((Prog Bool × World) × (Prog Bool × World) × (Prog Bool × World) ×
      (Prog Bool × World)) := do
  let r₁ ← Program.playOn (feeding []) (twoChecked a' b' free)
    (sendTasks plainSync plainAbi 3 false twoTasks) (World.boot (twoFs a b)) 18
  let r₂ ← Program.playOn (feeding []) (twoChecked a' b' free) r₁.1
    { r₁.2 with fs := twoFs a' b' } 20
  let r₃ ← Program.playOn (feeding r₂.2.sent) (fun _ _ => true) (plainServer.handleClient 60)
    (World.boot FileSystem.empty) 200
  let r₄ ← Program.playOn (feeding r₃.2.sent) (twoChecked a' b' free) r₂.1 r₂.2 10
  return (r₁, r₂, r₃, r₄)

/-- A session that is acknowledged, and what the server then holds. -/
theorem two_session {a b a' b' storedA storedB : Bytes} {free : List Bytes}
    {free' : SyncTask → Prop} (within : ∀ task ∈ twoTasks, task.srcPath ∈ free → free' task)
    (played : (twoSession a b a' b' free).any (fun r =>
      decide (r.2.1.2.received = []) && r.2.2.1.2.received.isPrefixOf r.2.1.2.sent &&
      r.2.2.2.2.received.isPrefixOf r.2.2.1.2.sent && decide (r.2.2.1.2.sent = ack) &&
      decide (r.2.2.1.2.fs.read [47, 114, 47, 97] = some storedA) &&
      decide (r.2.2.1.2.fs.read [47, 114, 47, 98] = some storedB)) = true) :
    ∃ now, Session (Changes (twoContent a' b') twoTasks free') (fun _ _ _ => True)
        (sendTasks plainSync plainAbi 3 false twoTasks) (World.boot (twoFs a b)) plainServer 60
        FileSystem.empty now ∧
      now.there.sent = ack ∧ now.there.fs.read [47, 114, 47, 97] = some storedA ∧
      now.there.fs.read [47, 114, 47, 98] = some storedB := by
  obtain ⟨⟨r₁, r₂, r₃, r₄⟩, session, seen⟩ := (Option.any_eq_true _ _).mp played
  simp only [Bool.and_eq_true, decide_eq_true_eq, List.isPrefixOf_iff_prefix] at seen
  obtain ⟨⟨⟨⟨⟨unheard, said⟩, heard⟩, sent⟩, first⟩, second⟩ := seen
  simp only [twoSession, Option.bind_eq_bind, Option.bind_eq_some_iff] at session
  obtain ⟨s₁, run₁, s₂, run₂, s₃, run₃, s₄, run₄, same⟩ := session
  cases same
  refine ⟨⟨r₄.1, r₄.2, r₃.1, r₃.2⟩, ?_, sent, first, second⟩
  exact session_of_plays (fun op _ => two_changes a' b' within op _)
    (fun _ _ _ _ => trivial) run₁ _ run₂ unheard run₃ said run₄ heard

/-- The last file grows, and no file is taken for another. -/
theorem sendTasks_separate_grown : ∃ now,
    Session (LastChanges (twoContent [88] [90, 87]) twoTasks) (fun _ _ _ => True)
      (sendTasks plainSync plainAbi 3 false twoTasks) (World.boot (twoFs [88] [90])) plainServer 60
      FileSystem.empty now ∧ now.there.sent = ack ∧
    ∃ items, items.map Item.task = twoTasks ∧
      (∀ item ∈ items, item.offset = 0 ∧
        (item.isFile → item.content = twoContent [88] [90, 87] item.task.srcPath)) ∧
      now.here.sent <+: stream plainServer.abi items ∧
      Serves plainServer items FileSystem.empty now.there := by
  obtain ⟨now, run, sent, -⟩ := @two_session [88] [90] [88] [90, 87] [88] [90] [[47, 98]]
    (· ∉ twoTasks.dropLast) (by decide) (by decide +kernel)
  have small : ∀ path, (twoContent [88] [90, 87] path).length < LARGE_FILE_THRESHOLD := by
    intro path
    unfold twoContent LARGE_FILE_THRESHOLD
    split <;> decide
  exact ⟨now, run, sent, sendTasks_separate small two_carried rfl rfl run⟩

/-- The first file grows by what looks like a header and a byte: that byte becomes the second file,
which always held another, and the server acknowledges. -/
theorem sendTasks_mixed : ∃ now,
    Session (Changes (twoContent ([88] ++ List.replicate 8 0 ++ [89]) [90]) twoTasks fun _ => True)
      (fun _ _ _ => True) (sendTasks plainSync plainAbi 3 false twoTasks)
      (World.boot (twoFs [88] [90])) plainServer 60 FileSystem.empty now ∧
    now.there.sent = ack ∧ now.there.fs.read [47, 114, 47, 98] = some [89] := by
  obtain ⟨now, run, sent, -, stored⟩ := @two_session [88] [90] ([88] ++ List.replicate 8 0 ++ [89])
    [90] [88] [89] [[47, 97]] (fun _ => True) (fun _ _ _ => trivial) (by decide +kernel)
  exact ⟨now, run, sent, stored⟩

end SyncTool
