import SyncTool.PartialFile

set_option autoImplicit false

namespace SyncTool

open SyncTool.Path SyncServer

/-- Nothing fails but the connection. Who reads from it sees its break as an error where it was
reset, and as the end of what arrives where it was closed. -/
def Policy.breaking (reset : Bool) : Policy
  | .send _, _, _ => True
  | .recv count, choice, w => ((Op.recv count).run choice w).1 ≠ if reset then .ok [] else .error
  | .write _ _ _ _, choice, _ => choice.fault ≠ .error
  | op, choice, w => reliable (fun _ => True) op choice w

namespace FileSystem

/-- A file is at a path, or can be made there. -/
def writable (fs : FileSystem) (path : Bytes) : Bool :=
  match fs.resolve path with
  | none => false
  | some p => decide (fs.entry p ≠ some .dir) && decide (∀ name ∈ p, ProperName name)

/-- What the reception of a file goes on behind: nothing, unless as much is there as is said. -/
def begun (fs : FileSystem) (path : Bytes) (offset : Nat) : Bytes :=
  if 0 < offset ∧ fs.lengthOf path = offset then (fs.read path).getD [] else []

variable {fs : FileSystem} {path : Bytes} {offset : Nat}

theorem writable_iff : fs.writable path = true ↔ ∃ p, fs.resolve path = some p ∧
    fs.entry p ≠ some .dir ∧ ∀ name ∈ p, ProperName name := by
  unfold writable
  cases fs.resolve path with
  | none => simp
  | some p => simp

theorem open_of_not_writable (refused : fs.writable path = false) (how : Mode) (create : Bool)
    (perm : UInt32) (time : Int) : fs.open_ path how create perm time = none := by
  cases opened : fs.open_ path how create perm time with
  | none => rfl
  | some fs' =>
      exfalso
      obtain ⟨p, found, notDir, -, -⟩ := open_effect opened
      have proper : ¬ ∀ name ∈ p, ProperName name := by
        intro proper
        have can := writable_iff.mpr ⟨p, found, notDir, proper⟩
        rw [refused] at can
        cases can
      have missing : fs.lookup p = none := by
        cases here : fs.lookup p with
        | none => rfl
        | some node =>
            have exist : fs.entry p ≠ none := by simp [entry, here]
            exact absurd (entry_proper exist) proper
      simp [open_, found, missing, proper] at opened

theorem read_of_not_writable (refused : fs.writable path = false) : fs.read path = none := by
  cases read : fs.read path with
  | none => rfl
  | some content =>
      obtain ⟨p, found, file⟩ := read_eq_some.mp read
      have exist : fs.entry p ≠ none := by simp [file]
      have can := writable_iff.mpr ⟨p, found, by simp [file], entry_proper exist⟩
      rw [refused] at can
      cases can

end FileSystem

/-- How much of what has been delivered is kept: all of it, but for the block that was not complete
when the connection was reset. -/
def settled (reset : Bool) (need delivered : Nat) : Nat :=
  if reset = true ∧ delivered < need then delivered / (64 * 1024) * (64 * 1024) else delivered

section

variable {policy : Policy} {reset : Bool} {stream data : Bytes} {w w₁ : World} {path base : Bytes}
  {p : Path} {need : Nat}

/-- One block: it is complete, or ends where the stream ends, or is lost to a reset. -/
theorem robustRead_breaking (reads : Reads policy True .free stream)
    (breaks : ∀ op choice w, policy op choice w → Policy.breaking reset op choice w)
    {count fuel : Nat} {buffer : Bytes} (short : buffer.length ≤ count)
    (inside : w.received ++ buffer <+: stream) :
    Program.Sat (handler policy True) .free (robustRead count fuel buffer)
      (fun out w' => ∃ data, data.length ≤ count ∧ w.received ++ data <+: stream ∧
        w' = w.got data ∧ ((out = some data ∧ (reset = true → data.length = count)) ∨
          (out = none ∧ reset = true ∧ data.length < count))) (w.got buffer) := by
  induction fuel generalizing buffer with
  | zero => trivial
  | succ fuel ih =>
      simp only [robustRead, Program.ask_bind]
      split
      · next less =>
        refine Program.sat_op.mpr fun w₁ drift choice allowed => ⟨trivial, ?_⟩
        obtain rfl : w.got buffer = w₁ := drift
        have fed := reads.fed _ _ _ allowed
        have break_ := breaks _ _ _ allowed
        rw [Fed] at fed
        change ((Op.recv _).run choice _).1 ≠ _ at break_
        rcases run_recv choice (w.got buffer) (count - buffer.length) with
          ran | ran | ⟨more, small, ran⟩
        · rw [ran]
          exact ih short inside
        · rw [ran] at break_ ⊢
          intro w₂ drift₂
          obtain rfl : w.got buffer = w₂ := drift₂
          cases reset with
          | false => exact absurd rfl break_
          | true => exact ⟨buffer, short, inside, rfl, .inr ⟨rfl, rfl, less⟩⟩
        · rw [ran] at fed break_ ⊢
          show Program.Sat _ _ (if more = [] then _ else _) _ _
          split
          · next ended =>
            subst ended
            rw [World.got_nil]
            intro w₂ drift₂
            obtain rfl : w.got buffer = w₂ := drift₂
            cases reset with
            | false =>
                exact ⟨buffer, short, inside, rfl, .inl ⟨rfl, fun same => absurd same (by simp)⟩⟩
            | true => exact absurd rfl break_
          · rw [World.got_got]
            apply ih
            · rw [List.length_append]
              omega
            · simpa [List.append_assoc] using fed
      · next full =>
        intro w₁ drift
        obtain rfl : w.got buffer = w₁ := drift
        exact ⟨buffer, short, inside, rfl, .inl ⟨rfl, fun _ => by omega⟩⟩

/-- The receive loop: the file grows by what is delivered, in whole blocks if the connection is
reset. -/
theorem receiveBlocks_breaking (reads : Reads policy True .free stream)
    (breaks : ∀ op choice w, policy op choice w → Policy.breaking reset op choice w)
    (streamed : stream = w.received ++ data) (found : w.fs.resolve path = some p)
    (notDir : w.fs.entry p ≠ some .dir) {append : Bool} {pos : Nat} {fileSize received : Int}
    {inner fuel n : Nat} (inside : n ≤ data.length)
    (atEnd : append = true ∨ pos = (base ++ data.take n).length) (within : n ≤ need)
    (left : (fileSize - received).toNat = need - n)
    (blocks : reset = true → n % (64 * 1024) = 0 ∨ n = need)
    (sofar : Stored w p (base ++ data.take n) (data.take n) w₁) :
    Program.Sat (handler policy True) .free
      (receiveBlocks path append fileSize inner fuel received pos)
      (fun _ w' => ∃ m, m ≤ need ∧ m ≤ data.length ∧
        Stored w p (base ++ data.take (settled reset need m)) (data.take m) w') w₁ := by
  induction fuel generalizing received pos n w₁ with
  | zero => trivial
  | succ fuel ih =>
      simp only [receiveBlocks]
      split
      · next more_left =>
        have start : w₁.received ++ [] <+: stream := by
          rw [List.append_nil, sofar.received, streamed]
          exact (List.prefix_append_right_inj _).mpr (List.take_prefix _ _)
        have read := @robustRead_breaking policy reset stream w₁ reads breaks
          (min (64 * 1024) (fileSize - received).toNat) inner [] (Nat.zero_le _) start
        rw [World.got_nil] at read
        apply Program.Sat.bind
        apply read.weaken
        rintro out w₂ ⟨block, less, more, rfl, outcome⟩
        rw [sofar.received, streamed, List.append_assoc] at more
        have whole := take_of_prefix inside more
        have got := sofar.got block
        rw [whole] at got
        have further : n + block.length ≤ data.length := by
          have := congrArg List.length whole
          rw [List.length_append, List.length_take, List.length_take] at this
          omega
        rcases outcome with ⟨rfl, full⟩ | ⟨rfl, broken, part⟩
        · show Program.Sat _ _ (if block = [] then _ else _) _ _
          split
          · next ended =>
            intro w₃ drift
            obtain rfl : w₁.got block = w₃ := drift
            subst ended
            have open_ : reset = false := by
              cases reset with
              | false => rfl
              | true =>
                  have := full rfl
                  rw [List.length_nil] at this
                  omega
            rw [World.got_nil]
            exact ⟨n, within, inside, by rw [settled, open_, if_neg (by simp)]; exact sofar⟩
          · next some_ =>
            have here := (got.dirsKept notDir).resolve found
            have zero : Stored (w₁.got block) p (base ++ data.take n ++ block.take 0) []
                (w₁.got block) := by
              rw [List.take_zero, List.append_nil]
              exact .self got.entry_self
            apply Program.Sat.bind
            apply (writeBuffer_sat trivial (fun _ _ same => Eq.symm same) here got.entry_self atEnd
              (fun _ _ _ _ _ _ _ _ => trivial) (Nat.zero_le _) zero).weaken
            rintro ok w₃ ⟨k, small, written, all, good⟩
            obtain rfl : ok = true := good fun _ _ _ _ _ _ allowed => breaks _ _ _ allowed
            obtain rfl : k = block.length := all rfl
            have now := got.trans written
            rw [List.append_nil, List.take_length, List.append_assoc, whole] at now
            have end_ : append = true ∨ pos + block.length =
                (base ++ data.take (n + block.length)).length := by
              apply atEnd.imp_right
              intro same
              rw [same, List.length_append, List.length_append, List.length_take, List.length_take]
              omega
            apply ih further end_ (by omega) (by omega) _ now
            intro broken
            have := blocks broken
            have := full broken
            omega
        · intro w₃ drift
          obtain rfl : w₁.got block = w₃ := drift
          refine ⟨n + block.length, by omega, further, ?_⟩
          have lost : settled reset need (n + block.length) = n := by
            have := blocks broken
            rw [settled, if_pos ⟨broken, by omega⟩]
            omega
          rw [lost]
          exact got
      · next done =>
        intro w₂ drift
        obtain rfl : w₁ = w₂ := drift
        refine ⟨n, within, inside, ?_⟩
        rw [settled, if_neg (by omega)]
        exact sofar

/-- The path holds `begun` and, behind it, what is kept of the bytes that have come. -/
def Filled (reset : Bool) (stream path begun : Bytes) (fileSize : Nat) (w : World) : Prop :=
  w.received <+: stream ∧ begun.length + w.received.length ≤ fileSize ∧
    (w.fs.read path).getD [] =
      begun ++ stream.take (settled reset (fileSize - begun.length) w.received.length)

/-- An opening that is tried finds the file, or makes it. -/
theorem run_openFd_breaking
    (breaks : ∀ op choice w, policy op choice w → Policy.breaking reset op choice w)
    (proper : ∀ name ∈ p, ProperName name) {how : FileSystem.Mode} {choice : Choice}
    (allowed : policy (.openFd path how true) choice w₁) (found : w₁.fs.resolve path = some p)
    (notDir : w₁.fs.entry p ≠ some .dir) :
    ∃ w₂, (Op.openFd path how true).run choice w₁ = (true, w₂) ∧
      Stored w₁ p (if how = .trunc then [] else (w₁.fs.contentAt p).getD []) [] w₂ := by
  have sound := (breaks _ _ _ allowed).1
  have opened := (run_openFd sound found notDir proper how).1
  rcases run_openFd_any choice w₁ path how true with ran | ⟨q, w₂, foundAgain, -, ran, stored⟩
  · rw [ran] at opened
    cases opened
  · obtain rfl := Option.some.inj (found.symm.trans foundAgain)
    exact ⟨w₂, ran, stored⟩

/-- A file that is open for what is behind `base` is filled. -/
theorem receiveBlocks_filled (reads : Reads policy True .free stream)
    (breaks : ∀ op choice w, policy op choice w → Policy.breaking reset op choice w)
    (deaf : w.received = []) (found : w.fs.resolve path = some p)
    (notDir : w.fs.entry p ≠ some .dir) {append : Bool} {fileSize fuel : Nat}
    (small : base.length ≤ fileSize) (stored : Stored w p base [] w₁) :
    Program.Sat (handler policy True) .free
      (receiveBlocks path append fileSize fuel fuel base.length base.length)
      (fun _ w' => Filled reset stream path base fileSize w') w₁ := by
  have start : Stored w p (base ++ stream.take 0) (stream.take 0) w₁ := by simpa using stored
  have need : ((fileSize : Int) - (base.length : Int)).toNat = fileSize - base.length - 0 := by
    omega
  apply (receiveBlocks_breaking reads breaks (by rw [deaf, List.nil_append]) found notDir
    (Nat.zero_le _) (.inr (by simp)) (Nat.zero_le _) need (fun _ => .inl rfl) start).weaken
  rintro _ w' ⟨m, less, inside, left⟩
  have received : w'.received = stream.take m := by
    rw [left.received, deaf, List.nil_append]
  have length : w'.received.length = m := by
    rw [received, List.length_take, Nat.min_eq_left inside]
  have read : w'.fs.read path = some _ :=
    FileSystem.read_eq_some.mpr ⟨p, (left.dirsKept notDir).resolve found, left.entry_self⟩
  rw [Filled, length, read, received]
  exact ⟨List.take_prefix _ _, by omega, rfl⟩

/-- A file that cannot be opened stays away, and nothing is taken. -/
theorem receiveFileData_refused (deaf : w.received = []) (can : w.fs.writable path = false)
    (fileSize offset : Int) {size fuel : Nat} :
    Program.Sat (handler policy True) .free (receiveFileData fuel path fileSize offset)
      (fun _ w' => Filled reset stream path [] size w') w := by
  simp only [receiveFileData, Program.ask_bind]
  refine Program.sat_op.mpr fun w₀ drift choice _ => ⟨trivial, ?_⟩
  obtain rfl : w = w₀ := drift
  have refused : ∀ how, (Op.openFd path how true).run choice w = (false, w) := by
    intro how
    simp [Op.run, World.attempt, FileSystem.open_of_not_writable can]
  rw [refused]
  intro w₁ drift₁
  obtain rfl : w = w₁ := drift₁
  rw [Filled, deaf, FileSystem.read_of_not_writable can]
  exact ⟨List.nil_prefix, Nat.zero_le _, by simp [settled]⟩

/-- What the reception of a file leaves at the path, and what it has taken for that. -/
theorem receiveFileData_breaking (reads : Reads policy True .free stream)
    (breaks : ∀ op choice w, policy op choice w → Policy.breaking reset op choice w)
    (deaf : w.received = []) {fileSize offset fuel : Nat} (within : offset ≤ fileSize) :
    Program.Sat (handler policy True) .free (receiveFileData fuel path fileSize offset)
      (fun _ w' => Filled reset stream path (w.fs.begun path offset) fileSize w') w := by
  cases can : w.fs.writable path with
  | false =>
      have nothing : w.fs.begun path offset = [] := by
        simp [FileSystem.begun, FileSystem.lengthOf, FileSystem.read_of_not_writable can]
      rw [nothing]
      exact receiveFileData_refused deaf can _ _
  | true =>
      obtain ⟨p, found, notDir, proper⟩ := FileSystem.writable_iff.mp can
      simp only [receiveFileData, Program.ask_bind]
      refine Program.sat_op.mpr fun w₀ drift choice allowed => ⟨trivial, ?_⟩
      obtain rfl : w = w₀ := drift
      obtain ⟨w₁, ran, stored⟩ := run_openFd_breaking breaks proper allowed found notDir
      rw [ran]
      simp only [Bool.not_true, Bool.false_eq_true, ↓reduceIte]
      by_cases positive : 0 < offset
      · have positive' : (0 : Int) < offset := by exact_mod_cast positive
        simp only [positive', ↓reduceIte, reduceCtorEq] at stored ⊢
        refine Program.sat_op.mpr fun w₂ drift₂ choice₂ _ => ⟨trivial, ?_⟩
        obtain rfl : w₁ = w₂ := drift₂
        have here := (stored.dirsKept notDir).resolve found
        have now : w₁.fs.read path = some ((w.fs.contentAt p).getD []) :=
          FileSystem.read_eq_some.mpr ⟨p, here, stored.entry_self⟩
        have before : w.fs.read path = w.fs.contentAt p := by
          rw [FileSystem.read, found]
          rfl
        have size : ((Op.lseekEnd path).run choice₂ w₁).1 = w.fs.lengthOf path := by
          simp only [Op.run, now, Option.getD_some, FileSystem.lengthOf, before]
        have same_ : ((Op.lseekEnd path).run choice₂ w₁).2 = w₁ := rfl
        rw [size, same_]
        show Program.Sat _ _ (if (w.fs.lengthOf path : Int) ≠ (offset : Int) then _ else _) _ _
        split
        · next other =>
          have nothing : w.fs.begun path offset = [] := by
            rw [FileSystem.begun, if_neg (by omega)]
          refine Program.sat_op.mpr fun w₃ drift₃ choice₃ allowed₃ => ⟨trivial, ?_⟩
          obtain rfl : w₁ = w₃ := drift₃
          obtain ⟨w₄, ran₄, stored₄⟩ :=
            run_openFd_breaking breaks proper allowed₃ here (by simp [stored.entry_self])
          rw [ran₄, nothing]
          exact receiveBlocks_filled reads breaks deaf found notDir (Nat.zero_le _)
            (stored.trans stored₄)
        · next same =>
          have same' : w.fs.lengthOf path = offset := by omega
          have all : w.fs.begun path offset = (w.fs.contentAt p).getD [] := by
            rw [FileSystem.begun, if_pos ⟨positive, same'⟩, before]
          have length : ((w.fs.contentAt p).getD []).length = offset := by
            rw [← before]
            exact same'
          have rest := @receiveBlocks_filled _ _ _ _ _ _ _ _ reads breaks deaf found notDir true
            fileSize fuel (by omega) stored
          rw [length] at rest
          rw [same', all]
          exact rest
      · obtain rfl : offset = 0 := by omega
        have nothing : w.fs.begun path 0 = [] := by simp [FileSystem.begun]
        simp only [Int.natCast_zero, Int.lt_irrefl, ↓reduceIte] at stored ⊢
        rw [nothing]
        exact receiveBlocks_filled reads breaks deaf found notDir (Nat.zero_le _) stored

end

end SyncTool
