import SyncTool.Connection
import SyncTool.MachineEffects

set_option autoImplicit false

namespace SyncTool

open SyncTool.Path

/-- Nothing differs but that there is a file with `content` at `p`, and that `data` was read. -/
structure Stored (w : World) (p : Path) (content data : Bytes) (w' : World) : Prop where
  cwd : w'.fs.cwd = w.fs.cwd
  tree : w'.fs.entry = Function.update w.fs.entry p (some (.file content))
  rest : w' = { w with fs := w'.fs, received := w.received ++ data }

namespace Stored

variable {w w₁ w₂ : World} {p : Path} {content content' data data' : Bytes}

theorem entry_self (stored : Stored w p content data w₁) :
    w₁.fs.entry p = some (.file content) := by
  rw [stored.tree, Function.update_self]

theorem contentAt_self (stored : Stored w p content data w₁) : w₁.fs.contentAt p = some content :=
  FileSystem.contentAt_eq_some.mpr stored.entry_self

theorem contentAt_ne (stored : Stored w p content data w₁) {q : Path} (other : q ≠ p) :
    w₁.fs.contentAt q = w.fs.contentAt q := by
  simp only [FileSystem.contentAt, stored.tree, Function.update_of_ne other]

theorem dirsKept (stored : Stored w p content data w₁) (notDir : w.fs.entry p ≠ some .dir) :
    FileSystem.DirsKept w.fs w₁.fs :=
  FileSystem.dirsKept_of_update stored.cwd stored.tree fun isDir => absurd isDir notDir

theorem received (stored : Stored w p content data w₁) : w₁.received = w.received ++ data := by
  rw [stored.rest]

theorem sent (stored : Stored w p content data w₁) : w₁.sent = w.sent := by
  rw [stored.rest]

theorem accepted (stored : Stored w p content data w₁) : w₁.accepted = w.accepted := by
  rw [stored.rest]

theorem processedTasks (stored : Stored w p content data w₁) :
    w₁.processedTasks = w.processedTasks := by
  rw [stored.rest]

theorem trans (first : Stored w p content data w₁) (second : Stored w₁ p content' data' w₂) :
    Stored w p content' (data ++ data') w₂ where
  cwd := second.cwd.trans first.cwd
  tree := by rw [second.tree, first.tree, Function.update_idem]
  rest := by
    have last := second.rest
    rw [first.rest] at last
    rw [last]
    simp

theorem got (stored : Stored w p content data w₁) (more : Bytes) :
    Stored w p content (data ++ more) (w₁.got more) where
  cwd := stored.cwd
  tree := stored.tree
  rest := by
    have first := stored.rest
    rw [first]
    simp [World.got]

/-- A file is where it is. -/
theorem self (file : w.fs.entry p = some (.file content)) : Stored w p content [] w where
  cwd := rfl
  tree := by rw [← file, Function.update_eq_self]
  rest := by simp

end Stored

section

variable {policy : Policy} {spins : Prop} {I : Interference World} {stream : Bytes}
  {w w₁ : World} {path content : Bytes} {p : Path} {choice : Choice}

/-- No write fails. -/
def Policy.Writes (policy : Policy) : Prop :=
  ∀ path append pos data choice w, policy (.write path append pos data) choice w →
    choice.fault ≠ .error

theorem Policy.Sturdy.writes (sturdy : policy.Sturdy) : policy.Writes :=
  fun _ _ _ _ _ _ allowed => sturdy _ _ _ allowed

/-- Writing at the end of a file, wherever the descriptor takes that to be. -/
theorem run_write (found : w.fs.resolve path = some p)
    (file : w.fs.entry p = some (.file content)) {append : Bool} {pos : Nat}
    (atEnd : append = true ∨ pos = content.length) (data : Bytes) :
    (Op.write path append pos data).run choice w = (.eintr, w) ∨
      (choice.fault = .error ∧ (Op.write path append pos data).run choice w = (.error, w)) ∨
      ∃ n w', n ≤ data.length ∧ (Op.write path append pos data).run choice w = (.ok n, w') ∧
        Stored w p (content ++ data.take n) [] w' := by
  simp only [Op.run]
  have after : ∀ part : Bytes, (if append then content ++ part else World.splice content pos part) =
      content ++ part := by
    intro part
    cases append with
    | true => rfl
    | false =>
        have here : pos = content.length := atEnd.resolve_left (by simp)
        simp [World.splice, here]
  cases choice.fault with
  | eintr => exact .inl rfl
  | error => exact .inr (.inl ⟨rfl, rfl⟩)
  | none =>
      right
      right
      have through := choice.limit_le data.length
      obtain ⟨fs, edited⟩ := Option.isSome_iff_exists.mp (FileSystem.edit_of_file found file
        (fun content : Bytes =>
          if append then content ++ data.take (choice.limit data.length)
          else World.splice content pos (data.take (choice.limit data.length))) choice.time)
      obtain ⟨q, old, foundAgain, here, cwd, tree⟩ := FileSystem.edit_effect edited
      obtain rfl := Option.some.inj (found.symm.trans foundAgain)
      obtain rfl : content = old := by simpa [file] using here
      refine ⟨choice.limit data.length, { w with fs := fs }, through, ?_, cwd, ?_, by simp⟩
      · rw [edited]
      · rw [tree, after]

/-- The file may be made longer, by what comes next in the stream and has been read. -/
def MayFile (I : Interference World) (w : World) (p : Path) (base data : Bytes) (need : Nat) :
    Prop :=
  ∀ n m n' m' w₁ w₂, n ≤ n' → m ≤ m' → n' ≤ m' → m' ≤ need →
    Stored w p (base ++ data.take n) (data.take m) w₁ →
    Stored w p (base ++ data.take n') (data.take m') w₂ → I.guar w₁ w₂

theorem writeBuffer_sat (loops : spins) (still : ∀ w w', I.rely w w' → w' = w)
    (found : w.fs.resolve path = some p) (file : w.fs.entry p = some (.file content))
    {append : Bool} {pos : Nat} (atEnd : append = true ∨ pos = content.length) {buffer : Bytes}
    (may : ∀ n n' w₁ w₂, n ≤ n' → n' ≤ buffer.length →
      Stored w p (content ++ buffer.take n) [] w₁ →
      Stored w p (content ++ buffer.take n') [] w₂ → I.guar w₁ w₂)
    {fuel written : Nat} (short : written ≤ buffer.length)
    (sofar : Stored w p (content ++ buffer.take written) [] w₁) :
    Program.Sat (handler policy spins) I
      (SyncServer.writeBuffer path append pos buffer fuel written)
      (fun ok w' => ∃ n, n ≤ buffer.length ∧ Stored w p (content ++ buffer.take n) [] w' ∧
        (ok = true → n = buffer.length) ∧ (policy.Writes → ok = true)) w₁ := by
  induction fuel generalizing written w₁ with
  | zero => exact loops
  | succ fuel ih =>
      simp only [SyncServer.writeBuffer, Program.ask_bind]
      split
      · have notDir : w.fs.entry p ≠ some .dir := by simp [file]
        have here := (sofar.dirsKept notDir).resolve found
        have end_ : append = true ∨ pos + written = (content ++ buffer.take written).length := by
          apply atEnd.imp_right
          intro same
          rw [List.length_append, List.length_take, Nat.min_eq_left short, same]
        refine Program.sat_op.mpr fun w₂ drift choice allowed => ?_
        obtain rfl := still _ _ drift
        rcases @run_write w₂ path _ p choice here sofar.entry_self append _ end_
          (buffer.drop written) with ran | ⟨fault, ran⟩ | ⟨n, w₃, less, ran, more⟩
        · rw [ran]
          exact ⟨I.guar_refl _, ih short sofar⟩
        · rw [ran]
          refine ⟨I.guar_refl _, ?_⟩
          intro w₃ drift'
          obtain rfl := still _ _ drift'
          exact ⟨written, short, sofar, by simp, fun writes =>
            absurd fault (writes _ _ _ _ _ _ allowed)⟩
        · rw [ran]
          rw [List.length_drop] at less
          have longer : Stored w p (content ++ buffer.take (written + n)) [] w₃ := by
            have both := sofar.trans more
            rwa [List.append_assoc, ← List.take_add] at both
          exact ⟨may _ _ _ _ (Nat.le_add_right _ _) (by omega) sofar longer,
            ih (by omega) longer⟩
      · intro w₂ drift
        obtain rfl := still _ _ drift
        exact ⟨written, short, sofar, fun _ => by omega, fun _ => rfl⟩

/-- What reading more of the stream yields. -/
theorem take_of_prefix {sofar data more : Bytes} {n : Nat} (short : n ≤ data.length)
    (inside : sofar ++ (data.take n ++ more) <+: sofar ++ data) :
    data.take n ++ more = data.take (n + more.length) := by
  have within := (List.prefix_append_right_inj sofar).mp inside
  have whole := List.prefix_iff_eq_take.mp within
  rw [List.length_append, List.length_take, Nat.min_eq_left short] at whole
  exact whole

section

variable {base data : Bytes} {need : Nat}

/-- Reading for a block, in the middle of a file. -/
theorem MayFile.mayTake (may : MayFile I w p base data need) {n : Nat}
    (streamed : stream = w.received ++ data) (inside : n ≤ data.length)
    (sofar : Stored w p (base ++ data.take n) (data.take n) w₁) :
    MayTake I stream w₁ (need - n) := by
  intro first second short within
  by_cases nothing : first ++ second = []
  · obtain ⟨rfl, rfl⟩ := List.append_eq_nil_iff.mp nothing
    simpa using I.guar_refl _
  · have positive : 0 < (first ++ second).length := List.length_pos_of_ne_nil nothing
    rw [sofar.received, streamed, List.append_assoc] at within
    have whole := take_of_prefix inside within
    have shorter : w.received ++ (data.take n ++ first) <+:
        w.received ++ (data.take n ++ (first ++ second)) := ⟨second, by simp [List.append_assoc]⟩
    have part := take_of_prefix inside (shorter.trans within)
    have got₁ := sofar.got first
    have got₂ := sofar.got (first ++ second)
    rw [part] at got₁
    rw [whole] at got₂
    have total : (first ++ second).length = first.length + second.length := List.length_append
    exact may n _ n _ _ _ (le_refl n) (by omega) (by omega) (by omega) got₁ got₂

/-- The receive loop: the file grows by what the stream brings. -/
theorem receiveBlocks_sat (reads : Reads policy spins I stream)
    (streamed : stream = w.received ++ data) (found : w.fs.resolve path = some p)
    (notDir : w.fs.entry p ≠ some .dir) {append : Bool} {pos : Nat} {fileSize received : Int}
    (may : MayFile I w p base data need) {inner fuel n : Nat} (inside : n ≤ data.length)
    (atEnd : append = true ∨ pos = (base ++ data.take n).length) (within : n ≤ need)
    (left : (fileSize - received).toNat = need - n)
    (sofar : Stored w p (base ++ data.take n) (data.take n) w₁) :
    Program.Sat (handler policy spins) I
      (SyncServer.receiveBlocks path append fileSize inner fuel received pos)
      (fun ok w' => ∃ n m, n ≤ m ∧ m ≤ need ∧ Stored w p (base ++ data.take n) (data.take m) w' ∧
        (ok = true → n = need ∧ m = need ∧ need ≤ data.length) ∧ (policy.Sturdy → n = m)) w₁ := by
  induction fuel generalizing received pos n w₁ with
  | zero => exact reads.spins
  | succ fuel ih =>
      simp only [SyncServer.receiveBlocks]
      split
      · apply Program.Sat.bind
        have most : min (64 * 1024) (fileSize - received).toNat ≤ need - n := by omega
        have none_yet : ([] : Bytes).length ≤ min (64 * 1024) (fileSize - received).toNat :=
          Nat.zero_le _
        have start : w₁.received ++ [] <+: stream := by
          rw [List.append_nil, sofar.received, streamed]
          exact (List.prefix_append_right_inj _).mpr (List.take_prefix _ _)
        have read := @robustRead_sat _ _ _ _ _ reads _ inner _
          ((may.mayTake streamed inside sofar).mono most) none_yet start
        rw [World.got_nil] at read
        apply read.weaken
        rintro out w₂ ⟨block, less, more, rfl, same, heard⟩
        rw [sofar.received, streamed, List.append_assoc] at more
        have whole := take_of_prefix inside more
        have got := sofar.got block
        rw [whole] at got
        have further : n + block.length ≤ data.length := by
          have := congrArg List.length whole
          rw [List.length_append, List.length_take, List.length_take] at this
          omega
        have stop : (policy.Sturdy → block = []) →
            Program.Sat (handler policy spins) I (.done false)
            (fun ok w' => ∃ n m, n ≤ m ∧ m ≤ need ∧
              Stored w p (base ++ data.take n) (data.take m) w' ∧
              (ok = true → n = need ∧ m = need ∧ need ≤ data.length) ∧ (policy.Sturdy → n = m))
            (w₁.got block) := by
          intro lost w₃ drift
          obtain rfl := reads.still _ _ drift
          exact ⟨n, _, Nat.le_add_right _ _, by omega, got, by simp, fun sturdy => by
            rw [lost sturdy]; rfl⟩
        cases out with
        | none => exact stop fun sturdy => absurd rfl (heard sturdy)
        | some bytes =>
            obtain rfl := same bytes rfl
            show Program.Sat _ _ (if bytes = [] then _ else _) _ _
            split
            · next ended => exact stop fun _ => ended
            · apply Program.Sat.bind
              have part : ∀ k, k ≤ bytes.length →
                  base ++ data.take n ++ bytes.take k = base ++ data.take (n + k) := by
                intro k small
                have cut := congrArg (List.take (n + k)) whole
                rw [List.take_take, Nat.min_eq_left (by omega)] at cut
                have front : (data.take n).length = n := by
                  rw [List.length_take, Nat.min_eq_left inside]
                have both : (data.take n ++ bytes).take ((data.take n).length + k) =
                    data.take n ++ bytes.take k := List.take_length_add_append k
                rw [front, cut] at both
                rw [List.append_assoc, both]
              have here := (got.dirsKept notDir).resolve found
              have step : ∀ k k' w₃ w₄, k ≤ k' → k' ≤ bytes.length →
                  Stored (w₁.got bytes) p (base ++ data.take n ++ bytes.take k) [] w₃ →
                  Stored (w₁.got bytes) p (base ++ data.take n ++ bytes.take k') [] w₄ →
                  I.guar w₃ w₄ := by
                intro k k' w₃ w₄ le small first second
                have first' := got.trans first
                have second' := got.trans second
                rw [List.append_nil, part k (by omega)] at first'
                rw [List.append_nil, part k' small] at second'
                exact may _ _ _ _ _ _ (by omega) (le_refl _) (by omega) (by omega) first' second'
              have zero : Stored (w₁.got bytes) p (base ++ data.take n ++ bytes.take 0) []
                  (w₁.got bytes) := by
                rw [List.take_zero, List.append_nil]
                exact .self got.entry_self
              apply (writeBuffer_sat reads.spins reads.still here got.entry_self atEnd step
                (Nat.zero_le _) zero).weaken
              rintro ok w₃ ⟨k, small, written, all, good⟩
              have now := got.trans written
              rw [List.append_nil, part k small] at now
              cases ok with
              | false =>
                  intro w₄ drift
                  obtain rfl := reads.still _ _ drift
                  exact ⟨_, _, by omega, by omega, now, by simp,
                    fun sturdy => by cases good sturdy.writes⟩
              | true =>
                  obtain rfl := all rfl
                  have end_ : append = true ∨ pos + bytes.length =
                      (base ++ data.take (n + bytes.length)).length := by
                    apply atEnd.imp_right
                    intro same
                    rw [same, List.length_append, List.length_append, List.length_take,
                      List.length_take]
                    omega
                  exact ih further end_ (by omega) (by omega) now
      · intro w₂ drift
        obtain rfl := reads.still _ _ drift
        exact ⟨n, n, le_refl n, within, sofar, fun _ => by omega, fun _ => rfl⟩

theorem run_openFd_any (choice : Choice) (w : World) (path : Bytes) (how : FileSystem.Mode)
    (create : Bool) :
    (Op.openFd path how create).run choice w = (false, w) ∨
      ∃ p w', w.fs.resolve path = some p ∧ w.fs.entry p ≠ some .dir ∧
        (Op.openFd path how create).run choice w = (true, w') ∧
        Stored w p (if how = .trunc then [] else (w.fs.contentAt p).getD []) [] w' := by
  simp only [Op.run, World.attempt]
  split
  · split
    · next fs opened =>
        obtain ⟨p, found, notDir, cwd, tree⟩ := FileSystem.open_effect opened
        exact .inr ⟨p, { w with fs := fs }, found, notDir, rfl, cwd, tree, by simp⟩
    · exact .inl rfl
  · exact .inl rfl

/-- What a file's reception starts from: nothing, or what it is to go on behind. -/
def startOf (w : World) (p : Path) (offset : Nat) : Bytes :=
  if 0 < offset then (w.fs.contentAt p).getD [] else []

/-- The file could not be opened. -/
def Refused (policy : Policy) (w : World) (path : Bytes) : Prop :=
  ∃ how choice, policy (.openFd path how true) choice w ∧
    ((Op.openFd path how true).run choice w).1 = false

/-- The reception of one file. A file that is resumed has the length that is resumed at. -/
theorem receiveFileData_sat (reads : Reads policy spins I stream)
    (streamed : stream = w.received ++ data) {fileSize : Int} {offset fuel : Nat}
    (place_eq : p = place w.fs.cwd path) (size : need = (fileSize - offset).toNat)
    (matched : 0 < offset → (startOf w p offset).length = offset)
    (mayOpen : ∀ w₁, w.fs.resolve path = some p → w.fs.entry p ≠ some .dir →
      Stored w p (startOf w p offset) [] w₁ → I.guar w w₁)
    (may : (startOf w p offset).length = offset → MayFile I w p (startOf w p offset) data need) :
    Program.Sat (handler policy spins) I
      (SyncServer.receiveFileData fuel path fileSize offset)
      (fun ok w' => (ok = false ∧ w' = w ∧ Refused policy w path) ∨
        w.fs.resolve path = some p ∧ w.fs.entry p ≠ some .dir ∧
        (startOf w p offset).length = offset ∧
        ∃ n m, n ≤ m ∧ m ≤ need ∧ Stored w p (startOf w p offset ++ data.take n) (data.take m) w' ∧
          (ok = true → n = need ∧ m = need ∧ need ≤ data.length) ∧ (policy.Sturdy → n = m)) w := by
  simp only [SyncServer.receiveFileData, Program.ask_bind]
  refine Program.sat_op.mpr fun w₀ drift choice allowed => ?_
  obtain rfl := reads.still _ _ drift
  rcases run_openFd_any choice w₀ path (if (0 : Int) < offset then .append else .trunc) true with
    ran | ⟨q, w₁, found, notDir, ran, opened⟩
  · rw [ran]
    refine ⟨I.guar_refl _, ?_⟩
    intro w₁ drift'
    obtain rfl := reads.still _ _ drift'
    exact .inl ⟨rfl, rfl, _, _, allowed, by rw [ran]⟩
  · obtain rfl : q = p := (FileSystem.resolve_eq_place found).trans place_eq.symm
    rw [ran]
    have fresh :
        (if (if (0 : Int) < offset then FileSystem.Mode.append else .trunc) = .trunc then []
        else (w₀.fs.contentAt q).getD []) = startOf w₀ q offset := by
      by_cases positive : 0 < offset
      · simp [startOf, positive]
      · simp [startOf, positive]
    rw [fresh] at opened
    refine ⟨mayOpen _ found notDir opened, ?_⟩
    have start : Stored w₀ q (startOf w₀ q offset ++ data.take 0) (data.take 0) w₁ := by
      simpa using opened
    have receive : ∀ append : Bool, (startOf w₀ q offset).length = offset →
        Program.Sat (handler policy spins) I
          (SyncServer.receiveBlocks path append fileSize fuel fuel offset offset)
          (fun ok w' => (ok = false ∧ w' = w₀ ∧ Refused policy w₀ path) ∨
            w₀.fs.resolve path = some q ∧ w₀.fs.entry q ≠ some .dir ∧
            (startOf w₀ q offset).length = offset ∧
            ∃ n m, n ≤ m ∧ m ≤ need ∧
              Stored w₀ q (startOf w₀ q offset ++ data.take n) (data.take m) w' ∧
              (ok = true → n = need ∧ m = need ∧ need ≤ data.length) ∧ (policy.Sturdy → n = m))
          w₁ := by
      intro append length
      have end_ : append = true ∨ offset = (startOf w₀ q offset ++ data.take 0).length :=
        .inr (by simp [length])
      apply (receiveBlocks_sat reads streamed found notDir (may length) (Nat.zero_le _) end_
        (Nat.zero_le _) (by rw [size, Nat.sub_zero]) start).weaken
      intro ok w' outcome
      exact .inr ⟨found, notDir, length, outcome⟩
    by_cases positive : 0 < offset
    · have positive' : (0 : Int) < offset := by exact_mod_cast positive
      simp only [Bool.not_true, Bool.false_eq_true, ↓reduceIte, positive']
      refine Program.sat_op.mpr fun w₂ drift' choice _ => ?_
      obtain rfl := reads.still _ _ drift'
      refine ⟨I.guar_refl _, ?_⟩
      have here := (opened.dirsKept notDir).resolve found
      have now : w₂.fs.read path = some (startOf w₀ q offset) :=
        FileSystem.read_eq_some.mpr ⟨q, here, opened.entry_self⟩
      have length := matched positive
      have answer : ((Op.lseekEnd path).run choice w₂).1 = offset := by
        simp only [Op.run, now, Option.getD_some]
        exact length
      rw [answer]
      simp only [ne_eq, not_true_eq_false, ↓reduceIte]
      exact receive true length
    · obtain rfl : offset = 0 := by omega
      have block := receive false (by simp [startOf])
      simpa [startOf] using block

end

end

end SyncTool
