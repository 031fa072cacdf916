import SyncTool.SyncServer

set_option autoImplicit false

namespace SyncTool

/-- After more of the stream has been delivered. -/
def World.got (w : World) (data : Bytes) : World := { w with received := w.received ++ data }

namespace World

@[simp] theorem got_nil (w : World) : w.got [] = w := by simp [got]

@[simp] theorem got_got (w : World) (first second : Bytes) :
    (w.got first).got second = w.got (first ++ second) := by
  simp [got, List.append_assoc]

@[simp] theorem got_received (w : World) (data : Bytes) :
    (w.got data).received = w.received ++ data := rfl

@[simp] theorem got_fs (w : World) (data : Bytes) : (w.got data).fs = w.fs := rfl

@[simp] theorem got_sent (w : World) (data : Bytes) : (w.got data).sent = w.sent := rfl

@[simp] theorem got_accepted (w : World) (data : Bytes) : (w.got data).accepted = w.accepted := rfl

@[simp] theorem got_processedTasks (w : World) (data : Bytes) :
    (w.got data).processedTasks = w.processedTasks := rfl

end World

/-- After the connection has taken more. -/
def World.said (w : World) (data : Bytes) : World := { w with sent := w.sent ++ data }

/-- The stream that is delivered is `stream`, or as much of it as ever arrives. -/
def Fed (stream : Bytes) : Policy := fun op choice w => (op.run choice w).2.received <+: stream

/-- Nothing fails but the connection, and the end of what arrives is all that is seen of that. -/
def Policy.sturdy : Policy
  | .send _, _, _ => True
  | .recv _, choice, _ | .write _ _ _ _, choice, _ => choice.fault ≠ .error
  | op, choice, w => reliable (fun _ => True) op choice w

/-- Only outcomes that a sturdy machine shows are considered. -/
def Policy.Sturdy (policy : Policy) : Prop :=
  ∀ op choice w, policy op choice w → sturdy op choice w

theorem run_recv (choice : Choice) (w : World) (count : Nat) :
    (Op.recv count).run choice w = (.eintr, w) ∨ (Op.recv count).run choice w = (.error, w) ∨
      ∃ data, data.length ≤ count ∧ (Op.recv count).run choice w = (.ok data, w.got data) := by
  simp only [Op.run]
  cases choice.fault with
  | none => exact .inr (.inr ⟨_, List.length_take_le _ _, rfl⟩)
  | eintr => exact .inl rfl
  | error => exact .inr (.inl rfl)

theorem run_recv_error {choice : Choice} {w w' : World} {count : Nat}
    (ran : (Op.recv count).run choice w = (.error, w')) : choice.fault = .error := by
  simp only [Op.run] at ran
  cases fault : choice.fault with
  | none => simp [fault] at ran
  | eintr => simp [fault] at ran
  | error => rfl

section

variable {policy : Policy} {spins : Prop} {I : Interference World} {stream : Bytes} {w : World}

/-- A party that runs alone, reads from `stream`, and may stop for as long as it likes. -/
structure Reads (policy : Policy) (spins : Prop) (I : Interference World) (stream : Bytes) :
    Prop where
  fed : ∀ op choice w, policy op choice w → Fed stream op choice w
  still : ∀ w w', I.rely w w' → w' = w
  spins : spins

/-- Up to `size` more bytes may be taken at any time. -/
def MayTake (I : Interference World) (stream : Bytes) (w : World) (size : Nat) : Prop :=
  ∀ first second, (first ++ second).length ≤ size → w.received ++ (first ++ second) <+: stream →
    I.guar (w.got first) (w.got (first ++ second))

theorem MayTake.shift {size : Nat} {taken : Bytes} (may : MayTake I stream w size) :
    MayTake I stream (w.got taken) (size - taken.length) := by
  intro first second short inside
  rw [World.got_got, World.got_got, ← List.append_assoc]
  by_cases empty : first ++ second = []
  · obtain ⟨rfl, rfl⟩ := List.append_eq_nil_iff.mp empty
    simpa using I.guar_refl _
  · have positive : 0 < (first ++ second).length := List.length_pos_of_ne_nil empty
    apply may
    · rw [List.append_assoc, List.length_append]
      omega
    · simpa [List.append_assoc] using inside

theorem MayTake.mono {size less : Nat} (may : MayTake I stream w size) (le : less ≤ size) :
    MayTake I stream w less :=
  fun first second short inside => may first second (short.trans le) inside

/-- What one `recv` does to the stream. -/
theorem recv_sat (reads : Reads policy spins I stream) {α : Type} {count : Nat}
    {next : Io Bytes → Prog α} {Q : α → World → Prop} (may : MayTake I stream w count)
    (failed : ¬ policy.Sturdy → Program.Sat (handler policy spins) I (next .error) Q w)
    (again : Program.Sat (handler policy spins) I (next .eintr) Q w)
    (some : ∀ data, data.length ≤ count → w.received ++ data <+: stream →
      Program.Sat (handler policy spins) I (next (.ok data)) Q (w.got data)) :
    Program.Sat (handler policy spins) I (.call (.recv count) next) Q w := by
  refine Program.sat_op.mpr fun w' drift choice allowed => ?_
  obtain rfl := reads.still _ _ drift
  have fed := reads.fed _ _ _ allowed
  rw [Fed] at fed
  rcases run_recv choice w' count with ran | ran | ⟨data, short, ran⟩
  · rw [ran]
    exact ⟨I.guar_refl _, again⟩
  · have broken : ¬ policy.Sturdy := fun sturdy => sturdy _ _ _ allowed (run_recv_error ran)
    rw [ran]
    exact ⟨I.guar_refl _, failed broken⟩
  · rw [ran] at fed ⊢
    refine ⟨?_, some data short fed⟩
    have step := may [] data (by simpa using short) (by simpa using fed)
    rwa [World.got_nil] at step

theorem robustRead_sat (reads : Reads policy spins I stream) {count fuel : Nat} {buffer : Bytes}
    (may : MayTake I stream w count) (short : buffer.length ≤ count)
    (inside : w.received ++ buffer <+: stream) :
    Program.Sat (handler policy spins) I (robustRead count fuel buffer)
      (fun out w' => ∃ data, data.length ≤ count ∧ w.received ++ data <+: stream ∧
        w' = w.got data ∧ (∀ bytes, out = some bytes → bytes = data) ∧
        (policy.Sturdy → out ≠ none)) (w.got buffer) := by
  induction fuel generalizing buffer with
  | zero => exact reads.spins
  | succ fuel ih =>
      simp only [robustRead, Program.ask_bind]
      split
      · have stop : ∀ out : Option Bytes, (∀ bytes, out = some bytes → bytes = buffer) →
            (policy.Sturdy → out ≠ none) →
            Program.Sat (handler policy spins) I (.done out)
              (fun out w' => ∃ data, data.length ≤ count ∧ w.received ++ data <+: stream ∧
                w' = w.got data ∧ (∀ bytes, out = some bytes → bytes = data) ∧
                (policy.Sturdy → out ≠ none)) (w.got buffer) := by
          intro out same whole w' drift
          exact ⟨buffer, short, inside, reads.still _ _ drift, same, whole⟩
        refine recv_sat reads may.shift (fun broken => stop _ (by simp) fun sturdy =>
          absurd sturdy broken) (ih short inside) ?_
        intro data less more
        have more' : w.received ++ (buffer ++ data) <+: stream := by
          simpa [List.append_assoc] using more
        show Program.Sat _ _ (if data = [] then _ else _) _ _
        split
        · next ended =>
            rw [ended, World.got_nil]
            exact stop _ (by simp) fun _ => by simp
        · rw [World.got_got]
          apply ih _ more'
          rw [List.length_append]
          omega
      · intro w' drift
        exact ⟨buffer, short, inside, reads.still _ _ drift, by simp, fun _ => by simp⟩

theorem receiveRest_sat (reads : Reads policy spins I stream) {size inner fuel : Nat}
    {buffer : Bytes} (may : MayTake I stream w size) (short : buffer.length ≤ size)
    (inside : w.received ++ buffer <+: stream) :
    Program.Sat (handler policy spins) I (receiveRest size inner fuel buffer)
      (fun out w' => ∃ data, data.length ≤ size ∧ w.received ++ data <+: stream ∧
        w' = w.got data ∧ ∀ bytes, out = some bytes → bytes = data ∧ data.length = size)
      (w.got buffer) := by
  induction fuel generalizing buffer with
  | zero => exact reads.spins
  | succ fuel ih =>
      simp only [receiveRest]
      split
      · apply Program.Sat.bind
        have start : (w.got buffer).received ++ [] <+: stream := by simpa using inside
        have none_yet : ([] : Bytes).length ≤ size - buffer.length := Nat.zero_le _
        have read := @robustRead_sat _ _ _ _ _ reads _ inner _ may.shift none_yet start
        rw [World.got_nil] at read
        apply read.weaken
        rintro out w' ⟨data, less, more, rfl, same, -⟩
        have more' : w.received ++ (buffer ++ data) <+: stream := by
          simpa [List.append_assoc] using more
        have short' : (buffer ++ data).length ≤ size := by
          rw [List.length_append]
          omega
        have stop : Program.Sat (handler policy spins) I (.done none)
            (fun out w' => ∃ data, data.length ≤ size ∧ w.received ++ data <+: stream ∧
              w' = w.got data ∧ ∀ bytes, out = some bytes → bytes = data ∧ data.length = size)
            ((w.got buffer).got data) := by
          intro w'' drift
          refine ⟨buffer ++ data, short', more', ?_, by simp⟩
          rw [reads.still _ _ drift, World.got_got]
        cases out with
        | none => exact stop
        | some bytes =>
            obtain rfl := same bytes rfl
            show Program.Sat _ _ (if bytes = [] then _ else _) _ _
            split
            · exact stop
            · rw [World.got_got]
              exact ih short' more'
      · intro w' drift
        refine ⟨buffer, short, inside, reads.still _ _ drift, ?_⟩
        intro bytes same
        exact ⟨(Option.some.inj same).symm, by omega⟩

/-- A read of the size of what comes next gets just that. -/
theorem receiveBytes_sat (reads : Reads policy spins I stream) {fuel : Nat} {expected : Bytes}
    (may : MayTake I stream w expected.length) (next : w.received ++ expected <+: stream) :
    Program.Sat (handler policy spins) I (receiveBytes fuel expected.length)
      (fun out w' => ∃ data, w' = w.got data ∧
        ∀ bytes, out = some bytes → bytes = expected ∧ data = expected) w := by
  have start : w.received ++ [] <+: stream := by
    rw [List.append_nil]
    exact (List.prefix_append _ _).trans next
  have none_yet : ([] : Bytes).length ≤ expected.length := Nat.zero_le _
  have read := @receiveRest_sat _ _ _ _ _ reads _ fuel fuel _ may none_yet start
  rw [World.got_nil] at read
  apply read.weaken
  rintro out w' ⟨data, -, more, rfl, same⟩
  refine ⟨data, rfl, ?_⟩
  intro bytes given
  obtain ⟨rfl, full⟩ := same bytes given
  have aligned : w.received ++ bytes = w.received ++ expected :=
    List.IsPrefix.eq_of_length (List.prefix_of_prefix_length_le more next (by simp [full]))
      (by simp [full])
  have whole := List.append_cancel_left aligned
  exact ⟨whole, whole⟩

theorem run_send (choice : Choice) (w : World) (data : Bytes) :
    (Op.send data).run choice w = (.eintr, w) ∨ (Op.send data).run choice w = (.error, w) ∨
      ∃ n, n ≤ data.length ∧ (Op.send data).run choice w = (.ok n, w.said (data.take n)) := by
  simp only [Op.run]
  cases choice.fault with
  | none => exact .inr (.inr ⟨_, choice.limit_le _, rfl⟩)
  | eintr => exact .inl rfl
  | error => exact .inr (.inl rfl)

/-- The send loop, where `Said k` holds once the first `k` bytes are taken. -/
theorem sendLoop_sat (loops : spins) {data : Bytes} (Said : Nat → World → Prop)
    (stable : ∀ k w w', I.rely w w' → Said k w → Said k w')
    (step : ∀ k n w, k + n ≤ data.length → Said k w →
      I.guar w (w.said ((data.drop k).take n)) ∧ Said (k + n) (w.said ((data.drop k).take n)))
    {fuel k : Nat} (within : k ≤ data.length) (start : Said k w) :
    Program.Sat (handler policy spins) I (sendLoop data fuel k)
      (fun ok w' => ∃ k, k ≤ data.length ∧ Said k w' ∧ (ok = true ↔ k = data.length)) w := by
  induction fuel generalizing k w with
  | zero => exact loops
  | succ fuel ih =>
      simp only [sendLoop, Program.ask_bind]
      split
      · refine Program.sat_op.mpr fun w' drift choice _ => ?_
        have now := stable _ _ _ drift start
        have stop : Program.Sat (handler policy spins) I (.done false)
            (fun ok w' => ∃ k, k ≤ data.length ∧ Said k w' ∧ (ok = true ↔ k = data.length)) w' := by
          intro w'' drift'
          refine ⟨k, within, stable _ _ _ drift' now, ?_⟩
          constructor
          · simp
          · omega
        rcases run_send choice w' (data.drop k) with ran | ran | ⟨n, short, ran⟩
        · rw [ran]
          exact ⟨I.guar_refl _, stop⟩
        · rw [ran]
          exact ⟨I.guar_refl _, stop⟩
        · rw [List.length_drop] at short
          obtain ⟨promised, after⟩ := step k n w' (by omega) now
          rw [ran]
          exact ⟨promised, ih (by omega) after⟩
      · intro w' drift
        refine ⟨k, within, stable _ _ _ drift start, ?_⟩
        constructor
        · omega
        · simp

end

/-- Only `send` takes anything. -/
theorem run_sent (op : Op) (quiet : ∀ data, op ≠ .send data) (choice : Choice) (w : World) :
    (op.run choice w).2.sent = w.sent := by
  cases op with
  | send data => exact absurd rfl (quiet data)
  | _ =>
      simp only [Op.run, World.attempt, World.flush, World.fresh]
      repeat' split
      all_goals rfl

theorem run_sent_mono (op : Op) (choice : Choice) (w : World) :
    w.sent <+: (op.run choice w).2.sent := by
  by_cases quiet : ∀ data, op ≠ .send data
  · rw [run_sent op quiet]
  · push Not at quiet
    obtain ⟨data, rfl⟩ := quiet
    rcases run_send choice w data with ran | ran | ⟨n, -, ran⟩
    · rw [ran]
    · rw [ran]
    · rw [ran]
      exact List.prefix_append _ _

/-- What has been taken stays taken. -/
theorem step_sent {policy : Policy} {spins : Prop} {α : Type} {p p' : Prog α} {w w' : World}
    (one : Program.Step (handler policy spins).exec p w p' w') : w.sent <+: w'.sent := by
  induction one with
  | @call _ op _ s _ _ h =>
      obtain ⟨choice, -, ran⟩ := h
      have mono := run_sent_mono op choice s
      rwa [ran] at mono
  | child i _ ih => exact ih
  | join verdicts all => exact List.prefix_refl _

theorem run_received (op : Op) (choice : Choice) (w : World) :
    (op.run choice w).2.received = w.received ∨
      ∃ count, (op.run choice w).2.received = w.received ++ choice.arrived.take count := by
  cases op with
  | recv count =>
      simp only [Op.run]
      cases choice.fault with
      | none => exact .inr ⟨count, rfl⟩
      | eintr => exact .inl rfl
      | error => exact .inl rfl
  | _ =>
      left
      simp only [Op.run, World.attempt, World.flush, World.fresh]
      repeat' split
      all_goals rfl

/-- What has been heard stays heard. -/
theorem step_received {policy : Policy} {spins : Prop} {α : Type} {p p' : Prog α} {w w' : World}
    (one : Program.Step (handler policy spins).exec p w p' w') : w.received <+: w'.received := by
  induction one with
  | @call _ op _ s _ _ h =>
      obtain ⟨choice, -, ran⟩ := h
      rcases run_received op choice s with same | ⟨count, more⟩
      · rw [ran] at same
        rw [same]
      · rw [ran] at more
        rw [more]
        exact List.prefix_append _ _
  | child i _ ih => exact ih
  | join verdicts all => exact List.prefix_refl _

theorem reach_received {policy : Policy} {spins : Prop} {α : Type} {p p' : Prog α} {w w' : World}
    (run : Program.Reach (handler policy spins).exec Eq p w p' w') :
    w.received <+: w'.received := by
  induction run with
  | refl => exact List.prefix_refl _
  | step _ one ih => exact ih.trans (step_received one)
  | env _ same ih => exact same ▸ ih

/-- The run in which nothing fails and the stream is there all at once. -/
def feeding (stream : Bytes) (op : Op) (w : World) : Res op × World :=
  op.run ⟨0, .none, none, stream.drop w.received.length⟩ w

theorem feeding_fed (stream : Bytes) (op : Op) (w : World) (inside : w.received <+: stream) :
    (handler (Fed stream) True).exec op w (feeding stream op w).1 (feeding stream op w).2 ∧
      (feeding stream op w).2.received <+: stream := by
  have fed : (feeding stream op w).2.received <+: stream := by
    rcases run_received op ⟨0, .none, none, stream.drop w.received.length⟩ w with same | ⟨n, more⟩
    · rw [feeding, same]
      exact inside
    · obtain ⟨rest, rfl⟩ := inside
      rw [feeding, more]
      apply (List.prefix_append_right_inj _).mpr
      simpa using List.take_prefix n rest
  exact ⟨⟨_, fed, rfl⟩, fed⟩

end SyncTool
