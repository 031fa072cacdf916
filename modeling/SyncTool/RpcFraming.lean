import SyncTool.RemoteSession
import SyncTool.RpcClient
import SyncTool.RpcSession

set_option autoImplicit false

namespace SyncTool

/-- Where what a stream begins with can be told, one stream of such things is a beginning of another
just in case it has the same things first. -/
theorem prefix_of_flatMap_prefix {α : Type} {code : α → Bytes} (nonempty : ∀ x, code x ≠ [])
    (unique : ∀ x y rest rest', code x ++ rest = code y ++ rest' → x = y) {xs ys : List α}
    (front : xs.flatMap code <+: ys.flatMap code) : xs <+: ys := by
  induction xs generalizing ys with
  | nil => exact List.nil_prefix
  | cons x xs ih =>
      cases ys with
      | nil =>
          have empty : code x ++ xs.flatMap code = [] := List.prefix_nil.mp front
          exact absurd (List.append_eq_nil_iff.mp empty).1 (nonempty x)
      | cons y ys =>
          obtain ⟨rest, split⟩ := front
          rw [List.flatMap_cons, List.flatMap_cons, List.append_assoc] at split
          obtain rfl := unique _ _ _ _ split
          apply (List.cons_prefix_cons).mpr
          exact ⟨rfl, ih ⟨rest, List.append_cancel_left split⟩⟩

/-- A message on the connection: a word of four bytes, and a body whose length comes between. -/
structure Framed where
  word : Bytes
  body : Bytes
  four : word.length = 4
  small : body.length < 256 ^ 4

namespace Framed

def bytes (abi : Abi) (message : Framed) : Bytes :=
  message.word ++ (abi.encode 4 message.body.length ++ message.body)

theorem bytes_ne_nil (abi : Abi) (message : Framed) : message.bytes abi ≠ [] := by
  intro empty
  have word := (List.append_eq_nil_iff.mp empty).1
  have four := message.four
  rw [word] at four
  cases four

/-- Where a message begins, so does no other. -/
theorem bytes_unique (abi : Abi) (first second : Framed) (rest rest' : Bytes)
    (same : first.bytes abi ++ rest = second.bytes abi ++ rest') : first = second := by
  simp only [bytes, List.append_assoc] at same
  have words := List.append_inj same (first.four.trans second.four.symm)
  obtain ⟨word, behind⟩ := words
  have lengths := List.append_inj behind (by rw [abi.length_encode, abi.length_encode])
  have length : first.body.length = second.body.length := by
    have decoded := congrArg abi.decode lengths.1
    rwa [abi.decode_encode first.small, abi.decode_encode second.small] at decoded
  have bodies := (List.append_inj lengths.2 length).1
  cases first
  cases second
  simp only at word bodies
  subst word
  subst bodies
  rfl

theorem prefix_of_bytes {abi : Abi} {xs ys : List Framed}
    (front : xs.flatMap (bytes abi) <+: ys.flatMap (bytes abi)) : xs <+: ys :=
  prefix_of_flatMap_prefix (bytes_ne_nil abi) (bytes_unique abi) front

end Framed

/-- Others may change anything but the connection; what is heard and said keeps to `P`, and no file
is changed. -/
def dialogue (P : Bytes → Bytes → Prop) : Interference World where
  rely := Aside
  guar w w' := (P w.received w.sent → P w'.received w'.sent) ∧ w'.fs = w.fs
  rely_refl _ := ⟨rfl, rfl⟩
  rely_trans _ _ _ first second := ⟨second.1.trans first.1, second.2.trans first.2⟩
  guar_refl _ := ⟨fun h => h, rfl⟩

/-- More may be heard at any time. -/
def Hears (P : Bytes → Bytes → Prop) : Prop :=
  ∀ heard more said, P heard said → P (heard ++ more) said

/-- What a client says begins with the mode of requests, or with nothing yet. -/
def Opening (stream : Bytes) : Prop := stream = [] ∨ [1] <+: stream

section

variable (policy : Policy) (P : Bytes → Bytes → Prop)

/-- `p` says `data`, or a beginning of it, and hears nothing. -/
def Sends (p : Prog Bool) (data : Bytes) : Prop :=
  ∀ w, (∀ part, part <+: data → P w.received (w.sent ++ part)) →
    Program.Sat (handler policy True) (dialogue P) p
      (fun ok w' => w'.received = w.received ∧
        ∃ part, part <+: data ∧ w'.sent = w.sent ++ part ∧ (ok = true → part = data)) w

/-- `p` hears `size` bytes, or fewer, and says nothing. -/
def Receives (p : Prog (Option Bytes)) (size : Nat) : Prop :=
  ∀ w, Program.Sat (handler policy True) (dialogue P) p
    (fun out w' => w'.sent = w.sent ∧
      ∃ data, w'.received = w.received ++ data ∧
        ∀ bytes, out = some bytes → bytes = data ∧ data.length = size) w

variable {policy P}

theorem recv_dialogue {α : Type} {count : Nat} {next : Io Bytes → Prog α}
    {Q : α → World → Prop} {w : World}
    (hears : Hears P) (again : Program.Sat (handler policy True) (dialogue P) (next .eintr) Q w)
    (failed : Program.Sat (handler policy True) (dialogue P) (next .error) Q w)
    (given : ∀ data w', data.length ≤ count → w'.received = w.received ++ data → w'.sent = w.sent →
      Program.Sat (handler policy True) (dialogue P) (next (.ok data)) Q w') :
    Program.Sat (handler policy True) (dialogue P) (.call (.recv count) next) Q w := by
  refine Program.sat_op.mpr fun w' drift choice _ => ?_
  rcases run_recv choice w' count with ran | ran | ⟨data, short, ran⟩
  · rw [ran]
    exact ⟨⟨fun h => h, rfl⟩, again.rely drift⟩
  · rw [ran]
    exact ⟨⟨fun h => h, rfl⟩, failed.rely drift⟩
  · rw [ran]
    refine ⟨⟨hears _ _ _, rfl⟩, given data _ short ?_ drift.1⟩
    rw [World.got_received, drift.2]

theorem send_dialogue {α : Type} {data : Bytes} {next : Io Nat → Prog α}
    {Q : α → World → Prop} {w : World}
    (may : ∀ n, n ≤ data.length → P w.received (w.sent ++ data.take n))
    (again : Program.Sat (handler policy True) (dialogue P) (next .eintr) Q w)
    (failed : Program.Sat (handler policy True) (dialogue P) (next .error) Q w)
    (taken : ∀ n w', n ≤ data.length → w'.received = w.received → w'.sent = w.sent ++ data.take n →
      Program.Sat (handler policy True) (dialogue P) (next (.ok n)) Q w') :
    Program.Sat (handler policy True) (dialogue P) (.call (.send data) next) Q w := by
  refine Program.sat_op.mpr fun w' drift choice _ => ?_
  rcases run_send choice w' data with ran | ran | ⟨n, short, ran⟩
  · rw [ran]
    exact ⟨⟨fun h => h, rfl⟩, again.rely drift⟩
  · rw [ran]
    exact ⟨⟨fun h => h, rfl⟩, failed.rely drift⟩
  · rw [ran]
    have said : (w'.said (data.take n)).sent = w.sent ++ data.take n := by
      show w'.sent ++ data.take n = _
      rw [drift.1]
    have heard : (w'.said (data.take n)).received = w.received := drift.2
    refine ⟨⟨fun _ => ?_, rfl⟩, taken n _ short heard said⟩
    rw [heard, said]
    exact may n short

/-- One thing said after another. -/
theorem Sends.andThen {p q : Prog Bool} {data data' : Bytes} (first : Sends policy P p data)
    (second : Sends policy P q data') :
    Sends policy P (p >>= fun ok => if ok then q else pure false) (data ++ data') := by
  intro w may
  apply Program.Sat.bind
  apply (first w _).weaken
  · intro ok w' after
    obtain ⟨heard, part, inside, said, whole⟩ := after
    apply Program.Sat.ite
    · intro fine
      obtain rfl := whole fine
      apply (second w' _).weaken
      · intro ok' w'' after
        obtain ⟨heard', part', inside', said', whole'⟩ := after
        refine ⟨heard'.trans heard, part ++ part', ?_, ?_, ?_⟩
        · exact (List.prefix_append_right_inj _).mpr inside'
        · rw [said', said, List.append_assoc]
        · intro fine'
          rw [whole' fine']
      · intro part' inside'
        rw [heard, said, List.append_assoc]
        exact may _ ((List.prefix_append_right_inj _).mpr inside')
    · intro failed w'' drift
      refine ⟨drift.2.trans heard, part, inside.trans (List.prefix_append _ _),
        drift.1.trans said, ?_⟩
      intro fine
      cases fine
  · intro part inside
    exact may part (inside.trans (List.prefix_append _ _))

end

/-- A loop that receives until there are `size` bytes. One that is interrupted may go on or give
up. -/
structure ReceiveLoop (size : Nat) (loop : Nat → Bytes → Prog (Option Bytes)) : Prop where
  spin : ∀ received, loop 0 received = .spin
  full : ∀ fuel received, ¬ received.length < size →
    loop (fuel + 1) received = .done (some received)
  more : ∀ fuel received, received.length < size → ∃ next : Io Bytes → Prog (Option Bytes),
    loop (fuel + 1) received = .call (.recv (size - received.length)) next ∧
      (next .eintr = loop fuel received ∨ next .eintr = .done none) ∧ next .error = .done none ∧
      ∀ data, next (.ok data) = if data = [] then .done none else loop fuel (received ++ data)

/-- A loop that sends what is left of `data`. -/
structure SendLoop (data : Bytes) (loop : Nat → Nat → Prog Bool) : Prop where
  spin : ∀ sent, loop 0 sent = .spin
  full : ∀ fuel sent, ¬ sent < data.length → loop (fuel + 1) sent = .done true
  more : ∀ fuel sent, sent < data.length → ∃ next : Io Nat → Prog Bool,
    loop (fuel + 1) sent = .call (.send (data.drop sent)) next ∧
      (next .eintr = loop fuel sent ∨ next .eintr = .done false) ∧ next .error = .done false ∧
      ∀ n, next (.ok n) = if n = 0 then .done false else loop fuel (sent + n)

section

variable {policy : Policy} {P : Bytes → Bytes → Prop}

theorem ReceiveLoop.receives {size : Nat} {loop : Nat → Bytes → Prog (Option Bytes)}
    (shape : ReceiveLoop size loop) (hears : Hears P) (fuel : Nat) :
    Receives policy P (loop fuel []) size := by
  intro w
  suffices general : ∀ (w' : World) (received : Bytes), received.length ≤ size →
      w'.received = w.received ++ received → w'.sent = w.sent →
      Program.Sat (handler policy True) (dialogue P) (loop fuel received)
        (fun out w' => w'.sent = w.sent ∧ ∃ data, w'.received = w.received ++ data ∧
          ∀ bytes, out = some bytes → bytes = data ∧ data.length = size) w' from
    general w [] (Nat.zero_le _) (List.append_nil _).symm rfl
  have stop : ∀ (out : Option Bytes) (received : Bytes) (w' : World), w'.sent = w.sent →
      w'.received = w.received ++ received →
      (∀ bytes, out = some bytes → bytes = received ∧ received.length = size) →
      Program.Sat (handler policy True) (dialogue P) (.done out)
        (fun out w' => w'.sent = w.sent ∧ ∃ data, w'.received = w.received ++ data ∧
          ∀ bytes, out = some bytes → bytes = data ∧ data.length = size) w' := by
    intro out received w' said heard whole w'' drift
    exact ⟨drift.1.trans said, received, drift.2.trans heard, whole⟩
  induction fuel with
  | zero =>
      intro w' received _ _ _
      rw [shape.spin]
      exact trivial
  | succ fuel ih =>
      intro w' received short heard said
      by_cases more : received.length < size
      · obtain ⟨next, call, again, failed, given⟩ := shape.more fuel received more
        rw [call]
        apply recv_dialogue hears
        · rcases again with again | again
          · rw [again]
            exact ih w' received short heard said
          · rw [again]
            exact stop none received w' said heard (by simp)
        · rw [failed]
          exact stop none received w' said heard (by simp)
        · intro data w'' few heard' said'
          have heard'' : w''.received = w.received ++ (received ++ data) := by
            rw [heard', heard, List.append_assoc]
          rw [given]
          apply Program.Sat.ite
          · intro _
            exact stop none (received ++ data) w'' (said'.trans said) heard'' (by simp)
          · intro _
            apply ih w'' (received ++ data) _ heard'' (said'.trans said)
            rw [List.length_append]
            omega
      · rw [shape.full fuel received more]
        apply stop _ received w' said heard
        intro bytes same
        exact ⟨(Option.some.inj same).symm, by omega⟩

theorem SendLoop.sends {data : Bytes} {loop : Nat → Nat → Prog Bool} (shape : SendLoop data loop)
    (fuel : Nat) : Sends policy P (loop fuel 0) data := by
  intro w may
  suffices general : ∀ (w' : World) (sent : Nat), sent ≤ data.length → w'.received = w.received →
      w'.sent = w.sent ++ data.take sent →
      Program.Sat (handler policy True) (dialogue P) (loop fuel sent)
        (fun ok w' => w'.received = w.received ∧
          ∃ part, part <+: data ∧ w'.sent = w.sent ++ part ∧ (ok = true → part = data)) w' from
    general w 0 (Nat.zero_le _) rfl (by simp)
  have stop : ∀ (ok : Bool) (sent : Nat) (w' : World), w'.received = w.received →
      w'.sent = w.sent ++ data.take sent → (ok = true → data.take sent = data) →
      Program.Sat (handler policy True) (dialogue P) (.done ok)
        (fun ok w' => w'.received = w.received ∧
          ∃ part, part <+: data ∧ w'.sent = w.sent ++ part ∧ (ok = true → part = data)) w' := by
    intro ok sent w' heard said whole w'' drift
    exact ⟨drift.2.trans heard, data.take sent, List.take_prefix _ _, drift.1.trans said, whole⟩
  induction fuel with
  | zero =>
      intro w' sent _ _ _
      rw [shape.spin]
      exact trivial
  | succ fuel ih =>
      intro w' sent within heard said
      by_cases more : sent < data.length
      · obtain ⟨next, call, again, failed, taken⟩ := shape.more fuel sent more
        have further : ∀ n, w'.sent ++ (data.drop sent).take n =
            w.sent ++ data.take (sent + n) := by
          intro n
          rw [said, List.append_assoc, ← List.take_add]
        rw [call]
        apply send_dialogue
        · intro n _
          rw [further, heard]
          exact may _ (List.take_prefix _ _)
        · rcases again with again | again
          · rw [again]
            exact ih w' sent within heard said
          · rw [again]
            exact stop false sent w' heard said (by simp)
        · rw [failed]
          exact stop false sent w' heard said (by simp)
        · intro n w'' few heard' said'
          rw [List.length_drop] at few
          rw [further] at said'
          rw [taken]
          apply Program.Sat.ite
          · intro _
            exact stop false (sent + n) w'' (heard'.trans heard) said' (by simp)
          · intro _
            exact ih w'' (sent + n) (by omega) (heard'.trans heard) said'
      · rw [shape.full fuel sent more]
        apply stop _ sent w' heard said
        intro _
        exact List.take_of_length_le (by omega)

theorem RpcServer.receiveLoop (size : Nat) : ReceiveLoop size (RpcServer.recvAll size) := by
  constructor
  · exact fun _ => rfl
  · intro fuel received full
    rw [RpcServer.recvAll, if_neg full]
    rfl
  · intro fuel received more
    rw [RpcServer.recvAll, if_pos more]
    exact ⟨_, rfl, .inl rfl, rfl, fun _ => rfl⟩

theorem RpcServer.sendLoop (data : Bytes) : SendLoop data (RpcServer.sendAll data) := by
  constructor
  · exact fun _ => rfl
  · intro fuel sent full
    rw [RpcServer.sendAll, if_neg full]
    rfl
  · intro fuel sent more
    rw [RpcServer.sendAll, if_pos more]
    exact ⟨_, rfl, .inl rfl, rfl, fun _ => rfl⟩

theorem RpcClient.receiveLoop (size : Nat) : ReceiveLoop size (RpcClient.recvAll size) := by
  constructor
  · exact fun _ => rfl
  · intro fuel received full
    rw [RpcClient.recvAll, if_neg full]
    rfl
  · intro fuel received more
    rw [RpcClient.recvAll, if_pos more]
    exact ⟨_, rfl, .inr rfl, rfl, fun _ => rfl⟩

theorem RpcClient.sendLoop (data : Bytes) : SendLoop data (RpcClient.sendAll data) := by
  constructor
  · exact fun _ => rfl
  · intro fuel sent full
    rw [RpcClient.sendAll, if_neg full]
    rfl
  · intro fuel sent more
    rw [RpcClient.sendAll, if_pos more]
    exact ⟨_, rfl, .inr rfl, rfl, fun _ => rfl⟩

theorem robustRead_dialogue (hears : Hears P) {count fuel : Nat} {w w' : World} {buffer : Bytes}
    (short : buffer.length ≤ count) (heard : w'.received = w.received ++ buffer)
    (said : w'.sent = w.sent) :
    Program.Sat (handler policy True) (dialogue P) (robustRead count fuel buffer)
      (fun out w' => w'.sent = w.sent ∧ ∃ data, data.length ≤ count ∧
        w'.received = w.received ++ data ∧
        ∀ bytes, out = some bytes → bytes = data) w' := by
  induction fuel generalizing w' buffer with
  | zero => exact trivial
  | succ fuel ih =>
      simp only [robustRead, Program.ask_bind]
      have stop : ∀ out : Option Bytes, (∀ bytes, out = some bytes → bytes = buffer) →
          Program.Sat (handler policy True) (dialogue P) (.done out)
            (fun out w' => w'.sent = w.sent ∧ ∃ data, data.length ≤ count ∧
              w'.received = w.received ++ data ∧
              ∀ bytes, out = some bytes → bytes = data) w' := by
        intro out same w'' drift
        exact ⟨drift.1.trans said, buffer, short, drift.2.trans heard, same⟩
      apply Program.Sat.ite
      · intro more
        apply recv_dialogue hears
        · exact ih short heard said
        · exact stop none (by simp)
        · intro data w'' few heard' said'
          have heard'' : w''.received = w.received ++ (buffer ++ data) := by
            rw [heard', heard, List.append_assoc]
          have short' : (buffer ++ data).length ≤ count := by
            rw [List.length_append]
            omega
          apply Program.Sat.ite
          · intro ended
            subst ended
            rw [List.append_nil] at heard''
            intro w₃ drift
            exact ⟨drift.1.trans (said'.trans said), buffer, short, drift.2.trans heard'', by simp⟩
          · intro _
            exact ih short' heard'' (said'.trans said)
      · intro _
        exact stop _ (by simp)

theorem receiveBytes_receives (hears : Hears P) (size fuel : Nat) :
    Receives policy P (receiveBytes fuel size) size := by
  intro w
  suffices general : ∀ (reads : Nat) (w' : World) (buffer : Bytes), buffer.length ≤ size →
      w'.received = w.received ++ buffer → w'.sent = w.sent →
      Program.Sat (handler policy True) (dialogue P) (receiveRest size fuel reads buffer)
        (fun out w' => w'.sent = w.sent ∧ ∃ data, w'.received = w.received ++ data ∧
          ∀ bytes, out = some bytes → bytes = data ∧ data.length = size) w' from
    general fuel w [] (Nat.zero_le _) (List.append_nil _).symm rfl
  intro reads
  induction reads with
  | zero => exact fun _ _ _ _ _ => trivial
  | succ reads ih =>
      intro w' buffer short heard said
      simp only [receiveRest]
      apply Program.Sat.ite
      · intro more
        apply Program.Sat.bind
        have none_yet : ([] : Bytes).length ≤ size - buffer.length := Nat.zero_le _
        apply (@robustRead_dialogue policy P hears _ fuel w' w' [] none_yet
          (List.append_nil _).symm rfl).weaken
        intro out w₁ after
        obtain ⟨said₁, data, few, heard₁, same⟩ := after
        have heard₁' : w₁.received = w.received ++ (buffer ++ data) := by
          rw [heard₁, heard, List.append_assoc]
        have stop : Program.Sat (handler policy True) (dialogue P) (.done none)
            (fun out w' => w'.sent = w.sent ∧ ∃ data, w'.received = w.received ++ data ∧
              ∀ bytes, out = some bytes → bytes = data ∧ data.length = size) w₁ := by
          intro w₂ drift
          exact ⟨drift.1.trans (said₁.trans said), _, drift.2.trans heard₁', by simp⟩
        cases out with
        | none => exact stop
        | some bytes =>
            obtain rfl := same bytes rfl
            apply Program.Sat.ite
            · exact fun _ => stop
            · intro _
              apply ih w₁ (buffer ++ bytes) _ heard₁' (said₁.trans said)
              rw [List.length_append]
              omega
      · intro full w'' drift
        refine ⟨drift.1.trans said, buffer, drift.2.trans heard, ?_⟩
        intro bytes same
        exact ⟨(Option.some.inj same).symm, by omega⟩

end

section

variable {ok : Op → Prop}

theorem ReceiveLoop.straight {size : Nat} {loop : Nat → Bytes → Prog (Option Bytes)}
    (shape : ReceiveLoop size loop) (reads : ∀ count, ok (.recv count)) (fuel : Nat)
    (received : Bytes) :
    (loop fuel received).Calls ok := by
  induction fuel generalizing received with
  | zero =>
      rw [shape.spin]
      exact trivial
  | succ fuel ih =>
      by_cases more : received.length < size
      · obtain ⟨next, call, again, failed, given⟩ := shape.more fuel received more
        rw [call]
        refine ⟨reads _, fun n => ?_⟩
        cases n with
        | eintr =>
            rcases again with again | again
            · rw [again]
              exact ih received
            · rw [again]
              exact trivial
        | error =>
            rw [failed]
            exact trivial
        | ok data =>
            rw [given]
            split
            · exact trivial
            · exact ih _
      · rw [shape.full fuel received more]
        exact trivial

theorem SendLoop.straight {data : Bytes} {loop : Nat → Nat → Prog Bool} (shape : SendLoop data loop)
    (sends : ∀ part, ok (.send part)) (fuel sent : Nat) : (loop fuel sent).Calls ok := by
  induction fuel generalizing sent with
  | zero =>
      rw [shape.spin]
      exact trivial
  | succ fuel ih =>
      by_cases more : sent < data.length
      · obtain ⟨next, call, again, failed, taken⟩ := shape.more fuel sent more
        rw [call]
        refine ⟨sends _, fun n => ?_⟩
        cases n with
        | eintr =>
            rcases again with again | again
            · rw [again]
              exact ih sent
            · rw [again]
              exact trivial
        | error =>
            rw [failed]
            exact trivial
        | ok n =>
            rw [taken]
            split
            · exact trivial
            · exact ih _
      · rw [shape.full fuel sent more]
        exact trivial

end

end SyncTool
