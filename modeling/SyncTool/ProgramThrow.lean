import SyncTool.ProgramRuns

set_option autoImplicit false

namespace SyncTool

/-- What an allocation throws. -/
inductive Thrown where
  | length_error
  | bad_alloc
deriving DecidableEq

/-- The calls of a program that may be refused memory: a call of the system, before which memory
may run out, an allocation of a given size, and a note that only a reader of the run sees. -/
inductive Guarded (Op Note : Type) where
  | sys (op : Op)
  | alloc (size : Nat)
  | note (what : Note)

@[reducible] def GuardedRes {Op Note : Type} (Res : Op → Type) : Guarded Op Note → Type
  | .sys op => Option (Res op)
  | .alloc _ => Bool
  | .note _ => Unit

/-- A state, with the sizes that were asked for, whether memory has run out, and the notes, each
with the state it was made in. -/
structure Noted (Note σ : Type) where
  state : σ
  requests : List Nat
  exhausted : Bool
  notes : List (Note × σ)

namespace Noted

variable {Note σ : Type}

/-- Nothing that was asked for has been refused; more than `max_size` always is. -/
def Granted (max_size : Nat) (s : Noted Note σ) : Prop :=
  (∀ size ∈ s.requests, size ≤ max_size) ∧ s.exhausted = false

instance (max_size : Nat) (s : Noted Note σ) : Decidable (s.Granted max_size) :=
  inferInstanceAs (Decidable (_ ∧ _))

/-- The state a program is started in. -/
def start (state : σ) : Noted Note σ := ⟨state, [], false, []⟩

theorem granted_start (max_size : Nat) (state : σ) :
    (start state : Noted Note σ).Granted max_size := ⟨by simp [start], rfl⟩

end Noted

section

variable {Op Note : Type} {Res : Op → Type} {σ : Type}

/-- How the calls are answered, given how those of the system are. -/
def guardedExec (exec : (op : Op) → σ → Res op → σ → Prop) (max_size : Nat) :
    (op : Guarded Op Note) → Noted Note σ → GuardedRes Res op → Noted Note σ → Prop
  | .sys op, s, some answer, s' => ∃ state, exec op s.state answer state ∧
      s' = { s with state := state }
  | .sys _, s, none, s' => s' = { s with exhausted := true }
  | .alloc size, s, granted, s' => (granted = true → size ≤ max_size) ∧
      s' = { s with
        requests := s.requests ++ [size]
        exhausted := s.exhausted || (!granted && decide (size ≤ max_size)) }
  | .note what, s, _, s' => s' = { s with notes := s.notes ++ [(what, s.state)] }

theorem guardedExec_mono {exec exec' : (op : Op) → σ → Res op → σ → Prop} {max_size : Nat}
    (le : ∀ op s answer s', exec op s answer s' → exec' op s answer s') {op : Guarded Op Note}
    {s s' : Noted Note σ} {answer : GuardedRes Res op}
    (ran : guardedExec exec max_size op s answer s') :
    guardedExec exec' max_size op s answer s' := by
  cases op with
  | sys op =>
      cases answer with
      | none => exact ran
      | some answer =>
          obtain ⟨state, ran, same⟩ := ran
          exact ⟨state, le _ _ _ _ ran, same⟩
  | alloc size => exact ran
  | note what => exact ran

/-- What every call of the system does holds of every call. -/
theorem guardedExec_effect {exec : (op : Op) → σ → Res op → σ → Prop} {max_size : Nat}
    {T : σ → σ → Prop} (same : ∀ s, T s s) (each : ∀ op s answer s', exec op s answer s' → T s s')
    {op : Guarded Op Note} {s s' : Noted Note σ} {answer : GuardedRes Res op}
    (ran : guardedExec exec max_size op s answer s') : T s.state s'.state := by
  cases op with
  | sys op =>
      cases answer with
      | none =>
          obtain rfl : s' = _ := ran
          exact same s.state
      | some answer =>
          obtain ⟨state, ran, rfl⟩ := ran
          exact each _ _ _ _ ran
  | alloc size =>
      obtain ⟨-, rfl⟩ := ran
      exact same s.state
  | note what =>
      obtain rfl : s' = _ := ran
      exact same s.state

def Handler.guarded (H : Handler Op Res σ) (max_size : Nat) :
    Handler (Guarded Op Note) (GuardedRes Res) (Noted Note σ) where
  exec := guardedExec H.exec max_size
  spins := H.spins

end

namespace Program

variable {Op : Type} {Res : Op → Type} {α β σ : Type}

/-- Whatever the answers are, no child is forked and only calls within `ok` are made. -/
def Calls (ok : Op → Prop) : {α : Type} → Program Op Res α → Prop
  | _, .done _ => True
  | _, .call op next => ok op ∧ ∀ answer, Calls ok (next answer)
  | _, .fork _ _ _ => False
  | _, .spin => True

variable {ok : Op → Prop}

@[simp] theorem calls_done {value : α} : Calls ok (.done value : Program Op Res α) := trivial

@[simp] theorem calls_call {op : Op} {next : Res op → Program Op Res α} :
    Calls ok (.call op next) ↔ ok op ∧ ∀ answer, Calls ok (next answer) := Iff.rfl

@[simp] theorem calls_spin : Calls ok (.spin : Program Op Res α) := trivial

@[simp] theorem calls_ask {op : Op} : Calls ok (ask op : Program Op Res _) ↔ ok op :=
  ⟨fun calls => calls.1, fun h => ⟨h, fun _ => trivial⟩⟩

theorem Calls.bind {p : Program Op Res α} {f : α → Program Op Res β} (first : Calls ok p)
    (second : ∀ value, Calls ok (f value)) : Calls ok (p >>= f) := by
  induction p with
  | done value => exact second value
  | call op next ih => exact ⟨first.1, fun answer => ih answer (first.2 answer) second⟩
  | fork count child join => exact first.elim
  | spin => trivial

theorem Calls.mono {ok' : Op → Prop} {p : Program Op Res α} (calls : Calls ok p)
    (weaker : ∀ op, ok op → ok' op) : Calls ok' p := by
  induction p with
  | done value => trivial
  | call op next ih => exact ⟨weaker op calls.1, fun answer => ih answer (calls.2 answer)⟩
  | fork count child join => exact calls.elim
  | spin => trivial

theorem Calls.all {p : Program Op Res α} (calls : Calls ok p) : All ok p := by
  induction p with
  | done value => trivial
  | call op next ih => exact ⟨calls.1, fun answer => ih answer (calls.2 answer)⟩
  | fork count child join => exact calls.elim
  | spin => trivial

/-- Such a program returns where one of its runs does. -/
theorem Calls.sat_run {H : Handler Op Res σ} {I : Interference σ} {p : Program Op Res α}
    {Q : α → σ → Prop} {s : σ} (calls : Calls ok p) (holds : Sat H I p Q s) :
    Sat H .free p (fun value s' => Q value s' ∧ Reach H.exec Eq p s (.done value) s') s := by
  induction p generalizing s with
  | done value =>
      intro s' same
      obtain rfl : s = s' := same
      exact ⟨holds s (I.rely_refl s), .refl⟩
  | call op next ih =>
      intro s₁ same answer s₂ ran
      obtain rfl : s = s₁ := same
      refine ⟨trivial, ?_⟩
      have rest := (holds s (I.rely_refl s) answer s₂ ran).2
      apply (ih answer (calls.2 answer) rest).weaken
      intro value s' after
      exact ⟨after.1, (Reach.refl.step (.call ran)).trans after.2⟩
  | fork count child join => exact calls.elim
  | spin => exact holds

variable {Note : Type}

/-- What follows a call, unless memory ran out in front of it. -/
def orThrow {answer : Type}
    (next : answer → Program (Guarded Op Note) (GuardedRes Res) (Except Thrown α)) :
    Option answer → Program (Guarded Op Note) (GuardedRes Res) (Except Thrown α)
  | none => .done (.error .bad_alloc)
  | some answer => next answer

/-- A program in front of each of whose calls memory may run out. What a child throws ends with
the child. -/
def guard : {α : Type} → Program Op Res α →
    Program (Guarded Op Note) (GuardedRes Res) (Except Thrown α)
  | _, .done value => .done (.ok value)
  | _, .call op next => .call (.sys op) (orThrow fun answer => guard (next answer))
  | _, .fork count child join =>
      .fork count (fun i => guard (child i) >>= fun result => .done (result.toOption.getD false))
        fun verdicts => guard (join verdicts)
  | _, .spin => .spin

/-- A program without its notes. -/
def mute {Note' : Type} : {α : Type} → Program (Guarded Op Note) (GuardedRes Res) α →
    Program (Guarded Op Note') (GuardedRes Res) α
  | _, .done value => .done value
  | _, .call (.sys op) next => .call (.sys op) fun answer => mute (next answer)
  | _, .call (.alloc size) next => .call (.alloc size) fun granted => mute (next granted)
  | _, .call (.note _) next => mute (next ())
  | _, .fork count child join =>
      .fork count (fun i => mute (child i)) fun verdicts => mute (join verdicts)
  | _, .spin => .spin

variable {Note' : Type}

theorem mute_bind (p : Program (Guarded Op Note) (GuardedRes Res) α)
    (f : α → Program (Guarded Op Note) (GuardedRes Res) β) :
    (mute (p >>= f) : Program (Guarded Op Note') (GuardedRes Res) β) =
      mute p >>= fun value => mute (f value) := by
  induction p with
  | done value => rfl
  | call op next ih =>
      cases op with
      | sys op => simp only [call_bind, mute, ih]
      | alloc size => simp only [call_bind, mute, ih]
      | note what => exact ih () f
  | fork count child join _ ih => simp only [fork_bind, mute, ih]
  | spin => rfl

theorem mute_guard (p : Program Op Res α) :
    (mute (guard p : Program (Guarded Op Note) (GuardedRes Res) (Except Thrown α)) :
      Program (Guarded Op Note') (GuardedRes Res) (Except Thrown α)) = guard p := by
  induction p with
  | done value => rfl
  | call op next ih =>
      simp only [guard, mute]
      congr 1
      funext answer
      cases answer with
      | none => rfl
      | some answer => exact ih answer
  | fork count child join ihChild ihJoin =>
      simp only [guard, mute, mute_bind, ihChild, ihJoin]
  | spin => rfl

/-- A sequence in front of whose calls memory may run out. -/
theorem guard_bind (p : Program Op Res α) (f : α → Program Op Res β) :
    (guard (p >>= f) : Program (Guarded Op Note) (GuardedRes Res) (Except Thrown β)) =
      guard p >>= fun result => match result with
        | .ok value => guard (f value)
        | .error thrown => .done (.error thrown) := by
  induction p with
  | done value => rfl
  | call op next ih =>
      simp only [guard, call_bind]
      congr 1
      funext answer
      cases answer with
      | none => rfl
      | some answer => exact ih answer f
  | fork count child join _ ih => simp only [guard, fork_bind, ih]
  | spin => rfl

end Program

/-- Programs that may throw. -/
abbrev Throwing (Op : Type) (Res : Op → Type) (Note α : Type) : Type 1 :=
  ExceptT Thrown (Program (Guarded Op Note) (GuardedRes Res)) α

namespace Throwing

open Program

variable {Op : Type} {Res : Op → Type} {Note α β σ : Type}

/-- What the program asks of the system. -/
def system (p : Program Op Res α) : Throwing Op Res Note α := ExceptT.mk p.guard

/-- An allocation of `size`, of which no more than `max_size` may be asked for. -/
def allocate (max_size size : Nat) : Throwing Op Res Note Unit :=
  ExceptT.mk (.call (.alloc size) fun granted =>
    .done (if granted then .ok ()
      else .error (if size ≤ max_size then .bad_alloc else .length_error)))

def note (what : Note) : Throwing Op Res Note Unit :=
  ExceptT.mk (.call (.note what) fun _ => .done (.ok ()))

/-- A program without its notes. -/
def mute {Note' : Type} (p : Throwing Op Res Note α) : Throwing Op Res Note' α :=
  ExceptT.mk (Program.mute p.run)

section

variable {Note' : Type}

theorem mute_bind (p : Throwing Op Res Note α) (f : α → Throwing Op Res Note β) :
    (mute (p >>= f) : Throwing Op Res Note' β) = mute p >>= fun value => mute (f value) := by
  apply ExceptT.ext
  show Program.mute (p.run >>= ExceptT.bindCont f) = _
  rw [Program.mute_bind]
  show (p.run.mute >>= _) = (p.run.mute >>= _)
  congr 1
  funext result
  cases result with
  | ok value => rfl
  | error thrown => rfl

theorem mute_system (p : Program Op Res α) :
    (mute (system p : Throwing Op Res Note α) : Throwing Op Res Note' α) = system p :=
  ExceptT.ext (Program.mute_guard p)

theorem system_bind (p : Program Op Res α) (f : α → Program Op Res β) :
    (system (p >>= f) : Throwing Op Res Note β) = system p >>= fun value => system (f value) := by
  apply ExceptT.ext
  show Program.guard (p >>= f) = _
  rw [Program.guard_bind]
  show (p.guard >>= _) = (p.guard >>= _)
  congr 1
  funext result
  cases result with
  | ok value => rfl
  | error thrown => rfl

end

section

variable {H : Handler Op Res σ} {max_size : Nat} {Q : Except Thrown β → Noted Note σ → Prop}
  {s : Noted Note σ}

/-- Sequencing: an exception skips what is left. -/
theorem sat_bind_alone {guar : Noted Note σ → Noted Note σ → Prop} {refl : ∀ s, guar s s}
    {p : Throwing Op Res Note α} {f : α → Throwing Op Res Note β}
    (holds : Sat (H.guarded max_size) (.alone guar refl) p.run (fun result s' => match result with
      | .ok value => Sat (H.guarded max_size) (.alone guar refl) (f value).run Q s'
      | .error thrown => Q (.error thrown) s') s) :
    Sat (H.guarded max_size) (.alone guar refl) (p >>= f).run Q s := by
  apply Program.Sat.bind
  apply holds.weaken
  intro result s' after
  cases result with
  | ok value => exact after
  | error thrown =>
      intro s'' same
      obtain rfl : s' = s'' := same
      exact after

theorem sat_bind {p : Throwing Op Res Note α} {f : α → Throwing Op Res Note β}
    (holds : Sat (H.guarded max_size) .free p.run (fun result s' => match result with
      | .ok value => Sat (H.guarded max_size) .free (f value).run Q s'
      | .error thrown => Q (.error thrown) s') s) :
    Sat (H.guarded max_size) .free (p >>= f).run Q s :=
  sat_bind_alone holds

/-- What a part of the system does, and what it keeps when it is cut short. -/
theorem sat_system {ok : Op → Prop} {I : Interference σ} {Q : α → σ → Prop} {p : Program Op Res α}
    (Inv : σ → Prop) (straight : p.Calls ok) (start : Inv s.state)
    (kept : ∀ s s', I.guar s s' → Inv s → Inv s')
    (holds : Sat H I p Q s.state) :
    Sat (H.guarded max_size) .free (system p : Throwing Op Res Note α).run
      (fun result s' => match result with
        | .ok value => Q value s'.state ∧ Inv s'.state ∧ s' = { s with state := s'.state }
        | .error _ => Inv s'.state ∧ s' = { s with state := s'.state, exhausted := true }) s := by
  show Sat (H.guarded max_size) .free p.guard _ s
  induction p generalizing s with
  | done value =>
      intro s' same
      obtain rfl : s = s' := same
      exact ⟨holds _ (I.rely_refl _), start, rfl⟩
  | call op next ih =>
      intro s₁ same answer s₂ ran
      obtain rfl : s = s₁ := same
      refine ⟨trivial, ?_⟩
      cases answer with
      | none =>
          obtain rfl := ran
          intro s₃ same
          obtain rfl := same
          exact ⟨start, rfl⟩
      | some answer =>
          obtain ⟨state, ran, rfl⟩ := ran
          obtain ⟨promised, rest⟩ := holds _ (I.rely_refl _) _ _ ran
          let after : Noted Note σ := { s with state := state }
          have rest' : Sat H I (next answer) Q after.state := rest
          exact ih answer (straight.2 answer) (kept _ _ promised start) rest'
  | fork count child join => exact straight.elim
  | spin => exact holds

end

/-- A machine that grants what it may, unless it `refuses`. -/
def Handler.sparing (H : Handler Op Res σ) (max_size : Nat) (refuses : Prop) :
    Handler (Guarded Op Note) (GuardedRes Res) (Noted Note σ) where
  exec op s answer s' :=
    guardedExec H.exec max_size op s answer s' ∧ (refuses ∨ s'.exhausted = s.exhausted)
  spins := H.spins

/-- The program returns with `Q`, unless it is refused something. -/
def Unrefused (H : Handler Op Res σ) (max_size : Nat) (refuses : Prop) (p : Throwing Op Res Note α)
    (Q : α → σ → Prop) (state : σ) : Prop :=
  ∀ s : Noted Note σ, s.state = state → s.Granted max_size →
    Sat (Handler.sparing H max_size refuses) .free p.run (fun result s' => match result with
      | .ok value => Q value s'.state ∧ s'.Granted max_size
      | .error _ => refuses ∧ ¬ s'.Granted max_size) s

section

variable {H : Handler Op Res σ} {max_size : Nat} {refuses : Prop} {state : σ}
  {p : Throwing Op Res Note α} {f : α → Throwing Op Res Note β} {Q : β → σ → Prop}

theorem unrefused_pure {value : β} (holds : Q value state) :
    Unrefused H max_size refuses (pure value : Throwing Op Res Note β) Q state := by
  intro s here granted s' same
  obtain rfl : s = s' := same
  rw [← here] at holds
  exact ⟨holds, granted⟩

theorem Unrefused.weaken {q : Throwing Op Res Note β} {Q' : β → σ → Prop}
    (holds : Unrefused H max_size refuses q Q state)
    (weaker : ∀ value s', Q value s' → Q' value s') :
    Unrefused H max_size refuses q Q' state := by
  intro s here granted
  apply (holds s here granted).weaken
  intro result s' after
  cases result with
  | ok value => exact ⟨weaker _ _ after.1, after.2⟩
  | error thrown => exact after

theorem Unrefused.restrict {H' : Handler Op Res σ} {q : Throwing Op Res Note β}
    (holds : Unrefused H max_size refuses q Q state)
    (le : ∀ op s answer s', H'.exec op s answer s' → H.exec op s answer s')
    (spins : H.spins → H'.spins) : Unrefused H' max_size refuses q Q state := by
  intro s here granted
  have spared : (Handler.sparing H max_size refuses : Handler (Guarded Op Note) _ _).spins →
      (Handler.sparing H' max_size refuses : Handler (Guarded Op Note) _ _).spins := spins
  apply (holds s here granted).restrict _ spared
  intro op s answer s' ran
  exact ⟨guardedExec_mono le ran.1, ran.2⟩

theorem Unrefused.bind
    (holds : Unrefused H max_size refuses p
      (fun value s' => Unrefused H max_size refuses (f value) Q s') state) :
    Unrefused H max_size refuses (p >>= f) Q state := by
  intro s here granted
  apply Program.Sat.bind
  apply (holds s here granted).weaken
  intro result s' after
  cases result with
  | ok value => exact after.1 s' rfl after.2
  | error thrown =>
      intro s'' same
      obtain rfl : s' = s'' := same
      exact after

/-- What a part of the system does. -/
theorem unrefused_system {ok : Op → Prop} {I : Interference σ} {q : Program Op Res β}
    (straight : q.Calls ok) (holds : Sat H I q Q state) :
    Unrefused H max_size refuses (system q : Throwing Op Res Note β) Q state := by
  intro s here granted
  subst here
  show Sat _ _ q.guard _ s
  induction q generalizing s with
  | done value =>
      intro s' same
      obtain rfl : s = s' := same
      exact ⟨holds _ (I.rely_refl _), granted⟩
  | call op next ih =>
      intro s₁ same answer s₂ ran
      obtain rfl : s = s₁ := same
      refine ⟨trivial, ?_⟩
      obtain ⟨ran, kept⟩ := ran
      cases answer with
      | none =>
          obtain rfl := ran
          intro s₃ same
          obtain rfl := same
          refine ⟨kept.resolve_right fun same => ?_, fun granted' => absurd granted'.2 (by simp)⟩
          exact absurd (same.trans granted.2) (by simp)
      | some answer =>
          obtain ⟨state', ran, rfl⟩ := ran
          let after : Noted Note σ := { s with state := state' }
          have rest : Sat H I (next answer) Q after.state := (holds _ (I.rely_refl _) _ _ ran).2
          exact ih answer (straight.2 answer) after granted rest
  | fork count child join => exact straight.elim
  | spin => exact holds

theorem unrefused_allocate {size : Nat} {g : Unit → Throwing Op Res Note β}
    (fits : refuses ∨ size ≤ max_size) (holds : Unrefused H max_size refuses (g ()) Q state) :
    Unrefused H max_size refuses (allocate max_size size >>= g) Q state := by
  apply Unrefused.bind
  intro s here granted s₁ same answer s₂ ran
  obtain rfl : s = s₁ := same
  obtain ⟨⟨small, rfl⟩, kept⟩ := ran
  refine ⟨trivial, fun s₃ same => ?_⟩
  obtain rfl := same
  obtain ⟨sizes, memory⟩ := granted
  cases answer with
  | true =>
      rw [← here] at holds
      refine ⟨holds, ?_, by simp [memory]⟩
      intro asked member
      rcases List.mem_append.mp member with member | member
      · exact sizes asked member
      · rw [List.mem_singleton.mp member]
        exact small rfl
  | false =>
      show refuses ∧ ¬ Noted.Granted max_size _
      constructor
      · rcases fits with refusing | le
        · exact refusing
        · apply kept.resolve_right
          simp [le, memory]
      · intro granted
        have le : size ≤ max_size := granted.1 size (by simp)
        have left := granted.2
        simp [le] at left

/-- A call that the system answers is answered where it grants what it may. -/
theorem exists_sparing (answered : ∀ op s, ∃ answer s', H.exec op s answer s')
    (op : Guarded Op Note) (s : Noted Note σ) :
    ∃ answer s', (Handler.sparing H max_size refuses).exec op s answer s' := by
  cases op with
  | sys op =>
      obtain ⟨answer, s', ran⟩ := answered op s.state
      exact ⟨some answer, { s with state := s' }, ⟨s', ran, rfl⟩, .inr rfl⟩
  | alloc size =>
      refine ⟨decide (size ≤ max_size), _, ⟨by simp, rfl⟩, .inr ?_⟩
      by_cases le : size ≤ max_size <;> simp [le]
  | note what => exact ⟨(), _, rfl, .inr rfl⟩

/-- Such a program ends, and unless it was refused something it has returned. -/
theorem Unrefused.returns {p : Throwing Op Res Note β}
    (holds : Unrefused H max_size True p Q state)
    (enough : ¬ H.spins) (answered : ∀ op s, ∃ answer s', H.exec op s answer s') :
    Returns (H.guarded max_size).exec
      (fun result (s' : Noted Note σ) => s'.Granted max_size →
        ∃ value, result = .ok value ∧ Q value s'.state)
      p.run (Noted.start state) := by
  have sat := holds (Noted.start state) rfl (Noted.granted_start max_size state)
  have guarded : Sat (H.guarded max_size) .free p.run _ (Noted.start state) :=
    sat.restrict (fun op s answer s' ran => ⟨ran, .inl trivial⟩) id
  apply (guarded.weaken _).returns enough
  · intro op s
    obtain ⟨answer, s', ran, -⟩ :=
      @exists_sparing _ _ Note _ H max_size True answered op s
    exact ⟨answer, s', ran⟩
  · intro result s' after granted
    cases result with
    | ok value => exact ⟨value, rfl, after.1⟩
    | error thrown => exact absurd granted after.2

/-- What cannot return where the system answers in some of its ways does not end. -/
theorem Unrefused.endless {H' : Handler Op Res σ} {p : Throwing Op Res Note β}
    (holds : Unrefused H' max_size False p (fun _ _ => False) state)
    (answered : ∀ op s, ∃ answer s', H'.exec op s answer s')
    (le : ∀ op s answer s', H'.exec op s answer s' → H.exec op s answer s')
    {R : Except Thrown β → Noted Note σ → Prop} :
    ¬ Returns (H.guarded max_size).exec R p.run (Noted.start state) := by
  intro returns
  have sat := holds (Noted.start state) rfl (Noted.granted_start max_size state)
  obtain ⟨result, s', run⟩ := returns.within
    (@exists_sparing _ _ Note _ H' max_size False answered)
    (fun op s answer s' ran => guardedExec_mono le ran.1)
  have impossible := sat.returned run
  cases result with
  | ok value => exact impossible.1
  | error thrown => exact impossible.1

end

/-- The program keeps `Inv`, makes no note, and throws just when it is refused something. -/
def Fair (H : Handler Op Res σ) (max_size : Nat) (Inv : σ → Prop) (p : Throwing Op Res Note α) :
    Prop :=
  ∀ s : Noted Note σ, Inv s.state → s.Granted max_size →
    Sat (H.guarded max_size) .free p.run (fun result s' =>
      Inv s'.state ∧ s'.notes = s.notes ∧ (result.isOk = true ↔ s'.Granted max_size)) s

variable {H : Handler Op Res σ} {max_size : Nat} {Inv : σ → Prop}

theorem Fair.pure (value : α) : Fair H max_size Inv (pure value : Throwing Op Res Note α) := by
  intro s inv granted s' same
  obtain rfl : s = s' := same
  exact ⟨inv, rfl, by simp [granted, Except.isOk, Except.toBool]⟩

theorem Fair.bind {p : Throwing Op Res Note α} {f : α → Throwing Op Res Note β}
    (first : Fair H max_size Inv p) (second : ∀ value, Fair H max_size Inv (f value)) :
    Fair H max_size Inv (p >>= f) := by
  intro s inv granted
  apply Throwing.sat_bind
  apply (first s inv granted).weaken
  rintro result s' ⟨inv', notes, fair⟩
  cases result with
  | ok value =>
      apply (second value s' inv' (fair.mp rfl)).weaken
      rintro result' s'' ⟨inv'', notes', fair'⟩
      exact ⟨inv'', notes'.trans notes, fair'⟩
  | error thrown => exact ⟨inv', notes, fair⟩

/-- What follows such a program is run, unless it was refused something. -/
theorem Fair.sat_bind {p : Throwing Op Res Note α} {f : α → Throwing Op Res Note β}
    {Q : Except Thrown β → Noted Note σ → Prop} {s : Noted Note σ} (fair : Fair H max_size Inv p)
    (inv : Inv s.state) (granted : s.Granted max_size)
    (rest : ∀ value s', Inv s'.state → s'.notes = s.notes → s'.Granted max_size →
      Sat (H.guarded max_size) .free (f value).run Q s')
    (skipped : ∀ thrown s', Inv s'.state → ¬ s'.Granted max_size → Q (.error thrown) s') :
    Sat (H.guarded max_size) .free (p >>= f).run Q s := by
  apply Throwing.sat_bind
  apply (fair s inv granted).weaken
  rintro result s' ⟨inv', notes, same⟩
  cases result with
  | ok value => exact rest value s' inv' notes (same.mp rfl)
  | error thrown =>
      apply skipped thrown s' inv'
      intro granted'
      exact absurd (same.mpr granted') (by simp [Except.isOk, Except.toBool])

theorem Fair.ite {c : Prop} [Decidable c] {p q : Throwing Op Res Note α}
    (yes : c → Fair H max_size Inv p) (no : ¬ c → Fair H max_size Inv q) :
    Fair H max_size Inv (if c then p else q) := by
  split
  · next h => exact yes h
  · next h => exact no h

theorem fair_allocate (bound size : Nat) :
    Fair H max_size Inv (allocate bound size : Throwing Op Res Note Unit) := by
  intro s inv granted s₁ same answer s₂ ran
  obtain rfl : s = s₁ := same
  obtain ⟨small, rfl⟩ := ran
  refine ⟨trivial, fun s₃ same => ?_⟩
  obtain rfl := same
  refine ⟨inv, rfl, ?_⟩
  obtain ⟨sizes, memory⟩ := granted
  cases answer with
  | true =>
      have le := small rfl
      have all : ∀ asked ∈ s.requests ++ [size], asked ≤ max_size := by
        intro asked member
        rcases List.mem_append.mp member with member | member
        · exact sizes asked member
        · rwa [List.mem_singleton.mp member]
      simpa [Except.isOk, Except.toBool, Noted.Granted, memory] using all
  | false =>
      have refused : ¬ ((∀ asked ∈ s.requests ++ [size], asked ≤ max_size) ∧
          (s.exhausted || decide (size ≤ max_size)) = false) := by
        rintro ⟨all, left⟩
        have le : size ≤ max_size := all size (by simp)
        simp [le] at left
      simpa [Except.isOk, Except.toBool, Noted.Granted] using refused

/-- A part of the system that only makes calls which keep the invariant. -/
theorem fair_system {ok : Op → Prop} {p : Program Op Res α} (loops : H.spins)
    (straight : p.Calls ok)
    (each : ∀ op s answer s', ok op → Inv s → H.exec op s answer s' → Inv s') :
    Fair H max_size Inv (system p : Throwing Op Res Note α) := by
  intro s inv granted
  let I : Interference σ := .alone (fun s s' => Inv s → Inv s') fun _ h => h
  have runs : Sat H I p (fun _ s' => Inv s') s.state := by
    apply straight.all.sat Inv inv _ _ loops
    · intro s s' same now
      rwa [← (same : s = s')]
    · intro op s answer s' allowed now ran
      have after := each op s answer s' allowed now ran
      exact ⟨fun _ => after, after⟩
  have guarded := @sat_system _ _ Note _ _ H max_size s ok I _ p Inv straight inv
    (fun s s' promised now => promised now) runs
  apply guarded.weaken
  intro result s' outcome
  cases result with
  | ok value =>
      obtain ⟨-, inv', same⟩ := outcome
      refine ⟨inv', by rw [same], ?_⟩
      rw [same]
      exact ⟨fun _ => granted, fun _ => rfl⟩
  | error thrown =>
      obtain ⟨inv', same⟩ := outcome
      refine ⟨inv', by rw [same], ?_⟩
      rw [same]
      simp [Except.isOk, Except.toBool, Noted.Granted]

end Throwing

end SyncTool
