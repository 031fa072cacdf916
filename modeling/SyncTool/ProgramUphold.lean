import SyncTool.ProgramPair
import SyncTool.ProgramThrow

set_option autoImplicit false

namespace SyncTool

namespace Pair

open Program

variable {Op : Type} {Res : Op → Type} {σ α β : Type}
  {exec exec' : (op : Op) → σ → Res op → σ → Prop} {drift linked : σ → σ → Prop}
  {start now : Pair Op Res σ α β}

/-- What the left side does is a run of its own, fed with what the right side has said by now. -/
theorem left_reach_fed (fed : σ → σ → Prop) (of_linked : ∀ s t, linked s t → fed t s)
    (kept : ∀ q t q' t' s, @Program.Step Op Res σ exec' β q t q' t' → fed t s → fed t' s)
    (run : Relation.ReflTransGen (Step exec exec' drift linked) start now) :
    Reach (Within exec (fed now.there)) drift start.left start.here now.left now.here := by
  induction run with
  | refl => exact .refl
  | tail _ one ih =>
      cases one with
      | left one after => exact ih.step (one.within (of_linked _ _ after))
      | right one _ =>
          apply ih.mono
          rintro op s answer s' ⟨h, inside⟩
          exact ⟨h, kept _ _ _ _ _ one inside⟩
      | drift moved _ => exact ih.env moved

end Pair

namespace Program

/-- A run within a kind of state has reached one. -/
theorem Reach.inside {Op : Type} {Res : Op → Type} {α σ : Type}
    {exec : (op : Op) → σ → Res op → σ → Prop} {within : σ → Prop} {rely : σ → σ → Prop}
    {p p' : Program Op Res α} {s s' : σ} (run : Reach (Within exec within) rely p s p' s')
    (first : within s) (kept : ∀ s s', rely s s' → within s → within s') : within s' := by
  induction run with
  | refl => exact first
  | step _ one ih => exact (one.of_within ih).2
  | env _ drift ih => exact kept _ _ drift ih

variable {Op Note : Type} {Res : Op → Type} {α β σ : Type} {max_size : Nat} {rely : σ → σ → Prop}

/-- What has returned leaves the steps to its environment. -/
theorem Reach.idle {exec : (op : Op) → σ → Res op → σ → Prop} {value : α} {value' : β}
    {q : Program Op Res α} {s s' : σ} (run : Reach exec rely (.done value) s q s') :
    Reach exec rely (.done value') s (.done value') s' := by
  induction run with
  | refl => exact .refl
  | step before one _ =>
      have ended := before.of_done
      subst ended
      exact absurd one not_step_done
  | env _ drift ih => exact ih.env drift

/-- A run of what may be refused memory is a run of the program itself, or was cut short. -/
theorem Reach.of_guard {exec : (op : Op) → σ → Res op → σ → Prop} {ok : Op → Prop}
    {p : Program Op Res α} {q : Program (Guarded Op Note) (GuardedRes Res) (Except Thrown α)}
    {s s' : Noted Note σ} (straight : p.Calls ok)
    (run : Reach (guardedExec exec max_size) (fun s s' => rely s.state s'.state) p.guard s q s') :
    (∃ p' : Program Op Res α, p'.Calls ok ∧ q = p'.guard ∧ Reach exec rely p s.state p' s'.state) ∨
      q = .done (.error .bad_alloc) := by
  induction run with
  | refl => exact .inl ⟨p, straight, rfl, .refl⟩
  | step _ one ih =>
      rcases ih with ⟨p', straight', rfl, sofar⟩ | rfl
      · cases p' with
        | done value => exact absurd one not_step_done
        | call op next =>
            cases one with
            | @call _ _ _ _ _ answer ran =>
                cases answer with
                | none => exact .inr rfl
                | some answer =>
                    obtain ⟨after, ran, rfl⟩ := ran
                    exact .inl ⟨next answer, straight'.2 answer, rfl, sofar.step (.call ran)⟩
        | fork count child join => exact straight'.elim
        | spin => exact absurd one not_step_spin
      · exact absurd one not_step_done
  | env _ drift ih =>
      rcases ih with ⟨p', straight', rfl, sofar⟩ | rfl
      · exact .inl ⟨p', straight', rfl, sofar.env drift⟩
      · exact .inr rfl

end Program

namespace Throwing

open Program

variable {Op : Type} {Res : Op → Type} {Note α β σ : Type} {H : Handler Op Res σ} {max_size : Nat}
  {I : Interference σ} {state state' : σ}

/-- A run of a sequence is still in its first part, or that has returned. -/
theorem reach_bind
    {exec : (op : Guarded Op Note) → Noted Note σ → GuardedRes Res op → Noted Note σ → Prop}
    {rely : Noted Note σ → Noted Note σ → Prop} {p : Throwing Op Res Note α}
    {f : α → Throwing Op Res Note β}
    {q : Program (Guarded Op Note) (GuardedRes Res) (Except Thrown β)} {s s' : Noted Note σ}
    (run : Reach exec rely (p >>= f).run s q s') :
    (∃ p', Reach exec rely p.run s p' s') ∨
      ∃ value s₁, Reach exec rely p.run s (.done (.ok value)) s₁ ∧
        Reach exec rely (f value).run s₁ q s' := by
  rcases Program.Reach.of_bind run with ⟨p', -, before⟩ | ⟨result, s₁, before, after⟩
  · exact .inl ⟨p', before⟩
  · cases result with
    | ok value => exact .inr ⟨value, s₁, before, after⟩
    | error thrown =>
        have waits :
            Reach exec rely (.done (.error thrown) : Program _ _ (Except Thrown α)) s₁ _ s' :=
          Program.Reach.idle after
        exact .inl ⟨.done (.error thrown), before.trans waits⟩

/-- Where the first part returns, the second one begins. -/
theorem reach_bind_ok
    {exec : (op : Guarded Op Note) → Noted Note σ → GuardedRes Res op → Noted Note σ → Prop}
    {rely : Noted Note σ → Noted Note σ → Prop} {p : Throwing Op Res Note α}
    {f : α → Throwing Op Res Note β} {value : α} {s s' : Noted Note σ}
    (run : Reach exec rely p.run s (.done (.ok value)) s') :
    Reach exec rely (p >>= f).run s (f value).run s' :=
  Program.Reach.bind run _

/-- Every run keeps the promise, and `Q` holds where it returns. What is thrown ends the program. -/
def Upholds (H : Handler Op Res σ) (max_size : Nat) (I : Interference σ)
    (p : Throwing Op Res Note α) (Q : α → σ → Prop) (state : σ) : Prop :=
  ∀ s : Noted Note σ, s.state = state →
    Sat (H.guarded max_size) (I.comap Noted.state) p.run
      (fun result s' => ∀ value, result = .ok value → Q value s'.state) s

section

variable {p : Throwing Op Res Note α} {f : α → Throwing Op Res Note β} {q : Throwing Op Res Note β}
  {Q : β → σ → Prop} {s s' : Noted Note σ}
  {now : Program (Guarded Op Note) (GuardedRes Res) (Except Thrown β)}

/-- What the surroundings and the program both keep holds in every state of every run, where the
surroundings do no more than the program puts up with. -/
theorem Upholds.invariant {drift : σ → σ → Prop} (Inv : σ → Prop)
    (holds : Upholds H max_size I q Q s.state) (first : Inv s.state)
    (within : ∀ s s', drift s s' → I.rely s s') (keptDrift : ∀ s s', drift s s' → Inv s → Inv s')
    (keptGuar : ∀ s s', I.guar s s' → Inv s → Inv s')
    (run : Reach (H.guarded max_size).exec (fun s s' => drift s.state s'.state) q.run s now s') :
    Inv s'.state := by
  induction run with
  | refl => exact first
  | @step p₁ p₂ s₁ s₂ run one ih =>
      have relaxed : Reach (H.guarded max_size).exec (I.comap Noted.state).rely q.run s p₁ s₁ :=
        run.relax fun s₁ s₂ => within (Noted.state s₁) (Noted.state s₂)
      exact keptGuar _ _ (((holds s rfl).reach relaxed).step one).1 ih
  | env _ drift ih => exact keptDrift _ _ drift ih

theorem Upholds.returned {drift : σ → σ → Prop} {value : β}
    (holds : Upholds H max_size I q Q s.state) (within : ∀ s s', drift s s' → I.rely s s')
    (run : Reach (H.guarded max_size).exec (fun s s' => drift s.state s'.state) q.run s
      (.done (.ok value)) s') : Q value s'.state := by
  have relaxed : Reach (H.guarded max_size).exec (I.comap Noted.state).rely q.run s
      (.done (.ok value)) s' := run.relax fun s₁ s₂ => within (Noted.state s₁) (Noted.state s₂)
  exact (holds s rfl).returned relaxed value rfl

theorem Upholds.weaken {Q' : β → σ → Prop} (holds : Upholds H max_size I q Q state)
    (weaker : ∀ value s', Q value s' → Q' value s') : Upholds H max_size I q Q' state := by
  intro s here
  apply (holds s here).weaken
  intro result s' after value same
  exact weaker _ _ (after value same)

/-- What holds now still holds after the environment has moved. -/
theorem Upholds.rely (holds : Upholds H max_size I q Q state) (drift : I.rely state state') :
    Upholds H max_size I q Q state' := by
  intro s here
  have before := holds { s with state := state } rfl
  apply before.rely
  show I.rely state s.state
  rwa [here]

theorem upholds_pure {value : β} (holds : ∀ s', I.rely state s' → Q value s') :
    Upholds H max_size I (pure value : Throwing Op Res Note β) Q state := by
  intro s here s' drift value' same
  obtain rfl : value = value' := Except.ok.inj same
  apply holds
  rw [← here]
  exact drift

theorem Upholds.bind
    (holds : Upholds H max_size I p (fun value s' => Upholds H max_size I (f value) Q s') state) :
    Upholds H max_size I (p >>= f) Q state := by
  intro s here
  apply Program.Sat.bind
  apply (holds s here).weaken
  intro result s' after
  cases result with
  | ok value => exact after value rfl s' rfl
  | error thrown =>
      intro s'' _ value same
      cases same

theorem Upholds.ite {c : Prop} {_ : Decidable c} {p q : Throwing Op Res Note β}
    (yes : c → Upholds H max_size I p Q state) (no : ¬ c → Upholds H max_size I q Q state) :
    Upholds H max_size I (if c then p else q) Q state := by
  split
  · next h => exact yes h
  · next h => exact no h

/-- What a part of the system does. -/
theorem upholds_system {ok : Op → Prop} {q : Program Op Res β} (straight : q.Calls ok)
    (holds : Sat H I q Q state) :
    Upholds H max_size I (system q : Throwing Op Res Note β) Q state := by
  intro s here
  show Sat (H.guarded max_size) _ q.guard _ s
  rw [← here] at holds
  clear here
  induction q generalizing s with
  | done value =>
      intro s' drift value' same
      obtain rfl : value = value' := Except.ok.inj same
      exact holds _ drift
  | call op next ih =>
      intro s₁ drift answer s₂ ran
      cases answer with
      | none =>
          obtain rfl := ran
          refine ⟨I.guar_refl _, ?_⟩
          intro s₃ _ value same
          cases same
      | some answer =>
          obtain ⟨after, ran, rfl⟩ := ran
          obtain ⟨promised, rest⟩ := holds _ drift _ _ ran
          let s₂ : Noted Note σ := { s₁ with state := after }
          have rest₂ : Sat H I (next answer) Q s₂.state := rest
          exact ⟨promised, ih answer (straight.2 answer) s₂ rest₂⟩
  | fork count child join => exact straight.elim
  | spin => exact holds

theorem upholds_note {what : Note} {Q : Unit → σ → Prop} (holds : ∀ s', I.rely state s' → Q () s') :
    Upholds H max_size I (note what : Throwing Op Res Note Unit) Q state := by
  intro s here s₁ drift answer s₂ ran
  obtain rfl := ran
  refine ⟨I.guar_refl _, ?_⟩
  intro s₃ drift' value same
  apply holds
  rw [← here]
  exact I.rely_trans _ _ _ drift drift'

theorem upholds_allocate {bound size : Nat} {g : Unit → Throwing Op Res Note β}
    (holds : Upholds H max_size I (g ()) Q state) :
    Upholds H max_size I (allocate bound size >>= g) Q state := by
  apply Upholds.bind
  intro s here s₁ drift granted s₂ ran
  obtain ⟨_, rfl⟩ := ran
  refine ⟨I.guar_refl _, ?_⟩
  intro s₃ drift' value same
  apply holds.rely
  rw [← here]
  exact I.rely_trans _ _ _ drift drift'

/-- What is promised to surroundings that do more is promised to these. -/
theorem Upholds.mono {J : Interference σ} (holds : Upholds H max_size I q Q state) (le : J.Le I) :
    Upholds H max_size J q Q state := by
  intro s here
  have le' : (J.comap (@Noted.state Note σ)).Le (I.comap (@Noted.state Note σ)) :=
    ⟨fun s s' => le.1 s.state s'.state, fun s s' => le.2 s.state s'.state⟩
  exact (holds s here).mono le' fun _ _ after => after

end

/-- Of the system only calls within `ok` are asked for. -/
def within (ok : Op → Prop) : Guarded Op Note → Prop
  | .sys op => ok op
  | _ => True

/-- Whatever the answers are, the program asks the system only for calls within `ok`. -/
def Asks (ok : Op → Prop) (p : Throwing Op Res Note α) : Prop := p.run.Calls (within ok)

section

variable {ok ok' : Op → Prop} {p q : Throwing Op Res Note α} {f : α → Throwing Op Res Note β}

theorem asks_pure (value : α) : Asks ok (pure value : Throwing Op Res Note α) := trivial

theorem Asks.mono (asks : Asks ok p) (weaker : ∀ op, ok op → ok' op) : Asks ok' p := by
  apply Calls.mono asks
  intro op inside
  cases op with
  | sys op => exact weaker op inside
  | alloc size => trivial
  | note what => trivial

theorem Asks.bind (first : Asks ok p) (second : ∀ value, Asks ok (f value)) :
    Asks ok (p >>= f) := by
  apply Calls.bind first
  intro result
  cases result with
  | ok value => exact second value
  | error thrown => trivial

theorem Asks.ite {c : Prop} {_ : Decidable c} (yes : c → Asks ok p) (no : ¬ c → Asks ok q) :
    Asks ok (if c then p else q) := by
  split
  · next h => exact yes h
  · next h => exact no h

theorem asks_system {p : Program Op Res α} (calls : p.Calls ok) :
    Asks ok (system p : Throwing Op Res Note α) := by
  show Calls (within ok) p.guard
  induction p with
  | done value => trivial
  | call op next ih =>
      refine ⟨calls.1, fun answer => ?_⟩
      cases answer with
      | none => trivial
      | some answer => exact ih answer (calls.2 answer)
  | fork count child join => exact calls.elim
  | spin => trivial

theorem asks_allocate (bound size : Nat) :
    Asks ok (allocate bound size : Throwing Op Res Note Unit) := ⟨trivial, fun _ => trivial⟩

theorem asks_note (what : Note) : Asks ok (note what : Throwing Op Res Note Unit) :=
  ⟨trivial, fun _ => trivial⟩

/-- What every call within `ok` keeps, the program keeps. -/
theorem Asks.upholds (asks : Asks ok p) (Q : σ → Prop) (first : Q state)
    (stable : ∀ s s', I.rely s s' → Q s → Q s')
    (each : ∀ op s answer s', ok op → Q s → H.exec op s answer s' → I.guar s s' ∧ Q s')
    (loops : H.spins) : Upholds H max_size I p (fun _ => Q) state := by
  intro s here
  rw [← here] at first
  have kept : Sat (H.guarded max_size) (I.comap Noted.state) p.run (fun _ s' => Q s'.state) s := by
    apply (Calls.all asks).sat (fun s : Noted Note σ => Q s.state) first
    · exact fun s s' => stable s.state s'.state
    · intro op s answer s' inside now ran
      cases op with
      | sys op =>
          cases answer with
          | none =>
              obtain rfl := ran
              exact ⟨I.guar_refl _, now⟩
          | some answer =>
              obtain ⟨after, ran, rfl⟩ := ran
              exact each op s.state answer after inside now ran
      | alloc size =>
          obtain ⟨-, rfl⟩ := ran
          exact ⟨I.guar_refl _, now⟩
      | note what =>
          obtain rfl := ran
          exact ⟨I.guar_refl _, now⟩
    · exact loops
  exact kept.weaken fun _ _ after _ _ => after

end

end Throwing

end SyncTool
