import SyncTool.ProgramLogic

set_option autoImplicit false

namespace SyncTool

open Program

variable {Op : Type} {Res : Op → Type} {σ α β : Type}

/-- Two programs that run side by side, each on a state of its own. -/
structure Pair (Op : Type) (Res : Op → Type) (σ α β : Type) where
  left : Program Op Res α
  here : σ
  right : Program Op Res β
  there : σ

/-- Calls that leave a state of a kind. -/
def Within (exec : (op : Op) → σ → Res op → σ → Prop) (inside : σ → Prop) (op : Op) (s : σ)
    (answer : Res op) (s' : σ) : Prop :=
  exec op s answer s' ∧ inside s'

theorem Program.Step.within {exec : (op : Op) → σ → Res op → σ → Prop} {inside : σ → Prop}
    {p p' : Program Op Res α} {s s' : σ} (one : Step exec p s p' s') (after : inside s') :
    Step (Within exec inside) p s p' s' := by
  induction one with
  | call h => exact .call ⟨h, after⟩
  | child i _ ih => exact .child i (ih after)
  | join verdicts all => exact .join verdicts all

theorem Program.Step.of_within {exec : (op : Op) → σ → Res op → σ → Prop} {inside : σ → Prop}
    {p p' : Program Op Res α} {s s' : σ} (one : Step (Within exec inside) p s p' s')
    (before : inside s) : Step exec p s p' s' ∧ inside s' := by
  induction one with
  | call h => exact ⟨.call h.1, h.2⟩
  | child i _ ih => exact ⟨.child i (ih before).1, (ih before).2⟩
  | join verdicts all => exact ⟨.join verdicts all, before⟩

theorem Program.Reach.mono {exec exec' : (op : Op) → σ → Res op → σ → Prop}
    {rely : σ → σ → Prop} (le : ∀ op s answer s', exec op s answer s' → exec' op s answer s')
    {p p' : Program Op Res α} {s s' : σ} (run : Reach exec rely p s p' s') :
    Reach exec' rely p s p' s' := by
  induction run with
  | refl => exact .refl
  | step _ one ih => exact ih.step (one.mono le)
  | env _ drift ih => exact ih.env drift

namespace Pair

/-- Either side makes a step, or what surrounds the left one moves; what the two have said to
each other stays consistent. -/
inductive Step (exec exec' : (op : Op) → σ → Res op → σ → Prop) (drift linked : σ → σ → Prop) :
    Pair Op Res σ α β → Pair Op Res σ α β → Prop where
  | left {pair : Pair Op Res σ α β} {p : Program Op Res α} {s : σ} :
      Program.Step exec pair.left pair.here p s → linked s pair.there →
      Step exec exec' drift linked pair { pair with left := p, here := s }
  | right {pair : Pair Op Res σ α β} {q : Program Op Res β} {t : σ} :
      Program.Step exec' pair.right pair.there q t → linked pair.here t →
      Step exec exec' drift linked pair { pair with right := q, there := t }
  | drift {pair : Pair Op Res σ α β} {s : σ} : drift pair.here s → linked s pair.there →
      Step exec exec' drift linked pair { pair with here := s }

section

variable {exec exec' : (op : Op) → σ → Res op → σ → Prop} {drift linked : σ → σ → Prop}
  {start now : Pair Op Res σ α β}

theorem linked_of_run (first : linked start.here start.there)
    (run : Relation.ReflTransGen (Step exec exec' drift linked) start now) :
    linked now.here now.there := by
  cases run with
  | refl => exact first
  | tail _ one =>
      cases one with
      | left _ after => exact after
      | right _ after => exact after
      | drift _ after => exact after

/-- What the left side does is a run of its own. -/
theorem left_reach (run : Relation.ReflTransGen (Step exec exec' drift linked) start now) :
    Reach exec drift start.left start.here now.left now.here := by
  induction run with
  | refl => exact .refl
  | tail _ one ih =>
      cases one with
      | left one _ => exact ih.step one
      | right _ _ => exact ih
      | drift moved _ => exact ih.env moved

/-- What the right side does is a run of its own, fed with what the left side has said by now. -/
theorem right_reach (fed : σ → σ → Prop) (of_linked : ∀ s t, linked s t → fed s t)
    (kept : ∀ p s p' s' t, @Program.Step Op Res σ exec α p s p' s' → fed s t → fed s' t)
    (kept_drift : ∀ s s' t, drift s s' → fed s t → fed s' t)
    (run : Relation.ReflTransGen (Step exec exec' drift linked) start now) :
    Reach (Within exec' (fed now.here)) Eq start.right start.there now.right now.there := by
  induction run with
  | refl => exact .refl
  | tail _ one ih =>
      cases one with
      | left one _ =>
          apply ih.mono
          rintro op s answer s' ⟨h, inside⟩
          exact ⟨h, kept _ _ _ _ _ one inside⟩
      | right one after => exact ih.step (one.within (of_linked _ _ after))
      | drift moved _ =>
          apply ih.mono
          rintro op s answer s' ⟨h, inside⟩
          exact ⟨h, kept_drift _ _ _ moved inside⟩

/-- A run of the left side while the right one waits. -/
theorem of_left_reach {p p' : Program Op Res α} {q : Program Op Res β} {s s' t : σ}
    (first : linked s t) (run : Reach (Within exec (linked · t)) Eq p s p' s') :
    Relation.ReflTransGen (Step exec exec' drift linked) ⟨p, s, q, t⟩ ⟨p', s', q, t⟩ ∧
      linked s' t := by
  induction run with
  | refl => exact ⟨.refl, first⟩
  | step _ one ih =>
      obtain ⟨one, after⟩ := one.of_within ih.2
      exact ⟨ih.1.tail (.left one after), after⟩
  | env _ same ih => exact same ▸ ih

/-- A run of the right side while the left one waits. -/
theorem of_right_reach {p : Program Op Res α} {q q' : Program Op Res β} {s t t' : σ}
    (first : linked s t) (run : Reach (Within exec' (linked s)) Eq q t q' t') :
    Relation.ReflTransGen (Step exec exec' drift linked) ⟨p, s, q, t⟩ ⟨p, s, q', t'⟩ ∧
      linked s t' := by
  induction run with
  | refl => exact ⟨.refl, first⟩
  | step _ one ih =>
      obtain ⟨one, after⟩ := one.of_within ih.2
      exact ⟨ih.1.tail (.right one after), after⟩
  | env _ same ih => exact same ▸ ih

/-- What runs on the left goes on in the same way where more is to follow there. -/
theorem bind {γ : Type} {p p' : Program Op Res α} {q q' : Program Op Res β} {s s' t t' : σ}
    (run : Relation.ReflTransGen (Step exec exec' drift linked) ⟨p, s, q, t⟩ ⟨p', s', q', t'⟩)
    (f : α → Program Op Res γ) :
    Relation.ReflTransGen (Step exec exec' drift linked) ⟨p >>= f, s, q, t⟩
      ⟨p' >>= f, s', q', t'⟩ := by
  apply run.lift fun pair : Pair Op Res σ α β =>
    (⟨pair.left >>= f, pair.here, pair.right, pair.there⟩ : Pair Op Res σ γ β)
  intro before after one
  cases one with
  | left one kept => exact .left (one.bind f) kept
  | right one kept => exact .right one kept
  | drift moved kept => exact .drift moved kept

/-- A sequence on the left is still in its first part, or that has returned. -/
theorem of_bind {γ : Type} {p : Program Op Res α} {f : α → Program Op Res γ}
    {q : Program Op Res β} {s t : σ} {now : Pair Op Res σ γ β}
    (run : Relation.ReflTransGen (Step exec exec' drift linked) ⟨p >>= f, s, q, t⟩ now) :
    (∃ p', now.left = (p' >>= f) ∧ Relation.ReflTransGen (Step exec exec' drift linked)
        ⟨p, s, q, t⟩ ⟨p', now.here, now.right, now.there⟩) ∨
      ∃ value s₁ q₁ t₁, Relation.ReflTransGen (Step exec exec' drift linked) ⟨p, s, q, t⟩
          ⟨.done value, s₁, q₁, t₁⟩ ∧
        Relation.ReflTransGen (Step exec exec' drift linked) ⟨f value, s₁, q₁, t₁⟩ now := by
  induction run with
  | refl => exact .inl ⟨p, rfl, .refl⟩
  | @tail now after _ one ih =>
      rcases ih with ⟨p', same, before⟩ | ⟨value, s₁, q₁, t₁, before, more⟩
      · obtain ⟨left, here, right, there⟩ := now
        subst same
        cases one with
        | left one kept =>
            rcases one.of_bind with ⟨p'', rfl, one'⟩ | ⟨value, rfl⟩
            · exact .inl ⟨p'', rfl, before.tail (.left one' kept)⟩
            · exact .inr ⟨value, here, right, there, before, .single (.left one kept)⟩
        | right one kept => exact .inl ⟨p', rfl, before.tail (.right one kept)⟩
        | drift moved kept => exact .inl ⟨p', rfl, before.tail (.drift moved kept)⟩
      · exact .inr ⟨value, s₁, q₁, t₁, before, more.tail one⟩

end

end Pair

end SyncTool
