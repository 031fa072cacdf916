import Mathlib.Data.Fintype.Basic
import Mathlib.Logic.Relation

set_option autoImplicit false

namespace SyncTool

/-- A program over a signature of calls: it returns, makes one call and continues with
the answer, forks a fixed number of children and joins on their verdicts, or spins (a
loop that has used up the fuel it was given and is still running). -/
inductive Program (Op : Type) (Res : Op → Type) : Type → Type 1 where
  | done {α : Type} (value : α) : Program Op Res α
  | call {α : Type} (op : Op) (next : Res op → Program Op Res α) : Program Op Res α
  | fork {α : Type} (count : Nat) (child : Fin count → Program Op Res Bool)
      (join : (Fin count → Bool) → Program Op Res α) : Program Op Res α
  | spin {α : Type} : Program Op Res α

namespace Program

variable {Op : Type} {Res : Op → Type} {α β γ σ : Type}

def bind : {α : Type} → Program Op Res α → (α → Program Op Res β) → Program Op Res β
  | _, .done value, f => f value
  | _, .call op next, f => .call op fun answer => bind (next answer) f
  | _, .fork count child join, f => .fork count child fun verdicts => bind (join verdicts) f
  | _, .spin, _ => .spin

instance : Monad (Program Op Res) where
  pure := .done
  bind := bind

/-- One call whose answer is the result. -/
def ask (op : Op) : Program Op Res (Res op) := .call op .done

@[simp] theorem pure_eq (value : α) : (pure value : Program Op Res α) = .done value := rfl

@[simp] theorem done_bind (value : α) (f : α → Program Op Res β) : (.done value >>= f) = f value :=
  rfl

@[simp] theorem call_bind (op : Op) (next : Res op → Program Op Res α)
    (f : α → Program Op Res β) :
    (.call op next >>= f) = .call op fun answer => next answer >>= f := rfl

@[simp] theorem ask_bind (op : Op) (f : Res op → Program Op Res β) : (ask op >>= f) = .call op f :=
  rfl

@[simp] theorem fork_bind (count : Nat) (child : Fin count → Program Op Res Bool)
    (join : (Fin count → Bool) → Program Op Res α) (f : α → Program Op Res β) :
    (.fork count child join >>= f) = .fork count child fun verdicts => join verdicts >>= f := rfl

@[simp] theorem spin_bind (f : α → Program Op Res β) : ((.spin : Program Op Res α) >>= f) = .spin :=
  rfl

@[simp] theorem bind_done (p : Program Op Res α) : (p >>= .done) = p := by
  induction p with
  | done value => rfl
  | call op next ih => simp only [call_bind, ih]
  | fork count child join _ ih => simp only [fork_bind, ih]
  | spin => rfl

theorem bind_assoc (p : Program Op Res α) (f : α → Program Op Res β)
    (g : β → Program Op Res γ) :
    (p >>= f >>= g) = (p >>= fun value => f value >>= g) := by
  induction p with
  | done value => rfl
  | call op next ih => simp only [call_bind, ih]
  | fork count child join _ ih => simp only [fork_bind, ih]
  | spin => rfl

/-- What a program has returned. -/
def value? : {α : Type} → Program Op Res α → Option α
  | _, .done value => some value
  | _, _ => none

theorem value?_eq_some {p : Program Op Res α} {value : α} :
    p.value? = some value ↔ p = .done value := by
  cases p <;> simp [value?]

variable (exec : (op : Op) → σ → Res op → σ → Prop)

/-- One step: a call, a step of one forked child, or the join of children that have all
returned. `exec op s answer s'` says that the call `op` may answer `answer` in state `s` and leave
`s'`. -/
inductive Step : {α : Type} → Program Op Res α → σ → Program Op Res α → σ → Prop where
  | call {α : Type} {op : Op} {next : Res op → Program Op Res α} {s s' : σ} {answer : Res op} :
      exec op s answer s' → Step (.call op next) s (next answer) s'
  | child {α : Type} {count : Nat} {child : Fin count → Program Op Res Bool}
      {join : (Fin count → Bool) → Program Op Res α} {s s' : σ} (i : Fin count)
      {p' : Program Op Res Bool} :
      Step (child i) s p' s' →
        Step (.fork count child join) s (.fork count (Function.update child i p') join) s'
  | join {α : Type} {count : Nat} {child : Fin count → Program Op Res Bool}
      {join : (Fin count → Bool) → Program Op Res α} {s : σ} (verdicts : Fin count → Bool) :
      (∀ i, child i = .done (verdicts i)) → Step (.fork count child join) s (join verdicts) s

/-- Runs in which the steps of the program interleave with steps of its environment. -/
inductive Reach (rely : σ → σ → Prop) (p : Program Op Res α) (s : σ) :
    Program Op Res α → σ → Prop where
  | refl : Reach rely p s p s
  | step {p₁ p₂ : Program Op Res α} {s₁ s₂ : σ} :
      Reach rely p s p₁ s₁ → Step exec p₁ s₁ p₂ s₂ → Reach rely p s p₂ s₂
  | env {p₁ : Program Op Res α} {s₁ s₂ : σ} :
      Reach rely p s p₁ s₁ → rely s₁ s₂ → Reach rely p s p₁ s₂

variable {exec}

theorem Reach.trans {rely : σ → σ → Prop} {p p₁ p₂ : Program Op Res α} {s s₁ s₂ : σ}
    (first : Reach exec rely p s p₁ s₁) (second : Reach exec rely p₁ s₁ p₂ s₂) :
    Reach exec rely p s p₂ s₂ := by
  induction second with
  | refl => exact first
  | step _ one ih => exact ih.step one
  | env _ drift ih => exact ih.env drift

theorem Reach.relax {rely rely' : σ → σ → Prop} (le : ∀ s s', rely s s' → rely' s s')
    {p p' : Program Op Res α} {s s' : σ} (run : Reach exec rely p s p' s') :
    Reach exec rely' p s p' s' := by
  induction run with
  | refl => exact .refl
  | step _ one ih => exact ih.step one
  | env _ drift ih => exact ih.env (le _ _ drift)

theorem Step.mono {exec' : (op : Op) → σ → Res op → σ → Prop}
    (le : ∀ op s answer s', exec op s answer s' → exec' op s answer s')
    {p p' : Program Op Res α} {s s' : σ} (one : Step exec p s p' s') : Step exec' p s p' s' := by
  induction one with
  | call h => exact .call (le _ _ _ _ h)
  | child i _ ih => exact .child i ih
  | join verdicts all => exact .join verdicts all

theorem not_step_done {value : α} {s s' : σ} {p' : Program Op Res α} :
    ¬ Step exec (.done value) s p' s' := by
  intro one
  cases one

theorem not_step_spin {s s' : σ} {p' : Program Op Res α} :
    ¬ Step exec (.spin : Program Op Res α) s p' s' := by
  intro one
  cases one

/-- What has returned stays as it is. -/
theorem Reach.of_done {rely : σ → σ → Prop} {value : α} {p : Program Op Res α} {s s' : σ}
    (run : Reach exec rely (.done value) s p s') : p = .done value := by
  induction run with
  | refl => rfl
  | step _ one ih =>
      rw [ih] at one
      exact absurd one not_step_done
  | env _ _ ih => exact ih

/-- A step goes on in the same way where more is to follow. -/
theorem Step.bind {p p' : Program Op Res α} {s s' : σ} (one : Step exec p s p' s')
    (f : α → Program Op Res β) : Step exec (p >>= f) s (p' >>= f) s' := by
  cases one with
  | call ran => exact .call ran
  | child i one => exact .child i one
  | join verdicts all => exact .join verdicts all

/-- A run goes on in the same way where more is to follow. -/
theorem Reach.bind {rely : σ → σ → Prop} {p p' : Program Op Res α} {s s' : σ}
    (run : Reach exec rely p s p' s') (f : α → Program Op Res β) :
    Reach exec rely (p >>= f) s (p' >>= f) s' := by
  induction run with
  | refl => exact .refl
  | step _ one ih => exact ih.step (one.bind f)
  | env _ drift ih => exact ih.env drift

/-- A step of a sequence is one of its first part, unless that has returned. -/
theorem Step.of_bind {p : Program Op Res α} {f : α → Program Op Res β} {q : Program Op Res β}
    {s s' : σ} (one : Step exec (p >>= f) s q s') :
    (∃ p', q = (p' >>= f) ∧ Step exec p s p' s') ∨ ∃ value, p = .done value := by
  cases p with
  | done value => exact .inr ⟨value, rfl⟩
  | call op next =>
      rw [call_bind] at one
      cases one with
      | call ran => exact .inl ⟨_, rfl, .call ran⟩
  | fork count child join =>
      rw [fork_bind] at one
      cases one with
      | child i one => exact .inl ⟨.fork count _ join, rfl, .child i one⟩
      | join verdicts all => exact .inl ⟨_, rfl, .join verdicts all⟩
  | spin => exact absurd one not_step_spin

/-- A run of a sequence is still in its first part, or that has returned. -/
theorem Reach.of_bind {rely : σ → σ → Prop} {p : Program Op Res α} {f : α → Program Op Res β}
    {q : Program Op Res β} {s s' : σ} (run : Reach exec rely (p >>= f) s q s') :
    (∃ p', q = (p' >>= f) ∧ Reach exec rely p s p' s') ∨
      ∃ value s₁, Reach exec rely p s (.done value) s₁ ∧ Reach exec rely (f value) s₁ q s' := by
  induction run with
  | refl => exact .inl ⟨p, rfl, .refl⟩
  | step _ one ih =>
      rcases ih with ⟨p', rfl, before⟩ | ⟨value, s₁, before, after⟩
      · rcases one.of_bind with ⟨p'', rfl, one'⟩ | ⟨value, rfl⟩
        · exact .inl ⟨p'', rfl, before.step one'⟩
        · exact .inr ⟨value, _, before, Reach.refl.step one⟩
      · exact .inr ⟨value, s₁, before, after.step one⟩
  | env _ drift ih =>
      rcases ih with ⟨p', rfl, before⟩ | ⟨value, s₁, before, after⟩
      · exact .inl ⟨p', rfl, before.env drift⟩
      · exact .inr ⟨value, s₁, before, after.env drift⟩

end Program

end SyncTool
