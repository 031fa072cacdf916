import Mathlib.Data.Finset.Lattice.Fold
import Mathlib.Data.Fintype.Basic
import Mathlib.Order.Lattice.Nat
import SyncTool.ProgramThrow

set_option autoImplicit false

namespace SyncTool.Program

variable {Op : Type} {Res : Op → Type} {α β σ : Type}

/-- The interleaved run of children that do not fork themselves, and what each of them takes. Calls
in sequence add up; of children that run at the same time the slowest one counts. -/
inductive Forked (exec : (op : Op) → σ → Res op → σ → Prop) (cost : Op → Nat) {count : Nat} :
    (Fin count → Program Op Res Bool) → σ → (Fin count → Nat) → (Fin count → Bool) → σ → Prop where
  | done {s : σ} (verdicts : Fin count → Bool) :
      Forked exec cost (fun i => .done (verdicts i)) s (fun _ => 0) verdicts s
  | call {child : Fin count → Program Op Res Bool} {s s' s'' : σ} {delays : Fin count → Nat}
      {verdicts : Fin count → Bool} (i : Fin count) {op : Op}
      {next : Res op → Program Op Res Bool} {answer : Res op} :
      child i = .call op next → exec op s answer s' →
      Forked exec cost (Function.update child i (next answer)) s' delays verdicts s'' →
      Forked exec cost child s (Function.update delays i (cost op + delays i)) verdicts s''

/-- The program, running alone from `s`, may return `value` in `s'` after `delay`. -/
inductive Timed (exec : (op : Op) → σ → Res op → σ → Prop) (cost : Op → Nat) :
    {α : Type} → Program Op Res α → σ → Nat → α → σ → Prop where
  | done {α : Type} {value : α} {s : σ} : Timed exec cost (.done value) s 0 value s
  | call {α : Type} {op : Op} {next : Res op → Program Op Res α} {s s' s'' : σ} {answer : Res op}
      {delay : Nat} {value : α} :
      exec op s answer s' → Timed exec cost (next answer) s' delay value s'' →
      Timed exec cost (.call op next) s (cost op + delay) value s''
  | fork {α : Type} {count : Nat} {child : Fin count → Program Op Res Bool}
      {join : (Fin count → Bool) → Program Op Res α} {s s' s'' : σ} {delays : Fin count → Nat}
      {verdicts : Fin count → Bool} {delay : Nat} {value : α} :
      Forked exec cost child s delays verdicts s' →
      Timed exec cost (join verdicts) s' delay value s'' →
      Timed exec cost (.fork count child join) s (Finset.univ.sup delays + delay) value s''

variable {exec : (op : Op) → σ → Res op → σ → Prop} {cost : Op → Nat}

/-- Children do not fork. -/
def Shallow : {α : Type} → Program Op Res α → Prop
  | _, .done _ => True
  | _, .call _ next => ∀ answer, Shallow (next answer)
  | _, .fork _ child join => (∀ i, Calls (fun _ => True) (child i)) ∧
      ∀ verdicts, Shallow (join verdicts)
  | _, .spin => True

theorem Calls.shallow {ok : Op → Prop} {p : Program Op Res α} (calls : Calls ok p) : Shallow p := by
  induction p with
  | done value => trivial
  | call op next ih => exact fun answer => ih answer (calls.2 answer)
  | fork count child join => exact calls.elim
  | spin => trivial

theorem Shallow.bind {p : Program Op Res α} {f : α → Program Op Res β} (first : Shallow p)
    (second : ∀ value, Shallow (f value)) : Shallow (p >>= f) := by
  induction p with
  | done value => exact second value
  | call op next ih => exact fun answer => ih answer (first answer) second
  | fork count child join _ ih =>
      exact ⟨first.1, fun verdicts => ih verdicts (first.2 verdicts) second⟩
  | spin => trivial

theorem Shallow.ite {c : Prop} {_ : Decidable c} {p q : Program Op Res α} (yes : Shallow p)
    (no : Shallow q) :
    Shallow (if c then p else q) := by
  split
  · exact yes
  · exact no

/-- A step of a child that does not fork is a call. -/
theorem Step.of_calls {ok : Op → Prop} {p p' : Program Op Res α} {s s' : σ} (calls : Calls ok p)
    (one : Step exec p s p' s') : ∃ op next answer, p = .call op next ∧ p' = next answer ∧
      exec op s answer s' ∧ Calls ok p' := by
  cases one with
  | call h => exact ⟨_, _, _, rfl, rfl, h, calls.2 _⟩
  | child i one => exact calls.elim
  | join verdicts all => exact calls.elim

theorem Shallow.step {p p' : Program Op Res α} {s s' : σ} (shallow : Shallow p)
    (one : Step exec p s p' s') : Shallow p' := by
  cases one with
  | call h => exact shallow _
  | child i one =>
      obtain ⟨op, next, answer, -, rfl, -, rest⟩ := one.of_calls (shallow.1 i)
      refine ⟨fun j => ?_, shallow.2⟩
      by_cases same : j = i
      · subst same
        rwa [Function.update_self]
      · rw [Function.update_of_ne same]
        exact shallow.1 j
  | join verdicts all => exact shallow.2 verdicts

theorem Timed.of_step {p p' : Program Op Res α} {s s' s'' : σ} {delay : Nat} {value : α}
    (shallow : Shallow p) (one : Step exec p s p' s')
    (timed : Timed exec cost p' s' delay value s'') :
    ∃ longer, Timed exec cost p s longer value s'' := by
  cases one with
  | call h => exact ⟨_, .call h timed⟩
  | child i one =>
      obtain ⟨op, next, answer, same, rfl, h, -⟩ := one.of_calls (shallow.1 i)
      cases timed with
      | fork forked rest => exact ⟨_, .fork (.call i same h forked) rest⟩
  | @join _ count child join _ verdicts all =>
      have finished : child = fun i => .done (verdicts i) := funext all
      subst finished
      exact ⟨_, .fork (.done verdicts) timed⟩

/-- A run that returns takes some time. -/
theorem Timed.of_reach {p : Program Op Res α} {s s' : σ} {value : α} (shallow : Shallow p)
    (run : Reach exec Eq p s (.done value) s') : ∃ delay, Timed exec cost p s delay value s' := by
  suffices general : ∀ p' s₁, Reach exec Eq p s p' s₁ → Shallow p' ∧
      ∀ delay, Timed exec cost p' s₁ delay value s' →
        ∃ longer, Timed exec cost p s longer value s' from
    (general _ _ run).2 0 .done
  intro p' s₁ run
  induction run with
  | refl => exact ⟨shallow, fun delay timed => ⟨delay, timed⟩⟩
  | step _ one ih =>
      refine ⟨ih.1.step one, fun delay timed => ?_⟩
      obtain ⟨longer, before⟩ := timed.of_step ih.1 one
      exact ih.2 longer before
  | env _ same ih => exact same ▸ ih

/-- Calls with a clock that goes on by what they take. -/
def Clocked (exec : (op : Op) → σ → Res op → σ → Prop) (cost : Op → Nat) (op : Op) (s : σ × Nat)
    (answer : Res op) (s' : σ × Nat) : Prop :=
  exec op s.1 answer s'.1 ∧ s'.2 = s.2 + cost op

def clocked (H : Handler Op Res σ) (cost : Op → Nat) : Handler Op Res (σ × Nat) where
  exec := Clocked H.exec cost
  spins := H.spins

variable {H : Handler Op Res σ}

/-- What holds of the clock holds of the time. -/
theorem Sat.timed {ok : Op → Prop} {p : Program Op Res α} {Q : α → σ × Nat → Prop} {s s' : σ}
    {start delay : Nat} {value : α} (calls : Calls ok p)
    (holds : Sat (clocked H cost) .free p Q (s, start))
    (timed : Timed H.exec cost p s delay value s') :
    Q value (s', start + delay) := by
  induction timed generalizing start with
  | done => exact holds _ rfl
  | @call op next s s₁ s'' answer delay value h _ ih =>
      have rest := (holds _ rfl answer (s₁, start + cost op) ⟨h, rfl⟩).2
      have later := ih (calls.2 answer) rest
      rwa [Nat.add_assoc] at later
  | fork forked _ => exact calls.elim

/-- Without its clock, a program does the same. -/
theorem Sat.unclocked {ok : Op → Prop} {p : Program Op Res α} {Q : α → σ → Prop} {s : σ}
    {start : Nat} (calls : Calls ok p)
    (holds : Sat (clocked H cost) .free p (fun value s' => Q value s'.1) (s, start)) :
    Sat H .free p Q s := by
  induction p generalizing s start with
  | done value =>
      rintro s' rfl
      exact holds _ rfl
  | call op next ih =>
      rintro s' rfl answer s'' h
      exact ⟨trivial, ih answer (calls.2 answer)
        (holds _ rfl answer (s'', start + cost op) ⟨h, rfl⟩).2⟩
  | fork count child join => exact calls.elim
  | spin => exact holds

/-- Calls that take no time leave the clock alone. -/
theorem Calls.sat_clocked {ok : Op → Prop} {p : Program Op Res α} {Q : α → σ → Prop} {s : σ × Nat}
    (calls : Calls ok p) (free : ∀ op, ok op → cost op = 0) (holds : Sat H .free p Q s.1) :
    Sat (clocked H cost) .free p (fun value s' => Q value s'.1 ∧ s'.2 = s.2) s := by
  induction p generalizing s with
  | done value =>
      rintro s' rfl
      exact ⟨holds _ rfl, rfl⟩
  | call op next ih =>
      rintro s₁ rfl answer s₂ ⟨ran, moved⟩
      rw [free op calls.1, Nat.add_zero] at moved
      refine ⟨trivial, ?_⟩
      have rest := (holds _ rfl answer _ ran).2
      apply (ih answer (calls.2 answer) rest).weaken
      intro value s' after
      exact ⟨after.1, after.2.trans moved⟩
  | fork count child join => exact calls.elim
  | spin => exact holds

/-- However its calls are answered, a program that has taken `spent` so far returns with `P` of its
value and of the time it has taken in all. -/
def Spends (cost : Op → Nat) : {α : Type} → Program Op Res α → (α → Nat → Prop) → Nat → Prop
  | _, .done value, P, spent => P value spent
  | _, .call op next, P, spent => ∀ answer, Spends cost (next answer) P (spent + cost op)
  | _, .fork count child join, P, spent =>
      ∃ C : Fin count → Bool → Nat → Prop, (∀ i, Spends cost (child i) (C i) 0) ∧
        ∀ verdicts delays, (∀ i, C i (verdicts i) (delays i)) →
          Spends cost (join verdicts) P (spent + Finset.univ.sup delays)
  | _, .spin, _, _ => True

theorem Spends.bind {p : Program Op Res α} {f : α → Program Op Res β} {P : β → Nat → Prop}
    {spent : Nat}
    (first : Spends cost p (fun value spent' => Spends cost (f value) P spent') spent) :
    Spends cost (p >>= f) P spent := by
  induction p generalizing spent with
  | done value => exact first
  | call op next ih => exact fun answer => ih answer (first answer)
  | fork count child join _ ih =>
      obtain ⟨C, children, after⟩ := first
      exact ⟨C, children, fun verdicts delays all => ih verdicts (after verdicts delays all)⟩
  | spin => trivial

/-- A test that is not to be evaluated. -/
theorem Spends.ite {c : Prop} {_ : Decidable c} {p q : Program Op Res α} {P : α → Nat → Prop}
    {spent : Nat} (yes : c → Spends cost p P spent) (no : ¬ c → Spends cost q P spent) :
    Spends cost (if c then p else q) P spent := by
  split
  · next h => exact yes h
  · next h => exact no h

theorem Spends.mono {p : Program Op Res α} {P P' : α → Nat → Prop} {spent : Nat}
    (spends : Spends cost p P spent) (weaker : ∀ value spent', P value spent' → P' value spent') :
    Spends cost p P' spent := by
  induction p generalizing spent with
  | done value => exact weaker _ _ spends
  | call op next ih => exact fun answer => ih answer (spends answer) weaker
  | fork count child join _ ih =>
      obtain ⟨C, children, after⟩ := spends
      exact ⟨C, children, fun verdicts delays all => ih verdicts (after verdicts delays all) weaker⟩
  | spin => trivial

/-- A program whose calls take no time. -/
theorem Calls.spends {ok : Op → Prop} {p : Program Op Res α} (calls : Calls ok p)
    (free : ∀ op, ok op → cost op = 0) (spent : Nat) :
    Spends cost p (fun _ spent' => spent' = spent) spent := by
  induction p with
  | done value => rfl
  | call op next ih =>
      intro answer
      rw [free op calls.1, Nat.add_zero]
      exact ih answer (calls.2 answer)
  | fork count child join => exact calls.elim
  | spin => trivial

theorem Spends.forked {count : Nat} {child : Fin count → Program Op Res Bool} {s s' : σ}
    {delays spent : Fin count → Nat} {verdicts : Fin count → Bool}
    {C : Fin count → Bool → Nat → Prop} (spends : ∀ i, Spends cost (child i) (C i) (spent i))
    (forked : Forked exec cost child s delays verdicts s') :
    ∀ i, C i (verdicts i) (spent i + delays i) := by
  induction forked generalizing spent with
  | done verdicts => exact spends
  | @call child s s' s'' delays verdicts i op next answer same _ _ ih =>
      have first := spends i
      rw [same] at first
      have later := @ih (Function.update spent i (spent i + cost op)) fun j => by
        by_cases here : j = i
        · subst here
          rw [Function.update_self, Function.update_self]
          exact first answer
        · rw [Function.update_of_ne here, Function.update_of_ne here]
          exact spends j
      intro j
      have told := later j
      by_cases here : j = i
      · subst here
        rw [Function.update_self, Nat.add_assoc] at told
        rwa [Function.update_self]
      · rw [Function.update_of_ne here] at told
        rwa [Function.update_of_ne here]

theorem Spends.timed {p : Program Op Res α} {P : α → Nat → Prop} {s s' : σ} {spent delay : Nat}
    {value : α} (spends : Spends cost p P spent) (timed : Timed exec cost p s delay value s') :
    P value (spent + delay) := by
  induction timed generalizing spent with
  | done => exact spends
  | call _ _ ih =>
      have later := ih (spends _)
      rwa [Nat.add_assoc] at later
  | @fork count child join s s₁ s'' delays verdicts delay value forked _ ih =>
      obtain ⟨C, children, after⟩ := spends
      have each := @Spends.forked _ _ _ _ _ _ _ _ _ _ (fun _ => 0) _ _ children forked
      have later := ih (after verdicts delays fun i => by simpa using each i)
      rwa [Nat.add_assoc] at later

end SyncTool.Program
