import SyncTool.Program

set_option autoImplicit false

namespace SyncTool

/-- What a program may suffer from its environment between two of its steps, and what it
promises that each of its own steps does. -/
structure Interference (σ : Type) where
  rely : σ → σ → Prop
  guar : σ → σ → Prop
  rely_refl : ∀ s, rely s s
  rely_trans : ∀ s₁ s₂ s₃, rely s₁ s₂ → rely s₂ s₃ → rely s₁ s₃
  guar_refl : ∀ s, guar s s

namespace Interference

variable {σ : Type}

/-- A program that runs alone and promises `guar` of every step. -/
def alone (guar : σ → σ → Prop) (refl : ∀ s, guar s s) : Interference σ where
  rely s s' := s = s'
  guar := guar
  rely_refl _ := rfl
  rely_trans _ _ _ first second := first.trans second
  guar_refl := refl

/-- A program that runs alone and promises nothing about its steps. -/
def free : Interference σ := alone (fun _ _ => True) fun _ => trivial

/-- What is relied on and promised of a part of the state. -/
def comap {τ : Type} (f : τ → σ) (I : Interference σ) : Interference τ where
  rely s s' := I.rely (f s) (f s')
  guar s s' := I.guar (f s) (f s')
  rely_refl s := I.rely_refl (f s)
  rely_trans _ _ _ := I.rely_trans _ _ _
  guar_refl s := I.guar_refl (f s)

/-- `I` is at most as demanding as `J`: it relies on more and promises less. -/
def Le (I J : Interference σ) : Prop :=
  (∀ s s', I.rely s s' → J.rely s s') ∧ ∀ s s', J.guar s s' → I.guar s s'

theorem Le.refl (I : Interference σ) : I.Le I := ⟨fun _ _ h => h, fun _ _ h => h⟩

theorem Le.trans {I J K : Interference σ} (first : I.Le J) (second : J.Le K) : I.Le K :=
  ⟨fun s s' h => second.1 s s' (first.1 s s' h), fun s s' h => first.2 s s' (second.2 s s' h)⟩

end Interference

/-- How calls are answered, and whether a program may be left spinning. -/
structure Handler (Op : Type) (Res : Op → Type) (σ : Type) where
  exec : (op : Op) → σ → Res op → σ → Prop
  spins : Prop

namespace Program

variable {Op : Type} {Res : Op → Type} {α β σ : Type}

/-- Every run of the program from `s`, whatever the environment does within `rely`, keeps
`guar` at each of its steps and returns only in states that satisfy the postcondition.
A fork is split into children that tolerate each other and an invariant `K` that none of
them breaks. -/
def Sat (H : Handler Op Res σ) : {α : Type} → Interference σ → Program Op Res α →
    (α → σ → Prop) → σ → Prop
  | _, I, .done value, Q, s => ∀ s', I.rely s s' → Q value s'
  | _, I, .call op next, Q, s => ∀ s', I.rely s s' → ∀ answer s'',
      H.exec op s' answer s'' → I.guar s' s'' ∧ Sat H I (next answer) Q s''
  | _, I, .fork count child join, Q, s =>
      ∃ (J : Fin count → Interference σ) (P : Fin count → Bool → σ → Prop) (K : σ → Prop),
        (∀ i s s', I.rely s s' → (J i).rely s s') ∧
        (∀ i j, i ≠ j → ∀ s s', (J j).guar s s' → (J i).rely s s') ∧
        (∀ i s s', (J i).guar s s' → I.guar s s') ∧
        (K s ∧ (∀ s s', I.rely s s' → K s → K s') ∧
          ∀ i s s', (J i).guar s s' → K s → K s') ∧
        (∀ i, Sat H (J i) (child i) (P i) s) ∧
        ∀ verdicts s', K s' → (∀ i, P i (verdicts i) s') → Sat H I (join verdicts) Q s'
  | _, _, .spin, _, _ => H.spins

variable {H : Handler Op Res σ} {I : Interference σ}

@[simp] theorem sat_done {value : α} {Q : α → σ → Prop} {s : σ} :
    Sat H I (.done value) Q s ↔ ∀ s', I.rely s s' → Q value s' := Iff.rfl

@[simp] theorem sat_call {op : Op} {next : Res op → Program Op Res α} {Q : α → σ → Prop} {s : σ} :
    Sat H I (.call op next) Q s ↔ ∀ s', I.rely s s' → ∀ answer s'',
      H.exec op s' answer s'' → I.guar s' s'' ∧ Sat H I (next answer) Q s'' := Iff.rfl

theorem sat_fork {count : Nat} {child : Fin count → Program Op Res Bool}
    {join : (Fin count → Bool) → Program Op Res α} {Q : α → σ → Prop} {s : σ} :
    Sat H I (.fork count child join) Q s ↔
      ∃ (J : Fin count → Interference σ) (P : Fin count → Bool → σ → Prop) (K : σ → Prop),
        (∀ i s s', I.rely s s' → (J i).rely s s') ∧
        (∀ i j, i ≠ j → ∀ s s', (J j).guar s s' → (J i).rely s s') ∧
        (∀ i s s', (J i).guar s s' → I.guar s s') ∧
        (K s ∧ (∀ s s', I.rely s s' → K s → K s') ∧
          ∀ i s s', (J i).guar s s' → K s → K s') ∧
        (∀ i, Sat H (J i) (child i) (P i) s) ∧
        ∀ verdicts s', K s' → (∀ i, P i (verdicts i) s') → Sat H I (join verdicts) Q s' := Iff.rfl

@[simp] theorem sat_spin {Q : α → σ → Prop} {s : σ} :
    Sat H I (.spin : Program Op Res α) Q s ↔ H.spins := Iff.rfl

/-- What holds now still holds after the environment has moved. -/
theorem Sat.rely {p : Program Op Res α} {Q : α → σ → Prop} {s s' : σ}
    (holds : Sat H I p Q s) (drift : I.rely s s') : Sat H I p Q s' := by
  induction p generalizing I s s' with
  | done value => exact fun s'' more => holds s'' (I.rely_trans _ _ _ drift more)
  | call op next _ => exact fun s'' more => holds s'' (I.rely_trans _ _ _ drift more)
  | fork count child join ihChild _ =>
      obtain ⟨J, P, K, relies, compatible, guars, ⟨now, keptRely, keptGuar⟩, children, after⟩ :=
        holds
      exact ⟨J, P, K, relies, compatible, guars, ⟨keptRely _ _ drift now, keptRely, keptGuar⟩,
        fun i => ihChild i (children i) (relies i _ _ drift), after⟩
  | spin => exact holds

/-- One step keeps the promise and leaves what is left to run satisfied. -/
theorem Sat.step {p p' : Program Op Res α} {Q : α → σ → Prop} {s s' : σ}
    (holds : Sat H I p Q s) (one : Step H.exec p s p' s') :
    I.guar s s' ∧ Sat H I p' Q s' := by
  induction one generalizing I with
  | call h => exact holds _ (I.rely_refl _) _ _ h
  | @child _ count child join s s' i p' one ih =>
      obtain ⟨J, P, K, relies, compatible, guars, ⟨now, keptRely, keptGuar⟩, children, after⟩ :=
        holds
      obtain ⟨promised, rest⟩ := ih (children i)
      refine ⟨guars i _ _ promised, J, P, K, relies, compatible, guars,
        ⟨keptGuar i _ _ promised now, keptRely, keptGuar⟩, fun j => ?_, after⟩
      by_cases same : j = i
      · subst same
        simpa only [Function.update_self] using rest
      · rw [Function.update_of_ne same]
        exact (children j).rely (compatible j i same _ _ promised)
  | join verdicts all =>
      obtain ⟨J, P, K, -, -, -, ⟨now, -, -⟩, children, after⟩ := holds
      refine ⟨I.guar_refl _, after verdicts _ now fun i => ?_⟩
      have finished := children i
      rw [all i] at finished
      exact finished _ ((J i).rely_refl _)

theorem Sat.reach {p p' : Program Op Res α} {Q : α → σ → Prop} {s s' : σ}
    (holds : Sat H I p Q s) (run : Reach H.exec I.rely p s p' s') : Sat H I p' Q s' := by
  induction run with
  | refl => exact holds
  | step _ one ih => exact (ih.step one).2
  | env _ drift ih => exact ih.rely drift

/-- A run that returns does so in a state that satisfies the postcondition. -/
theorem Sat.returned {p : Program Op Res α} {Q : α → σ → Prop} {s s' : σ} {value : α}
    (holds : Sat H I p Q s) (run : Reach H.exec I.rely p s (.done value) s') : Q value s' :=
  holds.reach run s' (I.rely_refl _)

/-- What the environment and the program both keep holds in every state of every run. -/
theorem Sat.invariant {p p' : Program Op Res α} {Q : α → σ → Prop} {s s' : σ} (Inv : σ → Prop)
    (holds : Sat H I p Q s) (start : Inv s)
    (keptRely : ∀ s s', I.rely s s' → Inv s → Inv s')
    (keptGuar : ∀ s s', I.guar s s' → Inv s → Inv s')
    (run : Reach H.exec I.rely p s p' s') : Inv s' := by
  induction run with
  | refl => exact start
  | step run one ih => exact keptGuar _ _ ((holds.reach run).step one).1 ih
  | env _ drift ih => exact keptRely _ _ drift ih

theorem Sat.mono {J : Interference σ} {p : Program Op Res α} {Q Q' : α → σ → Prop} {s : σ}
    (holds : Sat H I p Q s) (le : J.Le I) (weaker : ∀ value s', Q value s' → Q' value s') :
    Sat H J p Q' s := by
  induction p generalizing I J s with
  | done value => exact fun s' drift => weaker _ _ (holds s' (le.1 _ _ drift))
  | call op next ih =>
      intro s' drift answer s'' h
      obtain ⟨promised, rest⟩ := holds s' (le.1 _ _ drift) answer s'' h
      exact ⟨le.2 _ _ promised, ih answer rest le weaker⟩
  | fork count child join _ ihJoin =>
      obtain ⟨L, P, K, relies, compatible, guars, ⟨now, keptRely, keptGuar⟩, children, after⟩ :=
        holds
      exact ⟨L, P, K, fun i s s' drift => relies i s s' (le.1 _ _ drift), compatible,
        fun i s s' promised => le.2 _ _ (guars i s s' promised),
        ⟨now, fun s s' drift => keptRely s s' (le.1 _ _ drift), keptGuar⟩, children,
        fun verdicts s' kept all => ihJoin verdicts (after verdicts s' kept all) le weaker⟩
  | spin => exact holds

theorem Sat.weaken {p : Program Op Res α} {Q Q' : α → σ → Prop} {s : σ}
    (holds : Sat H I p Q s) (weaker : ∀ value s', Q value s' → Q' value s') : Sat H I p Q' s :=
  holds.mono (Interference.Le.refl I) weaker

/-- What holds however calls are answered holds where they are answered in fewer ways. -/
theorem Sat.restrict {H' : Handler Op Res σ} {p : Program Op Res α} {Q : α → σ → Prop} {s : σ}
    (holds : Sat H I p Q s) (le : ∀ op s answer s', H'.exec op s answer s' → H.exec op s answer s')
    (spins : H.spins → H'.spins) : Sat H' I p Q s := by
  induction p generalizing I s with
  | done value => exact holds
  | call op next ih =>
      intro s' drift answer s'' h
      obtain ⟨promised, rest⟩ := holds s' drift answer s'' (le _ _ _ _ h)
      exact ⟨promised, ih answer rest⟩
  | fork count child join ihChild ihJoin =>
      obtain ⟨J, P, K, relies, compatible, guars, kept, children, after⟩ := holds
      exact ⟨J, P, K, relies, compatible, guars, kept, fun i => ihChild i (children i),
        fun verdicts s' now all => ihJoin verdicts (after verdicts s' now all)⟩
  | spin => exact spins holds

/-- A test that is not to be evaluated. -/
theorem Sat.ite {c : Prop} {_ : Decidable c} {p q : Program Op Res α} {Q : α → σ → Prop} {s : σ}
    (yes : c → Sat H I p Q s) (no : ¬ c → Sat H I q Q s) : Sat H I (if c then p else q) Q s := by
  split
  · next h => exact yes h
  · next h => exact no h

/-- Sequencing: what the first part establishes is what the second part starts from. -/
theorem Sat.bind {p : Program Op Res α} {f : α → Program Op Res β} {Q : β → σ → Prop} {s : σ}
    (holds : Sat H I p (fun value s' => Sat H I (f value) Q s') s) : Sat H I (p >>= f) Q s := by
  induction p generalizing s with
  | done value => exact holds s (I.rely_refl _)
  | call op next ih =>
      intro s' drift answer s'' h
      obtain ⟨promised, rest⟩ := holds s' drift answer s'' h
      exact ⟨promised, ih answer rest⟩
  | fork count child join _ ihJoin =>
      obtain ⟨J, P, K, relies, compatible, guars, kept, children, after⟩ := holds
      exact ⟨J, P, K, relies, compatible, guars, kept, children,
        fun verdicts s' now all => ihJoin verdicts (after verdicts s' now all)⟩
  | spin => exact holds

/-- A preorder that covers the steps of the environment and of the program relates the
start of a run to its end. -/
theorem Sat.track {p : Program Op Res α} {Q : α → σ → Prop} {s : σ} (T : σ → σ → Prop)
    (refl : ∀ s, T s s) (trans : ∀ s₁ s₂ s₃, T s₁ s₂ → T s₂ s₃ → T s₁ s₃)
    (ofRely : ∀ s s', I.rely s s' → T s s') (ofGuar : ∀ s s', I.guar s s' → T s s')
    (holds : Sat H I p Q s) : Sat H I p (fun value s' => Q value s' ∧ T s s') s := by
  suffices general : ∀ s₀, T s₀ s → Sat H I p (fun value s' => Q value s' ∧ T s₀ s') s from
    general s (refl s)
  induction p generalizing s with
  | done value =>
      exact fun s₀ sofar s' drift => ⟨holds s' drift, trans _ _ _ sofar (ofRely _ _ drift)⟩
  | call op next ih =>
      intro s₀ sofar s' drift answer s'' h
      obtain ⟨promised, rest⟩ := holds s' drift answer s'' h
      exact ⟨promised, ih answer rest s₀
        (trans _ _ _ (trans _ _ _ sofar (ofRely _ _ drift)) (ofGuar _ _ promised))⟩
  | fork count child join _ ihJoin =>
      intro s₀ sofar
      obtain ⟨J, P, K, relies, compatible, guars, ⟨now, keptRely, keptGuar⟩, children, after⟩ :=
        holds
      refine ⟨J, P, fun s' => K s' ∧ T s₀ s', relies, compatible, guars,
        ⟨⟨now, sofar⟩, ?_, ?_⟩, children, ?_⟩
      · rintro s₁ s₂ drift ⟨kept, reached⟩
        exact ⟨keptRely _ _ drift kept, trans _ _ _ reached (ofRely _ _ drift)⟩
      · rintro i s₁ s₂ promised ⟨kept, reached⟩
        exact ⟨keptGuar i _ _ promised kept,
          trans _ _ _ reached (ofGuar _ _ (guars i _ _ promised))⟩
      · rintro verdicts s' ⟨kept, reached⟩ all
        exact ihJoin verdicts (after verdicts s' kept all) s₀ reached
  | spin => exact fun _ _ => holds

end Program

end SyncTool
