import SyncTool.ProgramThrow

set_option autoImplicit false

namespace SyncTool.Program

variable {Op : Type} {Res : Op → Type} {α β σ : Type}

/-- Calls with a tally of the answers that are ticks, of which there are at most `most`. -/
def Tallied (exec : (op : Op) → σ → Res op → σ → Prop) (tick : (op : Op) → Res op → Bool)
    (most : Nat) (op : Op) (s : σ × Nat) (answer : Res op) (s' : σ × Nat) : Prop :=
  exec op s.1 answer s'.1 ∧
    if tick op answer then s.2 < most ∧ s'.2 = s.2 + 1 else s'.2 = s.2

/-- From a tally of `tally` on, the loops of a program do not use up their fuel. -/
def Halts (tick : (op : Op) → Res op → Bool) (most : Nat) :
    {α : Type} → Program Op Res α → Nat → Prop
  | _, .done _, _ => True
  | _, .call op next, tally => ∀ answer,
      if tick op answer then tally < most → Halts tick most (next answer) (tally + 1)
      else Halts tick most (next answer) tally
  | _, .fork _ child join, tally =>
      (∀ i, Halts tick most (child i) tally) ∧ ∀ verdicts, Halts tick most (join verdicts) tally
  | _, .spin, _ => False

variable {exec : (op : Op) → σ → Res op → σ → Prop} {tick : (op : Op) → Res op → Bool}
  {most tally later : Nat}

theorem Halts.mono {p : Program Op Res α} (halts : Halts tick most p tally) (le : tally ≤ later) :
    Halts tick most p later := by
  induction p generalizing tally later with
  | done value => trivial
  | call op next ih =>
      intro answer
      have now := halts answer
      split
      · next ticks =>
          rw [if_pos ticks] at now
          intro left
          exact ih answer (now (by omega)) (by omega)
      · next quiet =>
          rw [if_neg quiet] at now
          exact ih answer now le
  | fork count child join ihChild ihJoin =>
      exact ⟨fun i => ihChild i (halts.1 i) le, fun verdicts =>
        ihJoin verdicts (halts.2 verdicts) le⟩
  | spin => exact halts

theorem Halts.bind {p : Program Op Res α} {f : α → Program Op Res β}
    (first : Halts tick most p tally) (second : ∀ value, Halts tick most (f value) tally) :
    Halts tick most (p >>= f) tally := by
  induction p generalizing tally with
  | done value => exact second value
  | call op next ih =>
      intro answer
      have now := first answer
      split
      · next ticks =>
          rw [if_pos ticks] at now
          intro left
          exact ih answer (now left) fun value => (second value).mono (Nat.le_succ _)
      · next quiet =>
          rw [if_neg quiet] at now
          exact ih answer now second
  | fork count child join _ ih =>
      exact ⟨first.1, fun verdicts => ih verdicts (first.2 verdicts) second⟩
  | spin => exact first.elim

/-- A call whose answers are no ticks. -/
theorem halts_call {op : Op} {next : Res op → Program Op Res α}
    (quiet : ∀ answer, tick op answer = false) :
    Halts tick most (.call op next) tally ↔ ∀ answer, Halts tick most (next answer) tally := by
  simp [Halts, quiet]

/-- A program without ticks and loops. -/
theorem halts_ask {op : Op} (quiet : ∀ answer, tick op answer = false) :
    Halts tick most (ask op : Program Op Res _) tally :=
  (halts_call quiet).mpr fun _ => trivial

/-- Others may add to the tally. -/
def counting : Interference (σ × Nat) where
  rely s s' := s.2 ≤ s'.2
  guar s s' := s.2 ≤ s'.2
  rely_refl _ := le_refl _
  rely_trans _ _ _ := le_trans
  guar_refl _ := le_refl _

theorem Tallied.le {op : Op} {s s' : σ × Nat} {answer : Res op}
    (h : Tallied exec tick most op s answer s') : s.2 ≤ s'.2 := by
  have moved := h.2
  split at moved <;> omega

theorem Halts.sat {p : Program Op Res α} {s : σ × Nat} (halts : Halts tick most p s.2) :
    Sat ⟨Tallied exec tick most, False⟩ counting p (fun _ _ => True) s := by
  induction p generalizing s with
  | done value => exact fun _ _ => trivial
  | call op next ih =>
      intro s' drift answer s'' h
      refine ⟨h.le, ih answer ?_⟩
      have now := halts.mono drift answer
      have moved := h.2
      split at moved
      · next ticks =>
          rw [if_pos ticks] at now
          rw [moved.2]
          exact now moved.1
      · next quiet =>
          rw [if_neg quiet] at now
          rw [moved]
          exact now
  | fork count child join ihChild ihJoin =>
      refine ⟨fun _ => counting, fun _ _ _ => True, fun s' => s.2 ≤ s'.2, fun _ _ _ => id,
        fun _ _ _ _ _ => id, fun _ _ _ => id,
        ⟨le_refl _, fun _ _ drift now => le_trans now drift, fun _ _ _ did now => le_trans now did⟩,
        fun i => ihChild i (halts.1 i), ?_⟩
      intro verdicts s' le _
      exact ihJoin verdicts ((halts.2 verdicts).mono le)
  | spin => exact halts

theorem Step.untally {p p' : Program Op Res α} {s s' : σ × Nat}
    (one : Step (Tallied exec tick most) p s p' s') : Step exec p s.1 p' s'.1 := by
  induction one with
  | call h => exact .call h.1
  | child i _ ih => exact .child i ih
  | join verdicts all => exact .join verdicts all

theorem Reach.untally {p p' : Program Op Res α} {s s' : σ × Nat}
    (run : Reach (Tallied exec tick most) Eq p s p' s') : Reach exec Eq p s.1 p' s'.1 := by
  induction run with
  | refl => exact .refl
  | step _ one ih => exact ih.step one.untally
  | env _ same ih => exact same ▸ ih

/-- Runs that all return do so in the states that returning runs reach. -/
theorem Returns.of_reach {P Q : α → σ → Prop} {p : Program Op Res α} {s : σ}
    (returns : Returns exec P p s)
    (holds : ∀ value s', Reach exec Eq p s (.done value) s' → Q value s') : Returns exec Q p s := by
  induction returns with
  | done _ => exact .done (holds _ _ .refl)
  | step moves _ ih =>
      refine .step moves fun p' s' one => ih p' s' one fun value s'' run => ?_
      exact holds value s'' ((Reach.refl.step one).trans run)

/-- With at most `most` ticks, a program whose loops have fuel enough for them returns, in a
state that its runs can return in. -/
theorem Halts.returns {Q : α → σ → Prop} {p : Program Op Res α} {s : σ}
    (halts : Halts tick most p 0)
    (answered : ∀ op s, ∃ answer s', exec op s answer s' ∧ tick op answer = false)
    (holds : ∀ value s', Reach exec Eq p s (.done value) s' → Q value s') :
    Returns (Tallied exec tick most) (fun value s' => Q value s'.1) p (s, 0) := by
  have sat : Sat ⟨Tallied exec tick most, False⟩ counting p (fun _ _ => True) (s, 0) := halts.sat
  apply (sat.returns id ?_).of_reach
  · intro value s' run
    exact holds value s'.1 run.untally
  · intro op s
    obtain ⟨answer, s', h, quiet⟩ := answered op s.1
    exact ⟨answer, (s', s.2), h, by simp [quiet]⟩

/-- The calls of a program, of whose answers at most `most` are ticks. -/
def tallied (H : Handler Op Res σ) (tick : (op : Op) → Res op → Bool) (most : Nat) :
    Handler Op Res (σ × Nat) where
  exec := Tallied H.exec tick most
  spins := H.spins

/-- Calls whose answers are no ticks leave the tally alone. -/
theorem Calls.sat_tallied {H : Handler Op Res σ} {I : Interference σ} {ok : Op → Prop}
    {p : Program Op Res α} {Q : α → σ → Prop} {s : σ × Nat} (calls : Calls ok p)
    (quiet : ∀ op answer, ok op → tick op answer = false) (holds : Sat H I p Q s.1) :
    Sat (tallied H tick most) .free p (fun value s' => Q value s'.1 ∧ s'.2 = s.2) s := by
  induction p generalizing s with
  | done value =>
      intro s' same
      obtain rfl : s = s' := same
      exact ⟨holds _ (I.rely_refl _), rfl⟩
  | call op next ih =>
      intro s₁ same answer s₂ ran
      obtain rfl : s = s₁ := same
      obtain ⟨ran, counted⟩ := ran
      rw [quiet op answer calls.1] at counted
      refine ⟨trivial, ?_⟩
      have rest := (holds _ (I.rely_refl _) answer _ ran).2
      apply (ih answer (calls.2 answer) rest).weaken
      intro value s' after
      exact ⟨after.1, after.2.trans counted⟩
  | fork count child join => exact calls.elim
  | spin => exact holds

/-- After a mark, a call behind which nothing is left to do but to return, the program returns
`verdict` at once. -/
def EndsWith (marks : Op → Prop) : {α : Type} → α → Program Op Res α → Prop
  | _, _, .done _ => True
  | _, verdict, .call op next =>
      (marks op → ∀ answer, next answer = .done verdict) ∧
        ∀ answer, EndsWith marks verdict (next answer)
  | _, verdict, .fork _ child join =>
      (∀ i, All (fun op => ¬ marks op) (child i)) ∧
        ∀ verdicts, EndsWith marks verdict (join verdicts)
  | _, _, .spin => True

variable {marks : Op → Prop} {flag : σ → Prop} {verdict : α} {p p' : Program Op Res α} {s s' : σ}

theorem EndsWith.bind {q : Program Op Res β} {f : β → Program Op Res α}
    (first : All (fun op => ¬ marks op) q) (second : ∀ value, EndsWith marks verdict (f value)) :
    EndsWith marks verdict (q >>= f) := by
  induction q with
  | done value => exact second value
  | call op next ih =>
      exact ⟨fun marked => absurd marked first.1, fun answer => ih answer (first.2 answer) second⟩
  | fork count child join _ ih =>
      exact ⟨first.1, fun verdicts => ih verdicts (first.2 verdicts) second⟩
  | spin => trivial

/-- Without a mark, no step raises the flag. -/
theorem All.step_flag
    (quiet : ∀ op s answer s', exec op s answer s' → ¬ marks op → flag s' → flag s)
    (all : All (fun op => ¬ marks op) p) (one : Step exec p s p' s') :
    All (fun op => ¬ marks op) p' ∧ (flag s' → flag s) := by
  induction one with
  | call h => exact ⟨all.2 _, quiet _ _ _ _ h all.1⟩
  | child i _ ih =>
      obtain ⟨rest, kept⟩ := ih (all.1 i)
      refine ⟨⟨fun j => ?_, all.2⟩, kept⟩
      by_cases same : j = i
      · subst same
        rwa [Function.update_self]
      · rw [Function.update_of_ne same]
        exact all.1 j
  | join verdicts _ => exact ⟨all.2 verdicts, id⟩

/-- A step that raises the flag leaves nothing but the verdict. -/
theorem EndsWith.step
    (quiet : ∀ op s answer s', exec op s answer s' → ¬ marks op → flag s' → flag s)
    (ends : EndsWith marks verdict p) (one : Step exec p s p' s') :
    EndsWith marks verdict p' ∧ (flag s' → flag s ∨ p' = .done verdict) := by
  cases one with
  | @call _ op _ _ _ answer h =>
      refine ⟨ends.2 answer, fun raised => ?_⟩
      by_cases marked : marks op
      · exact .inr (ends.1 marked answer)
      · exact .inl (quiet _ _ _ _ h marked raised)
  | child i one =>
      obtain ⟨rest, kept⟩ := (ends.1 i).step_flag quiet one
      refine ⟨⟨fun j => ?_, ends.2⟩, fun raised => .inl (kept raised)⟩
      by_cases same : j = i
      · subst same
        rwa [Function.update_self]
      · rw [Function.update_of_ne same]
        exact ends.1 j
  | join verdicts _ => exact ⟨ends.2 verdicts, .inl⟩

/-- A run that returns from a fork goes through its join, and what the children keep until
then holds of their verdicts there. -/
theorem Reach.of_fork {rely : σ → σ → Prop} {count : Nat} {child : Fin count → Program Op Res Bool}
    {join : (Fin count → Bool) → Program Op Res α} {s s' : σ} {p' : Program Op Res α}
    (Inv : (Fin count → Program Op Res Bool) → σ → Prop) (start : Inv child s)
    (kept : ∀ child s i q s', Inv child s → Step exec (child i) s q s' →
      Inv (Function.update child i q) s')
    (drift : ∀ child s s', Inv child s → rely s s' → Inv child s')
    (run : Reach exec rely (.fork count child join) s p' s') :
    (∃ child', p' = .fork count child' join ∧ Inv child' s') ∨
      ∃ verdicts s₁, Inv (fun i => .done (verdicts i)) s₁ ∧
        Reach exec rely (join verdicts) s₁ p' s' := by
  induction run with
  | refl => exact .inl ⟨child, rfl, start⟩
  | step _ one ih =>
      rcases ih with ⟨child', rfl, now⟩ | ⟨verdicts, s₁, now, rest⟩
      · cases one with
        | child i one => exact .inl ⟨_, rfl, kept _ _ _ _ _ now one⟩
        | join verdicts all =>
            refine .inr ⟨verdicts, _, ?_, .refl⟩
            rwa [← funext all]
      · exact .inr ⟨verdicts, s₁, now, rest.step one⟩
  | env _ moved ih =>
      rcases ih with ⟨child', rfl, now⟩ | ⟨verdicts, s₁, now, rest⟩
      · exact .inl ⟨child', rfl, drift _ _ _ now moved⟩
      · exact .inr ⟨verdicts, s₁, now, rest.env moved⟩

/-- If the flag is up when all children have returned, one of them has returned `verdict`. -/
theorem Reach.flagged {count : Nat} {child : Fin count → Program Op Res Bool}
    {join : (Fin count → Bool) → Program Op Res α} {verdict : Bool} {value : α}
    (quiet : ∀ op s answer s', exec op s answer s' → ¬ marks op → flag s' → flag s)
    (ends : ∀ i, EndsWith marks verdict (child i)) (start : ¬ flag s)
    (run : Reach exec Eq (.fork count child join) s (.done value) s') :
    ∃ verdicts s₁, (flag s₁ → ∃ i, verdicts i = verdict) ∧
      Reach exec Eq (join verdicts) s₁ (.done value) s' := by
  have decomposed := run.of_fork (fun child s => (∀ i, EndsWith marks verdict (child i)) ∧
    (flag s → ∃ i, child i = .done verdict)) ⟨ends, fun up => absurd up start⟩ ?_ ?_
  · rcases decomposed with ⟨child', returned, -⟩ | ⟨verdicts, s₁, ⟨-, raised⟩, rest⟩
    · cases returned
    · refine ⟨verdicts, s₁, fun up => ?_, rest⟩
      obtain ⟨i, same⟩ := raised up
      exact ⟨i, by cases same; rfl⟩
  · rintro child s i q s' ⟨ends, raised⟩ one
    obtain ⟨rest, kept⟩ := (ends i).step quiet one
    refine ⟨fun j => ?_, fun up => ?_⟩
    · by_cases same : j = i
      · subst same
        rwa [Function.update_self]
      · rw [Function.update_of_ne same]
        exact ends j
    · rcases kept up with before | now
      · obtain ⟨j, returned⟩ := raised before
        refine ⟨j, ?_⟩
        have other : j ≠ i := by
          rintro rfl
          rw [returned] at one
          exact not_step_done one
        rw [Function.update_of_ne other, returned]
      · exact ⟨i, by rw [Function.update_self, now]⟩
  · rintro child s s' now rfl
    exact now

/-- A run that gets anywhere from a call starts with it. -/
theorem Reach.of_call {op : Op} {next : Res op → Program Op Res α} {s s' : σ}
    {p' : Program Op Res α} (run : Reach exec Eq (.call op next) s p' s') :
    (p' = .call op next ∧ s' = s) ∨
      ∃ answer s₁, exec op s answer s₁ ∧ Reach exec Eq (next answer) s₁ p' s' := by
  induction run with
  | refl => exact .inl ⟨rfl, rfl⟩
  | step _ one ih =>
      rcases ih with ⟨rfl, rfl⟩ | ⟨answer, s₁, h, rest⟩
      · cases one with
        | call h => exact .inr ⟨_, _, h, .refl⟩
      · exact .inr ⟨answer, s₁, h, rest.step one⟩
  | env _ same ih => exact same ▸ ih

end SyncTool.Program
