import Mathlib.Data.Fintype.Card
import SyncTool.ProgramRuns

set_option autoImplicit false

namespace SyncTool

namespace Interference

variable {σ : Type}

/-- What a program promises, kept where it runs alone. -/
def solo (I : Interference σ) : Interference σ := alone I.guar I.guar_refl

theorem solo_le (I : Interference σ) : I.solo.Le I := by
  refine ⟨fun s s' same => ?_, fun s s' promised => promised⟩
  obtain rfl : s = s' := same
  exact I.rely_refl s

theorem free_le_solo (I : Interference σ) : free.Le I.solo :=
  ⟨fun _ _ same => same, fun _ _ _ => trivial⟩

end Interference

namespace Program

variable {Op : Type} {Res : Op → Type} {σ ι : Type}

/-- One program after the other, as long as they return true. -/
def inTurn : List (Program Op Res Bool) → Program Op Res Bool
  | [] => pure true
  | p :: rest => do
      let ok ← p
      if ok then inTurn rest else pure false

/-- One program after the other, whatever they return. -/
def inOrder : List (Program Op Res Bool) → Program Op Res Unit
  | [] => pure ()
  | p :: rest => do
      let _ ← p
      inOrder rest

variable {H : Handler Op Res σ} (share : ι → Interference σ) (goal : ι → σ → Prop)
  {prog : ι → Program Op Res Bool} {jobs : List ι} {start : σ}

/-- While one job runs, everybody else's share is left alone. -/
theorem Sat.spares {i : ι} {Q : Bool → σ → Prop} {p : Program Op Res Bool} {s : σ}
    (compatible : ∀ i j, i ≠ j → ∀ s s', (share j).guar s s' → (share i).rely s s')
    (works : Sat H (share i).solo p Q s) :
    Sat H Interference.free p (fun ok s' => Q ok s' ∧ ∀ j, j ≠ i → (share j).rely s s') s := by
  have tracked := works.track (I := (share i).solo)
    (fun s s' => ∀ j, j ≠ i → (share j).rely s s')
    (fun s j _ => (share j).rely_refl s)
    (fun s₁ s₂ s₃ one two j other => (share j).rely_trans _ _ _ (one j other) (two j other))
    (fun s s' same j _ => by
      obtain rfl : s = s' := same
      exact (share j).rely_refl s)
    (fun s s' promised j other => compatible j i other s s' promised)
  exact tracked.mono (share i).free_le_solo fun _ _ both => both

/-- Jobs that disturb nobody else's share each come to their own verdict. If all of these are true,
all jobs reach their goals in turn, and the shares of everyone who has no job are as they were. -/
theorem inTurn_verdict (verdict : ι → Prop)
    (compatible : ∀ i j, i ≠ j → ∀ s s', (share j).guar s s' → (share i).rely s s')
    (kept : ∀ i s s', (share i).rely s s' → goal i s → goal i s')
    (works : ∀ i ∈ jobs, ∀ s, (share i).rely start s →
      Sat H (share i).solo (prog i) (fun ok s' => (ok = true ↔ verdict i) ∧ goal i s') s)
    (distinct : jobs.Nodup) :
    Sat H Interference.free (inTurn (jobs.map prog)) (fun ok s' =>
      (ok = true ↔ ∀ i ∈ jobs, verdict i) ∧
      (ok = true → (∀ i ∈ jobs, goal i s') ∧ ∀ i, i ∉ jobs → (share i).rely start s')) start := by
  suffices general : ∀ s, (∀ i ∈ jobs, (share i).rely start s) →
      Sat H Interference.free (inTurn (jobs.map prog)) (fun ok s' =>
        (ok = true ↔ ∀ i ∈ jobs, verdict i) ∧
        (ok = true → (∀ i ∈ jobs, goal i s') ∧ ∀ i, i ∉ jobs → (share i).rely s s')) s from
    general start fun i _ => (share i).rely_refl start
  induction jobs with
  | nil =>
      intro s _ s' same
      obtain rfl : s = s' := same
      exact ⟨by simp, fun _ => ⟨by simp, fun i _ => (share i).rely_refl s⟩⟩
  | cons job jobs ih =>
      intro s ready
      obtain ⟨absent, distinct⟩ := List.nodup_cons.mp distinct
      rw [List.map_cons, inTurn]
      apply Sat.bind
      apply ((works job (by simp) s (ready job (by simp))).spares share compatible).weaken
      rintro ok s₁ ⟨⟨told, reached⟩, others⟩
      cases ok with
      | false =>
          intro s₂ same
          obtain rfl : s₁ = s₂ := same
          have refused : ¬ verdict job := fun right => Bool.false_ne_true (told.mpr right)
          exact ⟨by simp [refused], by simp⟩
      | true =>
          have ready₁ : ∀ i ∈ jobs, (share i).rely start s₁ := by
            intro i member
            have other : i ≠ job := fun same => absent (same ▸ member)
            exact (share i).rely_trans _ _ _ (ready i (by simp [member])) (others i other)
          have works' : ∀ i ∈ jobs, ∀ s, (share i).rely start s →
              Sat H (share i).solo (prog i) (fun ok s' => (ok = true ↔ verdict i) ∧ goal i s') s :=
            fun i member => works i (by simp [member])
          apply (ih works' distinct s₁ ready₁).weaken
          rintro ok s₂ ⟨verdicts, outcome⟩
          refine ⟨by simp [verdicts, told.mp rfl], fun right => ?_⟩
          obtain ⟨goals, rest⟩ := outcome right
          constructor
          · intro i member
            rcases List.mem_cons.mp member with rfl | member
            · exact kept i _ _ (rest i absent) reached
            · exact goals i member
          · intro i notJob
            have other : i ≠ job := fun same => notJob (by simp [same])
            have outside : i ∉ jobs := fun member => notJob (by simp [member])
            exact (share i).rely_trans _ _ _ (others i other) (rest i outside)

/-- Jobs that disturb nobody else's share all reach their goals in turn, and leave the shares
of everyone who has no job as they were. -/
theorem inTurn_sat
    (compatible : ∀ i j, i ≠ j → ∀ s s', (share j).guar s s' → (share i).rely s s')
    (kept : ∀ i s s', (share i).rely s s' → goal i s → goal i s')
    (works : ∀ i ∈ jobs, ∀ s, (share i).rely start s →
      Sat H (share i).solo (prog i) (fun ok s' => ok = true ∧ goal i s') s)
    (distinct : jobs.Nodup) :
    Sat H Interference.free (inTurn (jobs.map prog)) (fun ok s' => ok = true ∧
      (∀ i ∈ jobs, goal i s') ∧ ∀ i, i ∉ jobs → (share i).rely start s') start := by
  have works' : ∀ i ∈ jobs, ∀ s, (share i).rely start s →
      Sat H (share i).solo (prog i) (fun ok s' => (ok = true ↔ True) ∧ goal i s') s := by
    intro i member s drift
    apply (works i member s drift).weaken
    rintro ok s' ⟨rfl, reached⟩
    exact ⟨by simp, reached⟩
  apply (inTurn_verdict share goal (fun _ => True) compatible kept works' distinct).weaken
  rintro ok s' ⟨verdicts, outcome⟩
  have right : ok = true := verdicts.mpr fun _ _ => trivial
  exact ⟨right, outcome right⟩

/-- Whatever their verdicts, such jobs reach their goals one after the other. -/
theorem inOrder_sat
    (compatible : ∀ i j, i ≠ j → ∀ s s', (share j).guar s s' → (share i).rely s s')
    (kept : ∀ i s s', (share i).rely s s' → goal i s → goal i s')
    (works : ∀ i ∈ jobs, ∀ s, (share i).rely start s →
      Sat H (share i).solo (prog i) (fun _ s' => goal i s') s)
    (distinct : jobs.Nodup) :
    Sat H Interference.free (inOrder (jobs.map prog)) (fun _ s' =>
      (∀ i ∈ jobs, goal i s') ∧ ∀ i, i ∉ jobs → (share i).rely start s') start := by
  suffices general : ∀ s, (∀ i ∈ jobs, (share i).rely start s) →
      Sat H Interference.free (inOrder (jobs.map prog)) (fun _ s' =>
        (∀ i ∈ jobs, goal i s') ∧ ∀ i, i ∉ jobs → (share i).rely s s') s from
    general start fun i _ => (share i).rely_refl start
  induction jobs with
  | nil =>
      intro s _ s' same
      obtain rfl : s = s' := same
      exact ⟨by simp, fun i _ => (share i).rely_refl s⟩
  | cons job jobs ih =>
      intro s ready
      obtain ⟨absent, distinct⟩ := List.nodup_cons.mp distinct
      rw [List.map_cons, inOrder]
      apply Sat.bind
      apply ((works job (by simp) s (ready job (by simp))).spares share compatible).weaken
      rintro ok s₁ ⟨reached, others⟩
      have ready₁ : ∀ i ∈ jobs, (share i).rely start s₁ := by
        intro i member
        have other : i ≠ job := fun same => absent (same ▸ member)
        exact (share i).rely_trans _ _ _ (ready i (by simp [member])) (others i other)
      apply (ih (fun i member => works i (by simp [member])) distinct s₁ ready₁).weaken
      rintro _ s₂ ⟨goals, rest⟩
      constructor
      · intro i member
        rcases List.mem_cons.mp member with rfl | member
        · exact kept i _ _ (rest i absent) reached
        · exact goals i member
      · intro i notJob
        have other : i ≠ job := fun same => notJob (by simp [same])
        have outside : i ∉ jobs := fun member => notJob (by simp [member])
        exact (share i).rely_trans _ _ _ (others i other) (rest i outside)

end Program

end SyncTool
