import SyncTool.ProgramLogic

set_option autoImplicit false

namespace SyncTool

namespace Program

variable {Op : Type} {Res : Op → Type} {ι α σ τ : Type}

/-- The program of one of several parties, whose calls say who makes them. -/
def tag (c : ι) : {α : Type} → Program Op Res α → Program (ι × Op) (fun call => Res call.2) α
  | _, .done value => .done value
  | _, .call op next => .call (c, op) fun answer => tag c (next answer)
  | _, .fork count child join =>
      .fork count (fun i => tag c (child i)) fun verdicts => tag c (join verdicts)
  | _, .spin => .spin

theorem tag_eq_done {c : ι} {p : Program Op Res α} {value : α} (same : p.tag c = .done value) :
    p = .done value := by
  cases p with
  | done other =>
      cases same
      rfl
  | call op next => cases same
  | fork count child join => cases same
  | spin => cases same

/-- What the calls of a step do to one view of the state. -/
theorem Step.map {exec : (op : Op) → σ → Res op → σ → Prop}
    {exec' : (op : Op) → τ → Res op → τ → Prop} {f : σ → τ} {p p' : Program Op Res α} {s s' : σ}
    (one : Step exec p s p' s')
    (seen : ∀ op answer s', exec op s answer s' → exec' op (f s) answer (f s')) :
    Step exec' p (f s) p' (f s') := by
  induction one with
  | call ran => exact .call (seen _ _ _ ran)
  | child i _ ih => exact .child i (ih seen)
  | join verdicts all => exact .join verdicts all

/-- A step makes one call, or leaves the state as it is. -/
theorem Step.effect {exec : (op : Op) → σ → Res op → σ → Prop} {p p' : Program Op Res α} {s s' : σ}
    (one : Step exec p s p' s') : (∃ op answer, exec op s answer s') ∨ s' = s := by
  induction one with
  | call ran => exact .inl ⟨_, _, ran⟩
  | child i _ ih => exact ih
  | join verdicts all => exact .inr rfl

/-- A step of a party's tagged program is a step of its own program. -/
theorem Step.of_tag {exec : (call : ι × Op) → σ → Res call.2 → σ → Prop} {c : ι}
    {p : Program Op Res α} {q : Program (ι × Op) (fun call => Res call.2) α} {s s' : σ}
    (one : Step exec (p.tag c) s q s') :
    ∃ p', q = p'.tag c ∧ Step (fun op => exec (c, op)) p s p' s' := by
  induction p generalizing s s' with
  | done value => exact absurd one not_step_done
  | call op next =>
      cases one with
      | call ran => exact ⟨next _, rfl, .call ran⟩
  | fork count child join ihChild _ =>
      cases one with
      | @child _ _ _ _ _ _ i p' one =>
          obtain ⟨p'', rfl, own⟩ := ihChild i one
          refine ⟨.fork count (Function.update child i p'') join, ?_, .child i own⟩
          simp only [tag]
          congr 1
          funext j
          by_cases same : j = i
          · subst same
            simp
          · simp [same]
      | join verdicts all =>
          exact ⟨join verdicts, rfl, .join verdicts fun i => tag_eq_done (all i)⟩
  | spin => exact absurd one not_step_spin

end Program

end SyncTool
