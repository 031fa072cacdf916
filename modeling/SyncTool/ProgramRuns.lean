import Mathlib.Order.GameAdd
import SyncTool.ProgramLogic

set_option autoImplicit false

namespace SyncTool

namespace Program

variable {Op : Type} {Res : Op → Type} {α β σ : Type}

-- A program is a well-founded tree and each of its steps goes down in it, so no run is infinite:
-- what is left to show of a run is that it does not get stuck.

/-- Changing one entry of a finite family to a smaller one cannot go on for ever. -/
theorem acc_update {γ : Type 1} {r : γ → γ → Prop} {count : Nat} (f : Fin count → γ)
    (each : ∀ i, Acc r (f i)) :
    Acc (fun g f => ∃ i smaller, r smaller (f i) ∧ g = Function.update f i smaller) f := by
  induction count with
  | zero => exact .intro _ fun g ⟨i, _⟩ => i.elim0
  | succ count ih =>
      have pair := (each 0).prod_gameAdd (ih (Fin.tail f) fun i => each i.succ)
      have image := InvImage.accessible (fun g : Fin (count + 1) → γ => (g 0, Fin.tail g)) pair
      refine Subrelation.accessible ?_ image
      rintro g h ⟨i, smaller, below, rfl⟩
      refine Fin.cases (fun below => ?_) (fun i below => ?_) i below
      · have tail : Fin.tail (Function.update h 0 smaller) = Fin.tail h :=
          Fin.tail_update_zero h smaller
        simp only [InvImage, tail, Function.update_self]
        exact .fst below
      · have tail : Fin.tail (Function.update h i.succ smaller) =
            Function.update (Fin.tail h) i smaller := Fin.tail_update_succ h i smaller
        have head : Function.update h i.succ smaller 0 = h 0 :=
          Function.update_of_ne (Fin.succ_ne_zero i).symm _ _
        simp only [InvImage, tail, head]
        exact .snd ⟨i, smaller, below, rfl⟩

theorem acc_step (exec : (op : Op) → σ → Res op → σ → Prop) (p : Program Op Res α) :
    Acc (fun p' p : Program Op Res α => ∃ s s', Step exec p s p' s') p := by
  induction p with
  | done value => exact .intro _ fun p' ⟨s, s', one⟩ => absurd one not_step_done
  | call op next ih =>
      refine .intro _ fun p' ⟨s, s', one⟩ => ?_
      cases one with
      | call _ => exact ih _
  | fork count child join ihChild ihJoin =>
      have children := acc_update child ihChild
      induction children with
      | intro child smaller ih =>
          refine .intro _ fun p' ⟨s, s', one⟩ => ?_
          cases one with
          | @child _ _ _ _ _ _ i q one =>
              have later : Acc _ (Function.update child i q) := smaller _ ⟨i, q, ⟨_, _, one⟩, rfl⟩
              refine ih _ ⟨i, q, ⟨_, _, one⟩, rfl⟩ fun j => ?_
              by_cases same : j = i
              · subst same
                simpa only [Function.update_self] using (ihChild j).inv ⟨_, _, one⟩
              · simpa only [Function.update_of_ne same] using ihChild j
          | join verdicts _ => exact ihJoin _
  | spin => exact .intro _ fun p' ⟨s, s', one⟩ => absurd one not_step_spin

/-- Every run returns, and returns in a state that satisfies `Q`. -/
inductive Returns (exec : (op : Op) → σ → Res op → σ → Prop) (Q : α → σ → Prop) :
    Program Op Res α → σ → Prop where
  | done {value : α} {s : σ} : Q value s → Returns exec Q (.done value) s
  | step {p : Program Op Res α} {s : σ} : (∃ p' s', Step exec p s p' s') →
      (∀ p' s', Step exec p s p' s' → Returns exec Q p' s') → Returns exec Q p s

variable {H : Handler Op Res σ} {I : Interference σ}

/-- A program whose calls are answered, in an expected way or with bad consequences, goes on. -/
theorem Sat.progress_or {exec : (op : Op) → σ → Res op → σ → Prop} {Bad : σ → Prop}
    {p : Program Op Res α} {Q : α → σ → Prop} {s : σ} (holds : Sat H I p Q s) (enough : ¬ H.spins)
    (answered : ∀ op s, ∃ answer s', exec op s answer s' ∧ (H.exec op s answer s' ∨ Bad s')) :
    (∃ value, p = .done value) ∨ ∃ p' s', Step exec p s p' s' ∧
    (Step H.exec p s p' s' ∨ Bad s') := by
  induction p generalizing I s with
  | done value => exact .inl ⟨value, rfl⟩
  | call op next _ =>
      obtain ⟨answer, s', h, expected⟩ := answered op s
      exact .inr ⟨next answer, s', .call h, expected.imp_left .call⟩
  | fork count child join ihChild _ =>
      obtain ⟨J, P, K, -, -, -, -, children, -⟩ := holds
      right
      by_cases running : ∃ i, ∃ p' s', Step exec (child i) s p' s' ∧
        (Step H.exec (child i) s p' s' ∨ Bad s')
      · obtain ⟨i, p', s', one, expected⟩ := running
        exact ⟨_, s', .child i one, expected.imp_left (.child i)⟩
      · have finished : ∀ i, ∃ value, child i = .done value := by
          intro i
          rcases ihChild i (children i) with returned | moving
          · exact returned
          · exact absurd ⟨i, moving⟩ running
        choose verdicts all using finished
        exact ⟨_, s, .join verdicts all, .inl (.join verdicts all)⟩
  | spin => exact absurd holds enough

/-- A program whose loops have fuel enough and whose calls are answered is never stuck. -/
theorem Sat.progress {p : Program Op Res α} {Q : α → σ → Prop} {s : σ} (holds : Sat H I p Q s)
    (enough : ¬ H.spins) (answered : ∀ op s, ∃ answer s', H.exec op s answer s') :
    (∃ value, p = .done value) ∨ ∃ p' s', Step H.exec p s p' s' := by
  have expected : ∀ op s, ∃ answer s', H.exec op s answer s' ∧ (H.exec op s answer s' ∨ False) := by
    intro op s
    obtain ⟨answer, s', h⟩ := answered op s
    exact ⟨answer, s', h, .inl h⟩
  apply (holds.progress_or enough expected).imp_right
  intro ⟨p', s', one, _⟩
  exact ⟨p', s', one⟩

theorem Sat.returns {p : Program Op Res α} {Q : α → σ → Prop} {s : σ} (holds : Sat H I p Q s)
    (enough : ¬ H.spins) (answered : ∀ op s, ∃ answer s', H.exec op s answer s') :
    Returns H.exec Q p s := by
  induction acc_step H.exec p generalizing s with
  | intro p _ ih =>
      rcases holds.progress enough answered with ⟨value, rfl⟩ | moving
      · exact .done (holds s (I.rely_refl s))
      · exact .step moving fun p' s' one => ih p' ⟨s, s', one⟩ (holds.step one).2

/-- What holds of the expected answers holds of some run, unless a run has bad consequences. -/
theorem Sat.returned_or {exec : (op : Op) → σ → Res op → σ → Prop} {Bad : σ → Prop}
    {p : Program Op Res α} {Q : α → σ → Prop} {s : σ} (holds : Sat H I p Q s) (enough : ¬ H.spins)
    (answered : ∀ op s, ∃ answer s', exec op s answer s' ∧ (H.exec op s answer s' ∨ Bad s')) :
    (∃ value s', Reach exec Eq p s (.done value) s' ∧ Q value s') ∨
      ∃ p' s', Reach exec Eq p s p' s' ∧ Bad s' := by
  induction acc_step H.exec p generalizing s with
  | intro p _ ih =>
      rcases holds.progress_or enough answered with ⟨value, rfl⟩ | ⟨p', s', one, expected | bad⟩
      · exact .inl ⟨value, s, .refl, holds s (I.rely_refl s)⟩
      · have first : Reach exec Eq p s p' s' := Reach.refl.step one
        rcases ih p' ⟨s, s', expected⟩ (holds.step expected).2 with
          ⟨value, s'', run, after⟩ | ⟨p'', s'', run, bad⟩
        · exact .inl ⟨value, s'', first.trans run, after⟩
        · exact .inr ⟨p'', s'', first.trans run, bad⟩
      · exact .inr ⟨p', s', Reach.refl.step one, bad⟩

theorem Returns.exists_run {exec : (op : Op) → σ → Res op → σ → Prop} {Q : α → σ → Prop}
    {p : Program Op Res α} {s : σ} (returns : Returns exec Q p s) :
    ∃ value s', Reach exec Eq p s (.done value) s' ∧ Q value s' := by
  induction returns with
  | done holds => exact ⟨_, _, .refl, holds⟩
  | step moves _ ih =>
      obtain ⟨p', s', one⟩ := moves
      obtain ⟨value, s'', run, holds⟩ := ih p' s' one
      exact ⟨value, s'', (Reach.refl.step one).trans run, holds⟩

/-- Where a step can be made, one can be made however few answers the calls have. -/
theorem Step.answered {exec exec' : (op : Op) → σ → Res op → σ → Prop} {p p' : Program Op Res α}
    {s s' : σ} (answered : ∀ op s, ∃ answer s', exec' op s answer s') (one : Step exec p s p' s') :
    ∃ p'' s'', Step exec' p s p'' s'' := by
  induction one with
  | @call α op next s s' answer ran =>
      obtain ⟨answer, s'', ran⟩ := answered op s
      exact ⟨_, s'', .call ran⟩
  | child i _ ih =>
      obtain ⟨p'', s'', one⟩ := ih
      exact ⟨_, s'', .child i one⟩
  | join verdicts all => exact ⟨_, _, .join verdicts all⟩

/-- What always returns does so where the calls are answered in some of their ways. -/
theorem Returns.within {exec exec' : (op : Op) → σ → Res op → σ → Prop} {Q : α → σ → Prop}
    {p : Program Op Res α} {s : σ} (returns : Returns exec Q p s)
    (answered : ∀ op s, ∃ answer s', exec' op s answer s')
    (le : ∀ op s answer s', exec' op s answer s' → exec op s answer s') :
    ∃ value s', Reach exec' Eq p s (.done value) s' := by
  induction returns with
  | done _ => exact ⟨_, _, .refl⟩
  | step moves _ ih =>
      obtain ⟨p', s', one⟩ := moves
      obtain ⟨p'', s'', one'⟩ := one.answered answered
      obtain ⟨value, s₃, run⟩ := ih p'' s'' (one'.mono le)
      exact ⟨value, s₃, (Reach.refl.step one').trans run⟩

theorem Returns.mono {exec : (op : Op) → σ → Res op → σ → Prop} {Q Q' : α → σ → Prop}
    {p : Program Op Res α} {s : σ} (returns : Returns exec Q p s)
    (weaker : ∀ value s', Q value s' → Q' value s') : Returns exec Q' p s := by
  induction returns with
  | done holds => exact .done (weaker _ _ holds)
  | step moves _ ih => exact .step moves fun p' s' one => ih p' s' one

theorem Returns.reach {exec : (op : Op) → σ → Res op → σ → Prop} {p p' : Program Op Res α}
    {Q : α → σ → Prop} {s s' : σ} (returns : Returns exec Q p s)
    (run : Reach exec Eq p s p' s') : Returns exec Q p' s' := by
  induction run with
  | refl => exact returns
  | step _ one ih =>
      cases ih with
      | done _ => exact absurd one not_step_done
      | step _ all => exact all _ _ one
  | env _ same ih => exact same ▸ ih

/-- Whatever the answers are, only calls within `ok` are made. -/
def All (ok : Op → Prop) : {α : Type} → Program Op Res α → Prop
  | _, .done _ => True
  | _, .call op next => ok op ∧ ∀ answer, All ok (next answer)
  | _, .fork _ child join => (∀ i, All ok (child i)) ∧ ∀ verdicts, All ok (join verdicts)
  | _, .spin => True

variable {ok : Op → Prop}

@[simp] theorem all_done {value : α} : All ok (.done value : Program Op Res α) := trivial

@[simp] theorem all_call {op : Op} {next : Res op → Program Op Res α} :
    All ok (.call op next) ↔ ok op ∧ ∀ answer, All ok (next answer) := Iff.rfl

@[simp] theorem all_spin : All ok (.spin : Program Op Res α) := trivial

@[simp] theorem all_ask {op : Op} : All ok (ask op : Program Op Res _) ↔ ok op :=
  ⟨fun all => all.1, fun h => ⟨h, fun _ => trivial⟩⟩

@[simp] theorem all_fork {count : Nat} {child : Fin count → Program Op Res Bool}
    {join : (Fin count → Bool) → Program Op Res α} :
    All ok (.fork count child join) ↔
      (∀ i, All ok (child i)) ∧ ∀ verdicts, All ok (join verdicts) := Iff.rfl

@[simp] theorem all_ite {c : Prop} [Decidable c] {p q : Program Op Res α} :
    All ok (if c then p else q) ↔ (c → All ok p) ∧ (¬ c → All ok q) := by
  by_cases h : c <;> simp [h]

theorem All.bind {p : Program Op Res α} {f : α → Program Op Res β} (first : All ok p)
    (second : ∀ value, All ok (f value)) : All ok (p >>= f) := by
  induction p with
  | done value => exact second value
  | call op next ih => exact ⟨first.1, fun answer => ih answer (first.2 answer) second⟩
  | fork count child join _ ih =>
      exact ⟨first.1, fun verdicts => ih verdicts (first.2 verdicts) second⟩
  | spin => trivial

theorem All.mono {ok' : Op → Prop} {p : Program Op Res α} (all : All ok p)
    (weaker : ∀ op, ok op → ok' op) : All ok' p := by
  induction p with
  | done value => trivial
  | call op next ih => exact ⟨weaker _ all.1, fun answer => ih answer (all.2 answer)⟩
  | fork count child join ihChild ihJoin =>
      exact ⟨fun i => ihChild i (all.1 i), fun verdicts => ihJoin verdicts (all.2 verdicts)⟩
  | spin => trivial

/-- What each call of the footprint does, under an invariant that the calls and the
environment keep, every step of the program does. -/
theorem All.sat {p : Program Op Res α} {s : σ} (Inv : σ → Prop) (all : All ok p) (start : Inv s)
    (keptRely : ∀ s s', I.rely s s' → Inv s → Inv s')
    (each : ∀ op s answer s', ok op → Inv s → H.exec op s answer s' → I.guar s s' ∧ Inv s')
    (spins : H.spins) : Sat H I p (fun _ s' => Inv s') s := by
  induction p generalizing I s with
  | done value => exact fun s' drift => keptRely _ _ drift start
  | call op next ih =>
      intro s' drift answer s'' h
      obtain ⟨promised, now⟩ := each op s' answer s'' all.1 (keptRely _ _ drift start) h
      exact ⟨promised, ih answer (all.2 answer) now keptRely each⟩
  | fork count child join ihChild ihJoin =>
      let J : Interference σ :=
        { rely := fun s s' => Inv s → Inv s'
          guar := fun s s' => I.guar s s' ∧ (Inv s → Inv s')
          rely_refl := fun _ h => h
          rely_trans := fun _ _ _ first second h => second (first h)
          guar_refl := fun s => ⟨I.guar_refl s, fun h => h⟩ }
      have apiece : ∀ op s answer s', ok op → Inv s → H.exec op s answer s' →
          J.guar s s' ∧ Inv s' := by
        intro op s answer s' allowed now h
        obtain ⟨promised, after⟩ := each op s answer s' allowed now h
        exact ⟨⟨promised, fun _ => after⟩, after⟩
      refine ⟨fun _ => J, fun _ _ => Inv, Inv, fun _ => keptRely, ?_, ?_,
        ⟨start, keptRely, ?_⟩, ?_, ?_⟩
      · exact fun _ _ _ _ _ promised => promised.2
      · exact fun _ _ _ promised => promised.1
      · exact fun _ _ _ promised => promised.2
      · exact fun i => ihChild i (all.1 i) start (fun _ _ h => h) apiece
      · exact fun verdicts s' now _ => ihJoin verdicts (all.2 verdicts) now keptRely each
  | spin => exact spins

/-- A step of a program makes one of the calls of its footprint and leaves the others to make. -/
theorem All.step {exec : (op : Op) → σ → Res op → σ → Prop} {p p' : Program Op Res α} {s s' : σ}
    {Inv : σ → Prop} (each : ∀ op s answer s', ok op → Inv s → exec op s answer s' → Inv s')
    (all : All ok p) (now : Inv s) (one : Step exec p s p' s') : All ok p' ∧ Inv s' := by
  induction one with
  | call h => exact ⟨all.2 _, each _ _ _ _ all.1 now h⟩
  | @child α count child join s s' i p' one ih =>
      obtain ⟨rest, after⟩ := ih (all.1 i) now
      refine ⟨⟨fun j => ?_, all.2⟩, after⟩
      by_cases same : j = i
      · subst same
        rwa [Function.update_self]
      · rw [Function.update_of_ne same]
        exact all.1 j
  | join verdicts _ => exact ⟨all.2 verdicts, now⟩

/-- Whatever the answers are, what the program returns is within `P`. -/
def Ends : {α : Type} → (α → Prop) → Program Op Res α → Prop
  | _, P, .done value => P value
  | _, P, .call _ next => ∀ answer, Ends P (next answer)
  | _, P, .fork _ _ join => ∀ verdicts, Ends P (join verdicts)
  | _, _, .spin => True

theorem ends_of_all {P : α → Prop} (p : Program Op Res α) (all : ∀ value, P value) : Ends P p := by
  induction p with
  | done value => exact all value
  | call op next ih => exact fun answer => ih answer all
  | fork count child join _ ih => exact fun verdicts => ih verdicts all
  | spin => trivial

theorem Ends.bind {P : α → Prop} {Q : β → Prop} {p : Program Op Res α} {f : α → Program Op Res β}
    (first : Ends P p) (second : ∀ value, P value → Ends Q (f value)) : Ends Q (p >>= f) := by
  induction p with
  | done value => exact second value first
  | call op next ih => exact fun answer => ih answer (first answer) second
  | fork count child join _ ih => exact fun verdicts => ih verdicts (first verdicts) second
  | spin => trivial

theorem Ends.mono {P Q : α → Prop} {p : Program Op Res α} (ends : Ends P p)
    (weaker : ∀ value, P value → Q value) : Ends Q p := by
  induction p with
  | done value => exact weaker value ends
  | call op next ih => exact fun answer => ih answer (ends answer) weaker
  | fork count child join _ ih => exact fun verdicts => ih verdicts (ends verdicts) weaker
  | spin => trivial

theorem Ends.step {exec : (op : Op) → σ → Res op → σ → Prop} {P : α → Prop}
    {p p' : Program Op Res α} {s s' : σ} (ends : Ends P p) (one : Step exec p s p' s') :
    Ends P p' := by
  cases one with
  | call ran => exact ends _
  | child i one => exact ends
  | join verdicts all => exact ends verdicts

theorem Ends.reach {exec : (op : Op) → σ → Res op → σ → Prop} {rely : σ → σ → Prop} {P : α → Prop}
    {p p' : Program Op Res α} {s s' : σ} (ends : Ends P p) (run : Reach exec rely p s p' s') :
    Ends P p' := by
  induction run with
  | refl => exact ends
  | step _ one ih => exact ih.step one
  | env _ _ ih => exact ih

/-- The run in which an oracle answers the calls. Forks are not played. -/
def play (oracle : (op : Op) → σ → Res op × σ) : {α : Type} → Program Op Res α → σ → Option (α × σ)
  | _, .done value, s => some (value, s)
  | _, .call op next, s => play oracle (next (oracle op s).1) (oracle op s).2
  | _, .fork _ _ _, _ => none
  | _, .spin, _ => none

variable {oracle : (op : Op) → σ → Res op × σ}

@[simp] theorem play_done {value : α} {s : σ} :
    play oracle (.done value : Program Op Res α) s = some (value, s) := rfl

@[simp] theorem play_call {op : Op} {next : Res op → Program Op Res α} {s : σ} :
    play oracle (.call op next) s = play oracle (next (oracle op s).1) (oracle op s).2 := rfl

theorem play_bind {p : Program Op Res α} {f : α → Program Op Res β} {s : σ} :
    play oracle (p >>= f) s = (play oracle p s).bind fun r => play oracle (f r.1) r.2 := by
  induction p generalizing s with
  | done value => rfl
  | call op next ih => simp only [call_bind, play_call, ih]
  | fork count child join _ _ => rfl
  | spin => rfl

theorem play_reach {exec : (op : Op) → σ → Res op → σ → Prop} (rely : σ → σ → Prop)
    (allowed : ∀ op s, exec op s (oracle op s).1 (oracle op s).2)
    {p : Program Op Res α} {s s' : σ} {value : α} (played : play oracle p s = some (value, s')) :
    Reach exec rely p s (.done value) s' := by
  induction p generalizing s with
  | done value =>
      cases played
      exact .refl
  | call op next ih => exact (Reach.refl.step (.call (allowed op s))).trans (ih _ played)
  | fork count child join _ _ => cases played
  | spin => cases played

/-- The first `count` calls of that run. -/
def playFor (oracle : (op : Op) → σ → Res op × σ) :
    {α : Type} → Program Op Res α → σ → Nat → Program Op Res α × σ
  | _, .done value, s, _ => (.done value, s)
  | _, .call op next, s, 0 => (.call op next, s)
  | _, .call op next, s, count + 1 => playFor oracle (next (oracle op s).1) (oracle op s).2 count
  | _, .fork count child join, s, _ => (.fork count child join, s)
  | _, .spin, s, _ => (.spin, s)

theorem playFor_reach {exec : (op : Op) → σ → Res op → σ → Prop} (rely : σ → σ → Prop)
    (allowed : ∀ op s, exec op s (oracle op s).1 (oracle op s).2) (p : Program Op Res α) (s : σ)
    (count : Nat) :
    Reach exec rely p s (playFor oracle p s count).1 (playFor oracle p s count).2 := by
  induction p generalizing s count with
  | done value => exact .refl
  | call op next ih =>
      cases count with
      | zero => exact .refl
      | succ count =>
          exact (Reach.refl.step (.call (allowed op s))).trans (ih (oracle op s).1 _ count)
  | fork count child join _ _ => exact .refl
  | spin => exact .refl

/-- The first `count` calls of that run, if all of them pass a check. -/
def playOn (oracle : (op : Op) → σ → Res op × σ) (ok : Op → σ → Bool) :
    {α : Type} → Program Op Res α → σ → Nat → Option (Program Op Res α × σ)
  | _, .done value, s, _ => some (.done value, s)
  | _, .call op next, s, 0 => some (.call op next, s)
  | _, .call op next, s, count + 1 =>
      if ok op s then playOn oracle ok (next (oracle op s).1) (oracle op s).2 count else none
  | _, .fork count child join, s, _ => some (.fork count child join, s)
  | _, .spin, s, _ => some (.spin, s)

theorem playOn_reach {exec : (op : Op) → σ → Res op → σ → Prop} {ok : Op → σ → Bool}
    (rely : σ → σ → Prop)
    (allowed : ∀ op s, ok op s = true → exec op s (oracle op s).1 (oracle op s).2)
    {p : Program Op Res α} {s : σ} {count : Nat} {r : Program Op Res α × σ}
    (played : playOn oracle ok p s count = some r) : Reach exec rely p s r.1 r.2 := by
  induction p generalizing s count with
  | done value =>
      cases played
      exact .refl
  | call op next ih =>
      cases count with
      | zero =>
          cases played
          exact .refl
      | succ count =>
          simp only [playOn] at played
          split at played
          · next passes => exact (Reach.refl.step (.call (allowed op s passes))).trans (ih _ played)
          · cases played
  | fork count child join _ _ =>
      cases played
      exact .refl
  | spin =>
      cases played
      exact .refl

/-- A run of which only a part of the last state is looked at. -/
theorem reach_of_play {γ : Type} {exec : (op : Op) → σ → Res op → σ → Prop} (rely : σ → σ → Prop)
    (allowed : ∀ op s, exec op s (oracle op s).1 (oracle op s).2)
    (p : Program Op Res α) (s : σ) (value : α) (observe : σ → γ) (seen : γ)
    (played : (play oracle p s).map (fun r => (r.1, observe r.2)) = some (value, seen)) :
    ∃ s', Reach exec rely p s (.done value) s' ∧ observe s' = seen := by
  obtain ⟨⟨value', s'⟩, run, same⟩ := Option.map_eq_some_iff.mp played
  cases same
  exact ⟨s', play_reach rely allowed run, rfl⟩

/-- The same, where the oracle's answers are allowed only under an invariant that they keep. -/
theorem reach_of_play_within {γ : Type} {exec : (op : Op) → σ → Res op → σ → Prop}
    (rely : σ → σ → Prop) (Inv : σ → Prop)
    (allowed : ∀ op s, Inv s → exec op s (oracle op s).1 (oracle op s).2 ∧ Inv (oracle op s).2)
    (p : Program Op Res α) (s : σ) (start : Inv s) (value : α) (observe : σ → γ) (seen : γ)
    (played : (play oracle p s).map (fun r => (r.1, observe r.2)) = some (value, seen)) :
    ∃ s', Reach exec rely p s (.done value) s' ∧ observe s' = seen := by
  induction p generalizing s with
  | done other =>
      cases played
      exact ⟨s, .refl, rfl⟩
  | call op next ih =>
      obtain ⟨admitted, kept⟩ := allowed op s start
      obtain ⟨s', run, same⟩ := ih (oracle op s).1 (oracle op s).2 kept value played
      exact ⟨s', (Reach.refl.step (.call admitted)).trans run, same⟩
  | fork count child join _ _ => cases played
  | spin => cases played

end Program

end SyncTool
