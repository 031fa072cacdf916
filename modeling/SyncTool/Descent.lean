import Mathlib.Data.List.Induction
import Mathlib.Data.List.Nodup
import Mathlib.Data.List.Perm.Subperm
import Mathlib.Logic.Relation

set_option autoImplicit false

namespace SyncTool

/- Descents along the labelled edges of a graph. A vertex stands at a place,
  and several may stand at
the same one. -/
namespace Descent

variable {V L P : Type} (into : V → L → Option V) (place : V → P)

/-- Where labels lead from a vertex. -/
def leads (v : V) : List L → Option V
  | [] => some v
  | label :: labels => (into v label).bind fun next => leads next labels

/-- The places that labels lead through, as far as they lead. -/
def chain (v : V) : List L → List P
  | [] => [place v]
  | label :: labels =>
      place v :: match into v label with
        | none => []
        | some next => chain next labels

/-- Some label leads from `v` to `next`. -/
def Edge (v next : V) : Prop := ∃ label, into v label = some next

/-- No descent that passes a place comes back to it. -/
def Acyclic (start : V) : Prop :=
  ∀ v, Relation.ReflTransGen (Edge into) start v →
    ∀ later, Relation.TransGen (Edge into) v later → place later ≠ place v

variable {into place} {v w next : V} {label : L} {labels more : List L}

theorem leads_append :
    leads into v (labels ++ more) = (leads into v labels).bind (leads into · more) := by
  induction labels generalizing v with
  | nil => rfl
  | cons label labels ih =>
      rw [List.cons_append, leads, leads, Option.bind_assoc]
      congr
      funext next
      exact ih

theorem leads_concat (led : leads into v labels = some w) :
    leads into v (labels ++ [label]) = into w label := by
  rw [leads_append, led]
  simp [leads]

/-- Labels lead where edges lead. -/
theorem exists_leads :
    (∃ labels, leads into v labels = some w) ↔ Relation.ReflTransGen (Edge into) v w := by
  constructor
  · intro ⟨labels, led⟩
    induction labels generalizing v with
    | nil =>
        obtain rfl := Option.some.inj led
        exact .refl
    | cons label labels ih =>
        obtain ⟨next, one, rest⟩ := Option.bind_eq_some_iff.mp led
        exact .head ⟨label, one⟩ (ih rest)
  · intro reach
    induction reach with
    | refl => exact ⟨[], rfl⟩
    | tail _ edge ih =>
        obtain ⟨labels, led⟩ := ih
        obtain ⟨label, one⟩ := edge
        exact ⟨labels ++ [label], by rw [leads_concat led, one]⟩

theorem exists_leads_cons :
    (∃ label labels, leads into v (label :: labels) = some w) ↔
    Relation.TransGen (Edge into) v w := by
  rw [Relation.TransGen.head'_iff]
  constructor
  · intro ⟨label, labels, led⟩
    obtain ⟨next, one, rest⟩ := Option.bind_eq_some_iff.mp led
    exact ⟨next, ⟨label, one⟩, exists_leads.mp ⟨labels, rest⟩⟩
  · intro ⟨next, ⟨label, one⟩, rest⟩
    obtain ⟨labels, led⟩ := exists_leads.mpr rest
    exact ⟨label, labels, by rw [leads, one, Option.bind_some, led]⟩

theorem length_chain (led : leads into v labels = some w) :
    (chain into place v labels).length = labels.length + 1 := by
  induction labels generalizing v with
  | nil => rfl
  | cons label labels ih =>
      obtain ⟨next, one, rest⟩ := Option.bind_eq_some_iff.mp led
      rw [chain, one, List.length_cons, ih rest, List.length_cons]

/-- A descent goes on from where it has come to. -/
theorem chain_append (led : leads into v labels = some w) (one : into w label = some next) :
    chain into place v (labels ++ label :: more) =
      chain into place v labels ++ chain into place next more := by
  induction labels generalizing v with
  | nil =>
      obtain rfl := Option.some.inj led
      rw [List.nil_append, chain, chain, one]
      rfl
  | cons first labels ih =>
      obtain ⟨second, step, rest⟩ := Option.bind_eq_some_iff.mp led
      rw [List.cons_append, chain, step, chain, step, List.cons_append]
      exact congrArg (place v :: ·) (ih rest)

theorem chain_concat (led : leads into v labels = some w) (one : into w label = some next) :
    chain into place v (labels ++ [label]) = chain into place v labels ++ [place next] :=
  chain_append led one

/-- What a descent passes is where a part of its labels leads. -/
theorem mem_chain (led : leads into v labels = some w) {p : P}
    (member : p ∈ chain into place v labels) :
    ∃ front back u, labels = front ++ back ∧ leads into v front = some u ∧
    leads into u back = some w ∧
      place u = p := by
  induction labels generalizing v with
  | nil =>
      rw [chain, List.mem_singleton] at member
      exact ⟨[], [], v, rfl, rfl, led, member.symm⟩
  | cons label labels ih =>
      obtain ⟨next, one, rest⟩ := Option.bind_eq_some_iff.mp led
      rw [chain, one] at member
      rcases List.mem_cons.mp member with rfl | later
      · exact ⟨[], label :: labels, v, rfl, rfl, led, rfl⟩
      · obtain ⟨front, back, u, rfl, before, after, same⟩ := ih rest later
        refine ⟨label :: front, back, u, rfl, ?_, after, same⟩
        rw [leads, one, Option.bind_some, before]

theorem place_mem_chain (led : leads into v labels = some w) :
    place w ∈ chain into place v labels := by
  induction labels generalizing v with
  | nil =>
      obtain rfl := Option.some.inj led
      exact List.mem_singleton.mpr rfl
  | cons label labels ih =>
      obtain ⟨next, one, rest⟩ := Option.bind_eq_some_iff.mp led
      rw [chain, one]
      exact List.mem_cons_of_mem _ (ih rest)

/-- Nothing leads back to itself just in case no descent passes a place twice. -/
theorem acyclic_iff : Acyclic into place v ↔
    ∀ labels w, leads into v labels = some w → (chain into place v labels).Nodup := by
  constructor
  · intro acyclic labels
    induction labels using List.reverseRecOn with
    | nil =>
        intro w _
        exact List.nodup_singleton _
    | append_singleton labels label ih =>
        intro next led
        obtain ⟨w, before, one⟩ : ∃ w, leads into v labels = some w ∧ into w label = some next := by
          rw [leads_append] at led
          obtain ⟨w, before, after⟩ := Option.bind_eq_some_iff.mp led
          exact ⟨w, before, by simpa [leads] using after⟩
        rw [chain_concat before one, List.nodup_append]
        refine ⟨ih w before, List.nodup_singleton _, ?_⟩
        intro p passed p' last same
        rw [List.mem_singleton] at last
        obtain ⟨front, back, u, -, toU, fromU, rfl⟩ := mem_chain before passed
        have goes := Relation.TransGen.tail' (exists_leads.mp ⟨back, fromU⟩) ⟨label, one⟩
        have apart := acyclic u (exists_leads.mp ⟨front, toU⟩) next goes
        exact apart (last.symm.trans same.symm)
  · intro nodup u reach later goes
    obtain ⟨front, toU⟩ := exists_leads.mpr reach
    obtain ⟨label, back, fromU⟩ := exists_leads_cons.mpr goes
    obtain ⟨next, one, rest⟩ := Option.bind_eq_some_iff.mp fromU
    have whole : leads into v (front ++ label :: back) = some later := by
      rw [leads_append, toU, Option.bind_some, fromU]
    have passed := nodup _ later whole
    rw [chain_append toU one, List.nodup_append] at passed
    exact fun same => passed.2.2 _ (place_mem_chain toU) _ (place_mem_chain rest) same.symm

/-- A descent that passes no place twice is not longer than the list of the places. -/
theorem length_le_of_nodup {places : List P} (nodup : (chain into place v labels).Nodup)
    (inside : ∀ p ∈ chain into place v labels, p ∈ places) :
    (chain into place v labels).length ≤ places.length :=
  (nodup.subperm inside).length_le

end Descent

end SyncTool
