import Catena.Store.Equality
import Mathlib.Data.Fintype.Sum
import Mathlib.Logic.Relation

/-!
# Values that do not contain themselves

A value is taken apart by going from it to its items, fields, entries or sides, and on from each of
these. Where no value that is met contains itself, this comes to an end after at most as many steps as
there are objects that hold values (`Store.nested_iff`), since an object is met only once on a way
down. So it can be decided whether a value contains itself, and whether something holds of all values
in it.
-/

namespace Catena.Store

variable {s : Store} {v w : Value} {P : Value → Prop}

/-- What stands right in a value. -/
def parts (s : Store) (v : Value) : List Value :=
  match v.payload with
  | .list r => (s.listAt r).toList
  | .struct r => (s.structAt r).toList
  | .table r => (s.tableAt r).flatMap fun e => [e.1, e.2]
  | .pair r =>
    match s.pairs[r]? with
    | some p => [p.1, p.2]
    | none => []
  | _ => []

theorem parts_pair {t : Ty} {r : Ref} {p : Value × Value} (stored : s.pairs[r]? = some p) :
    s.parts ⟨t, .pair r⟩ = [p.1, p.2] := by
  simp [parts, stored]

/-- The first value stands in the second, at any depth. -/
def Inside (s : Store) : Value → Value → Prop :=
  Relation.TransGen fun w v => w ∈ s.parts v

/-- The first value is the second or stands in it. -/
def Within (s : Store) : Value → Value → Prop :=
  Relation.ReflTransGen fun w v => w ∈ s.parts v

/-- Neither the value nor any value in it contains itself. -/
def Acyclic (s : Store) (v : Value) : Prop :=
  ∀ w, s.Within w v → ¬ s.Inside w w

theorem Acyclic.part (h : s.Acyclic v) (member : w ∈ s.parts v) : s.Acyclic w :=
  fun u within => h u (within.tail member)

/-! ## Objects -/

/-- The objects that hold values. -/
abbrev Holder (s : Store) : Type :=
  Fin s.lists.size ⊕ Fin s.structs.size ⊕ Fin s.tables.size ⊕ Fin s.pairs.size

theorem card_holder (s : Store) : Fintype.card s.Holder = s.nesting := by
  simp [nesting, Nat.add_assoc]

/-- The object that a value refers to, if it is one that holds values. -/
def holder? (s : Store) (v : Value) : Option s.Holder :=
  match v.payload with
  | .list r => if h : r < s.lists.size then some (.inl ⟨r, h⟩) else none
  | .struct r => if h : r < s.structs.size then some (.inr (.inl ⟨r, h⟩)) else none
  | .table r => if h : r < s.tables.size then some (.inr (.inr (.inl ⟨r, h⟩))) else none
  | .pair r => if h : r < s.pairs.size then some (.inr (.inr (.inr ⟨r, h⟩))) else none
  | _ => none

/-- What stands in an object. -/
def held (s : Store) : s.Holder → List Value
  | .inl r => s.lists[r].toList
  | .inr (.inl r) => s.structs[r].toList
  | .inr (.inr (.inl r)) => s.tables[r].flatMap fun e => [e.1, e.2]
  | .inr (.inr (.inr r)) => [s.pairs[r].1, s.pairs[r].2]

/-- The parts of a value are those of its object. -/
theorem parts_eq (s : Store) (v : Value) : s.parts v = ((s.holder? v).map s.held).getD [] := by
  unfold parts holder?
  cases v.payload with
  | list r => by_cases inside : r < s.lists.size <;> simp [listAt, held, inside]
  | struct r => by_cases inside : r < s.structs.size <;> simp [structAt, held, inside]
  | table r => by_cases inside : r < s.tables.size <;> simp [tableAt, held, inside]
  | pair r => by_cases inside : r < s.pairs.size <;> simp [held, inside]
  | _ => rfl

theorem holder_of_part (member : w ∈ s.parts v) : ∃ o, s.holder? v = some o := by
  rw [parts_eq] at member
  cases found : s.holder? v with
  | none => simp [found] at member
  | some o => exact ⟨o, rfl⟩

open Classical in
/-- The objects that are met when a value is taken apart. -/
noncomputable def holders (s : Store) (v : Value) : Finset s.Holder :=
  Finset.univ.filter fun o => ∃ w, s.Within w v ∧ s.holder? w = some o

theorem mem_holders {o : s.Holder} :
    o ∈ s.holders v ↔ ∃ w, s.Within w v ∧ s.holder? w = some o := by
  simp [holders]

/-- The object of a value that does not contain itself is not met again in its parts. -/
theorem Acyclic.card_lt (h : s.Acyclic v) (member : w ∈ s.parts v) :
    (s.holders w).card < (s.holders v).card := by
  obtain ⟨o, own⟩ := holder_of_part member
  refine Finset.card_lt_card ⟨fun x inside => ?_, fun all => ?_⟩
  · obtain ⟨u, within, at_x⟩ := mem_holders.1 inside
    exact mem_holders.2 ⟨u, within.tail member, at_x⟩
  · obtain ⟨u, within, again⟩ := mem_holders.1 (all (mem_holders.2 ⟨v, .refl, own⟩))
    have same : s.parts u = s.parts v := by rw [parts_eq, parts_eq, again, own]
    exact h u (within.tail member) (.tail' within (same ▸ member))

/-! ## How deep values are nested -/

/-- The value can be taken apart in `n` steps, and `P` holds of all that is met. -/
def Nested (s : Store) (P : Value → Prop) : (n : Nat) → Value → Prop
  | 0, v => P v ∧ s.parts v = []
  | n + 1, v => P v ∧ ∀ w ∈ s.parts v, s.Nested P n w

instance decidableNested (s : Store) (P : Value → Prop) [DecidablePred P] :
    (n : Nat) → DecidablePred (s.Nested P n)
  | 0, v =>
    have : Decidable (s.parts v = []) := decidable_of_iff _ List.isEmpty_iff
    inferInstanceAs (Decidable (P v ∧ s.parts v = []))
  | n + 1, v =>
    have : DecidablePred (s.Nested P n) := decidableNested s P n
    inferInstanceAs (Decidable (P v ∧ ∀ w ∈ s.parts v, s.Nested P n w))

theorem Nested.here {n : Nat} (h : s.Nested P n v) : P v := by
  cases n <;> exact h.1

theorem nested_of_card {n : Nat} (h : s.Acyclic v) (all : ∀ w, s.Within w v → P w)
    (few : (s.holders v).card ≤ n) : s.Nested P n v := by
  induction n generalizing v with
  | zero =>
    refine ⟨all v .refl, List.eq_nil_iff_forall_not_mem.2 fun w member => ?_⟩
    have := h.card_lt member
    omega
  | succ n ih =>
    refine ⟨all v .refl, fun w member => ih (h.part member) (fun u within => all u (within.tail member)) ?_⟩
    have := h.card_lt member
    omega

theorem Nested.within {n : Nat} (h : s.Nested P n v) (within : s.Within w v) :
    P w ∧ ¬ s.Inside w w := by
  induction n generalizing v w with
  | zero =>
    have none : ∀ u, u ∉ s.parts v := by simp [h.2]
    rcases Relation.ReflTransGen.cases_tail within with rfl | ⟨u, -, member⟩
    · refine ⟨h.1, fun loop => ?_⟩
      obtain ⟨u, -, member⟩ := Relation.TransGen.tail'_iff.1 loop
      exact none u member
    · exact absurd member (none u)
  | succ n ih =>
    rcases Relation.ReflTransGen.cases_tail within with rfl | ⟨u, within, member⟩
    · refine ⟨h.1, fun loop => ?_⟩
      obtain ⟨u, within, member⟩ := Relation.TransGen.tail'_iff.1 loop
      exact (ih (h.2 u member) within).2 loop
    · exact ih (h.2 u member) within

theorem Nested.acyclic {n : Nat} (h : s.Nested P n v) : s.Acyclic v :=
  fun _ within => (h.within within).2

/-- A value that does not contain itself is nested no deeper than there are objects that hold values. -/
theorem nested_iff (s : Store) (P : Value → Prop) (v : Value) :
    s.Nested P s.nesting v ↔ s.Acyclic v ∧ ∀ w, s.Within w v → P w := by
  constructor
  · exact fun h => ⟨h.acyclic, fun _ within => (h.within within).1⟩
  · rintro ⟨acyclic, all⟩
    exact nested_of_card acyclic all (s.card_holder ▸ Finset.card_le_univ _)

theorem Acyclic.nested (h : s.Acyclic v) : s.Nested (fun _ => True) s.nesting v :=
  (nested_iff s _ v).2 ⟨h, fun _ _ => trivial⟩

end Catena.Store
