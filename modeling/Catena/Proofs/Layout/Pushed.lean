import Catena.Proofs.Layout.Settle
import Catena.Proofs.Values

/-!
# The values that a unit pushes

Merging neighbours puts no value into a unit that it did not push before, and neither does giving each
lambda the label behind its end.
-/

namespace Catena

/-- What holds of all values that the operations push. -/
def Pushed (P : Value → Prop) (ops : List Op) : Prop :=
  ∀ op ∈ ops, op.All P

namespace Pushed

variable {P : Value → Prop} {op : Op} {ops ops' done done' : List Op}

theorem cons (h : Pushed P ops) (all : op.All P) : Pushed P (op :: ops) :=
  List.forall_mem_cons.2 ⟨all, h⟩

theorem head (h : Pushed P (op :: ops)) : op.All P := h op List.mem_cons_self

theorem tail (h : Pushed P (op :: ops)) : Pushed P ops :=
  fun op member => h op (List.mem_cons_of_mem _ member)

theorem append (h : Pushed P ops) (h' : Pushed P ops') : Pushed P (ops ++ ops') :=
  fun op member => (List.mem_append.1 member).elim (h op) (h' op)

theorem withSkip (h : Pushed P ops) : Pushed P (ops.flatMap Op.withSkip) := by
  intro op member
  obtain ⟨op', there, member⟩ := List.mem_flatMap.1 member
  unfold Op.withSkip at member
  split at member
  · exact List.mem_singleton.1 member ▸ trivial
  · simp only [List.mem_cons, List.not_mem_nil, or_false] at member
    rcases member with rfl | rfl <;> trivial
  · exact List.mem_singleton.1 member ▸ h op' there

theorem mergePush {vs : List Value} (h : Pushed P done) (all : op.All P) (values : ∀ v ∈ vs, P v) :
    Pushed P (mergePush op vs done).1 := by
  unfold Catena.mergePush
  split
  · refine h.tail.cons fun v member => ?_
    rcases List.mem_cons.1 member with rfl | member
    · exact h.head
    · exact values v member
  · refine h.tail.cons fun v member => ?_
    rcases List.mem_append.1 member with member | member
    · exact h.head v member
    · exact values v member
  · exact h.cons all

theorem absorbDrop (n : Nat) (h : Pushed P done) : Pushed P (absorbDrop n done).2 := by
  induction done generalizing n with
  | nil => unfold Catena.absorbDrop; split <;> exact h
  | cons op done ih =>
    unfold Catena.absorbDrop
    split
    · exact h
    · cases op with
      | push v => exact ih _ h.tail
      | pushMany vs =>
        dsimp only
        split
        · exact ih _ h.tail
        · exact h.tail.cons fun v member => h.head v (List.mem_of_mem_take member)
      | drop m => exact h.tail.cons trivial
      | _ => exact h

theorem mergeDrop (n : Nat) (h : Pushed P done) : Pushed P (mergeDrop n done).1 := by
  have kept := h.absorbDrop n
  unfold Catena.mergeDrop
  dsimp only
  split
  · exact kept
  · exact kept.cons trivial

theorem takeType? (h : Pushed P done) {t : Ty} (taken : takeType? done = some (t, done')) :
    Pushed P done' := by
  unfold Catena.takeType? at taken
  split at taken
  · obtain ⟨t', -, same⟩ := Option.map_eq_some_iff.1 taken
    cases same
    exact h.tail
  · rename_i vs rest
    obtain ⟨v, -, taken⟩ := Option.bind_eq_some_iff.1 taken
    obtain ⟨t', -, taken⟩ := Option.bind_eq_some_iff.1 taken
    cases taken
    split
    · exact h.tail
    · exact h.tail.cons fun v member => h.head v (List.dropLast_subset _ member)
  · cases taken

theorem bracketTypes? {id : Nat} {args args' : List Ty} (h : Pushed P done)
    (found : bracketTypes? id args done = some (args', done')) : Pushed P done' := by
  obtain ⟨old, rfl, -⟩ := bracketTypes?_ok found
  intro op member
  exact h op (List.mem_append_right _ (List.mem_cons_of_mem _ member))

theorem loopOps {make : Label → Op} (id : Nat) (h : Pushed P done)
    (bare : ∀ l, (make l).isPlain = false) : Pushed P ((loopOps id make).reverse ++ done) := by
  refine append (fun op member => ?_) h
  simp only [Catena.loopOps, List.mem_reverse, List.mem_cons, List.not_mem_nil, or_false] at member
  rcases member with rfl | rfl | rfl | rfl
  · trivial
  · have := bare (.fresh "done" id)
    cases made : make (.fresh "done" id) <;> rw [made] at this <;> trivial
  · trivial
  · trivial

end Pushed

end Catena
