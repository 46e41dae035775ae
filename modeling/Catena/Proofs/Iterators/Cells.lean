import Catena.Proofs.Run.Makes

/-!
# Cells of iterators

What a pull does to the cell of its iterator, and what it finds there.
-/

namespace Catena

namespace Machine

/-- The cell of an iterator. -/
def cell? (m : Machine) (i : Ref) : Option IterCell := m.shared.store.iters[i]?

/-- The machine with another cell for an iterator. -/
def setCell (m : Machine) (i : Ref) (c : IterCell) : Machine :=
  { m with shared := { m.shared with store :=
    { m.shared.store with iters := m.shared.store.iters.setIfInBounds i c } } }

theorem cell?_setCell (m : Machine) (i j : Ref) (c : IterCell) :
    (m.setCell i c).cell? j = if i = j then (m.cell? j).map fun _ => c else m.cell? j := by
  simp only [cell?, setCell, Array.getElem?_setIfInBounds]
  split
  · rename_i same
    subst same
    split <;> simp_all
  · rfl

theorem cell?_setCell_self {m : Machine} {i : Ref} {c : IterCell} (found : (m.cell? i).isSome) :
    (m.setCell i c).cell? i = some c := by
  obtain ⟨c', is⟩ := Option.isSome_iff_exists.1 found
  rw [cell?_setCell, if_pos rfl, is]
  rfl

theorem cell?_setCell_ne {i j : Ref} (other : i ≠ j) (m : Machine) (c : IterCell) :
    (m.setCell i c).cell? j = m.cell? j := by
  rw [cell?_setCell, if_neg other]

end Machine

namespace Run

variable {m n : Machine} {i : Ref} {turn : Iterator → Run (Pulled × Iterator)}

theorem setIter_eq (i : Ref) (c : IterCell) (m : Machine) : setIter i c m = .ok () (m.setCell i c) := rfl

/-- What is done when the iterator has given its answer. -/
def settleCell (i : Ref) : Except Fault (Pulled × Iterator) → Run Pulled
  | .ok (.done, _) => do setIter i .done; return .done
  | .ok (pulled, it) => do setIter i (.ready it); return pulled
  | .error e => do setIter i .done; fail e

theorem atCell_done (found : (m.cell? i).getD .done = .done) : atCell i turn m = .ok .done m := by
  have cell : m.shared.store.iters[i]?.getD .done = .done := found
  simp only [atCell, bind_apply, askStore, askShared, cell]
  rfl

theorem atCell_busy (found : m.cell? i = some .busy) :
    atCell i turn m = .error (.fault Fault.busyIterator) m := by
  have cell : m.shared.store.iters[i]?.getD .done = .busy := by
    rw [show m.shared.store.iters[i]? = some .busy from found]
    rfl
  simp only [atCell, bind_apply, askStore, askShared, cell]
  rfl

theorem atCell_ready {it : Iterator} (found : m.cell? i = some (.ready it)) :
    atCell i turn m = (attempt (turn it) >>= settleCell i) (m.setCell i .busy) := by
  have cell : m.shared.store.iters[i]?.getD .done = .ready it := by
    rw [show m.shared.store.iters[i]? = some (.ready it) from found]
    rfl
  simp only [atCell, bind_apply, askStore, askShared, cell, setIter_eq]
  unfold settleCell
  rfl

/-- A pull of an iterator is one of its cell. -/
theorem pull_eq (r : Reentry) (i : Ref) (m : Machine) :
    pull r i m = atCell i (advance r (pullWithin r m.shared.store.iters.size)) m := by
  rw [pull, bind_apply, askStore, askShared, ← pullWithin_succ]

/-- Something is put into the cell, whatever the answer. -/
theorem settleCell_after (i : Ref) (result : Except Fault (Pulled × Iterator)) (m : Machine) :
    ∃ c, (settleCell i result).after m = m.setCell i c := by
  unfold settleCell
  split <;> exact ⟨_, rfl⟩

/-- The answer to a pull is that there is nothing more, or the pull fails, and is not refused. -/
def Finishes (x : Run Pulled) (i : Ref) (m n : Machine) : Prop :=
  x m = .ok .done n ∨ ∃ f, x m = .error (.fault f) n ∧ m.cell? i ≠ some .busy

/-- An iterator that has finished is at its end. -/
theorem cell?_of_finishes (finishes : Finishes (atCell i turn) i m n) (there : (n.cell? i).isSome) :
    n.cell? i = some .done := by
  have settled {result : Except Fault (Pulled × Iterator)} {q : Machine}
      (ends : settleCell i result q = .ok .done n ∨ ∃ f, settleCell i result q = .error (.fault f) n) :
      n = q.setCell i .done := by
    unfold settleCell at ends
    split at ends
    · rcases ends with h | ⟨f, h⟩ <;> cases h
      rfl
    · rename_i apart
      rcases ends with h | ⟨f, h⟩ <;> cases h
      exact (apart rfl).elim
    · rcases ends with h | ⟨f, h⟩ <;> cases h
      rfl
  have same (found : (m.cell? i).getD .done = .done) : n = m := by
    rw [Finishes, atCell_done found] at finishes
    rcases finishes with h | ⟨f, h, -⟩ <;> cases h
    rfl
  cases found : m.cell? i with
  | none =>
    obtain rfl := same (by rw [found]; rfl)
    rw [found] at there
    cases there
  | some c =>
    cases c with
    | done =>
      obtain rfl := same (by rw [found]; rfl)
      exact found
    | busy =>
      rw [Finishes, atCell_busy found] at finishes
      rcases finishes with h | ⟨f, -, free⟩
      · cases h
      · exact absurd found free
    | ready it =>
      rw [Finishes, atCell_ready found, bind_apply] at finishes
      cases turned : attempt (turn it) (m.setCell i .busy) with
      | error e q =>
        rw [turned] at finishes
        obtain rfl := attempt_error turned
        rcases finishes with h | ⟨f, h, -⟩ <;> cases h
      | ok result q =>
        rw [turned] at finishes
        have ends := finishes.imp_right fun h => h.imp fun _ both => both.1
        obtain rfl := settled ends
        rw [Machine.cell?_setCell, if_pos rfl] at there ⊢
        rw [Option.isSome_map] at there
        obtain ⟨c, is⟩ := Option.isSome_iff_exists.1 there
        rw [is]
        rfl

end Run

end Catena
