import Catena.Proofs.Iterators.Cells

/-!
# Handles of iterators

The library draws on iterators, and makes others of them, through handles that it takes off the stack.
-/

namespace Catena

/-- The value is a handle of the iterator. -/
structure Value.Handles (v : Value) (i : Ref) : Prop where
  behavior : v.ty.behavior = .iter
  payload : v.payload = .iter i

/-- The machine with one more value on the stack in use. -/
def Machine.push (m : Machine) (v : Value) : Machine :=
  { m with thread := m.thread.push v }

theorem Thread.pop_push {t : Thread} (stack : t.valueStacks.size ≠ 0) (v : Value) :
    (t.push v).modifyStack Array.pop = t := by
  have kept (xs : Array (Array Value)) (k : Nat) :
      (xs.modify k (·.push v)).modify k Array.pop = xs := by
    apply Array.ext_getElem?
    intro j
    simp only [Array.getElem?_modify]
    split <;> cases xs[j]? <;> simp
  have some_ : t.valueStacks.isEmpty = false := by simpa [Array.isEmpty] using stack
  have some' : (t.valueStacks.modify (t.valueStacks.size - 1) (·.push v)).isEmpty = false := by
    simpa [Array.isEmpty] using stack
  simp only [Thread.push, Thread.modifyStack, some_, some', Bool.false_eq_true, if_false,
    Array.size_modify, kept]

/-- What takes a value off the stack finds the one that was put there. -/
theorem Run.pop_push {α : Type} {m : Machine} (stack : m.thread.valueStacks.size ≠ 0) (v : Value)
    (k : Value → Run α) : (Run.pop >>= k) (m.push v) = k v m := by
  have top : (m.push v).thread.top? = some v := Thread.top?_push m.thread v
  have popped : Run.pop (m.push v) = .ok v m := by
    rw [pop_some top]
    show EStateM.Result.ok v { m with thread := (m.thread.push v).modifyStack Array.pop } = _
    rw [Thread.pop_push stack]
  rw [bind_apply, popped]

theorem Run.iterate_handle {v : Value} {i : Ref} (handle : v.Handles i) : Run.iterate v = pure i := by
  unfold iterate
  rw [handle.behavior, handle.payload]

namespace Run

variable {r : Reentry} {m n : Machine} {v : Value} {i : Ref}

theorem stacks_push (stack : m.thread.valueStacks.size ≠ 0) : (m.push v).thread.valueStacks.size ≠ 0 := by
  rw [Machine.push, Thread.push, Thread.modifyStack]
  split
  · exact Nat.one_ne_zero
  · simpa using stack

theorem drain_handle (handle : v.Handles i) : drain r v = drainInto r i stepLimit #[] := by
  rw [drain, iterate_handle handle, pure_bind]

theorem makeList_push (handle : v.Handles i) (stack : m.thread.valueStacks.size ≠ 0) (r : Reentry) :
    makeList r (m.push v) = (do
      push (← listOf (← drainInto r i stepLimit #[]) v.ty.elem)
      return Reply.next : Run Reply) m := by
  rw [makeList, pop_push stack, drain_handle handle]

theorem makeTable_push (handle : v.Handles i) (stack : m.thread.valueStacks.size ≠ 0) (r : Reentry) :
    makeTable r (m.push v) = (do
      let items ← drainInto r i stepLimit #[]
      let (key, value) := entryTypes v.ty.elem
      push (← tableOf (← fillTable [] items.toList) key value)
      return Reply.next : Run Reply) m := by
  rw [makeTable, pop_push stack, drain_handle handle]

theorem nextItem_push (handle : v.Handles i) (stack : m.thread.valueStacks.size ≠ 0) (r : Reentry) :
    nextItem r (m.push v) = (do
      let item ← await r i stepLimit
      pushEach [v, item.getD .nil]
      return Reply.next : Run Reply) m := by
  rw [nextItem, pop_push stack, iterate_handle handle, pure_bind]

/-- A list that is made is a new one, and on the stack. -/
theorem pushList (items : Array Value) (item : Ty) (m : Machine) :
    ∃ n, (do push (← listOf items item); return Reply.next : Run Reply) m = .ok .next n ∧
      n.thread.top?.map Value.payload = some (.list m.shared.store.lists.size) ∧
      n.shared.store = { m.shared.store with lists := m.shared.store.lists.push items } :=
  ⟨_, rfl, congrArg (Option.map Value.payload) (Thread.top?_push m.thread _), rfl⟩

/-! ## Making one iterator of others -/

/-- There is one more iterator, and nothing else happens to the objects in the store. -/
def Adds (it : Iterator) (m n : Machine) : Prop :=
  n.shared.store = { m.shared.store with iters := m.shared.store.iters.push (.ready it) }

variable {test f w : Value} {j : Ref}

theorem filter_push (handle : v.Handles i) (stack : m.thread.valueStacks.size ≠ 0) (test : Value) :
    ∃ n, filter ((m.push v).push test) = .ok .next n ∧ Adds (.filter i test) m n := by
  rw [filter, pop_push (stacks_push stack), pop_push stack, iterate_handle handle]
  exact ⟨_, rfl, rfl⟩

theorem map_push (handle : v.Handles i) (stack : m.thread.valueStacks.size ≠ 0) (f : Value) :
    ∃ n, map ((m.push v).push f) = .ok .next n ∧ Adds (.map i f) m n := by
  rw [map, pop_push (stacks_push stack), pop_push stack, iterate_handle handle]
  exact ⟨_, rfl, rfl⟩

theorem zip_push (handle : v.Handles i) (handle' : w.Handles j) (stack : m.thread.valueStacks.size ≠ 0) :
    ∃ n, zip ((m.push v).push w) = .ok .next n ∧ Adds (.zip i j none) m n := by
  rw [zip, pop_push (stacks_push stack), pop_push stack, iterate_handle handle, iterate_handle handle']
  exact ⟨_, rfl, rfl⟩

/-- The new iterator is ready, and the others are as they were. -/
theorem Adds.cells {it : Iterator} (h : Adds it m n) :
    n.cell? m.shared.store.iters.size = some (.ready it) ∧
      ∀ j, (m.cell? j).isSome → n.cell? j = m.cell? j := by
  unfold Machine.cell?
  rw [h]
  refine ⟨Array.getElem?_push_size, fun j there => ?_⟩
  obtain ⟨c, found⟩ := Option.isSome_iff_exists.1 there
  have inside := (Array.getElem?_eq_some_iff.1 found).1
  rw [Array.getElem?_push, if_neg (Nat.ne_of_lt inside)]

end Run

end Catena
