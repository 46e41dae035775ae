import Catena.Proofs.Control.Around
import Catena.Proofs.Layout.Place

/-!
# Operations without labels of the program

Where a program has put no label, the only jumps are those of loops, back to the label in front of them.
Operations are `Paved` if that is so and everything stands where it should, counted from the first
operation there is. Units are added behind one another, and operations that were paved stay so
(`Paved.append`).
-/

namespace Catena

namespace Op

/-- Whether the operation is one of a loop. -/
def isLoop : Op → Bool
  | .for _ | .while _ => true
  | _ => false

theorem isLoop_cases {op : Op} (h : op.isLoop = true) : ∃ done, op = .for done ∨ op = .while done := by
  cases op with
  | «for» done => exact ⟨done, .inl rfl⟩
  | «while» done => exact ⟨done, .inr rfl⟩
  | _ => cases h

end Op

/-! ## Brackets that match -/

theorem Balanced.append {ops ops' : List Op} (h : Balanced ops) (h' : Balanced ops') :
    Balanced (ops ++ ops') := by
  induction h with
  | nil => exact h'
  | plain opens closes _ ih => exact .plain opens closes ih
  | pair opens closes inside _ _ after =>
    rw [List.cons_append, List.append_assoc, List.cons_append]
    exact .pair opens closes inside after

/-- What matches still does with operations before and behind. -/
theorem Matches.within {ops : List Op} {i j : Nat} (h : Matches ops i j) (before after : List Op) :
    Matches (before ++ ops ++ after) (before.length + i) (before.length + j) := by
  obtain ⟨before', first, inside, last, after', b, rfl, rfl, rfl, opens, closes, balanced⟩ := h
  refine ⟨before ++ before', first, inside, last, after' ++ after, b, by simp, by simp, ?_, opens, closes,
    balanced⟩
  simp only [List.length_append]
  omega

/-- What an operation closes was opened by the one it matches. -/
theorem Balanced.matched {ops : List Op} (h : Balanced ops) {j : Nat} {last : Op} {b : Bracket}
    (found : ops[j]? = some last) (closes : last.closes? = some b) :
    ∃ i first, Matches ops i j ∧ ops[i]? = some first ∧ first.opens? = some b := by
  induction h generalizing j with
  | nil => cases found
  | @plain op ops _ keeps _ ih =>
    cases j with
    | zero =>
      obtain rfl := Option.some.inj found
      rw [keeps] at closes
      cases closes
    | succ j =>
      obtain ⟨i, first, matched, there, opens⟩ := ih found
      refine ⟨i + 1, first, ?_, there, opens⟩
      have within := matched.within [op] []
      simpa [Nat.add_comm] using within
  | @pair op cl b' inside after opens shuts balanced _ ihInside ihAfter =>
    have place {k : Nat} {x : Op} (there : inside[k]? = some x) :
        (op :: (inside ++ cl :: after))[k + 1]? = some x := by
      rw [List.getElem?_cons_succ, List.getElem?_append_left (List.getElem?_eq_some_iff.1 there).1, there]
    cases j with
    | zero =>
      obtain rfl := Option.some.inj found
      rw [Op.opens?_of_closes? closes] at opens
      cases opens
    | succ j =>
      rw [List.getElem?_cons_succ] at found
      rcases Nat.lt_trichotomy j inside.length with lt | rfl | gt
      · rw [List.getElem?_append_left lt] at found
        obtain ⟨i, first, matched, there, opens⟩ := ihInside found
        refine ⟨i + 1, first, ?_, place there, opens⟩
        have within := matched.within [op] (cl :: after)
        simpa [Nat.add_comm] using within
      · have here : (inside ++ cl :: after)[inside.length]? = some cl := by simp
        obtain rfl := Option.some.inj (here.symm.trans found)
        obtain rfl := Option.some.inj (shuts.symm.trans closes)
        refine ⟨0, op, ⟨[], op, inside, cl, after, b', rfl, rfl, ?_, opens, shuts, balanced⟩, rfl, opens⟩
        simp [Nat.add_comm]
      · obtain ⟨k, rfl⟩ : ∃ k, j = inside.length + 1 + k := ⟨j - (inside.length + 1), by omega⟩
        have behind : after[k]? = some last := by
          rw [List.getElem?_append_right (by omega), show inside.length + 1 + k - inside.length = k + 1
            by omega, List.getElem?_cons_succ] at found
          exact found
        obtain ⟨i, first, matched, there, opens⟩ := ihAfter behind
        refine ⟨inside.length + 2 + i, first, ?_, ?_, opens⟩
        · have within := matched.within (op :: (inside ++ [cl])) []
          have length : (op :: (inside ++ [cl])).length = inside.length + 2 := by simp
          rw [length] at within
          have parts : op :: (inside ++ [cl]) ++ after ++ [] = op :: (inside ++ cl :: after) := by simp
          rwa [parts, show inside.length + 2 + k = inside.length + 1 + k + 1 by omega] at within
        · rw [show inside.length + 2 + i = (inside.length + 1 + i) + 1 by omega, List.getElem?_cons_succ,
            List.getElem?_append_right (by omega), show inside.length + 1 + i - inside.length = i + 1
            by omega, List.getElem?_cons_succ, there]

/-! ## Paved operations -/

/-- Everything stands where it should, and the only jumps are those of loops. -/
structure Paved (ops : List Op) : Prop where
  balanced : Balanced ops
  lambda : ∀ (p : Nat) (body : LambdaDef) kind skip, ops[p]? = some (.lambda body kind skip) →
    body.entry = some (p + 1) ∧ ∃ j l, Matches ops p j ∧ skip = some l ∧ l.pc = some (j + 1)
  loop : ∀ (k : Nat) (op : Op), ops[k]? = some op → op.isLoop = true →
    ∃ start finish, 0 < k ∧ ops[k - 1]? = some (.target start) ∧ start.pc = some (k - 1) ∧
      ops[k + 1]? = some (.jump start.name (some start)) ∧
      (op = .for (some finish) ∨ op = .while (some finish)) ∧ finish.pc = some (k + 2)
  attempt : ∀ (p : Nat) (done : Label), ops[p]? = some (.try done) →
    ∃ j, Matches ops p j ∧ 0 < j ∧ ops[j - 1]? = some (.target done) ∧ done.pc = some (j - 1)
  jump : ∀ (i : Nat) name l, ops[i]? = some (.jump name (some l)) →
    ∃ k op, i = k + 1 ∧ ops[k]? = some op ∧ op.isLoop = true

namespace Paved

theorem nil : Paved [] := ⟨.nil, by simp, by simp, by simp, by simp⟩

/-- A unit comes behind operations. -/
theorem append {ops unit : List Op} {known : Dict String Label} (h : Paved ops)
    (layout : Layout ops.length known unit)
    (jumps : ∀ (i : Nat) name l, unit[i]? = some (.jump name (some l)) →
      ∃ k op, i = k + 1 ∧ unit[k]? = some op ∧ op.isLoop = true) : Paved (ops ++ unit) := by
  have old {i : Nat} {op : Op} (found : ops[i]? = some op) : (ops ++ unit)[i]? = some op := by
    rw [List.getElem?_append_left (List.getElem?_eq_some_iff.1 found).1, found]
  have new {i : Nat} {op : Op} (found : unit[i]? = some op) :
      (ops ++ unit)[ops.length + i]? = some op := by
    rw [List.getElem?_append_right (Nat.le_add_right _ _), Nat.add_sub_cancel_left, found]
  have parts {i : Nat} {op : Op} (found : (ops ++ unit)[i]? = some op) :
      ops[i]? = some op ∨ ∃ k, i = ops.length + k ∧ unit[k]? = some op := by
    rcases Nat.lt_or_ge i ops.length with lt | ge
    · rw [List.getElem?_append_left lt] at found
      exact .inl found
    · rw [List.getElem?_append_right ge] at found
      exact .inr ⟨i - ops.length, by omega, found⟩
  have lower {i j : Nat} (matched : Matches ops i j) : Matches (ops ++ unit) i j := by
    simpa using matched.within [] unit
  have upper {i j : Nat} (matched : Matches unit i j) :
      Matches (ops ++ unit) (ops.length + i) (ops.length + j) := by
    simpa using matched.within ops []
  constructor
  · exact h.balanced.append layout.balanced
  · intro p body kind skip found
    rcases parts found with there | ⟨p, rfl, there⟩
    · obtain ⟨entry, j, l, matched, rest⟩ := h.lambda p body kind skip there
      exact ⟨entry, j, l, lower matched, rest⟩
    · obtain ⟨entry, j, l, matched, skip, place⟩ := layout.lambda p body kind skip there
      exact ⟨entry, ops.length + j, l, upper matched, skip, place⟩
  · intro k op found isLoop
    rcases parts found with there | ⟨k, rfl, there⟩
    · obtain ⟨start, finish, pos, before, at_, behind, rest⟩ := h.loop k op there isLoop
      exact ⟨start, finish, pos, old before, at_, old behind, rest⟩
    · obtain ⟨done, shape⟩ := Op.isLoop_cases isLoop
      obtain ⟨start, finish, pos, before, at_, behind, rfl, done⟩ := layout.loop k op done there shape
      refine ⟨start, finish, by omega, ?_, ?_, new behind, shape, done⟩
      · rw [Nat.add_sub_assoc pos]
        exact new before
      · exact at_
  · intro p done found
    rcases parts found with there | ⟨p, rfl, there⟩
    · obtain ⟨j, matched, pos, before, at_⟩ := h.attempt p done there
      exact ⟨j, lower matched, pos, old before, at_⟩
    · obtain ⟨j, l, matched, pos, before, rfl, at_⟩ := layout.attempt p done there
      refine ⟨ops.length + j, upper matched, by omega, ?_, at_⟩
      rw [Nat.add_sub_assoc pos]
      exact new before
  · intro i name l found
    rcases parts found with there | ⟨i, rfl, there⟩
    · obtain ⟨k, op, rfl, before, isLoop⟩ := h.jump i name l there
      exact ⟨k, op, rfl, old before, isLoop⟩
    · obtain ⟨k, op, rfl, before, isLoop⟩ := jumps i name l there
      exact ⟨ops.length + k, op, by omega, new before, isLoop⟩

variable {ops : List Op} {p k : Nat}

/-! ## Where operations lead -/

theorem lambda_at (h : Paved ops) {body : LambdaDef} {kind : LambdaKind} {skip : Option Label}
    (found : ops[p]? = some (.lambda body kind skip)) : body.entry = some (p + 1) ∧
      around ops (p + 1) = p :: around ops p ∧
      ∃ l x, skip = some l ∧ l.pc = some x ∧ around ops x = around ops p := by
  obtain ⟨entry, j, l, matched, skip, place⟩ := h.lambda p body kind skip found
  refine ⟨entry, around_opens found rfl rfl, l, j + 1, skip, place, ?_⟩
  exact (matched.around found rfl rfl).2

theorem try_at (h : Paved ops) {done : Label} (found : ops[p]? = some (.try done)) :
    ∃ x, done.pc = some x ∧ around ops x = p :: around ops p := by
  obtain ⟨j, matched, pos, before, place⟩ := h.attempt p done found
  refine ⟨j - 1, place, ?_⟩
  rw [← (matched.around found rfl rfl).1, ← around_plain before rfl rfl, Nat.sub_add_cancel pos]

/-- The end of a scope is right behind the last place inside. -/
theorem close_at (h : Paved ops) {j : Nat} {last : Op} {b : Bracket} (found : ops[j]? = some last)
    (closes : last.closes? = some b) (scope : b.isScope = true) :
    ∃ p first, around ops j = p :: around ops p ∧ ops[p]? = some first ∧ first.opens? = some b ∧
      around ops (j + 1) = around ops p := by
  obtain ⟨p, first, matched, there, opens⟩ := h.balanced.matched found closes
  obtain ⟨inside, behind⟩ := matched.around there opens scope
  exact ⟨p, first, inside, there, opens, behind⟩

/-- The places of a loop are those of its label, its operation, its jump, and what comes behind. -/
theorem loop_at (h : Paved ops) {op : Op} (found : ops[k]? = some op) (isLoop : op.isLoop = true) :
    ∃ start finish, 0 < k ∧ ops[k - 1]? = some (.target start) ∧ start.pc = some (k - 1) ∧
      ops[k + 1]? = some (.jump start.name (some start)) ∧
      (op = .for (some finish) ∨ op = .while (some finish)) ∧ finish.pc = some (k + 2) ∧
      around ops (k - 1) = around ops k ∧ around ops (k + 1) = around ops k ∧
      around ops (k + 2) = around ops k := by
  obtain ⟨start, finish, pos, before, place, behind, shape, done⟩ := h.loop k op found isLoop
  have first : around ops k = around ops (k - 1) := by
    rw [← around_plain before rfl rfl, Nat.sub_add_cancel pos]
  have second : around ops (k + 1) = around ops k := by
    rcases shape with rfl | rfl <;> exact around_plain found rfl rfl
  have third : around ops (k + 2) = around ops (k + 1) := around_plain behind rfl rfl
  exact ⟨start, finish, pos, before, place, behind, shape, done, first.symm, second, third.trans second⟩

theorem jump_at (h : Paved ops) {i : Nat} {name : String} {l : Label}
    (found : ops[i]? = some (.jump name (some l))) :
    ∃ k op, i = k + 1 ∧ ops[k]? = some op ∧ op.isLoop = true ∧ 0 < k ∧ l.pc = some (k - 1) := by
  obtain ⟨k, op, rfl, there, isLoop⟩ := h.jump i name l found
  obtain ⟨start, finish, pos, -, place, behind, -⟩ := h.loop k op there isLoop
  have same := Option.some.inj (behind.symm.trans found)
  obtain rfl := Option.some.inj (Op.jump.inj same).2
  exact ⟨k, op, rfl, there, isLoop, pos, place⟩

end Paved

end Catena
