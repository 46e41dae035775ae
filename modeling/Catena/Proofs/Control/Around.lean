import Catena.Proofs.Layout.Brackets

/-!
# What is open at a place

Blocks, `try:` forms and lambdas open scopes; the brackets of generic types do not. What is open at a
place of a sequence of operations (`around`) are the beginnings whose ends come later, the innermost
first. It is what the scopes of a thread have to agree with that executes the operation there.
-/

namespace Catena

/-- Whether a scope belongs to what is opened. -/
def Bracket.isScope : Bracket → Bool
  | param _ => false
  | _ => true

/-- What is open after the operation at place `i`, given what was open before. -/
def Op.nest (i : Nat) (before : List Nat) (op : Op) : List Nat :=
  match op.opens?, op.closes? with
  | some b, _ => if b.isScope then i :: before else before
  | none, some b => if b.isScope then before.tail else before
  | none, none => before

/-- What is open after operations that begin at place `i`, given what was open before. -/
def nestFrom : Nat → List Nat → List Op → List Nat
  | _, before, [] => before
  | i, before, op :: ops => nestFrom (i + 1) (op.nest i before) ops

/-- What is open at place `x`, innermost first. -/
def around (ops : List Op) (x : Nat) : List Nat :=
  nestFrom 0 [] (ops.take x)

namespace Op

variable {op : Op} {b : Bracket}

theorem nest_opens (opens : op.opens? = some b) (scope : b.isScope = true) (i : Nat)
    (before : List Nat) : op.nest i before = i :: before := by
  simp only [nest, opens, scope, if_true]

theorem nest_closes (closes : op.closes? = some b) (scope : b.isScope = true) (i : Nat)
    (before : List Nat) : op.nest i before = before.tail := by
  simp only [nest, opens?_of_closes? closes, closes, scope, if_true]

theorem nest_plain (opens : op.opens? = none) (closes : op.closes? = none) (i : Nat)
    (before : List Nat) : op.nest i before = before := by
  simp only [nest, opens, closes]

/-- One end and one beginning of the same kind make up for each other. -/
theorem nest_pair {last : Op} (opens : op.opens? = some b) (closes : last.closes? = some b)
    (i j : Nat) (before : List Nat) : last.nest j (op.nest i before) = before := by
  cases scope : b.isScope with
  | true => rw [nest_opens opens scope, nest_closes closes scope, List.tail_cons]
  | false => simp [nest, opens, closes, opens?_of_closes? closes, scope]

end Op

theorem nestFrom_append (i : Nat) (before : List Nat) (ops ops' : List Op) :
    nestFrom i before (ops ++ ops') =
      nestFrom (i + ops.length) (nestFrom i before ops) ops' := by
  induction ops generalizing i before with
  | nil => rfl
  | cons op ops ih =>
    rw [List.cons_append, nestFrom, ih, nestFrom, List.length_cons, Nat.add_right_comm, Nat.add_assoc]

/-- What is balanced leaves open what was open. -/
theorem Balanced.nestFrom {ops : List Op} (h : Balanced ops) (i : Nat) (before : List Nat) :
    nestFrom i before ops = before := by
  induction h generalizing i before with
  | nil => rfl
  | plain opens closes _ ih => rw [Catena.nestFrom, Op.nest_plain opens closes, ih]
  | pair opens closes _ _ inside after =>
    rw [Catena.nestFrom, nestFrom_append, inside, Catena.nestFrom, Op.nest_pair opens closes, after]

section Places

variable {ops ops' : List Op} {op : Op} {i j x p : Nat} {rest : List Nat}

theorem around_succ (found : ops[x]? = some op) : around ops (x + 1) = op.nest x (around ops x) := by
  obtain ⟨inside, rfl⟩ := List.getElem?_eq_some_iff.1 found
  rw [around, List.take_add_one, found, nestFrom_append, List.length_take,
    Nat.min_eq_left (Nat.le_of_lt inside), Nat.zero_add]
  rfl

theorem around_opens {b : Bracket} (found : ops[x]? = some op) (opens : op.opens? = some b)
    (scope : b.isScope = true) : around ops (x + 1) = x :: around ops x := by
  rw [around_succ found, Op.nest_opens opens scope]

theorem around_plain (found : ops[x]? = some op) (opens : op.opens? = none)
    (closes : op.closes? = none) : around ops (x + 1) = around ops x := by
  rw [around_succ found, Op.nest_plain opens closes]

/-- Operations that are added behind change nothing. -/
theorem around_append (inside : x ≤ ops.length) : around (ops ++ ops') x = around ops x := by
  rw [around, around, List.take_append_of_le_length inside]

/-- Nothing is open behind operations that are balanced. -/
theorem Balanced.around_end (h : Balanced ops) (behind : ops.length ≤ x) : around ops x = [] := by
  rw [around, List.take_of_length_le behind, h.nestFrom]

/-- At the end of what begins at `i`, what is open there and at `i`. -/
theorem Matches.around (h : Matches ops i j) {b : Bracket} (found : ops[i]? = some op)
    (opens : op.opens? = some b) (scope : b.isScope = true) :
    around ops j = i :: around ops i ∧ around ops (j + 1) = around ops i := by
  obtain ⟨before, first, inside, last, after, b', rfl, rfl, rfl, isFirst, isLast, balanced⟩ := h
  have here : (before ++ first :: (inside ++ last :: after))[before.length]? = some first := by simp
  obtain rfl := Option.some.inj (here.symm.trans found)
  obtain rfl := Option.some.inj (isFirst.symm.trans opens)
  have last? : (before ++ first :: (inside ++ last :: after))[before.length + 1 + inside.length]? =
      some last := by
    rw [List.getElem?_append_right (by omega), show before.length + 1 + inside.length - before.length =
      inside.length + 1 by omega, List.getElem?_cons_succ]
    simp
  have upTo : (before ++ first :: (inside ++ last :: after)).take (before.length + 1 + inside.length) =
      (before ++ [first]) ++ inside := by
    rw [show before ++ first :: (inside ++ last :: after) =
      ((before ++ [first]) ++ inside) ++ (last :: after) by simp]
    rw [List.take_left' (by simp; omega)]
  have whole : Catena.around (before ++ first :: (inside ++ last :: after))
      (before.length + 1 + inside.length) =
        before.length :: Catena.around (before ++ first :: (inside ++ last :: after)) before.length := by
    rw [← around_opens here opens scope, Catena.around, Catena.around, upTo, nestFrom_append,
      balanced.nestFrom]
    congr 1
    rw [show before ++ first :: (inside ++ last :: after) =
      (before ++ [first]) ++ (inside ++ last :: after) by simp, List.take_left' (by simp)]
  exact ⟨whole, by rw [around_succ last?, Op.nest_closes isLast scope, whole, List.tail_cons]⟩

/-- Where something begins that is open, exactly what is around it is open. -/
theorem around_below (h : around ops x = p :: rest) : p < x ∧ around ops p = rest ∧
    ∃ op b, ops[p]? = some op ∧ op.opens? = some b ∧ b.isScope = true := by
  induction x using Nat.strongRecOn generalizing p rest with
  | ind x ih =>
    cases x with
    | zero => cases h
    | succ x =>
      cases found : ops[x]? with
      | none =>
        have few := List.getElem?_eq_none_iff.1 found
        have same : around ops (x + 1) = around ops x := by
          rw [around, around, List.take_of_length_le few, List.take_of_length_le (by omega)]
        obtain ⟨lt, rest⟩ := ih x (Nat.lt_succ_self x) (same ▸ h)
        exact ⟨by omega, rest⟩
      | some op =>
        rw [around_succ found] at h
        cases opens : op.opens? with
        | some b =>
          cases scope : b.isScope with
          | true =>
            rw [Op.nest_opens opens scope] at h
            obtain ⟨rfl, rfl⟩ := List.cons.inj h
            exact ⟨Nat.lt_succ_self _, rfl, op, b, found, opens, scope⟩
          | false =>
            simp only [Op.nest, opens, scope] at h
            obtain ⟨lt, rest⟩ := ih x (Nat.lt_succ_self x) h
            exact ⟨by omega, rest⟩
        | none =>
          cases closes : op.closes? with
          | none =>
            rw [Op.nest_plain opens closes] at h
            obtain ⟨lt, rest⟩ := ih x (Nat.lt_succ_self x) h
            exact ⟨by omega, rest⟩
          | some b =>
            cases scope : b.isScope with
            | false =>
              simp only [Op.nest, opens, closes, scope] at h
              obtain ⟨lt, rest⟩ := ih x (Nat.lt_succ_self x) h
              exact ⟨by omega, rest⟩
            | true =>
              rw [Op.nest_closes closes scope] at h
              cases outer : around ops x with
              | nil => rw [outer] at h; cases h
              | cons q inner =>
                rw [outer, List.tail_cons] at h
                subst h
                -- what is open around the one that ends is open at its beginning
                obtain ⟨lt, below, -⟩ := ih x (Nat.lt_succ_self x) outer
                obtain ⟨lt', rest⟩ := ih q (by omega) below
                exact ⟨by omega, rest⟩

end Places

end Catena
