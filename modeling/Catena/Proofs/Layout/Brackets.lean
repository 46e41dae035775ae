import Catena.Compiler.Place

/-!
# Brackets of a unit

Blocks, `try:` forms, lambdas and generic types begin with one operation and end with another. In a
unit that is `Balanced`, each operation that opens one of them has exactly one that closes it
(`Matches.unique`), and what stands between the two is balanced again.
-/

namespace Catena

/-- What one operation opens and another one closes. -/
inductive Bracket
  | block
  | try
  | lambda (id : Nat)
  | param (id : Nat)
deriving DecidableEq, Repr

namespace Op

/-- What the operation opens. -/
def opens? : Op → Option Bracket
  | begin .. => some .block
  | .try _ => some .try
  | lambda body _ _ => some (.lambda body.id)
  | param id => some (.param id)
  | _ => none

/-- What the operation closes. -/
def closes? : Op → Option Bracket
  | close => some .block
  | closeList => some .block
  | closeTry => some .try
  | unlambda id => some (.lambda id)
  | unparam id _ => some (.param id)
  | _ => none

theorem opens?_of_closes? {op : Op} {b : Bracket} (h : op.closes? = some b) : op.opens? = none := by
  cases op <;> first | rfl | cases h

end Op

/-- Operations in which everything that is opened is closed, the last opened first. -/
inductive Balanced : List Op → Prop
  | nil : Balanced []
  | plain {op : Op} {ops : List Op} : op.opens? = none → op.closes? = none → Balanced ops →
      Balanced (op :: ops)
  | pair {first last : Op} {b : Bracket} {inside after : List Op} : first.opens? = some b →
      last.closes? = some b → Balanced inside → Balanced after →
      Balanced (first :: (inside ++ last :: after))

/-- The operation at `i` opens what the one at `j` closes. -/
def Matches (ops : List Op) (i j : Nat) : Prop :=
  ∃ before first inside last after b, ops = before ++ first :: (inside ++ last :: after) ∧
    i = before.length ∧ j = before.length + 1 + inside.length ∧ first.opens? = some b ∧
    last.closes? = some b ∧ Balanced inside

namespace Balanced

theorem head_opens {op : Op} {ops : List Op} (h : Balanced (op :: ops)) : op.closes? = none := by
  cases h with
  | plain _ closes _ => exact closes
  | pair opens _ _ _ =>
    cases closes : op.closes? with
    | none => rfl
    | some b => rw [Op.opens?_of_closes? closes] at opens; cases opens

/-- What stands before the first operation that closes more than was opened is determined. -/
theorem prefix_unique {xs ys xs' ys' : List Op} {last last' : Op} {b b' : Bracket}
    (balanced : Balanced xs) (balanced' : Balanced xs') (closes : last.closes? = some b)
    (closes' : last'.closes? = some b') (same : xs ++ last :: ys = xs' ++ last' :: ys') :
    xs = xs' ∧ last = last' ∧ ys = ys' := by
  induction balanced generalizing ys xs' ys' last last' b b' with
  | nil =>
    cases xs' with
    | nil => simpa using same
    | cons op xs' =>
      obtain ⟨rfl, -⟩ := List.cons.inj same
      rw [balanced'.head_opens] at closes
      cases closes
  | @plain op ops opens keeps _ ih =>
    cases xs' with
    | nil =>
      obtain ⟨rfl, -⟩ := List.cons.inj same
      rw [keeps] at closes'
      cases closes'
    | cons op' xs' =>
      obtain ⟨rfl, rest⟩ := List.cons.inj same
      cases balanced' with
      | plain _ _ balanced' =>
        obtain ⟨rfl, found⟩ := ih balanced' closes closes' rest
        exact ⟨rfl, found⟩
      | pair opens' => rw [opens] at opens'; cases opens'
  | @pair op cl b₀ inside after opens shuts _ _ ihInside ihAfter =>
    cases xs' with
    | nil =>
      obtain ⟨rfl, -⟩ := List.cons.inj same
      rw [Op.opens?_of_closes? closes'] at opens
      cases opens
    | cons op' xs' =>
      obtain ⟨rfl, rest⟩ := List.cons.inj same
      cases balanced' with
      | plain opens' => rw [opens] at opens'; cases opens'
      | @pair _ cl' b₁ inside' after' _ shuts' balanced' balancedAfter' =>
        have rest : inside ++ cl :: (after ++ last :: ys) =
            inside' ++ cl' :: (after' ++ last' :: ys') := by
          simpa using same
        obtain ⟨rfl, rfl, behind⟩ := ihInside balanced' shuts shuts' rest
        obtain ⟨rfl, found⟩ := ihAfter balancedAfter' closes closes' behind
        exact ⟨rfl, found⟩

end Balanced

/-- An operation that opens something has one match. -/
theorem Matches.unique {ops : List Op} {i j k : Nat} (h : Matches ops i j) (h' : Matches ops i k) :
    j = k := by
  obtain ⟨before, first, inside, last, after, b, rfl, rfl, rfl, -, closes, balanced⟩ := h
  obtain ⟨before', first', inside', last', after', b', same, length, rfl, -, closes', balanced'⟩ := h'
  obtain ⟨-, rest⟩ := List.append_inj same length
  obtain ⟨-, rest⟩ := List.cons.inj rest
  obtain ⟨rfl, -⟩ := balanced.prefix_unique balanced' closes closes' rest
  rw [length]

/-- What keeps operations of every kind in their kind keeps brackets. -/
theorem Balanced.map {f : Op → Op} (opens : ∀ op, (f op).opens? = op.opens?)
    (closes : ∀ op, (f op).closes? = op.closes?) {ops : List Op} (h : Balanced ops) :
    Balanced (ops.map f) := by
  induction h with
  | nil => exact .nil
  | plain opened closed _ ih =>
    exact .plain ((opens _).trans opened) ((closes _).trans closed) ih
  | pair opened closed _ _ ihInside ihAfter =>
    rw [List.map_cons, List.map_append, List.map_cons]
    exact .pair ((opens _).trans opened) ((closes _).trans closed) ihInside ihAfter

theorem Matches.map {f : Op → Op} (opens : ∀ op, (f op).opens? = op.opens?)
    (closes : ∀ op, (f op).closes? = op.closes?) {ops : List Op} {i j : Nat} (h : Matches ops i j) :
    Matches (ops.map f) i j := by
  obtain ⟨before, first, inside, last, after, b, rfl, rfl, rfl, opened, closed, balanced⟩ := h
  refine ⟨before.map f, f first, inside.map f, f last, after.map f, b, ?_, ?_, ?_,
    (opens _).trans opened, (closes _).trans closed, balanced.map opens closes⟩
  · simp only [List.map_append, List.map_cons]
  · rw [List.length_map]
  · rw [List.length_map, List.length_map]

end Catena
