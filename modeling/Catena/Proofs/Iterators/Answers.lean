import Catena.Value
import Mathlib.Data.List.ReduceOption

/-!
# Answers of iterators

What an iterator answers until it is done can be told from what the iterators answer that it draws on,
pending answers included. The items among its answers are those that `List.filter`, `List.map` and
`List.zipWith` make of theirs, however the pending answers lie between them (`Plan.items_answers`).
-/

namespace Catena

variable {X : Type}

/-- What an iterator answers, one pull after the other, until it is done: an item, or that there is none
yet. -/
abbrev Answers (X : Type) := List (Option X)

namespace Answers

/-- The items that pass are answered, and every pending answer. -/
def filter (keep : X → Bool) (as : Answers X) : Answers X :=
  List.filter (·.all keep) as

def map (make : X → X) (as : Answers X) : Answers X :=
  List.map (Option.map make) as

/-- The left side is asked until it has an item, which is held until the right side has one. -/
def zip (pair : X → X → X) : (held : Option X) → Answers X → Answers X → Answers X
  | none, [], _ => []
  | none, none :: as, bs => none :: zip pair none as bs
  | none, some x :: as, bs => zip pair (some x) as bs
  | some _, _, [] => []
  | some x, as, none :: bs => none :: zip pair (some x) as bs
  | some x, as, some y :: bs => some (pair x y) :: zip pair none as bs
termination_by _ as bs => as.length + bs.length

theorem reduceOption_filter (keep : X → Bool) (as : Answers X) :
    (as.filter keep).reduceOption = as.reduceOption.filter keep := by
  induction as with
  | nil => rfl
  | cons a as ih =>
    rw [filter] at ih ⊢
    cases a with
    | none => simpa using ih
    | some x => cases passes : keep x <;> simp [passes, ih]

theorem reduceOption_map (make : X → X) (as : Answers X) :
    (as.map make).reduceOption = as.reduceOption.map make :=
  List.reduceOption_map

theorem reduceOption_zip (pair : X → X → X) (held : Option X) (as bs : Answers X) :
    (zip pair held as bs).reduceOption =
      List.zipWith pair (held.toList ++ as.reduceOption) bs.reduceOption := by
  fun_induction zip <;> simp_all

theorem length_zip_le (pair : X → X → X) (held : Option X) (as bs : Answers X) :
    (zip pair held as bs).length ≤ as.length + bs.length := by
  fun_induction zip <;> simp_all <;> omega

end Answers

/-- A tree of iterators, with what its sources will answer and what its callbacks make of items. -/
inductive Plan (X : Type) where
  | source (iter : Ref) (answers : Answers X)
  | filter (iter : Ref) (test : Value) (keep : X → Bool) (source : Plan X)
  | map (iter : Ref) (f : Value) (make : X → X) (source : Plan X)
  | zip (iter : Ref) (left right : Plan X)

namespace Plan

/-- The iterator that is drawn on. -/
def root : Plan X → Ref
  | source i _ | filter i _ _ _ | map i _ _ _ | zip i _ _ => i

/-- The iterators that the root draws on, directly or through others. -/
def inner : Plan X → List Ref
  | source _ _ => []
  | filter _ _ _ s | map _ _ _ s => s.root :: s.inner
  | zip _ l r => l.root :: l.inner ++ r.root :: r.inner

/-- The iterators of the tree. -/
def iters (p : Plan X) : List Ref := p.root :: p.inner

/-- The items that the tree is to give. -/
def items (pair : X → X → X) : Plan X → List X
  | source _ answers => answers.reduceOption
  | filter _ _ keep s => (s.items pair).filter keep
  | map _ _ make s => (s.items pair).map make
  | zip _ l r => List.zipWith pair (l.items pair) (r.items pair)

/-- What the tree answers. -/
def answers (pair : X → X → X) : Plan X → Answers X
  | source _ answers => answers
  | filter _ _ keep s => (s.answers pair).filter keep
  | map _ _ make s => (s.answers pair).map make
  | zip _ l r => Answers.zip pair none (l.answers pair) (r.answers pair)

/-- How often the sources answer. -/
def work : Plan X → Nat
  | source _ answers => answers.length
  | filter _ _ _ s | map _ _ _ s => s.work
  | zip _ l r => l.work + r.work

/-- Pending answers play no part in which items there are. -/
theorem items_answers (pair : X → X → X) (p : Plan X) :
    (p.answers pair).reduceOption = p.items pair := by
  induction p with
  | source => rfl
  | filter _ _ keep s ih => rw [answers, Answers.reduceOption_filter, ih, items]
  | map _ _ make s ih => rw [answers, Answers.reduceOption_map, ih, items]
  | zip _ l r left right =>
    rw [answers, Answers.reduceOption_zip, left, right, items, Option.toList_none, List.nil_append]

theorem length_answers_le (pair : X → X → X) (p : Plan X) : (p.answers pair).length ≤ p.work := by
  induction p with
  | source => exact Nat.le_refl _
  | filter _ _ keep s ih => exact Nat.le_trans (List.length_filter_le ..) ih
  | map _ _ make s ih => exact Nat.le_trans (Nat.le_of_eq (List.length_map _)) ih
  | zip _ l r left right =>
    exact Nat.le_trans (Answers.length_zip_le ..) (Nat.add_le_add left right)

end Plan

end Catena
