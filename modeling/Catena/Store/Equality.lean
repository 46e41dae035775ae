import Catena.Store

/-!
# Equality and order of values

Both look through references. Equality identifies an integer with the rational of the same value,
containers with equal contents (tables in any order), and faults that say the same. The order is
partial: it relates numbers, texts and other scalars of one kind, and pairs and lists place by
place.

The recursion is bounded by the number of objects that can hold values (`Store.nesting`), which is
enough for every value that does not contain itself.
-/

namespace Catena.Store

/-- Whether two lists are equally long and related place by place. -/
def allPairs (rel : Value → Value → Bool) : List Value → List Value → Bool
  | [], [] => true
  | a :: as, b :: bs => rel a b && allPairs rel as bs
  | _, _ => false

/-- The value under the first key related to `k`. -/
def findKey (rel : Value → Value → Bool) (k : Value) : Table → Option Value
  | [] => none
  | (k', v) :: rest => if rel k' k then some v else findKey rel k rest

/-- Equality of values nested at most `fuel` deep. -/
def equalsWithin (s : Store) : (fuel : Nat) → Value → Value → Bool
  | 0, a, b => a.same b
  | fuel + 1, a, b =>
    a.same b ||
      match a.payload, b.payload with
      | .int n, .ratio r => Ratio.ofInt64 n == r
      | .ratio r, .int n => Ratio.ofInt64 n == r
      | .bin x, .bin y => s.binAt x == s.binAt y
      | .list x, .list y =>
        allPairs (equalsWithin s fuel) (s.listAt x).toList (s.listAt y).toList
      | .struct x, .struct y =>
        allPairs (equalsWithin s fuel) (s.structAt x).toList (s.structAt y).toList
      | .table x, .table y =>
        (s.tableAt x).length == (s.tableAt y).length &&
          (s.tableAt x).all fun e =>
            match findKey (equalsWithin s fuel) e.1 (s.tableAt y) with
            | some w => equalsWithin s fuel e.2 w
            | none => false
      | .pair x, .pair y =>
        match s.pairs[x]?, s.pairs[y]? with
        | some p, some q => equalsWithin s fuel p.1 q.1 && equalsWithin s fuel p.2 q.2
        | _, _ => false
      | .error x, .error y =>
        (s.errorAt x).kind == (s.errorAt y).kind && (s.errorAt x).message == (s.errorAt y).message
      | _, _ => false

/-- Equality of values. -/
def equals (s : Store) (a b : Value) : Bool :=
  s.equalsWithin (s.nesting + 1) a b

/-- The order of two lists by the first place where they differ, else by length. -/
def compareLists (rel : Value → Value → Option Ordering) :
    List Value → List Value → Option Ordering
  | [], [] => some .eq
  | [], _ :: _ => some .lt
  | _ :: _, [] => some .gt
  | a :: as, b :: bs =>
    match rel a b with
    | some .eq => compareLists rel as bs
    | other => other

/-- The order of two lists of units. -/
def compareUnits : List UInt16 → List UInt16 → Ordering
  | [], [] => .eq
  | [], _ :: _ => .lt
  | _ :: _, [] => .gt
  | a :: as, b :: bs => if a < b then .lt else if b < a then .gt else compareUnits as bs

/-- The order of two texts by code point. -/
def compareText (a b : String) : Ordering :=
  if a < b then .lt else if a = b then .eq else .gt

/-- The order of values nested at most `fuel` deep. -/
def compareWithin (s : Store) : (fuel : Nat) → Value → Value → Option Ordering
  | 0, _, _ => none
  | fuel + 1, a, b =>
    match a.payload, b.payload with
    | .int m, .int n => some (compare m.toInt n.toInt)
    | .ratio p, .ratio q => some (p.cmp q)
    | .int n, .ratio q => some ((Ratio.ofInt64 n).cmp q)
    | .ratio p, .int n => some (p.cmp (Ratio.ofInt64 n))
    | .bool x, .bool y => some (compare x.toNat y.toNat)
    | .char x, .char y => some (compare x.toNat y.toNat)
    | .wchar x, .wchar y => some (compare x.toNat y.toNat)
    | .str x, .str y => some (compareText x y)
    | .wstr x, .wstr y => some (compareUnits x y)
    | .sym x, .sym y => some (compareText x y)
    | .pair x, .pair y =>
      match s.pairs[x]?, s.pairs[y]? with
      | some p, some q =>
        match compareWithin s fuel p.1 q.1 with
        | some .eq => compareWithin s fuel p.2 q.2
        | other => other
      | _, _ => none
    | .list x, .list y =>
      compareLists (compareWithin s fuel) (s.listAt x).toList (s.listAt y).toList
    | _, _ => none

/-- The order of values, where there is one. -/
def compare? (s : Store) (a b : Value) : Option Ordering :=
  s.compareWithin (s.nesting + 1) a b

/-! ## Tables -/

/-- The value under a key. -/
def tableGet (s : Store) (t : Table) (k : Value) : Option Value :=
  findKey s.equals k t

/-- Writes a value under a key: in place of the value of an equal key, which stays as it is, and at
the end otherwise. Answers the value it replaced. -/
def tableInsert (s : Store) (k v : Value) : Table → Option Value × Table
  | [] => (none, [(k, v)])
  | (k', w) :: rest =>
    if s.equals k' k then (some w, (k', v) :: rest)
    else ((tableInsert s k v rest).1, (k', w) :: (tableInsert s k v rest).2)

/-- Takes a key out. Answers the value it had. -/
def tableRemove (s : Store) (k : Value) : Table → Option Value × Table
  | [] => (none, [])
  | (k', w) :: rest =>
    if s.equals k' k then (some w, rest)
    else ((tableRemove s k rest).1, (k', w) :: (tableRemove s k rest).2)

end Catena.Store
