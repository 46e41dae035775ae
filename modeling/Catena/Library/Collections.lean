import Catena.Run.Pull

/-!
# Collections and iterators

Lists, tables, pairs, byte buffers and what goes through their items one by one. Functions that
change a list or a table leave it on the stack.
-/

namespace Catena.Run

/-- Takes the reference of a list out of a value. -/
def listRef (v : Value) : Run Ref :=
  match v.payload with
  | .list l => return l
  | _ => fail (Fault.mismatch "List" v.ty.name)

/-- Takes the reference of a table out of a value. -/
def tableRef (v : Value) : Run Ref :=
  match v.payload with
  | .table t => return t
  | _ => fail (Fault.mismatch "Table" v.ty.name)

/-- The position an index stands for in a list of the given length. -/
def place (index : Int64) (length : Nat) : Run Nat :=
  if 0 ≤ index && index.toInt.toNat < length then return index.toInt.toNat
  else fail (Fault.outOfBounds index length)

/-- Changes a list. -/
def alterList (l : Ref) (f : Array Value → Array Value) : Run Unit :=
  alterStore fun s => { s with lists := s.lists.modify l f }

/-- Sets the entries of a table. -/
def setTable (t : Ref) (entries : Table) : Run Unit :=
  alterStore fun s => { s with tables := s.tables.setIfInBounds t entries }

/-- How many items a value has. -/
def len : Run Reply := do
  let v ← pop
  let n ←
    match v.payload with
    | .list l => askStore fun s => (s.listAt l).size
    | .table t => askStore fun s => (s.tableAt t).length
    | .str s => pure s.length
    | .wstr units => pure units.length
    | .bin b => askStore fun s => (s.binAt b).size
    | _ => fail (Fault.noLength v.ty.name)
  push (.nat n)
  return .next

def pushItem : Run Reply := do
  let item ← pop
  let l ← listRef (← peek "push")
  alterList l (·.push item)
  return .next

/-- Takes the last item off a list, `nil` if there is none. -/
def popItem : Run Reply := do
  let l ← listRef (← peek "pop")
  let item ← askStore fun s => (s.listAt l).back?
  alterList l Array.pop
  push (item.getD .nil)
  return .next

def listGet : Run Reply := do
  let index ← popInt
  let l ← listRef (← pop)
  let items ← askStore (·.listAt l)
  let i ← place index items.size
  push (items[i]?.getD .nil)
  return .next

/-- The value under a key, `nil` if there is none. -/
def tableGet : Run Reply := do
  let key ← pop
  let t ← tableRef (← pop)
  let v ← askStore fun s => s.tableGet (s.tableAt t) key
  push (v.getD .nil)
  return .next

def listPut : Run Reply := do
  let item ← pop
  let index ← popInt
  let l ← listRef (← peek "put")
  let i ← place index (← askStore fun s => (s.listAt l).size)
  alterList l (·.setIfInBounds i item)
  return .next

def tablePut : Run Reply := do
  let v ← pop
  let k ← pop
  let t ← tableRef (← peek "put")
  setTable t (← askStore fun s => (s.tableInsert k v (s.tableAt t)).2)
  return .next

def makePair : Run Reply := do
  let right ← pop
  let left ← pop
  push (← pairOf left right)
  return .next

/-- Takes a pair. -/
def popPair : Run (Value × Value) := do
  let v ← pop
  match v.payload with
  | .pair p => askStore fun s => s.pairs[p]?.getD (.nil, .nil)
  | _ => fail (Fault.mismatch "Pair" v.ty.name)

def left : Run Reply := do
  push (← popPair).1
  return .next

def right : Run Reply := do
  push (← popPair).2
  return .next

/-- Collects a sequence. -/
def makeList (r : Reentry) : Run Reply := do
  let seq ← pop
  push (← listOf (← drain r seq) seq.ty.elem)
  return .next

/-- The types of keys and values, when the items of a sequence have the given type. -/
def entryTypes (item : Ty) : Ty × Ty :=
  match item.template, item.args with
  | some raw, [k, v] => if raw.id = Ty.pair.id then (k, v) else (.any, .any)
  | _, _ => (.any, .any)

/-- Writes pairs into a table, from the left. -/
def fillTable (table : Table) : List Value → Run Table
  | [] => return table
  | item :: items =>
    match item.payload with
    | .pair p => do
      let table ← askStore fun s =>
        match s.pairs[p]? with
        | some (k, v) => (s.tableInsert k v table).2
        | none => table
      fillTable table items
    | _ => fail (Fault.mismatch "Pair" item.ty.name)

/-- Collects a sequence of pairs. -/
def makeTable (r : Reentry) : Run Reply := do
  let seq ← pop
  let (key, value) := entryTypes seq.ty.elem
  let table ← fillTable [] (← drain r seq).toList
  push (← tableOf table key value)
  return .next

/-- The byte that an integer value stands for. -/
def byteOf (v : Value) : Run UInt8 := do
  let n ← orFail (Fault.mismatch "I64" v.ty.name) v.int?
  if 0 ≤ n && n ≤ 255 then return n.toInt.toNat.toUInt8 else fail (Fault.notByte n)

/-- Collects a sequence of bytes. -/
def makeBin (r : Reentry) : Run Reply := do
  let seq ← pop
  push (← newBin (← (← drain r seq).mapM byteOf))
  return .next

def strBin : Run Reply := do
  push (← newBin (Text.Utf8.encode (← popStr)))
  return .next

def toStr : Run Reply := do
  let v ← pop
  push (.str (← askStore fun s => s.display v))
  return .next

def binStr : Run Reply := do
  let v ← pop
  match v.payload with
  | .bin b => push (.str (Text.Utf8.decodeLossy (← askStore (·.binAt b))))
  | _ => fail (Fault.mismatch "Bin" v.ty.name)
  return .next

/-! ## Iterators -/

def makeIter : Run Reply := do
  let v ← pop
  if v.isa .iter then push v else push (← iterOf (← iterate v) v.ty.elem)
  return .next

/-- The next item, `nil` at the end; the iterator stays on the stack. -/
def nextItem (r : Reentry) : Run Reply := do
  let v ← pop
  let item ← await r (← iterate v) stepLimit
  pushEach [v, item.getD .nil]
  return .next

/-- Pushes a new iterator. -/
def pushIter (it : Iterator) (item : Ty) : Run Reply := do
  push (← iterOf (← newIter it) item)
  return .next

def range : Run Reply := do
  let stop ← popInt
  let start ← popInt
  pushIter (.range start stop) .int

def filter : Run Reply := do
  let test ← pop
  let seq ← pop
  pushIter (.filter (← iterate seq) test) seq.ty.elem

def map : Run Reply := do
  let f ← pop
  let seq ← pop
  pushIter (.map (← iterate seq) f) .any

def zip : Run Reply := do
  let right ← pop
  let left ← pop
  let item ← instantiate .pair [left.ty.elem, right.ty.elem]
  let l ← iterate left
  let r ← iterate right
  pushIter (.zip l r none) item

/-- Numbers below a positive bound. -/
def rand : Run Reply := do
  let bound ← popInt
  if bound ≤ 0 then fail (Fault.randomBound bound)
  pushIter (.random bound 0) .int

/-- Adds a source to a poll set, behind the others. A full set stays as it is. -/
def addSource (capacity : Nat) (source : Ref) : EStateM Fault (List Ref) Unit := fun set =>
  if capacity ≤ set.length then .error (Fault.pollSetFull capacity) set else .ok () (set ++ [source])

/-- Adds the iterators over several values to a poll set. -/
def pollSources (capacity : Nat) : List Value → (set : List Ref) → Run (List Ref)
  | [], set => return set
  | v :: vs, set => do
    let source ← iterate v
    match addSource capacity source set with
    | .ok _ set => pollSources capacity vs set
    | .error f _ => fail f

/-- Whatever one of several sources gives first, in turns. -/
def poll : Run Reply := do
  let l ← listRef (← pop)
  let sources ← askStore (·.listAt l)
  let capacity ← askShared (·.config.limits.pollSetSize)
  pushIter (.poll (← pollSources capacity sources.toList [])) .any

/-- What the `k`-th pull comes to of an iterator over the integers from 0 below `stop` that has no
answer `wait` times before each of them and before its end. -/
def pendAnswers (wait : Nat) (stop : Int64) (k : Nat) : Except Fault Pulled :=
  if k % (wait + 1) < wait then .ok .pending
  else
    let next := k / (wait + 1)
    if next < stop.toInt then .ok (.item (.nat next)) else .ok .done

/-- An iterator over the integers below a number that keeps its caller waiting. -/
def pend : Run Reply := do
  let stop ← popInt
  let wait ← popInt
  pushIter (.host (pendAnswers wait.toInt.toNat stop) 0) .int

end Catena.Run
