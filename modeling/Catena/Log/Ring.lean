import Catena.Log.Record

/-!
# Ring buffers

A ring keeps the last records written to it, at least one, and counts those it let go.
-/

namespace Catena.Log

/-- The last records, oldest first. -/
structure Ring where
  capacity : Nat
  records : List Record := []
  dropped : Nat := 0
deriving DecidableEq, Repr

namespace Ring

/-- An empty ring; it has room for one record at least. -/
def new (capacity : Nat) : Ring := { capacity := max capacity 1 }

/-- Adds a record, letting the oldest go when the ring is full. -/
def push (ring : Ring) (r : Record) : Ring :=
  if ring.records.length < ring.capacity then { ring with records := ring.records ++ [r] }
  else { ring with records := ring.records.drop 1 ++ [r], dropped := ring.dropped + 1 }

/-- The records of a level or above. -/
def atLeast (ring : Ring) (level : Level) : List Record :=
  ring.records.filter fun r => decide (level ≤ r.level)

/-- The records as text, one per line. -/
def text (ring : Ring) : String :=
  String.intercalate "\n" (ring.records.map Record.text)

/-- Forgets the records and the count. -/
def clear (ring : Ring) : Ring :=
  { ring with records := [], dropped := 0 }

end Ring

end Catena.Log
