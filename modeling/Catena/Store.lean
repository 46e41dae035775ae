import Catena.FileTree
import Catena.Iterator
import Catena.Scope

/-!
# The store

Everything with an identity of its own, one array per kind. An object is never taken out, so a
reference stays good.
-/

namespace Catena

/-- The entries of a table, oldest first. Keys are told apart by equality of values, which depends
on the store; see `Store.tableInsert`. -/
abbrev Table := List (Value × Value)

/-- A socket, which waits for connections at an address or is connected to one. -/
structure Socket where
  addr : String
  listening : Bool
deriving DecidableEq, Repr, Inhabited

/-- A thread that was started: what it left behind, until someone joins it. -/
structure ThreadHandle where
  id : Nat
  outcome : Option (Except Fault (Array Value))
deriving Inhabited

/-- The objects that references point to. -/
structure Store where
  lists : Array (Array Value) := #[]
  structs : Array (Array Value) := #[]
  tables : Array Table := #[]
  pairs : Array (Value × Value) := #[]
  bins : Array (Array UInt8) := #[]
  closures : Array Closure := #[]
  iters : Array IterCell := #[]
  fibers : Array Fiber := #[]
  files : Array FileTree.Handle := #[]
  sockets : Array Socket := #[]
  threads : Array ThreadHandle := #[]
  errors : Array Fault := #[]
deriving Inhabited

namespace Store

/-- How many objects hold other values. A chain of values inside values, if it does not come back
to itself, is no longer than this. -/
def nesting (s : Store) : Nat :=
  s.lists.size + s.structs.size + s.tables.size + s.pairs.size

/-- The items of a list. -/
def listAt (s : Store) (r : Ref) : Array Value := s.lists[r]?.getD #[]

/-- The fields of a structure. -/
def structAt (s : Store) (r : Ref) : Array Value := s.structs[r]?.getD #[]

/-- The entries of a table. -/
def tableAt (s : Store) (r : Ref) : Table := s.tables[r]?.getD []

/-- The bytes of a buffer. -/
def binAt (s : Store) (r : Ref) : Array UInt8 := s.bins[r]?.getD #[]

/-- Whether a socket waits for connections. -/
def listens (s : Store) (r : Ref) : Bool := s.sockets[r]?.any (·.listening)

/-- Takes away what a thread left behind. -/
def takeOutcome (s : Store) (t : Ref) : Store :=
  { s with threads := s.threads.modify t fun h => { h with outcome := none } }

/-- The fault of an error value. -/
def errorAt (s : Store) (r : Ref) : Fault := s.errors[r]?.getD default

end Store

end Catena
