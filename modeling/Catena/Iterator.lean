import Catena.Fault
import Catena.Value

/-!
# Iterators

An iterator is pulled for one item after the other. A pull gives an item, says that there is none
yet, or says that there will be none any more; the last answer is final, which is why the store
keeps an iterator inside a `IterCell`. The embedding program can bring iterators of its own, of which
nothing is known but what their pulls come to.
-/

namespace Catena

/-- A directory whose entries are still to be visited: its path as shown, and the names left. -/
structure WalkFrame where
  path : String
  names : List String
deriving DecidableEq, Repr

/-- The answer to a pull. -/
inductive Pulled
  | item (v : Value)
  | pending
  | done
deriving Inhabited

/-- Where an iterator stands. -/
inductive Iterator
  /-- The integers from `next` up to but not including `stop`. -/
  | range (next stop : Int64)
  /-- The items of a list, as they are when their turn comes. -/
  | items (list : Ref) (index : Nat)
  /-- The entries of a table, as pairs. -/
  | entries (table : Ref) (index : Nat)
  | bytes (bin : Ref) (index : Nat)
  | chars (rest : List Char)
  | units (rest : List UInt16)
  /-- The items of a source for which a call answers true. -/
  | filter (source : Ref) (test : Value)
  /-- The results of a call on the items of a source. -/
  | map (source : Ref) (f : Value)
  /-- Pairs of items; `held` is a left item whose partner has not come yet. -/
  | zip (left right : Ref) (held : Option Value)
  /-- Numbers below a bound. -/
  | random (bound : Int64) (seed : UInt64)
  | readFile (file : Ref)
  | readSocket (socket : Ref)
  /-- The entries below a directory that has not been read yet. -/
  | walkRoot (path : String) (recursive : Bool)
  | walk (frames : List WalkFrame) (recursive : Bool)
  /-- The connections that a socket is asked for. -/
  | accept (socket : Ref)
  /-- The connection to an address, if it is still to be made. -/
  | connect (addr : Option String)
  /-- Whatever a round through the sources finds first. -/
  | poll (queue : List Ref)
  /-- An iterator of the embedding program: what its pulls come to, and how many there have been. -/
  | host (answers : Nat → Except Fault Pulled) (pulls : Nat)
deriving Inhabited

/-- An iterator that other iterators and loops share. While it is pulled it is `busy`, because the
pull may run code that comes back to it. -/
inductive IterCell
  | ready (it : Iterator)
  | busy
  | done
deriving Inhabited

end Catena
