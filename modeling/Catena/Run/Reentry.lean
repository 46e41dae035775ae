import Catena.Machine

/-!
# Coming back into a run

Functions of the library, conversions, deferred calls and iterators call back into the language.
Everything that may do so gets a `Reentry`, the two ways to start a run inside a run.
-/

namespace Catena

/-- The ways to start a run inside a run. -/
structure Reentry where
  /-- Calls a value with arguments on a stack of its own; answers what is then on top. -/
  call : Value → List Value → Run (Option Value)
  /-- Calls a value as the whole work of a thread. -/
  runThread : Value → Run Unit

/-- What a call comes to: a change of the flow of control, or the call of another value in its
place. -/
inductive Reply
  | control (c : Control)
  | enter (target : Value)

namespace Reply

/-- Nothing out of the ordinary. -/
def next : Reply := control .next

end Reply

namespace Run

/-- How many steps a loop that nothing else bounds may take. -/
def stepLimit : Nat := 1000000000000000

/-- How many runs may be inside one another. -/
def reentryLimit : Nat := 1000000

end Run

end Catena
