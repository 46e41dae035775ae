import Catena.Run.Reentry

/-!
# Closing scopes

A scope makes its deferred calls before it goes, the newest first. A failing one does not keep the
others from being made, nor the scope from going; the first fault is passed on after that.
-/

namespace Catena.Run

/-- Makes the deferred calls in order. Answers the first fault, `first` if there was one before. -/
def makeDeferred (r : Reentry) : List Value → Option Fault → Run (Option Fault)
  | [], first => return first
  | f :: rest, first => do
    match ← attempt (r.call f []) with
    | .ok _ => makeDeferred r rest first
    | .error e =>
      note .warn fun _ => s!"deferred call failed: {e.text}"
      makeDeferred r rest (first.or (some e))

/-- Sets the state of a fiber. -/
def setFiber (fiber : Ref) (state : FiberState) : Run Unit :=
  alterStore fun s => { s with fibers := s.fibers.modify fiber fun f => { f with state } }

/-- Closes the innermost scope, which must not be the bottom one. Its stack goes with it, save for
the top value if that is kept. -/
def closeScope (r : Reentry) (keepTop : Bool) : Run Unit := do
  if (← ask (·.scopes.size)) ≤ 1 then fail Fault.rootScope
  let deferred ← ask (·.scope.defers)
  alter (·.modifyScope fun s => { s with defers := [] })
  let first ← makeDeferred r deferred none
  let fiber ← ask (·.scope.fiber)
  alter fun t => (t.closeScope keepTop).2
  match fiber with
  | some f => setFiber f .done
  | none => pure ()
  passOn first

/-- Closes scopes while more than `depth` are left. Answers the first fault. -/
def closeDown (r : Reentry) (depth : Nat) (keepTop : Bool) :
    (fuel : Nat) → Option Fault → Run (Option Fault)
  | 0, first => do
    if (← ask (·.scopes.size)) ≤ depth then return first else exhausted
  | fuel + 1, first => do
    if (← ask (·.scopes.size)) ≤ depth then return first
    match ← attempt (closeScope r keepTop) with
    | .ok () => closeDown r depth keepTop fuel first
    | .error e => closeDown r depth keepTop fuel (first.or (some e))

/-- Closes scopes until `depth` are left; the bottom one always stays. -/
def unwindTo (r : Reentry) (depth : Nat) (keepTop : Bool) : Run Unit := do
  passOn (← closeDown r (max depth 1) keepTop (← ask (·.scopes.size)) none)

end Catena.Run
