import Catena.Library.Native
import Catena.Overload.Choice
import Catena.Run.Coroutine
import Catena.Store.Render

/-!
# Calls

A call by name chooses an implementation and runs it; a call of a value does what the value stands
for. Some library functions answer with another value to be called in their place, until one of
them comes to a change of the flow of control.

A program counter remembers the implementation last chosen there. It is used again if it still
belongs to the function, is allowed and fits exactly.
-/

namespace Catena.Run

/-- How many values a fault about a call shows. -/
def shownValues : Nat := 4

/-- The topmost values with their types. -/
def describeTop : Run String := do
  let stack ← ask Thread.stack
  let shown := stack.extract (stack.size - shownValues) stack.size
  let texts ← askStore fun s => shown.toList.map s.dumpTyped
  return "[" ++ String.intercalate " " texts ++ "]"

/-- Runs a library function, which knows meanwhile where it goes back to. -/
def runNative (r : Reentry) (f : Native) (retPc : Nat) : Run Reply := do
  let saved ← ask (·.retPc)
  alter fun t => { t with retPc }
  let reply ← attempt (f.run r)
  alter fun t => { t with retPc := saved }
  ofExcept reply

/-- Runs an implementation whose arguments are on the stack. -/
def invoke (r : Reentry) (imp : Imp) (retPc : Nat) : Run Reply := do
  note .trace fun _ => s!"invoke {imp.text}"
  match imp.body with
  | .native f =>
    match ← runNative r f retPc with
    | .control .next => return .control (.jump retPc)
    | reply => return reply
  | .lambda body => return .control (← enterLambda ⟨body, ∅⟩ imp.safety retPc)

/-- Replaces arguments by what their conversions make of them; `arity` values make up the window. -/
def convert (r : Reentry) (arity : Nat) : List (Nat × Value) → Run Unit
  | [] => return ()
  | (i, f) :: plan => do
    let place ← ask fun t => t.stack.size - arity + i
    let v ← ask fun t => t.stack[place]?.getD .nil
    let w ← orFail (Fault.underflow "conversion") (← r.call f [v])
    alter (·.modifyStack (·.setIfInBounds place w))
    convert r arity plan

/-- The implementation remembered at this program counter, if it can be used again. -/
def remembered? (imps : List Imp) : Run (Option Imp) :=
  ask fun t =>
    (t.cache.find? t.pc).filter fun imp =>
      imps.any (·.id == imp.id) && imp.allowed t.safety && imp.fits t.stack

/-- Calls the function with a given name. -/
def dispatch (r : Reentry) (name : String) (retPc : Nat) : Run Reply := do
  let imps ← orFail (Fault.unknownId name) (← askShared fun s => s.registry.funcs.find? name)
  match ← remembered? imps with
  | some imp => invoke r imp retPc
  | none =>
    alter fun t => { t with cache := t.cache.erase t.pc }
    let registry ← askShared (·.registry)
    match ← ask fun t => choose imps registry.findConv? t.safety t.stack with
    | .exact imp =>
      alter fun t => { t with cache := t.cache.insert t.pc imp }
      invoke r imp retPc
    | .converted imp plan =>
      note .debug fun _ => s!"{name} applies after {plan.length} conversion(s)"
      convert r imp.args.length plan
      invoke r imp retPc
    | .blocked => fail (Fault.notAllowed name (← ask Thread.safety).name)
    | .nothing => fail (Fault.notApplicable name (← describeTop))

/-- The program counter of a label. -/
def labelPc (l : Label) : Run Nat :=
  orFail (Fault.unresolvedLabel l.name) l.pc

/-- Calls a value once: functions by name, lambdas, labels, which are jumped to, and fibers. -/
def callOnce (r : Reentry) (v : Value) (retPc : Nat) : Run Reply := do
  match v.ty.behavior, v.payload with
  | .func, .func name => dispatch r name retPc
  | .func, _ => fail (Fault.mismatch "Func" v.ty.name)
  | .lambda, .lambda l =>
    let c ← orFail (Fault.noEntry 0) (← askStore fun s => s.closures[l]?)
    return .control (← enterLambda c (← ask Thread.safety) retPc)
  | .lambda, _ => fail (Fault.mismatch "Lambda" v.ty.name)
  | .label, .label l => return .control (.jump (← labelPc l))
  | .label, _ => fail (Fault.mismatch "Label" v.ty.name)
  | .fiber, .fiber f => enterFiber f retPc
  | .fiber, _ => fail (Fault.mismatch "Fiber" v.ty.name)
  | _, _ => fail (Fault.notCallable (← askStore fun s => s.dump v))

/-- Calls values in place of one another until a change of the flow of control comes out. -/
def settle (r : Reentry) (retPc : Nat) : (fuel : Nat) → Reply → Run Control
  | _, .control c => return c
  | 0, .enter _ => exhausted
  | fuel + 1, .enter v => do settle r retPc fuel (← callOnce r v retPc)

/-- A bound on the calls in place of one another. Each takes a value off the stack, or goes from a
fiber to its target, which is older. -/
def callFuel : Run Nat := do
  return ((← ask (·.stack.size)) + 1) * ((← askStore (·.fibers.size)) + 1)

/-- Calls a value. -/
def callValue (r : Reentry) (v : Value) (retPc : Nat) : Run Control := do
  settle r retPc ((← callFuel) + 1) (.enter v)

/-- Calls the function with a given name. -/
def callName (r : Reentry) (name : String) (retPc : Nat) : Run Control := do
  let fuel ← callFuel
  settle r retPc fuel (← dispatch r name retPc)

end Catena.Run
