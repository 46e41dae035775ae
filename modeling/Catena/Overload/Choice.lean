import Catena.Overload

/-!
# Choosing an overload

Which implementation of a function a call stands for. The choice depends on the implementations,
the values on the stack, the safety level in force and the conversions there are, and on nothing
else.

* An implementation fits exactly when each of its arguments accepts its value as it is. The newest
  allowed one that fits exactly wins.
* If there is none, the newest allowed one wins whose misfits can all be converted.
* If there is none either, the call is blocked when an implementation fits exactly that is not
  allowed, and has no implementation otherwise.
-/

namespace Catena

/-- The values of a call whose arguments ask for a conversion, from the right: their places in the
window and the types they have to be converted to. `none` if some argument refuses its value. -/
def Arg.misfits (window : Array Value) : List (Arg × Nat) → Option (List (Nat × Ty))
  | [] => some []
  | (arg, i) :: rest =>
    match window[i]? with
    | none => none
    | some v =>
      match arg.check window v with
      | .no => none
      | .yes => misfits window rest
      | .convert t => (misfits window rest).map ((i, t) :: ·)

namespace Imp

/-- The topmost values of a stack, one for each argument. -/
def window (imp : Imp) (stack : Array Value) : Array Value :=
  stack.extract (stack.size - imp.args.length) stack.size

/-- The misfits of a call, if the stack is high enough and no argument refuses its value. -/
def fit? (imp : Imp) (stack : Array Value) : Option (List (Nat × Ty)) :=
  if stack.size < imp.args.length then none
  else Arg.misfits (imp.window stack) imp.args.zipIdx.reverse

/-- Every argument accepts its value as it is. -/
def fits (imp : Imp) (stack : Array Value) : Bool :=
  imp.fit? stack matches some []

/-- The conversion for each misfit, if there is one for each. -/
def plan? (imp : Imp) (conv : Ty → Ty → Option Value) (stack : Array Value) :
    Option (List (Nat × Value)) := do
  (← imp.fit? stack).mapM fun (i, target) => do
    let v ← (imp.window stack)[i]?
    return (i, ← conv v.ty target)

/-- Whether a scope of the given level may use the implementation. -/
def allowed (imp : Imp) (safety : Safety) : Bool :=
  decide (imp.safety ≤ safety)

end Imp

/-- What a call stands for. -/
inductive Choice
  | exact (imp : Imp)
  /-- After the given conversions, each of the value at a place of the window. -/
  | converted (imp : Imp) (plan : List (Nat × Value))
  | blocked
  | nothing

/-- The implementation that a call stands for, out of those of a function, newest first. -/
def choose (imps : List Imp) (conv : Ty → Ty → Option Value) (safety : Safety)
    (stack : Array Value) : Choice :=
  match imps.find? fun imp => imp.fits stack && imp.allowed safety with
  | some imp => .exact imp
  | none =>
    let convertible := imps.findSome? fun imp =>
      if imp.allowed safety then (imp.plan? conv stack).map (imp, ·) else none
    match convertible with
    | some (imp, plan) => .converted imp plan
    | none => if imps.any fun imp => imp.fits stack then .blocked else .nothing

end Catena
