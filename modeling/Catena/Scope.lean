import Catena.Fault
import Catena.Overload

/-!
# Scopes and what can be cut out of them

A scope is one level of nesting: how much it allows, which value stack it works on, the variables
it bound and what they hid, its loops and the calls it deferred. The scope of a lambda remembers
its caller besides. A coroutine is a run of scopes cut off the top of a thread, with everything
that belongs to them, its indices counted from where it was cut.
-/

namespace Catena

/-- A lambda with the variables that were in force when it was made. -/
structure Closure where
  body : LambdaDef
  env : Env

/-- What a loop repeats. -/
inductive LoopKind
  | for (iter : Ref) (body : Value)
  | while (body : Value)

/-- A loop that is running: what it repeats and where it ends. -/
structure LoopState where
  kind : LoopKind
  donePc : Nat

/-- One level of nesting. -/
structure Scope where
  safety : Safety
  /-- The closure that runs in the scope of a lambda. -/
  callee : Option Closure := none
  /-- Where the caller goes on. -/
  retPc : Nat := 0
  /-- The index of the value stack the scope works on. -/
  stack : Nat
  ownsStack : Bool
  /-- The variables bound here and the values they hid, newest first. -/
  bound : List (String × Option Value) := []
  /-- The variables of the caller, for the scope of a lambda. -/
  callerEnv : Option Env := none
  /-- The running loops by program counter, innermost last. -/
  loops : Dict Nat LoopState := ∅
  /-- The calls to make when the scope closes, newest first. -/
  defers : List Value := []
  /-- The fiber that runs in the scope of a lambda. -/
  fiber : Option Ref := none

namespace Scope

/-- Where there is no scope, the least is allowed. -/
instance : Inhabited Scope := ⟨{ safety := .pure, stack := 0, ownsStack := true }⟩

/-- The bottom scope of a thread. -/
def root (safety : Safety) : Scope := { safety, stack := 0, ownsStack := true }

/-- The scope of a block. -/
def block (safety : Safety) (stack : Nat) (ownsStack : Bool) : Scope :=
  { safety, stack, ownsStack }

/-- The scope of a lambda, which works on the stack of its caller. -/
def lambda (callee : Closure) (safety : Safety) (stack retPc : Nat) (callerEnv : Env) : Scope :=
  { safety, callee := some callee, retPc, stack, ownsStack := false, callerEnv := some callerEnv }

/-- Whether a lambda runs in the scope. -/
def isLambda (s : Scope) : Bool := s.callee.isSome

/-- Whether the scope bound the variable. -/
def binds (s : Scope) (name : String) : Bool := s.bound.any fun b => b.1 == name

/-- Undoes the bindings of the scope, newest first: hidden values come back, new names go. -/
def unbind (s : Scope) (env : Env) : Env :=
  s.bound.foldl (fun env b =>
    match b.2 with
    | some v => env.insert b.1 v
    | none => env.erase b.1) env

end Scope

/-- A `try:` form that is running: the scope it opened and where it ends. -/
structure TryFrame where
  scope : Nat
  depth : Nat
  startPc : Nat
  donePc : Nat
  /-- The faults caught so far, oldest first. -/
  faults : List Fault := []

/-- An open bracket of a generic type: the height of the stack when it was opened. -/
structure ParamMark where
  id : Nat
  scopes : Nat
  depth : Nat
deriving DecidableEq

/-- A run of scopes cut off a thread. The first is the scope of a lambda; stack indices count from
the stack that lambda works on, and try frames from its scope. -/
structure Coroutine where
  lambda : Nat
  /-- Where it goes on. -/
  pc : Nat
  scopes : Array Scope
  valueStacks : Array (Array Value)
  tries : Array TryFrame
  env : Env

/-- Where a fiber stands. -/
inductive FiberState
  | fresh
  | running
  | suspended (coro : Coroutine)
  | done
deriving Inhabited

/-- A callable that can be left in the middle and gone on with. -/
structure Fiber where
  id : Nat
  target : Value
  state : FiberState
deriving Inhabited

end Catena
