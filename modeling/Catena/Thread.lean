import Catena.Op
import Catena.Store

/-!
# Threads

A thread has its own copy of the operations, a program counter, variables, and two histories that
grow and shrink together: its scopes and its value stacks, one for each scope that owns one.
-/

namespace Catena

/-- The program counter at which a nested run stops: past every operation. -/
def exitPc : Nat := 18446744073709551615

/-- What an operation does to the flow of control. -/
inductive Control
  | next
  | jump (pc : Nat)
  /-- Close scopes until `depth` are left, then jump. -/
  | unwind (depth pc : Nat)
deriving DecidableEq, Repr, Inhabited

namespace Control

def text : Control → String
  | next => "Next"
  | jump pc => s!"Jump({pc})"
  | unwind depth pc =>
    "Unwind \x7b depth: " ++ toString depth ++ ", pc: " ++ toString pc ++ " \x7d"

end Control

/-- A thread of execution. -/
structure Thread where
  id : Nat
  ops : Array Op := #[]
  pc : Nat := 0
  env : Env := ∅
  scopes : Array Scope := #[Scope.root .safe]
  valueStacks : Array (Array Value) := #[#[]]
  tries : Array TryFrame := #[]
  /-- Open brackets of generic types, newest first. -/
  params : List ParamMark := []
  /-- Coroutines left by lambdas, by the lambda's id. -/
  coros : Dict Nat Coroutine := ∅
  /-- The implementation last chosen at a program counter. -/
  cache : Dict Nat Imp := ∅
  /-- Where the library function that runs goes back to. -/
  retPc : Nat := 0
  /-- The number of scopes the current run may not go below. -/
  loopBase : Nat := 1

namespace Thread

instance : Inhabited Thread := ⟨{ id := 0 }⟩

/-- The value stack in use, bottom first. -/
def stack (t : Thread) : Array Value :=
  t.valueStacks.back?.getD #[]

/-- Changes the value stack in use. -/
def modifyStack (t : Thread) (f : Array Value → Array Value) : Thread :=
  if t.valueStacks.isEmpty then { t with valueStacks := #[f #[]] }
  else { t with valueStacks := t.valueStacks.modify (t.valueStacks.size - 1) f }

/-- Puts a value on top of the stack in use. -/
def push (t : Thread) (v : Value) : Thread :=
  t.modifyStack (·.push v)

/-- Puts values on top of the stack in use, the last one topmost. -/
def pushAll (t : Thread) (vs : Array Value) : Thread :=
  t.modifyStack (· ++ vs)

/-- The top value. -/
def top? (t : Thread) : Option Value :=
  t.stack.back?

/-- The innermost scope. -/
def scope (t : Thread) : Scope :=
  t.scopes.back?.getD default

/-- Changes the innermost scope. -/
def modifyScope (t : Thread) (f : Scope → Scope) : Thread :=
  { t with scopes := t.scopes.modify (t.scopes.size - 1) f }

/-- The safety level in force. -/
def safety (t : Thread) : Safety :=
  t.scope.safety

/-- Sets the safety level of the bottom scope. -/
def setRootSafety (t : Thread) (s : Safety) : Thread :=
  { t with scopes := t.scopes.modify 0 fun scope => { scope with safety := s } }

/-- Binds a variable in the innermost scope, which remembers what it hid. -/
def bind (t : Thread) (name : String) (v : Value) : Thread :=
  let hidden := t.env.find? name
  { t with env := t.env.insert name v }.modifyScope fun scope =>
    { scope with bound := (name, hidden) :: scope.bound }

/-- Opens the scope of a block, with an empty stack of its own if it owns one. -/
def openBlock (t : Thread) (ownStack : Bool) (safety : Safety) : Thread :=
  let valueStacks := if ownStack then t.valueStacks.push #[] else t.valueStacks
  { t with valueStacks, scopes := t.scopes.push (Scope.block safety (valueStacks.size - 1) ownStack) }

/-- Closes the innermost scope: its own stack goes, save for the top value if that is kept, and its
variables go. Answers the scope. -/
def closeScope (t : Thread) (keepTop : Bool) : Scope × Thread :=
  let scope := t.scope
  let t := { t with scopes := t.scopes.pop }
  let t :=
    if scope.ownsStack then
      let kept := if keepTop then t.top? else none
      let t := { t with valueStacks := t.valueStacks.pop }
      match kept with
      | some v => t.push v
      | none => t
    else t
  let env :=
    match scope.callerEnv with
    | some env => env
    | none => scope.unbind t.env
  let depth := t.scopes.size
  (scope, { t with
    env
    tries := t.tries.filter fun f => f.scope < depth
    params := t.params.filter fun p => p.scopes ≤ depth })

/-- The index of the scope of the `depth`-th lambda, counted from the innermost. -/
def lambdaScope? (t : Thread) (depth : Nat) : Option Nat :=
  ((List.range t.scopes.size).reverse.filter fun i =>
    t.scopes[i]?.any Scope.isLambda)[depth]?

/-- The scope and program counter of the `depth`-th loop, counted from the innermost. -/
def loop? (t : Thread) (depth : Nat) : Option (Nat × Nat) :=
  ((List.range t.scopes.size).reverse.flatMap fun i =>
    ((t.scopes[i]?.elim [] fun s => s.loops.keys).reverse.map fun pc => (i, pc)))[depth]?

/-- A thread that starts as a copy of this one: same operations and variables, and a stack with the
same values. -/
def fork (t : Thread) (id : Nat) : Thread :=
  { id, ops := t.ops, env := t.env, valueStacks := #[t.stack], scopes := #[Scope.root t.safety] }

end Thread

end Catena
