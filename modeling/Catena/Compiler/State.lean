import Catena.Literal
import Catena.Machine
import Catena.Token.Scan

/-!
# The compiler's state

A compilation gathers operations, and functions and conversions that become known when it succeeds.
What it changes at once, ids taken and structure types declared, stays even if it fails.
-/

namespace Catena

/-- A function that becomes known when the compilation succeeds. -/
structure PendingFunc where
  name : String
  args : List Arg
  safety : Safety
  body : LambdaDef

/-- A conversion that becomes known when the compilation succeeds. -/
structure PendingConv where
  source : Ty
  target : Ty
  body : LambdaDef

/-- The state of a compilation. -/
structure Compiler where
  shared : Shared
  /-- The operations so far. -/
  ops : Array Op := #[]
  /-- In the order in which they were defined. -/
  funcs : List PendingFunc := []
  /-- In the order in which they were defined. -/
  convs : List PendingConv := []
deriving Inhabited

/-- A step of a compilation. -/
abbrev Compile := EStateM Halt Compiler

namespace Compile

def fail {α : Type} (f : Fault) : Compile α :=
  throw (.fault f)

/-- Ends for want of fuel. -/
def exhausted {α : Type} : Compile α :=
  throw .outOfFuel

def ofExcept {α : Type} : Except Fault α → Compile α
  | .ok a => pure a
  | .error f => fail f

/-- Faults of a step that do not know their place are at byte `pos`. -/
def located {α : Type} (pos : Nat) (x : Compile α) : Compile α := fun c =>
  match x c with
  | .ok a c => .ok a c
  | .error (.fault f) c => .error (.fault (f.locate pos)) c
  | .error .outOfFuel c => .error .outOfFuel c

/-- Asks what is shared. -/
@[inline] def ask {α : Type} (f : Shared → α) : Compile α := fun c => .ok (f c.shared) c

/-- Changes what is shared. -/
@[inline] def alter (f : Shared → Shared) : Compile Unit := fun c =>
  .ok () { c with shared := f c.shared }

/-- Takes the next id. -/
def freshId : Compile Nat := fun c =>
  let (id, shared) := c.shared.freshId
  .ok id { c with shared }

/-- Logs a message about a part of the engine. -/
def note (phase : Phase) (level : Log.Level) (message : Unit → String) : Compile Unit :=
  alter fun s => s.note level phase.target message

/-- Adds an operation. -/
def emit (op : Op) : Compile Unit := do
  let store ← ask (·.store)
  note .compiler .trace fun _ => s!"emit {store.opText op}"
  fun c => .ok () { c with ops := c.ops.push op }

/-- Whether a function with the name is known or will be. -/
def isFunc (name : String) : Compile Bool := fun c =>
  .ok (c.funcs.any (·.name == name) || c.shared.registry.funcs.contains name) c

/-- Resolves a type expression. -/
def resolve (e : TypeExpr) : Compile Ty := do
  let (t, registry) ← ask fun s => e.resolve s.registry
  alter fun s => { s with registry }
  ofExcept t

/-- What a type expression asks of an argument. -/
def argOf (e : TypeExpr) : Compile Arg := do
  let (arg, registry) ← ask fun s => e.toArg s.registry
  alter fun s => { s with registry }
  ofExcept arg

/-- The tokens of a text that begins at byte `offset` of the source. -/
def tokens (text : String) (offset : Nat) : Compile (List Token) := do
  note .lexer .trace fun _ => s!"tokenizing {text.utf8ByteSize} bytes at offset {offset}"
  let ts ← ofExcept (Token.scan offset text.toList)
  note .lexer .debug fun _ => s!"produced {ts.length} tokens"
  return ts

end Compile

end Catena
