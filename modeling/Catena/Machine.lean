import Catena.Config
import Catena.Log.Logger
import Catena.Registry
import Catena.Store.Render
import Catena.Thread
import Catena.TypeExpr

/-!
# Machines

A machine is one thread together with what all threads of an engine share. What runs on it is a
`Run`: a change of state that ends with an answer, with a fault, or out of fuel; either way the
state it reached is kept.
-/

namespace Catena

/-- What the threads of an engine share. -/
structure Shared where
  config : Config := {}
  registry : Registry := {}
  store : Store := {}
  log : Log.Logger := .silent
  host : Host := {}
deriving Inhabited

namespace Shared

/-- Logs a message, which is made only if it is let through. -/
def note (s : Shared) (level : Log.Level) (target : String) (message : Unit → String)
    (thread : Option Nat := none) : Shared :=
  if s.log.enabled target level then
    let (log, host) := s.log.log s.host { level, target, message := message (), thread }
    { s with log, host }
  else s

/-- Takes the next id. -/
def freshId (s : Shared) : Nat × Shared :=
  let (id, registry) := s.registry.freshId
  (id, { s with registry })

/-- Declares a type and says so. -/
def declareType (s : Shared) (name : String) (supers : List Ty) (behavior : Behavior) :
    Except Fault (Ty × Shared) :=
  match s.registry.declareType name supers behavior with
  | .error f => .error f
  | .ok (t, registry) =>
    .ok (t, { s with registry }.note .debug Phase.vm.target fun _ => s!"registered type {name}")

/-- Adds an implementation and says so. -/
def addImp (s : Shared) (name : String) (args : List Arg) (safety : Safety) (body : Body) :
    Imp × Shared :=
  let (imp, registry) := s.registry.addImp name args safety body
  (imp, { s with registry }.note .debug Phase.vm.target fun _ => s!"registered {imp.text}")

/-- Sets a conversion and says so. -/
def addConv (s : Shared) (source target : Ty) (f : Value) : Shared :=
  let s := s.note .debug Phase.vm.target fun _ =>
    s!"registered conversion {source.name} -> {target.name}"
  { s with registry := s.registry.addConv source target f }

/-- The type of a type expression given as text. -/
def typeOf (s : Shared) (text : String) : Except Fault Ty × Shared :=
  match TypeExpr.parse text with
  | .error f => (.error f, s)
  | .ok e =>
    let (t, registry) := e.resolve s.registry
    (t, { s with registry })

end Shared

/-- One thread and what it shares with others. -/
structure Machine where
  shared : Shared
  thread : Thread
deriving Inhabited

/-- Why a run ends early. -/
inductive Halt
  | fault (f : Fault)
  | outOfFuel
deriving DecidableEq, Repr

/-- A computation on a machine. -/
abbrev Run := EStateM Halt Machine

namespace Run

/-- Ends with a fault. -/
def fail {α : Type} (f : Fault) : Run α :=
  throw (.fault f)

/-- Ends for want of fuel. -/
def exhausted {α : Type} : Run α :=
  throw .outOfFuel

/-- A fault becomes an answer; the state it left stays. -/
def attempt {α : Type} (x : Run α) : Run (Except Fault α) := fun m =>
  match x m with
  | .ok a m => .ok (.ok a) m
  | .error (.fault f) m => .ok (.error f) m
  | .error .outOfFuel m => .error .outOfFuel m

/-- The answer or the fault of something that does not touch the machine. -/
def ofExcept {α : Type} : Except Fault α → Run α
  | .ok a => pure a
  | .error f => fail f

/-- The answer, or a fault in its place. -/
def orFail {α : Type} (f : Fault) : Option α → Run α
  | some a => pure a
  | none => fail f

/-- Passes a fault on, if there was one. -/
def passOn : Option Fault → Run Unit
  | some f => fail f
  | none => pure ()

/-- Asks the thread. -/
@[inline] def ask {α : Type} (f : Thread → α) : Run α := fun m => .ok (f m.thread) m

/-- Changes the thread. -/
@[inline] def alter (f : Thread → Thread) : Run Unit := fun m =>
  .ok () { m with thread := f m.thread }

/-- Asks what is shared. -/
@[inline] def askShared {α : Type} (f : Shared → α) : Run α := fun m => .ok (f m.shared) m

/-- Changes what is shared. -/
@[inline] def alterShared (f : Shared → Shared) : Run Unit := fun m =>
  .ok () { m with shared := f m.shared }

/-- Asks the store. -/
@[inline] def askStore {α : Type} (f : Store → α) : Run α := askShared fun s => f s.store

/-- Changes the store. -/
@[inline] def alterStore (f : Store → Store) : Run Unit :=
  alterShared fun s => { s with store := f s.store }

/-- Takes the next id. -/
def freshId : Run Nat := fun m =>
  let (id, shared) := m.shared.freshId
  .ok id { m with shared }

/-- Logs a message about the execution of programs. -/
def note (level : Log.Level) (message : Unit → String) : Run Unit :=
  alterShared fun s => s.note level Phase.vm.target message

/-- Logs a message about a thread. -/
def noteThread (level : Log.Level) (thread : Nat) (message : String) : Run Unit :=
  alterShared fun s => s.note level Phase.thread.target (fun _ => message) (some thread)

/-! ## The value stack -/

/-- Puts a value on the stack. -/
def push (v : Value) : Run Unit := alter (·.push v)

/-- Puts values on the stack, the last one topmost. -/
def pushEach (values : List Value) : Run Unit :=
  alter (·.pushAll values.toArray)

/-- Takes the top value. -/
def pop : Run Value := do
  match ← ask Thread.top? with
  | some v => alter (·.modifyStack Array.pop); return v
  | none => fail (Fault.underflow "pop")

/-- Takes the top `n` values, the topmost last. -/
def popN (n : Nat) : Run (Array Value) := do
  let size ← ask (·.stack.size)
  if size < n then fail (Fault.underflow s!"pop of {n} values")
  let values ← ask fun t => t.stack.extract (size - n) size
  alter (·.modifyStack fun s => s.extract 0 (size - n))
  return values

/-- The top value, which stays. -/
def peek (what : String) : Run Value := do
  orFail (Fault.underflow what) (← ask Thread.top?)

/-- Takes the top value and looks into it. -/
def popAs {α : Type} (expected : String) (f : Value → Option α) : Run α := do
  let v ← pop
  orFail (Fault.mismatch expected v.ty.name) (f v)

def popInt : Run Int64 := popAs "I64" Value.int?

def popStr : Run String := popAs "Str" Value.str?

def popSym : Run String := popAs "Sym" Value.sym?

def popType : Run Ty := popAs "Type" Value.type?

/-- The stack in use with every value's type. -/
def dumpStack : Run String := do
  let values ← ask Thread.stack
  let texts ← askStore fun s => values.toList.map s.dumpTyped
  return "[" ++ String.intercalate " " texts ++ "]"

/-! ## Variables and scopes -/

/-- Binds a variable, which the scope must not have bound already. -/
def bind (name : String) (v : Value) : Run Unit := do
  if ← ask fun t => t.scope.binds name then fail (Fault.alreadyBound name)
  alter (·.bind name v)

/-- The most scopes a thread may have. -/
def maxScopes : Run Nat := askShared (·.config.limits.maxScopeDepth)

/-- Fails if a thread with the given number of scopes may not open one more. -/
def checkRoom : Run Unit := do
  let limit ← maxScopes
  if limit ≤ (← ask (·.scopes.size)) then fail (Fault.scopeLimit limit)

/-- Ends the run if the thread has no value stack for a scope to work on. -/
def checkStack : Run Unit := do
  if (← ask (·.valueStacks)).isEmpty then exhausted

/-- Opens the scope of a block. -/
def openBlock (ownStack : Bool) (safety : Safety) : Run Unit := do
  checkRoom
  if !ownStack then checkStack
  alter (·.openBlock ownStack safety)

/-! ## Values with an identity -/

/-- Puts an object into the store. -/
@[inline] def alloc (size : Store → Nat) (add : Store → Store) : Run Ref := do
  let r ← askStore size
  alterStore add
  return r

def newClosure (c : Closure) : Run Value := do
  let r ← alloc (·.closures.size) fun s => { s with closures := s.closures.push c }
  return ⟨.lambda, .lambda r⟩

def newBin (bytes : Array UInt8) : Run Value := do
  let r ← alloc (·.bins.size) fun s => { s with bins := s.bins.push bytes }
  return ⟨.bin, .bin r⟩

def newError (f : Fault) : Run Value := do
  let r ← alloc (·.errors.size) fun s => { s with errors := s.errors.push f }
  return ⟨.error, .error r⟩

def newIter (it : Iterator) : Run Ref :=
  alloc (·.iters.size) fun s => { s with iters := s.iters.push (.ready it) }

/-- The instance of a template. -/
def instantiate (template : Ty) (args : List Ty) : Run Ty := do
  let (t, registry) ← ofExcept (← askShared fun s => s.registry.instantiate template args)
  alterShared fun s => { s with registry }
  return t

/-- The instance of the template with a given name. -/
def instantiateNamed (name : String) (args : List Ty) : Run Ty := do
  let (t, registry) ← ofExcept (← askShared fun s => s.registry.instantiateNamed name args)
  alterShared fun s => { s with registry }
  return t

/-- A list with a given item type. -/
def listOf (items : Array Value) (item : Ty) : Run Value := do
  let t ← instantiate .list [item]
  let r ← alloc (·.lists.size) fun s => { s with lists := s.lists.push items }
  return ⟨t, .list r⟩

/-- The common supertype of the items, `Any` if there are none. -/
def itemType (items : List Value) : Ty :=
  match items with
  | [] => .any
  | v :: vs => vs.foldl (fun t w => Ty.join .any t w.ty) v.ty

/-- A list whose item type is the common supertype of its items. -/
def listFrom (items : Array Value) : Run Value :=
  listOf items (itemType items.toList)

/-- An iterator value with a given item type. -/
def iterOf (iter : Ref) (item : Ty) : Run Value := do
  let t ← instantiate .iter [item]
  return ⟨t, .iter iter⟩

/-- A pair, typed by its two sides. -/
def pairOf (left right : Value) : Run Value := do
  let t ← instantiate .pair [left.ty, right.ty]
  let r ← alloc (·.pairs.size) fun s => { s with pairs := s.pairs.push (left, right) }
  return ⟨t, .pair r⟩

/-- A table with given types of keys and values. -/
def tableOf (entries : Table) (key value : Ty) : Run Value := do
  let t ← instantiate .table [key, value]
  let r ← alloc (·.tables.size) fun s => { s with tables := s.tables.push entries }
  return ⟨t, .table r⟩

end Run

end Catena
