import Catena.Library.Basics
import Catena.Library.Concurrency
import Catena.Library.Outside

/-!
# Running a library function

Which computation each `Native` stands for. The arguments have been checked against the signature
before; what is taken off the stack here is only looked into.
-/

namespace Catena

namespace Run

/-- Calls the value on top in place of this function. -/
def callTop : Run Reply := do
  return .enter (← pop)

/-- Takes a condition and two branches. The branch that the condition selects is called if it can be
called and pushed otherwise. -/
def branch : Run Reply := do
  let no ← pop
  let yes ← pop
  let condition ← pop
  let chosen := if condition.truthy then yes else no
  if chosen.ty.behavior.isCallable then return .enter chosen
  push chosen
  return .next

/-- Puts a call off until the scope closes. -/
def deferCall : Run Reply := do
  let f ← pop
  alter (·.modifyScope fun s => { s with defers := f :: s.defers })
  return .next

/-- Makes a value of a declared structure type. -/
def construct (t : Ty) (fields : Nat) : Run Reply := do
  let _ ← pop
  let values ← popN fields
  let r ← alloc (·.structs.size) fun s => { s with structs := s.structs.push values }
  push ⟨t, .struct r⟩
  return .next

/-- Takes the reference of a structure out of a value. -/
def structRef (v : Value) : Run Ref :=
  match v.payload with
  | .struct r => return r
  | _ => fail (Fault.mismatch "struct" v.ty.name)

/-- Reads a field. -/
def field (i : Nat) : Run Reply := do
  let r ← structRef (← pop)
  push ((← askStore fun s => (s.structAt r)[i]?).getD .nil)
  return .next

/-- Writes a field; the structure stays on the stack. -/
def setField (i : Nat) : Run Reply := do
  let item ← pop
  let r ← structRef (← peek "field update")
  alterStore fun s => { s with structs := s.structs.modify r fun a => a.setIfInBounds i item }
  return .next

/-- Does what a function of the embedding program was declared to do. -/
def hostCall (f : HostCall) : Run Reply := do
  let _ ← popN f.pops
  pushEach f.push
  match f.raise, f.jump, f.unwind with
  | some message, _, _ => fail (Fault.user message)
  | none, some pc, some depth => return .control (.unwind depth pc)
  | none, some pc, none => return .control (.jump pc)
  | none, none, _ => return .next

end Run

open Run in
/-- Runs a library function. -/
def Native.run (r : Reentry) : Native → Run Reply
  | dup => Run.dup
  | swap => Run.swap
  | rot => Run.rot
  | reset => Run.reset
  | stash => Run.stash
  | depth => Run.depth
  | intOp op => Run.intOp op
  | ratioOp op => Run.ratioOp op
  | makeRatio => Run.makeRatio
  | equal => Run.equal
  | same => Run.same
  | order test => Run.order test
  | not => Run.not
  | typeOf => Run.typeOf
  | isa => Run.isa
  | is => Run.is
  | call => callTop
  | choose => branch
  | defer => deferCall
  | len => Run.len
  | push => pushItem
  | pop => popItem
  | listGet => Run.listGet
  | tableGet => Run.tableGet
  | listPut => Run.listPut
  | tablePut => Run.tablePut
  | pair => makePair
  | left => Run.left
  | right => Run.right
  | list => makeList r
  | table => makeTable r
  | bin => makeBin r
  | strBin => Run.strBin
  | str => toStr
  | binStr => Run.binStr
  | iter => makeIter
  | next => nextItem r
  | range => Run.range
  | filter => Run.filter
  | map => Run.map
  | zip => Run.zip
  | rand => Run.rand
  | openFile => Run.openFile
  | readIter => Run.readIter
  | write => Run.write
  | say => Run.say
  | dir recursive => Run.dir recursive
  | listen => Run.listen
  | acceptIter => Run.acceptIter
  | connectIter => Run.connectIter
  | poll => Run.poll
  | fiber => makeFiber
  | fiberDone => Run.fiberDone
  | thread => startThread r
  | join => Run.join
  | raise => Run.raise
  | reraise => Run.reraise
  | errors => Run.errors
  | errorKind => Run.errorKind
  | errorMessage => Run.errorMessage
  | clearErrors => Run.clearErrors
  | construct t fields => Run.construct t fields
  | field i => Run.field i
  | setField i => Run.setField i
  | host f => hostCall f
  | hostIter answers item => pushIter (.host answers 0) item
  | hostPend => Run.pend

end Catena
