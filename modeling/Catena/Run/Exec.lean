import Catena.Run.Dispatch

/-!
# Executing operations

What each operation does, up to the change of the flow of control that it answers.
-/

namespace Catena.Run

/-- The variable with a given name. -/
def valueOf (name : String) : Run Value := do
  orFail (Fault.unknownId ("$" ++ name)) (← ask (·.env.find? name))

/-- Looks up a name: a function is called, a type is pushed. -/
def lookUp (r : Reentry) (name : String) : Run Control := do
  let (isFunc, t?) ← askShared fun s =>
    (s.registry.funcs.contains name, s.registry.types.find? name)
  if isFunc then callName r name ((← ask (·.pc)) + 1)
  else
    match t? with
    | some t => push (.type t); return .next
    | none => fail (Fault.unknownId name)

/-- The value of a reference to a function or a label. -/
def reference (name : String) : Run Value := do
  let registry ← askShared (·.registry)
  if registry.funcs.contains name then return .func name
  else
    match registry.labels.find? name with
    | some l => return .label l
    | none => fail (Fault.unknownId name)

/-- A piece of an interpolated string. -/
def part (p : FmtPart) : Run String :=
  match p with
  | .text s => return s
  | .var name literal => do
    let v ← valueOf name
    askStore fun s => if literal then s.dump v else s.display v

/-- Checks the type of the top value. -/
def checkTop (t : Ty) : Run Unit := do
  let v ← peek "check"
  if !v.isa t then fail (Fault.mismatch t.name v.ty.name)

/-- Where a jump goes. -/
def jumpPc (name : String) (label : Option Label) : Run Nat := do
  match label with
  | some l => labelPc l
  | none =>
    labelPc (← orFail (Fault.unknownLabel name)
      (← askShared fun s => s.registry.labels.find? name))

/-- The program counter at the end of a lambda or loop. -/
def endPc (what : String) (label : Option Label) : Run Nat := do
  labelPc (← orFail (Fault.noEndLabel what) label)

/-! ## Try forms -/

/-- Opens a `try:` form. -/
def openTry (donePc : Nat) : Run Control := do
  openBlock true (← ask Thread.safety)
  alter fun t =>
    { t with
      tries := t.tries.push
        { scope := t.scopes.size - 1, depth := 0, startPc := t.pc, donePc } }
  return .next

/-- Closes a `try:` form: its last value stays, and on top comes `nil` or the list of faults. -/
def closeTry (r : Reentry) : Run Control := do
  let frame ← orFail Fault.noTryFrame (← ask (·.tries.back?))
  alter fun t => { t with tries := t.tries.pop }
  closeScope r true
  push (← if frame.faults.isEmpty then pure .nil else errorList frame.faults)
  return .next

/-- Hands a fault to the innermost `try:` form without leaving what is being done. -/
def report (f : Fault) : Run Unit := do
  if (← ask (·.tries)).isEmpty then fail f
  note .debug fun _ => s!"recorded: {f.text}"
  alter fun t =>
    { t with
      tries := t.tries.modify (t.tries.size - 1) fun e => { e with faults := e.faults ++ [f] } }

/-- Closes a `test:` form, which must have left `true`. -/
def closeTest (message : String) : Run Control := do
  let v ← pop
  match v.payload with
  | .bool true => return .next
  | _ =>
    report (Fault.testFailed message (← askStore fun s => s.dump v))
    return .next

/-! ## Loops -/

/-- Changes the loops of the innermost scope. -/
def alterLoops (f : Dict Nat LoopState → Dict Nat LoopState) : Run Unit :=
  alter (·.modifyScope fun s => { s with loops := f s.loops })

/-- The loop that runs at a program counter. -/
def loopAt? (pc : Nat) : Run (Option LoopState) :=
  ask (·.scope.loops.find? pc)

/-- Begins a `for` loop: takes its body and its sequence off the stack. -/
def beginFor (pc donePc : Nat) : Run Unit := do
  let body ← pop
  let seq ← pop
  let iter ← iterate seq
  alterLoops (·.insert pc ⟨.for iter body, donePc⟩)

/-- Calls the body of a `for` loop with the next item. -/
def nextFor (r : Reentry) (pc donePc : Nat) : Run Control := do
  match ← loopAt? pc with
  | some ⟨.for iter body, _⟩ =>
    match ← pull r iter with
    | .item v => push v; callValue r body (pc + 1)
    | .pending => return .jump pc
    | .done => alterLoops (·.erase pc); return .jump donePc
  | _ => fail Fault.corruptLoop

/-- One round of a `for` loop. -/
def stepFor (r : Reentry) (donePc : Nat) : Run Control := do
  let pc ← ask (·.pc)
  if (← loopAt? pc).isNone then beginFor pc donePc
  nextFor r pc donePc

/-- One round of a `while` loop: the first takes the body off the stack, any other a condition. -/
def stepWhile (r : Reentry) (donePc : Nat) : Run Control := do
  let pc ← ask (·.pc)
  match ← loopAt? pc with
  | none =>
    let body ← pop
    alterLoops (·.insert pc ⟨.while body, donePc⟩)
    callValue r body (pc + 1)
  | some ⟨.while body, _⟩ =>
    if (← pop).truthy then callValue r body (pc + 1)
    else
      alterLoops (·.erase pc)
      return .jump donePc
  | some _ => fail Fault.corruptLoop

/-- A round that fails ends its loop. -/
def endOnFault (step : Run Control) : Run Control := do
  match ← attempt step with
  | .ok c => return c
  | .error e =>
    let pc ← ask (·.pc)
    alterLoops (·.erase pc)
    fail e

/-! ## Generic types -/

/-- Closes the brackets of a generic type: what was pushed since they were opened are its
arguments. -/
def closeParam (id : Nat) (template : String) : Run Control := do
  let params ← ask (·.params)
  let mark ← orFail (Fault.malformed s!"unmatched generic bracket for {template}")
    (params.find? fun p => p.id == id)
  alter fun t => { t with params := t.params.eraseP fun p => p.id == id }
  let stack ← ask Thread.stack
  let depth := min mark.depth stack.size
  alter (·.modifyStack fun s => s.extract 0 depth)
  let args ← (stack.extract depth stack.size).toList.mapM fun v =>
    orFail (Fault.mismatch "Type" v.ty.name) v.type?
  push (.type (← instantiateNamed template args))
  return .next

/-! ## All operations -/

/-- A structured exit. -/
def exit (r : Reentry) (label : Label) : Run Control :=
  match label.role with
  | some (.return, depth) => exitReturn depth
  | some (.recall, depth) => recallFrom r depth
  | some (.yield, depth) => suspend depth
  | some (.break, depth) => exitLoop depth
  | none => fail (Fault.notExitLabel label.name)

/-- Executes one operation. -/
def exec (r : Reentry) : Op → Run Control
  | .push v => do push v; return .next
  | .pushMany vs => do pushEach vs; return .next
  | .drop n => do let _ ← popN n; return .next
  | .check (some t) => do checkTop t; return .next
  | .check none => do checkTop (← popType); return .next
  | .deref name => lookUp r name
  | .call name => do callName r name ((← ask (·.pc)) + 1)
  | .ref name => do push (← reference name); return .next
  | .get name => do push (← valueOf name); return .next
  | .bind name => do bind name (← pop); return .next
  | .fmt parts => do push (.str (String.join (← parts.mapM part))); return .next
  | .target _ => return .next
  | .jump name label => do return .jump (← jumpPc name label)
  | .lambda body kind skip => do
    let pc ← endPc "lambda" skip
    if kind = .closure then push (← newClosure ⟨body, ← ask (·.env)⟩)
    return .jump pc
  | .unlambda _ => exitReturn 0
  | .exit label _ => exit r label
  | .begin ownStack safety => do
    openBlock ownStack (safety.getD (← ask Thread.safety))
    return .next
  | .close => do closeScope r true; return .next
  | .closeList => do
    let items ← ask Thread.stack
    alter (·.modifyStack fun _ => #[])
    closeScope r false
    push (← listFrom items)
    return .next
  | .try done => do openTry (← labelPc done)
  | .closeTry => closeTry r
  | .closeTest message => closeTest message
  | .for done => do let pc ← endPc "for" done; endOnFault (stepFor r pc)
  | .while done => do let pc ← endPc "while" done; endOnFault (stepWhile r pc)
  | .param id => do
    alter fun t => { t with params := ⟨id, t.scopes.size, t.stack.size⟩ :: t.params }
    return .next
  | .unparam id template => closeParam id template

end Catena.Run
