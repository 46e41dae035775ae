import Catena.Run.Exec

/-!
# Running

A run executes operations one after the other until it reaches its stop or the last operation. It
may not go below the scopes that were open when it began. A fault goes to the innermost `try:` form
that was opened in this run; if there is none, everything opened in this run is closed and the run
ends with the fault.
-/

namespace Catena.Run

/-- Carries out a change of the flow of control in a run that began with `base` scopes. -/
def apply (r : Reentry) (base : Nat) : Control → Run Unit
  | .next => alter fun t => { t with pc := t.pc + 1 }
  | .jump pc => alter fun t => { t with pc }
  | .unwind depth pc => do
    if depth < base then fail Fault.exitCrosses
    unwindTo r depth true
    alter fun t => { t with pc }

/-- Closes scopes after a fault. -/
def unwindAfterFault (r : Reentry) (depth : Nat) : Run Unit := do
  match ← attempt (unwindTo r depth false) with
  | .ok () => return ()
  | .error e => note .warn fun _ => s!"error while unwinding: {e.text}"

/-- The loops outside a stretch of operations. -/
def loopsOutside (start done : Nat) (loops : Dict Nat LoopState) : Dict Nat LoopState :=
  loops.filterKeys fun pc => !(start < pc && pc < done)

/-- Goes on behind the `try:` form that catches a fault, which opened scope `i`. Ends the run if there
is no such scope any more. -/
def resumeTry (f : Fault) (i : Nat) (frame : TryFrame) : Run Unit := do
  match ← ask (·.scopes[i]?) with
  | none => exhausted
  | some scope =>
    alter fun t =>
      { t with
        tries := t.tries.modify (t.tries.size - 1) fun e => { e with faults := e.faults ++ [f] }
        valueStacks := t.valueStacks.modify scope.stack fun s => s.extract 0 frame.depth
        scopes := t.scopes.modify i fun s =>
          { s with loops := loopsOutside frame.startPc frame.donePc s.loops }
        params := t.params.filter fun p => p.scopes ≤ i
        pc := frame.donePc }

/-- Gives a fault to the innermost `try:` form of a run that began with `base` scopes. -/
def recover (r : Reentry) (base : Nat) (f : Fault) : Run Unit := do
  let catching ← ask fun t =>
    (t.tries.back?).filter fun e => decide (base ≤ e.scope) && decide (e.scope < t.scopes.size)
  match catching with
  | none =>
    let (id, pc) ← ask fun t => (t.id, t.pc)
    note .debug fun _ => s!"thread {id} failed at pc {pc}: {f.text}"
    unwindAfterFault r base
    fail f
  | some frame =>
    let pc ← ask (·.pc)
    note .debug fun _ => s!"caught at pc {pc}: {f.text}"
    unwindAfterFault r (frame.scope + 1)
    let innermost ← orFail f (← ask (·.tries.back?))
    resumeTry f frame.scope innermost

/-- Executes one operation and carries out what comes of it. -/
def step (r : Reentry) (base : Nat) (op : Op) : Run Unit := do
  apply r base (← exec r op)
  let limit ← askShared (·.config.limits.maxStackSize)
  if limit < (← ask (·.stack.size)) then fail (Fault.stackLimit limit)

/-- Executes operations until the program counter is `stop` or past all of them. -/
def runOps (r : Reentry) (base stop : Nat) : (fuel : Nat) → Run Unit
  | 0 => exhausted
  | fuel + 1 => do
    let pc ← ask (·.pc)
    if pc = stop then return ()
    match ← ask (·.ops[pc]?) with
    | none => return ()
    | some op =>
      match ← attempt (step r base op) with
      | .ok () => runOps r base stop fuel
      | .error f =>
        recover r base f
        runOps r base stop fuel

/-- Runs with `base` as the number of scopes to stay above. -/
def runLoop (r : Reentry) (base stop : Nat) : Run Unit := do
  let saved ← ask (·.loopBase)
  alter fun t => { t with loopBase := base }
  let result ← attempt (runOps r base stop stepLimit)
  alter fun t => { t with loopBase := saved }
  ofExcept result

/-- Calls a value and runs until the call is over. -/
def runCall (r : Reentry) (target : Value) (base : Nat) : Run Unit := do
  apply r base (← callValue r target exitPc)
  runLoop r base exitPc

/-- Calls a value with arguments on a stack of its own. Answers what is then on top of it. -/
def callNested (r : Reentry) (target : Value) (args : List Value) : Run (Option Value) := do
  let (pc, retPc, base) ← ask fun t => (t.pc, t.retPc, t.scopes.size)
  openBlock true (← ask Thread.safety)
  pushEach args
  let result ← attempt (runCall r target (base + 1))
  let top ← ask fun t => do
    let scope ← t.scopes[base]?
    let stack ← t.valueStacks[scope.stack]?
    stack.back?
  let closed ← attempt (unwindTo r base false)
  alter fun t => { t with pc, retPc }
  ofExcept result
  ofExcept closed
  return top

/-- Calls a value as the whole work of a thread. -/
def runThread (r : Reentry) (target : Value) : Run Unit := do
  runCall r target (← ask (·.scopes.size))

/-- Runs inside runs, up to `depth` of them inside one another. -/
def reentry : (depth : Nat) → Reentry
  | 0 => { call := fun _ _ => exhausted, runThread := fun _ => exhausted }
  | depth + 1 =>
    { call := fun target args => callNested (reentry depth) target args
      runThread := fun target => Run.runThread (reentry depth) target }

/-- The way into a run from outside. -/
def outermost : Reentry := reentry reentryLimit

/-- Runs until the program counter is `stop` or past all operations. -/
def runUntil (stop : Nat) : Run Unit := do
  let (id, pc, base) ← ask fun t => (t.id, t.pc, t.scopes.size)
  note .debug fun _ => s!"thread {id} running from pc {pc} (stop {stop})"
  let result ← attempt (runLoop outermost base stop)
  alter fun t => { t with pc := min t.pc t.ops.size }
  ofExcept result

/-- Runs to the end of the operations. -/
def runAll : Run Unit := do
  runUntil (← ask (·.ops.size))

end Catena.Run
