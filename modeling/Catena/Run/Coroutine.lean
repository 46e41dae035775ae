import Catena.Run.Close

/-!
# Entering, leaving and resuming lambdas

`yield` cuts everything from the scope of a lambda upward off the thread and goes back to the
caller. The next call of the lambda, or of the fiber it runs in, puts it back on top of whatever the
thread is doing then. Indices in what is cut off count from the cut.
-/

namespace Catena

namespace Thread

/-- The variables a coroutine takes along: those of scopes that do not have the safety level of its
first one are undone. -/
def keptEnv (env : Env) (head : Scope) (scopes : Array Scope) : Env :=
  scopes.toList.reverse.foldl
    (fun env s => if s.safety = head.safety then env else s.unbind env) env

/-- Cuts everything from scope `i`, the scope of lambda `lambda`, off the thread. -/
def cut (t : Thread) (i : Nat) (head : Scope) (lambda : Nat) : Coroutine × Thread :=
  let scopes := t.scopes.extract i t.scopes.size
  let first := t.tries.toList.findIdx fun f => i ≤ f.scope
  let coro : Coroutine :=
    { lambda
      pc := t.pc + 1
      scopes := (scopes.modify 0 fun s => { s with callerEnv := none, fiber := none }).map
        fun s => { s with stack := s.stack - head.stack }
      valueStacks := t.valueStacks.extract (head.stack + 1) t.valueStacks.size
      tries := (t.tries.extract first t.tries.size).map fun f => { f with scope := f.scope - i }
      env := keptEnv t.env head scopes }
  (coro, { t with
    scopes := t.scopes.extract 0 i
    valueStacks := t.valueStacks.extract 0 (head.stack + 1)
    tries := t.tries.extract 0 first
    params := t.params.filter fun p => p.scopes ≤ i
    env := head.callerEnv.getD ∅ })

/-- Puts a coroutine on top of the thread, to go back to `retPc` when it is left. -/
def graft (t : Thread) (coro : Coroutine) (retPc : Nat) (fiber : Option Ref) : Thread :=
  let depth := t.scopes.size
  let stack := t.valueStacks.size - 1
  let scopes := coro.scopes.map fun s => { s with stack := s.stack + stack }
  { t with
    scopes := t.scopes ++
      scopes.modify 0 fun s => { s with callerEnv := some t.env, retPc, fiber }
    valueStacks := t.valueStacks ++ coro.valueStacks
    tries := t.tries ++ coro.tries.map fun f => { f with scope := f.scope + depth }
    env := coro.env }

/-- Opens the scope of a lambda on the stack in use, with the variables of the closure. -/
def openLambda (t : Thread) (c : Closure) (safety : Safety) (retPc : Nat) : Thread :=
  { t with
    scopes := t.scopes.push (Scope.lambda c safety (t.valueStacks.size - 1) retPc t.env)
    env := c.env }

end Thread

namespace Run

/-- Starts a lambda from its first operation. -/
def startLambda (c : Closure) (safety : Safety) (retPc : Nat) : Run Control := do
  let entry ← orFail (Fault.noEntry c.body.id) c.body.entry
  checkRoom
  checkStack
  alter (·.openLambda c safety retPc)
  return .jump entry

/-- Goes on with a coroutine. -/
def resume (coro : Coroutine) (retPc : Nat) (fiber : Option Ref) : Run Control := do
  let limit ← maxScopes
  if limit < (← ask (·.scopes.size)) + coro.scopes.size then fail (Fault.scopeLimit limit)
  checkStack
  alter (·.graft coro retPc fiber)
  return .jump coro.pc

/-- Calls a lambda: goes on with it if it was left by `yield`, and starts it otherwise. -/
def enterLambda (c : Closure) (safety : Safety) (retPc : Nat) : Run Control := do
  match ← ask (·.coros.find? c.body.id) with
  | some coro =>
    alter fun t => { t with coros := t.coros.erase c.body.id }
    note .debug fun _ => s!"resuming lambda#{c.body.id}"
    resume coro retPc none
  | none => startLambda c safety retPc

/-- Starts the closure of a fiber that is not suspended; if that fails, the fiber keeps its state. -/
def startFiber (fiber : Ref) (id : Nat) (state : FiberState) (c : Closure) (retPc : Nat) :
    Run Control := do
  note .debug fun _ => s!"starting fiber#{id}"
  match ← attempt (startLambda c (← ask Thread.safety) retPc) with
  | .ok ctl =>
    alter (·.modifyScope fun s => { s with fiber := some fiber })
    return ctl
  | .error e =>
    setFiber fiber state
    fail e

/-- Goes on with a fiber that was left by `yield`. -/
def resumeFiber (ref : Ref) (id : Nat) (coro : Coroutine) (retPc : Nat) : Run Reply := do
  setFiber ref .running
  note .debug fun _ => s!"resuming fiber#{id}"
  match ← attempt (resume coro retPc (some ref)) with
  | .ok ctl => return .control ctl
  | .error e =>
    setFiber ref .done
    fail e

/-- Starts a fiber that is not suspended; what cannot be left by `yield` is called in its place. -/
def enterTarget (ref : Ref) (fiber : Fiber) (retPc : Nat) : Run Reply := do
  match fiber.target.payload with
  | .lambda l =>
    setFiber ref .running
    match ← askStore fun s => s.closures[l]? with
    | some c => return .control (← startFiber ref fiber.id fiber.state c retPc)
    | none => fail (Fault.noEntry 0)
  | _ =>
    setFiber ref .done
    return .enter fiber.target

/-- Calls a fiber. One that was left by `yield` goes on, one that runs is refused, and any other
starts. -/
def enterFiber (ref : Ref) (retPc : Nat) : Run Reply := do
  let fiber ← askStore fun s => s.fibers[ref]?.getD default
  match fiber.state with
  | .running => fail (Fault.busyFiber fiber.id)
  | .suspended coro => resumeFiber ref fiber.id coro retPc
  | _ => enterTarget ref fiber retPc

/-- The index of the scope of the `depth`-th lambda, counted from the innermost. -/
def lambdaScope (depth : Nat) : Run Nat := do
  orFail (Fault.noLambda depth) (← ask (·.lambdaScope? depth))

/-- Leaves the `depth`-th lambda in the middle. -/
def suspend (depth : Nat) : Run Control := do
  let i ← lambdaScope depth
  if i < (← ask (·.loopBase)) then fail Fault.yieldCrosses
  let head ← ask fun t => t.scopes[i]?.getD default
  let callee ← orFail Fault.yieldOutside head.callee
  let coro ← fun m =>
    let (coro, thread) := m.thread.cut i head callee.body.id
    .ok coro { m with thread }
  match head.fiber with
  | some f =>
    let id ← askStore fun s => s.fibers[f]?.elim 0 (·.id)
    note .debug fun _ => s!"fiber#{id} suspended at pc {coro.pc}"
    setFiber f (.suspended coro)
  | none =>
    note .debug fun _ => s!"lambda#{coro.lambda} suspended at pc {coro.pc}"
    alter fun t => { t with coros := t.coros.insert coro.lambda coro }
  return .jump head.retPc

/-- Starts the `depth`-th lambda anew in its own scope. -/
def recallFrom (r : Reentry) (depth : Nat) : Run Control := do
  let i ← lambdaScope depth
  if i < (← ask (·.loopBase)) then fail Fault.recallCrosses
  unwindTo r (i + 1) false
  let callee ← orFail Fault.recallOutside (← ask fun t => t.scopes[i]?.bind (·.callee))
  let entry ← orFail Fault.noRecallEntry callee.body.entry
  alter fun t =>
    { t with
      scopes := t.scopes.modify i fun s => { s with bound := [], loops := ∅ }
      env := callee.env }
  return .jump entry

/-- Leaves the `depth`-th lambda for good. -/
def exitReturn (depth : Nat) : Run Control := do
  let i ← lambdaScope depth
  return .unwind i (← ask fun t => t.scopes[i]?.elim 0 (·.retPc))

/-- Leaves the `depth`-th loop. -/
def exitLoop (depth : Nat) : Run Control := do
  let (i, pc) ← orFail (Fault.noLoop depth) (← ask (·.loop? depth))
  let donePc ← ask fun t => (t.scopes[i]?.bind (·.loops.find? pc)).elim (pc + 1) (·.donePc)
  alter fun t =>
    { t with scopes := t.scopes.modify i fun s => { s with loops := s.loops.erase pc } }
  note .trace fun _ => s!"break out of loop at pc {pc}"
  return .unwind (i + 1) donePc

end Run

end Catena
