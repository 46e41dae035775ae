import Catena.Engine

/-!
# Watched runs

A watch looks on while programs run and may stop them: before an operation, when an operation has
failed, and when a call made from inside an operation comes back. A run that is stopped ends for want
of fuel in the state it has reached, so the machines that a run passes through are those in which
some watch stops it. A run that nobody watches is the run itself (`runUntil_idle`).
-/

namespace Catena

namespace Run

/-- The machine that a computation leaves, however it ends. -/
def after {α : Type} (x : Run α) (m : Machine) : Machine :=
  match x m with
  | .ok _ n => n
  | .error _ n => n

/-- What a computation answers, if it ends well. -/
def answer? {α : Type} (x : Run α) (m : Machine) : Option α :=
  match x m with
  | .ok a _ => some a
  | .error .. => none

theorem answer?_eq_some {α : Type} {x : Run α} {m : Machine} {a : α} (h : x.answer? m = some a) :
    x m = .ok a (x.after m) := by
  unfold answer? at h
  unfold after
  split at h
  next found =>
    cases h
    rw [found]
  next => cases h

theorem bind_apply {α β : Type} (x : Run α) (k : α → Run β) (m : Machine) :
    (x >>= k) m =
      match x m with
      | .ok a n => k a n
      | .error e n => .error e n := by
  cases h : x m <;> simp only [Bind.bind, EStateM.bind, h]

/-- Stops where the test holds. -/
def haltIf (test : Machine → Bool) : Run Unit := fun m =>
  if test m then .error .outOfFuel m else .ok () m

end Run

/-- Where runs stop. -/
structure Watch where
  /-- Whether a run stops before its next operation, or at the fault of the last one. -/
  halts : Option Fault → Machine → Bool
  /-- Whether a run stops as a call made from inside an operation comes back, given its arguments and
  the machine it leaves. Deferred calls are the ones without arguments. -/
  returns : List Value → Machine → Bool

namespace Watch

open Run (ask alter attempt ofExcept haltIf)

/-- The watch that stops nothing. -/
def idle : Watch := ⟨fun _ _ => false, fun _ _ => false⟩

/-- Executes operations until the program counter is `stop` or past all of them. -/
def runOps (w : Watch) (r : Reentry) (base stop : Nat) : (fuel : Nat) → Run Unit
  | 0 => Run.exhausted
  | fuel + 1 => do
    haltIf (w.halts none)
    let pc ← ask (·.pc)
    if pc = stop then return ()
    match ← ask (·.ops[pc]?) with
    | none => return ()
    | some op =>
      match ← attempt (Run.step r base op) with
      | .ok () => w.runOps r base stop fuel
      | .error f =>
        haltIf (w.halts (some f))
        Run.recover r base f
        w.runOps r base stop fuel

/-- Runs with `base` as the number of scopes to stay above. -/
def runLoop (w : Watch) (r : Reentry) (base stop : Nat) : Run Unit := do
  let saved ← ask (·.loopBase)
  alter fun t => { t with loopBase := base }
  let result ← attempt (w.runOps r base stop Run.stepLimit)
  alter fun t => { t with loopBase := saved }
  ofExcept result

/-- Calls a value and runs until the call is over. -/
def runCall (w : Watch) (r : Reentry) (target : Value) (base : Nat) : Run Unit := do
  Run.apply r base (← Run.callValue r target exitPc)
  w.runLoop r base exitPc

/-- Calls a value with arguments on a stack of its own. Answers what is then on top of it. -/
def callAside (w : Watch) (r : Reentry) (target : Value) (args : List Value) :
    Run (Option Value) := do
  let (pc, retPc, base) ← ask fun t => (t.pc, t.retPc, t.scopes.size)
  Run.openBlock true (← ask Thread.safety)
  Run.pushEach args
  let result ← attempt (w.runCall r target (base + 1))
  let top ← ask fun t => do
    let scope ← t.scopes[base]?
    let stack ← t.valueStacks[scope.stack]?
    stack.back?
  let closed ← attempt (Run.unwindTo r base false)
  alter fun t => { t with pc, retPc }
  ofExcept result
  ofExcept closed
  return top

/-- A call from inside an operation, which may be stopped as it comes back. -/
def callNested (w : Watch) (r : Reentry) (target : Value) (args : List Value) :
    Run (Option Value) := do
  let answer ← attempt (w.callAside r target args)
  haltIf (w.returns args)
  ofExcept answer

/-- Calls a value as the whole work of a thread. -/
def runThread (w : Watch) (r : Reentry) (target : Value) : Run Unit := do
  w.runCall r target (← ask (·.scopes.size))

/-- Runs inside runs, up to `depth` of them inside one another. -/
def reentry (w : Watch) : (depth : Nat) → Reentry
  | 0 => { call := fun _ _ => Run.exhausted, runThread := fun _ => Run.exhausted }
  | depth + 1 =>
    { call := fun target args => w.callNested (w.reentry depth) target args
      runThread := fun target => w.runThread (w.reentry depth) target }

/-- Runs until the program counter is `stop` or past all operations. -/
def runUntil (w : Watch) (stop : Nat) : Run Unit := do
  let (id, pc, base) ← ask fun t => (t.id, t.pc, t.scopes.size)
  Run.note .debug fun _ => s!"thread {id} running from pc {pc} (stop {stop})"
  let result ← attempt (w.runLoop (w.reentry Run.reentryLimit) base stop)
  alter fun t => { t with pc := min t.pc t.ops.size }
  ofExcept result

/-! ## Runs that nobody watches -/

theorem attempt_ofExcept {α : Type} (x : Run α) : (attempt x >>= ofExcept) = x := by
  funext m
  rw [Run.bind_apply, attempt]
  rcases x m with ⟨a, n⟩ | ⟨_ | _, n⟩ <;> rfl

theorem runOps_idle (r : Reentry) (base stop fuel : Nat) :
    idle.runOps r base stop fuel = Run.runOps r base stop fuel := by
  induction fuel with
  | zero => rfl
  | succ fuel ih =>
    rw [Run.runOps, ← ih]
    rfl

theorem runLoop_idle (r : Reentry) (base stop : Nat) :
    idle.runLoop r base stop = Run.runLoop r base stop := by
  simp only [runLoop, Run.runLoop, runOps_idle]

theorem runCall_idle (r : Reentry) (target : Value) (base : Nat) :
    idle.runCall r target base = Run.runCall r target base := by
  simp only [runCall, Run.runCall, runLoop_idle]

theorem callNested_idle (r : Reentry) (target : Value) (args : List Value) :
    idle.callNested r target args = Run.callNested r target args := by
  have aside : idle.callAside r target args = Run.callNested r target args := by
    simp only [callAside, Run.callNested, runCall_idle]
  calc idle.callNested r target args
      = attempt (idle.callAside r target args) >>= ofExcept := rfl
    _ = Run.callNested r target args := by rw [attempt_ofExcept, aside]

theorem reentry_idle (depth : Nat) : idle.reentry depth = Run.reentry depth := by
  induction depth with
  | zero => rfl
  | succ depth ih =>
    simp only [reentry, Run.reentry, ih, callNested_idle, runThread, Run.runThread, runCall_idle]

/-- A run that nobody watches is the run itself. -/
theorem runUntil_idle (stop : Nat) : idle.runUntil stop = Run.runUntil stop := by
  simp only [runUntil, Run.runUntil, Run.outermost, runLoop_idle, reentry_idle]

end Watch

end Catena
