import Catena.Run.Close

/-!
# Fibers and threads

A thread starts as a copy of the one that starts it. What it leaves behind, a stack of values or a
fault, waits for the first one to join it.

When threads take their turns is for a scheduler to say, not for them. The one here lets a thread that
starts run to its end before the one that started it goes on.
-/

namespace Catena.Run

def makeFiber : Run Reply := do
  let target ← pop
  let id ← freshId
  let f ← alloc (·.fibers.size) fun s => { s with fibers := s.fibers.push ⟨id, target, .fresh⟩ }
  push ⟨.fiber, .fiber f⟩
  return .next

/-- Whether the last run of a fiber came to its end. -/
def fiberDone : Run Reply := do
  let v ← pop
  match v.payload with
  | .fiber f =>
    let done ← askStore fun s => s.fibers[f]?.any fun f => f.state matches .done
    push (.bool done)
  | _ => fail (Fault.mismatch "Fiber" v.ty.name)
  return .next

/-- Runs a computation on another thread and comes back to this one. -/
def onThread {α : Type} (child : Thread) (x : Run α) : Run (Except Fault α × Thread) := fun m =>
  match attempt x { m with thread := child } with
  | .ok a n => .ok (a, n.thread) { n with thread := m.thread }
  | .error h n => .error h { n with thread := m.thread }

/-- Runs a value as the whole work of a new thread. Answers the thread's handle. -/
def spawn (r : Reentry) (target : Value) : Run Ref := do
  let id ← freshId
  note .trace fun _ => s!"creating thread {id}"
  let parent ← ask (·.id)
  noteThread .debug parent s!"spawning thread {id}"
  let child ← ask (·.fork id)
  let (result, child) ← onThread child (r.runThread target)
  match result with
  | .ok () => noteThread .debug id "finished"
  | .error e => noteThread .warn id s!"failed: {e.text}"
  let outcome := result.map fun () => child.stack
  alloc (·.threads.size) fun s => { s with threads := s.threads.push ⟨id, some outcome⟩ }

def startThread (r : Reentry) : Run Reply := do
  let t ← spawn r (← pop)
  push ⟨.thread, .thread t⟩
  return .next

/-- Takes what a thread left behind, which must still be there. Answers the id of the thread too. -/
def takeOutcome (t : Ref) : Run (Nat × Except Fault (Array Value)) := do
  let handle ← askStore fun s => s.threads[t]?.getD default
  match handle.outcome with
  | none => fail (Fault.joinedThread handle.id)
  | some outcome =>
    alterStore (·.takeOutcome t)
    return (handle.id, outcome)

/-- Takes what a thread left behind: its values come onto the stack, its fault is raised. -/
def join : Run Reply := do
  let v ← pop
  match v.payload with
  | .thread t =>
    let (id, outcome) ← takeOutcome t
    let values ← ofExcept outcome
    noteThread .debug (← ask (·.id)) s!"joined thread {id} ({values.size} values)"
    alter (·.pushAll values)
    return .next
  | _ => fail (Fault.mismatch "Thread" v.ty.name)

end Catena.Run
