import Catena.Proofs.Run.Act

/-!
# What a run does to fibers and coroutines

The acts of a run do not tell which fiber is marked, when a coroutine is lost and when what a thread
left behind is taken. A deed does. A fiber
runs from where a scope is opened or put back for it, and is over or left in the middle as that scope
goes. The coroutine that a lambda was left with stays where it is until the lambda goes on, until
another one takes its place, or until there is no room to go on with it.

Each deed comes to acts, and so do deeds one after the other.
-/

namespace Catena

/-- Sets the state of a fiber. -/
def Machine.mark (m : Machine) (f : Ref) (state : FiberState) : Machine :=
  m.alterFibers (·.modify f fun f => { f with state })

/-- The fiber, if there is one, does not run. -/
def Machine.Stopped (m : Machine) (f : Ref) : Prop :=
  ∀ fiber, m.shared.store.fibers[f]? = some fiber → fiber.state ≠ .running

/-- The fiber, if there is one, neither runs nor has been left in the middle. -/
def Machine.Idle (m : Machine) (f : Ref) : Prop :=
  ∀ fiber, m.shared.store.fibers[f]? = some fiber → fiber.state = .fresh ∨ fiber.state = .done

/-- Opens the scope of a lambda that runs in a fiber. -/
def Thread.openFiber (t : Thread) (f : Ref) (c : Closure) (safety : Safety) (retPc : Nat) : Thread :=
  { t.openLambda c safety retPc with
    scopes := t.scopes.push
      { Scope.lambda c safety (t.valueStacks.size - 1) retPc t.env with fiber := some f } }

/-- A coroutine cannot be put back on the thread. -/
def Machine.Refuses (m : Machine) (coro : Coroutine) : Prop :=
  m.shared.config.limits.maxScopeDepth < m.thread.scopes.size + coro.scopes.size ∨
    m.thread.valueStacks.size = 0

/-- One deed of a run. A lambda that starts may be called where the level was `top`. -/
inductive Deed (careful : Prop) (top : Safety) (m : Machine) : Machine → Prop
  | shared (s : Shared) (h : m.shared.Drift s) (threads : m.shared.store.SameThreads s.store) :
      Deed careful top m { m with shared := s }
  /-- A thread is joined. -/
  | takeOutcome (t : Ref) (handle : ThreadHandle) (outcome : Except Fault (Array Value))
      (found : m.shared.store.threads[t]? = some handle) (left : handle.outcome = some outcome) :
      Deed careful top m
        { m with shared := { m.shared with store := m.shared.store.takeOutcome t } }
  | thread (t : Thread) (h : m.thread.Calm t) (coros : t.coros = m.thread.coros) :
      Deed careful top m { m with thread := t }
  | newFiber (id : Nat) (target : Value) :
      Deed careful top m (m.alterFibers (·.push ⟨id, target, .fresh⟩))
  | remember (imp : Imp) (name : String) (imps : List Imp)
      (known : m.shared.registry.funcs.find? name = some imps) (member : imp ∈ imps) :
      Deed careful top m
        { m with thread :=
          { m.thread with cache := m.thread.cache.insert m.thread.pc imp } }
  | bind (name : String) (v : Value) : Deed careful top m { m with thread := m.thread.bind name v }
  /-- A block opens, at the level in force or the one that its operation gives. -/
  | openBlock (ownStack : Bool) (safety : Safety) (room : m.hasRoom)
      (stack : ownStack = false → m.thread.valueStacks.size ≠ 0)
      (level : safety = m.thread.safety ∨ .begin ownStack (some safety) ∈ m.thread.ops) :
      Deed careful top m { m with thread := m.thread.openBlock ownStack safety }
  | openTry (frame : TryFrame) (room : m.hasRoom) (h : frame.scope = m.thread.scopes.size) :
      Deed careful top m
        { m with thread :=
          { m.thread.openBlock true m.thread.safety with tries := m.thread.tries.push frame } }
  /-- A lambda starts, but not for a fiber. -/
  | openLambda (c : Closure) (safety : Safety) (retPc : Nat) (room : m.hasRoom)
      (stack : m.thread.valueStacks.size ≠ 0) (level : safety ≤ top) :
      Deed careful top m { m with thread := m.thread.openLambda c safety retPc }
  /-- The lambda of a fiber starts. -/
  | startFiber (f : Ref) (c : Closure) (safety : Safety) (retPc : Nat)
      (known : f < m.shared.store.fibers.size) (idle : m.Idle f) (room : m.hasRoom)
      (stack : m.thread.valueStacks.size ≠ 0) (level : safety ≤ top) :
      Deed careful top m
        { m.mark f .running with thread := m.thread.openFiber f c safety retPc }
  /-- What the fiber stands for is called in its place, or there is no room to go on with it. -/
  | endFiber (f : Ref) (stopped : m.Stopped f) : Deed careful top m (m.mark f .done)
  /-- The run comes to nothing as the fiber starts or goes on. -/
  | strandFiber (f : Ref) (stopped : m.Stopped f) : Deed careful top m (m.mark f .running)
  | close (keepTop : Bool) (h : careful → 1 < m.thread.scopes.size)
      (alone : m.thread.scope.fiber = none) :
      Deed careful top m { m with thread := (m.thread.closeScope keepTop).2 }
  /-- The scope that a fiber runs in closes. -/
  | closeFiber (keepTop : Bool) (f : Ref) (h : careful → 1 < m.thread.scopes.size)
      (runs : m.thread.scope.fiber = some f) :
      Deed careful top m
        ({ m with thread := (m.thread.closeScope keepTop).2 }.mark f .done)
  /-- The innermost scope is that of a lambda, which starts anew. -/
  | restart (i : Nat) (c : Closure) (innermost : m.thread.scopes.size = i + 1)
      (called : m.thread.scopes[i]?.bind (·.callee) = some c) :
      Deed careful top m { m with thread := m.thread.restart i c }
  | suspendLambda (i : Nat) (head : Scope) (callee : Closure)
      (found : m.thread.scopes[i]? = some head) (called : head.callee = some callee)
      (alone : head.fiber = none) :
      Deed careful top m
        { m with thread :=
          let (coro, t) := m.thread.cut i head callee.body.id
          { t with coros := t.coros.insert coro.lambda coro } }
  | suspendFiber (i : Nat) (head : Scope) (callee : Closure) (f : Ref)
      (found : m.thread.scopes[i]? = some head) (called : head.callee = some callee)
      (runs : head.fiber = some f) :
      Deed careful top m
        ({ m with thread := (m.thread.cut i head callee.body.id).2 }.mark f
          (.suspended (m.thread.cut i head callee.body.id).1))
  | resumeLambda (id : Nat) (coro : Coroutine) (retPc : Nat)
      (found : m.thread.coros.find? id = some coro)
      (room : m.thread.scopes.size + coro.scopes.size ≤ m.shared.config.limits.maxScopeDepth)
      (stack : m.thread.valueStacks.size ≠ 0) :
      Deed careful top m
        { m with thread :=
          { m.thread with coros := m.thread.coros.erase id }.graft coro retPc none }
  /-- A lambda that was left in the middle cannot go on, and what it was left with is gone. -/
  | dropLambda (id : Nat) (coro : Coroutine) (found : m.thread.coros.find? id = some coro)
      (refused : m.Refuses coro) :
      Deed careful top m { m with thread := { m.thread with coros := m.thread.coros.erase id } }
  | resumeFiber (f : Ref) (fiber : Fiber) (coro : Coroutine) (retPc : Nat)
      (found : m.shared.store.fibers[f]? = some fiber) (left : fiber.state = .suspended coro)
      (room : m.thread.scopes.size + coro.scopes.size ≤ m.shared.config.limits.maxScopeDepth)
      (stack : m.thread.valueStacks.size ≠ 0) :
      Deed careful top m
        ({ m with thread := m.thread.graft coro retPc (some f) }.mark f .running)

/-- Deeds one after the other. A lambda that starts may have been called some deeds ago. Another thread
may run in between, which starts as a copy of the present one and gives way to it again. -/
inductive Deeds (careful : Prop) : Machine → Machine → Prop
  | refl (m : Machine) : Deeds careful m m
  | next {m n p q : Machine} : Deeds careful m n → Deeds careful n p →
      Deed careful n.thread.safety p q → Deeds careful m q
  | fork {m n p : Machine} (id : Nat) : Deeds careful m n →
      Deeds careful { n with thread := n.thread.fork id } p →
      Deeds careful m { p with thread := n.thread }

variable {careful : Prop} {m n p : Machine}

theorem Machine.Idle.stopped {f : Ref} (h : m.Idle f) : m.Stopped f := by
  intro fiber found
  rcases h fiber found with state | state
  · rw [state]
    nofun
  · rw [state]
    nofun

theorem Deeds.then (h : Deeds careful m n) (deed : Deed careful n.thread.safety n p) :
    Deeds careful m p :=
  .next h (.refl n) deed

theorem Deed.deeds (deed : Deed careful m.thread.safety m n) : Deeds careful m n :=
  (Deeds.refl m).then deed

theorem Deeds.trans (h : Deeds careful m n) (k : Deeds careful n p) : Deeds careful m p := by
  induction k with
  | refl => exact h
  | next _ between deed ih => exact (ih h).next between deed
  | fork id _ child ih => exact .fork id (ih h) child

instance : IsPreorder Machine (Deeds careful) where
  refl := .refl
  trans _ _ _ := .trans

/-! ## Deeds are acts -/

/-- A deed is an act, or two. -/
theorem Deed.acts_of {top : Safety} (deed : Deed careful top m n) :
    Act careful top m n ∨ ∃ p, Act careful top m p ∧ Act careful top p n := by
  cases deed with
  | shared s h _ => exact .inl (.shared s h)
  | takeOutcome t handle outcome found left => exact .inl (.shared _ ⟨rfl, .refl _, rfl⟩)
  | thread t h _ => exact .inl (.thread t h)
  | newFiber id target => exact .inl (.newFiber id target)
  | remember imp name imps known member => exact .inl (.remember imp name imps known member)
  | bind name v => exact .inl (.bind name v)
  | openBlock ownStack safety room stack level => exact .inl (.openBlock ownStack safety room stack level)
  | openTry frame room h => exact .inl (.openTry frame room h)
  | openLambda c safety retPc room stack level =>
    exact .inl (.openLambda c safety retPc none room stack nofun level)
  | startFiber f c safety retPc known _ room stack level =>
    have there : ∀ g, some f = some g → g < (m.mark f .running).shared.store.fibers.size := by
      intro g same
      obtain rfl := Option.some.inj same
      simpa [Machine.mark, Machine.alterFibers] using known
    exact .inr ⟨_, .markFiber f .running nofun,
      .openLambda c safety retPc (some f) room stack there level⟩
  | endFiber f _ => exact .inl (.markFiber f .done nofun)
  | strandFiber f _ => exact .inl (.markFiber f .running nofun)
  | close keepTop h _ => exact .inl (.close keepTop h)
  | closeFiber keepTop f h _ => exact .inr ⟨_, .close keepTop h, .markFiber f .done nofun⟩
  | restart i c innermost called => exact .inl (.restart i c innermost called)
  | suspendLambda i head callee found called _ => exact .inl (.suspendLambda i head callee found called)
  | suspendFiber i head callee f found called _ => exact .inl (.suspendFiber i head callee f found called)
  | resumeLambda id coro retPc found room stack =>
    exact .inl (.resumeLambda id coro retPc found room stack)
  | dropLambda id coro _ _ => exact .inl (.thread _ (.of_scopes (.eraseCoros _ id) rfl rfl rfl))
  | resumeFiber f fiber coro retPc found left room stack =>
    exact .inl (.resumeFiber f fiber coro retPc found left room stack)

theorem Deed.changes {top : Safety} (deed : Deed careful top m n) : Changes careful m n := by
  rcases deed.acts_of with act | ⟨p, first, second⟩
  · exact act.change.changes
  · exact first.change.changes.next second.change

theorem Deeds.acts (h : Deeds careful m n) : Acts careful m n := by
  induction h with
  | refl m => exact .refl m
  | next _ _ deed before between =>
    rcases deed.acts_of with act | ⟨p, first, second⟩
    · exact .next before between act
    · exact .next before ((Acts.refl _).next between first) second
  | fork id _ _ before child => exact .fork id before child

theorem Deeds.changes (h : Deeds careful m n) : Changes careful m n :=
  h.acts.changes

end Catena
