import Catena.Proofs.Run.Change
import Mathlib.Order.Defs.Unbundled

/-!
# What a run does

The changes of a machine say what can happen to its nesting. What a run does to it is finer: the
variables of a thread only change as a scope binds one, and as scopes open, close, are put away and
start anew; a scope allows what the one below it does, unless the operation that opens it says
otherwise; and the scope of a lambda that starts allows no more than was allowed where it was called.

Each act is a change, and so are acts one after the other.
-/

namespace Catena

/-- A scope without its loops and deferred calls. -/
def Scope.calm (s : Scope) : Scope := { s with loops := ∅, defers := [] }

/-- A thread may come to differ in this way with the same operations and variables, while its scopes
allow and bind the same. -/
structure Thread.Calm (t t' : Thread) : Prop where
  drift : t.Drift t'
  ops : t'.ops = t.ops
  env : t'.env = t.env
  scopes : t'.scopes.map Scope.calm = t.scopes.map Scope.calm

/-- A thread with scope `i` as that of a lambda that starts anew. -/
def Thread.restart (t : Thread) (i : Nat) (c : Closure) : Thread :=
  { t with
    scopes := t.scopes.modify i fun s => { s with bound := [], loops := ∅ }
    env := c.env }

/-- One act of a run. A lambda that starts may be called where the level was `top`. -/
inductive Act (careful : Prop) (top : Safety) (m : Machine) : Machine → Prop
  | shared (s : Shared) (h : m.shared.Drift s) : Act careful top m { m with shared := s }
  | thread (t : Thread) (h : m.thread.Calm t) : Act careful top m { m with thread := t }
  | newFiber (id : Nat) (target : Value) :
      Act careful top m (m.alterFibers (·.push ⟨id, target, .fresh⟩))
  | markFiber (f : Ref) (state : FiberState) (h : ∀ c, state ≠ .suspended c) :
      Act careful top m (m.alterFibers (·.modify f fun f => { f with state }))
  | remember (imp : Imp) (name : String) (imps : List Imp)
      (known : m.shared.registry.funcs.find? name = some imps) (member : imp ∈ imps) :
      Act careful top m
        { m with thread :=
          { m.thread with cache := m.thread.cache.insert m.thread.pc imp } }
  | bind (name : String) (v : Value) : Act careful top m { m with thread := m.thread.bind name v }
  /-- A block opens, at the level in force or the one that its operation gives. -/
  | openBlock (ownStack : Bool) (safety : Safety) (room : m.hasRoom)
      (stack : ownStack = false → m.thread.valueStacks.size ≠ 0)
      (level : safety = m.thread.safety ∨ .begin ownStack (some safety) ∈ m.thread.ops) :
      Act careful top m { m with thread := m.thread.openBlock ownStack safety }
  | openTry (frame : TryFrame) (room : m.hasRoom) (h : frame.scope = m.thread.scopes.size) :
      Act careful top m
        { m with thread :=
          { m.thread.openBlock true m.thread.safety with tries := m.thread.tries.push frame } }
  /-- A lambda starts, for a fiber or not. -/
  | openLambda (c : Closure) (safety : Safety) (retPc : Nat) (fiber : Option Ref) (room : m.hasRoom)
      (stack : m.thread.valueStacks.size ≠ 0)
      (known : ∀ f, fiber = some f → f < m.shared.store.fibers.size) (level : safety ≤ top) :
      Act careful top m
        { m with thread :=
          { m.thread.openLambda c safety retPc with
            scopes := m.thread.scopes.push
              { Scope.lambda c safety (m.thread.valueStacks.size - 1) retPc m.thread.env with
                fiber } } }
  | close (keepTop : Bool) (h : careful → 1 < m.thread.scopes.size) :
      Act careful top m { m with thread := (m.thread.closeScope keepTop).2 }
  /-- The innermost scope is that of a lambda, which starts anew. -/
  | restart (i : Nat) (c : Closure) (innermost : m.thread.scopes.size = i + 1)
      (called : m.thread.scopes[i]?.bind (·.callee) = some c) :
      Act careful top m { m with thread := m.thread.restart i c }
  | suspendLambda (i : Nat) (head : Scope) (callee : Closure)
      (found : m.thread.scopes[i]? = some head) (called : head.callee = some callee) :
      Act careful top m
        { m with thread :=
          let (coro, t) := m.thread.cut i head callee.body.id
          { t with coros := t.coros.insert coro.lambda coro } }
  | suspendFiber (i : Nat) (head : Scope) (callee : Closure) (f : Ref)
      (found : m.thread.scopes[i]? = some head) (called : head.callee = some callee) :
      Act careful top m
        ({ m with thread := (m.thread.cut i head callee.body.id).2 }.alterFibers
          (·.modify f fun fiber =>
            { fiber with state := .suspended (m.thread.cut i head callee.body.id).1 }))
  | resumeLambda (id : Nat) (coro : Coroutine) (retPc : Nat)
      (found : m.thread.coros.find? id = some coro)
      (room : m.thread.scopes.size + coro.scopes.size ≤ m.shared.config.limits.maxScopeDepth)
      (stack : m.thread.valueStacks.size ≠ 0) :
      Act careful top m
        { m with thread :=
          { m.thread with coros := m.thread.coros.erase id }.graft coro retPc none }
  | resumeFiber (f : Ref) (fiber : Fiber) (coro : Coroutine) (retPc : Nat)
      (found : m.shared.store.fibers[f]? = some fiber) (left : fiber.state = .suspended coro)
      (room : m.thread.scopes.size + coro.scopes.size ≤ m.shared.config.limits.maxScopeDepth)
      (stack : m.thread.valueStacks.size ≠ 0) :
      Act careful top m
        ({ m with thread := m.thread.graft coro retPc (some f) }.alterFibers
          (·.modify f fun f => { f with state := .running }))

/-- Acts one after the other. A lambda that starts may have been called some acts ago. Another thread
may run in between, which starts as a copy of the present one and gives way to it again. -/
inductive Acts (careful : Prop) : Machine → Machine → Prop
  | refl (m : Machine) : Acts careful m m
  | next {m n p q : Machine} : Acts careful m n → Acts careful n p →
      Act careful n.thread.safety p q → Acts careful m q
  | fork {m n p : Machine} (id : Nat) : Acts careful m n →
      Acts careful { n with thread := n.thread.fork id } p →
      Acts careful m { p with thread := n.thread }

variable {careful : Prop} {t t' u : Thread} {m n p : Machine}

theorem Acts.then (h : Acts careful m n) (act : Act careful n.thread.safety n p) :
    Acts careful m p :=
  .next h (.refl n) act

theorem Act.acts (act : Act careful m.thread.safety m n) : Acts careful m n :=
  (Acts.refl m).then act

theorem Acts.trans (h : Acts careful m n) (k : Acts careful n p) : Acts careful m p := by
  induction k with
  | refl => exact h
  | next _ between act ih => exact (ih h).next between act
  | fork id _ child ih => exact .fork id (ih h) child

instance : IsPreorder Machine (Acts careful) where
  refl := .refl
  trans _ _ _ := .trans

instance : IsPreorder Machine (Changes careful) where
  refl := .refl
  trans _ _ _ := .trans

/-! ## What leaves the variables alone -/

namespace Thread.Calm

theorem refl (t : Thread) : t.Calm t := ⟨.refl t, rfl, rfl, rfl⟩

theorem trans (h : t.Calm t') (k : t'.Calm u) : t.Calm u :=
  ⟨h.drift.trans k.drift, k.ops.trans h.ops, k.env.trans h.env, k.scopes.trans h.scopes⟩

/-- Nothing that counts is touched. -/
theorem aside (scopes : t'.scopes = t.scopes) (heights : t'.valueStacks = t.valueStacks)
    (tries : t'.tries = t.tries) (coros : t'.coros = t.coros) (cache : t'.cache = t.cache)
    (ops : t'.ops = t.ops) (env : t'.env = t.env) : t.Calm t' :=
  ⟨.aside scopes heights tries coros cache, ops, env, by rw [scopes]⟩

/-- A drift that touches no scope. -/
theorem of_scopes (drift : t.Drift t') (scopes : t'.scopes = t.scopes) (ops : t'.ops = t.ops)
    (env : t'.env = t.env) : t.Calm t' :=
  ⟨drift, ops, env, by rw [scopes]⟩

/-- The loops and the deferred calls of a scope may change. -/
theorem alterScope (t : Thread) (i : Nat) (f : Scope → Scope) (calm : ∀ s, (f s).calm = s.calm)
    (loops : ∀ s, s.loops.keys.Nodup → (f s).loops.keys.Nodup) :
    t.Calm { t with scopes := t.scopes.modify i f } where
  drift := .alterScope t i f (fun s => (congrArg Scope.bare (calm s) :)) loops
  ops := rfl
  env := rfl
  scopes := Drift.map_modify _ _ _ _ calm

end Thread.Calm

/-! ## Acts are changes -/

theorem Act.change {top : Safety} (act : Act careful top m n) : Change careful m n := by
  cases act with
  | shared s h => exact .shared s h
  | thread t h => exact .thread t h.drift
  | newFiber id target => exact .newFiber id target
  | markFiber f state h => exact .markFiber f state h
  | remember imp name imps known member => exact .remember imp name imps known member
  | bind name v => exact .thread _ (.bind _ name v)
  | openBlock ownStack safety room stack _ => exact .openBlock ownStack safety room stack
  | openTry frame room h => exact .openTry _ frame room h
  | openLambda c safety retPc fiber room stack known _ =>
    exact .openLambda c safety retPc fiber room stack known
  | close keepTop h => exact .close keepTop h
  | restart i c =>
    refine .thread _ (Thread.Drift.trans (.alterScope _ i (fun s => { s with bound := [], loops := ∅ })
      (fun _ => rfl) fun _ _ => List.nodup_nil) ?_)
    exact .aside rfl rfl rfl rfl rfl
  | suspendLambda i head callee found called => exact .suspendLambda i head callee found called
  | suspendFiber i head callee f found called => exact .suspendFiber i head callee f found called
  | resumeLambda id coro retPc found room stack => exact .resumeLambda id coro retPc found room stack
  | resumeFiber f fiber coro retPc found left room stack =>
    exact .resumeFiber f fiber coro retPc found left room stack

theorem Acts.changes (h : Acts careful m n) : Changes careful m n := by
  induction h with
  | refl m => exact .refl m
  | next _ _ act first second => exact (first.trans second).next act.change
  | fork id _ _ ih child => exact .fork id ih child

end Catena
