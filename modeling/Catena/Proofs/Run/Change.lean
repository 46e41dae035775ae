import Catena.Proofs.Registry
import Catena.Proofs.Run.Watch

/-!
# What can happen to a machine

Everything a run does to a machine is one of a few changes (`Change`). Some only touch what is inside
the levels of nesting (`Thread.Drift`, `Shared.Drift`); the others open and close levels, cut them off
as a coroutine and put them back. A computation `Makes` changes if it takes each machine to one that
changes lead to, whatever its outcome. What every change keeps is kept by every run.

The proposition `careful` says that no scope is closed that is the last one left.
-/

namespace Catena

/-- A scope without what can differ while it stays the same level of nesting. -/
def Scope.bare (s : Scope) : Scope :=
  { s with safety := .safe, bound := [], loops := ∅, defers := [] }

/-- A `try:` form without the faults it has collected. -/
def TryFrame.bare (f : TryFrame) : TryFrame := { f with faults := [] }

/-- The threads that were started are still known, with what they left behind. -/
def Store.SameThreads (s s' : Store) : Prop :=
  ∀ (t : Ref) (h : ThreadHandle), s.threads[t]? = some h → s'.threads[t]? = some h

theorem Store.SameThreads.refl (s : Store) : s.SameThreads s := fun _ _ found => found

theorem Store.SameThreads.trans {s s' s'' : Store} (h : s.SameThreads s') (k : s'.SameThreads s'') :
    s.SameThreads s'' :=
  fun t handle found => k t handle (h t handle found)

/-- A thread is started. -/
theorem Store.sameThreads_push (s : Store) (handle : ThreadHandle) :
    s.SameThreads { s with threads := s.threads.push handle } := by
  intro t h found
  have inside := (Array.getElem?_eq_some_iff.1 found).1
  show (s.threads.push handle)[t]? = some h
  rw [Array.getElem?_push, if_neg (Nat.ne_of_lt inside)]
  exact found

theorem Store.SameThreads.of_eq {s s' : Store} (same : s'.threads = s.threads) : s.SameThreads s' :=
  fun _ _ found => same ▸ found

/-- What the threads of an engine share may come to differ in this way: the registry grows, and no
fiber is touched. -/
structure Shared.Drift (s s' : Shared) : Prop where
  config : s'.config = s.config
  registry : s.registry.Grown s'.registry
  fibers : s'.store.fibers = s.store.fibers

/-- A thread may come to differ in this way at the same nesting: no scope or value stack comes or
goes, and no coroutine is added. -/
structure Thread.Drift (t t' : Thread) : Prop where
  scopes : t'.scopes.map Scope.bare = t.scopes.map Scope.bare
  loops : (∀ s ∈ t.scopes, s.loops.keys.Nodup) → ∀ s ∈ t'.scopes, s.loops.keys.Nodup
  heights : t'.valueStacks.size = t.valueStacks.size ∨
    t.valueStacks.size = 0 ∧ t'.valueStacks.size = 1
  /-- Only the stack in use is written to. -/
  lower : ∀ k, k + 1 < t.valueStacks.size → k ≠ t.scope.stack →
    t'.valueStacks[k]? = t.valueStacks[k]?
  /-- The end of a form takes its frame away before the scope is closed. -/
  tries : t'.tries.toList.map TryFrame.bare <+: t.tries.toList.map TryFrame.bare
  coros : ∀ id c, t'.coros.find? id = some c → t.coros.find? id = some c
  cache : ∀ pc imp, t'.cache.find? pc = some imp → t.cache.find? pc = some imp

/-- Changes the fibers there are. -/
def Machine.alterFibers (m : Machine) (f : Array Fiber → Array Fiber) : Machine :=
  { m with shared :=
    { m.shared with store := { m.shared.store with fibers := f m.shared.store.fibers } } }

/-- Whether a thread may open one more scope. -/
def Machine.hasRoom (m : Machine) : Prop :=
  m.thread.scopes.size < m.shared.config.limits.maxScopeDepth

/-- One change of a machine. -/
inductive Change (careful : Prop) (m : Machine) : Machine → Prop
  | shared (s : Shared) (h : m.shared.Drift s) : Change careful m { m with shared := s }
  | thread (t : Thread) (h : m.thread.Drift t) : Change careful m { m with thread := t }
  | newFiber (id : Nat) (target : Value) :
      Change careful m (m.alterFibers (·.push ⟨id, target, .fresh⟩))
  | markFiber (f : Ref) (state : FiberState) (h : ∀ c, state ≠ .suspended c) :
      Change careful m (m.alterFibers (·.modify f fun f => { f with state }))
  /-- A call remembers the implementation it chose. -/
  | remember (imp : Imp) (name : String) (imps : List Imp)
      (known : m.shared.registry.funcs.find? name = some imps) (member : imp ∈ imps) :
      Change careful m
        { m with thread :=
          { m.thread with cache := m.thread.cache.insert m.thread.pc imp } }
  | openBlock (ownStack : Bool) (safety : Safety) (room : m.hasRoom)
      (stack : ownStack = false → m.thread.valueStacks.size ≠ 0) :
      Change careful m { m with thread := m.thread.openBlock ownStack safety }
  | openTry (safety : Safety) (frame : TryFrame) (room : m.hasRoom)
      (h : frame.scope = m.thread.scopes.size) :
      Change careful m
        { m with thread :=
          { m.thread.openBlock true safety with tries := m.thread.tries.push frame } }
  /-- A lambda starts, for a fiber or not. -/
  | openLambda (c : Closure) (safety : Safety) (retPc : Nat) (fiber : Option Ref) (room : m.hasRoom)
      (stack : m.thread.valueStacks.size ≠ 0)
      (known : ∀ f, fiber = some f → f < m.shared.store.fibers.size) :
      Change careful m
        { m with thread :=
          { m.thread.openLambda c safety retPc with
            scopes := m.thread.scopes.push
              { Scope.lambda c safety (m.thread.valueStacks.size - 1) retPc m.thread.env with
                fiber } } }
  | close (keepTop : Bool) (h : careful → 1 < m.thread.scopes.size) :
      Change careful m { m with thread := (m.thread.closeScope keepTop).2 }
  /-- A lambda is left in the middle. -/
  | suspendLambda (i : Nat) (head : Scope) (callee : Closure)
      (found : m.thread.scopes[i]? = some head) (called : head.callee = some callee) :
      Change careful m
        { m with thread :=
          let (coro, t) := m.thread.cut i head callee.body.id
          { t with coros := t.coros.insert coro.lambda coro } }
  /-- A lambda that runs in a fiber is left in the middle. -/
  | suspendFiber (i : Nat) (head : Scope) (callee : Closure) (f : Ref)
      (found : m.thread.scopes[i]? = some head) (called : head.callee = some callee) :
      Change careful m
        ({ m with thread := (m.thread.cut i head callee.body.id).2 }.alterFibers
          (·.modify f fun fiber =>
            { fiber with state := .suspended (m.thread.cut i head callee.body.id).1 }))
  /-- A lambda that was left in the middle goes on. -/
  | resumeLambda (id : Nat) (coro : Coroutine) (retPc : Nat)
      (found : m.thread.coros.find? id = some coro)
      (room : m.thread.scopes.size + coro.scopes.size ≤ m.shared.config.limits.maxScopeDepth)
      (stack : m.thread.valueStacks.size ≠ 0) :
      Change careful m
        { m with thread :=
          { m.thread with coros := m.thread.coros.erase id }.graft coro retPc none }
  /-- A fiber that was left in the middle goes on. -/
  | resumeFiber (f : Ref) (fiber : Fiber) (coro : Coroutine) (retPc : Nat)
      (found : m.shared.store.fibers[f]? = some fiber) (left : fiber.state = .suspended coro)
      (room : m.thread.scopes.size + coro.scopes.size ≤ m.shared.config.limits.maxScopeDepth)
      (stack : m.thread.valueStacks.size ≠ 0) :
      Change careful m
        ({ m with thread := m.thread.graft coro retPc (some f) }.alterFibers
          (·.modify f fun f => { f with state := .running }))

/-- What changes one after the other lead to. Another thread may run in between, which starts as a
copy of the present one and gives way to it again. -/
inductive Changes (careful : Prop) : Machine → Machine → Prop
  | refl (m : Machine) : Changes careful m m
  | next {m n p : Machine} : Changes careful m n → Change careful n p → Changes careful m p
  | fork {m n p : Machine} (id : Nat) : Changes careful m n →
      Changes careful { n with thread := n.thread.fork id } p →
      Changes careful m { p with thread := n.thread }

variable {careful : Prop}

theorem Change.changes {m n : Machine} (h : Change careful m n) : Changes careful m n :=
  .next (.refl m) h

theorem Changes.trans {m n p : Machine} (h : Changes careful m n) (k : Changes careful n p) :
    Changes careful m p := by
  induction k with
  | refl => exact h
  | next _ step ih => exact (ih h).next step
  | fork id _ child ih => exact .fork id (ih h) child

theorem Shared.Drift.refl (s : Shared) : s.Drift s := ⟨rfl, .refl _, rfl⟩

theorem Shared.Drift.trans {a b c : Shared} (h : a.Drift b) (k : b.Drift c) : a.Drift c :=
  ⟨k.config.trans h.config, h.registry.trans k.registry, k.fibers.trans h.fibers⟩

theorem Thread.Drift.refl (t : Thread) : t.Drift t :=
  ⟨rfl, fun h => h, .inl rfl, fun _ _ _ => rfl, List.prefix_rfl, fun _ _ h => h, fun _ _ h => h⟩

theorem Thread.Drift.scope_stack {t t' : Thread} (h : t.Drift t') :
    t'.scope.stack = t.scope.stack := by
  have bare : t'.scopes.back?.map Scope.bare = t.scopes.back?.map Scope.bare := by
    rw [← Array.back?_map, ← Array.back?_map, h.scopes]
  have stack := congrArg (fun s => (s.map Scope.stack).getD 0) bare
  have same (s : Option Scope) :
      ((s.map Scope.bare).map Scope.stack).getD 0 = (s.getD default).stack := by cases s <;> rfl
  rwa [same, same] at stack

theorem Thread.Drift.trans {a b c : Thread} (h : a.Drift b) (k : b.Drift c) : a.Drift c where
  scopes := k.scopes.trans h.scopes
  loops := fun nodup => k.loops (h.loops nodup)
  heights := by
    rcases h.heights with h | ⟨h, h'⟩ <;> rcases k.heights with k | ⟨k, k'⟩ <;> omega
  lower := fun i inside stack => by
    have inside' : i + 1 < b.valueStacks.size := by
      rcases h.heights with h | ⟨h, -⟩ <;> omega
    have stack' : i ≠ b.scope.stack := h.scope_stack ▸ stack
    rw [k.lower i inside' stack', h.lower i inside stack]
  tries := k.tries.trans h.tries
  coros := fun id c found => h.coros id c (k.coros id c found)
  cache := fun pc imp found => h.cache pc imp (k.cache pc imp found)

/-! ## What stays at the same nesting -/

namespace Thread.Drift

/-- Nothing that counts is touched. -/
theorem aside {t t' : Thread} (scopes : t'.scopes = t.scopes)
    (heights : t'.valueStacks = t.valueStacks) (tries : t'.tries = t.tries)
    (coros : t'.coros = t.coros) (cache : t'.cache = t.cache) : t.Drift t' where
  scopes := by rw [scopes]
  loops := by rw [scopes]; exact fun h => h
  heights := .inl (by rw [heights])
  lower := by rw [heights]; exact fun _ _ _ => rfl
  tries := tries ▸ List.prefix_rfl
  coros := by rw [coros]; exact fun _ _ h => h
  cache := by rw [cache]; exact fun _ _ h => h

theorem getElem?_modify_ne {γ : Type} (xs : Array γ) (f : γ → γ) {i k : Nat} (h : k ≠ i) :
    (xs.modify i f)[k]? = xs[k]? := by
  rw [Array.getElem?_modify, if_neg h.symm]

theorem modifyStack (t : Thread) (f : Array Value → Array Value) : t.Drift (t.modifyStack f) := by
  unfold Thread.modifyStack
  split
  · rename_i h
    have none : t.valueStacks.size = 0 := by simpa using h
    exact ⟨rfl, fun h => h, .inr ⟨none, rfl⟩, fun _ inside _ => by omega, List.prefix_rfl,
      fun _ _ h => h, fun _ _ h => h⟩
  · refine ⟨rfl, fun h => h, .inl (by simp), fun k inside _ => ?_, List.prefix_rfl,
      fun _ _ h => h, fun _ _ h => h⟩
    exact getElem?_modify_ne _ _ (by omega)

theorem map_modify {γ δ : Type} (xs : Array γ) (i : Nat) (f : γ → γ) (g : γ → δ)
    (h : ∀ x, g (f x) = g x) : (xs.modify i f).map g = xs.map g := by
  apply Array.ext_getElem?
  intro j
  simp only [Array.getElem?_map, Array.getElem?_modify]
  split
  · cases xs[j]? <;> simp [h]
  · rfl

/-- What a scope bound, its loops and its deferred calls may change. -/
theorem alterScope (t : Thread) (i : Nat) (f : Scope → Scope) (bare : ∀ s, (f s).bare = s.bare)
    (loops : ∀ s, s.loops.keys.Nodup → (f s).loops.keys.Nodup) :
    t.Drift { t with scopes := t.scopes.modify i f } where
  scopes := map_modify _ _ _ _ bare
  loops := by
    intro nodup s member
    obtain ⟨j, bound, rfl⟩ := Array.mem_iff_getElem.1 member
    rw [Array.getElem_modify]
    have inside : j < t.scopes.size := by simpa using bound
    have old := nodup t.scopes[j] (Array.getElem_mem inside)
    split
    · exact loops _ old
    · exact old
  heights := .inl rfl
  lower := fun _ _ _ => rfl
  tries := List.prefix_rfl
  coros := fun _ _ h => h
  cache := fun _ _ h => h

theorem modifyScope (t : Thread) (f : Scope → Scope) (bare : ∀ s, (f s).bare = s.bare)
    (loops : ∀ s, s.loops.keys.Nodup → (f s).loops.keys.Nodup) : t.Drift (t.modifyScope f) :=
  alterScope t _ f bare loops

theorem bind (t : Thread) (name : String) (v : Value) : t.Drift (t.bind name v) := by
  have scopes := alterScope { t with env := t.env.insert name v } (t.scopes.size - 1)
    (fun s => { s with bound := (name, t.env.find? name) :: s.bound }) (fun _ => rfl) fun _ h => h
  have env : t.Drift { t with env := t.env.insert name v } := aside rfl rfl rfl rfl rfl
  exact env.trans scopes

theorem alterTries (t : Thread) (i : Nat) (f : TryFrame → TryFrame)
    (bare : ∀ e, (f e).bare = e.bare) : t.Drift { t with tries := t.tries.modify i f } where
  scopes := rfl
  loops := fun h => h
  heights := .inl rfl
  lower := fun _ _ _ => rfl
  tries := by
    have same : (t.tries.modify i f).toList.map TryFrame.bare = t.tries.toList.map TryFrame.bare := by
      rw [← Array.toList_map, map_modify _ _ _ _ bare, Array.toList_map]
    exact same ▸ List.prefix_rfl
  coros := fun _ _ h => h
  cache := fun _ _ h => h

theorem popTries (t : Thread) : t.Drift { t with tries := t.tries.pop } where
  scopes := rfl
  loops := fun h => h
  heights := .inl rfl
  lower := fun _ _ _ => rfl
  tries := by
    rw [Array.toList_pop, List.map_dropLast]
    exact List.dropLast_prefix _
  coros := fun _ _ h => h
  cache := fun _ _ h => h

theorem eraseCoros (t : Thread) (id : Nat) : t.Drift { t with coros := t.coros.erase id } where
  scopes := rfl
  loops := fun h => h
  heights := .inl rfl
  lower := fun _ _ _ => rfl
  tries := List.prefix_rfl
  coros := fun k c h => by
    rw [Dict.find?_erase] at h
    split at h <;> simp_all
  cache := fun _ _ h => h

theorem eraseCache (t : Thread) (pc : Nat) : t.Drift { t with cache := t.cache.erase pc } where
  scopes := rfl
  loops := fun h => h
  heights := .inl rfl
  lower := fun _ _ _ => rfl
  tries := List.prefix_rfl
  coros := fun _ _ h => h
  cache := fun k c h => by
    rw [Dict.find?_erase] at h
    split at h <;> simp_all

theorem alterStack (t : Thread) (f : Array Value → Array Value) :
    t.Drift { t with valueStacks := t.valueStacks.modify t.scope.stack f } :=
  ⟨rfl, fun h => h, .inl (by simp), fun _ _ stack => getElem?_modify_ne _ _ stack,
    List.prefix_rfl, fun _ _ h => h, fun _ _ h => h⟩

end Thread.Drift

/-! ## The closing of a scope -/

/-- The value stacks that the closing of the innermost scope leaves. -/
def Thread.stacksLeft (t : Thread) (keepTop : Bool) : Array (Array Value) :=
  if t.scope.ownsStack then
    let below := t.valueStacks.pop
    match if keepTop then t.top? else none with
    | some v => if below.isEmpty then #[#[v]] else below.modify (below.size - 1) (·.push v)
    | none => below
  else t.valueStacks

theorem Thread.stack_modifyStack (t : Thread) (f : Array Value → Array Value) :
    (t.modifyStack f).stack = f t.stack := by
  unfold Thread.modifyStack Thread.stack
  split
  · rename_i empty
    rw [Array.isEmpty_iff.1 empty]
    rfl
  · rename_i some
    have inside : t.valueStacks.size - 1 < t.valueStacks.size := by
      simp only [Array.isEmpty_iff, ← Array.size_eq_zero_iff] at some
      omega
    simp [Array.back?, inside, Array.getElem_modify]

theorem Thread.top?_push (t : Thread) (v : Value) : (t.push v).top? = some v := by
  rw [top?, push, stack_modifyStack, Array.back?_push]

theorem Thread.closeScope_eq (t : Thread) (keepTop : Bool) :
    (t.closeScope keepTop).2 = { t with
      scopes := t.scopes.pop
      valueStacks := t.stacksLeft keepTop
      env := match t.scope.callerEnv with
        | some env => env
        | none => t.scope.unbind t.env
      tries := t.tries.filter fun f => f.scope < t.scopes.pop.size
      params := t.params.filter fun p => p.scopes ≤ t.scopes.pop.size } := by
  unfold Thread.closeScope Thread.stacksLeft
  dsimp only
  split
  · rw [show Thread.top? { t with scopes := t.scopes.pop } = t.top? from rfl]
    generalize (if keepTop = true then t.top? else none) = kept
    cases kept with
    | none => rfl
    | some v =>
      unfold Thread.push Thread.modifyStack
      dsimp only
      split <;> rfl
  · rfl

theorem Change.grown {m n : Machine} (h : Change careful m n) :
    m.shared.registry.Grown n.shared.registry := by
  cases h with
  | shared s h => exact h.registry
  | _ => exact .refl _

theorem Changes.grown {m n : Machine} (h : Changes careful m n) :
    m.shared.registry.Grown n.shared.registry := by
  induction h with
  | refl => exact .refl _
  | next _ step ih => exact ih.trans step.grown
  | fork id _ _ ih child => exact ih.trans child

end Catena
