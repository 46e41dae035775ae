import Catena.Proofs.Caller
import Catena.Proofs.Nested

/-!
# Leaving a lambda in the middle and going on with it

`yield` gives its caller back the thread that it called from, and the next call of the lambda, or of
the fiber it runs in, puts on top of the thread it is made from all that was on top of the first one.
-/

namespace Catena

namespace Thread

/-- The scopes from the `i`-th on have one safety level, and no bracket of a generic type is open
inside them. -/
structure Even (t : Thread) (i : Nat) (head : Scope) : Prop where
  safety : ∀ s ∈ t.scopes.toList.drop i, s.safety = head.safety
  params : ∀ p ∈ t.params, p.scopes ≤ i

/-- What is left of thread `t` when the lambda of scope `i`, which is `head`, has been left in the
middle: everything below the scope, and the value stack the lambda shared with its caller. -/
structure Leaves (t : Thread) (i : Nat) (head : Scope) (u : Thread) : Prop where
  scopes : u.scopes.toList = t.scopes.toList.take i
  shared : head.stack < t.valueStacks.size
  valueStacks : u.valueStacks.toList = t.valueStacks.toList.take (head.stack + 1)
  tries : u.tries.toList = t.tries.toList.filter fun f => f.scope < i
  env : head.callerEnv = some u.env
  rest : u = { t with
    scopes := u.scopes, valueStacks := u.valueStacks, tries := u.tries, env := u.env,
    coros := u.coros }

/-- Thread `v` is thread `u` with all that thread `t` had from scope `i` on, which is `head`, on top:
the lambda works on the stack in use, and comes back to `retPc` and the variables of `u`. -/
structure Continues (t : Thread) (i : Nat) (head : Scope) (u : Thread) (retPc : Nat)
    (fiber : Option Ref) (v : Thread) : Prop where
  above : ∀ s ∈ t.scopes.toList.drop i, head.stack ≤ s.stack
  scopes : v.scopes.toList = u.scopes.toList ++
    { head with stack := u.valueStacks.size - 1, callerEnv := some u.env, retPc, fiber } ::
      (t.scopes.toList.drop (i + 1)).map fun s =>
        { s with stack := u.valueStacks.size - 1 + (s.stack - head.stack) }
  valueStacks : v.valueStacks.toList =
    u.valueStacks.toList ++ t.valueStacks.toList.drop (head.stack + 1)
  tries : v.tries.toList = u.tries.toList ++ (t.tries.toList.filter fun f => i ≤ f.scope).map
    fun f => { f with scope := u.scopes.size + (f.scope - i) }
  env : v.env = t.env
  rest : v = { u with
    scopes := v.scopes, valueStacks := v.valueStacks, tries := v.tries, env := v.env,
    coros := v.coros }

variable {t u : Thread} {i : Nat} {head : Scope} {callee : Closure}

/-- What is kept for another call of the lambda is no part of what is left. -/
theorem Leaves.withCoros (h : t.Leaves i head u) (coros : Dict Nat Coroutine) :
    t.Leaves i head { u with coros } where
  scopes := h.scopes
  shared := h.shared
  valueStacks := h.valueStacks
  tries := h.tries
  env := h.env
  rest := congrArg (fun u : Thread => { u with coros }) h.rest

/-- Scopes of one safety level take all variables along. -/
theorem keptEnv_eq (env : Env) {scopes : Array Scope}
    (even : ∀ s ∈ scopes.toList, s.safety = head.safety) : keptEnv env head scopes = env := by
  have kept (outward : List Scope) (even : ∀ s ∈ outward, s.safety = head.safety) :
      outward.foldl (fun env s => if s.safety = head.safety then env else s.unbind env) env =
        env := by
    induction outward with
    | nil => rfl
    | cons s rest ih =>
      rw [List.foldl_cons, if_pos (even s List.mem_cons_self)]
      exact ih fun s member => even s (List.mem_cons_of_mem _ member)
  exact kept _ fun s member => even s (List.mem_reverse.1 member)

theorem Linked.cut_leaves (h : t.Linked) (found : t.scopes[i]? = some head)
    (called : head.callee = some callee) (even : t.Even i head) (lambda : Nat) :
    t.Leaves i head (t.cut i head lambda).2 where
  scopes := extract_lower _ _
  shared := h.stack_lt found
  valueStacks := extract_lower _ _
  tries := by
    rw [cut, extract_lower, Linked.take_findIdx h.linked.order]
    rfl
  env := by
    have member := List.mem_of_getElem? (Array.getElem?_toList.trans found)
    have saved := h.called head member
    rw [called_isLambda called, Option.isSome_iff_exists] at saved
    obtain ⟨env, saved⟩ := saved
    rw [cut, saved]
    rfl
  rest := by
    have closed : t.params.filter (fun p => p.scopes ≤ i) = t.params :=
      List.filter_eq_self.2 fun p member => decide_eq_true (even.params p member)
    rw [cut, closed]

theorem Linked.graft_continues (h : t.Linked) (found : t.scopes[i]? = some head)
    (even : t.Even i head) (lambda retPc : Nat) (fiber : Option Ref) :
    t.Continues i head u retPc fiber (u.graft (t.cut i head lambda).1 retPc fiber) where
  above := fun s member => by
    obtain ⟨k, bound, rfl⟩ := List.getElem_of_mem member
    have inside := List.getElem?_eq_getElem bound
    rw [List.getElem?_drop, Array.getElem?_toList] at inside
    exact h.stack_le (Nat.le_add_right i k) found inside
  scopes := by
    rw [graft_scopes (cut_scopes found lambda), List.map_map]
    simp only [Nat.zero_add, Function.comp_def, Nat.add_comm]
  valueStacks := by
    rw [Thread.graft, Array.toList_append, cut, extract_upper]
  tries := by
    have cut_tries : (t.cut i head lambda).1.tries.toList =
        (t.tries.toList.filter fun f => i ≤ f.scope).map fun f => { f with scope := f.scope - i } := by
      rw [← Linked.drop_findIdx h.linked.order i, ← extract_upper]
      simp [cut]
    rw [Thread.graft, Array.toList_append, Array.toList_map, cut_tries, List.map_map]
    simp only [Function.comp_def, Nat.add_comm]
  env := by
    refine keptEnv_eq t.env fun s member => even.safety s ?_
    rwa [extract_upper] at member
  rest := rfl

/-- Cutting off what was entered comes back to where it was entered from. -/
theorem Entered.back {a b : Thread} {s : Scope} (entered : a.Entered b s) (linked : t.Linked)
    (below : b.Below a.scopes.size s.stack t) (found : t.scopes[a.scopes.size]? = some head)
    (same : head.bare = s.bare) (lambda : Nat) : a.Back (t.cut a.scopes.size head lambda).2 := by
  have stack : head.stack = s.stack := (congrArg Scope.stack same : head.bare.stack = s.bare.stack)
  have env : head.callerEnv = s.callerEnv :=
    (congrArg Scope.callerEnv same : head.bare.callerEnv = s.bare.callerEnv)
  have lt := linked.stack_lt found
  have height := entered.stack
  constructor
  · have scopes := congrArg (List.take a.scopes.size) below.scopes
    rw [← List.map_take, ← List.map_take, List.take_take, List.take_take,
      Nat.min_eq_left (Nat.le_succ _), entered.scopes] at scopes
    rw [cut, extract_lower]
    exact scopes
  · rw [cut, Array.size_extract]
    omega
  · intro k inside
    have there := entered.valueStacks k (by omega)
    have kept := below.valueStacks k (by omega)
    rw [cut, Array.getElem?_extract, if_pos (by omega), Nat.zero_add]
    exact kept.trans there
  · have tries := below.tries
    rw [entered.tries] at tries
    rw [cut, extract_lower, Linked.take_findIdx linked.linked.order]
    exact tries
  · rw [cut, env, entered.env]
    rfl

end Thread

/-! ## Calls that go on -/

/-- There is room for so many scopes more, and a value stack for them to work on. -/
structure Machine.Takes (p : Machine) (scopes : Nat) : Prop where
  room : p.thread.scopes.size + scopes ≤ p.shared.config.limits.maxScopeDepth
  stack : p.thread.valueStacks.size ≠ 0

namespace Run

variable {p : Machine} {coro : Coroutine}

theorem resume_ok (retPc : Nat) (fiber : Option Ref) (takes : p.Takes coro.scopes.size) :
    resume coro retPc fiber p =
      .ok (.jump coro.pc) { p with thread := p.thread.graft coro retPc fiber } := by
  have some_ : ¬ p.thread.valueStacks.isEmpty = true := by
    rw [Array.isEmpty_iff_size_eq_zero]
    exact takes.stack
  have ready : checkStack p = .ok () p := by
    rw [checkStack, bind_apply, ask]
    dsimp only
    rw [if_neg some_]
    rfl
  simp only [resume, maxScopes, bind_apply, askShared, ask]
  rw [if_neg (Nat.not_lt.2 takes.room)]
  simp only [bind_apply, ready]
  rfl

/-- The call of a lambda left in the middle goes on with it. -/
theorem enterLambda_ok {c : Closure} (safety : Safety) (retPc : Nat)
    (found : p.thread.coros.find? c.body.id = some coro) (takes : p.Takes coro.scopes.size) :
    ∃ s, enterLambda c safety retPc p = .ok (.jump coro.pc)
      ⟨s, { p.thread with coros := p.thread.coros.erase c.body.id }.graft coro retPc none⟩ := by
  let s := p.shared.note .debug Phase.vm.target fun _ => s!"resuming lambda#{c.body.id}"
  have room : Machine.Takes ⟨s, { p.thread with coros := p.thread.coros.erase c.body.id }⟩
      coro.scopes.size := by
    refine ⟨?_, takes.stack⟩
    rw [(note_drift p.shared _ _ _ _).config]
    exact takes.room
  refine ⟨s, ?_⟩
  rw [enterLambda, bind_apply, ask]
  dsimp only
  rw [found]
  exact resume_ok retPc none room

/-- The call of a fiber left in the middle goes on with it. -/
theorem enterFiber_ok {f : Ref} {fiber : Fiber} (retPc : Nat)
    (found : p.shared.store.fibers[f]? = some fiber) (left : fiber.state = .suspended coro)
    (takes : p.Takes coro.scopes.size) :
    ∃ s, s.store.fibers = p.shared.store.fibers.modify f (fun f => { f with state := .running }) ∧
      enterFiber f retPc p = .ok (.control (.jump coro.pc))
        ⟨s, p.thread.graft coro retPc (some f)⟩ := by
  let q := p.alterFibers (·.modify f fun f => { f with state := .running })
  let s := q.shared.note .debug Phase.vm.target fun _ => s!"resuming fiber#{fiber.id}"
  have drift : q.shared.Drift s := note_drift _ _ _ _ _
  have room : Machine.Takes ⟨s, p.thread⟩ coro.scopes.size := by
    refine ⟨?_, takes.stack⟩
    rw [drift.config]
    exact takes.room
  refine ⟨s, drift.fibers, ?_⟩
  rw [enterFiber, bind_apply, askStore, askShared]
  dsimp only
  rw [found, Option.getD_some, left]
  dsimp only
  have first : setFiber f .running p = .ok () q := rfl
  have second : note .debug (fun _ => s!"resuming fiber#{fiber.id}") q = .ok () ⟨s, p.thread⟩ := rfl
  rw [resumeFiber, bind_apply, first]
  dsimp only
  rw [bind_apply, second]
  dsimp only
  rw [bind_apply, attempt_ok (resume_ok retPc (some f) room)]
  rfl

variable {m : Machine} {i : Nat} {head : Scope} {lambda : Nat}

/-- What was cut off of a thread goes on in the next call of the lambda. -/
theorem enterLambda_continues {c : Closure} (linked : m.thread.Linked)
    (found : m.thread.scopes[i]? = some head) (even : m.thread.Even i head)
    (stored : p.thread.coros.find? c.body.id = some (m.thread.cut i head lambda).1)
    (takes : p.Takes (m.thread.scopes.size - i)) (safety : Safety) (retPc : Nat) :
    ∃ q, enterLambda c safety retPc p = .ok (.jump (m.thread.pc + 1)) q ∧
      m.thread.Continues i head p.thread retPc none q.thread := by
  have size : (m.thread.cut i head lambda).1.scopes.size = m.thread.scopes.size - i := by
    simp [Thread.cut]
  obtain ⟨s, goesOn⟩ := enterLambda_ok safety retPc stored (size.symm ▸ takes)
  obtain ⟨above, scopes, valueStacks, tries, env, rest⟩ := linked.graft_continues
    (u := { p.thread with coros := p.thread.coros.erase c.body.id }) found even lambda retPc none
  exact ⟨_, goesOn, above, scopes, valueStacks, tries, env, rfl⟩

/-- What was cut off of a thread goes on in the next call of the fiber. -/
theorem enterFiber_continues {f : Ref} {fiber : Fiber} (linked : m.thread.Linked)
    (found : m.thread.scopes[i]? = some head) (even : m.thread.Even i head)
    (stored : p.shared.store.fibers[f]? = some fiber)
    (left : fiber.state = .suspended (m.thread.cut i head lambda).1)
    (takes : p.Takes (m.thread.scopes.size - i)) (retPc : Nat) :
    ∃ q, enterFiber f retPc p = .ok (.control (.jump (m.thread.pc + 1))) q ∧
      m.thread.Continues i head p.thread retPc (some f) q.thread := by
  have size : (m.thread.cut i head lambda).1.scopes.size = m.thread.scopes.size - i := by
    simp [Thread.cut]
  obtain ⟨s, -, goesOn⟩ := enterFiber_ok retPc stored left (size.symm ▸ takes)
  exact ⟨_, goesOn, linked.graft_continues found even lambda retPc (some f)⟩

end Run

end Catena
