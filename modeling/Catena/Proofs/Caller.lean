import Catena.Proofs.Nesting

/-!
# What is below a lambda

While the scope of a lambda is open, what is below it stays as it was when the lambda was called: its
scopes, the value stacks below the one it shares, the `try:` forms, and the variables to come back to
(`Stays.keeps_below`). A fiber that runs in a scope is one of those there are.
-/

namespace Catena

variable {careful : Prop} {m n : Machine}

/-! ## Below a scope -/

/-- Everything below scope `i`, which works on stack `height`, and the part of the scope itself are
the same in both threads, save for `try:` forms that are over. -/
structure Thread.Below (i height : Nat) (t t' : Thread) : Prop where
  scopes : (t'.scopes.toList.take (i + 1)).map Scope.bare =
    (t.scopes.toList.take (i + 1)).map Scope.bare
  valueStacks : ∀ k < height, t'.valueStacks[k]? = t.valueStacks[k]?
  tries : (Linked.framesBelow t'.tries.toList i).map TryFrame.bare <+:
    (Linked.framesBelow t.tries.toList i).map TryFrame.bare

namespace Thread.Below

variable {t t' u : Thread} {i height : Nat}

theorem refl (i height : Nat) (t : Thread) : t.Below i height t :=
  ⟨rfl, fun _ _ => rfl, List.prefix_rfl⟩

theorem trans (h : t.Below i height t') (k : t'.Below i height u) : t.Below i height u :=
  ⟨k.scopes.trans h.scopes, fun j lt => (k.valueStacks j lt).trans (h.valueStacks j lt),
    k.tries.trans h.tries⟩

theorem map_framesBelow (frames : List TryFrame) (i : Nat) :
    (Linked.framesBelow frames i).map TryFrame.bare =
      Linked.framesBelow (frames.map TryFrame.bare) i := by
  rw [Linked.framesBelow, Linked.framesBelow, List.filter_map]
  rfl

theorem drift (h : t.Drift t') (lower : ∀ k < height, k + 1 < t.valueStacks.size ∧ k ≠ t.scope.stack) :
    t.Below i height t' where
  scopes := by
    have bare : t'.scopes.toList.map Scope.bare = t.scopes.toList.map Scope.bare := by
      simpa using congrArg Array.toList h.scopes
    rw [List.map_take, List.map_take, bare]
  valueStacks := fun k lt => h.lower k (lower k lt).1 (lower k lt).2
  tries := by
    rw [map_framesBelow, map_framesBelow]
    exact h.tries.filter _

/-- Levels are put on top. -/
theorem grow (inside : i < t.scopes.size) (lower : height ≤ t.valueStacks.size)
    {upper : Array Scope} {more : Array (Array Value)} {frames : Array TryFrame}
    (scopes : t'.scopes = t.scopes ++ upper) (valueStacks : t'.valueStacks = t.valueStacks ++ more)
    (tries : t'.tries = t.tries ++ frames) (above : ∀ f ∈ frames, t.scopes.size ≤ f.scope) :
    t.Below i height t' where
  scopes := by
    rw [scopes, Array.toList_append, List.take_append_of_le_length]
    rw [Array.length_toList]
    exact inside
  valueStacks := fun k lt => by
    rw [valueStacks, Array.getElem?_append_left (by omega)]
  tries := by
    have none : Linked.framesBelow frames.toList i = [] := by
      refine List.filter_eq_nil_iff.2 fun f member => ?_
      have high := above f (Array.mem_def.2 member)
      simp only [decide_eq_true_eq]
      omega
    rw [tries, Array.toList_append, Linked.framesBelow, List.filter_append]
    rw [Linked.framesBelow] at none
    rw [none, List.append_nil]
    exact List.prefix_rfl

/-- Levels above are taken off. -/
theorem shrink {k : Nat} (inside : i < k) (scopes : t'.scopes.toList = t.scopes.toList.take k)
    (valueStacks : ∀ k < height, t'.valueStacks[k]? = t.valueStacks[k]?)
    (tries : t'.tries.toList = Linked.framesBelow t.tries.toList k) : t.Below i height t' where
  scopes := by
    rw [scopes, List.take_take, Nat.min_eq_left inside]
  valueStacks := valueStacks
  tries := by
    have same : Linked.framesBelow t'.tries.toList i = Linked.framesBelow t.tries.toList i := by
      rw [tries, Linked.framesBelow, Linked.framesBelow, Linked.framesBelow, List.filter_filter]
      refine List.filter_congr fun f _ => ?_
      rw [Bool.eq_iff_iff]
      simp only [Bool.and_eq_true, decide_eq_true_eq]
      omega
    exact same ▸ List.prefix_rfl

end Thread.Below

/-- The value stacks below the one in use, when the innermost scope is closed. -/
theorem Thread.closeScope_lower (t : Thread) (keepTop : Bool) {k : Nat}
    (lt : k + 1 + (if t.scope.ownsStack then 1 else 0) < t.valueStacks.size) :
    (t.closeScope keepTop).2.valueStacks[k]? = t.valueStacks[k]? := by
  have pushed (u : Thread) (v : Value) (lt : k + 1 < u.valueStacks.size) :
      (u.push v).valueStacks[k]? = u.valueStacks[k]? := by
    have some_ : ¬ u.valueStacks.isEmpty = true := by
      rw [Array.isEmpty_iff_size_eq_zero]
      omega
    rw [push, modifyStack, if_neg some_]
    exact Drift.getElem?_modify_ne _ _ (by omega)
  unfold closeScope
  dsimp only
  split
  next owns =>
    rw [if_pos owns] at lt
    have popped : t.valueStacks.pop[k]? = t.valueStacks[k]? := by
      rw [Array.getElem?_pop, if_pos (by omega)]
    split
    next v kept =>
      refine (pushed _ v ?_).trans popped
      rw [Array.size_pop]
      omega
    next => exact popped
  next => rfl

/-! ## While a scope is open -/

/-- The topmost scope works on the topmost stack. -/
theorem Thread.Linked.top {t : Thread} (h : t.Linked) (some_ : t.scopes.size ≠ 0) :
    t.scope.stack + 1 = t.valueStacks.size := by
  have last : t.scopes.toList.getLast? = some t.scope := by
    rw [Array.getLast?_toList, Thread.scope, Array.back?_eq_getElem?,
      Array.getElem?_eq_getElem (by omega)]
    rfl
  exact h.linked.top _ last

/-- A scope works on no stack above the topmost one. -/
theorem Thread.Linked.stack_le {t : Thread} (h : t.Linked) {i j : Nat} {s u : Scope} (le : i ≤ j)
    (hi : t.scopes[i]? = some s) (hj : t.scopes[j]? = some u) : s.stack ≤ u.stack :=
  Catena.Linked.stack_mono h.linked.chain le (Array.getElem?_toList.trans hi)
    (Array.getElem?_toList.trans hj)

/-- A scope works on the stack of the one below it, or the next. -/
theorem Thread.Linked.stack_succ {t : Thread} (h : t.Linked) {j : Nat} {s u : Scope}
    (hs : t.scopes[j]? = some s) (hu : t.scopes[j + 1]? = some u) :
    u.stack = s.stack + if u.ownsStack then 1 else 0 := by
  rw [← Array.getElem?_toList] at hs hu
  obtain ⟨bound, rfl⟩ := List.getElem?_eq_some_iff.1 hu
  obtain ⟨bound', rfl⟩ := List.getElem?_eq_some_iff.1 hs
  exact (Scope.above_iff _ _).1 (List.isChain_iff_getElem.1 h.linked.chain j bound)

/-- The stack of a scope is well below the one in use if a scope above it is closed. -/
theorem Thread.Linked.stack_lt_of_close {t : Thread} (h : t.Linked) {i : Nat} {s : Scope}
    (found : t.scopes[i]? = some s) (above : i + 1 < t.scopes.size) :
    s.stack + (if t.scope.ownsStack then 1 else 0) < t.valueStacks.size := by
  obtain ⟨j, size⟩ : ∃ j, t.scopes.size = j + 2 := ⟨t.scopes.size - 2, by omega⟩
  have under := Array.getElem?_eq_getElem (show j < t.scopes.size by omega)
  have last : t.scopes[j + 1]? = some t.scope := by
    rw [Thread.scope, Array.back?_eq_getElem?, size, Nat.add_sub_cancel (m := 1)]
    rw [Array.getElem?_eq_getElem (show j + 1 < t.scopes.size by omega)]
    rfl
  have le := h.stack_le (show i ≤ j by omega) found under
  have next := h.stack_succ under last
  have top := h.top (by omega)
  omega

/-- A lambda further up is cut off. -/
theorem Thread.Below.cut {t t' : Thread} (h : t.Linked) {i j : Nat} {s head : Scope}
    (found : t.scopes[i]? = some s) (found' : t.scopes[j]? = some head) (lambda : Nat)
    (scopes : t'.scopes = (t.cut j head lambda).2.scopes)
    (valueStacks : t'.valueStacks = (t.cut j head lambda).2.valueStacks)
    (tries : t'.tries = (t.cut j head lambda).2.tries) (inside : i < t'.scopes.size) :
    t.Below i s.stack t' := by
  have above : i < j := by
    rw [scopes, Thread.cut, Array.size_extract] at inside
    omega
  refine .shrink above ?_ (fun k below => ?_) ?_
  · rw [scopes, Thread.cut, Thread.extract_lower]
  · have le := h.stack_le (Nat.le_of_lt above) found found'
    have lt := h.stack_lt found'
    rw [valueStacks, Thread.cut, Array.getElem?_extract, if_pos (by omega), Nat.zero_add]
  · rw [tries, Thread.cut, Thread.extract_lower, Linked.take_findIdx h.linked.order]

/-- A change that leaves a scope open leaves everything below it as it is. -/
theorem Change.keeps_below (h : Change careful m n) (linked : m.Linked) {i : Nat} {s : Scope}
    (found : m.thread.scopes[i]? = some s) (inside : i < n.thread.scopes.size) :
    m.thread.Below i s.stack n.thread := by
  have open_ := (Array.getElem?_eq_some_iff.1 found).1
  have lt := linked.thread.stack_lt found
  have low : s.stack ≤ m.thread.valueStacks.size := Nat.le_of_lt lt
  cases h with
  | shared _ _ => exact .refl _ _ _
  | thread t drift =>
    refine .drift drift fun k below => ?_
    have top := linked.thread.top (by omega)
    omega
  | newFiber _ _ => exact .refl _ _ _
  | markFiber _ _ _ => exact .refl _ _ _
  | remember imp name imps known member => exact ⟨rfl, fun _ _ => rfl, List.prefix_rfl⟩
  | openBlock ownStack safety room stack =>
    cases ownStack with
    | true =>
      exact .grow open_ low Array.push_eq_append Array.push_eq_append
        (Array.append_empty).symm nofun
    | false =>
      exact .grow open_ low Array.push_eq_append (Array.append_empty).symm
        (Array.append_empty).symm nofun
  | openTry safety frame room scope =>
    refine .grow open_ low Array.push_eq_append Array.push_eq_append Array.push_eq_append
      fun f member => ?_
    rw [Array.mem_singleton.1 member]
    exact scope.ge
  | openLambda c safety retPc fiber room stack known =>
    exact .grow open_ low Array.push_eq_append (Array.append_empty).symm
      (Array.append_empty).symm nofun
  | close keepTop last =>
    obtain ⟨scopes, tries, -, -⟩ := Thread.closeScope_rest m.thread keepTop
    have above : i < m.thread.scopes.size - 1 := by
      rw [scopes, Array.size_pop] at inside
      exact inside
    refine .shrink above ?_ (fun k below => ?_) ?_
    · rw [scopes, Array.toList_pop, List.dropLast_eq_take, Array.length_toList]
    · have lower := linked.thread.stack_lt_of_close found (by omega)
      exact Thread.closeScope_lower _ _ (by omega)
    · rw [tries, Array.toList_filter, Array.size_pop]
      rfl
  | suspendLambda j head callee found' called =>
    exact .cut linked.thread found found' callee.body.id rfl rfl rfl inside
  | suspendFiber j head callee f found' called =>
    exact .cut linked.thread found found' callee.body.id rfl rfl rfl inside
  | resumeLambda id coro retPc found room stack =>
    exact .grow open_ low rfl rfl rfl (Thread.graft_above _ _)
  | resumeFiber f fiber coro retPc found left room stack =>
    exact .grow open_ low rfl rfl rfl (Thread.graft_above _ _)

/-- The changes that lead from one machine to another leave scope `i` open all the time. -/
inductive Stays (careful : Prop) (i : Nat) : Machine → Machine → Prop
  | refl {m : Machine} (inside : i < m.thread.scopes.size) : Stays careful i m m
  | next {m n p : Machine} : Stays careful i m n → Change careful n p →
      i < p.thread.scopes.size → Stays careful i m p
  | fork {m n p : Machine} (id : Nat) : Stays careful i m n →
      Changes careful { n with thread := n.thread.fork id } p →
      Stays careful i m { p with thread := n.thread }

theorem Stays.changes {i : Nat} (h : Stays careful i m n) : Changes careful m n := by
  induction h with
  | refl => exact .refl _
  | next _ step _ ih => exact .next ih step
  | fork id _ child ih => exact .fork id ih child

theorem Stays.inside {i : Nat} (h : Stays careful i m n) : i < m.thread.scopes.size := by
  induction h with
  | refl inside => exact inside
  | next _ _ _ ih => exact ih
  | fork _ _ _ ih => exact ih

/-- A scope keeps its place among others. -/
theorem Thread.Below.scope {t t' : Thread} {i height : Nat} (h : t.Below i height t') {s : Scope}
    (found : t.scopes[i]? = some s) : ∃ s', t'.scopes[i]? = some s' ∧ s'.bare = s.bare := by
  have image := congrArg (·[i]?) h.scopes
  simp only [List.getElem?_map, List.getElem?_take_of_lt (Nat.lt_succ_self i),
    Array.getElem?_toList, found] at image
  exact Option.map_eq_some_iff.1 image

theorem Stays.keeps_below {i : Nat} (h : Stays careful i m n) (linked : m.Linked) {s : Scope}
    (found : m.thread.scopes[i]? = some s) : m.thread.Below i s.stack n.thread := by
  induction h with
  | refl inside => exact .refl _ _ _
  | next before step inside below =>
    obtain ⟨s', found', same⟩ := below.scope found
    have after := step.keeps_below (before.changes.linked linked) found' inside
    have stack : s'.bare.stack = s.bare.stack := congrArg Scope.stack same
    rw [show s'.stack = s.stack from stack] at after
    exact below.trans after
  | fork id _ _ below => exact below

/-! ## A caller come back to -/

/-- Thread `u` is thread `t` come back to: with the scopes, value stacks and variables it had, the
stacks below the one in use untouched, and the `try:` forms that are not over. -/
structure Thread.Back (t u : Thread) : Prop where
  scopes : u.scopes.toList.map Scope.bare = t.scopes.toList.map Scope.bare
  height : u.valueStacks.size = t.valueStacks.size
  lower : ∀ k, k + 1 < t.valueStacks.size → u.valueStacks[k]? = t.valueStacks[k]?
  tries : u.tries.toList.map TryFrame.bare <+: t.tries.toList.map TryFrame.bare
  env : u.env = t.env

theorem Thread.Back.withCoros {t u : Thread} (h : t.Back u) (coros : Dict Nat Coroutine) :
    t.Back { u with coros } :=
  ⟨h.scopes, h.height, h.lower, h.tries, h.env⟩

/-- All levels of thread `t` are in `t'` as well, and the one right above them is the scope of a lambda
that was called from there. -/
structure Thread.Entered (t t' : Thread) (s : Scope) : Prop where
  scopes : t'.scopes.toList.take t.scopes.size = t.scopes.toList
  valueStacks : ∀ k < t.valueStacks.size, t'.valueStacks[k]? = t.valueStacks[k]?
  tries : Linked.framesBelow t'.tries.toList t.scopes.size = t.tries.toList
  stack : s.stack + 1 = t.valueStacks.size
  env : s.callerEnv = some t.env

theorem Thread.Entered.grow {t t' : Thread} (h : t.Linked) {s : Scope} {upper : Array Scope}
    {more : Array (Array Value)} {frames : Array TryFrame} (scopes : t'.scopes = t.scopes ++ upper)
    (valueStacks : t'.valueStacks = t.valueStacks ++ more) (tries : t'.tries = t.tries ++ frames)
    (above : ∀ f ∈ frames, t.scopes.size ≤ f.scope) (stack : s.stack + 1 = t.valueStacks.size)
    (env : s.callerEnv = some t.env) : t.Entered t' s where
  scopes := by
    rw [scopes, Array.toList_append, ← Array.length_toList, List.take_left]
  valueStacks := fun k lt => by
    rw [valueStacks, Array.getElem?_append_left lt]
  tries := by
    have new : Linked.framesBelow frames.toList t.scopes.size = [] := by
      refine List.filter_eq_nil_iff.2 fun f member => ?_
      have high := above f (Array.mem_def.2 member)
      simp only [decide_eq_true_eq]
      omega
    have old : Linked.framesBelow t.tries.toList t.scopes.size = t.tries.toList := by
      refine List.filter_eq_self.2 fun f member => ?_
      have low := h.linked.frame_lt member
      rw [Array.length_toList] at low
      exact decide_eq_true low
    rw [Linked.framesBelow] at new old
    rw [tries, Array.toList_append, Linked.framesBelow, List.filter_append, new, old, List.append_nil]
  stack := stack
  env := env

theorem Thread.Entered.graft {t : Thread} (h : t.Linked) {c : Coroutine} (off : c.Linked)
    (retPc : Nat) (fiber : Option Ref) (stack : t.valueStacks.size ≠ 0) {s : Scope}
    (found : (t.graft c retPc fiber).scopes[t.scopes.size]? = some s) :
    t.Entered (t.graft c retPc fiber) s := by
  obtain ⟨head, rest, all, lambda, zero, -, -⟩ := off.parts
  have size : t.scopes.size = t.scopes.toList.length := Array.length_toList.symm
  rw [← Array.getElem?_toList, graft_scopes all, size,
    List.getElem?_append_right (Nat.le_refl _), Nat.sub_self] at found
  obtain rfl := Option.some.inj found
  refine .grow h rfl rfl rfl (graft_above _ _) ?_ rfl
  dsimp only
  omega

/-- The scope of a lambda comes in by a call. -/
theorem Change.entered (h : Change careful m n) (linked : m.Linked) {s : Scope}
    (found : n.thread.scopes[m.thread.scopes.size]? = some s) (lambda : s.isLambda = true) :
    m.thread.Entered n.thread s := by
  have small (few : n.thread.scopes.size ≤ m.thread.scopes.size) : False := by
    rw [Array.getElem?_eq_none few] at found
    cases found
  cases h with
  | shared _ _ => exact (small (Nat.le_refl _)).elim
  | thread t drift =>
    have size : t.scopes.size = m.thread.scopes.size := by
      simpa using congrArg Array.size drift.scopes
    exact (small (Nat.le_of_eq size)).elim
  | newFiber _ _ => exact (small (Nat.le_refl _)).elim
  | markFiber _ _ _ => exact (small (Nat.le_refl _)).elim
  | remember imp name imps known member => exact (small (Nat.le_refl _)).elim
  | openBlock ownStack safety room stack =>
    replace found : (m.thread.scopes.push _)[m.thread.scopes.size]? = some s := found
    rw [Array.getElem?_push_size] at found
    obtain rfl := Option.some.inj found
    cases lambda
  | openTry safety frame room scope =>
    replace found : (m.thread.scopes.push _)[m.thread.scopes.size]? = some s := found
    rw [Array.getElem?_push_size] at found
    obtain rfl := Option.some.inj found
    cases lambda
  | openLambda c safety retPc fiber room stack known =>
    replace found : (m.thread.scopes.push _)[m.thread.scopes.size]? = some s := found
    rw [Array.getElem?_push_size] at found
    obtain rfl := Option.some.inj found
    exact .grow linked.thread Array.push_eq_append (Array.append_empty).symm
      (Array.append_empty).symm nofun (Nat.succ_pred stack) rfl
  | close keepTop last =>
    obtain ⟨scopes, -, -, -⟩ := Thread.closeScope_rest m.thread keepTop
    refine (small ?_).elim
    rw [scopes, Array.size_pop]
    exact Nat.sub_le _ _
  | suspendLambda j head callee found' called =>
    exact (small (m.thread.cut_size j head callee.body.id)).elim
  | suspendFiber j head callee f found' called =>
    exact (small (m.thread.cut_size j head callee.body.id)).elim
  | resumeLambda id coro retPc left room stack =>
    have kept : ({ m.thread with coros := m.thread.coros.erase id } : Thread).Linked :=
      ⟨linked.thread.linked, linked.thread.called⟩
    obtain ⟨scopes, valueStacks, tries, stack, env⟩ :=
      Thread.Entered.graft kept (linked.coros id coro left) retPc none stack found
    exact ⟨scopes, valueStacks, tries, stack, env⟩
  | resumeFiber f fiber coro retPc there left room stack =>
    have off := linked.fibers fiber (Array.mem_of_getElem? there) coro left
    exact Thread.Entered.graft linked.thread off retPc (some f) stack found

/-! ## Fibers -/

/-- The fiber that runs in a scope is one of the first `n`. -/
def Scope.FiberBelow (n : Nat) (s : Scope) : Prop :=
  ∀ f, s.fiber = some f → f < n

theorem Scope.FiberBelow.mono {k l : Nat} {s : Scope} (h : s.FiberBelow k) (le : k ≤ l) :
    s.FiberBelow l :=
  fun f fiber => Nat.lt_of_lt_of_le (h f fiber) le

/-- All fibers that run are there. -/
structure Machine.Fibered (m : Machine) : Prop where
  thread : ∀ s ∈ m.thread.scopes, s.FiberBelow m.shared.store.fibers.size
  coros : ∀ id c, m.thread.coros.find? id = some c →
    ∀ s ∈ c.scopes, s.FiberBelow m.shared.store.fibers.size
  fibers : ∀ f ∈ m.shared.store.fibers, ∀ c, f.state = .suspended c →
    ∀ s ∈ c.scopes, s.FiberBelow m.shared.store.fibers.size

theorem mem_modify {γ : Type} {xs : Array γ} {i : Nat} {f : γ → γ} {x : γ}
    (h : x ∈ xs.modify i f) : x ∈ xs ∨ ∃ y ∈ xs, x = f y := by
  obtain ⟨j, bound, rfl⟩ := Array.mem_iff_getElem.1 h
  rw [Array.getElem_modify]
  split
  · exact .inr ⟨_, Array.getElem_mem _, rfl⟩
  · exact .inl (Array.getElem_mem _)

namespace Thread

variable {t t' : Thread} {k : Nat}

theorem Drift.fiberBelow (h : t.Drift t') (all : ∀ s ∈ t.scopes, s.FiberBelow k) :
    ∀ s ∈ t'.scopes, s.FiberBelow k := by
  intro s' member f fiber
  have image : s'.bare ∈ t.scopes.map Scope.bare := h.scopes ▸ Array.mem_map_of_mem member
  obtain ⟨s, member, same⟩ := Array.mem_map.1 image
  have same : s.fiber = s'.fiber := (congrArg Scope.fiber same : s.bare.fiber = s'.bare.fiber)
  exact all s member f (same.trans fiber)

theorem cut_fiberBelow (i : Nat) (head : Scope) (lambda : Nat)
    (all : ∀ s ∈ t.scopes, s.FiberBelow k) :
    (∀ s ∈ (t.cut i head lambda).1.scopes, s.FiberBelow k) ∧
      ∀ s ∈ (t.cut i head lambda).2.scopes, s.FiberBelow k := by
  have part (l u : Nat) (s : Scope) (member : s ∈ t.scopes.extract l u) : s ∈ t.scopes := by
    obtain ⟨j, -, -, rfl⟩ := Array.mem_extract_iff_getElem.1 member
    exact Array.getElem_mem _
  constructor
  · intro s member
    obtain ⟨u, inside, rfl⟩ := Array.mem_map.1 member
    rcases mem_modify inside with old | ⟨v, -, rfl⟩
    · exact all u (part _ _ u old)
    · nofun
  · exact fun s member => all s (part _ _ s member)

theorem graft_fiberBelow {c : Coroutine} {retPc : Nat} {fiber : Option Ref}
    (all : ∀ s ∈ t.scopes, s.FiberBelow k) (off : ∀ s ∈ c.scopes, s.FiberBelow k)
    (known : ∀ f, fiber = some f → f < k) :
    ∀ s ∈ (t.graft c retPc fiber).scopes, s.FiberBelow k := by
  intro s member
  rcases Array.mem_append.1 member with low | high
  · exact all s low
  · rcases mem_modify high with old | ⟨u, -, rfl⟩
    · obtain ⟨u, inside, rfl⟩ := Array.mem_map.1 old
      exact off u inside
    · exact known

theorem push_fiberBelow {s : Scope} (all : ∀ s ∈ t.scopes, s.FiberBelow k) (new : s.FiberBelow k) :
    ∀ u ∈ t.scopes.push s, u.FiberBelow k := by
  intro u member
  rcases Array.mem_push.1 member with old | rfl
  · exact all u old
  · exact new

end Thread

/-- The fibers stay as many, and only one that there is may be left in the middle. -/
theorem Machine.Fibered.of_modify (h : m.Fibered) {f : Ref} {state : FiberState} {t : Thread}
    (thread : ∀ s ∈ t.scopes, s.FiberBelow m.shared.store.fibers.size)
    (coros : ∀ id c, t.coros.find? id = some c →
      ∀ s ∈ c.scopes, s.FiberBelow m.shared.store.fibers.size)
    (left : ∀ c, state = .suspended c → ∀ s ∈ c.scopes, s.FiberBelow m.shared.store.fibers.size) :
    (Machine.alterFibers { m with thread := t }
      (·.modify f fun fiber => { fiber with state })).Fibered := by
  have size : (m.shared.store.fibers.modify f fun fiber => { fiber with state }).size =
      m.shared.store.fibers.size := Array.size_modify
  constructor <;> simp only [Machine.alterFibers, size]
  · exact thread
  · exact coros
  · intro fiber member c same
    rcases mem_modify member with old | ⟨g, -, rfl⟩
    · exact h.fibers fiber old c same
    · exact left c same

theorem Change.fibered (h : Change careful m n) (fibered : m.Fibered) : n.Fibered := by
  cases h with
  | shared s drift =>
    constructor <;> simp only [drift.fibers]
    · exact fibered.thread
    · exact fibered.coros
    · exact fibered.fibers
  | thread t drift =>
    exact ⟨drift.fiberBelow fibered.thread,
      fun id c found => fibered.coros id c (drift.coros id c found), fibered.fibers⟩
  | newFiber id target =>
    have more : m.shared.store.fibers.size ≤ (m.shared.store.fibers.push ⟨id, target, .fresh⟩).size := by
      simp
    refine ⟨fun s member => (fibered.thread s member).mono more,
      fun id c found s member => (fibered.coros id c found s member).mono more,
      fun f member c left s inside => ?_⟩
    rcases Array.mem_push.1 member with old | rfl
    · exact (fibered.fibers f old c left s inside).mono more
    · cases left
  | markFiber f state fresh =>
    exact fibered.of_modify fibered.thread fibered.coros fun c same => absurd same (fresh c)
  | remember imp name imps known member => exact ⟨fibered.thread, fibered.coros, fibered.fibers⟩
  | openBlock ownStack safety room stack =>
    exact ⟨Thread.push_fiberBelow fibered.thread nofun, fibered.coros, fibered.fibers⟩
  | openTry safety frame room scope =>
    exact ⟨Thread.push_fiberBelow fibered.thread nofun, fibered.coros, fibered.fibers⟩
  | openLambda c safety retPc fiber room stack known =>
    exact ⟨Thread.push_fiberBelow fibered.thread known, fibered.coros, fibered.fibers⟩
  | close keepTop last =>
    obtain ⟨scopes, -, coros, -⟩ := Thread.closeScope_rest m.thread keepTop
    refine ⟨fun s member => ?_, fun id c found => fibered.coros id c (coros ▸ found), fibered.fibers⟩
    replace member : s ∈ (m.thread.closeScope keepTop).2.scopes := member
    rw [scopes] at member
    rw [Array.mem_def, Array.toList_pop] at member
    exact fibered.thread s (Array.mem_def.2 (List.dropLast_subset _ member))
  | suspendLambda i head callee found called =>
    obtain ⟨off, left⟩ := Thread.cut_fiberBelow i head callee.body.id fibered.thread
    refine ⟨left, fun id c stored => ?_, fibered.fibers⟩
    rw [Dict.find?_insert] at stored
    split at stored
    · exact Option.some.inj stored ▸ off
    · exact fibered.coros id c stored
  | suspendFiber i head callee f found called =>
    obtain ⟨off, left⟩ := Thread.cut_fiberBelow i head callee.body.id fibered.thread
    exact fibered.of_modify left fibered.coros fun c same => FiberState.suspended.inj same ▸ off
  | resumeLambda id coro retPc found room stack =>
    refine ⟨Thread.graft_fiberBelow fibered.thread (fibered.coros id coro found) nofun,
      fun k c stored => ?_, fibered.fibers⟩
    replace stored : (m.thread.coros.erase id).find? k = some c := stored
    rw [Dict.find?_erase] at stored
    split at stored
    · cases stored
    · exact fibered.coros k c stored
  | resumeFiber f fiber coro retPc found left room stack =>
    have off := fibered.fibers fiber (Array.mem_of_getElem? found) coro left
    refine fibered.of_modify (Thread.graft_fiberBelow fibered.thread off fun g same => ?_)
      fibered.coros nofun
    rw [← Option.some.inj same]
    exact (Array.getElem?_eq_some_iff.1 found).1

theorem Change.fibers_size (h : Change careful m n) :
    m.shared.store.fibers.size ≤ n.shared.store.fibers.size := by
  cases h with
  | shared s drift => rw [drift.fibers]
  | newFiber _ _ => exact (Nat.le_succ _).trans_eq (Array.size_push _).symm
  | markFiber _ _ _ => exact Nat.le_of_eq Array.size_modify.symm
  | suspendFiber _ _ _ _ _ _ => exact Nat.le_of_eq Array.size_modify.symm
  | resumeFiber _ _ _ _ _ _ _ _ => exact Nat.le_of_eq Array.size_modify.symm
  | _ => exact Nat.le_refl _

theorem Changes.fibers_size (h : Changes careful m n) :
    m.shared.store.fibers.size ≤ n.shared.store.fibers.size := by
  induction h with
  | refl => exact Nat.le_refl _
  | next _ step ih => exact ih.trans step.fibers_size
  | fork id _ _ ih child => exact ih.trans child

theorem Machine.Fibered.fork (h : m.Fibered) (id : Nat) :
    Machine.Fibered { m with thread := m.thread.fork id } where
  thread := fun s member => by
    rw [Array.mem_singleton.1 member]
    nofun
  coros := nofun
  fibers := h.fibers

/-- Whatever changes there are, all fibers that run are there. -/
theorem Changes.fibered (h : Changes careful m n) (fibered : m.Fibered) : n.Fibered := by
  induction h with
  | refl => exact fibered
  | next _ step ih => exact step.fibered (ih fibered)
  | fork id before child ih childIh =>
    have back := ih fibered
    have more := child.fibers_size
    exact ⟨fun s member => (back.thread s member).mono more,
      fun id c found s member => (back.coros id c found s member).mono more,
      (childIh (back.fork id)).fibers⟩

theorem fibered_new (config : Config) (log : Log.Logger) (host : Host) :
    (Engine.new config log host).Fibered := by
  refine ⟨fun s member => ?_, nofun, ?_⟩
  · rw [Array.mem_singleton.1 member]
    nofun
  · rw [(new_drift config log host).fibers]
    nofun

theorem Reached.fibered {kind : Watch → Prop} (h : Reached kind m) : m.Fibered :=
  h.keeps (False.elim ·) fibered_new (fun _ id fibered => fibered.fork id) fun _ _ changes =>
    changes.fibered

end Catena
