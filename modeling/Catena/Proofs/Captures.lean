import Catena.Proofs.Coroutines
import Catena.Proofs.Resumed

/-!
# What a closure reads

A closure carries the variables that were in force where it was made. A call of it opens a scope in
which these are in force, whatever its caller has bound, and they stay what the names stand for in this
scope, through blocks and calls, when it is left in the middle and when it goes on. But coroutines are
kept by lambda, not by closure: if an activation of its lambda has been left in the middle in the thread,
a call of the closure goes on with that one, which reads the variables of the closure that it was started
for (`Reached.captures`).
-/

namespace Catena

theorem Scope.hid?_eq_none {s : Scope} {name : String} :
    s.hid? name = none ↔ s.binds name = false := by
  rw [hid?, List.findSome?_eq_none_iff, binds, List.any_eq_false]
  simp

/-! ## A scope and the closure that runs in it -/

/-- Scope `i` is that of the closure, for which the name will stand for what it stood for when the closure
was made, once the scopes above are closed and the bindings of the scope itself are undone. -/
def Observes (scopes : List Scope) (env : Env) (i : Nat) (c : Closure) (name : String) : Prop :=
  ∃ s, scopes[i]? = some s ∧ s.callee = some c ∧
    (s.unbind ((scopes.drop (i + 1)).foldr Scope.leave env)).find? name = c.env.find? name

namespace Observes

variable {scopes scopes' upper : List Scope} {env env' : Env} {i j k : Nat} {c : Closure} {name : String}

theorem unbind_congr {s s' : Scope} (bound : s'.bound = s.bound) (env : Env) :
    s'.unbind env = s.unbind env := by
  unfold Scope.unbind
  rw [bound]

/-- Neither the stack of a scope nor its caller matter. -/
theorem of_same (h : Observes scopes env i c name)
    (same : ∀ s, scopes[i]? = some s → ∃ s', scopes'[j]? = some s' ∧ s'.callee = s.callee ∧
      s'.bound = s.bound)
    (above : Env.Same ((scopes'.drop (j + 1)).foldr Scope.leave env')
      ((scopes.drop (i + 1)).foldr Scope.leave env)) : Observes scopes' env' j c name := by
  obtain ⟨s, found, called, reads⟩ := h
  obtain ⟨s', found', callee, bound⟩ := same s found
  refine ⟨s', found', callee.trans called, ?_⟩
  rw [unbind_congr bound, s.unbind_same above name, reads]

theorem lt (h : Observes scopes env i c name) : i < scopes.length := by
  obtain ⟨s, found, -⟩ := h
  exact (List.getElem?_eq_some_iff.1 found).1

/-- Scopes are put on top that set the variables in force aside. -/
theorem append (h : Observes scopes env i c name) (env : upper.foldr Scope.leave env' = env) :
    Observes (scopes ++ upper) env' i c name := by
  have inside := h.lt
  apply h.of_same
  · intro s found
    exact ⟨s, by rw [List.getElem?_append_left inside, found], rfl, rfl⟩
  · rw [List.drop_append_of_le_length (by omega), List.foldr_append, env]
    exact fun _ => rfl

/-- Scopes above are taken off and give back what they set aside. -/
theorem take (h : Observes scopes env i c name) (below : i < k)
    (env : (scopes.drop k).foldr Scope.leave env = env') : Observes (scopes.take k) env' i c name := by
  apply h.of_same
  · intro s found
    exact ⟨s, by rw [List.getElem?_take_of_lt below, found], rfl, rfl⟩
  · rw [← env, Thread.drop_parts scopes (show i + 1 ≤ k by omega), List.foldr_append]
    exact fun _ => rfl

/-- Only blocks are above the scope, and neither they nor the scope itself have bound the name: it stands
for what it stood for when the closure was made. -/
theorem reads (h : Observes scopes env i c name)
    (blocks : ∀ s ∈ scopes.drop (i + 1), s.callerEnv = none)
    (free : ∀ s ∈ scopes.drop i, s.binds name = false) : env.find? name = c.env.find? name := by
  obtain ⟨s, found, -, reads⟩ := h
  rw [Thread.parted found] at free
  obtain ⟨own, free⟩ := List.forall_mem_cons.1 free
  have hidden : (scopes.drop (i + 1)).findSome? (·.hid? name) = none := by
    rw [List.findSome?_eq_none_iff]
    exact fun s member => Scope.hid?_eq_none.2 (free s member)
  rw [Scope.find?_unbind, Scope.hid?_eq_none.2 own, Scope.foldr_leave_blocks blocks,
    Scope.find?_foldr_unbind, hidden] at reads
  exact reads

/-- The innermost scope is that of the closure, and binds one more name. -/
theorem bind {lower : List Scope} {top : Scope} (h : Observes (lower ++ [top]) env lower.length c name)
    (bound : String) (v : Value) :
    Observes (lower ++ [{ top with bound := (bound, env.find? bound) :: top.bound }])
      (env.insert bound v) lower.length c name := by
  obtain ⟨s, found, called, reads⟩ := h
  rw [List.getElem?_append_right (Nat.le_refl _), Nat.sub_self] at found
  obtain rfl := Option.some.inj found
  refine ⟨{ top with bound := (bound, env.find? bound) :: top.bound }, by simp, called, ?_⟩
  -- Undoing the new binding first leaves what there was before it, as if the scope were a block.
  have undone := ({ top with callerEnv := none } : Scope).leave_bound env bound v name
  rw [List.drop_of_length_le (by simp)] at reads ⊢
  exact undone.trans reads

end Observes

namespace Thread

variable {t t' u : Thread} {i k : Nat} {c : Closure} {name : String}

/-- Scope `i` of the thread is that of the closure, which reads its own variable. -/
def Observes (t : Thread) (i : Nat) (c : Closure) (name : String) : Prop :=
  Catena.Observes t.scopes.toList t.env i c name

theorem Observes.lt (h : t.Observes i c name) : i < t.scopes.size := by
  have inside := Catena.Observes.lt h
  rwa [Array.length_toList] at inside

theorem Observes.push {s : Scope} (h : t.Observes i c name) (scopes : t'.scopes = t.scopes.push s)
    (env : s.leave t'.env = t.env) : t'.Observes i c name := by
  rw [Observes, scopes, Array.toList_push]
  exact Catena.Observes.append h env

theorem Observes.calm (h : t.Observes i c name) (calm : t.Calm t') : t'.Observes i c name := by
  apply Catena.Observes.of_same h
  · intro s found
    have image := congrArg (·[i]?) calm.scopes
    simp only [Array.getElem?_map] at image
    rw [Array.getElem?_toList] at found
    rw [found, Option.map_some] at image
    obtain ⟨s', found', same⟩ := Option.map_eq_some_iff.1 image
    have callee := congrArg Scope.callee same
    have bound := congrArg Scope.bound same
    exact ⟨s', Array.getElem?_toList.trans found', callee, bound⟩
  · have under := calm.under (i + 1)
    rw [Thread.under, Thread.under] at under
    rw [under]
    exact fun _ => rfl

theorem Observes.bind (h : t.Observes i c name) (bound : String) (v : Value) :
    (t.bind bound v).Observes i c name := by
  obtain ⟨lower, top, scopes⟩ := Array.exists_push_of_size_pos (Nat.zero_lt_of_lt h.lt)
  have size : t.scopes.size = lower.size + 1 := by rw [scopes, Array.size_push]
  have now : (t.bind bound v).scopes =
      lower.push { top with bound := (bound, t.env.find? bound) :: top.bound } := by
    rw [Thread.bind, modifyScope]
    dsimp only
    rw [scopes, Array.size_push, Nat.add_sub_cancel, Run.modify_push]
  by_cases innermost : i = lower.size
  · subst innermost
    rw [Observes, scopes, Array.toList_push, ← Array.length_toList] at h
    rw [Observes, now, Array.toList_push, ← Array.length_toList]
    exact Catena.Observes.bind h bound v
  · have below : i < lower.toList.length := by
      have inside := h.lt
      rw [Array.length_toList]
      omega
    apply Catena.Observes.of_same h
    · intro s found
      rw [scopes, Array.toList_push, List.getElem?_append_left below] at found
      rw [now, Array.toList_push, List.getElem?_append_left below]
      exact ⟨s, found, rfl, rfl⟩
    · have inside : i + 1 < t.scopes.size := by
        rw [Array.length_toList] at below
        omega
      exact t.bind_under bound v inside

theorem Observes.restart (h : t.Observes i c name) {c' : Closure} (innermost : t.scopes.size = k + 1)
    (called : t.scopes[k]?.bind (·.callee) = some c') (linked : t.Linked) :
    (t.restart k c').Observes i c name := by
  obtain ⟨head, found, callee⟩ := Option.bind_eq_some_iff.1 called
  have scopes : (t.restart k c').scopes = t.scopes.modify k fun s => { s with bound := [], loops := ∅ } :=
    rfl
  by_cases own : i = k
  · subst own
    obtain ⟨s, found', called', -⟩ := h
    rw [Array.getElem?_toList, found] at found'
    obtain rfl := Option.some.inj found'
    obtain rfl := Option.some.inj (callee.symm.trans called')
    refine ⟨{ head with bound := [], loops := ∅ }, ?_, callee, ?_⟩
    · rw [Array.getElem?_toList, scopes, Array.getElem?_modify, found, if_pos rfl]
      rfl
    · rw [List.drop_of_length_le (by rw [Array.length_toList, scopes, Array.size_modify]; omega)]
      rfl
  · have below : i < k := by
      have inside := h.lt
      omega
    apply Catena.Observes.of_same h
    · intro s there
      rw [Array.getElem?_toList] at there
      refine ⟨s, ?_, rfl, rfl⟩
      rw [Array.getElem?_toList, scopes, Array.getElem?_modify, if_neg (Ne.symm own), there]
    · exact restart_under linked innermost called below

/-- What is above the scope is cut off. -/
theorem Observes.cut (h : t.Observes i c name) {head : Scope} {callee : Closure}
    (found : t.scopes[k]? = some head) (called : head.callee = some callee) (linked : t.Linked)
    (lambda : Nat) (below : i < k) : (t.cut k head lambda).2.Observes i c name := by
  have left : (t.cut k head lambda).2.under k = t.under k :=
    cut_under linked found called lambda (Nat.le_refl k)
  have scopes : (t.cut k head lambda).2.scopes.toList = t.scopes.toList.take k := extract_lower _ _
  rw [Observes, scopes]
  apply Catena.Observes.take h below
  rw [under, scopes, List.drop_of_length_le (List.length_take_le _ _)] at left
  exact left.symm

/-- A coroutine is put on top. -/
theorem Observes.graft (h : t.Observes i c name) {coro : Coroutine} (linked : coro.Linked)
    (retPc : Nat) (fiber : Option Ref) : (t.graft coro retPc fiber).Observes i c name := by
  obtain ⟨head, rest, all, -⟩ := linked.parts
  rw [Observes, graft_scopes all retPc fiber]
  exact Catena.Observes.append h rfl

theorem Observes.closeScope (h : t.Observes i c name) (keepTop : Bool)
    (inside : i < (t.closeScope keepTop).2.scopes.size) :
    (t.closeScope keepTop).2.Observes i c name := by
  obtain ⟨lower, top, scopes⟩ := Array.exists_push_of_size_pos (Nat.zero_lt_of_lt h.lt)
  have innermost : t.scope = top := by rw [scope, scopes, Array.back?_push]; rfl
  rw [closeScope_eq, innermost] at inside ⊢
  have left : t.scopes.pop.toList = t.scopes.toList.take lower.size := by
    rw [scopes, Array.pop_push, Array.toList_push, ← Array.length_toList, List.take_left]
  rw [Observes, left]
  apply Catena.Observes.take h
  · simpa [scopes] using inside
  · rw [scopes, Array.toList_push, ← Array.length_toList, List.drop_left]
    rfl

end Thread

/-! ## Acts -/

section

variable {m n : Machine} {i : Nat} {c : Closure} {name : String} {level : Safety}

/-- A closure reads its own variables after each act, as long as its scope is open. -/
theorem Act.observes (act : Act False level m n) (linked : m.Linked)
    (h : m.thread.Observes i c name) (inside : i < n.thread.scopes.size) :
    n.thread.Observes i c name := by
  cases act with
  | shared | newFiber | markFiber | remember => exact h
  | thread t calm => exact h.calm calm
  | bind bound v => exact h.bind bound v
  | openBlock ownStack safety => exact h.push rfl rfl
  | openTry frame => exact h.push rfl rfl
  | openLambda c' safety retPc fiber => exact h.push rfl rfl
  | close keepTop => exact h.closeScope keepTop inside
  | restart k c' innermost called => exact h.restart innermost called linked.thread
  | suspendLambda k head callee found called =>
    have below := Nat.lt_of_lt_of_le inside (m.thread.cut_keeps k head callee.body.id)
    exact h.cut found called linked.thread callee.body.id below
  | suspendFiber k head callee f found called =>
    have below := Nat.lt_of_lt_of_le inside (m.thread.cut_keeps k head callee.body.id)
    exact h.cut found called linked.thread callee.body.id below
  | resumeLambda id coro retPc found =>
    have left : Thread.Observes { m.thread with coros := m.thread.coros.erase id } i c name := h
    exact left.graft (linked.coros id coro found) retPc none
  | resumeFiber f fiber coro retPc found left =>
    exact h.graft (linked.fibers fiber (Array.mem_of_getElem? found) coro left) retPc (some f)

/-! ## Leaving and going on -/

namespace Thread

variable {t u : Thread} {k : Nat}

/-- When everything from scope `k` on, which is `head`, is left in the middle, the name stays what it is
for scope `i`: further in there is a call, or no scope of another level up to there has bound it. -/
def Undisturbed (t : Thread) (k i : Nat) (head : Scope) (name : String) : Prop :=
  (∃ s ∈ t.scopes.toList.drop (i + 1), s.callerEnv.isSome = true) ∨
    ∀ s ∈ (t.scopes.toList.take i).drop k, s.safety ≠ head.safety → s.binds name = false

end Thread

/-- The closure whose scope is the `k`-th of a coroutine reads its own variable. -/
def Coroutine.Observes (coro : Coroutine) (k : Nat) (c : Closure) (name : String) : Prop :=
  Catena.Observes coro.scopes.toList coro.env k c name

namespace Thread

variable {t u : Thread} {k : Nat}

/-- What is taken along reads the same there. -/
theorem Undisturbed.reads {s head : Scope} (h : t.Undisturbed k i head name) (le : k ≤ i)
    (found : t.scopes.toList[i]? = some s) :
    (s.unbind ((t.scopes.toList.drop (i + 1)).foldr Scope.leave
      (keptEnv t.env head (t.scopes.extract k t.scopes.size)))).find? name =
      (s.unbind ((t.scopes.toList.drop (i + 1)).foldr Scope.leave t.env)).find? name := by
  by_cases call : ∃ s ∈ t.scopes.toList.drop (i + 1), s.callerEnv.isSome = true
  · obtain ⟨s', member, called⟩ := call
    obtain ⟨j, there⟩ := List.mem_iff_getElem?.1 member
    rw [List.getElem?_drop, Array.getElem?_toList] at there
    rw [foldr_leave_called (Nat.le_add_right (i + 1) j) there called _ t.env]
  · have lower := h.resolve_left call
    have blocks : ∀ s ∈ t.scopes.toList.drop (i + 1), s.callerEnv = none := by
      intro s' member
      by_contra some_
      exact call ⟨s', member, Option.isSome_iff_ne_none.2 some_⟩
    rw [Scope.foldr_leave_blocks blocks, Scope.foldr_leave_blocks blocks, Scope.find?_unbind,
      Scope.find?_unbind, Scope.find?_foldr_unbind, Scope.find?_foldr_unbind]
    cases own : s.hid? name with
    | some first => rfl
    | none =>
      cases above : (t.scopes.toList.drop (i + 1)).findSome? (·.hid? name) with
      | some first => rfl
      | none =>
        -- No scope from `k` on that is undone has bound the name.
        have none_ : ((t.scopes.toList.drop k).filter fun s => s.safety ≠ head.safety).findSome?
            (·.hid? name) = none := by
          rw [List.findSome?_eq_none_iff] at above ⊢
          intro s' member
          obtain ⟨member, other⟩ := List.mem_filter.1 member
          rw [drop_parts _ le, parted found] at member
          rcases List.mem_append.1 member with below | member
          · exact Scope.hid?_eq_none.2 (lower s' below (of_decide_eq_true other))
          · rcases List.mem_cons.1 member with rfl | member
            · exact own
            · exact above s' member
        rw [keptEnv_eq_foldr, extract_upper, Scope.find?_foldr_unbind, none_]
        rfl

/-- A closure that is left in the middle, with those that have called it or alone, takes its variables
along. -/
theorem Observes.suspended (h : t.Observes i c name) {head : Scope} (le : k ≤ i)
    (found : t.scopes[k]? = some head) (lambda : Nat) (clear : t.Undisturbed k i head name) :
    (t.cut k head lambda).1.Observes (i - k) c name := by
  obtain ⟨s, there, called, reads⟩ := h
  have upper (env : Env) := cut_upper found lambda (Nat.lt_succ_of_le le) env
  rw [Nat.succ_sub le] at upper
  have kept : (t.cut k head lambda).1.env = keptEnv t.env head (t.scopes.extract k t.scopes.size) := rfl
  have same : ∃ s', (t.cut k head lambda).1.scopes.toList[i - k]? = some s' ∧ s'.callee = s.callee ∧
      s'.bound = s.bound := by
    rw [cut_scopes found]
    by_cases first : i = k
    · subst first
      rw [Array.getElem?_toList, found] at there
      obtain rfl := Option.some.inj there
      rw [Nat.sub_self]
      exact ⟨_, rfl, rfl, rfl⟩
    · obtain ⟨j, rfl⟩ := Nat.exists_eq_add_of_lt (Nat.lt_of_le_of_ne le (Ne.symm first))
      rw [show k + j + 1 - k = j + 1 by omega, List.getElem?_cons_succ, List.getElem?_map,
        List.getElem?_drop, show k + 1 + j = k + j + 1 by omega, there]
      exact ⟨_, rfl, rfl, rfl⟩
  obtain ⟨s', found', callee, bound⟩ := same
  refine ⟨s', found', callee.trans called, ?_⟩
  rw [Catena.Observes.unbind_congr bound, kept, upper, clear.reads le there, reads]

theorem Observes.resumed {coro : Coroutine} (h : coro.Observes k c name) (retPc : Nat)
    (fiber : Option Ref) : (u.graft coro retPc fiber).Observes (u.scopes.size + k) c name := by
  apply Catena.Observes.of_same h
  · intro s found
    cases all : coro.scopes.toList with
    | nil =>
      rw [all] at found
      cases found
    | cons head rest =>
      rw [all] at found
      rw [graft_scopes all, List.getElem?_append_right (by rw [Array.length_toList]; omega),
        Array.length_toList, Nat.add_sub_cancel_left]
      cases k with
      | zero =>
        obtain rfl := Option.some.inj found
        exact ⟨_, rfl, rfl, rfl⟩
      | succ k =>
        rw [List.getElem?_cons_succ] at found ⊢
        rw [List.getElem?_map, found]
        exact ⟨_, rfl, rfl, rfl⟩
  · rw [Nat.add_assoc, graft_upper u coro retPc fiber (Nat.succ_pos k)]
    exact fun _ => rfl

end Thread

end

/-! ## Activations -/

/-- A closure starts: a scope opens in which its variables are in force. -/
structure Act.Starts (c : Closure) (m n : Machine) : Prop where
  act : ∃ level, Act False level m n
  opened : ∃ safety retPc fiber, n.thread.scopes = m.thread.scopes.push
    { Scope.lambda c safety (m.thread.valueStacks.size - 1) retPc m.thread.env with fiber } ∧
      n.thread.env = c.env

/-- Where the scope comes in which a closure starts, in a run that begins in `m`, as long as nothing
disturbs what the name stands for in it. -/
inductive Activation (m : Machine) (c : Closure) (name : String) : Spot → Prop
  | started {a b : Machine} : Passes m a → Act.Starts c a b →
      Activation m c name (.on b a.thread.scopes.size)
  | stays {n p : Machine} {i : Nat} {level : Safety} : Activation m c name (.on n i) →
      Act False level n p → i < p.thread.scopes.size → Activation m c name (.on p i)
  /-- Another thread runs in between. -/
  | aside {n p : Machine} {i : Nat} (id : Nat) : Activation m c name (.on n i) →
      Acts False { n with thread := n.thread.fork id } p →
      Activation m c name (.on { p with thread := n.thread } i)
  /-- The closure, or one that has called it, is left in the middle. -/
  | suspended {n : Machine} {i k : Nat} {head : Scope} {callee : Closure} :
      Activation m c name (.on n i) → k ≤ i → n.thread.scopes[k]? = some head →
      head.callee = some callee → n.thread.Undisturbed k i head name →
      Activation m c name (.off (n.thread.cut k head callee.body.id).1 (i - k))
  | resumed {coro : Coroutine} {n p : Machine} {k : Nat} : Activation m c name (.off coro k) →
      Passes m n → Act.Resumes coro n p → Activation m c name (.on p (n.thread.scopes.size + k))

/-- The closure reads its own variable, wherever its scope is. -/
def Spot.Observes (c : Closure) (name : String) : Spot → Prop
  | .on n i => n.Linked ∧ n.thread.Observes i c name
  | .off coro k => coro.Observes k c name

section

variable {kind : Watch → Prop} {m n p : Machine} {c : Closure} {name : String} {spot : Spot} {i : Nat}

theorem Act.Starts.observes (starts : Act.Starts c m n) (name : String) :
    n.thread.Observes m.thread.scopes.size c name := by
  obtain ⟨safety, retPc, fiber, scopes, env⟩ := starts.opened
  refine ⟨_, by rw [scopes, Array.getElem?_toList, Array.getElem?_push_size], rfl, ?_⟩
  rw [List.drop_of_length_le (by rw [Array.length_toList, scopes, Array.size_push]), List.foldr_nil, env]
  rfl

theorem Activation.observes (h : Activation m c name spot) (linked : m.Linked) :
    spot.Observes c name := by
  induction h with
  | started passes starts =>
    obtain ⟨level, act⟩ := starts.act
    exact ⟨act.change.changes.linked (passes.linked linked), starts.observes name⟩
  | stays _ act inside ih =>
    obtain ⟨sound, observes⟩ := ih
    exact ⟨act.change.changes.linked sound, act.observes sound observes inside⟩
  | aside id _ acts ih =>
    obtain ⟨sound, observes⟩ := ih
    exact ⟨(Changes.fork id (.refl _) acts.changes).linked sound, observes⟩
  | suspended _ le found called clear ih => exact ih.2.suspended le found _ clear
  | @resumed coro n p k _ passes resumes ih =>
    obtain ⟨retPc, fiber, scopes, env⟩ := resumes.grafted
    refine ⟨resumes.act.change.changes.linked (passes.linked linked), ?_⟩
    have observes := Thread.Observes.resumed (u := n.thread) ih retPc fiber
    rw [Thread.Observes, scopes, env]
    exact observes

/-- After a run the scope of the closure is still there, unless an act of the run has closed it or left
it in the middle. -/
theorem Activation.run (acts : Acts False n p) (h : Activation m c name (.on n i)) :
    Activation m c name (.on p i) ∨
      ∃ q q' level, Acts False n q ∧ Activation m c name (.on q i) ∧ Act False level q q' ∧
        q'.thread.scopes.size ≤ i := by
  induction acts with
  | refl => exact .inl h
  | @next m' n p q first between act ih second =>
    rcases ih h with here | gone
    · rcases second here with here | ⟨a, b, level, before, there, gone⟩
      · by_cases open_ : i < q.thread.scopes.size
        · exact .inl (here.stays act open_)
        · exact .inr ⟨p, q, _, first.trans between, here, act, Nat.le_of_not_lt open_⟩
      · exact .inr ⟨a, b, level, first.trans before, there, gone⟩
    · exact .inr gone
  | fork id first child ih =>
    rcases ih h with here | gone
    · exact .inl (here.aside id child)
    · exact .inr gone

end

namespace Run

variable {m : Machine} {c : Closure} {r : Reentry} {v : Value} {l retPc : Nat}

/-- A call of a closure is a call of its lambda with its variables. -/
theorem callOnce_closure (behavior : v.ty.behavior = .lambda) (payload : v.payload = .lambda l)
    (known : m.shared.store.closures[l]? = some c) (r : Reentry) (retPc : Nat) :
    callOnce r v retPc m =
      (do return .control (← enterLambda c m.thread.safety retPc) : Run Reply) m := by
  simp only [callOnce, behavior, payload]
  rw [bind_apply, askStore, askShared]
  dsimp only
  rw [known]
  rfl

/-- If no activation of its lambda has been left in the middle, a closure that is called starts. -/
theorem callOnce_starts (behavior : v.ty.behavior = .lambda) (payload : v.payload = .lambda l)
    (known : m.shared.store.closures[l]? = some c) (none_ : m.thread.coros.find? c.body.id = none)
    (r : Reentry) (retPc : Nat) :
    (∃ e, callOnce r v retPc m = .error e m) ∨
      ∃ entry n, callOnce r v retPc m = .ok (.control (.jump entry)) n ∧ Act.Starts c m n := by
  have enters : enterLambda c m.thread.safety retPc m = startLambda c m.thread.safety retPc m := by
    rw [enterLambda, bind_apply, ask]
    dsimp only
    rw [none_]
  rw [callOnce_closure behavior payload known, bind_apply, enters]
  rcases startLambda_cases c m.thread.safety retPc m with ⟨e, fails⟩ | ⟨entry, room, stack, starts⟩
  · rw [fails]
    exact .inl ⟨e, rfl⟩
  · rw [starts]
    refine .inr ⟨entry, _, rfl, ⟨m.thread.safety, ?_⟩, m.thread.safety, retPc, none, rfl, rfl⟩
    apply Act.openLambda c m.thread.safety retPc none room stack _ (Safety.le_refl _)
    intro f no
    cases no

/-- If one has, it goes on, whichever closure of the lambda is called. -/
theorem callOnce_goesOn {coro : Coroutine} (behavior : v.ty.behavior = .lambda)
    (payload : v.payload = .lambda l) (known : m.shared.store.closures[l]? = some c)
    (left : m.thread.coros.find? c.body.id = some coro) (r : Reentry) (retPc : Nat) :
    (∃ e n, callOnce r v retPc m = .error e n) ∨
      ∃ p n, callOnce r v retPc m = .ok (.control (.jump coro.pc)) n ∧ Passes m p ∧
        p.thread = m.thread ∧ Act.Resumes coro p n := by
  let s := m.shared.note .debug Phase.vm.target fun _ => s!"resuming lambda#{c.body.id}"
  let t := { m.thread with coros := m.thread.coros.erase c.body.id }
  have goesOn : enterLambda c m.thread.safety retPc m = resume coro retPc none ⟨s, t⟩ := by
    rw [enterLambda, bind_apply, ask]
    dsimp only
    rw [left]
    rfl
  rw [callOnce_closure behavior payload known, bind_apply, goesOn]
  rcases resume_cases coro retPc none ⟨s, t⟩ with ⟨e, fails, -⟩ | ⟨room, stack, resumes⟩
  · rw [fails]
    exact .inl ⟨e, _, rfl⟩
  · rw [resumes]
    have noted : Passes m { m with shared := s } :=
      Passes.start.acts (Act.shared s (note_drift m.shared _ _ _ _)).acts
    refine .inr ⟨{ m with shared := s }, _, rfl, noted, rfl, ?_, retPc, none, rfl, rfl⟩
    exact .resumeLambda c.body.id coro retPc left room stack

end Run

/-- Nothing that runs in the thread changes what a closure reads. A call of a closure starts it, and its
variables are in force, unless its lambda has been left in the middle in the thread: then the call goes on
with the closure that was. In the scope of an activation of a closure, where neither this nor a block in
it has bound a name, the name stands for what it stood for when the closure was made. -/
theorem Reached.captures {kind : Watch → Prop} {m : Machine} (h : Reached kind m) :
    (∀ (r : Reentry) (v : Value) (l retPc : Nat) (c : Closure), v.ty.behavior = .lambda →
      v.payload = .lambda l → m.shared.store.closures[l]? = some c →
      (m.thread.coros.find? c.body.id = none →
        (∃ e, Run.callOnce r v retPc m = .error e m) ∨
        ∃ entry n, Run.callOnce r v retPc m = .ok (.control (.jump entry)) n ∧ Act.Starts c m n) ∧
      ∀ coro, m.thread.coros.find? c.body.id = some coro →
        (∃ e n, Run.callOnce r v retPc m = .error e n) ∨
        ∃ p n, Run.callOnce r v retPc m = .ok (.control (.jump coro.pc)) n ∧ Passes m p ∧
          p.thread = m.thread ∧ Act.Resumes coro p n) ∧
    (∀ (n : Machine) (i : Nat) (c : Closure) (name : String), Activation m c name (.on n i) →
      ((∀ s ∈ n.thread.scopes.toList.drop (i + 1), s.callerEnv = none) →
        (∀ s ∈ n.thread.scopes.toList.drop i, s.binds name = false) →
        Run.valueOf name n = Run.orFail (Fault.unknownId ("$" ++ name)) (c.env.find? name) n) ∧
      ∀ p, Acts False n p → Activation m c name (.on p i) ∨
        ∃ q q' level, Acts False n q ∧ Activation m c name (.on q i) ∧ Act False level q q' ∧
          q'.thread.scopes.size ≤ i) := by
  refine ⟨fun r v l retPc c behavior payload known => ⟨fun none_ => ?_, fun coro left => ?_⟩,
    fun n i c name active => ⟨fun blocks free => ?_, fun p acts => active.run acts⟩⟩
  · exact Run.callOnce_starts behavior payload known none_ r retPc
  · exact Run.callOnce_goesOn behavior payload known left r retPc
  · obtain ⟨-, observes⟩ := active.observes h.linked
    have reads : n.thread.env.find? name = c.env.find? name := observes.reads blocks free
    rw [Run.valueOf, Run.bind_apply, Run.ask]
    dsimp only
    rw [reads]

/-- A closure that has taken along a variable is about to be called where another value is bound to the
name. -/
def Machine.shadowed : Machine :=
  (Watch.idle.runUntil 17).after
    ((Run.compile "let: x 1; let: f {$x}; (let: x 2; $f call)").after (Engine.new {} .silent {}))

/-- The closure reads the variable that it has taken along. -/
theorem Reached.captures_shadowed : ∃ entry n,
    Run.callOnce (Run.reentry 1) ⟨.lambda, .lambda 0⟩ 0 .shadowed = .ok (.control (.jump entry)) n ∧
      (Machine.shadowed.thread.env.find? "x").bind Value.int? = some 2 ∧
      ((Run.valueOf "x").answer? n).bind Value.int? = some 1 := by
  have reached : Reached anyWatch .shadowed := .run .idle 17 trivial (.compile _ (.new ..))
  obtain ⟨caller, own, fresh, called⟩ :
      (Machine.shadowed.thread.env.find? "x").bind Value.int? = some 2 ∧
        (Machine.shadowed.shared.store.closures[0]?.bind (·.env.find? "x")).bind Value.int? = some 1 ∧
        (Machine.shadowed.shared.store.closures[0]?.bind
          fun c => Machine.shadowed.thread.coros.find? c.body.id).isNone = true ∧
        ((Run.callOnce (Run.reentry 1) ⟨.lambda, .lambda 0⟩ 0).answer? .shadowed).isSome = true := by
    decide +kernel
  obtain ⟨c, known⟩ : ∃ c, Machine.shadowed.shared.store.closures[0]? = some c := by
    cases known : Machine.shadowed.shared.store.closures[0]? with
    | none =>
      rw [known] at own
      cases own
    | some c => exact ⟨c, rfl⟩
  rw [known, Option.bind_some] at own fresh
  obtain ⟨calls, -⟩ := reached.captures.1 (Run.reentry 1) ⟨.lambda, .lambda 0⟩ 0 0 c rfl rfl known
  rcases calls (Option.isNone_iff_eq_none.1 fresh) with ⟨e, fails⟩ | ⟨entry, n, calls, starts⟩
  · rw [Run.answer?, fails] at called
    cases called
  · obtain ⟨reads, -⟩ := reached.captures.2 n _ c "x" (.started .start starts)
    obtain ⟨safety, retPc, fiber, scopes, -⟩ := starts.opened
    refine ⟨entry, n, calls, caller, ?_⟩
    rw [Run.answer?, reads]
    · obtain ⟨v, found, one⟩ := Option.bind_eq_some_iff.1 own
      rw [found]
      exact one
    · rw [scopes, List.drop_of_length_le (by rw [Array.length_toList, Array.size_push])]
      simp
    · simp [scopes, Scope.binds, Scope.lambda]

/-- Two closures of one lambda are on the stack, where the first has been left in the middle, and the
second is about to be called. -/
def Machine.twins : Machine :=
  (Watch.idle.runUntil 37).after
    ((Run.compile ("let: log []; let: mk \x7b let: n $log len; \x7b yield $n \x7d \x7d; " ++
      "let: a $mk call; $log 1 push let: b $mk call; $a call $b call")).after (Engine.new {} .silent {}))

/-- A call of the second closure goes on with the first, and reads the variable that the first has taken
along. -/
theorem captures_not_twins : Reached anyWatch .twins ∧
    Machine.twins.shared.store.closures[1]?.map (·.body.id) =
      Machine.twins.shared.store.closures[2]?.map (·.body.id) ∧
    (Machine.twins.shared.store.closures[2]?.bind (·.env.find? "n")).bind Value.int? = some 1 ∧
    ∃ reply n, Run.callOnce (Run.reentry 1) ⟨.lambda, .lambda 2⟩ 0 .twins = .ok reply n ∧
      ((Run.valueOf "n").answer? n).bind Value.int? = some 0 := by
  refine ⟨.run .idle 37 trivial (.compile _ (.new ..)), ?_⟩
  obtain ⟨same, own, called, reads⟩ :
      Machine.twins.shared.store.closures[1]?.map (·.body.id) =
        Machine.twins.shared.store.closures[2]?.map (·.body.id) ∧
      (Machine.twins.shared.store.closures[2]?.bind (·.env.find? "n")).bind Value.int? = some 1 ∧
      ((Run.callOnce (Run.reentry 1) ⟨.lambda, .lambda 2⟩ 0).answer? .twins).isSome = true ∧
      ((Run.valueOf "n").answer? ((Run.callOnce (Run.reentry 1) ⟨.lambda, .lambda 2⟩ 0).after
        .twins)).bind Value.int? = some 0 := by
    decide +kernel
  obtain ⟨reply, calls⟩ := Option.isSome_iff_exists.1 called
  exact ⟨same, own, reply, _, Run.answer?_eq_some calls, reads⟩

end Catena
