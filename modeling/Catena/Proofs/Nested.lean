import Catena.Proofs.Nesting

/-!
# Threads stand on their bottom scope

As long as no deferred call comes back to a thread with less than two scopes, every thread that is
reached has its bottom scope, as many value stacks as scopes that own one, and `try:` forms that
belong to blocks above the bottom one; so have the coroutines, as seen from the stack that their
lambda works on. A deferred call that does come back so takes the bottom scope away.
-/

namespace Catena

/-- The levels of a thread. -/
structure Thread.Nested (t : Thread) : Prop where
  root : ∃ s, t.scopes[0]? = some s ∧ s.ownsStack = true ∧ s.isLambda = false
  height : t.valueStacks.size = t.scopes.toList.countP (·.ownsStack)
  /-- The stack of a scope is the last of those owned up to it. -/
  index : ∀ k s, t.scopes[k]? = some s →
    s.stack + 1 = (t.scopes.toList.take (k + 1)).countP (·.ownsStack)
  callers : ∀ s ∈ t.scopes, s.callerEnv.isSome = s.isLambda
  order : (t.tries.toList.map (·.scope)).Pairwise (· < ·)
  blocks : ∀ f ∈ t.tries, 1 ≤ f.scope ∧
    ∃ s, t.scopes[f.scope]? = some s ∧ s.ownsStack = true ∧ s.isLambda = false
  loops : ∀ s ∈ t.scopes, s.loops.keys.Nodup

/-- The levels of a coroutine. -/
structure Coroutine.Nested (c : Coroutine) : Prop where
  head : ∃ s, c.scopes[0]? = some s ∧ s.isLambda = true ∧ s.ownsStack = false ∧ s.stack = 0 ∧
    s.callerEnv = none
  height : c.valueStacks.size = c.scopes.toList.countP (·.ownsStack)
  /-- The stack of a scope is the last of those owned up to it, or the one of the lambda. -/
  index : ∀ k s, c.scopes[k]? = some s →
    s.stack = (c.scopes.toList.take (k + 1)).countP (·.ownsStack)
  callers : ∀ k s, c.scopes[k + 1]? = some s → s.callerEnv.isSome = s.isLambda
  order : (c.tries.toList.map (·.scope)).Pairwise (· < ·)
  blocks : ∀ f ∈ c.tries, 1 ≤ f.scope ∧
    ∃ s, c.scopes[f.scope]? = some s ∧ s.ownsStack = true ∧ s.isLambda = false
  loops : ∀ s ∈ c.scopes, s.loops.keys.Nodup

/-- The levels of a thread and of everything left in the middle. -/
structure Machine.Nested (m : Machine) : Prop where
  thread : m.thread.Nested
  depth : m.thread.scopes.size ≤ max 1 m.shared.config.limits.maxScopeDepth
  coros : ∀ id c, m.thread.coros.find? id = some c → c.Nested
  fibers : ∀ f ∈ m.shared.store.fibers, ∀ c, f.state = .suspended c → c.Nested

namespace Linked

variable {scopes : List Scope} {height : Nat} {frames : List TryFrame}

/-- The value stacks of linked scopes that do not start from nothing. -/
theorem height_countP (h : Linked scopes height frames) {root : Scope}
    (lowest : scopes[0]? = some root) :
    height + (if root.ownsStack then 1 else 0) =
      root.stack + 1 + scopes.countP (·.ownsStack) := by
  have some_ : scopes ≠ [] := fun empty => by simp [empty] at lowest
  have last := List.getLast?_eq_some_getLast some_
  have top := h.top _ last
  rw [List.getLast?_eq_getElem?] at last
  have index := stack_countP h.chain lowest last
  have pos := List.length_pos_iff.2 some_
  rw [Nat.sub_add_cancel pos, List.take_length] at index
  omega

/-- A `try:` form belongs to a block. -/
theorem block_of_frame (h : Linked scopes height frames) {f : TryFrame} (member : f ∈ frames) :
    ∃ s, scopes[f.scope]? = some s ∧ s.ownsStack = true ∧ s.isLambda = false := by
  obtain ⟨s, found, owns⟩ := h.blocks f member
  refine ⟨s, found, owns, Bool.eq_false_iff.2 fun lambda => ?_⟩
  have shares := h.lambdas s (List.mem_of_getElem? found) lambda
  rw [owns] at shares
  cases shares

end Linked

theorem Thread.Linked.nested {t : Thread} (h : t.Linked) (rooted : t.Rooted) : t.Nested := by
  obtain ⟨root, lowest, owns, block, zero⟩ := rooted.root
  have bottom : t.scopes.toList[0]? = some root := Array.getElem?_toList.trans lowest
  constructor
  · exact ⟨root, lowest, owns, block⟩
  · have height := h.linked.height_countP bottom
    rw [owns, zero] at height
    simp only [if_true] at height
    omega
  · intro k s found
    have index := Linked.stack_countP h.linked.chain bottom (Array.getElem?_toList.trans found)
    rw [owns, zero] at index
    simp only [if_true] at index
    omega
  · exact fun s member => h.called s (Array.mem_def.1 member)
  · exact h.linked.order
  · intro f member
    obtain ⟨s, found, rest⟩ := h.linked.block_of_frame (Array.mem_def.1 member)
    exact ⟨rooted.frames f member, s, Array.getElem?_toList.symm.trans found, rest⟩
  · exact fun s member => h.linked.loops s (Array.mem_def.1 member)

theorem Coroutine.Linked.nested {c : Coroutine} (h : c.Linked) : c.Nested := by
  obtain ⟨head, rest, all, lambda, zero, noCaller, called⟩ := h.parts
  have lowest : c.scopes.toList[0]? = some head := by rw [all]; rfl
  have shares : head.ownsStack = false := h.linked.lambdas head (all ▸ List.mem_cons_self) lambda
  constructor
  · exact ⟨head, Array.getElem?_toList.symm.trans lowest, lambda, shares, zero, noCaller⟩
  · have height := h.linked.height_countP lowest
    rw [shares, zero] at height
    simp only [Bool.false_eq_true, if_false] at height
    omega
  · intro k s found
    have index := Linked.stack_countP h.linked.chain lowest (Array.getElem?_toList.trans found)
    rw [shares, zero] at index
    simp only [Bool.false_eq_true, if_false] at index
    omega
  · intro k s found
    have inside := Array.getElem?_toList.trans found
    rw [all] at inside
    exact called s (List.mem_of_getElem? inside)
  · exact h.linked.order
  · intro f member
    obtain ⟨s, found, owns, block⟩ := h.linked.block_of_frame (Array.mem_def.1 member)
    refine ⟨Nat.pos_of_ne_zero fun bottom => ?_, s, Array.getElem?_toList.symm.trans found, owns, block⟩
    rw [bottom, lowest] at found
    obtain rfl := Option.some.inj found
    rw [lambda] at block
    cases block
  · exact fun s member => h.linked.loops s (Array.mem_def.1 member)

/-! ## All machines that are reached -/

theorem linked_new (config : Config) (log : Log.Logger) (host : Host) :
    (Engine.new config log host).Linked := by
  have drift := new_drift config log host
  refine ⟨.root .., nofun, ?_, Nat.le_max_left _ _⟩
  rw [drift.fibers]
  nofun

/-- Nesting stays sound in whatever way runs are watched. -/
theorem Reached.linked {kind : Watch → Prop} {m : Machine} (h : Reached kind m) : m.Linked :=
  h.keeps (False.elim ·) linked_new (fun _ id linked => linked.fork id) fun _ _ changes linked =>
    changes.linked linked

theorem rooted_root (id : Nat) (ops : Array Op) (env : Env) (values : Array Value)
    (safety : Safety) :
    Thread.Rooted { id, ops, env, valueStacks := #[values], scopes := #[Scope.root safety] } :=
  ⟨⟨_, rfl, rfl, rfl, rfl⟩, nofun⟩

theorem Reached.rooted {m : Machine} (h : Reached Watch.Careful m) : m.thread.Rooted :=
  h.keeps (fun _ _ care => care) (fun _ _ _ => rooted_root ..) (fun _ _ _ => rooted_root ..)
    fun _ _ changes => changes.rooted

/-- Deferred calls that come back to the last scope take that away. -/
theorem closeScope_bottom (r : Reentry) (keepTop : Bool) {m n : Machine} {first : Option Fault}
    (more : 1 < m.thread.scopes.size)
    (called : Run.makeDeferred r m.thread.scope.defers none
      { m with thread := m.thread.modifyScope fun s => { s with defers := [] } } = .ok first n)
    (few : n.thread.scopes.size ≤ 1) :
    ((Run.closeScope r keepTop).after m).thread.scopes = #[] := by
  have gone : (n.thread.closeScope keepTop).2.scopes = #[] := by
    rw [(Thread.closeScope_rest n.thread keepTop).1]
    exact Array.eq_empty_of_size_eq_zero (by rw [Array.size_pop]; omega)
  have ends (p : Machine) : (Run.passOn first).after p = p := by
    cases first <;> rfl
  rw [Run.closeScope, Run.after_bind, Run.ask]
  dsimp only
  rw [if_neg (Nat.not_le.2 more)]
  rw [Run.after_bind, Run.ask]
  dsimp only
  rw [Run.after_bind, Run.alter]
  dsimp only
  rw [Run.after_bind, called]
  dsimp only
  rw [Run.after_bind, Run.ask]
  dsimp only
  rw [Run.after_bind, Run.alter]
  dsimp only
  cases n.thread.scope.fiber with
  | none =>
    refine Eq.trans (congrArg (fun p : Machine => p.thread.scopes) (ends _)) ?_
    exact gone
  | some f =>
    dsimp only
    rw [Run.after_bind, Run.setFiber, Run.alterStore, Run.alterShared]
    dsimp only
    refine Eq.trans (congrArg (fun p : Machine => p.thread.scopes) (ends _)) ?_
    exact gone

/-- The watch that stops as a call comes back to less than two scopes. -/
def Watch.upright : Watch := ⟨fun _ _ => false, fun _ m => decide (m.thread.scopes.size < 2)⟩

/-- A block that has deferred a call that jumps to where three scopes are closed: the two of the call
and the block. -/
def Machine.overclosing : Machine :=
  (Watch.runUntil ⟨fun _ m => !m.thread.scope.defers.isEmpty, Watch.upright.returns⟩ 100).after
    ((Run.compile "( {x!} defer-call ) done! ( ( ( @x ) ) ) @done").after
      (Engine.new {} .silent {}))

/-- What holds of the levels of a machine that is reached, and where it ends to hold: if a deferred
call comes back to less than two scopes, no scope is left. -/
theorem Reached.nesting {m : Machine} (h : Reached Watch.Careful m) :
    m.Nested ∧ (∀ n, Change True m n → m.thread.KeepsBlocks n.thread) ∧
    ∀ (r : Reentry) (keepTop : Bool) (n : Machine) (first : Option Fault),
      1 < m.thread.scopes.size →
      Run.makeDeferred r m.thread.scope.defers none
        { m with thread := m.thread.modifyScope fun s => { s with defers := [] } } = .ok first n →
      n.thread.scopes.size ≤ 1 →
      ((Run.closeScope r keepTop).after m).thread.scopes = #[] := by
  have linked := h.linked
  refine ⟨⟨?_, linked.room, ?_, ?_⟩, ?_, ?_⟩
  · exact linked.thread.nested h.rooted
  · exact fun id c found => (linked.coros id c found).nested
  · exact fun f member c left => (linked.fibers f member c left).nested
  · intro n change
    exact change.moves.keepsBlocks linked.thread (change.linked linked).thread
  · intro r keepTop n first
    exact closeScope_bottom r keepTop

theorem Reached.nesting_overclosing :
    Machine.overclosing.Nested ∧
    Machine.overclosing.thread.KeepsBlocks (Machine.overclosing.thread.openBlock true .safe) ∧
    ((Run.closeScope (Run.reentry 2) true).after .overclosing).thread.scopes = #[] := by
  have reached : Reached Watch.Careful .overclosing :=
    .run _ 100 (fun _ few => decide_eq_true few) (.compile _ (.new ..))
  obtain ⟨nested, keeps, bottom⟩ := reached.nesting
  refine ⟨nested, ?_, ?_⟩
  · refine keeps _ (.openBlock true .safe ?_ nofun)
    rw [Machine.hasRoom]
    decide +kernel
  · refine bottom (Run.reentry 2) true _ none ?_ (Run.answer?_eq_some ?_) ?_
    · decide +kernel
    · decide +kernel
    · decide +kernel

end Catena
