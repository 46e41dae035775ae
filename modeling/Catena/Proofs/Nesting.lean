import Catena.Proofs.Linked
import Catena.Proofs.Run.Reached

/-!
# The nesting of a machine

The scopes, value stacks and `try:` forms of a thread stay linked whatever changes a machine, and so
do those of everything left in the middle (`Changes.linked`).
-/

namespace Catena

/-- Lambdas, and nothing else, have the variables of a caller to come back to. -/
def Called (scopes : List Scope) : Prop :=
  ∀ s ∈ scopes, s.callerEnv.isSome = s.isLambda

/-- The nesting of a thread is sound. -/
structure Thread.Linked (t : Thread) : Prop where
  linked : Catena.Linked t.scopes.toList t.valueStacks.size t.tries.toList
  called : Called t.scopes.toList

/-- The nesting of a coroutine is sound, as seen from the stack that its lambda works on. -/
structure Coroutine.Linked (c : Coroutine) : Prop where
  linked : Catena.Linked c.scopes.toList (c.valueStacks.size + 1) c.tries.toList
  parts : ∃ head rest, c.scopes.toList = head :: rest ∧ head.isLambda = true ∧ head.stack = 0 ∧
    head.callerEnv = none ∧ Called rest

/-- The nesting of a thread and of everything left in the middle is sound, and not too deep. -/
structure Machine.Linked (m : Machine) : Prop where
  thread : m.thread.Linked
  coros : ∀ id c, m.thread.coros.find? id = some c → c.Linked
  fibers : ∀ f ∈ m.shared.store.fibers, ∀ c, f.state = .suspended c → c.Linked
  room : m.thread.scopes.size ≤ max 1 m.shared.config.limits.maxScopeDepth

theorem Called.append {lower upper : List Scope} (h : Called lower) (k : Called upper) :
    Called (lower ++ upper) :=
  fun s member => (List.mem_append.1 member).elim (h s) (k s)

namespace Thread

variable {t : Thread}

/-- The stack of the topmost scope is the last one. -/
theorem Linked.join (h : t.Linked) {s s' : Scope} (last : t.scopes.toList.getLast? = some s)
    (stack : t.valueStacks.size ≠ 0 →
      s'.stack = t.valueStacks.size - 1 + if s'.ownsStack then 1 else 0) : s.Above s' := by
  have top := h.linked.top s last
  have stack := stack (by omega)
  rw [Scope.above_iff]
  omega

/-- No `try:` form is added. -/
theorem Drift.fewer {t' : Thread} (h : t.Drift t') :
    t'.tries.toList.map (·.scope) <+: t.tries.toList.map (·.scope) := by
  have scope : TryFrame.scope ∘ TryFrame.bare = TryFrame.scope := rfl
  simpa only [List.map_map, scope] using h.tries.map TryFrame.scope

theorem Linked.drift {t' : Thread} (h : t.Linked) (d : t.Drift t') : t'.Linked where
  linked := by
    have places : t'.scopes.toList.map Scope.place = t.scopes.toList.map Scope.place := by
      have place : Scope.place ∘ Scope.bare = Scope.place := rfl
      have bare := congrArg (List.map Scope.place) (congrArg Array.toList d.scopes)
      simpa only [Array.toList_map, List.map_map, place] using bare
    have loops := d.loops fun s member => h.linked.loops s (Array.mem_def.1 member)
    refine h.linked.drift places (fun s member => loops s (Array.mem_def.2 member)) ?_ d.fewer
    rcases d.heights with same | ⟨none, -⟩
    · exact .inl same
    · exact .inr none
  called := fun s' member => by
    have image : s'.bare ∈ t.scopes.map Scope.bare :=
      d.scopes ▸ Array.mem_map_of_mem (Array.mem_def.2 member)
    obtain ⟨s, member, same⟩ := Array.mem_map.1 image
    have env : s.callerEnv = s'.callerEnv := (congrArg Scope.callerEnv same : s.bare.callerEnv = _)
    have callee : s.callee = s'.callee := (congrArg Scope.callee same : s.bare.callee = _)
    have called := h.called s (Array.mem_def.1 member)
    rwa [env, Scope.isLambda, callee] at called

/-- A scope is opened, and a frame for it or none. -/
theorem Linked.push (h : t.Linked) {t' : Thread} {s : Scope} {frames : List TryFrame}
    (scopes : t'.scopes = t.scopes.push s)
    (tries : t'.tries.toList =
      t.tries.toList ++ frames.map fun f => { f with scope := f.scope + t.scopes.size })
    (stack : t.valueStacks.size ≠ 0 →
      s.stack = t.valueStacks.size - 1 + if s.ownsStack then 1 else 0)
    (alone : Catena.Linked [s] t'.valueStacks.size frames)
    (called : s.callerEnv.isSome = s.isLambda) : t'.Linked where
  linked := by
    rw [scopes, Array.toList_push, tries]
    refine h.linked.append alone (fun s last u first => ?_) nofun
    obtain rfl := Option.some.inj first
    exact h.join last stack
  called := by
    rw [scopes, Array.toList_push]
    exact h.called.append (by simpa [Called] using called)

/-- A block with a stack of its own, and the frame of a `try:` form or none. -/
theorem Linked.openOwn (h : t.Linked) (safety : Safety) {frames : List TryFrame} {tries : Array TryFrame}
    (added : tries.toList =
      t.tries.toList ++ frames.map fun f => { f with scope := f.scope + t.scopes.size })
    (alone : Catena.Linked [Scope.block safety t.valueStacks.size true] (t.valueStacks.size + 1)
      frames) : Linked { t.openBlock true safety with tries } := by
  have size : (t.valueStacks.push #[]).size = t.valueStacks.size + 1 := Array.size_push _
  have opened : t.openBlock true safety =
      { t with
        valueStacks := t.valueStacks.push #[]
        scopes := t.scopes.push (Scope.block safety t.valueStacks.size true) } := by
    simp [Thread.openBlock]
  rw [opened]
  refine h.push rfl added (fun some_ => ?_) (size ▸ alone) rfl
  exact (Nat.succ_pred some_).symm

theorem block_alone (safety : Safety) (stack : Nat) (ownStack : Bool) :
    Catena.Linked [Scope.block safety stack ownStack] (stack + 1) [] :=
  .single _ rfl nofun List.nodup_nil

theorem Linked.openBlock (h : t.Linked) (ownStack : Bool) (safety : Safety)
    (stack : ownStack = false → t.valueStacks.size ≠ 0) : (t.openBlock ownStack safety).Linked := by
  have none : t.tries.toList = t.tries.toList ++ ([] : List TryFrame).map fun f =>
      { f with scope := f.scope + t.scopes.size } := (List.append_nil _).symm
  cases ownStack with
  | true => exact h.openOwn safety none (block_alone safety _ true)
  | false =>
    have alone := block_alone safety (t.valueStacks.size - 1) false
    rw [Nat.sub_add_cancel (Nat.pos_of_ne_zero (stack rfl))] at alone
    exact h.push rfl none (fun _ => rfl) alone rfl

theorem Linked.openTry (h : t.Linked) (safety : Safety) (frame : TryFrame)
    (scope : frame.scope = t.scopes.size) :
    Linked { t.openBlock true safety with tries := t.tries.push frame } := by
  have alone : Catena.Linked [Scope.block safety t.valueStacks.size true] (t.valueStacks.size + 1)
      [{ frame with scope := 0 }] :=
    { block_alone safety t.valueStacks.size true with
      order := List.pairwise_singleton _ _
      blocks := fun f member => by
        rw [List.mem_singleton.1 member]
        exact ⟨_, rfl, rfl⟩ }
  refine h.openOwn safety ?_ alone
  rw [Array.toList_push, List.map_singleton, Nat.zero_add, ← scope]

theorem Linked.openLambda (h : t.Linked) (c : Closure) (safety : Safety) (retPc : Nat)
    (fiber : Option Ref) (stack : t.valueStacks.size ≠ 0) :
    Linked { t.openLambda c safety retPc with
      scopes := t.scopes.push
        { Scope.lambda c safety (t.valueStacks.size - 1) retPc t.env with fiber } } := by
  have alone : Catena.Linked
      [{ Scope.lambda c safety (t.valueStacks.size - 1) retPc t.env with fiber }]
      t.valueStacks.size [] :=
    .single _ (Nat.succ_pred stack) (fun _ => rfl) List.nodup_nil
  have none : t.tries.toList = t.tries.toList ++ ([] : List TryFrame).map fun f =>
      { f with scope := f.scope + t.scopes.size } := (List.append_nil _).symm
  exact h.push rfl none (fun _ => rfl) alone rfl

/-- Closing the innermost scope leaves what belongs to the others. -/
theorem closeScope_rest (t : Thread) (keepTop : Bool) :
    (t.closeScope keepTop).2.scopes = t.scopes.pop ∧
      (t.closeScope keepTop).2.tries = t.tries.filter (fun f => f.scope < t.scopes.pop.size) ∧
      (t.closeScope keepTop).2.coros = t.coros ∧ (t.closeScope keepTop).2.cache = t.cache := by
  rw [closeScope_eq]
  exact ⟨rfl, rfl, rfl, rfl⟩

theorem push_size (t : Thread) (v : Value) (some_ : t.valueStacks.size ≠ 0) :
    (t.push v).valueStacks.size = t.valueStacks.size := by
  unfold Thread.push Thread.modifyStack
  rw [if_neg (by simpa using some_)]
  exact Array.size_modify

/-- The value stack of the innermost scope goes with it if that owned one. -/
theorem closeScope_stacks (t : Thread) (keepTop : Bool)
    (more : t.scope.ownsStack = true → 2 ≤ t.valueStacks.size) :
    (t.closeScope keepTop).2.valueStacks.size + (if t.scope.ownsStack then 1 else 0) =
      t.valueStacks.size := by
  unfold Thread.closeScope
  dsimp only
  cases owns : t.scope.ownsStack with
  | false => rfl
  | true =>
    have more := more owns
    have popped : t.valueStacks.pop.size + 1 = t.valueStacks.size := by
      rw [Array.size_pop]
      omega
    rw [if_pos rfl, if_pos rfl]
    split
    · rw [push_size _ _ (by rw [Array.size_pop]; omega)]
      exact popped
    · exact popped

theorem Linked.closeScope (h : t.Linked) (keepTop : Bool) : (t.closeScope keepTop).2.Linked := by
  obtain ⟨scopes, tries, -, -⟩ := closeScope_rest t keepTop
  have size : t.scopes.pop.toList.length = t.scopes.pop.size := Array.length_toList
  have frames : (t.closeScope keepTop).2.tries.toList =
      Linked.framesBelow t.tries.toList t.scopes.pop.toList.length := by
    rw [tries, Array.toList_filter, size]
    rfl
  rcases List.eq_nil_or_concat t.scopes.toList with none | ⟨lower, s, all⟩
  · have rest : t.scopes.pop.toList = [] := by rw [Array.toList_pop, none]; rfl
    have no : Linked.framesBelow t.tries.toList 0 = [] :=
      List.filter_eq_nil_iff.2 fun f _ => by simp
    constructor
    · rw [scopes, frames, rest, List.length_nil, no]
      exact .nil _
    · rw [scopes, rest]
      exact nofun
  · rw [List.concat_eq_append] at all
    have last : t.scope = s := by
      rw [Thread.scope, ← Array.getLast?_toList, all]
      simp
    have rest : t.scopes.pop.toList = lower := by rw [Array.toList_pop, all]; simp
    have linked := h.linked
    rw [all] at linked
    have top := linked.top s (by simp)
    constructor
    · rw [scopes, frames, rest]
      refine linked.pop fun some_ => ?_
      have height := closeScope_stacks t keepTop
      rw [last] at height
      refine height fun owns => ?_
      have above := (List.isChain_append.1 linked.chain).2.2 _ (List.getLast?_eq_some_getLast some_)
        s rfl
      rw [Scope.above_iff, owns] at above
      simp only [if_true] at above
      omega
    · rw [scopes, rest]
      exact fun u member => h.called u (all ▸ List.mem_append_left _ member)

/-! ## Cutting off and putting back -/

/-- The stack of a scope is one of those there are. -/
theorem Linked.stack_lt (h : t.Linked) {i : Nat} {s : Scope} (found : t.scopes[i]? = some s) :
    s.stack < t.valueStacks.size := by
  rw [← Array.getElem?_toList] at found
  have lt := (List.getElem?_eq_some_iff.1 found).1
  have below : t.scopes.toList.length - 1 < t.scopes.toList.length := by omega
  have last := List.getElem?_eq_getElem below
  have low := Catena.Linked.stack_mono h.linked.chain (by omega) found last
  have top := h.linked.top _ (by rw [List.getLast?_eq_getElem?, last])
  omega

theorem extract_lower {γ : Type} (xs : Array γ) (n : Nat) :
    (xs.extract 0 n).toList = xs.toList.take n := by
  simp

theorem extract_upper {γ : Type} (xs : Array γ) (n : Nat) :
    (xs.extract n xs.size).toList = xs.toList.drop n := by
  simp [List.take_of_length_le]

theorem called_isLambda {s : Scope} {callee : Closure} (called : s.callee = some callee) :
    s.isLambda = true := by
  rw [Scope.isLambda, called]
  rfl

theorem parted {scopes : List Scope} {i : Nat} {head : Scope} (found : scopes[i]? = some head) :
    scopes.drop i = head :: scopes.drop (i + 1) := by
  obtain ⟨bound, rfl⟩ := List.getElem?_eq_some_iff.1 found
  exact List.drop_eq_getElem_cons bound

/-- What a lambda is cut off from stays linked. -/
theorem Linked.cut_left (h : t.Linked) {i : Nat} {head : Scope} {callee : Closure}
    (found : t.scopes[i]? = some head) (called : head.callee = some callee) (lambda : Nat) :
    (t.cut i head lambda).2.Linked := by
  have lt := h.stack_lt found
  rw [← Array.getElem?_toList] at found
  have shares : head.ownsStack = false :=
    h.linked.lambdas head (List.mem_of_getElem? found) (called_isLambda called)
  have size : (t.valueStacks.extract 0 (head.stack + 1)).size = head.stack + 1 := by
    rw [Array.size_extract]
    omega
  constructor
  · simp only [Thread.cut, extract_lower, size, Linked.take_findIdx h.linked.order i]
    refine h.linked.take i fun s last => ?_
    have chain := h.linked.chain
    rw [← List.take_append_drop i t.scopes.toList, parted found] at chain
    have above := (List.isChain_append.1 chain).2.2 s last head rfl
    rw [Scope.above_iff, shares] at above
    simp only [Bool.false_eq_true, if_false] at above
    omega
  · simp only [Thread.cut, extract_lower]
    exact fun s member => h.called s (List.mem_of_mem_take member)

/-- The scopes that are cut off, the lambda's own first. -/
theorem cut_scopes {i : Nat} {head : Scope} (found : t.scopes[i]? = some head) (lambda : Nat) :
    (t.cut i head lambda).1.scopes.toList =
      { head with stack := 0, callerEnv := none, fiber := none } ::
        (t.scopes.toList.drop (i + 1)).map fun s => { s with stack := s.stack - head.stack } := by
  rw [← Array.getElem?_toList] at found
  simp only [Thread.cut, Array.toList_map, Array.toList_modify, extract_upper, parted found]
  simp

/-- What is cut off is linked. -/
theorem Linked.cut_off (h : t.Linked) {i : Nat} {head : Scope} {callee : Closure}
    (found : t.scopes[i]? = some head) (called : head.callee = some callee) (lambda : Nat) :
    (t.cut i head lambda).1.Linked := by
  have lt := h.stack_lt found
  have scopes := cut_scopes found lambda
  rw [← Array.getElem?_toList] at found
  have upper := h.linked.drop found
  rw [parted found] at upper
  have frames : (t.cut i head lambda).1.tries.toList =
      (t.tries.toList.filter fun f => i ≤ f.scope).map fun f => { f with scope := f.scope - i } := by
    rw [← Linked.drop_findIdx h.linked.order i, ← extract_upper]
    simp [Thread.cut]
  constructor
  · rw [scopes, frames]
    refine upper.drift ?_ ?_ (.inl ?_) List.prefix_rfl
    · simp [Scope.place, Scope.isLambda]
    · intro s member
      rcases List.mem_cons.1 member with rfl | member
      · exact h.linked.loops head (List.mem_of_getElem? found)
      · exact upper.loops s (List.mem_cons_of_mem _ member)
    · simp only [Thread.cut, Array.size_extract]
      omega
  · refine ⟨_, _, scopes, called_isLambda called, rfl, rfl, fun s member => ?_⟩
    obtain ⟨u, inside, rfl⟩ := List.mem_map.1 member
    exact h.called u (List.mem_of_mem_drop inside)

/-- The scopes of a coroutine on top of those of a thread. -/
theorem graft_scopes {c : Coroutine} {head : Scope} {rest : List Scope}
    (all : c.scopes.toList = head :: rest) (retPc : Nat) (fiber : Option Ref) :
    (t.graft c retPc fiber).scopes.toList = t.scopes.toList ++
      { head with
        stack := head.stack + (t.valueStacks.size - 1), callerEnv := some t.env, retPc, fiber } ::
        rest.map fun s => { s with stack := s.stack + (t.valueStacks.size - 1) } := by
  simp only [Thread.graft, Array.toList_append, Array.toList_modify, Array.toList_map, all]
  rfl

theorem Linked.graft (h : t.Linked) {c : Coroutine} (k : c.Linked) (retPc : Nat)
    (fiber : Option Ref) (stack : t.valueStacks.size ≠ 0) : (t.graft c retPc fiber).Linked := by
  obtain ⟨head, rest, all, lambda, zero, -, called⟩ := k.parts
  have scopes := graft_scopes (t := t) all retPc fiber
  have raised := k.linked.raise (t.valueStacks.size - 1)
  rw [all] at raised
  have upper : Catena.Linked
      ({ head with
        stack := head.stack + (t.valueStacks.size - 1), callerEnv := some t.env, retPc, fiber } ::
        rest.map fun s => { s with stack := s.stack + (t.valueStacks.size - 1) })
      (t.graft c retPc fiber).valueStacks.size c.tries.toList := by
    refine raised.drift ?_ ?_ (.inl ?_) List.prefix_rfl
    · simp [Scope.place, Scope.isLambda]
    · intro s member
      rcases List.mem_cons.1 member with rfl | member
      · exact k.linked.loops head (all ▸ List.mem_cons_self)
      · exact raised.loops s (List.mem_cons_of_mem _ member)
    · simp only [Thread.graft, Array.size_append]
      omega
  constructor
  · have frames : (t.graft c retPc fiber).tries.toList = t.tries.toList ++
        c.tries.toList.map fun f => { f with scope := f.scope + t.scopes.toList.length } := by
      simp [Thread.graft]
    rw [scopes, frames]
    refine h.linked.append upper (fun s last u first => ?_) nofun
    obtain rfl := Option.some.inj first
    have shares : head.ownsStack = false :=
      k.linked.lambdas head (all ▸ List.mem_cons_self) lambda
    exact h.join last fun _ => by simp [zero, shares]
  · rw [scopes]
    refine h.called.append fun s member => ?_
    rcases List.mem_cons.1 member with rfl | member
    · exact lambda.symm
    · obtain ⟨u, inside, rfl⟩ := List.mem_map.1 member
      exact called u inside

theorem cut_size (t : Thread) (i : Nat) (head : Scope) (lambda : Nat) :
    (t.cut i head lambda).2.scopes.size ≤ t.scopes.size := by
  simp only [Thread.cut, Array.size_extract]
  omega

theorem graft_size (t : Thread) (c : Coroutine) (retPc : Nat) (fiber : Option Ref) :
    (t.graft c retPc fiber).scopes.size = t.scopes.size + c.scopes.size := by
  simp [Thread.graft]

theorem Linked.root (id : Nat) (ops : Array Op) (env : Env) (values : Array Value)
    (safety : Safety) :
    Linked { id, ops, env, valueStacks := #[values], scopes := #[Scope.root safety] } where
  linked := .single _ rfl nofun List.nodup_nil
  called := by simp [Called, Scope.root, Scope.isLambda]

end Thread

/-! ## Machines -/

variable {careful : Prop} {m n : Machine}

/-- No fiber but those that are set to be is left in the middle. -/
theorem Machine.Linked.of_modify (h : m.Linked) {f : Ref} {state : FiberState} {t : Thread}
    (thread : t.Linked) (coros : ∀ id c, t.coros.find? id = some c → c.Linked)
    (room : t.scopes.size ≤ max 1 m.shared.config.limits.maxScopeDepth)
    (linked : ∀ c, state = .suspended c → c.Linked) :
    (Machine.alterFibers { m with thread := t }
      (·.modify f fun fiber => { fiber with state })).Linked where
  thread := thread
  coros := coros
  fibers := fun fiber member c left => by
    obtain ⟨i, bound, rfl⟩ := Array.mem_iff_getElem.1 member
    simp only [Machine.alterFibers, Array.getElem_modify] at left
    split at left
    · exact linked c left
    · exact h.fibers _ (Array.getElem_mem _) c left
  room := room

theorem Change.linked (h : Change careful m n) (linked : m.Linked) : n.Linked := by
  have still (t : Thread) (thread : t.Linked)
      (coros : ∀ id c, t.coros.find? id = some c → m.thread.coros.find? id = some c ∨ c.Linked)
      (room : t.scopes.size ≤ m.thread.scopes.size ∨
        t.scopes.size ≤ m.shared.config.limits.maxScopeDepth) :
      Machine.Linked { m with thread := t } :=
    { thread
      coros := fun id c found => (coros id c found).elim (linked.coros id c) fun h => h
      fibers := linked.fibers
      room := by have deep := linked.room; dsimp only; omega }
  cases h with
  | shared s drift =>
    exact ⟨linked.thread, linked.coros, drift.fibers ▸ linked.fibers, drift.config ▸ linked.room⟩
  | thread t drift =>
    have size : t.scopes.size = m.thread.scopes.size := by
      simpa using congrArg Array.size drift.scopes
    exact still t (linked.thread.drift drift) (fun id c found => .inl (drift.coros id c found))
      (.inl (Nat.le_of_eq size))
  | newFiber id target =>
    refine ⟨linked.thread, linked.coros, fun f member c left => ?_, linked.room⟩
    rcases Array.mem_push.1 member with old | rfl
    · exact linked.fibers f old c left
    · cases left
  | markFiber f state fresh =>
    exact linked.of_modify linked.thread linked.coros linked.room fun c left => absurd left (fresh c)
  | remember imp name imps known member =>
    exact still _ ⟨linked.thread.linked, linked.thread.called⟩ (fun _ _ => .inl) (.inl (Nat.le_refl _))
  | openBlock ownStack safety room stack =>
    refine still _ (linked.thread.openBlock ownStack safety stack) (fun _ _ => .inl) (.inr ?_)
    exact (Array.size_push _).trans_le room
  | openTry safety frame room scope =>
    refine still _ (linked.thread.openTry safety frame scope) (fun _ _ => .inl) (.inr ?_)
    exact (Array.size_push _).trans_le room
  | openLambda c safety retPc fiber room stack known =>
    refine still _ (linked.thread.openLambda c safety retPc fiber stack) (fun _ _ => .inl) (.inr ?_)
    exact (Array.size_push _).trans_le room
  | close keepTop last =>
    obtain ⟨scopes, -, coros, -⟩ := Thread.closeScope_rest m.thread keepTop
    refine still _ (linked.thread.closeScope keepTop) (fun id c found => .inl (coros ▸ found))
      (.inl ?_)
    rw [scopes, Array.size_pop]
    exact Nat.sub_le _ _
  | suspendLambda i head callee found called =>
    have left := linked.thread.cut_left found called callee.body.id
    have off := linked.thread.cut_off found called callee.body.id
    refine still _ ⟨left.linked, left.called⟩ (fun id c stored => ?_) 
      (.inl (m.thread.cut_size i head callee.body.id))
    rw [Dict.find?_insert] at stored
    split at stored
    · exact .inr (Option.some.inj stored ▸ off)
    · exact .inl stored
  | suspendFiber i head callee f found called =>
    have left := linked.thread.cut_left found called callee.body.id
    have off := linked.thread.cut_off found called callee.body.id
    have size := m.thread.cut_size i head callee.body.id
    refine linked.of_modify left linked.coros (size.trans linked.room) fun c same => ?_
    exact FiberState.suspended.inj same ▸ off
  | resumeLambda id coro retPc found room stack =>
    have kept : ({ m.thread with coros := m.thread.coros.erase id } : Thread).Linked :=
      ⟨linked.thread.linked, linked.thread.called⟩
    refine still _ (kept.graft (linked.coros id coro found) retPc none stack) (fun k c stored => ?_)
      (.inr ((Thread.graft_size _ coro retPc none).trans_le room))
    replace stored : (m.thread.coros.erase id).find? k = some c := stored
    rw [Dict.find?_erase] at stored
    split at stored
    · cases stored
    · exact .inl stored
  | resumeFiber f fiber coro retPc found left room stack =>
    have off := linked.fibers fiber (Array.mem_of_getElem? found) coro left
    have size := (Thread.graft_size m.thread coro retPc (some f)).trans_le room
    exact linked.of_modify (linked.thread.graft off retPc (some f) stack) linked.coros
      (size.trans (Nat.le_max_right _ _)) nofun

theorem Changes.config (h : Changes careful m n) : n.shared.config = m.shared.config := by
  induction h with
  | refl => rfl
  | next _ step ih =>
    rw [← ih]
    cases step with
    | shared s drift => exact drift.config
    | _ => rfl
  | fork id _ _ ih child => exact child.trans ih

theorem Machine.Linked.fork (h : m.Linked) (id : Nat) :
    Machine.Linked { m with thread := m.thread.fork id } where
  thread := .root ..
  coros := nofun
  fibers := h.fibers
  room := Nat.le_max_left 1 _

/-- Whatever changes there are, nesting stays sound. -/
theorem Changes.linked (h : Changes careful m n) (linked : m.Linked) : n.Linked := by
  induction h with
  | refl => exact linked
  | next _ step ih => exact step.linked (ih linked)
  | fork id before child ih childIh =>
    have back := ih linked
    have childs := childIh (back.fork id)
    exact ⟨back.thread, back.coros, childs.fibers, child.config ▸ back.room⟩

/-! ## The bottom scope -/

/-- A thread stands on a block with a stack of its own, and no `try:` form belongs to that. -/
structure Thread.Rooted (t : Thread) : Prop where
  root : ∃ s, t.scopes[0]? = some s ∧ s.ownsStack = true ∧ s.isLambda = false ∧ s.stack = 0
  frames : ∀ f ∈ t.tries, 1 ≤ f.scope

/-- What a change can do to the levels of a thread. -/
inductive Thread.Moves (careful : Prop) (t t' : Thread) : Prop
  | drift (h : t.Drift t')
  | grow (upper : Array Scope) (frames : Array TryFrame) (scopes : t'.scopes = t.scopes ++ upper)
      (tries : t'.tries = t.tries ++ frames) (above : ∀ f ∈ frames, t.scopes.size ≤ f.scope)
  | shrink (n : Nat) (scopes : t'.scopes = t.scopes.extract 0 n)
      (tries : ∀ f ∈ t'.tries, f ∈ t.tries) (root : careful → t.Rooted → n ≠ 0)

/-- The `try:` forms of a thread that were there before still belong to the same blocks, and the
others to blocks that were not there before. -/
def Thread.KeepsBlocks (t t' : Thread) : Prop :=
  ∀ f ∈ t'.tries, t.scopes.size ≤ f.scope ∨
    ∃ g ∈ t.tries, g.scope = f.scope ∧
      (t'.scopes.toList.take (f.scope + 1)).map Scope.bare =
        (t.scopes.toList.take (f.scope + 1)).map Scope.bare

namespace Thread

variable {t t' : Thread}

theorem Drift.exists_frame (h : t.Drift t') {f : TryFrame} (member : f ∈ t'.tries) :
    ∃ g ∈ t.tries, g.scope = f.scope := by
  have image := h.fewer.subset (List.mem_map_of_mem (Array.mem_def.1 member))
  obtain ⟨g, member, same⟩ := List.mem_map.1 image
  exact ⟨g, Array.mem_def.2 member, same⟩

theorem Moves.rooted (h : t.Moves True t') (rooted : t.Rooted) : t'.Rooted := by
  obtain ⟨s, found, owns, block, zero⟩ := rooted.root
  cases h with
  | drift h =>
    constructor
    · have image : (t'.scopes.map Scope.bare)[0]? = some s.bare := by
        rw [h.scopes, Array.getElem?_map, found]
        rfl
      rw [Array.getElem?_map] at image
      obtain ⟨s', found', same⟩ := Option.map_eq_some_iff.1 image
      have place : s'.place = s.place := (congrArg Scope.place same : s'.bare.place = s.bare.place)
      exact ⟨s', found', (congrArg Scope.Place.ownsStack place).trans owns,
        (congrArg Scope.Place.isLambda place).trans block,
        (congrArg Scope.Place.stack place).trans zero⟩
    · intro f member
      obtain ⟨g, member, same⟩ := h.exists_frame member
      exact same ▸ rooted.frames g member
  | grow upper frames scopes tries above =>
    have lt : 0 < t.scopes.size := (Array.getElem?_eq_some_iff.1 found).1
    constructor
    · exact ⟨s, by rw [scopes, Array.getElem?_append_left lt, found], owns, block, zero⟩
    · intro f member
      rw [tries] at member
      rcases Array.mem_append.1 member with old | new
      · exact rooted.frames f old
      · exact lt.trans_le (above f new)
  | shrink n scopes tries root =>
    have some_ := root trivial rooted
    constructor
    · refine ⟨s, ?_, owns, block, zero⟩
      rw [scopes, ← Array.getElem?_toList, extract_lower,
        List.getElem?_take_of_lt (Nat.pos_of_ne_zero some_), Array.getElem?_toList, found]
    · exact fun f member => rooted.frames f (tries f member)

theorem Moves.keepsBlocks {careful : Prop} (h : t.Moves careful t') (linked : t.Linked)
    (linked' : t'.Linked) : t.KeepsBlocks t' := by
  intro f member
  cases h with
  | drift h =>
    obtain ⟨g, member, same⟩ := h.exists_frame member
    refine .inr ⟨g, member, same, ?_⟩
    have bare : t'.scopes.toList.map Scope.bare = t.scopes.toList.map Scope.bare := by
      simpa using congrArg Array.toList h.scopes
    rw [List.map_take, List.map_take, bare]
  | grow upper frames scopes tries above =>
    rw [tries] at member
    rcases Array.mem_append.1 member with old | new
    · refine .inr ⟨f, old, rfl, ?_⟩
      have lt := linked.linked.frame_lt (Array.mem_def.1 old)
      rw [scopes, Array.toList_append, List.take_append_of_le_length lt]
    · exact .inl (above f new)
  | shrink n scopes tries root =>
    refine .inr ⟨f, tries f member, rfl, ?_⟩
    have lt := linked'.linked.frame_lt (Array.mem_def.1 member)
    rw [scopes, extract_lower] at lt ⊢
    rw [List.take_take]
    rw [List.length_take] at lt
    congr 2
    omega

end Thread

theorem Thread.Moves.cut {t t' : Thread} {i : Nat} {head : Scope} {callee : Closure}
    (found : t.scopes[i]? = some head) (called : head.callee = some callee) (lambda : Nat)
    (scopes : t'.scopes = (t.cut i head lambda).2.scopes)
    (tries : t'.tries = (t.cut i head lambda).2.tries) : t.Moves careful t' := by
  refine .shrink i scopes (fun f member => ?_) fun _ rooted bottom => ?_
  · rw [tries] at member
    have inside := Array.mem_def.1 member
    rw [Thread.cut, extract_lower] at inside
    exact Array.mem_def.2 (List.mem_of_mem_take inside)
  · obtain ⟨s, lowest, -, block, -⟩ := rooted.root
    rw [bottom, lowest] at found
    obtain rfl := Option.some.inj found
    rw [Thread.called_isLambda called] at block
    cases block

theorem Thread.graft_above (frames : Array TryFrame) (depth : Nat) (f : TryFrame)
    (member : f ∈ frames.map fun f => { f with scope := f.scope + depth }) : depth ≤ f.scope := by
  obtain ⟨g, -, rfl⟩ := Array.mem_map.1 member
  exact Nat.le_add_left _ _

/-- Each change moves the levels of a thread in one of the ways there are. -/
theorem Change.moves (h : Change careful m n) : m.thread.Moves careful n.thread := by
  cases h with
  | shared s drift => exact .drift (.refl _)
  | thread t drift => exact .drift drift
  | newFiber id target => exact .drift (.refl _)
  | markFiber f state fresh => exact .drift (.refl _)
  | remember imp name imps known member =>
    exact .grow #[] #[] (Array.append_empty).symm (Array.append_empty).symm nofun
  | openBlock ownStack safety room stack =>
    exact .grow #[_] #[] Array.push_eq_append (Array.append_empty).symm nofun
  | openTry safety frame room scope =>
    refine .grow #[_] #[frame] Array.push_eq_append Array.push_eq_append fun f member => ?_
    rw [Array.mem_singleton.1 member]
    exact scope.ge
  | openLambda c safety retPc fiber room stack known =>
    exact .grow #[_] #[] Array.push_eq_append (Array.append_empty).symm nofun
  | close keepTop last =>
    obtain ⟨scopes, tries, -, -⟩ := Thread.closeScope_rest m.thread keepTop
    refine .shrink (m.thread.scopes.size - 1) ?_ (fun f member => ?_) fun care _ => ?_
    · rw [scopes, ← Array.toList_inj, Array.toList_pop, Thread.extract_lower, List.dropLast_eq_take,
        Array.length_toList]
    · rw [tries] at member
      exact (Array.mem_filter.1 member).1
    · have more := last care
      omega
  | suspendLambda i head callee found called => exact .cut found called callee.body.id rfl rfl
  | suspendFiber i head callee f found called => exact .cut found called callee.body.id rfl rfl
  | resumeLambda id coro retPc found room stack =>
    exact .grow _ _ rfl rfl (Thread.graft_above _ _)
  | resumeFiber f fiber coro retPc found left room stack =>
    exact .grow _ _ rfl rfl (Thread.graft_above _ _)

theorem Changes.rooted (h : Changes True m n) (rooted : m.thread.Rooted) : n.thread.Rooted := by
  induction h with
  | refl => exact rooted
  | next _ step ih => exact step.moves.rooted (ih rooted)
  | fork id _ _ ih _ => exact ih rooted

end Catena
