import Catena.Proofs.Run.Change
import Mathlib.Data.List.Chain

/-!
# Scopes on value stacks

Scopes that are linked work on value stacks in step: each one that owns a stack works on the next
stack, each other one on the stack of the scope below it, and `try:` forms belong to scopes that own
their stacks. Scopes stay linked when some are cut off and when linked ones are put on top.
-/

namespace Catena

/-- The part a scope plays among others. -/
structure Scope.Place where
  stack : Nat
  ownsStack : Bool
  isLambda : Bool

/-- The stack that a scope works on, given the scope below it. -/
def Scope.Place.Above (p p' : Scope.Place) : Prop :=
  p'.stack = p.stack + if p'.ownsStack then 1 else 0

namespace Scope

/-- The part that a scope plays. -/
def place (s : Scope) : Place := ⟨s.stack, s.ownsStack, s.isLambda⟩

/-- A scope that comes right above another. -/
def Above (s s' : Scope) : Prop := s.place.Above s'.place

theorem above_iff (s s' : Scope) :
    s.Above s' ↔ s'.stack = s.stack + if s'.ownsStack then 1 else 0 := Iff.rfl

end Scope

/-- The scopes are in step with `height` value stacks, and the frames with the scopes. -/
structure Linked (scopes : List Scope) (height : Nat) (frames : List TryFrame) : Prop where
  chain : scopes.IsChain Scope.Above
  top : ∀ s, scopes.getLast? = some s → s.stack + 1 = height
  lambdas : ∀ s ∈ scopes, s.isLambda → s.ownsStack = false
  loops : ∀ s ∈ scopes, s.loops.keys.Nodup
  order : (frames.map (·.scope)).Pairwise (· < ·)
  blocks : ∀ f ∈ frames, ∃ s, scopes[f.scope]? = some s ∧ s.ownsStack = true

namespace Linked

variable {scopes : List Scope} {height : Nat} {frames : List TryFrame}

theorem frame_lt (h : Linked scopes height frames) {f : TryFrame} (member : f ∈ frames) :
    f.scope < scopes.length := by
  obtain ⟨s, found, -⟩ := h.blocks f member
  exact (List.getElem?_eq_some_iff.1 found).1

theorem nil (height : Nat) : Linked [] height [] :=
  ⟨.nil, by simp, by simp, by simp, .nil, by simp⟩

/-- One scope alone. -/
theorem single (s : Scope) (top : s.stack + 1 = height) (lambda : s.isLambda → s.ownsStack = false)
    (loops : s.loops.keys.Nodup) : Linked [s] height [] where
  chain := .singleton s
  top := fun t last => by
    obtain rfl := Option.some.inj last
    exact top
  lambdas := by simpa using lambda
  loops := by simpa using loops
  order := .nil
  blocks := nofun

/-- The stacks of linked scopes, from the lowest, never go down. -/
theorem stack_mono (h : scopes.IsChain Scope.Above) {i j : Nat} {s t : Scope} (le : i ≤ j)
    (hi : scopes[i]? = some s) (hj : scopes[j]? = some t) : s.stack ≤ t.stack := by
  induction j generalizing t with
  | zero =>
    obtain rfl := Nat.le_zero.1 le
    rw [hi] at hj
    rw [Option.some.inj hj]
  | succ j ih =>
    rcases Nat.lt_or_eq_of_le le with lt | rfl
    · obtain ⟨bound, rfl⟩ := List.getElem?_eq_some_iff.1 hj
      have below : scopes[j]? = some scopes[j] := List.getElem?_eq_getElem _
      have above := List.isChain_iff_getElem.1 h j bound
      have le := ih (Nat.le_of_lt_succ lt) below
      rw [Scope.above_iff] at above
      omega
    · rw [hi] at hj
      rw [Option.some.inj hj]

/-- A scope works on the stack of the lowest one, raised by the stacks owned above that. -/
theorem stack_countP (h : scopes.IsChain Scope.Above) {root : Scope} (lowest : scopes[0]? = some root)
    {k : Nat} {s : Scope} (found : scopes[k]? = some s) :
    s.stack + (if root.ownsStack then 1 else 0) =
      root.stack + (scopes.take (k + 1)).countP (·.ownsStack) := by
  induction k generalizing s with
  | zero =>
    obtain rfl := Option.some.inj (lowest.symm.trans found)
    rw [List.take_add_one, lowest]
    simp [List.countP_cons]
  | succ k ih =>
    obtain ⟨bound, rfl⟩ := List.getElem?_eq_some_iff.1 found
    have below := ih (List.getElem?_eq_getElem (Nat.lt_of_succ_lt bound))
    have above := List.isChain_iff_getElem.1 h k bound
    rw [Scope.above_iff] at above
    rw [List.take_add_one, List.countP_append, found]
    simp only [Option.toList_some, List.countP_singleton]
    omega

/-- Scopes may change as long as their places stay, and frames may go from the end. -/
theorem drift {scopes' : List Scope} {height' : Nat} {frames' : List TryFrame}
    (h : Linked scopes height frames) (places : scopes'.map Scope.place = scopes.map Scope.place)
    (loops : ∀ s ∈ scopes', s.loops.keys.Nodup) (heights : height' = height ∨ height = 0)
    (fewer : frames'.map (·.scope) <+: frames.map (·.scope)) : Linked scopes' height' frames' where
  chain := by
    have chain : (scopes.map Scope.place).IsChain Scope.Place.Above :=
      (List.isChain_map _).2 h.chain
    exact (List.isChain_map Scope.place).1 (places ▸ chain)
  top := fun s' last => by
    have image : (scopes.map Scope.place).getLast? = some s'.place := by
      rw [← places, List.getLast?_map, last]
      rfl
    rw [List.getLast?_map] at image
    obtain ⟨s, last, same⟩ := Option.map_eq_some_iff.1 image
    have top := h.top s last
    have stack : s.stack = s'.stack := congrArg Scope.Place.stack same
    omega
  lambdas := fun s' member lambda => by
    have image : s'.place ∈ scopes.map Scope.place := places ▸ List.mem_map_of_mem member
    obtain ⟨s, member, same⟩ := List.mem_map.1 image
    have owns : s.ownsStack = s'.ownsStack := congrArg Scope.Place.ownsStack same
    have isLambda : s.isLambda = s'.isLambda := congrArg Scope.Place.isLambda same
    exact owns ▸ h.lambdas s member (isLambda ▸ lambda)
  loops := loops
  order := h.order.sublist fewer.sublist
  blocks := fun f member => by
    have image : f.scope ∈ frames.map (·.scope) := fewer.subset (List.mem_map_of_mem member)
    obtain ⟨g, member, scope⟩ := List.mem_map.1 image
    obtain ⟨s, found, owns⟩ := h.blocks g member
    have image : (scopes'.map Scope.place)[f.scope]? = some s.place := by
      rw [places, ← scope, List.getElem?_map, found]
      rfl
    rw [List.getElem?_map] at image
    obtain ⟨s', found', same⟩ := Option.map_eq_some_iff.1 image
    exact ⟨s', found', (congrArg Scope.Place.ownsStack same).trans owns⟩

/-- Linked scopes on top of linked ones. The frames of the upper ones count from the top of the lower
ones. -/
theorem append {upper : List Scope} {height' : Nat} {frames' : List TryFrame}
    (h : Linked scopes height frames) (k : Linked upper height' frames')
    (join : ∀ s, scopes.getLast? = some s → ∀ t, upper.head? = some t → Scope.Above s t)
    (same : upper = [] → height' = height) :
    Linked (scopes ++ upper) height'
      (frames ++ frames'.map fun f => { f with scope := f.scope + scopes.length }) where
  chain := h.chain.append k.chain fun s hs t ht => join s hs t ht
  top := fun s last => by
    cases upper with
    | nil =>
      rw [List.append_nil] at last
      rw [same rfl]
      exact h.top s last
    | cons t upper =>
      rw [List.getLast?_append_of_ne_nil _ (List.cons_ne_nil t upper)] at last
      exact k.top s last
  lambdas := fun s member => (List.mem_append.1 member).elim (h.lambdas s) (k.lambdas s)
  loops := fun s member => (List.mem_append.1 member).elim (h.loops s) (k.loops s)
  order := by
    rw [List.map_append, List.map_map]
    refine List.pairwise_append.2 ⟨h.order, ?_, ?_⟩
    · have order := k.order
      rw [List.pairwise_map] at order ⊢
      exact order.imp fun lt => Nat.add_lt_add_right lt _
    · intro a ha b hb
      obtain ⟨f, member, rfl⟩ := List.mem_map.1 ha
      obtain ⟨g, -, rfl⟩ := List.mem_map.1 hb
      exact Nat.lt_of_lt_of_le (h.frame_lt member) (Nat.le_add_left _ _)
  blocks := fun f member => by
    rcases List.mem_append.1 member with member | member
    · obtain ⟨s, found, owns⟩ := h.blocks f member
      exact ⟨s, by rw [List.getElem?_append_left (h.frame_lt member), found], owns⟩
    · obtain ⟨g, inside, rfl⟩ := List.mem_map.1 member
      obtain ⟨s, found, owns⟩ := k.blocks g inside
      exact ⟨s, by rw [List.getElem?_append_right (Nat.le_add_left _ _), Nat.add_sub_cancel, found],
        owns⟩

/-- The frames that belong to the scopes below the `n`-th. -/
def framesBelow (frames : List TryFrame) (n : Nat) : List TryFrame :=
  frames.filter fun f => f.scope < n

/-- The lower ones of linked scopes. -/
theorem take (h : Linked scopes height frames) (n : Nat) {height' : Nat}
    (top : ∀ s, (scopes.take n).getLast? = some s → s.stack + 1 = height') :
    Linked (scopes.take n) height' (framesBelow frames n) where
  chain := h.chain.take n
  top := top
  lambdas := fun s member => h.lambdas s (List.mem_of_mem_take member)
  loops := fun s member => h.loops s (List.mem_of_mem_take member)
  order := h.order.sublist (List.filter_sublist.map _)
  blocks := fun f member => by
    obtain ⟨member, lt⟩ := List.mem_filter.1 member
    obtain ⟨s, found, owns⟩ := h.blocks f member
    exact ⟨s, by rw [List.getElem?_take_of_lt (of_decide_eq_true lt), found], owns⟩

/-- The topmost scope goes. -/
theorem pop {s : Scope} (h : Linked (scopes ++ [s]) height frames) {height' : Nat}
    (heights : scopes ≠ [] → height' + (if s.ownsStack then 1 else 0) = height) :
    Linked scopes height' (framesBelow frames scopes.length) := by
  suffices top : ∀ t, scopes.getLast? = some t → t.stack + 1 = height' by
    have lower := h.take scopes.length (by rwa [List.take_left])
    rwa [List.take_left] at lower
  intro t last
  have above := (List.isChain_append.1 h.chain).2.2 t last s rfl
  have top := h.top s (by simp)
  have same := heights fun empty => by simp [empty] at last
  rw [Scope.above_iff] at above
  omega

/-- The upper ones of linked scopes, counted from the lowest of them and its stack. -/
theorem drop (h : Linked scopes height frames) {i : Nat} {head : Scope}
    (found : scopes[i]? = some head) :
    Linked ((scopes.drop i).map fun s => { s with stack := s.stack - head.stack })
      (height - head.stack)
      ((frames.filter fun f => i ≤ f.scope).map fun f => { f with scope := f.scope - i }) where
  chain := by
    rw [List.isChain_map]
    refine List.isChain_iff_getElem.2 fun j bound => ?_
    have chain := List.isChain_iff_getElem.1 (h.chain.drop i) j bound
    have low : head.stack ≤ (scopes.drop i)[j].stack := by
      refine stack_mono h.chain (Nat.le_add_right i j) found ?_
      rw [← List.getElem?_drop]
      exact List.getElem?_eq_getElem _
    rw [Scope.above_iff] at chain ⊢
    dsimp only
    omega
  top := fun s last => by
    rw [List.getLast?_map] at last
    obtain ⟨t, final, rfl⟩ := Option.map_eq_some_iff.1 last
    rw [List.getLast?_drop] at final
    split at final
    · cases final
    · have top := h.top t final
      rw [List.getLast?_eq_getElem?] at final
      have le : i ≤ scopes.length - 1 := by omega
      have low := stack_mono h.chain le found final
      dsimp only
      omega
  lambdas := fun s member => by
    obtain ⟨t, inside, rfl⟩ := List.mem_map.1 member
    exact h.lambdas t (List.mem_of_mem_drop inside)
  loops := fun s member => by
    obtain ⟨t, inside, rfl⟩ := List.mem_map.1 member
    exact h.loops t (List.mem_of_mem_drop inside)
  order := by
    have order := List.pairwise_map.1 h.order
    rw [List.map_map, List.pairwise_map]
    refine (order.filter _).imp_of_mem fun {f g} hf _ lt => ?_
    have le : i ≤ f.scope := of_decide_eq_true (List.mem_filter.1 hf).2
    exact Nat.sub_lt_sub_right le lt
  blocks := fun f member => by
    obtain ⟨g, kept, rfl⟩ := List.mem_map.1 member
    obtain ⟨inside, le⟩ := List.mem_filter.1 kept
    obtain ⟨s, found, owns⟩ := h.blocks g inside
    refine ⟨{ s with stack := s.stack - head.stack }, ?_, owns⟩
    rw [List.getElem?_map, List.getElem?_drop, Nat.add_sub_cancel' (of_decide_eq_true le), found]
    rfl

/-- Linked scopes on higher stacks. -/
theorem raise (h : Linked scopes height frames) (k : Nat) :
    Linked (scopes.map fun s => { s with stack := s.stack + k }) (height + k) frames where
  chain := by
    rw [List.isChain_map]
    refine h.chain.imp fun s t above => ?_
    rw [Scope.above_iff] at above ⊢
    dsimp only
    omega
  top := fun s last => by
    rw [List.getLast?_map] at last
    obtain ⟨t, final, rfl⟩ := Option.map_eq_some_iff.1 last
    have top := h.top t final
    dsimp only
    omega
  lambdas := fun s member => by
    obtain ⟨t, inside, rfl⟩ := List.mem_map.1 member
    exact h.lambdas t inside
  loops := fun s member => by
    obtain ⟨t, inside, rfl⟩ := List.mem_map.1 member
    exact h.loops t inside
  order := h.order
  blocks := fun f member => by
    obtain ⟨s, found, owns⟩ := h.blocks f member
    exact ⟨{ s with stack := s.stack + k }, by rw [List.getElem?_map, found]; rfl, owns⟩

/-! ## Frames in order -/

/-- Frames in order are parted at a scope by a place in the list. -/
theorem take_findIdx (order : (frames.map (·.scope)).Pairwise (· < ·)) (i : Nat) :
    frames.take (frames.findIdx fun f => i ≤ f.scope) = framesBelow frames i := by
  induction frames with
  | nil => rfl
  | cons f frames ih =>
    obtain ⟨first, order⟩ := List.pairwise_cons.1 order
    rw [List.findIdx_cons, framesBelow, List.filter_cons]
    by_cases h : i ≤ f.scope
    · have none : framesBelow frames i = [] := by
        refine List.filter_eq_nil_iff.2 fun g member => ?_
        have lt : f.scope < g.scope := first g.scope (List.mem_map_of_mem member)
        simp only [decide_eq_true_eq]
        omega
      rw [framesBelow] at none
      simp only [h, decide_true, cond_true, List.take_zero, Nat.not_lt.2 h, decide_false, none]
      rfl
    · rw [framesBelow] at ih
      simp only [h, decide_false, cond_false, List.take_succ_cons, ih order, Nat.lt_of_not_le h,
        decide_true, if_true]

theorem drop_findIdx (order : (frames.map (·.scope)).Pairwise (· < ·)) (i : Nat) :
    frames.drop (frames.findIdx fun f => i ≤ f.scope) = frames.filter fun f => i ≤ f.scope := by
  induction frames with
  | nil => rfl
  | cons f frames ih =>
    obtain ⟨first, order⟩ := List.pairwise_cons.1 order
    rw [List.findIdx_cons, List.filter_cons]
    by_cases h : i ≤ f.scope
    · have all : frames.filter (fun f => i ≤ f.scope) = frames := by
        refine List.filter_eq_self.2 fun g member => ?_
        have lt : f.scope < g.scope := first g.scope (List.mem_map_of_mem member)
        simp only [decide_eq_true_eq]
        omega
      simpa [h] using all.symm
    · simpa [h] using ih order

end Linked

end Catena
