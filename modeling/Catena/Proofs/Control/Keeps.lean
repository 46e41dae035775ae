import Catena.Proofs.Control.Seats
import Catena.Proofs.Hygiene
import Catena.Proofs.Run.Flat

/-!
# What is kept below

While scopes come and go at the top of a thread, what is below is kept (`Thread.Keeps`): the scopes with
their bindings and deferred calls, the value stacks, the `try:` forms, and the variables that will be in
force again. Only loops may be let go of further down, by a `break` that is refused, and the innermost
form may collect faults; where no operation leaves a loop, all loops below are kept as well. What stays at
one level of nesting keeps everything but the innermost scope's deferred calls and the stack in use
(`Thread.Still`), and a call from inside an operation keeps these as well (`Thread.Aside`).
-/

namespace Catena

/-! ## Scopes, forms and variables -/

namespace Scope

/-- A scope without its loops. -/
def unlooped (s : Scope) : Scope := { s with loops := ∅ }

/-- The same scope, but for loops that were let go of. -/
structure Kept (s s' : Scope) : Prop where
  same : s'.unlooped = s.unlooped
  loops : ∀ k st, s'.loops.find? k = some st → s.loops.find? k = some st

/-- The same scope, but for its deferred calls and loops that were let go of. -/
def Stayed (s s' : Scope) : Prop := s.settled.Kept s'.settled

variable {s s' s'' : Scope}

theorem Kept.refl (s : Scope) : s.Kept s := ⟨rfl, fun _ _ h => h⟩

theorem Kept.trans (h : s.Kept s') (k : s'.Kept s'') : s.Kept s'' :=
  ⟨k.same.trans h.same, fun i st found => h.loops i st (k.loops i st found)⟩

theorem Kept.stack (h : s.Kept s') : s'.stack = s.stack := by
  have same := congrArg Scope.stack h.same
  exact same

theorem Kept.stayed (h : s.Kept s') : s.Stayed s' := by
  constructor
  · have same := congrArg settled h.same
    exact same
  · exact h.loops

theorem Stayed.leave (h : s.Stayed s') : s'.leave = s.leave := by
  have caller := congrArg Scope.callerEnv h.same
  have bound := congrArg Scope.bound h.same
  exact leave_congr caller bound

theorem Stayed.seat (h : s.Stayed s') : s.seat.Fewer s'.seat := by
  constructor
  · have callee := congrArg (fun s => s.callee.map (·.body)) h.same
    exact callee
  · have retPc := congrArg Scope.retPc h.same
    exact retPc
  · exact h.loops

instance : Std.Refl Kept := ⟨.refl⟩

theorem kept_trans {a b c : List Scope} (h : List.Forall₂ Kept a b) (k : List.Forall₂ Kept b c) :
    List.Forall₂ Kept a c := by
  induction h generalizing c with
  | nil => cases k; exact .nil
  | cons first _ ih =>
    cases k with
    | cons first' rest => exact .cons (first.trans first') (ih rest)

theorem stayed_trans {a b c : List Scope} (h : List.Forall₂ Stayed a b) (k : List.Forall₂ Stayed b c) :
    List.Forall₂ Stayed a c := by
  induction h generalizing c with
  | nil => cases k; exact .nil
  | cons first _ ih =>
    cases k with
    | cons first' rest => exact .cons (first.trans first') (ih rest)

/-- Scopes that stay leave the same variables behind. -/
theorem foldr_leave_stayed {a b : List Scope} (h : List.Forall₂ Stayed a b) (env : Env) :
    b.foldr leave env = a.foldr leave env := by
  induction h with
  | nil => rfl
  | cons first _ ih => rw [List.foldr_cons, List.foldr_cons, first.leave, ih]

theorem foldr_leave_kept {a b : List Scope} (h : List.Forall₂ Kept a b) (env : Env) :
    b.foldr leave env = a.foldr leave env :=
  foldr_leave_stayed (h.imp fun _ _ => Kept.stayed) env

end Scope

/-- The same `try:` forms, but for the faults that the innermost has collected. -/
def Recorded (frames frames' : List TryFrame) : Prop :=
  frames'.map TryFrame.bare = frames.map TryFrame.bare ∧ frames'.dropLast = frames.dropLast

namespace Recorded

variable {a b c : List TryFrame}

theorem refl (a : List TryFrame) : Recorded a a := ⟨rfl, rfl⟩

theorem trans (h : Recorded a b) (k : Recorded b c) : Recorded a c :=
  ⟨k.1.trans h.1, k.2.trans h.2⟩

/-- The forms that began before a scope. -/
theorem filter (h : Recorded a b) (i : Nat) :
    Recorded (Linked.framesBelow a i) (Linked.framesBelow b i) := by
  constructor
  · rw [Thread.Below.map_framesBelow, Thread.Below.map_framesBelow, h.1]
  · rcases List.eq_nil_or_concat a with rfl | ⟨init, f, rfl⟩
    · obtain rfl := List.map_eq_nil_iff.1 h.1
      rfl
    · rcases List.eq_nil_or_concat b with rfl | ⟨init', f', rfl⟩
      · have none := h.1
        simp at none
      · obtain ⟨bare, same⟩ := h
        simp only [List.concat_eq_append, List.dropLast_concat] at same
        subst same
        simp only [List.concat_eq_append, List.map_append, List.append_cancel_left_eq] at bare
        have scope : f'.scope = f.scope := by
          have image := congrArg TryFrame.scope (List.singleton_inj.1 bare)
          exact image
        simp only [Linked.framesBelow, List.concat_eq_append, List.filter_append, List.filter_cons,
          List.filter_nil, scope]
        split <;> simp

end Recorded

namespace Env.Same

theorem refl (env : Env) : Same env env := fun _ => rfl

theorem symm {a b : Env} (h : Same a b) : Same b a := fun name => (h name).symm

end Env.Same

/-! ## Below -/

/-- Whether an operation leaves a loop. -/
def Op.breaks : Op → Bool
  | .exit label _ => match label.role with
    | some (.break, _) => true
    | _ => false
  | _ => false

/-- No operation of the thread leaves a loop. -/
def Thread.Unbroken (t : Thread) : Prop := ∀ op ∈ t.ops, op.breaks = false

/-- The loops in the scopes, the lowest first. -/
def Thread.loops (t : Thread) : List (Dict Nat LoopState) := t.scopes.toList.map Scope.loops

/-- The `i` lowest scopes of a thread and its `h` lowest value stacks are kept, and so are the forms
that began in these scopes and the variables that belong to them. -/
structure Thread.Keeps (i h : Nat) (t t' : Thread) : Prop where
  scopes : List.Forall₂ Scope.Kept (t.scopes.toList.take i) (t'.scopes.toList.take i)
  loops : t.Unbroken → t'.loops.take i = t.loops.take i
  valueStacks : ∀ k < h, t'.valueStacks[k]? = t.valueStacks[k]?
  tries : Recorded (Linked.framesBelow t.tries.toList i) (Linked.framesBelow t'.tries.toList i)
  env : Env.Same (t'.under i) (t.under i)
  ops : t'.ops = t.ops
  loopBase : t'.loopBase = t.loopBase

theorem Thread.length_loops (t : Thread) : t.loops.length = t.scopes.size := by
  rw [loops, List.length_map, Array.length_toList]

/-- The same scopes hold the same loops. -/
theorem Thread.loops_take {t t' : Thread} {i : Nat}
    (same : t'.scopes.toList.take i = t.scopes.toList.take i) : t'.loops.take i = t.loops.take i := by
  rw [loops, loops, ← List.map_take, ← List.map_take, same]

theorem Thread.Unbroken.of_ops {t t' : Thread} (h : t.Unbroken) (same : t'.ops = t.ops) : t'.Unbroken := by
  rwa [Unbroken, same]

namespace Thread.Keeps

variable {t t' u : Thread} {i h i' h' : Nat}

theorem refl (i h : Nat) (t : Thread) : t.Keeps i h t :=
  ⟨List.forall₂_refl _, fun _ => rfl, fun _ _ => rfl, .refl _, .refl _, rfl, rfl⟩

theorem trans (a : t.Keeps i h t') (b : t'.Keeps i h u) : t.Keeps i h u where
  scopes := Scope.kept_trans a.scopes b.scopes
  loops := fun unbroken => (b.loops (unbroken.of_ops a.ops)).trans (a.loops unbroken)
  valueStacks := fun k lt => (b.valueStacks k lt).trans (a.valueStacks k lt)
  tries := a.tries.trans b.tries
  env := b.env.trans a.env
  ops := b.ops.trans a.ops
  loopBase := b.loopBase.trans a.loopBase

theorem framesBelow_framesBelow (frames : List TryFrame) (le : i ≤ i') :
    Linked.framesBelow (Linked.framesBelow frames i') i = Linked.framesBelow frames i := by
  rw [Linked.framesBelow, Linked.framesBelow, Linked.framesBelow, List.filter_filter]
  apply List.filter_congr
  intro f _
  rw [Bool.eq_iff_iff]
  simp only [Bool.and_eq_true, decide_eq_true_eq]
  omega

/-- What is kept of more is kept of less. -/
theorem mono (a : t.Keeps i' h' t') (scopes : i ≤ i') (heights : h ≤ h') : t.Keeps i h t' where
  scopes := by
    have lower := List.forall₂_take i a.scopes
    simpa only [List.take_take, Nat.min_eq_left scopes] using lower
  loops := fun unbroken => by
    have lower := congrArg (List.take i) (a.loops unbroken)
    simpa only [List.take_take, Nat.min_eq_left scopes] using lower
  valueStacks := fun k lt => a.valueStacks k (by omega)
  tries := by
    have lower := a.tries.filter i
    rwa [framesBelow_framesBelow _ scopes, framesBelow_framesBelow _ scopes] at lower
  env := by
    rw [t.under_parts scopes, t'.under_parts scopes,
      Scope.foldr_leave_kept (List.forall₂_drop i a.scopes)]
    exact foldr_leave_same _ a.env
  ops := a.ops
  loopBase := a.loopBase

/-- Levels are put on top. -/
theorem grow {upper : List Scope} {more : Array (Array Value)} {frames : Array TryFrame}
    (scopes : t'.scopes.toList = t.scopes.toList ++ upper)
    (valueStacks : t'.valueStacks = t.valueStacks ++ more) (tries : t'.tries = t.tries ++ frames)
    (above : ∀ f ∈ frames, t.scopes.size ≤ f.scope) (env : upper.foldr Scope.leave t'.env = t.env)
    (ops : t'.ops = t.ops) (loopBase : t'.loopBase = t.loopBase) :
    t.Keeps t.scopes.size t.valueStacks.size t' where
  scopes := by
    rw [scopes, ← Array.length_toList, List.take_left, List.take_length]
    exact List.forall₂_refl _
  loops := fun _ => loops_take <| by
    rw [scopes, ← Array.length_toList, List.take_left, List.take_length]
  valueStacks := fun k lt => by rw [valueStacks, Array.getElem?_append_left lt]
  tries := by
    have none : Linked.framesBelow frames.toList t.scopes.size = [] := by
      apply List.filter_eq_nil_iff.2
      intro f member
      have high := above f (Array.mem_def.2 member)
      simp only [decide_eq_true_eq]
      omega
    have same : Linked.framesBelow t'.tries.toList t.scopes.size =
        Linked.framesBelow t.tries.toList t.scopes.size := by
      rw [tries, Array.toList_append, Linked.framesBelow, List.filter_append]
      change _ ++ Linked.framesBelow frames.toList _ = _
      rw [none, List.append_nil]
      rfl
    rw [same]
    exact .refl _
  env := by
    rw [under_append scopes env (Nat.le_refl _)]
    exact .refl _
  ops := ops
  loopBase := loopBase

/-- Levels are taken off. -/
theorem shrink (scopes : t'.scopes.toList = t.scopes.toList.take i)
    (valueStacks : ∀ k < h, t'.valueStacks[k]? = t.valueStacks[k]?)
    (tries : t'.tries.toList = Linked.framesBelow t.tries.toList i) (env : t'.env = t.under i)
    (ops : t'.ops = t.ops) (loopBase : t'.loopBase = t.loopBase) : t.Keeps i h t' where
  scopes := by
    rw [scopes, List.take_take, Nat.min_self]
    exact List.forall₂_refl _
  loops := fun _ => loops_take <| by
    rw [scopes, List.take_take, Nat.min_self]
  valueStacks := valueStacks
  tries := by
    rw [tries, framesBelow_framesBelow _ (Nat.le_refl i)]
    exact .refl _
  env := by
    rw [under_take scopes env (Nat.le_refl i)]
    exact .refl _
  ops := ops
  loopBase := loopBase

/-- Only the topmost scope is touched, and its variables along with it. -/
theorem within (size : t'.scopes.size = t.scopes.size) (lower : t'.scopes.pop = t.scopes.pop)
    (valueStacks : ∀ k < h, t'.valueStacks[k]? = t.valueStacks[k]?)
    (tries : Recorded t.tries.toList t'.tries.toList)
    (env : Env.Same (t'.under (t.scopes.size - 1)) (t.under (t.scopes.size - 1)))
    (ops : t'.ops = t.ops) (loopBase : t'.loopBase = t.loopBase) :
    t.Keeps (t.scopes.size - 1) h t' := by
  have left : t'.scopes.toList.take (t.scopes.size - 1) = t.scopes.toList.take (t.scopes.size - 1) := by
    have popped := congrArg Array.toList lower
    rw [Array.toList_pop, Array.toList_pop, List.dropLast_eq_take, List.dropLast_eq_take,
      Array.length_toList, Array.length_toList, size] at popped
    exact popped
  constructor
  · rw [left]
    exact List.forall₂_refl _
  · exact fun _ => loops_take left
  · exact valueStacks
  · exact tries.filter _
  · exact env
  · exact ops
  · exact loopBase

end Thread.Keeps

/-! ## At one level -/

/-- At the same level of nesting and the same place, with all that is below; the innermost scope may
have deferred other calls, and only the stack in use is written to. -/
structure Thread.Still (t t' : Thread) : Prop where
  scopes : List.Forall₂ Scope.Stayed t.scopes.toList t'.scopes.toList
  loops : t.Unbroken → t'.loops = t.loops
  height : t'.valueStacks.size = t.valueStacks.size
  tries : Recorded t.tries.toList t'.tries.toList
  env : Env.Same t'.env t.env
  pc : t'.pc = t.pc
  keeps : t.Keeps (t.scopes.size - 1) (t.valueStacks.size - 1) t'

/-- Come back to as it was. -/
structure Thread.Aside (t t' : Thread) : Prop where
  size : t'.scopes.size = t.scopes.size
  height : t'.valueStacks.size = t.valueStacks.size
  tries : Recorded t.tries.toList t'.tries.toList
  pc : t'.pc = t.pc
  retPc : t'.retPc = t.retPc
  keeps : t.Keeps t.scopes.size t.valueStacks.size t'

/-- So many of the lowest scopes are as they were, but for their deferred calls and loops that were let go
of. -/
structure Thread.Rests (depth : Nat) (t t' : Thread) : Prop where
  scopes : List.Forall₂ Scope.Stayed (t.scopes.toList.take depth) (t'.scopes.toList.take depth)
  loops : t.Unbroken → t'.loops.take depth = t.loops.take depth
  ops : t'.ops = t.ops

/-- The scopes of a thread, the topmost first. -/
def Thread.seats (t : Thread) : List Seat := (t.scopes.toList.map Scope.seat).reverse

/-- The `try:` forms of a thread, the innermost first. -/
def Thread.frames (t : Thread) : List TryFrame := (t.tries.toList.map TryFrame.bare).reverse

/-- The scopes and forms of a thread are right for a place. -/
def Thread.Seated (ops : List Op) (G : Ground) (x : Nat) (t : Thread) : Prop :=
  Catena.Seated ops G x t.seats t.frames

namespace Thread

variable {t t' u : Thread}

/-- Loops may be let go of in any scope. -/
theorem Seated.stayed {ops : List Op} {G : Ground} {x : Nat} (h : t.Seated ops G x)
    (scopes : List.Forall₂ Scope.Stayed t.scopes.toList t'.scopes.toList) (frames : t'.frames = t.frames) :
    t'.Seated ops G x := by
  rw [Thread.Seated, frames]
  apply h.fewer
  rw [seats, seats, List.forall₂_reverse_iff, List.forall₂_map_left_iff, List.forall₂_map_right_iff]
  exact scopes.imp fun _ _ stayed => stayed.seat

namespace Still

theorem size (h : t.Still t') : t'.scopes.size = t.scopes.size := by
  have length := h.scopes.length_eq
  rw [Array.length_toList, Array.length_toList] at length
  exact length.symm

theorem refl (t : Thread) : t.Still t :=
  ⟨List.forall₂_same.2 fun _ _ => .refl _, fun _ => rfl, rfl, .refl _, .refl _, rfl, .refl _ _ _⟩

theorem trans (h : t.Still t') (k : t'.Still u) : t.Still u := by
  have keeps := k.keeps
  rw [h.size, h.height] at keeps
  have loops (unbroken : t.Unbroken) : u.loops = t.loops :=
    (k.loops (unbroken.of_ops h.keeps.ops)).trans (h.loops unbroken)
  exact ⟨Scope.stayed_trans h.scopes k.scopes, loops, k.height.trans h.height, h.tries.trans k.tries,
    k.env.trans h.env, k.pc.trans h.pc, h.keeps.trans keeps⟩

/-- What is not of the levels may change. -/
theorem aside (scopes : t'.scopes = t.scopes) (valueStacks : t'.valueStacks = t.valueStacks)
    (tries : t'.tries = t.tries) (env : t'.env = t.env) (pc : t'.pc = t.pc) (ops : t'.ops = t.ops)
    (loopBase : t'.loopBase = t.loopBase) : t.Still t' := by
  constructor
  · rw [scopes]
    exact List.forall₂_same.2 fun _ _ => .refl _
  · intro _
    rw [Thread.loops, Thread.loops, scopes]
  · rw [valueStacks]
  · rw [tries]
    exact .refl _
  · rw [env]
    exact .refl _
  · exact pc
  · apply Keeps.within (by rw [scopes]) (by rw [scopes]) _ (by rw [tries]; exact .refl _) _ ops loopBase
    · intro k _
      rw [valueStacks]
    · rw [under, under, scopes, env]
      exact .refl _

/-- A tidy change stays at the level. -/
theorem of_tidy {f : Thread → Thread} (tidy : Tidy f) (linked : t.Linked) (rooted : t.scopes.size ≠ 0) :
    t.Still (f t) := by
  have top := linked.top rooted
  have drift := tidy.drift t
  have rest := tidy.rest t
  have settled := congrArg Array.toList (tidy.scopes t)
  rw [Array.toList_map, Array.toList_map] at settled
  have size : (f t).scopes.size = t.scopes.size := by
    simpa using congrArg List.length settled
  have env : (f t).env = t.env := by
    have same := congrArg Thread.env rest
    exact same
  have stayed : List.Forall₂ Scope.Stayed t.scopes.toList (f t).scopes.toList := by
    have eq : List.Forall₂ (· = ·) (t.scopes.toList.map Scope.settled)
        ((f t).scopes.toList.map Scope.settled) := by
      rw [settled]
      exact List.forall₂_refl _
    rw [List.forall₂_map_left_iff, List.forall₂_map_right_iff] at eq
    apply eq.imp
    intro s s' same
    rw [Scope.Stayed, same]
    exact .refl _
  have recorded : Recorded t.tries.toList (f t).tries.toList := by
    constructor
    · have bare := congrArg Array.toList (tidy.tries t)
      rwa [Array.toList_map, Array.toList_map] at bare
    · have outer := congrArg Array.toList (tidy.outer t)
      rwa [Array.toList_pop, Array.toList_pop] at outer
  have lower : ∀ k < t.valueStacks.size - 1, (f t).valueStacks[k]? = t.valueStacks[k]? := by
    intro k lt
    exact drift.lower k (by omega) (by omega)
  have under : Env.Same ((f t).under (t.scopes.size - 1)) (t.under (t.scopes.size - 1)) := by
    have leave (s s' : Scope) (h : s.settled = s'.settled) : s.leave = s'.leave := by
      have caller := congrArg Scope.callerEnv h
      have bound := congrArg Scope.bound h
      exact Scope.leave_congr caller bound
    have folded (u : Thread) : u.under (t.scopes.size - 1) =
        ((u.scopes.toList.map Scope.settled).drop (t.scopes.size - 1)).foldr Scope.leave u.env := by
      rw [Thread.under, ← List.map_drop, List.foldr_map]
      exact congrArg (fun f => List.foldr f u.env _) (funext fun s => leave _ _ rfl)
    rw [folded, folded t, settled, env]
    exact .refl _
  have loops : (f t).loops = t.loops := by
    have same := congrArg (List.map Scope.loops) settled
    rwa [List.map_map, List.map_map] at same
  constructor
  · exact stayed
  · exact fun _ => loops
  · rcases drift.heights with same | ⟨none, -⟩
    · exact same
    · omega
  · exact recorded
  · rw [env]
    exact .refl _
  · have same := congrArg Thread.pc rest
    exact same
  · apply Keeps.within size (tidy.lower t) lower recorded under (tidy.ops t)
    have same := congrArg Thread.loopBase rest
    exact same

/-- What is to come back below any scope is what it was. -/
theorem under (h : t.Still t') (i : Nat) : Env.Same (t'.under i) (t.under i) := by
  rw [Thread.under, Thread.under, Scope.foldr_leave_stayed (List.forall₂_drop i h.scopes)]
  exact foldr_leave_same _ h.env

theorem seated {ops : List Op} {G : Ground} {x : Nat} (h : t.Still t') (seated : t.Seated ops G x) :
    t'.Seated ops G x :=
  Thread.Seated.stayed seated h.scopes (by rw [frames, frames, h.tries.1])

end Still

namespace Aside

theorem refl (t : Thread) : t.Aside t := ⟨rfl, rfl, .refl _, rfl, rfl, .refl _ _ _⟩

theorem trans (h : t.Aside t') (k : t'.Aside u) : t.Aside u := by
  have keeps := k.keeps
  rw [h.size, h.height] at keeps
  exact ⟨k.size.trans h.size, k.height.trans h.height, h.tries.trans k.tries, k.pc.trans h.pc,
    k.retPc.trans h.retPc, h.keeps.trans keeps⟩

theorem still (h : t.Aside t') : t.Still t' := by
  constructor
  · have kept := h.keeps.scopes
    have all : t.scopes.toList.take t.scopes.size = t.scopes.toList := by
      rw [← Array.length_toList, List.take_length]
    have all' : t'.scopes.toList.take t.scopes.size = t'.scopes.toList := by
      rw [← h.size, ← Array.length_toList, List.take_length]
    rw [all, all'] at kept
    exact kept.imp fun _ _ same => same.stayed
  · intro unbroken
    have loops := h.keeps.loops unbroken
    rwa [List.take_of_length_le (Nat.le_of_eq (t'.length_loops.trans h.size)),
      List.take_of_length_le (Nat.le_of_eq t.length_loops)] at loops
  · exact h.height
  · exact h.tries
  · have env := h.keeps.env
    rw [under_size, ← h.size, under_size] at env
    exact env
  · exact h.pc
  · exact h.keeps.mono (Nat.sub_le _ _) (Nat.sub_le _ _)

end Aside

namespace Rests

variable {depth h : Nat}

theorem trans (a : t.Rests depth t') (b : t'.Rests depth u) : t.Rests depth u where
  scopes := Scope.stayed_trans a.scopes b.scopes
  loops := fun unbroken => (b.loops (unbroken.of_ops a.ops)).trans (a.loops unbroken)
  ops := b.ops.trans a.ops

theorem of_keeps (a : t.Keeps depth h t') : t.Rests depth t' :=
  ⟨a.scopes.imp fun _ _ kept => kept.stayed, a.loops, a.ops⟩

theorem goTo (a : t.Rests depth t') (pc : Nat) : t.Rests depth { t' with pc } :=
  ⟨a.scopes, a.loops, a.ops⟩

/-- Scopes are put on top. -/
theorem grow {upper : List Scope} (on : t'.scopes.toList = t.scopes.toList ++ upper)
    (ops : t'.ops = t.ops) : t.Rests t.scopes.size t' := by
  have below : t'.scopes.toList.take t.scopes.size = t.scopes.toList.take t.scopes.size := by
    rw [on, ← Array.length_toList, List.take_left, List.take_length]
  constructor
  · rw [below]
    exact List.forall₂_same.2 fun s _ => (Scope.Kept.refl s).stayed
  · exact fun _ => loops_take below
  · exact ops

end Rests

theorem Still.rests (h : t.Still t') : t.Rests t.scopes.size t' := by
  have all : t.scopes.toList.take t.scopes.size = t.scopes.toList := by
    rw [← Array.length_toList, List.take_length]
  have all' : t'.scopes.toList.take t.scopes.size = t'.scopes.toList := by
    rw [← h.size, ← Array.length_toList, List.take_length]
  constructor
  · rw [all, all']
    exact h.scopes
  · intro unbroken
    rw [h.loops unbroken]
  · exact h.keeps.ops

end Thread

end Catena
