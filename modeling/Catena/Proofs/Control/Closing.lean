import Catena.Proofs.Caller
import Catena.Proofs.Control.Pulls
import Mathlib.Logic.Relation

/-!
# Closing keeps what is below

Where scopes are closed, the deferred calls come back to where they were made, and so all that is below
the scopes that go is kept (`Thread.Lowered`), but for the value that a scope hands down. The scopes that
are left are right for some place (`Thread.Lowered.seated`).
-/

namespace Catena

/-- Scopes have gone, and what is below them is kept, without the `lost` topmost of the value stacks that
are left. -/
structure Thread.Lowered (lost : Nat) (t t' : Thread) : Prop where
  size : t'.scopes.size ≤ t.scopes.size
  height : t'.valueStacks.size ≤ t.valueStacks.size
  pc : t'.pc = t.pc
  keeps : t.Keeps t'.scopes.size (t'.valueStacks.size - lost) t'

/-- A scope stays open: it works on the same stack, with all that is below it, and its `try:` form has not
ended if it has one. -/
structure Thread.Holds (i : Nat) (t t' : Thread) : Prop where
  place : t'.scopes[i]?.map Scope.place = t.scopes[i]?.map Scope.place
  keeps : ∀ s, t.scopes[i]? = some s → t.Keeps i s.stack t'
  tries : Recorded (Linked.framesBelow t.tries.toList (i + 1))
    (Linked.framesBelow t'.tries.toList (i + 1))

/-- Every scope that both threads have has stayed open. -/
def Thread.Nests (t t' : Thread) : Prop :=
  ∀ i < t.scopes.size, i < t'.scopes.size → t.Holds i t'

namespace Scope

variable {s s' : Scope}

theorem Stayed.place (h : s.Stayed s') : s'.place = s.place := by
  have place := congrArg Scope.place h.same
  exact place

theorem Kept.seat (h : s.Kept s') : s.seat.Fewer s'.seat := h.stayed.seat

theorem stayed_places {a b : List Scope} (h : List.Forall₂ Stayed a b) : b.map place = a.map place := by
  induction h with
  | nil => rfl
  | cons first _ ih => rw [List.map_cons, List.map_cons, first.place, ih]

theorem kept_places {a b : List Scope} (h : List.Forall₂ Kept a b) : b.map place = a.map place :=
  stayed_places (h.imp fun _ _ => Kept.stayed)

end Scope

namespace Thread

variable {t t' u : Thread} {i j h lost : Nat}

/-! ## Scopes that stay open -/

namespace Holds

theorem refl (i : Nat) (t : Thread) : t.Holds i t :=
  ⟨rfl, fun _ _ => .refl _ _ _, .refl _⟩

theorem stack (a : t.Holds i t') {s : Scope} (found : t.scopes[i]? = some s) :
    ∃ s', t'.scopes[i]? = some s' ∧ s'.stack = s.stack := by
  have place := a.place
  rw [found] at place
  obtain ⟨s', there, same⟩ := Option.map_eq_some_iff.1 place
  have stack := congrArg Scope.Place.stack same
  exact ⟨s', there, stack⟩

theorem trans (a : t.Holds i t') (b : t'.Holds i u) : t.Holds i u where
  place := b.place.trans a.place
  keeps s found := by
    obtain ⟨s', there, stack⟩ := a.stack found
    have first := a.keeps s found
    have second := b.keeps s' there
    rw [stack] at second
    exact first.trans second
  tries := a.tries.trans b.tries

/-- What keeps a scope with all that is below keeps it open. -/
theorem of_keeps (keeps : t.Keeps j h t') (inside : i < j)
    (stack : ∀ s, t.scopes[i]? = some s → s.stack ≤ h) : t.Holds i t' where
  place := by
    have places := congrArg (fun l => l[i]?) (Scope.kept_places keeps.scopes)
    simpa only [List.getElem?_map, List.getElem?_take_of_lt inside, Array.getElem?_toList] using places
  keeps s found := keeps.mono (Nat.le_of_lt inside) (stack s found)
  tries := by
    have lower := keeps.tries.filter (i + 1)
    rwa [Keeps.framesBelow_framesBelow _ inside, Keeps.framesBelow_framesBelow _ inside] at lower

end Holds

namespace Nests

theorem refl (t : Thread) : t.Nests t := fun i _ _ => .refl i t

/-- Scopes that are open before and after have not gone in between. -/
theorem trans (a : t.Nests t') (b : t'.Nests u)
    (still : min t.scopes.size u.scopes.size ≤ t'.scopes.size) : t.Nests u := by
  intro i inside inside'
  have between : i < t'.scopes.size := by omega
  exact (a i inside between).trans (b i between inside')

/-- Levels are put on top. -/
theorem grow {upper : List Scope} {more : Array (Array Value)} {frames : Array TryFrame}
    (linked : t.Linked) (scopes : t'.scopes.toList = t.scopes.toList ++ upper)
    (valueStacks : t'.valueStacks = t.valueStacks ++ more) (tries : t'.tries = t.tries ++ frames)
    (above : ∀ f ∈ frames, t.scopes.size ≤ f.scope) (env : upper.foldr Scope.leave t'.env = t.env)
    (ops : t'.ops = t.ops) (loopBase : t'.loopBase = t.loopBase) : t.Nests t' := by
  intro i inside _
  apply Holds.of_keeps (.grow scopes valueStacks tries above env ops loopBase) inside
  exact fun s found => Nat.le_of_lt (linked.stack_lt found)

end Nests

theorem Still.nests (a : t.Still t') (linked : t.Linked) : t.Nests t' := by
  intro i inside _
  have top := linked.top (by omega)
  constructor
  · have places := congrArg (fun l => l[i]?) (Scope.stayed_places a.scopes)
    simpa only [List.getElem?_map, Array.getElem?_toList] using places
  · intro s found
    have lt := linked.stack_lt found
    exact a.keeps.mono (by omega) (by omega)
  · exact a.tries.filter (i + 1)

/-! ## Scopes that go -/

theorem framesBelow_size (linked : t.Linked) :
    Linked.framesBelow t.tries.toList t.scopes.size = t.tries.toList := by
  apply List.filter_eq_self.2
  intro f member
  have lt := linked.linked.frame_lt member
  rw [Array.length_toList] at lt
  exact decide_eq_true lt

namespace Lowered

theorem refl (lost : Nat) (t : Thread) : t.Lowered lost t :=
  ⟨Nat.le_refl _, Nat.le_refl _, rfl, .refl _ _ _⟩

theorem trans (a : t.Lowered lost t') (b : t'.Lowered lost u) : t.Lowered lost u where
  size := b.size.trans a.size
  height := b.height.trans a.height
  pc := b.pc.trans a.pc
  keeps := by
    have height := b.height
    exact (a.keeps.mono b.size (by omega)).trans b.keeps

theorem mono {more : Nat} (a : t.Lowered lost t') (le : lost ≤ more) : t.Lowered more t' :=
  { a with keeps := a.keeps.mono (Nat.le_refl _) (by omega) }

theorem holds (a : t.Lowered lost t') (few : lost ≤ 1) (linked : t'.Linked) (inside : i < t'.scopes.size) :
    t.Holds i t' := by
  apply Holds.of_keeps a.keeps inside
  intro s found
  have places := congrArg (fun l => l[i]?) (Scope.kept_places a.keeps.scopes)
  simp only [List.getElem?_map, List.getElem?_take_of_lt inside, Array.getElem?_toList, found] at places
  obtain ⟨s', there, same⟩ := Option.map_eq_some_iff.1 places
  have stack : s'.stack = s.stack := by
    have image := congrArg Scope.Place.stack same
    exact image
  have lt := linked.stack_lt there
  omega

theorem nests (a : t.Lowered lost t') (few : lost ≤ 1) (linked : t'.Linked) : t.Nests t' :=
  fun _ _ inside => a.holds few linked inside

/-- The scopes that are left. -/
theorem seats (a : t.Lowered lost t') :
    List.Forall₂ Seat.Fewer (t.seats.drop (t.scopes.size - t'.scopes.size)) t'.seats := by
  have all : t'.scopes.toList.take t'.scopes.size = t'.scopes.toList := by
    rw [← Array.length_toList, List.take_length]
  have kept := a.keeps.scopes
  rw [all] at kept
  have lower : t.seats.drop (t.scopes.size - t'.scopes.size) =
      ((t.scopes.toList.take t'.scopes.size).map Scope.seat).reverse := by
    have size := a.size
    rw [Thread.seats, List.drop_reverse, List.length_map, Array.length_toList, List.map_take]
    congr 2
    omega
  rw [lower, Thread.seats, List.forall₂_reverse_iff, List.forall₂_map_left_iff,
    List.forall₂_map_right_iff]
  exact kept.imp fun _ _ => Scope.Kept.seat

/-- The `try:` forms that are left. -/
theorem frames (a : t.Lowered lost t') (linked : t'.Linked) :
    t'.frames = t.frames.filter fun f => f.scope < t'.scopes.size := by
  have same := a.keeps.tries.1
  rw [framesBelow_size linked] at same
  rw [Thread.frames, same, Thread.frames, List.filter_reverse, Thread.Below.map_framesBelow]
  rfl

/-- Scopes that were right for a place, those above left out, still are. -/
theorem seated_at {ops : List Op} {G : Ground} {y : Nat} (a : t.Lowered lost t') (linked : t'.Linked)
    (below : Catena.Seated ops G y (t.seats.drop (t.scopes.size - t'.scopes.size))
      (t.frames.filter fun f => f.scope < t'.scopes.size)) : t'.Seated ops G y := by
  rw [Thread.Seated, a.frames linked]
  exact below.fewer a.seats

theorem seated {ops : List Op} {G : Ground} {x : Nat} (a : t.Lowered lost t') (linked : t'.Linked)
    (above : G.base ≤ t'.scopes.size) (seated : t.Seated ops G x) : ∃ y, t'.Seated ops G y := by
  have size := a.size
  have length : (t.seats.drop (t.scopes.size - t'.scopes.size)).length = t'.scopes.size := by
    rw [← a.seats.length_eq.symm, Thread.seats, List.length_reverse, List.length_map,
      Array.length_toList]
  rw [Thread.Seated, ← List.take_append_drop (t.scopes.size - t'.scopes.size) t.seats] at seated
  obtain ⟨y, below⟩ := seated.drop (by rw [length]; exact above)
  rw [length] at below
  exact ⟨y, a.seated_at linked below⟩

end Lowered

theorem Aside.lowered (a : t.Aside t') : t.Lowered 0 t' := by
  have keeps := a.keeps
  rw [← a.size, ← a.height] at keeps
  exact ⟨Nat.le_of_eq a.size, Nat.le_of_eq a.height, a.pc, keeps⟩

theorem Aside.valueStacks (a : t.Aside t') : t'.valueStacks = t.valueStacks := by
  apply Array.ext_getElem?
  intro k
  rcases Nat.lt_or_ge k t.valueStacks.size with lt | ge
  · exact a.keeps.valueStacks k lt
  · rw [Array.getElem?_eq_none ge, Array.getElem?_eq_none (a.height ▸ ge)]

theorem Still.ownsStack (a : t.Still t') : t'.scope.ownsStack = t.scope.ownsStack := by
  have owns : t'.scopes.toList.map Scope.ownsStack = t.scopes.toList.map Scope.ownsStack := by
    symm
    rw [← List.forall₂_eq_eq_eq, List.forall₂_map_left_iff, List.forall₂_map_right_iff]
    apply a.scopes.imp
    intro s s' stayed
    have same := congrArg Scope.ownsStack stayed.same
    exact same.symm
  have last := congrArg List.getLast? owns
  rw [List.getLast?_map, List.getLast?_map, Array.getLast?_toList, Array.getLast?_toList] at last
  rw [scope, scope, ← Option.getD_map Scope.ownsStack, ← Option.getD_map Scope.ownsStack, last]

/-- Which value stacks are left depends on which there are. -/
theorem stacksLeft_congr (owns : t'.scope.ownsStack = t.scope.ownsStack)
    (same : t'.valueStacks = t.valueStacks) (keepTop : Bool) :
    t'.stacksLeft keepTop = t.stacksLeft keepTop := by
  rw [stacksLeft, stacksLeft, top?, top?, stack, stack, owns, same]

/-- The value stacks that are left when the innermost scope goes and hands nothing down. -/
theorem closeScope_dropped (t : Thread) : (t.closeScope false).2.valueStacks =
    if t.scope.ownsStack then t.valueStacks.pop else t.valueStacks := by
  unfold closeScope
  dsimp only
  cases t.scope.ownsStack <;> rfl

/-- With the same scopes there are as many value stacks. -/
theorem Keeps.height (a : t.Keeps t.scopes.size h t') (same : t'.scopes.size = t.scopes.size)
    (linked : t.Linked) (linked' : t'.Linked) (rooted : t.scopes.size ≠ 0) :
    t'.valueStacks.size = t.valueStacks.size := by
  have places := Scope.kept_places a.scopes
  have all : t.scopes.toList.take t.scopes.size = t.scopes.toList := by
    rw [← Array.length_toList, List.take_length]
  have all' : t'.scopes.toList.take t.scopes.size = t'.scopes.toList := by
    rw [← same, ← Array.length_toList, List.take_length]
  rw [all, all'] at places
  have last := congrArg List.getLast? places
  rw [List.getLast?_map, List.getLast?_map, Array.getLast?_toList, Array.getLast?_toList] at last
  have place : t'.scope.place = t.scope.place := by
    rw [scope, scope, ← Option.getD_map Scope.place, ← Option.getD_map Scope.place, last]
  have stack : t'.scope.stack = t.scope.stack := by
    have image := congrArg Scope.Place.stack place
    exact image
  have top := linked.top rooted
  have top' := linked'.top (by omega)
  omega

/-- Where all scopes are kept and no others are open, nothing has happened. -/
theorem Keeps.aside (a : t.Keeps t.scopes.size t.valueStacks.size t')
    (same : t'.scopes.size = t.scopes.size) (linked : t.Linked) (linked' : t'.Linked)
    (rooted : t.scopes.size ≠ 0) (pc : t'.pc = t.pc) (retPc : t'.retPc = t.retPc) : t.Aside t' := by
  have tries := a.tries
  rw [framesBelow_size linked, ← same, framesBelow_size linked'] at tries
  exact ⟨same, a.height same linked linked' rooted, tries, pc, retPc, a⟩

theorem lowered_closeScope (linked : t.Linked) (keepTop : Bool) (more : 2 ≤ t.scopes.size) :
    t.Lowered keepTop.toNat (t.closeScope keepTop).2 := by
  have lowest : t.scopes[0]? = some t.scopes[0] := Array.getElem?_eq_getElem _
  have lt := linked.stack_lt_of_close lowest (by omega)
  have height := closeScope_stacks t keepTop fun owns => by rw [owns] at lt; simp at lt; omega
  obtain ⟨scopes, tries, -, -⟩ := closeScope_rest t keepTop
  have size : (t.closeScope keepTop).2.scopes.size = t.scopes.size - 1 := by
    rw [scopes, Array.size_pop]
  have rest : (t.closeScope keepTop).2.pc = t.pc ∧ (t.closeScope keepTop).2.ops = t.ops ∧
      (t.closeScope keepTop).2.loopBase = t.loopBase := by
    rw [closeScope_eq]
    exact ⟨rfl, rfl, rfl⟩
  constructor
  · omega
  · omega
  · exact rest.1
  · apply Keeps.shrink
    · rw [scopes, Array.toList_pop, List.dropLast_eq_take, Array.length_toList, Array.size_pop]
    · intro k below
      cases keepTop with
      | true =>
        apply closeScope_lower
        simp only [Bool.toNat_true] at below
        omega
      | false =>
        rw [closeScope_dropped]
        split
        · rename_i owns
          simp only [Bool.toNat_false, owns, if_true] at below height
          rw [Array.getElem?_pop, if_pos (by omega)]
        · rfl
    · rw [tries, Array.toList_filter, scopes]
      rfl
    · rw [← under_size]
      exact closeScope_under t keepTop (by omega)
    · exact rest.2.1
    · exact rest.2.2

theorem Orderly.closeScope {ops : List Op} (orderly : t.Orderly ops) (keepTop : Bool)
    (more : 2 ≤ t.scopes.size) : (t.closeScope keepTop).2.Orderly ops := by
  obtain ⟨scopes, -, coros, cache⟩ := closeScope_rest t keepTop
  constructor
  · exact orderly.linked.closeScope keepTop
  · rw [scopes, Array.size_pop]
    omega
  · exact orderly.all.closeScope keepTop
  · rw [cache]
    exact orderly.cache
  · rw [coros]
    exact orderly.coros
  · rw [closeScope_eq]
    exact orderly.ops

end Thread

/-- Scopes have been closed until some number of them was left. -/
structure Machine.Closes (ops : List Op) (lost left : Nat) (m n : Machine) : Prop where
  orderly : n.Orderly ops
  lowered : m.thread.Lowered lost n.thread
  size : n.thread.scopes.size = left

/-- The innermost scope has been closed, and of its stack no more is left than is handed down. -/
structure Machine.Shuts (ops : List Op) (keepTop : Bool) (m n : Machine) : Prop
    extends m.Closes ops keepTop.toNat (m.thread.scopes.size - 1) n where
  valueStacks : n.thread.valueStacks = m.thread.stacksLeft keepTop

namespace Run

variable {ops : List Op} {r : Reentry} {m n : Machine} {lost left : Nat}

theorem Meets.noted {α : Type} {k : Unit → Run α} {Q : α → Machine → Prop} {E : Machine → Prop}
    (orderly : m.Orderly ops) (level : Log.Level) (message : Unit → String)
    (rest : ∀ n, n.Orderly ops → n.thread = m.thread → Meets ops n (k ()) Q E) :
    Meets ops m (note level message >>= k) Q E := by
  have noted := (stable_note level message m orderly).ok rfl
  exact .next rfl (rest _ noted.1.orderly rfl)

/-- A test that the rest comes after. -/
theorem Meets.refuse {α : Type} {refused : Prop} [Decidable refused] {f : Fault} {k : Unit → Run α}
    {Q : α → Machine → Prop} {E : Machine → Prop} (fails : refused → E m)
    (passes : ¬ refused → Meets ops m (k ()) Q E) :
    Meets ops m (if refused then Run.fail f >>= k else k ()) Q E := by
  split
  · rename_i holds
    exact .of_fault (n := m) rfl (fails holds)
  · exact passes ‹_›

theorem Meets.passOn {Q E : Machine → Prop} (first : Option Fault) (passes : Q m) (fails : E m) :
    Meets ops m (passOn first) (fun _ => Q) E := by
  cases first with
  | none => exact .of_ok (n := m) rfl passes
  | some f => exact .of_fault (n := m) rfl fails

theorem stable_setFiber (fiber : Ref) (state : FiberState)
    (left : ∀ c, state = .suspended c → c.Orderly ops ∧ c.All Value.Tame) :
    Stable ops (setFiber fiber state) Untold := by
  apply Stable.alterStore
  intro s old
  constructor
  · exact { old.all with
      fibers := Values.modify (f := fun f => { f with state }) old.all.fibers
        fun f all => ⟨all.target, fun c is => (left c is).2⟩ }
  · exact old.closures
  · exact Values.modify (f := fun f => { f with state }) old.fibers fun f _ c is => (left c is).1

theorem meets_makeDeferred (hr : r.Sound ops) {calls : List Value} (tame : ∀ v ∈ calls, v.Tame)
    (orderly : m.Orderly ops) (first : Option Fault) (E : Machine → Prop) :
    Meets ops m (makeDeferred r calls first) (fun _ n => n.Orderly ops ∧ m.thread.Aside n.thread) E := by
  induction calls generalizing m first with
  | nil => exact .of_ok rfl ⟨orderly, .refl _⟩
  | cons f rest ih =>
    have later := fun v member => tame v (List.mem_cons_of_mem f member)
    have called := hr.call f [] (tame f List.mem_cons_self) nofun m orderly
    apply called.attempt.bind
    rintro result n - (⟨a, rfl, ⟨orderly', aside⟩, -⟩ | ⟨e, rfl, orderly', aside⟩)
    · apply (ih later orderly' first).mono
      · exact fun _ p _ ⟨orderly'', aside'⟩ => ⟨orderly'', aside.trans aside'⟩
      · exact fun _ fails => fails
    · apply Meets.noted orderly'
      intro p noted same
      apply (ih later noted _).mono
      · exact fun _ q _ ⟨orderly'', aside'⟩ => ⟨orderly'', aside.trans (same ▸ aside')⟩
      · exact fun _ fails => fails

theorem meets_closeScope (hr : r.Sound ops) (keepTop : Bool) (orderly : m.Orderly ops)
    (more : 2 ≤ m.thread.scopes.size) :
    Meets ops m (closeScope r keepTop) (fun _ => m.Shuts ops keepTop) (m.Shuts ops keepTop) := by
  have thread := orderly.thread
  have tidy : Thread.Tidy (·.modifyScope fun s => { s with defers := [] }) := .defer fun _ => []
  apply Meets.next rfl
  apply Meets.refuse fun few => absurd more (Nat.not_le_of_lt (Nat.lt_succ_of_le few))
  intro _
  apply Meets.next rfl
  have forgets : Stable ops (alter (·.modifyScope fun s => { s with defers := [] })) Untold :=
    .alter tidy fun t all => all.modifyScope fun s h => { h with defers := nofun }
  have settled := (forgets m orderly).ok rfl
  apply Meets.next rfl
  generalize begun : ({ m with thread := m.thread.modifyScope fun s => { s with defers := [] } } : Machine) =
    m₁ at settled ⊢
  have still := settled.1.still
  have first : m.thread.Keeps (m.thread.scopes.size - 1) m.thread.valueStacks.size m₁.thread :=
    { still.keeps with valueStacks := fun k _ => by subst begun; rfl }
  apply (meets_makeDeferred hr thread.all.scope.defers settled.1.orderly none _).bind
  intro fault n _ ⟨orderly', aside⟩
  apply Meets.next rfl
  have size : n.thread.scopes.size = m.thread.scopes.size := aside.size.trans still.size
  have height : n.thread.valueStacks.size = m.thread.valueStacks.size :=
    aside.height.trans still.height
  have goes := Thread.lowered_closeScope orderly'.thread.linked keepTop (by omega)
  have left := congrArg Array.size (Thread.closeScope_rest n.thread keepTop).1
  rw [Array.size_pop, size] at left
  have closed : m.thread.Lowered keepTop.toNat (n.thread.closeScope keepTop).2 := by
    have lower := goes.height
    constructor
    · omega
    · omega
    · exact goes.pc.trans (aside.pc.trans still.pc)
    · have keeps := aside.keeps
      rw [still.size, still.height] at keeps
      exact ((first.trans (keeps.mono (Nat.sub_le _ _) (Nat.le_refl _))).mono (by omega)
        (by omega)).trans goes.keeps
  have orderly'' : Machine.Orderly ops { n with thread := (n.thread.closeScope keepTop).2 } :=
    { orderly' with thread := orderly'.thread.closeScope keepTop (by omega) }
  have handed : (n.thread.closeScope keepTop).2.valueStacks = m.thread.stacksLeft keepTop := by
    have same : m₁.thread.valueStacks = m.thread.valueStacks := by
      subst begun
      rfl
    have owns := (still.trans aside.still).ownsStack
    have left := Thread.stacksLeft_congr owns (aside.valueStacks.trans same) keepTop
    rw [Thread.closeScope_eq]
    exact left
  apply Meets.next rfl
  dsimp only
  cases n.thread.scope.fiber with
  | none =>
    have shuts : m.Shuts ops keepTop { n with thread := (n.thread.closeScope keepTop).2 } :=
      ⟨⟨orderly'', closed, left⟩, handed⟩
    exact .passOn fault shuts shuts
  | some f =>
    have marked := (stable_setFiber f .done nofun _ orderly'').ok rfl
    apply Meets.next rfl
    have shuts : m.Shuts ops keepTop
        (Machine.mark { n with thread := (n.thread.closeScope keepTop).2 } f .done) :=
      ⟨⟨marked.1.orderly, closed, left⟩, handed⟩
    exact .passOn fault shuts shuts

/-- Scopes are closed one after the other until some number of them is left. What is true of the closing of
one is true of each. -/
theorem chain_closeDown {R : Machine → Machine → Prop} {keepTop : Bool}
    (closes : ∀ m : Machine, m.Orderly ops → 2 ≤ m.thread.scopes.size →
      Meets ops m (closeScope r keepTop) (fun _ n => m.Shuts ops keepTop n ∧ R m n)
        (fun n => m.Shuts ops keepTop n ∧ R m n))
    {depth : Nat} (orderly : m.Orderly ops) (pos : 1 ≤ depth) (fuel : Nat) (first : Option Fault)
    (E : Machine → Prop) :
    Meets ops m (closeDown r depth keepTop fuel first)
      (fun _ n => m.Closes ops keepTop.toNat (min m.thread.scopes.size depth) n ∧
        Relation.ReflTransGen R m n) E := by
  induction fuel generalizing m first with
  | zero =>
    apply Meets.next rfl
    dsimp only
    split
    · rename_i few
      exact .of_ok rfl ⟨⟨orderly, .refl _ _, (Nat.min_eq_left few).symm⟩, .refl⟩
    · exact .exhausted orderly
  | succ fuel ih =>
    apply Meets.next rfl
    dsimp only
    split
    · rename_i few
      exact .of_ok rfl ⟨⟨orderly, .refl _ _, (Nat.min_eq_left few).symm⟩, .refl⟩
    · rename_i many
      apply (closes m orderly (by omega)).attempt.bind
      intro result n _ outcome
      have both : m.Shuts ops keepTop n ∧ R m n := by
        rcases outcome with ⟨a, -, both⟩ | ⟨f, -, both⟩ <;> exact both
      obtain ⟨shuts, step⟩ := both
      have one := shuts.toCloses
      have size : min n.thread.scopes.size depth = min m.thread.scopes.size depth := by
        rw [one.size]
        omega
      have later (first : Option Fault) : Meets ops n (closeDown r depth keepTop fuel first)
          (fun _ p => m.Closes ops keepTop.toNat (min m.thread.scopes.size depth) p ∧
            Relation.ReflTransGen R m p) E := by
        apply (ih one.orderly first).mono
        · exact fun _ p _ ⟨more, steps⟩ =>
            ⟨⟨more.orderly, one.lowered.trans more.lowered, more.size.trans size⟩, steps.head step⟩
        · exact fun _ fails => fails
      cases result with
      | ok _ => exact later _
      | error e => exact later _

theorem chain_unwindTo {R : Machine → Machine → Prop} {keepTop : Bool}
    (closes : ∀ m : Machine, m.Orderly ops → 2 ≤ m.thread.scopes.size →
      Meets ops m (closeScope r keepTop) (fun _ n => m.Shuts ops keepTop n ∧ R m n)
        (fun n => m.Shuts ops keepTop n ∧ R m n))
    (depth : Nat) (orderly : m.Orderly ops) :
    let Q n := m.Closes ops keepTop.toNat (min m.thread.scopes.size (max depth 1)) n ∧
      Relation.ReflTransGen R m n
    Meets ops m (unwindTo r depth keepTop) (fun _ => Q) Q := by
  apply Meets.next rfl
  apply (chain_closeDown closes orderly (Nat.le_max_right depth 1) _ none _).bind
  exact fun first n _ closes => .passOn first closes closes

theorem shuts_unwindTo (hr : r.Sound ops) (depth : Nat) (keepTop : Bool) (orderly : m.Orderly ops) :
    let Q n := m.Closes ops keepTop.toNat (min m.thread.scopes.size (max depth 1)) n ∧
      Relation.ReflTransGen (Machine.Shuts ops keepTop) m n
    Meets ops m (unwindTo r depth keepTop) (fun _ => Q) Q := by
  apply chain_unwindTo _ depth orderly
  intro m orderly more
  exact (meets_closeScope hr keepTop orderly more).mono (fun _ _ _ shuts => ⟨shuts, shuts⟩)
    fun _ shuts => ⟨shuts, shuts⟩

theorem meets_unwindTo (hr : r.Sound ops) (depth : Nat) (keepTop : Bool) (orderly : m.Orderly ops) :
    Meets ops m (unwindTo r depth keepTop)
      (fun _ => m.Closes ops keepTop.toNat (min m.thread.scopes.size (max depth 1)))
      (m.Closes ops keepTop.toNat (min m.thread.scopes.size (max depth 1))) :=
  (shuts_unwindTo hr depth keepTop orderly).mono (fun _ _ _ both => both.1) fun _ both => both.1

end Run

end Catena
