import Catena.Proofs.Control.Proceeds

/-!
# Where scopes begin and end

A block or `try:` form opens its scope on top of the others, and its end closes that very scope: it is
the innermost one there. What comes behind the end goes on in the scope below.
-/

namespace Catena

/-- A scope has been closed at its end; the scopes left are right for the place behind that. -/
structure Machine.Past (ops : List Op) (G : Ground) (m n : Machine) : Prop where
  orderly : n.Orderly ops
  loopBase : n.thread.loopBase = G.floor
  pc : n.thread.pc = m.thread.pc
  size : n.thread.scopes.size + 1 = m.thread.scopes.size
  nests : m.thread.Nests n.thread
  seated : n.thread.Seated ops G (m.thread.pc + 1)

namespace Machine

variable {ops : List Op} {G : Ground} {m n p : Machine} {lost left : Nat}

theorem Past.remains (h : m.Past ops G n) (k : n.Remains ops p) : m.Past ops G p := by
  have size := k.still.size
  have fewer := h.size
  constructor
  · exact k.orderly
  · exact k.still.keeps.loopBase.trans h.loopBase
  · exact k.still.pc.trans h.pc
  · omega
  · exact h.nests.trans (k.still.nests h.orderly.thread.linked) (by omega)
  · exact k.still.seated h.seated

theorem Past.fell (h : m.Past ops G n) : m.Fell ops G 1 n :=
  ⟨h.orderly, h.loopBase, Nat.le_of_eq h.size.symm, h.nests, _, h.seated⟩

theorem Past.leads (h : m.Past ops G n) : m.Proceeds ops G 1 .next n := by
  have seated := h.seated
  rw [← h.pc] at seated
  exact ⟨h.orderly, h.loopBase, Nat.le_of_eq h.size.symm, h.nests, seated, trivial⟩

/-- The scopes that are left are right for a place that they were right for. -/
theorem Closes.seated_at (h : m.Closes ops lost left n) {y : Nat}
    (below : Catena.Seated ops G y (m.thread.seats.drop (m.thread.scopes.size - left))
      (m.thread.frames.filter fun f => f.scope < left)) : n.thread.Seated ops G y := by
  have size := h.size
  subst size
  exact h.lowered.seated_at h.orderly.thread.linked below

/-- The innermost scope has been closed, where the ones below are right for the next place. -/
theorem Closes.past (h : m.Closes ops lost (m.thread.scopes.size - 1) n) (few : lost ≤ 1)
    (rooted : m.thread.scopes.size ≠ 0) (loopBase : m.thread.loopBase = G.floor) {s : Seat}
    {rest : List Seat} (seats : m.thread.seats = s :: rest) {frames : List TryFrame}
    (below : (m.thread.frames.filter fun f => f.scope < m.thread.scopes.size - 1) = frames)
    (seated : Catena.Seated ops G (m.thread.pc + 1) rest frames) : m.Past ops G n := by
  have size := h.size
  constructor
  · exact h.orderly
  · exact h.lowered.keeps.loopBase.trans loopBase
  · exact h.lowered.pc
  · omega
  · exact h.lowered.nests few h.orderly.thread.linked
  · apply h.seated_at
    rw [below, seats, show m.thread.scopes.size - (m.thread.scopes.size - 1) = 1 by omega]
    exact seated

end Machine

theorem Thread.seats_length (t : Thread) : t.seats.length = t.scopes.size := by
  rw [seats, List.length_reverse, List.length_map, Array.length_toList]

theorem Thread.exists_seats {t : Thread} (rooted : t.scopes.size ≠ 0) : ∃ s rest, t.seats = s :: rest := by
  apply List.exists_cons_of_ne_nil
  intro none
  have length := t.seats_length
  rw [none] at length
  exact rooted length.symm

theorem Seated.filter_frames {ops : List Op} {G : Ground} {x : Nat} {seats : List Seat}
    {frames : List TryFrame} (h : Seated ops G x seats frames) :
    (frames.filter fun f => f.scope < seats.length) = frames :=
  List.filter_eq_self.2 fun f member => decide_eq_true (h.frame_lt f member)

namespace Thread

variable {ops : List Op} {t : Thread}

/-- The scope of a block, with the frame of a `try:` form or none. -/
theorem openBlock_nests (linked : t.Linked) (ownStack : Bool) (safety : Safety) (tries frames : Array TryFrame)
    (added : tries = t.tries ++ frames) (above : ∀ f ∈ frames, t.scopes.size ≤ f.scope) :
    t.Nests { t.openBlock ownStack safety with tries } := by
  cases ownStack with
  | true =>
    have one : (t.openBlock true safety).valueStacks = t.valueStacks ++ #[#[]] := rfl
    exact .grow linked Array.toList_push one added above rfl rfl rfl
  | false =>
    have none : (t.openBlock false safety).valueStacks = t.valueStacks ++ #[] := Array.append_empty.symm
    exact .grow linked Array.toList_push none added above rfl rfl rfl

theorem Orderly.openBlock (h : t.Orderly ops) (ownStack : Bool) (safety : Safety)
    (stack : ownStack = false → t.valueStacks.size ≠ 0) : (t.openBlock ownStack safety).Orderly ops where
  linked := h.linked.openBlock ownStack safety stack
  rooted := Nat.ne_of_gt (Array.size_push _ ▸ Nat.succ_pos _)
  all := h.all.openBlock ownStack safety
  cache := h.cache
  coros := h.coros
  ops := h.ops

/-- A thread that has begun a `try:` form. -/
def beginTry (t : Thread) (donePc : Nat) : Thread :=
  { t.openBlock true t.safety with
    tries := t.tries.push
      { scope := (t.openBlock true t.safety).scopes.size - 1, depth := 0, startPc := t.pc, donePc } }

theorem beginTry_scope (t : Thread) : (t.openBlock true t.safety).scopes.size - 1 = t.scopes.size := by
  rw [openBlock, Array.size_push, Nat.add_sub_cancel]

theorem Orderly.beginTry (h : t.Orderly ops) (donePc : Nat) : (t.beginTry donePc).Orderly ops :=
  { h.openBlock true t.safety nofun with
    linked := h.linked.openTry t.safety _ t.beginTry_scope
    all := { (h.openBlock true t.safety nofun).all with } }

theorem beginTry_nests (t : Thread) (donePc : Nat) (linked : t.Linked) : t.Nests (t.beginTry donePc) := by
  apply openBlock_nests linked true t.safety _ #[_] rfl
  intro f member
  rw [Array.mem_singleton.1 member]
  exact Nat.le_of_eq t.beginTry_scope.symm

theorem beginTry_seats (t : Thread) (donePc : Nat) : (t.beginTry donePc).seats =
    (Scope.block t.safety ((t.openBlock true t.safety).valueStacks.size - 1) true).seat :: t.seats :=
  seats_push rfl

theorem beginTry_frames (t : Thread) (donePc : Nat) : (t.beginTry donePc).frames =
    ⟨t.scopes.size, 0, t.pc, donePc, []⟩ :: t.frames := by
  rw [frames, beginTry, Array.toList_push, List.map_append, List.reverse_append, beginTry_scope]
  rfl

theorem size_bind (t : Thread) (name : String) (v : Value) :
    (t.bind name v).scopes.size = t.scopes.size := by
  rw [bind, modifyScope, Array.size_modify]

theorem Orderly.bind {ops : List Op} {t : Thread} (h : t.Orderly ops) (name : String) {v : Value}
    (tame : v.Tame) : (t.bind name v).Orderly ops where
  linked := h.linked.drift (.bind t name v)
  rooted := t.size_bind name v ▸ h.rooted
  all := h.all.bind tame
  cache := h.cache
  coros := h.coros
  ops := h.ops

end Thread

namespace Run

variable {α : Type} {ops : List Op} {G : Ground} {lost : Nat} {r : Reentry} {m n : Machine}

/-! ## Variables -/

/-- A variable is bound in the innermost scope. -/
theorem standing_bind (here : m.At ops G) (name : String) {v : Value} (tame : v.Tame) :
    Standing ops G (bind name v) Untold m := by
  have thread := here.orderly.thread
  obtain ⟨lower, s, scopes⟩ := Array.exists_push_of_size_pos (Nat.pos_of_ne_zero thread.rooted)
  apply Meets.next rfl
  apply Meets.refuse fun _ => .refl here
  intro _
  obtain ⟨rest, before, after⟩ := Thread.seats_modifyScope
    (t := { m.thread with env := m.thread.env.insert name v }) scopes
    fun s => { s with bound := (name, m.thread.env.find? name) :: s.bound }
  have orderly : Machine.Orderly ops { m with thread := m.thread.bind name v } :=
    { here.orderly with thread := thread.bind name tame }
  have nests : m.thread.Nests (m.thread.bind name v) := by
    apply Thread.Nests.within thread.linked
    · exact Thread.Drift.map_modify _ _
        (fun s : Scope => { s with bound := (name, m.thread.env.find? name) :: s.bound }) _ fun _ => rfl
    · exact pop_modify_last _ _
    · exact fun _ _ => rfl
    · exact .refl _
    · exact Thread.bind_under _ name v (by have := thread.rooted; omega)
    · rfl
    · rfl
  have same : (m.thread.bind name v).seats = m.thread.seats := after.trans before.symm
  have seated := here.seated
  rw [Thread.Seated, ← same] at seated
  exact .of_ok rfl ⟨⟨⟨orderly, seated, here.loopBase⟩, rfl, Array.size_modify, nests⟩, trivial⟩

/-! ## Blocks -/

theorem meets_openBlock (ownStack : Bool) (safety : Safety) {Q : Unit → Machine → Prop}
    {E : Machine → Prop} (orderly : m.Orderly ops) (fails : E m)
    (opens : (ownStack = false → m.thread.valueStacks.size ≠ 0) →
      Q () { m with thread := m.thread.openBlock ownStack safety }) :
    Meets ops m (openBlock ownStack safety) Q E := by
  have room : Meets ops m checkRoom (fun _ n => n = m) E := by
    cases run : checkRoom m with
    | ok _ n => exact .of_ok run (checkRoom_ok run).1
    | error e n => exact .of_error run (checkRoom_error run ▸ orderly) (checkRoom_error run ▸ fails)
  have stack : Meets ops m checkStack (fun _ n => n = m ∧ m.thread.valueStacks.size ≠ 0) E := by
    cases run : checkStack m with
    | ok _ n => exact .of_ok run (checkStack_ok run)
    | error e n => exact .of_error run (checkStack_error run ▸ orderly) (checkStack_error run ▸ fails)
  apply room.bind
  rintro _ n - rfl
  cases ownStack with
  | true => exact .of_ok rfl (opens nofun)
  | false =>
    apply stack.bind
    rintro _ p - ⟨rfl, some_⟩
    exact .of_ok rfl (opens fun _ => some_)

theorem leading_begin (here : m.At ops G) (runs : G.Runs ops m.thread.pc) {ownStack : Bool}
    {level : Option Safety} (found : ops[m.thread.pc]? = some (.begin ownStack level)) (safety : Safety) :
    Leading ops G lost (do openBlock ownStack safety; return .next) m := by
  have thread := here.orderly.thread
  apply Meets.bind (P := fun _ n => m.Proceeds ops G lost .next n)
  · apply meets_openBlock ownStack safety here.orderly (Machine.Stands.refl here).fell
    intro stack
    have inside : Catena.Seated ops G (m.thread.pc + 1) (Scope.seat (Scope.block safety
        ((m.thread.openBlock ownStack safety).valueStacks.size - 1) ownStack) :: m.thread.seats)
          m.thread.frames :=
      Seated.enter here.seated found (.block rfl) rfl fun _ => runs
    constructor
    · exact { here.orderly with thread := thread.openBlock ownStack safety stack }
    · exact here.loopBase
    · exact (Array.size_push _ ▸ Nat.le_succ _ : m.thread.scopes.size ≤ _).trans (Nat.le_add_right _ _)
    · exact Thread.openBlock_nests thread.linked ownStack safety m.thread.tries #[]
        Array.append_empty.symm nofun
    · have opened : (m.thread.openBlock ownStack safety).seats = _ := Thread.seats_push rfl
      show Catena.Seated ops G (m.thread.pc + 1) (m.thread.openBlock ownStack safety).seats _
      rw [opened]
      exact inside
    · trivial
  · exact fun _ n _ leads => .of_ok (n := n) rfl leads

/-- The innermost scope of a block is closed at its end. -/
theorem meets_closeBlock (hr : r.Sound ops) (here : m.At ops G) (paved : Paved ops) (pos : 1 ≤ G.base)
    (runs : G.Runs ops m.thread.pc) (own : G.known ∨ G.base < m.thread.scopes.size) {op : Op}
    (found : ops[m.thread.pc]? = some op) (closes : op.closes? = some .block) (keepTop : Bool) :
    Meets ops m (closeScope r keepTop) (fun _ => m.Past ops G) (m.Past ops G) := by
  have rooted := here.orderly.thread.rooted
  obtain ⟨s, rest, seats⟩ := Thread.exists_seats rooted
  have seated := here.seated
  rw [Thread.Seated, seats] at seated
  have length := m.thread.seats_length
  rw [seats, List.length_cons] at length
  obtain ⟨le, -, behind⟩ := seated.close_block paved runs (own.imp_right (by omega)) found closes
  have below : (m.thread.frames.filter fun f => f.scope < m.thread.scopes.size - 1) =
      m.thread.frames := by
    have all := behind.filter_frames
    rwa [show rest.length = m.thread.scopes.size - 1 by omega] at all
  have past (n : Machine) (h : m.Closes ops keepTop.toNat (m.thread.scopes.size - 1) n) :
      m.Past ops G n :=
    h.past (Bool.toNat_le keepTop) rooted here.loopBase seats below behind
  apply (meets_closeScope hr keepTop here.orderly (by omega)).mono
  · exact fun _ n _ shuts => past n shuts.toCloses
  · exact fun n shuts => past n shuts.toCloses

theorem leading_close (hr : r.Sound ops) (here : m.At ops G) (paved : Paved ops) (pos : 1 ≤ G.base)
    (runs : G.Runs ops m.thread.pc) (own : G.known ∨ G.base < m.thread.scopes.size)
    (found : ops[m.thread.pc]? = some .close) :
    Leading ops G 1 (do closeScope r true; return .next) m := by
  apply Meets.bind (P := fun _ n => m.Past ops G n)
  · apply (meets_closeBlock hr here paved pos runs own found rfl true).mono
    · exact fun _ _ _ past => past
    · exact fun _ past => past.fell
  · exact fun _ n _ past => .of_ok (n := n) rfl past.leads

/-- What comes behind the end of a scope. -/
theorem Leading.past {x : Run Unit} (hx : Stable ops x Untold) (past : m.Past ops G n) :
    Meets ops n (do x; return .next) (m.Proceeds ops G 1) (m.Fell ops G 1) := by
  apply Meets.bind (P := fun _ p => m.Past ops G p)
  · apply (hx n past.orderly).mono
    · exact fun _ _ _ ⟨remains, _⟩ => past.remains remains
    · exact fun _ remains => (past.remains remains).fell
  · exact fun _ p _ past => .of_ok (n := p) rfl past.leads

theorem leading_closeList (hr : r.Sound ops) (here : m.At ops G) (paved : Paved ops) (pos : 1 ≤ G.base)
    (runs : G.Runs ops m.thread.pc) (own : G.known ∨ G.base < m.thread.scopes.size)
    (found : ops[m.thread.pc]? = some .closeList) :
    Leading ops G 1 (exec r .closeList) m := by
  apply Leading.bind (stable_askStack.standing here)
  intro items n tame stands
  apply Leading.bind (stable_emptied.standing stands.here)
  intro _ p _ stands'
  rw [← stands.pc, ← stands'.pc] at found runs
  rw [← stands.size, ← stands'.size] at own
  apply Meets.bind (P := fun _ q => p.Past ops G q)
  · apply (meets_closeBlock hr stands'.here paved pos runs own found rfl false).mono
    · exact fun _ _ _ past => past
    · exact fun _ past => past.fell
  · intro _ q _ past
    have pushed : Stable ops (do push (← listFrom items)) Untold :=
      (stable_listFrom tame).bind fun v told => stable_push told
    have rest := Leading.past pushed past
    rwa [bind_assoc] at rest

/-! ## Forms that catch faults -/

theorem leading_openTry (here : m.At ops G) (runs : G.Runs ops m.thread.pc)
    {done : Label} (found : ops[m.thread.pc]? = some (.try done)) {donePc : Nat}
    (place : done.pc = some donePc) : Leading ops G lost (openTry donePc) m := by
  have thread := here.orderly.thread
  apply Meets.next rfl
  apply Meets.bind (P := fun _ n => n = { m with thread := m.thread.openBlock true m.thread.safety })
  · exact meets_openBlock true _ here.orderly (Machine.Stands.refl here).fell fun _ => rfl
  rintro _ n - rfl
  have inside : Catena.Seated ops G (m.thread.pc + 1) (Scope.seat (Scope.block m.thread.safety
      ((m.thread.openBlock true m.thread.safety).valueStacks.size - 1) true) :: m.thread.seats)
        (⟨m.thread.scopes.size, 0, m.thread.pc, donePc, []⟩ :: m.thread.frames) := by
    apply Seated.enter here.seated found (.attempt rfl _ rfl place) rfl fun _ => runs
    exact m.thread.seats_length.symm
  have orderly : Machine.Orderly ops { m with thread := m.thread.beginTry donePc } :=
    { here.orderly with thread := thread.beginTry donePc }
  have leads : m.Proceeds ops G lost .next { m with thread := m.thread.beginTry donePc } := by
    constructor
    · exact orderly
    · exact here.loopBase
    · exact (Array.size_push _ ▸ Nat.le_succ _ : m.thread.scopes.size ≤ _).trans (Nat.le_add_right _ _)
    · exact m.thread.beginTry_nests donePc thread.linked
    · show Catena.Seated ops G (m.thread.pc + 1) (m.thread.beginTry donePc).seats
        (m.thread.beginTry donePc).frames
      rw [Thread.beginTry_seats, Thread.beginTry_frames]
      exact inside
    · trivial
  exact .of_ok rfl leads

/-- A `try:` form that ends is let go of before its scope is closed. -/
theorem meets_closeTry (hr : r.Sound ops) (here : m.At ops G) (paved : Paved ops) (pos : 1 ≤ G.base)
    (runs : G.Runs ops m.thread.pc) (own : G.known ∨ G.base < m.thread.scopes.size)
    (found : ops[m.thread.pc]? = some .closeTry) {n : Machine}
    (let_go : n = { m with thread := { m.thread with tries := m.thread.tries.pop } }) :
    ∃ frame, m.thread.tries.back? = some frame ∧ frame.scope + 1 = m.thread.scopes.size ∧
      Meets ops n (closeScope r true) (fun _ p => m.Past ops G p ∧ n.Shuts ops true p) (m.Past ops G) := by
  have thread := here.orderly.thread
  obtain ⟨s, rest, seats⟩ := Thread.exists_seats thread.rooted
  have seated := here.seated
  rw [Thread.Seated, seats] at seated
  have length := m.thread.seats_length
  rw [seats, List.length_cons] at length
  obtain ⟨le, -, frame', below, whole, scope, behind⟩ :=
    seated.close_try paved runs (own.imp_right (by omega)) found rfl
  have some_ : m.thread.tries.size ≠ 0 := by
    have size := congrArg List.length whole
    rw [Thread.frames, List.length_reverse, List.length_map, Array.length_toList, List.length_cons] at size
    omega
  obtain ⟨init, frame, tries⟩ := Array.exists_push_of_size_pos (Nat.pos_of_ne_zero some_)
  have top : frame.scope = rest.length := by
    have frames := whole
    rw [Thread.frames, tries, Array.toList_push, List.map_append, List.reverse_append, List.map_singleton,
      List.reverse_singleton, List.singleton_append] at frames
    have same := (List.cons.inj frames).1
    rw [← same] at scope
    exact scope
  refine ⟨frame, by rw [tries, Array.back?_push], by omega, ?_⟩
  subst let_go
  have orderly : Machine.Orderly ops { m with thread := { m.thread with tries := m.thread.tries.pop } } :=
    { here.orderly with
      thread := { thread with
        linked := thread.linked.drift (.popTries m.thread)
        all := { thread.all with } } }
  have popped : Linked.framesBelow m.thread.tries.pop.toList (m.thread.scopes.size - 1) =
      Linked.framesBelow m.thread.tries.toList (m.thread.scopes.size - 1) := by
    rw [tries, Array.pop_push, Array.toList_push, Linked.framesBelow, Linked.framesBelow,
      List.filter_append, List.filter_singleton]
    have high : ¬ frame.scope < m.thread.scopes.size - 1 := by omega
    simp only [high, decide_false, cond_false, List.append_nil]
  have first (h : Nat) : m.thread.Keeps (m.thread.scopes.size - 1) h
      { m.thread with tries := m.thread.tries.pop } := by
    constructor
    · exact List.forall₂_refl _
    · exact fun _ => rfl
    · exact fun _ _ => rfl
    · rw [popped]
      exact .refl _
    · exact .refl _
    · rfl
    · rfl
  have past (p : Machine) (shuts : Machine.Shuts ops true
      { m with thread := { m.thread with tries := m.thread.tries.pop } } p) : m.Past ops G p := by
    have closes : m.Closes ops 1 (m.thread.scopes.size - 1) p := by
      have lowered := shuts.lowered
      refine ⟨shuts.orderly, ⟨lowered.size, lowered.height, lowered.pc, ?_⟩, shuts.size⟩
      have keeps := lowered.keeps
      rw [shuts.size] at keeps ⊢
      exact (first _).trans keeps
    apply closes.past (Nat.le_refl 1) thread.rooted here.loopBase seats _ behind
    have all := behind.filter_frames
    have high : ¬ frame'.scope < m.thread.scopes.size - 1 := by omega
    rw [whole, List.filter_cons_of_neg (by simpa using high)]
    rwa [show rest.length = m.thread.scopes.size - 1 by omega] at all
  apply (meets_closeScope hr true orderly (by dsimp only; omega)).mono
  · exact fun _ p _ shuts => ⟨past p shuts, shuts⟩
  · exact fun p shuts => past p shuts

theorem leading_closeTry (hr : r.Sound ops) (here : m.At ops G) (paved : Paved ops) (pos : 1 ≤ G.base)
    (runs : G.Runs ops m.thread.pc) (own : G.known ∨ G.base < m.thread.scopes.size)
    (found : ops[m.thread.pc]? = some .closeTry) :
    Leading ops G 1 (closeTry r) m := by
  obtain ⟨frame, back, -, closes⟩ := meets_closeTry hr here paved pos runs own found rfl
  apply Meets.next rfl
  dsimp only
  rw [back]
  apply Meets.next rfl
  apply Meets.next rfl
  apply Meets.bind (P := fun _ p => m.Past ops G p)
  · apply closes.mono
    · exact fun _ _ _ both => both.1
    · exact fun _ past => past.fell
  intro _ p _ past
  have answers {x : Run Value} (hx : Stable ops x Value.Tame) :
      Meets ops p (do push (← x); return .next) (m.Proceeds ops G 1) (m.Fell ops G 1) := by
    have pushed : Stable ops (do push (← x)) Untold := hx.bind fun v tame => stable_push tame
    have rest := Leading.past pushed past
    rwa [bind_assoc] at rest
  split
  · exact answers (.pure fun _ => nofun)
  · exact answers (stable_errorList frame.faults)

end Run

end Catena
