import Catena.Proofs.Choice
import Catena.Proofs.Control.Closing
import Catena.Proofs.Control.Natives
import Catena.Proofs.Control.Ways

/-!
# Calls lead back

A call either comes back to the place it is to go on at, or puts the scope of a lambda, or all that a
lambda was left with in the middle, on top of the scopes there are. Wherever it leads, the scopes are
right for that place if the ones below are right for the place to go on at (`Machine.Arrives`).
-/

namespace Catena

/-- A call leads to a place, on top of scopes that go on at `back`. -/
structure Machine.Arrives (ops : List Op) (back pc : Nat) (m n : Machine) : Prop where
  orderly : n.Orderly ops
  size : m.thread.scopes.size ≤ n.thread.scopes.size
  nests : m.thread.Nests n.thread
  loopBase : n.thread.loopBase = m.thread.loopBase
  seated : ∀ G, m.thread.Seated ops G back → n.thread.Seated ops G pc
  rests : m.thread.Rests m.thread.scopes.size n.thread
  env : Env.Same (n.thread.under m.thread.scopes.size) m.thread.env

/-- What a call comes to that is to go on at `back`. -/
def Machine.Called (ops : List Op) (back : Nat) (m : Machine) (c : Control) (n : Machine) : Prop :=
  ∃ pc, c = .jump pc ∧ m.Arrives ops back pc n

/-- What a call comes to, unless another value is to be called in its place, which is no label. -/
def Machine.Replied (ops : List Op) (back : Nat) (m : Machine) (reply : Reply) (n : Machine) : Prop :=
  match reply with
  | .control c => m.Called ops back c n
  | .enter v => m.Remains ops n ∧ v.Tame

namespace Machine

variable {ops : List Op} {m n p : Machine} {back pc : Nat}

theorem Remains.enters (h : m.Remains ops n) (linked : m.thread.Linked) : m.Arrives ops back back n := by
  constructor
  · exact h.orderly
  · exact Nat.le_of_eq h.still.size.symm
  · exact h.still.nests linked
  · exact h.still.keeps.loopBase
  · exact fun _ seated => h.still.seated seated
  · exact h.still.rests
  · rw [← h.still.size, Thread.under_size]
    exact h.still.env

theorem Arrives.after (k : n.Arrives ops back pc p) (h : m.Remains ops n) (linked : m.thread.Linked) :
    m.Arrives ops back pc p := by
  have size := h.still.size
  have more := k.size
  constructor
  · exact k.orderly
  · omega
  · exact (h.still.nests linked).trans k.nests (by omega)
  · exact k.loopBase.trans h.still.keeps.loopBase
  · exact fun G seated => k.seated G (h.still.seated seated)
  · exact h.still.rests.trans (h.still.size ▸ k.rests)
  · exact (h.still.size ▸ k.env).trans h.still.env

/-- What is to come back below a scope of the caller is what it was. -/
theorem Arrives.under (h : m.Arrives ops back pc n) {i : Nat} (le : i ≤ m.thread.scopes.size) :
    Env.Same (n.thread.under i) (m.thread.under i) := by
  have env := h.env
  rw [← m.thread.under_size] at env
  rw [m.thread.under_parts le, n.thread.under_parts le,
    Scope.foldr_leave_stayed (List.forall₂_drop i h.rests.scopes)]
  exact Thread.foldr_leave_same _ env

theorem Called.after {c : Control} (k : n.Called ops back c p) (h : m.Remains ops n)
    (linked : m.thread.Linked) : m.Called ops back c p := by
  obtain ⟨pc, rfl, enters⟩ := k
  exact ⟨pc, rfl, enters.after h linked⟩

theorem Replied.after {reply : Reply} (k : n.Replied ops back reply p) (h : m.Remains ops n)
    (linked : m.thread.Linked) : m.Replied ops back reply p := by
  cases reply with
  | control c => exact Called.after k h linked
  | enter v => exact ⟨h.trans k.1, k.2⟩

end Machine

/-! ## Scopes on top -/

namespace Thread

variable {ops : List Op} {t t' : Thread} {G : Ground} {back p : Nat}

theorem seats_push {s : Scope} (scopes : t'.scopes = t.scopes.push s) : t'.seats = s.seat :: t.seats := by
  rw [seats, scopes, Array.toList_push, List.map_append, List.map_singleton, List.reverse_append]
  rfl

/-- A lambda on the stack in use, which runs in a fiber or not. -/
def openFor (t : Thread) (fiber : Option Ref) (c : Closure) (safety : Safety) (retPc : Nat) : Thread :=
  { t with
    scopes := t.scopes.push
      { Scope.lambda c safety (t.valueStacks.size - 1) retPc t.env with fiber }
    env := c.env }

theorem Orderly.openFor (h : t.Orderly ops) (fiber : Option Ref) {c : Closure} (tame : c.env.All Value.Tame)
    (safety : Safety) (retPc : Nat) (stack : t.valueStacks.size ≠ 0) :
    (t.openFor fiber c safety retPc).Orderly ops := by
  constructor
  · exact h.linked.openLambda c safety retPc fiber stack
  · exact Nat.ne_of_gt (Array.size_push _ ▸ Nat.succ_pos _)
  · have all := h.all.openLambda safety retPc tame
    exact { all with scopes := Values.pushed h.all.scopes { all.scopes _ Array.mem_push_self with } }
  · exact h.cache
  · exact h.coros
  · exact h.ops

theorem openFor_nests (t : Thread) (fiber : Option Ref) (c : Closure) (safety : Safety) (retPc : Nat)
    (linked : t.Linked) : t.Nests (t.openFor fiber c safety retPc) := by
  have none : t.valueStacks = t.valueStacks ++ #[] := Array.append_empty.symm
  have none' : t.tries = t.tries ++ #[] := Array.append_empty.symm
  exact .grow linked Array.toList_push none none' nofun rfl rfl rfl

theorem openFor_seated (fiber : Option Ref) {c : Closure} (safety : Safety) (retPc : Nat)
    (seated : t.Seated ops G retPc) {kind : LambdaKind} {skip : Option Label}
    (found : ops[p]? = some (.lambda c.body kind skip)) :
    (t.openFor fiber c safety retPc).Seated ops G (p + 1) := by
  rw [Thread.Seated, seats_push rfl]
  exact Catena.Seated.enter seated found (.lambda rfl) rfl fun none => by cases none

theorem Orderly.graft (h : t.Orderly ops) {c : Coroutine} (k : c.Orderly ops) (tame : c.All Value.Tame)
    (retPc : Nat) (fiber : Option Ref) (stack : t.valueStacks.size ≠ 0) :
    (t.graft c retPc fiber).Orderly ops := by
  have rooted := h.rooted
  constructor
  · exact h.linked.graft k.linked retPc fiber stack
  · rw [graft_size]
    omega
  · exact h.all.graft retPc fiber tame
  · exact h.cache
  · exact h.coros
  · exact h.ops

theorem graft_nests (linked : t.Linked) {c : Coroutine} (off : c.Linked) (retPc : Nat)
    (fiber : Option Ref) : t.Nests (t.graft c retPc fiber) := by
  obtain ⟨head, rest, all, -⟩ := off.parts
  apply Nests.grow linked (graft_scopes all retPc fiber) rfl rfl _ rfl rfl rfl
  intro f member
  obtain ⟨g, -, rfl⟩ := Array.mem_map.1 member
  exact Nat.le_add_left _ _

theorem graft_seated {c : Coroutine} (k : c.Orderly ops) (retPc : Nat) (fiber : Option Ref)
    (seated : t.Seated ops G retPc) : (t.graft c retPc fiber).Seated ops G c.pc := by
  obtain ⟨head, rest, all, lambda, -⟩ := k.linked.parts
  have off := k.seated
  rw [Coroutine.seats, all, List.map_cons, List.reverse_cons] at off
  have called : head.seat.body.isSome = true := by
    rw [Scope.isLambda] at lambda
    rw [Scope.seat, Option.isSome_map, lambda]
  let again : Seat := ⟨head.seat.body, retPc, head.seat.loops⟩
  have body : again.body = head.seat.body := rfl
  have grafted := off.graft called seated body rfl rfl
  have upper : (rest.map fun s => { s with stack := s.stack + (t.valueStacks.size - 1) }).map Scope.seat =
      rest.map Scope.seat := by
    rw [List.map_map]
    rfl
  have seats : (t.graft c retPc fiber).seats = (rest.map Scope.seat).reverse ++
      ⟨head.seat.body, retPc, head.seat.loops⟩ :: t.seats := by
    rw [Thread.seats, graft_scopes all, List.map_append, List.reverse_append, List.map_cons,
      List.reverse_cons, upper, List.append_assoc]
    rfl
  have length : t.seats.length = t.scopes.size := by
    rw [Thread.seats, List.length_reverse, List.length_map, Array.length_toList]
  have frames : (t.graft c retPc fiber).frames =
      (c.frames.map fun f => { f with scope := f.scope + t.seats.length }) ++ t.frames := by
    simp only [length, Thread.frames, Coroutine.frames, Thread.graft, Array.toList_append,
      Array.toList_map, List.map_append, List.reverse_append, List.map_reverse, List.map_map]
    rfl
  rw [Thread.Seated, seats, frames]
  exact grafted

end Thread

namespace Run

variable {α : Type} {ops : List Op} {r : Reentry} {m n : Machine} {P : α → Prop} {back : Nat}

/-- A computation comes from every orderly machine to what is told, and if it fails it has stayed at its
level. -/
def Comes (ops : List Op) (x : Run α) (Q : Machine → α → Machine → Prop) : Prop :=
  ∀ m, m.Orderly ops → Meets ops m x (Q m) (m.Remains ops)

theorem Meets.of_error {x : Run α} {Q : α → Machine → Prop} {E : Machine → Prop} {h : Halt}
    (run : x m = .error h n) (orderly : n.Orderly ops) (fails : E n) : Meets ops m x Q E := by
  rw [Meets, run]
  cases h with
  | fault f => exact fails
  | outOfFuel => exact orderly

theorem Comes.next {x : Run α} {k : α → Run Control} (hx : Stable ops x P)
    (hk : ∀ a, P a → Comes ops (k a) (Machine.Called ops back)) :
    Comes ops (x >>= k) (Machine.Called ops back) := by
  intro m orderly
  apply (hx m orderly).bind
  intro a n _ ⟨remains, told⟩
  apply (hk a told n remains.orderly).mono
  · exact fun c p _ called => called.after remains orderly.thread.linked
  · exact fun p later => remains.trans later

theorem Comes.then {x : Run α} {k : α → Run Reply} (hx : Stable ops x P)
    (hk : ∀ a, P a → Comes ops (k a) (Machine.Replied ops back)) :
    Comes ops (x >>= k) (Machine.Replied ops back) := by
  intro m orderly
  apply (hx m orderly).bind
  intro a n _ ⟨remains, told⟩
  apply (hk a told n remains.orderly).mono
  · exact fun reply p _ replied => replied.after remains orderly.thread.linked
  · exact fun p later => remains.trans later

/-- What answers with a change of the flow of control. -/
theorem Comes.control {x : Run Control} (hx : Comes ops x (Machine.Called ops back)) :
    Comes ops (do return .control (← x)) (Machine.Replied ops back) := by
  intro m orderly
  apply (hx m orderly).bind
  exact fun c n _ called => .of_ok (n := n) rfl called

/-! ## Lambdas -/

theorem startLambda_entry {c : Closure} {safety : Safety} {retPc : Nat} {ctl : Control}
    (h : startLambda c safety retPc m = .ok ctl n) :
    ∃ entry, c.body.entry = some entry ∧ ctl = .jump entry := by
  obtain ⟨entry, p, found, checked⟩ := bind_ok h
  obtain ⟨is, -⟩ := orFail_ok found
  obtain ⟨_, q, -, checked⟩ := bind_ok checked
  obtain ⟨_, q, -, opened⟩ := bind_ok checked
  obtain ⟨_, q, -, done⟩ := bind_ok opened
  cases done
  exact ⟨entry, is, rfl⟩

/-- The scope of a lambda among the operations. -/
theorem enters_openFor (paved : Paved ops) (orderly : m.Orderly ops) (fiber : Option Ref) {c : Closure}
    (known : c.body ∈ bodies ops) (tame : c.env.All Value.Tame) (safety : Safety)
    (stack : m.thread.valueStacks.size ≠ 0) {entry : Nat} (starts : c.body.entry = some entry) :
    m.Arrives ops back entry { m with thread := m.thread.openFor fiber c safety back } := by
  obtain ⟨p, kind, skip, found⟩ := bodies_place known
  obtain ⟨first, -, -⟩ := paved.lambda_at found
  obtain rfl := Option.some.inj (starts.symm.trans first)
  constructor
  · exact { orderly with thread := orderly.thread.openFor fiber tame safety back stack }
  · exact Array.size_push _ ▸ Nat.le_succ _
  · exact m.thread.openFor_nests fiber c safety back orderly.thread.linked
  · rfl
  · exact fun G seated => Thread.openFor_seated fiber safety back seated found
  · exact .grow Array.toList_push rfl
  · rw [Thread.under_push rfl rfl (Nat.le_refl _), Thread.under_size]
    exact .refl _

theorem comes_startLambda (paved : Paved ops) {c : Closure} (known : c.body ∈ bodies ops)
    (tame : c.env.All Value.Tame) (safety : Safety) (retPc : Nat) :
    Comes ops (startLambda c safety retPc) (Machine.Called ops retPc) := by
  intro m orderly
  rcases startLambda_cases c safety retPc m with ⟨h, failed⟩ | ⟨entry, -, stack, done⟩
  · exact .of_error failed orderly ⟨orderly, .refl _⟩
  · obtain ⟨entry', starts, same⟩ := startLambda_entry done
    obtain rfl := Control.jump.inj same
    exact .of_ok done ⟨entry, rfl, enters_openFor paved orderly none known tame safety stack starts⟩

theorem comes_resume {coro : Coroutine} (left : coro.Orderly ops) (tame : coro.All Value.Tame)
    (retPc : Nat) (fiber : Option Ref) :
    Comes ops (resume coro retPc fiber) (Machine.Called ops retPc) := by
  intro m orderly
  rcases resume_cases coro retPc fiber m with ⟨h, failed, -⟩ | ⟨-, stack, done⟩
  · exact .of_error failed orderly ⟨orderly, .refl _⟩
  · have thread := orderly.thread
    refine .of_ok done ⟨coro.pc, rfl, ?_⟩
    constructor
    · exact { orderly with thread := thread.graft left tame retPc fiber stack }
    · exact Thread.graft_size m.thread coro retPc fiber ▸ Nat.le_add_right _ _
    · exact Thread.graft_nests thread.linked left.linked retPc fiber
    · rfl
    · exact fun G seated => Thread.graft_seated left retPc fiber seated
    · obtain ⟨head, rest, all, -⟩ := left.linked.parts
      exact .grow (Thread.graft_scopes all retPc fiber) rfl
    · rw [Thread.graft_under left.linked retPc fiber (Nat.le_refl _), Thread.under_size]
      exact .refl _

/-- Other coroutines and other chosen implementations are remembered. -/
theorem stable_remember (coros : Thread → Dict Nat Coroutine) (cache : Thread → Dict Nat Imp)
    (all : ∀ t, t.Orderly ops → (coros t).All (·.All Value.Tame))
    (left : ∀ t, t.Orderly ops → ∀ id c, (coros t).find? id = some c → c.Orderly ops)
    (chosen : ∀ t, t.Orderly ops → ∀ pc imp, (cache t).find? pc = some imp → imp.Plain ops) :
    Stable ops (alter fun t => { t with coros := coros t, cache := cache t }) Untold := by
  intro m orderly
  have thread := orderly.thread
  have orderly' : Machine.Orderly ops
      { m with thread := { m.thread with coros := coros m.thread, cache := cache m.thread } } :=
    { orderly with
      thread := { thread with
        linked := ⟨thread.linked.linked, thread.linked.called⟩
        all := { thread.all with coros := all _ thread }
        coros := left _ thread
        cache := chosen _ thread } }
  exact .of_ok rfl ⟨⟨orderly', .aside rfl rfl rfl rfl rfl rfl rfl⟩, trivial⟩

theorem stable_forget (id : Nat) :
    Stable ops (alter fun t => { t with coros := t.coros.erase id }) Untold := by
  apply stable_remember (fun t => t.coros.erase id) (fun t => t.cache)
  · exact fun t orderly => orderly.all.coros.erase id
  · intro t orderly i c found
    exact orderly.coros i c ((Thread.Drift.eraseCoros t id).coros i c found)
  · exact fun t orderly => orderly.cache

theorem stable_unchoose :
    Stable ops (alter fun t => { t with cache := t.cache.erase t.pc }) Untold := by
  apply stable_remember (fun t => t.coros) (fun t => t.cache.erase t.pc)
  · exact fun t orderly => orderly.all.coros
  · exact fun t orderly => orderly.coros
  · intro t orderly pc imp found
    exact orderly.cache pc imp ((Thread.Drift.eraseCache t t.pc).cache pc imp found)

theorem stable_choose {imp : Imp} (plain : imp.Plain ops) :
    Stable ops (alter fun t => { t with cache := t.cache.insert t.pc imp }) Untold := by
  apply stable_remember (fun t => t.coros) (fun t => t.cache.insert t.pc imp)
  · exact fun t orderly => orderly.all.coros
  · exact fun t orderly => orderly.coros
  · intro t orderly pc imp' found
    rw [Dict.find?_insert] at found
    split at found
    · obtain rfl := Option.some.inj found
      exact plain
    · exact orderly.cache pc imp' found

theorem comes_enterLambda (paved : Paved ops) {c : Closure} (known : c.body ∈ bodies ops)
    (tame : c.env.All Value.Tame) (safety : Safety) (retPc : Nat) :
    Comes ops (enterLambda c safety retPc) (Machine.Called ops retPc) := by
  have found : Stable ops (ask (·.coros.find? c.body.id)) fun coro? =>
      ∀ coro, coro? = some coro → coro.Orderly ops ∧ coro.All Value.Tame :=
    .ask fun t orderly coro is => ⟨orderly.coros _ coro is, orderly.all.coros.find? is⟩
  apply Comes.next found
  intro coro? told
  cases coro? with
  | none => exact comes_startLambda paved known tame safety retPc
  | some coro =>
    obtain ⟨left, all⟩ := told coro rfl
    apply Comes.next (stable_forget c.body.id)
    intro _ _
    apply Comes.next (stable_note _ _)
    exact fun _ _ => comes_resume left all retPc none

/-! ## Fibers -/

/-- A fiber that starts, or is put back as it was if it cannot start. -/
theorem comes_startFiber (paved : Paved ops) (fiber : Ref) (id : Nat) {state : FiberState}
    (left : ∀ c, state = .suspended c → c.Orderly ops ∧ c.All Value.Tame) {c : Closure}
    (known : c.body ∈ bodies ops) (tame : c.env.All Value.Tame) (retPc : Nat) :
    Comes ops (startFiber fiber id state c retPc) (Machine.Called ops retPc) := by
  apply Comes.next (stable_note _ _)
  intro _ _
  apply Comes.next (Stable.asked _)
  intro safety _ m orderly
  rcases startLambda_cases c safety retPc m with ⟨f | _, failed⟩ | ⟨entry, -, stack, done⟩
  · apply Meets.next (attempt_fault failed)
    have back := stable_setFiber fiber _ left m orderly
    exact back.bind fun _ n _ remains => .of_fault (n := n) rfl remains.1
  · exact .of_error (h := .outOfFuel) (n := m) (by rw [bind_apply, attempt_outOfFuel failed])
      orderly ⟨orderly, .refl _⟩
  · apply Meets.next (attempt_ok done)
    obtain ⟨entry', starts, same⟩ := startLambda_entry done
    obtain rfl := Control.jump.inj same
    have enters : m.Arrives ops retPc entry _ :=
      enters_openFor paved orderly (some fiber) known tame safety stack starts
    have marked : alter (·.modifyScope fun s => { s with fiber := some fiber })
        { m with thread := m.thread.openLambda c safety retPc } =
          .ok () { m with thread := m.thread.openFor (some fiber) c safety retPc } := by
      rw [alter, openLambda_fiber]
      rfl
    apply Meets.next marked
    exact .of_ok rfl ⟨entry, rfl, enters⟩

theorem comes_resumeFiber (ref : Ref) (id : Nat) {coro : Coroutine} (left : coro.Orderly ops)
    (tame : coro.All Value.Tame) (retPc : Nat) :
    Comes ops (resumeFiber ref id coro retPc) (Machine.Replied ops retPc) := by
  apply Comes.then (stable_setFiber ref .running nofun)
  intro _ _
  apply Comes.then (stable_note _ _)
  intro _ _ m orderly
  apply (comes_resume left tame retPc (some ref) m orderly).attempt.bind
  rintro result n - (⟨c, rfl, called⟩ | ⟨f, rfl, remains⟩)
  · exact .of_ok (n := n) rfl called
  · have marked := stable_setFiber ref .done nofun n remains.orderly
    apply Meets.bind (P := fun _ p => m.Remains ops p)
    · exact marked.mono (fun _ p _ later => remains.trans later.1) fun p later => remains.trans later
    · exact fun _ p _ later => .of_fault (n := p) rfl later

theorem comes_enterTarget (paved : Paved ops) (ref : Ref) {fiber : Fiber} (target : fiber.target.Tame)
    (left : ∀ c, fiber.state = .suspended c → c.Orderly ops ∧ c.All Value.Tame) (retPc : Nat) :
    Comes ops (enterTarget ref fiber retPc) (Machine.Replied ops retPc) := by
  unfold enterTarget
  split
  · apply Comes.then (stable_setFiber ref .running nofun)
    intro _ _
    apply Comes.then (P := fun c? => ∀ c, c? = some c → c.body ∈ bodies ops ∧ c.env.All Value.Tame)
    · apply Stable.askStore
      intro s orderly c found
      exact ⟨orderly.closures c (Array.mem_of_getElem? found),
        orderly.all.closures c (Array.mem_of_getElem? found)⟩
    · intro c? told
      cases c? with
      | none => exact fun m orderly => .of_fault (n := m) rfl ⟨orderly, .refl _⟩
      | some c =>
        obtain ⟨known, tame⟩ := told c rfl
        exact (comes_startFiber paved ref fiber.id left known tame retPc).control
  · apply Comes.then (stable_setFiber ref .done nofun)
    exact fun _ _ m orderly => .of_ok (n := m) rfl ⟨⟨orderly, .refl _⟩, target⟩

theorem comes_enterFiber (paved : Paved ops) (ref : Ref) (retPc : Nat) :
    Comes ops (enterFiber ref retPc) (Machine.Replied ops retPc) := by
  apply Comes.then (P := fun fiber => Value.Tame fiber.target ∧
    ∀ c, fiber.state = .suspended c → c.Orderly ops ∧ c.All Value.Tame)
  · apply Stable.askStore
    intro s orderly
    cases found : s.fibers[ref]? with
    | none => exact ⟨fun _ => nofun, nofun⟩
    | some fiber =>
      have member := Array.mem_of_getElem? found
      have all := orderly.all.fibers fiber member
      exact ⟨all.target, fun c is => ⟨orderly.fibers fiber member c is, all.state c is⟩⟩
  · intro fiber ⟨target, left⟩
    cases state : fiber.state with
    | running => exact fun m orderly => .of_fault (n := m) rfl ⟨orderly, .refl _⟩
    | suspended coro =>
      obtain ⟨off, all⟩ := left coro state
      exact comes_resumeFiber ref fiber.id off all retPc
    | fresh => exact comes_enterTarget paved ref target left retPc
    | done => exact comes_enterTarget paved ref target left retPc

/-! ## Functions -/

/-- The conversions of a plan are among those there are. -/
theorem plan?_tame {imp : Imp} {conv : Ty → Ty → Option Value} {stack : Array Value}
    {plan : List (Nat × Value)} (tame : ∀ a b f, conv a b = some f → f.Tame)
    (planned : imp.plan? conv stack = some plan) : ∀ step ∈ plan, step.2.Tame := by
  obtain ⟨misfits, -, all⟩ := Option.bind_eq_some_iff.1 planned
  clear planned
  induction misfits generalizing plan with
  | nil =>
    obtain rfl := Option.some.inj all
    exact nofun
  | cons misfit misfits ih =>
    rw [List.mapM_cons] at all
    obtain ⟨step, first, all⟩ := Option.bind_eq_some_iff.1 all
    obtain ⟨steps, rest, all⟩ := Option.bind_eq_some_iff.1 all
    obtain rfl := Option.some.inj all
    obtain ⟨v, -, converts⟩ := Option.bind_eq_some_iff.1 first
    obtain ⟨f, found, converts⟩ := Option.bind_eq_some_iff.1 converts
    obtain rfl := Option.some.inj converts
    exact List.forall_mem_cons.2 ⟨tame _ _ f found, ih rest⟩

theorem stable_goBack (retPc : Nat) : Stable ops (alter ({ · with retPc })) Untold :=
  .alter (.goBack retPc) fun _ all => { all with }

theorem stable_runNative (hr : r.Sound ops) {f : Native} (plain : f.Plain) (retPc : Nat) :
    Stable ops (runNative r f retPc) Reply.Tame := by
  apply (Stable.asked _).seq
  intro saved
  apply (stable_goBack retPc).seq
  intro _
  apply (stable_native hr plain).attempt.bind
  intro result tame
  exact (stable_goBack saved).seq fun _ => .ofExcept tame

theorem comes_invoke (paved : Paved ops) (hr : r.Sound ops) {imp : Imp} (plain : imp.Plain ops)
    (retPc : Nat) : Comes ops (invoke r imp retPc) (Machine.Replied ops retPc) := by
  apply Comes.then (stable_note _ _)
  intro _ _
  rw [Imp.Plain] at plain
  cases body : imp.body with
  | native f =>
    rw [body] at plain
    apply Comes.then (stable_runNative hr plain retPc)
    intro reply tame m orderly
    cases reply with
    | control c =>
      obtain rfl : c = .next := tame
      have stays : m.Remains ops m := ⟨orderly, .refl _⟩
      exact .of_ok rfl ⟨retPc, rfl, stays.enters orderly.thread.linked⟩
    | enter v => exact .of_ok (n := m) rfl ⟨⟨orderly, .refl _⟩, tame⟩
  | lambda body' =>
    rw [body] at plain
    exact (comes_enterLambda (c := ⟨body', ∅⟩) paved plain .empty imp.safety retPc).control

theorem stable_convert (hr : r.Sound ops) (arity : Nat) {plan : List (Nat × Value)}
    (tame : ∀ step ∈ plan, step.2.Tame) : Stable ops (convert r arity plan) Untold := by
  induction plan with
  | nil => exact .done _
  | cons step plan ih =>
    obtain ⟨i, f⟩ := step
    apply (Stable.asked _).seq
    intro place
    apply Stable.bind (P := Value.Tame)
    · apply Stable.ask
      intro t orderly
      apply tame_getD
      exact fun v found => orderly.all.stack v (Array.mem_of_getElem? found)
    · intro v told
      apply (stable_call hr (tame _ List.mem_cons_self) (by simpa using told)).bind
      intro answer answered
      apply (Stable.orFail answered).bind
      intro w converted
      apply (stable_alterStack fun s old => Values.set old converted).seq
      exact fun _ => ih fun step member => tame step (List.mem_cons_of_mem _ member)

theorem stable_remembered (imps : List Imp) :
    Stable ops (remembered? imps) fun imp? => ∀ imp, imp? = some imp → imp.Plain ops := by
  apply Stable.ask
  intro t orderly imp found
  exact orderly.cache _ imp (Option.filter_eq_some_iff.1 found).1

theorem stable_describeTop : Stable ops describeTop Untold :=
  (Stable.asked _).seq fun _ => (Stable.askedStore _).seq fun _ => .done _

theorem comes_dispatch (paved : Paved ops) (hr : r.Sound ops) (name : String) (retPc : Nat) :
    Comes ops (dispatch r name retPc) (Machine.Replied ops retPc) := by
  apply Comes.then (P := fun imps? : Option (List Imp) => ∀ imps, imps? = some imps →
    ∀ imp ∈ imps, imp.Plain ops)
  · apply Stable.askShared
    intro s store registry imps found imp member
    exact registry.imps imp ⟨name, imps, found, member⟩
  intro imps? told
  apply Comes.then (.orFail told)
  intro imps plain
  apply Comes.then (stable_remembered imps)
  intro imp? known
  cases imp? with
  | some imp => exact comes_invoke paved hr (known imp rfl) retPc
  | none =>
    apply Comes.then stable_unchoose
    intro _ _
    apply Comes.then (P := fun registry => ∀ a b f, Registry.findConv? registry a b = some f → f.Tame)
    · apply Stable.askShared
      exact fun s _ registry a b f found => registry.convs.find? found
    intro registry convs
    apply Comes.then (P := fun choice => (∀ imp, choice = .exact imp → imp ∈ imps) ∧
      ∀ imp plan, choice = .converted imp plan → imp ∈ imps ∧ ∀ step ∈ plan, step.2.Tame)
    · apply Stable.ask
      intro t orderly
      have rule : Choice.Rule imps registry.findConv? t.safety t.stack _ := Choice.choose_rule
      constructor
      · intro imp is
        rw [is] at rule
        cases rule with
        | exact newest => exact newest.mem
      · intro imp plan is
        rw [is] at rule
        cases rule with
        | converted _ newest planned => exact ⟨newest.mem, plan?_tame convs planned⟩
    intro choice ⟨exact_, converted⟩
    cases choice with
    | exact imp =>
      have chosen := plain imp (exact_ imp rfl)
      apply Comes.then (stable_choose chosen)
      exact fun _ _ => comes_invoke paved hr chosen retPc
    | converted imp plan =>
      obtain ⟨member, tame⟩ := converted imp plan rfl
      apply Comes.then (stable_note _ _)
      intro _ _
      apply Comes.then (stable_convert hr _ tame)
      exact fun _ _ => comes_invoke paved hr (plain imp member) retPc
    | blocked =>
      apply Comes.then (Stable.asked _)
      exact fun _ _ m orderly => .of_fault (n := m) rfl ⟨orderly, .refl _⟩
    | nothing =>
      apply Comes.then stable_describeTop
      exact fun _ _ m orderly => .of_fault (n := m) rfl ⟨orderly, .refl _⟩

/-! ## Values -/

theorem comes_fail (f : Fault) (retPc : Nat) :
    Comes ops (fail f : Run Reply) (Machine.Replied ops retPc) :=
  fun m orderly => .of_fault (n := m) rfl ⟨orderly, .refl _⟩

theorem comes_callOnce (paved : Paved ops) (hr : r.Sound ops) {v : Value} (tame : v.Tame) (retPc : Nat) :
    Comes ops (callOnce r v retPc) (Machine.Replied ops retPc) := by
  unfold callOnce
  split
  · exact comes_dispatch paved hr _ retPc
  · exact comes_fail _ retPc
  · apply Comes.then (P := fun c? => ∀ c, c? = some c → c.body ∈ bodies ops ∧ c.env.All Value.Tame)
    · apply Stable.askStore
      intro s orderly c found
      exact ⟨orderly.closures c (Array.mem_of_getElem? found),
        orderly.all.closures c (Array.mem_of_getElem? found)⟩
    intro c? told
    apply Comes.then (.orFail told)
    intro c ⟨known, env⟩
    apply Comes.then (Stable.asked _)
    exact fun safety _ => (comes_enterLambda paved known env safety retPc).control
  · exact comes_fail _ retPc
  · rename_i label _ is
    exact absurd is (tame label)
  · exact comes_fail _ retPc
  · exact comes_enterFiber paved _ retPc
  · exact comes_fail _ retPc
  · apply Comes.then (Stable.askedStore _)
    exact fun _ _ => comes_fail _ retPc

theorem meets_settle (paved : Paved ops) (hr : r.Sound ops) (retPc fuel : Nat) {reply : Reply}
    (orderly : n.Orderly ops) (replied : m.Replied ops retPc reply n) (linked : m.thread.Linked) :
    Meets ops n (settle r retPc fuel reply) (m.Called ops retPc) (m.Remains ops) := by
  induction fuel generalizing n reply with
  | zero =>
    cases reply with
    | control c => exact .of_ok (n := n) rfl replied
    | enter v => exact .exhausted orderly
  | succ fuel ih =>
    cases reply with
    | control c => exact .of_ok (n := n) rfl replied
    | enter v =>
      obtain ⟨remains, tame⟩ := replied
      apply Meets.bind (P := fun reply p => m.Replied ops retPc reply p)
      · apply (comes_callOnce paved hr tame retPc n orderly).mono
        · exact fun reply p _ replied => replied.after remains linked
        · exact fun p later => remains.trans later
      · intro reply p _ replied
        cases reply with
        | control c =>
          have ended : settle r retPc fuel (.control c) p = .ok c p := by cases fuel <;> rfl
          exact .of_ok ended replied
        | enter w => exact ih replied.1.orderly replied

theorem stable_callFuel : Stable ops callFuel Untold :=
  (Stable.asked _).seq fun _ => (Stable.askedStore _).seq fun _ => .done _

theorem comes_callValue (paved : Paved ops) (hr : r.Sound ops) {v : Value} (tame : v.Tame)
    (retPc : Nat) : Comes ops (callValue r v retPc) (Machine.Called ops retPc) := by
  apply Comes.next stable_callFuel
  intro fuel _ m orderly
  exact meets_settle paved hr retPc _ orderly ⟨⟨orderly, .refl _⟩, tame⟩ orderly.thread.linked

theorem comes_callName (paved : Paved ops) (hr : r.Sound ops) (name : String) (retPc : Nat) :
    Comes ops (callName r name retPc) (Machine.Called ops retPc) := by
  apply Comes.next stable_callFuel
  intro fuel _ m orderly
  apply (comes_dispatch paved hr name retPc m orderly).bind
  intro reply n _ replied
  have linked := orderly.thread.linked
  cases reply with
  | control c =>
    obtain ⟨pc, rfl, enters⟩ := replied
    exact meets_settle paved hr retPc fuel enters.orderly ⟨pc, rfl, enters⟩ linked
  | enter w => exact meets_settle paved hr retPc fuel replied.1.orderly replied linked

end Run

end Catena
