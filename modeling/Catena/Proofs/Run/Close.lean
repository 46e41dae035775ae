import Catena.Proofs.Run.Makes
import Catena.Run.Coroutine

/-!
# The changes that closing scopes and leaving lambdas make
-/

namespace Catena

open Run (Makes)

variable {careful : Prop} {r : Reentry}

namespace Run

theorem setFiber_mark (f : Ref) (state : FiberState) (m : Machine) :
    setFiber f state m = .ok () (m.mark f state) := rfl

/-! ## Closing -/

theorem makes_makeDeferred (hr : r.Makes careful) (calls : List Value) (first : Option Fault) :
    Makes (Deeds careful) (makeDeferred r calls first) := by
  induction calls generalizing first with
  | nil => exact .pure first
  | cons f rest ih =>
    refine (hr.call f []).attempt.bind fun answer => ?_
    cases answer with
    | ok _ => exact ih first
    | error e => exact (makes_note _ _).bind fun _ => ih _

/-- Deferred calls leave more than the last scope, if they are made with care. -/
theorem makeDeferred_scopes (hr : r.Makes careful) (care : careful) {calls : List Value}
    {first : Option Fault} {m n : Machine} {a : Option Fault} (open_ : 2 ≤ m.thread.scopes.size)
    (h : makeDeferred r calls first m = .ok a n) : 2 ≤ n.thread.scopes.size := by
  induction calls generalizing first m with
  | nil => cases h; exact open_
  | cons f rest ih =>
    rw [makeDeferred, bind_apply] at h
    cases called : attempt (r.call f []) m with
    | error e p => simp only [called] at h; cases h
    | ok answer p =>
      have still := hr.deferred care f m answer p called
      simp only [called] at h
      cases answer with
      | ok _ => exact ih still h
      | error e =>
        obtain ⟨p', moved⟩ : ∃ p', note .warn (fun _ => s!"deferred call failed: {e.text}") p =
            .ok () p' ∧ p'.thread = p.thread := ⟨_, rfl, rfl⟩
        simp only [bind_apply, moved.1] at h
        exact ih (moved.2 ▸ still) h

theorem makes_closeScope (hr : r.Makes careful) (keepTop : Bool) :
    Makes (Deeds careful) (closeScope r keepTop) := by
  intro m
  refine related_bind (Makes.ask _) fun size n h => ?_
  cases h
  split
  · exact .refl m
  rename_i open_
  refine related_bind (Makes.ask _) fun calls n h => ?_
  cases h
  refine related_bind (Makes.alter fun t => .alterScope t _ _ (fun _ => rfl) fun _ h => h)
    fun _ n h => ?_
  cases h
  refine related_bind (makes_makeDeferred hr _ _) fun first n called => ?_
  refine related_bind (Makes.ask _) fun fiber p h => ?_
  cases h
  have close : careful → 1 < n.thread.scopes.size := fun care =>
    makeDeferred_scopes hr care (by
      simpa [Thread.modifyScope] using Nat.succ_le_of_lt (Nat.lt_of_not_le open_)) called
  let closed := { n with thread := (n.thread.closeScope keepTop).2 }
  dsimp only
  cases runs : n.thread.scope.fiber with
  | none =>
    show Deeds careful n ((passOn first).after closed)
    exact (Deed.close keepTop close runs).deeds.trans (Makes.passOn first _)
  | some f =>
    show Deeds careful n ((passOn first).after (closed.mark f .done))
    exact (Deed.closeFiber keepTop f close runs).deeds.trans (Makes.passOn first _)

theorem makes_closeDown (hr : r.Makes careful) (depth : Nat) (keepTop : Bool) (fuel : Nat)
    (first : Option Fault) : Makes (Deeds careful) (closeDown r depth keepTop fuel first) := by
  induction fuel generalizing first with
  | zero =>
    refine (Makes.ask _).bind fun size => ?_
    split
    · exact .pure first
    · exact .exhausted
  | succ fuel ih =>
    refine (Makes.ask _).bind fun size => ?_
    split
    · exact .pure first
    · refine (makes_closeScope hr keepTop).attempt.bind fun closed => ?_
      cases closed <;> exact ih _

/-- Closing scopes comes to an end, if it does, with as many as it was told. -/
theorem closeDown_ends (depth : Nat) (keepTop : Bool) (fuel : Nat) (first : Option Fault)
    (m : Machine) :
    (∃ a n, closeDown r depth keepTop fuel first m = .ok a n ∧ n.thread.scopes.size ≤ depth) ∨
      ∃ n, closeDown r depth keepTop fuel first m = .error .outOfFuel n := by
  induction fuel generalizing first m with
  | zero =>
    simp only [closeDown, bind_apply, ask]
    split
    next few => exact .inl ⟨first, m, rfl, few⟩
    next => exact .inr ⟨m, rfl⟩
  | succ fuel ih =>
    simp only [closeDown, bind_apply, ask]
    split
    next few => exact .inl ⟨first, m, rfl, few⟩
    next =>
      rw [bind_apply]
      rcases h : closeScope r keepTop m with ⟨a, n⟩ | ⟨f | _, n⟩
      · rw [attempt_ok h]; exact ih _ _
      · rw [attempt_fault h]; exact ih _ _
      · rw [attempt_outOfFuel h]; exact .inr ⟨n, rfl⟩

/-- Closing scopes leaves as many as it was told, even if it ends with a fault. -/
theorem unwindTo_size {depth : Nat} {keepTop : Bool} {m n : Machine} {a : Except Fault Unit}
    (h : attempt (unwindTo r depth keepTop) m = .ok a n) :
    n.thread.scopes.size ≤ max depth 1 := by
  rcases closeDown_ends (r := r) (max depth 1) keepTop m.thread.scopes.size none m with
    ⟨first, p, closed, few⟩ | ⟨p, ends⟩
  · have run : unwindTo r depth keepTop m = passOn first p := by
      rw [unwindTo, bind_apply, ask]
      dsimp only
      rw [bind_apply, closed]
    cases first with
    | none => rw [attempt_ok run] at h; cases h; exact few
    | some e => rw [attempt_fault run] at h; cases h; exact few
  · have run : unwindTo r depth keepTop m = .error .outOfFuel p := by
      rw [unwindTo, bind_apply, ask]
      dsimp only
      rw [bind_apply, ends]
    rw [attempt_outOfFuel run] at h
    cases h

theorem makes_unwindTo (hr : r.Makes careful) (depth : Nat) (keepTop : Bool) :
    Makes (Deeds careful) (unwindTo r depth keepTop) := by
  exact (Makes.ask _).bind fun size => (makes_closeDown hr _ _ _ _).bind fun first => .passOn first

/-! ## Lambdas -/

/-- A lambda starts where there is room for it. -/
theorem startLambda_cases (c : Closure) (safety : Safety) (retPc : Nat) (m : Machine) :
    (∃ h, startLambda c safety retPc m = .error h m) ∨
      ∃ entry, m.hasRoom ∧ m.thread.valueStacks.size ≠ 0 ∧
        startLambda c safety retPc m =
          .ok (.jump entry) { m with thread := m.thread.openLambda c safety retPc } := by
  rw [startLambda, bind_apply]
  cases c.body.entry with
  | none => exact .inl ⟨_, rfl⟩
  | some entry =>
    simp only [orFail, Pure.pure, EStateM.pure, bind_apply]
    cases room : checkRoom m with
    | error e n =>
      have same := checkRoom_error room
      exact .inl ⟨e, by rw [same]⟩
    | ok _ n =>
      obtain ⟨rfl, room⟩ := checkRoom_ok room
      dsimp only
      cases stack : checkStack n with
      | error e p =>
        have same := checkStack_error stack
        exact .inl ⟨e, by rw [same]⟩
      | ok _ p =>
        obtain ⟨rfl, stack⟩ := checkStack_ok stack
        exact .inr ⟨entry, room, stack, rfl⟩

/-- A lambda starts that was called where its level is allowed. -/
theorem startLambda_deeds (c : Closure) {safety : Safety} (retPc : Nat) {m n : Machine}
    (called : Deeds careful m n) (level : safety ≤ m.thread.safety) :
    Deeds careful m ((startLambda c safety retPc).after n) := by
  rcases startLambda_cases c safety retPc n with ⟨e, failed⟩ | ⟨entry, room, stack, done⟩
  · rw [after_error failed]
    exact called
  · rw [after_ok done]
    exact (Deeds.refl m).next called (.openLambda c safety retPc room stack level)

/-- Going on with a coroutine is one change, or none where it fails. -/
theorem resume_cases (coro : Coroutine) (retPc : Nat) (fiber : Option Ref) (m : Machine) :
    (∃ h, resume coro retPc fiber m = .error h m ∧ m.Refuses coro) ∨
      (m.thread.scopes.size + coro.scopes.size ≤ m.shared.config.limits.maxScopeDepth ∧
        m.thread.valueStacks.size ≠ 0 ∧
        resume coro retPc fiber m =
          .ok (.jump coro.pc) { m with thread := m.thread.graft coro retPc fiber }) := by
  simp only [resume, maxScopes, bind_apply, askShared, ask]
  split
  next full => exact .inl ⟨_, rfl, .inl full⟩
  next room =>
    simp only [bind_apply]
    cases h : checkStack m with
    | error e n =>
      simp only [checkStack, bind_apply, ask] at h
      split at h
      next none =>
        cases h
        exact .inl ⟨_, rfl, .inr (by simpa using none)⟩
      next => cases h
    | ok a n =>
      obtain ⟨rfl, stack⟩ := checkStack_ok h
      exact .inr ⟨Nat.le_of_not_lt room, stack, rfl⟩

/-- A lambda is entered that was called where its level is allowed. -/
theorem enterLambda_deeds (c : Closure) {safety : Safety} (retPc : Nat) {m n : Machine}
    (called : Deeds careful m n) (level : safety ≤ m.thread.safety) :
    Deeds careful m ((enterLambda c safety retPc).after n) := by
  rw [enterLambda, after_bind, ask]
  dsimp only
  cases found : n.thread.coros.find? c.body.id with
  | none => exact startLambda_deeds c retPc called level
  | some coro =>
    let id := c.body.id
    let s := n.shared.note .debug Phase.vm.target fun _ => s!"resuming lambda#{id}"
    let t := { n.thread with coros := n.thread.coros.erase id }
    have noted : Deeds careful m { n with shared := s } := called.then (.shared s (note_drift _ _ _ _ _) (note_threads _ _ _ _ _))
    show Deeds careful m ((resume coro retPc none).after ⟨s, t⟩)
    rcases resume_cases coro retPc none ⟨s, t⟩ with ⟨e, failed, refused⟩ | ⟨room, stack, done⟩
    · rw [after_error failed]
      exact noted.then (.dropLambda id coro found refused)
    · rw [after_ok done]
      exact noted.then (.resumeLambda id coro retPc found room stack)

/-! ## Fibers -/

/-- What drifts after a fiber is marked might as well have drifted before. -/
theorem mark_drift {m : Machine} {f : Ref} {state : FiberState} {s : Shared}
    (h : (m.mark f state).shared.Drift s) (state' : FiberState) (t : Thread) :
    (m.mark f state').shared.Drift (Machine.mark ⟨s, t⟩ f state').shared where
  config := h.config
  registry := h.registry
  fibers := by
    have before : s.store.fibers = m.shared.store.fibers.modify f fun f => { f with state } := h.fibers
    simp only [Machine.mark, Machine.alterFibers]
    rw [before]
    apply Array.ext_getElem?
    intro i
    simp only [Array.getElem?_modify]
    split
    · cases m.shared.store.fibers[i]? <;> rfl
    · rfl

/-- A fiber that is marked as it was before is as before. -/
theorem mark_same {m : Machine} {f : Ref} {state : FiberState}
    (was : ∀ fiber, m.shared.store.fibers[f]? = some fiber → fiber.state = state) :
    m.shared.Drift (m.mark f state).shared where
  config := rfl
  registry := .refl _
  fibers := by
    simp only [Machine.mark, Machine.alterFibers]
    apply Array.ext_getElem?
    intro i
    rw [Array.getElem?_modify]
    split
    next here =>
      subst here
      cases found : m.shared.store.fibers[f]? with
      | none => rfl
      | some fiber =>
        obtain rfl := was fiber found
        rfl
    next => rfl

theorem modify_push {γ : Type} (xs : Array γ) (x : γ) (f : γ → γ) :
    (xs.push x).modify xs.size f = xs.push (f x) := by
  apply Array.ext_getElem?
  intro i
  rw [Array.getElem?_modify, Array.getElem?_push, Array.getElem?_push]
  split <;> split <;> simp_all

theorem openLambda_fiber (t : Thread) (f : Ref) (c : Closure) (safety : Safety) (retPc : Nat) :
    (t.openLambda c safety retPc).modifyScope (fun s => { s with fiber := some f }) =
      t.openFiber f c safety retPc := by
  rw [Thread.modifyScope, Thread.openLambda, Thread.openFiber]
  simp only [Array.size_push, Nat.add_sub_cancel, modify_push]
  rfl

/-- A fiber that has been marked starts, or is as it was. -/
theorem startFiber_deeds (f : Ref) (id : Nat) (c : Closure) (retPc : Nat) {state : FiberState}
    {m : Machine} (known : f < m.shared.store.fibers.size) (idle : m.Idle f)
    (was : ∀ fiber, m.shared.store.fibers[f]? = some fiber → fiber.state = state) :
    Deeds careful m ((startFiber f id state c retPc).after (m.mark f .running)) := by
  let n := m.mark f .running
  let s := n.shared.note .debug Phase.vm.target fun _ => s!"starting fiber#{id}"
  have noted : n.shared.Drift s := note_drift _ _ _ _ _
  have kept : n.shared.store.SameThreads s.store := note_threads _ _ _ _ _
  have first : note .debug (fun _ => s!"starting fiber#{id}") n = .ok () { n with shared := s } := rfl
  have second : ask Thread.safety { n with shared := s } =
      .ok m.thread.safety { n with shared := s } := rfl
  rw [startFiber, after_bind, first]
  dsimp only
  rw [after_bind, second]
  dsimp only
  rw [after_bind]
  rcases startLambda_cases c m.thread.safety retPc { n with shared := s } with
    ⟨_ | _, failed⟩ | ⟨entry, room, stack, done⟩
  · rw [attempt_fault failed]
    exact (Deed.shared _ ((mark_same was).trans (mark_drift noted state _)) kept).deeds
  · rw [attempt_outOfFuel failed]
    exact (Deed.strandFiber f idle.stopped).deeds.then (.shared s noted kept)
  · rw [attempt_ok done]
    have limit : m.hasRoom := by
      have config : s.config = m.shared.config := noted.config
      rw [Machine.hasRoom, ← config]
      exact room
    have started := (Deed.startFiber f c m.thread.safety retPc known idle limit stack
      (Safety.le_refl _) : Deed careful _ _ _).deeds.then (.shared s noted kept)
    rw [← openLambda_fiber] at started
    exact started

theorem makes_enterTarget (f : Ref) (fiber : Fiber) (retPc : Nat) {m : Machine}
    (idle : fiber.state = .fresh ∨ fiber.state = .done)
    (known : m.shared.store.fibers[f]?.getD default = fiber) :
    Deeds careful m ((enterTarget f fiber retPc).after m) := by
  have was : ∀ fiber', m.shared.store.fibers[f]? = some fiber' → fiber'.state = fiber.state := by
    intro fiber' found
    rw [found] at known
    exact congrArg Fiber.state known
  have still : m.Idle f := fun fiber' found => was fiber' found ▸ idle
  unfold enterTarget
  split
  next l target =>
    have there : f < m.shared.store.fibers.size := by
      refine Nat.lt_of_not_le fun missing => ?_
      rw [Array.getElem?_eq_none missing] at known
      subst known
      cases target
    rw [after_bind, setFiber_mark]
    dsimp only
    rw [after_bind, askStore, askShared]
    dsimp only
    cases (m.mark f .running).shared.store.closures[l]? with
    | some c =>
      dsimp only
      exact after_pure (startFiber f fiber.id fiber.state c retPc) Reply.control _ ▸
        startFiber_deeds f fiber.id c retPc there still was
    | none => exact (Deed.strandFiber f still.stopped).deeds
  next => exact (Deed.endFiber f still.stopped).deeds

/-- A fiber left in the middle is put back as a whole, or is over if there is no room for it. -/
theorem resumeFiber_deeds (f : Ref) (fiber : Fiber) (coro : Coroutine) (retPc : Nat) {m : Machine}
    (found : m.shared.store.fibers[f]? = some fiber) (left : fiber.state = .suspended coro) :
    Deeds careful m ((resumeFiber f fiber.id coro retPc).after m) := by
  let n := m.mark f .running
  let s := n.shared.note .debug Phase.vm.target fun _ => s!"resuming fiber#{fiber.id}"
  have noted : n.shared.Drift s := note_drift _ _ _ _ _
  have kept : n.shared.store.SameThreads s.store := note_threads _ _ _ _ _
  have stopped : m.Stopped f := by
    intro fiber' found'
    obtain rfl := Option.some.inj (found.symm.trans found')
    rw [left]
    nofun
  have second : note .debug (fun _ => s!"resuming fiber#{fiber.id}") n =
      .ok () { n with shared := s } := rfl
  rw [resumeFiber, after_bind, setFiber_mark]
  dsimp only
  rw [after_bind, second]
  dsimp only
  rw [after_bind]
  rcases resume_cases coro retPc (some f) { n with shared := s } with
    ⟨_ | _, failed, -⟩ | ⟨room, stack, done⟩
  · rw [attempt_fault failed]
    exact (Deed.endFiber f stopped).deeds.then (.shared _ (mark_drift noted .done _) kept)
  · rw [attempt_outOfFuel failed]
    exact (Deed.strandFiber f stopped).deeds.then (.shared s noted kept)
  · rw [attempt_ok done]
    have limit : m.thread.scopes.size + coro.scopes.size ≤
        m.shared.config.limits.maxScopeDepth := noted.config ▸ room
    exact (Deed.resumeFiber f fiber coro retPc found left limit stack).deeds.then
      (.shared s noted kept)

theorem makes_enterFiber (ref : Ref) (retPc : Nat) : Makes (Deeds careful) (enterFiber ref retPc) := by
  intro m
  refine related_bind (Makes.askStore _) fun fiber n h => ?_
  cases h
  dsimp only
  generalize known : m.shared.store.fibers[ref]?.getD default = fiber
  cases left : fiber.state with
  | running => exact .refl m
  | suspended coro =>
    refine resumeFiber_deeds ref fiber coro retPc ?_ left
    cases h : m.shared.store.fibers[ref]? with
    | some f => rw [h] at known; exact congrArg some known
    | none => rw [h] at known; subst known; cases left
  | fresh => exact makes_enterTarget ref fiber retPc (.inl left) known
  | done => exact makes_enterTarget ref fiber retPc (.inr left) known

theorem makes_lambdaScope (depth : Nat) : Makes (Deeds careful) (lambdaScope depth) :=
  (Makes.ask _).bind fun _ => .orFail _ _

/-- Leaving a lambda in the middle fails and changes nothing, or puts all of it away. -/
theorem suspend_cases (depth : Nat) (m : Machine) :
    (∃ f, suspend depth m = .error (.fault f) m) ∨
      ∃ i head callee s,
        m.thread.lambdaScope? depth = some i ∧ m.thread.loopBase ≤ i ∧
        m.thread.scopes[i]? = some head ∧ head.callee = some callee ∧ m.shared.Drift s ∧
        m.shared.store.SameThreads s.store ∧
        suspend depth m = .ok (.jump head.retPc)
          (let (coro, t) := m.thread.cut i head callee.body.id
          match head.fiber with
          | none => ⟨s, { t with coros := t.coros.insert coro.lambda coro }⟩
          | some f => Machine.alterFibers ⟨s, t⟩
            (·.modify f fun fiber => { fiber with state := .suspended coro })) := by
  cases at_ : m.thread.lambdaScope? depth with
  | none =>
    refine .inl ⟨Fault.noLambda depth, ?_⟩
    simp only [suspend, lambdaScope, bind_apply, ask, at_, orFail]
    rfl
  | some i =>
    by_cases inside : i < m.thread.loopBase
    · refine .inl ⟨Fault.yieldCrosses, ?_⟩
      simp only [suspend, lambdaScope, bind_apply, ask, at_, orFail, pure, EStateM.pure, inside,
        if_true]
      rfl
    cases found : m.thread.scopes[i]? with
    | none =>
      refine .inl ⟨Fault.yieldOutside, ?_⟩
      simp only [suspend, lambdaScope, bind_apply, ask, at_, orFail, pure, EStateM.pure, inside,
        if_false, found]
      rfl
    | some head =>
      cases called : head.callee with
      | none =>
        refine .inl ⟨Fault.yieldOutside, ?_⟩
        simp only [suspend, lambdaScope, bind_apply, ask, at_, orFail, pure, EStateM.pure, inside,
          if_false, found, Option.getD, called]
        rfl
      | some callee =>
        let coro := (m.thread.cut i head callee.body.id).1
        refine .inr ⟨i, head, callee, m.shared.note .debug Phase.vm.target fun _ =>
          match head.fiber with
          | none => s!"lambda#{coro.lambda} suspended at pc {coro.pc}"
          | some f =>
            s!"fiber#{m.shared.store.fibers[f]?.elim 0 (·.id)} suspended at pc {coro.pc}",
          rfl, Nat.le_of_not_lt inside, found, called, note_drift _ _ _ _ _,
          note_threads _ _ _ _ _, ?_⟩
        simp only [suspend, lambdaScope, bind_apply, ask, at_, orFail, pure, EStateM.pure, inside,
          if_false, found, Option.getD, called]
        cases head.fiber <;> rfl

theorem makes_suspend (depth : Nat) : Makes (Deeds careful) (suspend depth) := by
  intro m
  rcases suspend_cases depth m with ⟨f, failed⟩ |
    ⟨i, head, callee, s, -, -, found, called, drift, kept, done⟩
  · rw [after_error failed]
    exact .refl m
  · rw [after_ok done]
    cases fiber : head.fiber with
    | none =>
      exact (Deed.suspendLambda i head callee found called fiber).deeds.then (.shared s drift kept)
    | some f =>
      refine (Deed.suspendFiber i head callee f found called fiber).deeds.then (.shared _ ?_ kept)
      exact ⟨drift.config, drift.registry, by
        simp only [Machine.mark, Machine.alterFibers, drift.fibers]; rfl⟩

theorem makes_recallFrom (hr : r.Makes careful) (depth : Nat) :
    Makes (Deeds careful) (recallFrom r depth) := by
  refine (makes_lambdaScope depth).bind fun i => (Makes.ask _).bind fun base => ?_
  refine Makes.refuse ((makes_unwindTo hr _ _).bind_of fun m _ n unwound => ?_)
  have few := unwindTo_size (attempt_ok unwound)
  refine related_bind (Makes.ask _) fun callee? p h => ?_
  cases h
  refine related_bind (Makes.orFail _ _) fun callee p h => ?_
  obtain ⟨called, rfl⟩ := orFail_ok h
  refine related_bind (Makes.orFail _ _) fun entry q h => ?_
  obtain ⟨-, rfl⟩ := orFail_ok h
  have inside : i < q.thread.scopes.size := by
    refine Nat.lt_of_not_le fun outside => ?_
    dsimp only at called
    rw [Array.getElem?_eq_none outside] at called
    cases called
  exact (Deed.restart i callee (by omega) called).deeds

theorem makes_exitReturn (depth : Nat) : Makes (Deeds careful) (exitReturn depth) :=
  (makes_lambdaScope depth).bind fun _ => (Makes.ask _).bind fun _ => .pure _

theorem makes_exitLoop (depth : Nat) : Makes (Deeds careful) (exitLoop depth) := by
  refine (Makes.ask _).bind fun _ => (Makes.orFail _ _).bind fun (i, pc) => ?_
  refine (Makes.ask _).bind fun donePc => ?_
  refine Makes.bind (.alter fun t => ?_) fun _ => (makes_note _ _).bind fun _ => .pure _
  exact .alterScope t i _ (fun _ => rfl) fun s h => s.loops.nodup_erase pc h

end Run

end Catena
