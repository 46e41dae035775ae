import Catena.Proofs.Resume

/-!
# What becomes of a coroutine

A lambda that is left in the middle leaves a coroutine with its thread: one for each lambda that is
written down, however many activations of it there are. Nothing that runs do takes it away before the
lambda goes on with it, save for two things: another activation of the same lambda is left in the
middle, and its coroutine takes the place of this one; or the lambda is called where there is no room
to go on with it, which is refused and throws it away (`Machine.coroutines_stay`).
-/

namespace Catena

variable {careful : Prop} {m n : Machine} {id : Nat} {coro : Coroutine}

/-- The lambda with this id has been left in the middle with a coroutine. -/
def Machine.LeftWith (m : Machine) (id : Nat) (coro : Coroutine) : Prop :=
  m.thread.coros.find? id = some coro

/-- How the coroutine of a lambda goes away. -/
inductive Fate (m n : Machine) (id : Nat) (coro : Coroutine) : Prop
  /-- The lambda goes on with it. -/
  | continued (retPc : Nat)
      (room : m.thread.scopes.size + coro.scopes.size ≤ m.shared.config.limits.maxScopeDepth)
      (goes : n = { m with thread :=
        { m.thread with coros := m.thread.coros.erase id }.graft coro retPc none })
  /-- Another activation of the lambda is left in the middle. -/
  | replaced (i : Nat) (head : Scope) (callee : Closure) (found : m.thread.scopes[i]? = some head)
      (called : head.callee = some callee) (alone : head.fiber = none) (same : callee.body.id = id)
      (left : n = { m with thread :=
        { (m.thread.cut i head id).2 with
          coros := m.thread.coros.insert id (m.thread.cut i head id).1 } })
  /-- There is no room to go on with it. -/
  | dropped (refused : m.Refuses coro)
      (gone : n = { m with thread := { m.thread with coros := m.thread.coros.erase id } })

/-- The coroutine is still there, or a change on the way has taken it away. -/
def Accounted (id : Nat) (coro : Coroutine) (m n : Machine) : Prop :=
  n.LeftWith id coro ∨
    ∃ p q, Deeds False m p ∧ p.LeftWith id coro ∧ Fate p q id coro ∧ Changes False q n

/-- A deed leaves a coroutine where it is, unless it goes on with it, puts another in its place, or
finds no room for it. -/
theorem Deed.fate {top : Safety} (deed : Deed careful top m n) (left : m.LeftWith id coro) :
    n.LeftWith id coro ∨ Fate m n id coro := by
  cases deed with
  | thread t _ coros =>
    have still : t.coros.find? id = some coro := coros ▸ left
    exact .inl still
  | close keepTop _ _ =>
    have coros : (m.thread.closeScope keepTop).2.coros = m.thread.coros := by rw [Thread.closeScope_eq]
    have still : (m.thread.closeScope keepTop).2.coros.find? id = some coro := coros ▸ left
    exact .inl still
  | closeFiber keepTop f _ _ =>
    have coros : (m.thread.closeScope keepTop).2.coros = m.thread.coros := by rw [Thread.closeScope_eq]
    have still : (m.thread.closeScope keepTop).2.coros.find? id = some coro := coros ▸ left
    exact .inl still
  | suspendLambda i head callee found called alone =>
    by_cases same : callee.body.id = id
    · subst same
      exact .inr (.replaced i head callee found called alone rfl rfl)
    · refine .inl ?_
      have other : (m.thread.coros.insert callee.body.id (m.thread.cut i head callee.body.id).1).find? id =
          m.thread.coros.find? id := by rw [Dict.find?_insert, if_neg same]
      exact other.trans left
  | resumeLambda id' coro' retPc found room _ =>
    by_cases same : id' = id
    · subst same
      obtain rfl := Option.some.inj (found.symm.trans left)
      exact .inr (.continued retPc room rfl)
    · refine .inl ?_
      have other : (m.thread.coros.erase id').find? id = m.thread.coros.find? id := by
        rw [Dict.find?_erase, if_neg same]
      exact other.trans left
  | dropLambda id' coro' found refused =>
    by_cases same : id' = id
    · subst same
      obtain rfl := Option.some.inj (found.symm.trans left)
      exact .inr (.dropped refused rfl)
    · refine .inl ?_
      have other : (m.thread.coros.erase id').find? id = m.thread.coros.find? id := by
        rw [Dict.find?_erase, if_neg same]
      exact other.trans left
  | _ => exact .inl left

theorem Deeds.accounted (h : Deeds False m n) (left : m.LeftWith id coro) :
    Accounted id coro m n := by
  induction h with
  | refl => exact .inl left
  | @next m n p q before between deed first second =>
    rcases first left with called | ⟨p', q', reached, there, fate, rest⟩
    · rcases second called with still | ⟨p', q', reached, there, fate, rest⟩
      · rcases deed.fate still with after | fate
        · exact .inl after
        · exact .inr ⟨p, q, before.trans between, still, fate, .refl q⟩
      · exact .inr ⟨p', q', before.trans reached, there, fate, rest.trans deed.changes⟩
    · exact .inr ⟨p', q', reached, there, fate, (rest.trans between.changes).trans deed.changes⟩
  | fork id' _ child first _ =>
    rcases first left with still | ⟨p', q', reached, there, fate, rest⟩
    · exact .inl still
    · exact .inr ⟨p', q', reached, there, fate, .fork id' rest child.changes⟩

/-- The call of a lambda that was left in the middle goes on with it if there is room. If not, the call
fails and the coroutine is gone. -/
theorem Run.enterLambda_left (c : Closure) (safety : Safety) (retPc : Nat)
    (left : m.LeftWith c.body.id coro) : ∃ s,
    (¬ m.Refuses coro → enterLambda c safety retPc m = .ok (.jump coro.pc)
      ⟨s, { m.thread with coros := m.thread.coros.erase c.body.id }.graft coro retPc none⟩) ∧
    (m.Refuses coro → ∃ e, enterLambda c safety retPc m =
      .error e ⟨s, { m.thread with coros := m.thread.coros.erase c.body.id }⟩) := by
  let s := m.shared.note .debug Phase.vm.target fun _ => s!"resuming lambda#{c.body.id}"
  let t := { m.thread with coros := m.thread.coros.erase c.body.id }
  have config : s.config = m.shared.config := (note_drift m.shared _ _ _ _).config
  have resumed : enterLambda c safety retPc m = resume coro retPc none ⟨s, t⟩ := by
    have found : m.thread.coros.find? c.body.id = some coro := left
    rw [enterLambda, bind_apply, ask]
    dsimp only
    rw [found]
    rfl
  refine ⟨s, ?_⟩
  rw [resumed]
  rcases resume_cases coro retPc none ⟨s, t⟩ with ⟨e, failed, refused⟩ | ⟨room, stack, done⟩
  · refine ⟨fun room => absurd ?_ room, fun _ => ⟨e, failed⟩⟩
    rw [Machine.Refuses, ← config]
    exact refused
  · refine ⟨fun _ => done, fun refused => ?_⟩
    rcases refused with full | none
    · rw [← config] at full
      exact absurd room (Nat.not_le.2 full)
    · exact absurd none stack

/-- Whatever runs, the coroutine that a lambda was left with stays with the thread until the lambda
goes on with it, another activation of the lambda is left in the middle, or the lambda is called where
there is no room to go on with it. -/
theorem Machine.coroutines_stay {m : Machine} {id : Nat} {coro : Coroutine}
    (left : m.LeftWith id coro) :
    (∀ (w : Watch) stop, Accounted id coro m ((w.runUntil stop).after m)) ∧
    (∀ (w : Watch) depth target,
      Accounted id coro m (((w.reentry depth).runThread target).after m)) ∧
    (∀ (w : Watch) depth base op, op ∈ m.thread.ops →
      Accounted id coro m ((Run.step (w.reentry depth) base op).after m)) ∧
    (∀ (w : Watch) depth base f,
      Accounted id coro m ((Run.recover (w.reentry depth) base f).after m)) ∧
    ∀ (c : Closure) safety retPc, c.body.id = id → ∃ s,
      (¬ m.Refuses coro → Run.enterLambda c safety retPc m = .ok (.jump coro.pc)
        ⟨s, { m.thread with coros := m.thread.coros.erase id }.graft coro retPc none⟩) ∧
      (m.Refuses coro → ∃ e, Run.enterLambda c safety retPc m =
        .error e ⟨s, { m.thread with coros := m.thread.coros.erase id }⟩) := by
  have makes (w : Watch) (depth : Nat) : (w.reentry depth).Makes False :=
    w.makes_reentry False.elim depth
  refine ⟨fun w stop => ?_, fun w depth target => ?_, fun w depth base op there => ?_,
    fun w depth base f => ?_, fun c safety retPc same => ?_⟩
  · exact (Watch.makes_runUntil False.elim stop m).accounted left
  · exact ((makes w depth).runThread target m).accounted left
  · exact (Run.step_deeds (makes w depth) base there).accounted left
  · exact (Run.makes_recover (makes w depth) base f m).accounted left
  · subst same
    exact Run.enterLambda_left c safety retPc left

/-- A lambda that has been left in the middle, and that an outer activation of it is about to leave. -/
def Machine.overlapping : Machine :=
  (Watch.runUntil ⟨fun _ m => decide (0 < m.thread.coros.size ∧ m.thread.scopes.size ≤ 2),
      fun _ _ => false⟩ 100).after
    ((Run.compile "let: g { call yield } ; { { } $g call } $g call").after (Engine.new {} .silent {}))

/-- The next operation there. -/
def Op.overlapping : Op :=
  (Machine.overlapping.thread.ops[Machine.overlapping.thread.pc]?).getD .close

/-- What that operation leads to. -/
def Machine.overlapped : Machine :=
  (Run.step (Watch.idle.reentry 1) 1 .overlapping).after .overlapping

/-- The outer activation is left in the middle, and the coroutine of the inner one is lost. -/
theorem Machine.coroutines_stay_overlapping : ∃ inner outer p q,
    Machine.overlapping.LeftWith 106 inner ∧ Machine.overlapped.LeftWith 106 outer ∧
    inner.scopes.toList.map Scope.retPc ≠ outer.scopes.toList.map Scope.retPc ∧
    p.LeftWith 106 inner ∧ Fate p q 106 inner ∧ Changes False q .overlapped := by
  have inside : (Machine.overlapping.thread.ops[Machine.overlapping.thread.pc]?).isSome = true := by
    decide +kernel
  have there : Op.overlapping ∈ Machine.overlapping.thread.ops := by
    obtain ⟨op, found⟩ := Option.isSome_iff_exists.1 inside
    rw [Op.overlapping, found]
    exact Array.mem_of_getElem? found
  have before : (Machine.overlapping.thread.coros.find? 106).map (·.scopes.toList.map Scope.retPc) =
      some [14] := by
    decide +kernel
  have after : (Machine.overlapped.thread.coros.find? 106).map (·.scopes.toList.map Scope.retPc) =
      some [18] := by
    decide +kernel
  obtain ⟨inner, left, called⟩ := Option.map_eq_some_iff.1 before
  obtain ⟨outer, left', called'⟩ := Option.map_eq_some_iff.1 after
  have apart : inner.scopes.toList.map Scope.retPc ≠ outer.scopes.toList.map Scope.retPc := by
    rw [called, called']
    decide
  have steps := (Machine.coroutines_stay (m := .overlapping) left).2.2.1
  rcases steps .idle 1 1 .overlapping there with still | ⟨p, q, -, parked, fate, rest⟩
  · obtain rfl : inner = outer := Option.some.inj (still.symm.trans left')
    exact absurd rfl apart
  · exact ⟨inner, outer, p, q, left, left', apart, parked, fate, rest⟩

end Catena
