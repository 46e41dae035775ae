import Catena.Proofs.Nested

/-!
# The level of a call

A lambda that starts is allowed what its caller is, and a function at most that. A lambda, or a fiber,
that was left in the middle goes on at the level it was left with, whoever calls it
(`Reached.call_level`).
-/

namespace Catena

variable {careful : Prop} {m n p : Machine} {r : Reentry}

/-- The level that a coroutine goes on with: that of the scope of its lambda. -/
def Coroutine.level (c : Coroutine) : Safety := (c.scopes[0]?.getD default).safety

/-- What a fiber was left with. -/
def Machine.left? (m : Machine) (f : Ref) : Option Coroutine :=
  match (m.shared.store.fibers[f]?.getD default).state with
  | .suspended coro => some coro
  | _ => none

/-- A call in `p` has put the scope of a lambda on top, whose level is at most `level` exactly if it
started, or was left with at most that level. -/
def Machine.Enters (p n : Machine) (left : Option Coroutine) (level : Safety) : Prop :=
  ∃ s, n.thread.scopes[p.thread.scopes.size]? = some s ∧ s.isLambda = true ∧
    (s.safety ≤ level ↔ ∀ coro, left = some coro → coro.level ≤ level)

namespace Machine.Enters

/-- A lambda has started. -/
theorem start {level : Safety} {s : Scope} (scopes : n.thread.scopes = p.thread.scopes.push s)
    (lambda : s.isLambda = true) (low : s.safety ≤ level) : p.Enters n none level :=
  ⟨s, by rw [scopes, Array.getElem?_push_size], lambda, fun _ => nofun, fun _ => low⟩

/-- A lambda goes on. -/
theorem graft {coro : Coroutine} (linked : coro.Linked) {retPc : Nat} {fiber : Option Ref}
    (scopes : n.thread.scopes = (p.thread.graft coro retPc fiber).scopes) (level : Safety) :
    p.Enters n (some coro) level := by
  obtain ⟨head, rest, all, lambda, -⟩ := linked.parts
  have first : coro.scopes[0]? = some head := by rw [← Array.getElem?_toList, all]; rfl
  have top : p.thread.scopes.toList.length ≤ p.thread.scopes.size := Nat.le_of_eq Array.length_toList
  refine ⟨{ head with
    stack := head.stack + (p.thread.valueStacks.size - 1), callerEnv := some p.thread.env, retPc,
    fiber }, ?_, lambda, fun low c same => ?_, fun low => ?_⟩
  · rw [scopes, ← Array.getElem?_toList, Thread.graft_scopes all, List.getElem?_append_right top,
      Array.length_toList, Nat.sub_self]
    rfl
  · obtain rfl := Option.some.inj same
    rw [Coroutine.level, first]
    exact low
  · have low := low coro rfl
    rwa [Coroutine.level, first] at low

end Machine.Enters

namespace Run

theorem startLambda_ok {c : Closure} {safety : Safety} {retPc : Nat} {ctl : Control}
    (h : startLambda c safety retPc p = .ok ctl n) :
    n = { p with thread := p.thread.openLambda c safety retPc } := by
  rcases startLambda_cases c safety retPc p with ⟨e, failed⟩ | ⟨entry, -, -, done⟩
  · rw [failed] at h; cases h
  · rw [done] at h; cases h; rfl

theorem resume_graft {coro : Coroutine} {retPc : Nat} {fiber : Option Ref} {ctl : Control}
    (h : resume coro retPc fiber p = .ok ctl n) :
    n = { p with thread := p.thread.graft coro retPc fiber } := by
  rcases resume_cases coro retPc fiber p with ⟨e, failed, -⟩ | ⟨-, -, done⟩
  · rw [failed] at h; cases h
  · rw [done] at h; cases h; rfl

theorem enterLambda_enters {c : Closure} {safety level : Safety} {retPc : Nat} {ctl : Control}
    (linked : p.Linked) (low : safety ≤ level) (h : enterLambda c safety retPc p = .ok ctl n) :
    p.Enters n (p.thread.coros.find? c.body.id) level := by
  obtain ⟨coro?, q, asked, h⟩ := bind_ok h
  cases asked
  dsimp only at h
  cases found : p.thread.coros.find? c.body.id with
  | none =>
    rw [found] at h
    rw [startLambda_ok h]
    exact .start rfl rfl low
  | some coro =>
    rw [found] at h
    obtain ⟨_, q, erased, h⟩ := bind_ok h
    cases erased
    obtain ⟨_, q, noted, h⟩ := bind_ok h
    cases noted
    rw [resume_graft h]
    exact .graft (linked.coros _ coro found) rfl level

theorem startFiber_enters {f : Ref} {id : Nat} {state : FiberState} {c : Closure} {retPc : Nat}
    {ctl : Control} (h : startFiber f id state c retPc p = .ok ctl n) :
    p.Enters n none p.thread.safety := by
  obtain ⟨_, q, noted, h⟩ := bind_ok h
  cases noted
  obtain ⟨_, q, asked, h⟩ := bind_ok h
  cases asked
  obtain ⟨result, q, attempted, h⟩ := bind_ok h
  rcases attempt_cases attempted with ⟨ctl, rfl, started⟩ | ⟨e, rfl, -⟩
  · cases startLambda_ok started
    cases h
    let s := Scope.lambda c p.thread.safety (p.thread.valueStacks.size - 1) retPc p.thread.env
    refine Machine.Enters.start (s := { s with fiber := some f }) ?_ rfl (Safety.le_refl _)
    simp [Thread.modifyScope, Thread.openLambda, modify_push, s]
  · obtain ⟨_, q, marked, h⟩ := bind_ok h
    cases h

/-- A fiber that was not left in the middle starts, unless its target is called in its place. -/
theorem enterTarget_enters {f : Ref} {fiber : Fiber} {retPc : Nat} {ctl : Control}
    (h : enterTarget f fiber retPc p = .ok (.control ctl) n) : p.Enters n none p.thread.safety := by
  cases target : fiber.target.payload with
  | lambda l =>
    simp only [enterTarget, target] at h
    obtain ⟨_, q, marked, h⟩ := bind_ok h
    cases marked
    obtain ⟨c?, q, asked, h⟩ := bind_ok h
    cases asked
    dsimp only at h
    cases found : p.shared.store.closures[l]? with
    | none => rw [found] at h; cases h
    | some c =>
      rw [found] at h
      obtain ⟨ctl, q, started, h⟩ := bind_ok h
      cases h
      have entered := startFiber_enters started
      exact entered
  | _ =>
    simp only [enterTarget, target] at h
    obtain ⟨_, q, marked, h⟩ := bind_ok h
    cases h

theorem enterFiber_enters {f : Ref} {retPc : Nat} {ctl : Control} (linked : p.Linked)
    (h : enterFiber f retPc p = .ok (.control ctl) n) : p.Enters n (p.left? f) p.thread.safety := by
  obtain ⟨fiber, q, asked, h⟩ := bind_ok h
  cases asked
  unfold Machine.left?
  dsimp only at h
  generalize known : p.shared.store.fibers[f]?.getD default = fiber at h ⊢
  cases left : fiber.state with
  | running => rw [left] at h; cases h
  | suspended coro =>
    rw [left] at h
    have found : p.shared.store.fibers[f]? = some fiber := by
      cases found : p.shared.store.fibers[f]? with
      | some g => rw [found] at known; exact congrArg some known
      | none => rw [found] at known; subst known; cases left
    have sound := linked.fibers fiber (Array.mem_of_getElem? found) coro left
    obtain ⟨_, q, marked, h⟩ := bind_ok h
    cases marked
    obtain ⟨_, q, noted, h⟩ := bind_ok h
    cases noted
    obtain ⟨result, q, attempted, h⟩ := bind_ok h
    rcases attempt_cases attempted with ⟨ctl, rfl, goesOn⟩ | ⟨e, rfl, -⟩
    · cases resume_graft goesOn
      cases h
      exact .graft sound rfl _
    · obtain ⟨_, q, marked, h⟩ := bind_ok h
      cases h
  | fresh => rw [left] at h; exact enterTarget_enters h
  | done => rw [left] at h; exact enterTarget_enters h

/-- What a call by name comes to is allowed where it was called. -/
theorem dispatch_ok (hr : r.Makes careful) {name : String} {retPc : Nat} {reply : Reply}
    (h : dispatch r name retPc m = .ok reply n) :
    ∃ imp p, Acts careful m p ∧ imp.safety ≤ m.thread.safety ∧ invoke r imp retPc p = .ok reply n := by
  obtain ⟨imps?, _, asked, h⟩ := bind_ok h
  cases asked
  obtain ⟨imps, _, found, rest⟩ := bind_ok h
  obtain ⟨known, unmoved⟩ := orFail_ok found
  rw [unmoved] at rest
  obtain ⟨cached, _, remembered, chosen⟩ := bind_ok rest
  obtain ⟨unmoved, allowed⟩ := remembered?_ok remembered
  rw [unmoved] at chosen
  cases cached with
  | some imp => exact ⟨imp, _, .refl _, allowed imp rfl, chosen⟩
  | none =>
    obtain ⟨_, q, erased, h⟩ := bind_ok chosen
    have first : Acts careful m q := by
      cases erased
      exact Act.acts (.thread _ (.of_scopes (.eraseCache m.thread m.thread.pc) rfl rfl rfl))
    have same : q.thread.safety = m.thread.safety ∧ q.shared = m.shared := by
      cases erased; exact ⟨rfl, rfl⟩
    obtain ⟨registry, _, asked, h⟩ := bind_ok h
    cases asked
    obtain ⟨choice, _, asked, h⟩ := bind_ok h
    cases asked
    dsimp only at h
    rw [same.1] at h
    cases chosen : choose imps q.shared.registry.findConv? m.thread.safety q.thread.stack with
    | «exact» imp =>
      rw [chosen] at h
      obtain ⟨member, level⟩ := choose_exact chosen
      obtain ⟨_, _, remembered, h⟩ := bind_ok h
      cases remembered
      exact ⟨imp, _, first.then (.remember imp name imps (same.2 ▸ known) member), level, h⟩
    | converted imp plan =>
      rw [chosen] at h
      obtain ⟨_, _, noted, h⟩ := bind_ok h
      obtain ⟨_, p, converted, h⟩ := bind_ok h
      have second := first.trans ((makes_note _ _).ok noted).acts
      exact ⟨imp, p, second.trans (((flat_convert _ _).makes hr).ok converted).acts,
        choose_converted chosen, h⟩
    | blocked =>
      rw [chosen] at h
      obtain ⟨_, _, asked, h⟩ := bind_ok h
      cases h
    | nothing =>
      rw [chosen] at h
      obtain ⟨_, _, asked, h⟩ := bind_ok h
      cases h

/-- A call of a lambda goes on with it if it was left in the middle, and starts it if not. -/
theorem callOnce_lambda {v : Value} {l retPc : Nat} {ctl : Control} (linked : m.Linked)
    (behavior : v.ty.behavior = .lambda) (payload : v.payload = .lambda l)
    (h : callOnce r v retPc m = .ok (.control ctl) n) :
    ∃ c, m.shared.store.closures[l]? = some c ∧
      m.Enters n (m.thread.coros.find? c.body.id) m.thread.safety := by
  simp only [callOnce, behavior, payload] at h
  obtain ⟨c?, _, asked, h⟩ := bind_ok h
  cases asked
  obtain ⟨c, q, found, rest⟩ := bind_ok h
  obtain ⟨known, unmoved⟩ := orFail_ok found
  rw [unmoved] at rest
  obtain ⟨safety, _, asked, entered⟩ := bind_ok rest
  cases asked
  obtain ⟨ctl, q, entered, h⟩ := bind_ok entered
  cases h
  exact ⟨c, known, enterLambda_enters linked (Safety.le_refl _) entered⟩

/-- A function with a body of its own is called like its lambda, at its own level. -/
theorem invoke_enters {imp : Imp} {body : LambdaDef} {retPc : Nat} {reply : Reply} {level : Safety}
    (linked : p.Linked) (low : imp.safety ≤ level) (lambda : imp.body = .lambda body)
    (h : invoke r imp retPc p = .ok reply n) :
    p.Enters n (p.thread.coros.find? body.id) level := by
  obtain ⟨_, q, noted, h⟩ := bind_ok h
  have acts : Acts False p q := ((makes_note _ _).ok noted).acts
  have linked := acts.changes.linked linked
  cases noted
  rw [lambda] at h
  obtain ⟨ctl, _, entered, h⟩ := bind_ok h
  cases h
  have entered := enterLambda_enters linked low entered
  exact entered

end Run

/-- The scope that a call puts on top for a lambda has at most the level of the caller, exactly if the
lambda starts, or was left with at most that level: whether a lambda is called, a fiber, or a
function, by its name or by a reference to it. -/
theorem Reached.call_level {kind : Watch → Prop} (h : Reached kind m) (w : Watch)
    (depth retPc : Nat) :
    (∀ v l ctl n, v.ty.behavior = .lambda → v.payload = .lambda l →
      Run.callOnce (w.reentry depth) v retPc m = .ok (.control ctl) n →
      ∃ c, m.shared.store.closures[l]? = some c ∧
        m.Enters n (m.thread.coros.find? c.body.id) m.thread.safety) ∧
    (∀ v f ctl n, v.ty.behavior = .fiber → v.payload = .fiber f →
      Run.callOnce (w.reentry depth) v retPc m = .ok (.control ctl) n →
      m.Enters n (m.left? f) m.thread.safety) ∧
    ∀ name reply n, (Run.dispatch (w.reentry depth) name retPc m = .ok reply n ∨
        ∃ v, v.ty.behavior = .func ∧ v.payload = .func name ∧
          Run.callOnce (w.reentry depth) v retPc m = .ok reply n) →
      ∃ imp p, Acts False m p ∧ imp.safety ≤ m.thread.safety ∧
        Run.invoke (w.reentry depth) imp retPc p = .ok reply n ∧
        ∀ body, imp.body = .lambda body →
          p.Enters n (p.thread.coros.find? body.id) m.thread.safety := by
  refine ⟨fun v l ctl n behavior payload called => ?_, fun v f ctl n behavior payload called => ?_,
    fun name reply n called => ?_⟩
  · exact Run.callOnce_lambda h.linked behavior payload called
  · simp only [Run.callOnce, behavior, payload] at called
    exact Run.enterFiber_enters h.linked called
  · have dispatched : Run.dispatch (w.reentry depth) name retPc m = .ok reply n := by
      rcases called with dispatched | ⟨v, behavior, payload, called⟩
      · exact dispatched
      · simpa only [Run.callOnce, behavior, payload] using called
    obtain ⟨imp, p, acts, low, invoked⟩ :=
      Run.dispatch_ok (w.makes_reentry False.elim depth : Reentry.Makes False _) dispatched
    have linked := acts.changes.linked h.linked
    exact ⟨imp, p, acts, low, invoked, fun body lambda =>
      Run.invoke_enters linked low lambda invoked⟩

/-- Whether a call comes to a change of the flow of control. -/
def Reply.isControl : Reply → Bool
  | control _ => true
  | enter _ => false

theorem Reply.isControl_iff {reply : Reply} : reply.isControl = true ↔ ∃ c, reply = .control c := by
  cases reply <;> simp [isControl]

/-- A lambda that was called in an `unsafe:` block, and left in the middle, is on the stack. -/
def Machine.leftUnsafe : Machine :=
  (Watch.idle.runUntil 100).after
    ((Run.compile "let: g { yield } ; unsafe: $g call ; $g").after (Engine.new {} .silent {}))

/-- The next call of the lambda puts a scope on top whose level is above that of the caller. -/
theorem Reached.call_level_left : ∃ ctl n s,
    Run.callOnce (Watch.idle.reentry 1) ⟨.lambda, .lambda 0⟩ 0 .leftUnsafe =
      .ok (.control ctl) n ∧
    n.thread.scopes[Machine.leftUnsafe.thread.scopes.size]? = some s ∧ s.isLambda = true ∧
    ¬ s.safety ≤ Machine.leftUnsafe.thread.safety := by
  have reached : Reached anyWatch .leftUnsafe := .run _ 100 trivial (.compile _ (.new ..))
  obtain ⟨lambdas, -, -⟩ := reached.call_level .idle 1 0
  have answers : ((Run.callOnce (Watch.idle.reentry 1) ⟨.lambda, .lambda 0⟩ 0).answer?
      .leftUnsafe).any Reply.isControl = true := by
    decide +kernel
  obtain ⟨reply, answered, control⟩ := (Option.any_eq_true _ _).1 answers
  have called := Run.answer?_eq_some answered
  obtain ⟨ctl, rfl⟩ := Reply.isControl_iff.1 control
  obtain ⟨c, known, s, top, lambda, low⟩ := lambdas _ 0 ctl _ rfl rfl called
  refine ⟨ctl, _, s, called, top, lambda, fun below => ?_⟩
  have closure : (Machine.leftUnsafe.shared.store.closures[0]?.map (·.body.id)) = some 106 := by
    decide +kernel
  have level : (Machine.leftUnsafe.thread.coros.find? 106).map (·.level) = some .unrestricted := by
    decide +kernel
  have safe : Machine.leftUnsafe.thread.safety = .safe := by decide +kernel
  rw [known, Option.map_some, Option.some.injEq] at closure
  obtain ⟨coro, left, above⟩ := Option.map_eq_some_iff.1 level
  have held := low.1 below coro (closure ▸ left)
  rw [above, safe] at held
  exact absurd held (of_decide_eq_false rfl)

end Catena
