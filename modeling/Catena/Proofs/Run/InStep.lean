import Catena.Proofs.Run.Lockstep

/-!
# Operations and runs in lockstep

From alike machines every operation goes the same way, the exits that look at the base where that
makes no difference (`exec_agree`). So do whole runs with the same base, and runs inside runs, which
have a base of their own (`lockstep_reentry`).
-/

namespace Catena

variable {α : Type} {r : Reentry} {even : Prop} {m n : Machine}

theorem Thread.closeScope_based (keepTop : Bool) (t : Thread) (b : Nat) :
    (Thread.closeScope { t with loopBase := b } keepTop).2 =
      { (t.closeScope keepTop).2 with loopBase := b } := by
  rw [closeScope_eq, closeScope_eq]
  rfl

theorem Thread.closeScope_ops (keepTop : Bool) (t : Thread) :
    (t.closeScope keepTop).2.ops = t.ops := by
  rw [closeScope_eq]

namespace Run

/-! ## Opening and closing scopes -/

theorem lockstep_bind (name : String) (v : Value) : Lockstep even (Run.bind name v) :=
  (Lockstep.ask fun _ _ => rfl).bind fun _ => .refuse (.alter (fun _ _ => rfl) fun _ => rfl)

theorem lockstep_checkRoom : Lockstep even checkRoom := by
  refine (Lockstep.askShared fun _ => rfl).bind fun limit =>
    (Lockstep.ask fun _ _ => rfl).bind fun size => ?_
  split
  · exact .fail _
  · exact .pure _

theorem lockstep_checkStack : Lockstep even checkStack := by
  refine (Lockstep.ask fun _ _ => rfl).bind fun heights => ?_
  split
  · exact .exhausted
  · exact .pure _

theorem lockstep_openBlock (ownStack : Bool) (safety : Safety) :
    Lockstep even (openBlock ownStack safety) := by
  have opens : Lockstep even (alter (·.openBlock ownStack safety)) :=
    .alter (fun _ _ => rfl) fun _ => rfl
  refine lockstep_checkRoom.bind fun _ => ?_
  cases ownStack with
  | true => exact opens
  | false => exact lockstep_checkStack.bind fun _ => opens

theorem lockstep_setFiber (f : Ref) (state : FiberState) : Lockstep even (setFiber f state) :=
  .alterStore _

theorem lockstep_makeDeferred (hr : r.Lockstep even) (calls : List Value) (first : Option Fault) :
    Lockstep even (makeDeferred r calls first) := by
  induction calls generalizing first with
  | nil => exact .pure first
  | cons f rest ih =>
    refine (hr.call f []).attempt.bind fun answer => ?_
    cases answer with
    | ok _ => exact ih first
    | error e => exact (Lockstep.note _ _).bind fun _ => ih _

theorem lockstep_closeScope (hr : r.Lockstep even) (keepTop : Bool) :
    Lockstep even (closeScope r keepTop) := by
  refine (Lockstep.ask fun _ _ => rfl).bind fun size => .refuse ?_
  refine (Lockstep.ask fun _ _ => rfl).bind fun calls => ?_
  refine Lockstep.bind (.alter (fun _ _ => rfl) fun _ => rfl) fun _ => ?_
  refine (lockstep_makeDeferred hr _ _).bind fun first => (Lockstep.ask fun _ _ => rfl).bind fun fiber => ?_
  refine Lockstep.bind (.alter (Thread.closeScope_based keepTop) (Thread.closeScope_ops keepTop))
    fun _ => ?_
  cases fiber with
  | some f => exact (lockstep_setFiber _ _).bind fun _ => .passOn _
  | none => exact .passOn _

theorem lockstep_closeDown (hr : r.Lockstep even) (depth : Nat) (keepTop : Bool) (fuel : Nat)
    (first : Option Fault) : Lockstep even (closeDown r depth keepTop fuel first) := by
  induction fuel generalizing first with
  | zero =>
    refine (Lockstep.ask fun _ _ => rfl).bind fun size => ?_
    split
    · exact .pure first
    · exact .exhausted
  | succ fuel ih =>
    refine (Lockstep.ask fun _ _ => rfl).bind fun size => ?_
    split
    · exact .pure first
    · refine (lockstep_closeScope hr keepTop).attempt.bind fun closed => ?_
      cases closed <;> exact ih _

theorem lockstep_unwindTo (hr : r.Lockstep even) (depth : Nat) (keepTop : Bool) :
    Lockstep even (unwindTo r depth keepTop) :=
  (Lockstep.ask fun _ _ => rfl).bind fun _ => (lockstep_closeDown hr _ _ _ _).bind fun _ => .passOn _

/-! ## Lambdas and fibers -/

theorem lockstep_startLambda (c : Closure) (safety : Safety) (retPc : Nat) :
    Lockstep even (startLambda c safety retPc) :=
  (Lockstep.orFail _ _).bind fun _ => lockstep_checkRoom.bind fun _ => lockstep_checkStack.bind
    fun _ => Lockstep.bind (.alter (fun _ _ => rfl) fun _ => rfl) fun _ => .pure _

theorem lockstep_resume (coro : Coroutine) (retPc : Nat) (fiber : Option Ref) :
    Lockstep even (resume coro retPc fiber) :=
  (Lockstep.askShared fun _ => rfl).bind fun _ => (Lockstep.ask fun _ _ => rfl).bind fun _ =>
    .refuse <| lockstep_checkStack.bind fun _ =>
      Lockstep.bind (.alter (fun _ _ => rfl) fun _ => rfl) fun _ => .pure _

theorem lockstep_enterLambda (c : Closure) (safety : Safety) (retPc : Nat) :
    Lockstep even (enterLambda c safety retPc) := by
  refine (Lockstep.ask fun _ _ => rfl).bind fun coro? => ?_
  cases coro? with
  | none => exact lockstep_startLambda _ _ _
  | some coro =>
    exact Lockstep.bind (.alter (fun _ _ => rfl) fun _ => rfl) fun _ => (Lockstep.note _ _).bind
      fun _ => lockstep_resume _ _ _

theorem lockstep_startFiber (fiber : Ref) (id : Nat) (state : FiberState) (c : Closure)
    (retPc : Nat) : Lockstep even (startFiber fiber id state c retPc) := by
  refine (Lockstep.note _ _).bind fun _ => (Lockstep.ask fun _ _ => rfl).bind fun _ => ?_
  refine (lockstep_startLambda _ _ _).attempt.bind fun started => ?_
  cases started with
  | ok ctl => exact Lockstep.bind (.alter (fun _ _ => rfl) fun _ => rfl) fun _ => .pure _
  | error e => exact (lockstep_setFiber _ _).bind fun _ => .fail e

theorem lockstep_resumeFiber (ref : Ref) (id : Nat) (coro : Coroutine) (retPc : Nat) :
    Lockstep even (resumeFiber ref id coro retPc) := by
  refine (lockstep_setFiber _ _).bind fun _ => (Lockstep.note _ _).bind fun _ => ?_
  refine (lockstep_resume _ _ _).attempt.bind fun resumed => ?_
  cases resumed with
  | ok ctl => exact .pure _
  | error e => exact (lockstep_setFiber _ _).bind fun _ => .fail e

theorem lockstep_enterTarget (ref : Ref) (fiber : Fiber) (retPc : Nat) :
    Lockstep even (enterTarget ref fiber retPc) := by
  unfold enterTarget
  split
  · refine (lockstep_setFiber _ _).bind fun _ => (Lockstep.askStore _).bind fun c? => ?_
    cases c? with
    | some c => exact (lockstep_startFiber _ _ _ _ _).bind fun _ => .pure _
    | none => exact .fail _
  · exact (lockstep_setFiber _ _).bind fun _ => .pure _

theorem lockstep_enterFiber (ref : Ref) (retPc : Nat) : Lockstep even (enterFiber ref retPc) := by
  refine (Lockstep.askStore _).bind fun fiber => ?_
  split
  · exact .fail _
  · exact lockstep_resumeFiber _ _ _ _
  · exact lockstep_enterTarget _ _ _

theorem lockstep_lambdaScope (depth : Nat) : Lockstep even (lambdaScope depth) :=
  (Lockstep.ask fun _ _ => rfl).bind fun _ => .orFail _ _

theorem lockstep_exitReturn (depth : Nat) : Lockstep even (exitReturn depth) :=
  (lockstep_lambdaScope _).bind fun _ => (Lockstep.ask fun _ _ => rfl).bind fun _ => .pure _

theorem lockstep_exitLoop (depth : Nat) : Lockstep even (exitLoop depth) := by
  refine (Lockstep.ask fun _ _ => rfl).bind fun _ => (Lockstep.orFail _ _).bind fun (i, pc) => ?_
  refine (Lockstep.ask fun _ _ => rfl).bind fun donePc => ?_
  exact Lockstep.bind (.alter (fun _ _ => rfl) fun _ => rfl) fun _ => (Lockstep.note _ _).bind
    fun _ => .pure _

/-! ## Calls -/

theorem lockstep_invoke (hr : r.Lockstep even) (imp : Imp) (retPc : Nat) :
    Lockstep even (invoke r imp retPc) := by
  refine (Lockstep.note _ _).bind fun _ => ?_
  split
  · refine ((flat_runNative _ _).lockstep hr).bind fun reply => ?_
    split <;> exact .pure _
  · exact (lockstep_enterLambda _ _ _).bind fun _ => .pure _

theorem lockstep_dispatch (hr : r.Lockstep even) (name : String) (retPc : Nat) :
    Lockstep even (dispatch r name retPc) := by
  refine (Lockstep.askShared fun _ => rfl).bind fun _ => (Lockstep.orFail _ _).bind fun imps => ?_
  refine (Lockstep.ask fun _ _ => rfl).bind fun cached => ?_
  cases cached with
  | some imp => exact lockstep_invoke hr _ _
  | none =>
    refine Lockstep.bind (.alter (fun _ _ => rfl) fun _ => rfl) fun _ => ?_
    refine (Lockstep.askShared fun _ => rfl).bind fun registry => ?_
    refine (Lockstep.ask fun _ _ => rfl).bind fun choice => ?_
    cases choice with
    | exact imp =>
      exact Lockstep.bind (.alter (fun _ _ => rfl) fun _ => rfl) fun _ => lockstep_invoke hr _ _
    | converted imp plan =>
      exact (Lockstep.note _ _).bind fun _ => ((flat_convert _ _).lockstep hr).bind fun _ =>
        lockstep_invoke hr _ _
    | blocked => exact (Lockstep.ask fun _ _ => rfl).bind fun _ => .fail _
    | nothing => exact (flat_describeTop.lockstep hr).bind fun _ => .fail _

theorem lockstep_callOnce (hr : r.Lockstep even) (v : Value) (retPc : Nat) :
    Lockstep even (callOnce r v retPc) := by
  unfold callOnce
  split
  · exact lockstep_dispatch hr _ _
  · exact .fail _
  · exact (Lockstep.askStore _).bind fun _ => (Lockstep.orFail _ _).bind fun _ =>
      (Lockstep.ask fun _ _ => rfl).bind fun _ => (lockstep_enterLambda _ _ _).bind fun _ => .pure _
  · exact .fail _
  · exact (Lockstep.orFail _ _).bind fun _ => .pure _
  · exact .fail _
  · exact lockstep_enterFiber _ _
  · exact .fail _
  · exact (Lockstep.askStore _).bind fun _ => .fail _

theorem lockstep_settle (hr : r.Lockstep even) (retPc fuel : Nat) (reply : Reply) :
    Lockstep even (settle r retPc fuel reply) := by
  induction fuel generalizing reply with
  | zero =>
    cases reply with
    | control c => exact .pure c
    | enter v => exact .exhausted
  | succ fuel ih =>
    cases reply with
    | control c => exact .pure c
    | enter v => exact (lockstep_callOnce hr v retPc).bind ih

theorem lockstep_callValue (hr : r.Lockstep even) (v : Value) (retPc : Nat) :
    Lockstep even (callValue r v retPc) :=
  (flat_callFuel.lockstep hr).bind fun _ => lockstep_settle hr _ _ _

theorem lockstep_callName (hr : r.Lockstep even) (name : String) (retPc : Nat) :
    Lockstep even (callName r name retPc) :=
  (flat_callFuel.lockstep hr).bind fun _ => (lockstep_dispatch hr _ _).bind fun _ =>
    lockstep_settle hr _ _ _

theorem lockstep_lookUp (hr : r.Lockstep even) (name : String) : Lockstep even (lookUp r name) := by
  refine (Lockstep.askShared fun _ => rfl).bind fun (isFunc, t?) => ?_
  dsimp only
  split
  · exact (Lockstep.ask fun _ _ => rfl).bind fun _ => lockstep_callName hr _ _
  · split
    · exact ((flat_push _).lockstep hr).bind fun _ => .pure _
    · exact .fail _

/-! ## Try forms and loops -/

theorem lockstep_openTry (donePc : Nat) : Lockstep even (openTry donePc) :=
  (Lockstep.ask fun _ _ => rfl).bind fun _ => (lockstep_openBlock _ _).bind fun _ =>
    Lockstep.bind (.alter (fun _ _ => rfl) fun _ => rfl) fun _ => .pure _

theorem lockstep_closeTry (hr : r.Lockstep even) : Lockstep even (closeTry r) := by
  refine (Lockstep.ask fun _ _ => rfl).bind fun _ => (Lockstep.orFail _ _).bind fun frame => ?_
  refine Lockstep.bind (.alter (fun _ _ => rfl) fun _ => rfl) fun _ => ?_
  refine (lockstep_closeScope hr true).bind fun _ => ?_
  have rest (v : Value) : Lockstep even (do push v; return .next : Run Control) :=
    ((flat_push v).lockstep hr).bind fun _ => .pure _
  dsimp only
  split
  · exact rest _
  · exact ((flat_errorList _).lockstep hr).bind rest

theorem lockstep_alterLoops (f : Dict Nat LoopState → Dict Nat LoopState) :
    Lockstep even (alterLoops f) :=
  .alter (fun _ _ => rfl) fun _ => rfl

theorem lockstep_nextFor (hr : r.Lockstep even) (pc donePc : Nat) :
    Lockstep even (nextFor r pc donePc) := by
  refine ((flat_loopAt? pc).lockstep hr).bind fun running => ?_
  split
  · refine ((flat_pull _).lockstep hr).bind fun pulled => ?_
    cases pulled with
    | item v => exact ((flat_push v).lockstep hr).bind fun _ => lockstep_callValue hr _ _
    | pending => exact .pure _
    | done => exact (lockstep_alterLoops _).bind fun _ => .pure _
  · exact .fail _

theorem lockstep_stepFor (hr : r.Lockstep even) (donePc : Nat) :
    Lockstep even (stepFor r donePc) := by
  refine (Lockstep.ask fun _ _ => rfl).bind fun pc => ((flat_loopAt? pc).lockstep hr).bind
    fun running => ?_
  dsimp only
  split
  · refine Lockstep.bind ?_ fun _ => lockstep_nextFor hr _ _
    exact (flat_pop.lockstep hr).bind fun _ => (flat_pop.lockstep hr).bind fun _ =>
      ((flat_iterate _).lockstep hr).bind fun _ => lockstep_alterLoops _
  · exact lockstep_nextFor hr _ _

theorem lockstep_stepWhile (hr : r.Lockstep even) (donePc : Nat) :
    Lockstep even (stepWhile r donePc) := by
  refine (Lockstep.ask fun _ _ => rfl).bind fun pc => ((flat_loopAt? pc).lockstep hr).bind
    fun running => ?_
  split
  · exact (flat_pop.lockstep hr).bind fun _ => (lockstep_alterLoops _).bind fun _ =>
      lockstep_callValue hr _ _
  · refine (flat_pop.lockstep hr).bind fun condition => ?_
    split
    · exact lockstep_callValue hr _ _
    · exact (lockstep_alterLoops _).bind fun _ => .pure _
  · exact .fail _

theorem lockstep_endOnFault {step : Run Control} (h : Lockstep even step) :
    Lockstep even (endOnFault step) := by
  refine h.attempt.bind fun result => ?_
  cases result with
  | ok c => exact .pure c
  | error e =>
    exact (Lockstep.ask fun _ _ => rfl).bind fun pc => (lockstep_alterLoops _).bind fun _ => .fail e

/-! ## Exits -/

/-- A test of the base that comes out the same for both machines. -/
theorem agree_guard {f : Fault} {i : Nat} {k : Unit → Run α} (alike : m.Alike n)
    (same : i < n.thread.loopBase ↔ i < m.thread.loopBase) (hk : Lockstep False (k ())) :
    m.Agree n
      ((ask (·.loopBase) >>= fun base => if i < base then fail f >>= k else k ()) m)
      ((ask (·.loopBase) >>= fun base => if i < base then fail f >>= k else k ()) n) := by
  simp only [bind_apply, ask]
  by_cases refused : i < m.thread.loopBase
  · rw [if_pos refused, if_pos (same.2 refused)]
    exact .fault f alike (.refl m) (.refl n)
  · rw [if_neg refused, if_neg fun h => refused (same.1 h)]
    exact hk m n alike False.elim

theorem lockstep_cut (i : Nat) (head : Scope) (lambda : Nat) : Lockstep even fun m =>
    let (coro, thread) := m.thread.cut i head lambda
    .ok coro { m with thread } := fun m n alike _ => by
  have coro : (n.thread.cut i head lambda).1 = (m.thread.cut i head lambda).1 := by
    rw [alike.thread]
    rfl
  have thread : (n.thread.cut i head lambda).2 =
      { (m.thread.cut i head lambda).2 with loopBase := n.thread.loopBase } :=
    congrArg (fun t => (t.cut i head lambda).2) alike.thread
  show m.Agree n (.ok (m.thread.cut i head lambda).1 _) (.ok (n.thread.cut i head lambda).1 _)
  rw [coro]
  exact .ok _ ⟨alike.shared, thread, alike.fileless, alike.fileless'⟩ ⟨rfl, rfl⟩ ⟨rfl, rfl⟩

theorem suspend_agree (alike : m.Alike n) {depth : Nat}
    (same : ∀ i, m.thread.lambdaScope? depth = some i →
      (i < n.thread.loopBase ↔ i < m.thread.loopBase)) :
    m.Agree n (suspend depth m) (suspend depth n) := by
  refine Lockstep.agree_bind (lockstep_lambdaScope depth m n alike False.elim) ?_
  intro i p q found found' alike _ _
  obtain ⟨at_, rfl⟩ := orFail_ok found
  obtain ⟨-, rfl⟩ := orFail_ok found'
  refine agree_guard alike (same i at_) ?_
  refine (Lockstep.ask fun _ _ => rfl).bind fun head => (Lockstep.orFail _ _).bind fun callee => ?_
  refine (lockstep_cut i head callee.body.id).bind fun coro => ?_
  dsimp only
  split
  · exact (Lockstep.askStore _).bind fun _ => (Lockstep.note _ _).bind fun _ =>
      (lockstep_setFiber _ _).bind fun _ => .pure _
  · exact (Lockstep.note _ _).bind fun _ =>
      Lockstep.bind (.alter (fun _ _ => rfl) fun _ => rfl) fun _ => .pure _

theorem recallFrom_agree (hr : r.Lockstep False) (alike : m.Alike n) {depth : Nat}
    (same : ∀ i, m.thread.lambdaScope? depth = some i →
      (i < n.thread.loopBase ↔ i < m.thread.loopBase)) :
    m.Agree n (recallFrom r depth m) (recallFrom r depth n) := by
  refine Lockstep.agree_bind (lockstep_lambdaScope depth m n alike False.elim) ?_
  intro i p q found found' alike _ _
  obtain ⟨at_, rfl⟩ := orFail_ok found
  obtain ⟨-, rfl⟩ := orFail_ok found'
  refine agree_guard alike (same i at_) ?_
  refine (lockstep_unwindTo hr _ _).bind fun _ => (Lockstep.ask fun _ _ => rfl).bind fun _ => ?_
  refine (Lockstep.orFail _ _).bind fun callee => (Lockstep.orFail _ _).bind fun entry => ?_
  exact Lockstep.bind (.alter (fun _ _ => rfl) fun _ => rfl) fun _ => .pure _

/-- The exits that leave a lambda in the middle or start it anew find the same side of the base. -/
def SameSide (m n : Machine) (label : Label) : Prop :=
  ∀ kind depth i, label.role = some (kind, depth) → kind = .yield ∨ kind = .recall →
    m.thread.lambdaScope? depth = some i → (i < n.thread.loopBase ↔ i < m.thread.loopBase)

theorem exit_agree (hr : r.Lockstep False) (alike : m.Alike n) {label : Label}
    (same : SameSide m n label) : m.Agree n (exit r label m) (exit r label n) := by
  unfold exit
  cases role : label.role with
  | none => exact Lockstep.fail _ m n alike False.elim
  | some exit =>
    obtain ⟨kind, depth⟩ := exit
    cases kind with
    | «return» => exact lockstep_exitReturn depth m n alike False.elim
    | «recall» => exact recallFrom_agree hr alike fun i => same _ depth i role (.inr rfl)
    | yield => exact suspend_agree alike fun i => same _ depth i role (.inl rfl)
    | «break» => exact lockstep_exitLoop depth m n alike False.elim

/-- What an operation does in order to go on with the next one. -/
theorem Lockstep.thenGoOn {x : Run Unit} (hx : Lockstep even x) :
    Lockstep even (do x; return .next : Run Control) :=
  hx.bind fun _ => .pure _

/-- Only exits look at the base. -/
theorem exec_agree (hr : r.Lockstep False) (alike : m.Alike n) {op : Op}
    (same : ∀ label id, op = .exit label id → SameSide m n label) :
    m.Agree n (exec r op m) (exec r op n) := by
  have of_lockstep {x : Run Control} (hx : Lockstep False x) : m.Agree n (x m) (x n) :=
    hx m n alike False.elim
  cases flat : op.isFlat with
  | true => exact of_lockstep ((flat_exec flat).lockstep hr)
  | false =>
    cases op with
    | deref name => exact of_lockstep (lockstep_lookUp hr name)
    | call name =>
      exact of_lockstep ((Lockstep.ask fun _ _ => rfl).bind fun _ => lockstep_callName hr _ _)
    | bind name =>
      exact of_lockstep ((flat_pop.lockstep hr).bind fun _ => (lockstep_bind _ _).thenGoOn)
    | unlambda id => exact of_lockstep (lockstep_exitReturn 0)
    | exit label id => exact exit_agree hr alike (same label id rfl)
    | begin ownStack safety =>
      exact of_lockstep ((Lockstep.ask fun _ _ => rfl).bind fun _ => (lockstep_openBlock _ _).thenGoOn)
    | close => exact of_lockstep (lockstep_closeScope hr true).thenGoOn
    | closeList =>
      exact of_lockstep <| (Lockstep.ask fun _ _ => rfl).bind fun _ =>
        ((flat_alterStack _).lockstep hr).bind fun _ => (lockstep_closeScope hr false).bind fun _ =>
          ((flat_listFrom _).lockstep hr).bind fun _ => ((flat_push _).lockstep hr).thenGoOn
    | «try» done =>
      exact of_lockstep (((flat_labelPc done).lockstep hr).bind fun _ => lockstep_openTry _)
    | closeTry => exact of_lockstep (lockstep_closeTry hr)
    | «for» done =>
      exact of_lockstep <| ((flat_endPc _ _).lockstep hr).bind fun _ =>
        lockstep_endOnFault (lockstep_stepFor hr _)
    | «while» done =>
      exact of_lockstep <| ((flat_endPc _ _).lockstep hr).bind fun _ =>
        lockstep_endOnFault (lockstep_stepWhile hr _)
    | _ => cases flat

/-! ## Steps and runs -/

theorem lockstep_apply (hr : r.Lockstep even) (base : Nat) (c : Control) :
    Lockstep even (apply r base c) := by
  cases c with
  | next => rw [apply]; exact .alter (fun _ _ => rfl) fun _ => rfl
  | jump pc => rw [apply]; exact .alter (fun _ _ => rfl) fun _ => rfl
  | unwind depth pc =>
    rw [apply]
    refine Lockstep.refuse ((lockstep_unwindTo hr _ _).bind fun _ => ?_)
    exact .alter (fun _ _ => rfl) fun _ => rfl

theorem lockstep_unwindAfterFault (hr : r.Lockstep even) (depth : Nat) :
    Lockstep even (unwindAfterFault r depth) := by
  refine (lockstep_unwindTo hr _ _).attempt.bind fun result => ?_
  cases result with
  | ok _ => exact .pure ()
  | error e => exact .note _ _

theorem lockstep_resumeTry (f : Fault) (i : Nat) (frame : TryFrame) :
    Lockstep even (resumeTry f i frame) := by
  refine (Lockstep.ask fun _ _ => rfl).bind fun scope? => ?_
  cases scope? with
  | none => exact .exhausted
  | some scope => exact .alter (fun _ _ => rfl) fun _ => rfl

/-- A fault is caught by a `try:` form. -/
theorem lockstep_catch (hr : r.Lockstep even) (f : Fault) (frame : TryFrame) : Lockstep even (do
    let pc ← ask (·.pc)
    note .debug fun _ => s!"caught at pc {pc}: {f.text}"
    unwindAfterFault r (frame.scope + 1)
    let innermost ← orFail f (← ask (·.tries.back?))
    resumeTry f frame.scope innermost) :=
  (Lockstep.ask fun _ _ => rfl).bind fun _ => (Lockstep.note _ _).bind fun _ =>
    (lockstep_unwindAfterFault hr _).bind fun _ => (Lockstep.ask fun _ _ => rfl).bind fun _ =>
      (Lockstep.orFail _ _).bind fun _ => lockstep_resumeTry _ _ _

theorem lockstep_recover (hr : r.Lockstep even) (base : Nat) (f : Fault) :
    Lockstep even (recover r base f) := by
  refine (Lockstep.ask fun _ _ => rfl).bind fun catching => ?_
  cases catching with
  | none =>
    exact (Lockstep.ask fun _ _ => rfl).bind fun _ => (Lockstep.note _ _).bind fun _ =>
      (lockstep_unwindAfterFault hr _).bind fun _ => .fail f
  | some frame => exact lockstep_catch hr f frame

/-- The test of the stack's height that ends a step. -/
theorem lockstep_checkHeight : Lockstep even (do
    let limit ← askShared (·.config.limits.maxStackSize)
    if limit < (← ask (·.stack.size)) then fail (Fault.stackLimit limit)) := by
  refine (Lockstep.askShared fun _ => rfl).bind fun limit => ?_
  refine (Lockstep.ask fun _ _ => rfl).bind fun size => ?_
  split
  · exact .fail _
  · exact .pure _

theorem lockstep_step (hr : r.Lockstep False) (base : Nat) (op : Op) :
    Lockstep True (step r base op) := fun m n alike same => by
  have base_eq := same trivial
  refine Lockstep.agree_bind (exec_agree hr alike fun _ _ _ _ _ _ _ _ _ => by rw [base_eq]) ?_
  intro c p q _ _ alike _ _
  exact ((lockstep_apply hr base c).bind fun _ => lockstep_checkHeight) p q alike False.elim

theorem Lockstep.weaken {x : Run α} (hx : Lockstep False x) : Lockstep even x :=
  fun m n alike _ => hx m n alike False.elim

theorem lockstep_runOps (hr : r.Lockstep False) (base stop fuel : Nat) :
    Lockstep True (runOps r base stop fuel) := by
  induction fuel with
  | zero => exact .exhausted
  | succ fuel ih =>
    refine (Lockstep.ask fun _ _ => rfl).bind fun pc => ?_
    split
    · exact .pure ()
    refine (Lockstep.ask fun _ _ => rfl).bind fun op? => ?_
    cases op? with
    | none => exact .pure ()
    | some op =>
      refine (lockstep_step hr base op).attempt.bind fun result => ?_
      cases result with
      | ok _ => exact ih
      | error f => exact (lockstep_recover hr base f).weaken.bind fun _ => ih

/-- A run has its own base and gives the old one back. -/
theorem runLoop_apply (base stop : Nat) (m : Machine) :
    runLoop r base stop m =
      match runOps r base stop stepLimit (m.withBase base) with
      | .ok a p => .ok a (p.withBase m.thread.loopBase)
      | .error (.fault f) p => .error (.fault f) (p.withBase m.thread.loopBase)
      | .error .outOfFuel p => .error .outOfFuel p := by
  show (attempt (runOps r base stop stepLimit) >>= _) (m.withBase base) = _
  rw [bind_apply, attempt]
  rcases runOps r base stop stepLimit (m.withBase base) with ⟨a, p⟩ | ⟨_ | _, p⟩ <;> rfl

theorem lockstep_runLoop (hr : r.Lockstep False) (base stop : Nat) :
    Lockstep False (runLoop r base stop) := fun m n alike _ => by
  have ends := lockstep_runOps hr base stop stepLimit _ _ (alike.withBase base base) fun _ => rfl
  rw [runLoop_apply, runLoop_apply]
  generalize runOps r base stop stepLimit (m.withBase base) = one at ends
  generalize runOps r base stop stepLimit (n.withBase base) = other at ends
  cases ends with
  | ok a alike held held' => exact .ok a (alike.withBase _ _) ⟨held.1, rfl⟩ ⟨held'.1, rfl⟩
  | fault f alike held held' => exact .fault f (alike.withBase _ _) ⟨held.1, rfl⟩ ⟨held'.1, rfl⟩
  | outOfFuel alike => exact .outOfFuel alike

theorem lockstep_runCall (hr : r.Lockstep False) (target : Value) (base : Nat) :
    Lockstep False (runCall r target base) :=
  (lockstep_callValue hr _ _).bind fun _ => (lockstep_apply hr _ _).bind fun _ =>
    lockstep_runLoop hr _ _

theorem lockstep_callNested (hr : r.Lockstep False) (target : Value) (args : List Value) :
    Lockstep False (callNested r target args) := by
  refine (Lockstep.ask fun _ _ => rfl).bind fun (pc, base) => (Lockstep.ask fun _ _ => rfl).bind
    fun safety => ?_
  refine (lockstep_openBlock _ _).bind fun _ => ((flat_pushEach _).lockstep hr).bind fun _ => ?_
  refine (lockstep_runCall hr _ _).attempt.bind fun result => ?_
  refine (Lockstep.ask fun _ _ => rfl).bind fun top => ?_
  refine (lockstep_unwindTo hr _ _).attempt.bind fun closed => ?_
  refine Lockstep.bind (.alter (fun _ _ => rfl) fun _ => rfl) fun _ => ?_
  exact (Lockstep.ofExcept _).bind fun _ => (Lockstep.ofExcept _).bind fun _ => .pure _

/-- Runs inside runs go the same way whatever the base of the run around them. -/
theorem lockstep_reentry (depth : Nat) : (reentry depth).Lockstep False := by
  induction depth with
  | zero => exact ⟨fun _ _ => .exhausted, fun _ => .exhausted⟩
  | succ depth ih =>
    exact ⟨lockstep_callNested ih, fun _ => (Lockstep.ask fun _ _ => rfl).bind fun _ =>
      lockstep_runCall ih _ _⟩

end Run

end Catena
