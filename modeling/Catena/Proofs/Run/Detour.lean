import Catena.Proofs.Run.Loop

/-!
# Runs that stay at a level

What a run never does can be replaced by anything else, and the run stays the same. A run with a
`Detour` does something else wherever it would run an implementation above a level. As long as no
scope is above that level, it is the run itself (`Detour.agree_runUntil`): no implementation
above it is ever run, neither by a call nor by a conversion, an iterator, a deferred call or a thread.
-/

namespace Catena

/-- What is done in place of an implementation above a level. -/
structure Detour where
  level : Safety
  instead : Imp → Run Reply

namespace Detour

open Run (ask alter askShared attempt fail ofExcept orFail note)

variable (d : Detour) (r : Reentry)

/-- Runs an implementation whose arguments are on the stack, or does what is done in its place. -/
def invoke (imp : Imp) (retPc : Nat) : Run Reply :=
  if imp.safety ≤ d.level then Run.invoke r imp retPc else d.instead imp

/-- Calls the function with a given name. -/
def dispatch (name : String) (retPc : Nat) : Run Reply := do
  let imps ← orFail (Fault.unknownId name) (← askShared fun s => s.registry.funcs.find? name)
  match ← Run.remembered? imps with
  | some imp => d.invoke r imp retPc
  | none =>
    alter fun t => { t with cache := t.cache.erase t.pc }
    let registry ← askShared (·.registry)
    match ← ask fun t => choose imps registry.findConv? t.safety t.stack with
    | .exact imp =>
      alter fun t => { t with cache := t.cache.insert t.pc imp }
      d.invoke r imp retPc
    | .converted imp plan =>
      note .debug fun _ => s!"{name} applies after {plan.length} conversion(s)"
      Run.convert r imp.args.length plan
      d.invoke r imp retPc
    | .blocked => fail (Fault.notAllowed name (← ask Thread.safety).name)
    | .nothing => fail (Fault.notApplicable name (← Run.describeTop))

/-- Calls a value once. -/
def callOnce (v : Value) (retPc : Nat) : Run Reply :=
  match v.ty.behavior, v.payload with
  | .func, .func name => d.dispatch r name retPc
  | _, _ => Run.callOnce r v retPc

/-- Calls values in place of one another until a change of the flow of control comes out. -/
def settle (retPc : Nat) : (fuel : Nat) → Reply → Run Control
  | _, .control c => return c
  | 0, .enter _ => Run.exhausted
  | fuel + 1, .enter v => do settle retPc fuel (← d.callOnce r v retPc)

/-- Calls a value. -/
def callValue (v : Value) (retPc : Nat) : Run Control := do
  d.settle r retPc ((← Run.callFuel) + 1) (.enter v)

/-- Calls the function with a given name. -/
def callName (name : String) (retPc : Nat) : Run Control := do
  let fuel ← Run.callFuel
  d.settle r retPc fuel (← d.dispatch r name retPc)

/-- Looks up a name: a function is called, a type is pushed. -/
def lookUp (name : String) : Run Control := do
  let (isFunc, t?) ← askShared fun s =>
    (s.registry.funcs.contains name, s.registry.types.find? name)
  if isFunc then d.callName r name ((← ask (·.pc)) + 1)
  else
    match t? with
    | some t => Run.push (.type t); return .next
    | none => fail (Fault.unknownId name)

/-- Calls the body of a `for` loop with the next item. -/
def nextFor (pc donePc : Nat) : Run Control := do
  match ← Run.loopAt? pc with
  | some ⟨.for iter body, _⟩ =>
    match ← Run.pull r iter with
    | .item v => Run.push v; d.callValue r body (pc + 1)
    | .pending => return .jump pc
    | .done => Run.alterLoops (·.erase pc); return .jump donePc
  | _ => fail Fault.corruptLoop

/-- One round of a `for` loop. -/
def stepFor (donePc : Nat) : Run Control := do
  let pc ← ask (·.pc)
  if (← Run.loopAt? pc).isNone then Run.beginFor pc donePc
  d.nextFor r pc donePc

/-- One round of a `while` loop. -/
def stepWhile (donePc : Nat) : Run Control := do
  let pc ← ask (·.pc)
  match ← Run.loopAt? pc with
  | none =>
    let body ← Run.pop
    Run.alterLoops (·.insert pc ⟨.while body, donePc⟩)
    d.callValue r body (pc + 1)
  | some ⟨.while body, _⟩ =>
    if (← Run.pop).truthy then d.callValue r body (pc + 1)
    else
      Run.alterLoops (·.erase pc)
      return .jump donePc
  | some _ => fail Fault.corruptLoop

/-- Executes one operation. -/
def exec : Op → Run Control
  | .deref name => d.lookUp r name
  | .call name => do d.callName r name ((← ask (·.pc)) + 1)
  | .for done => do let pc ← Run.endPc "for" done; Run.endOnFault (d.stepFor r pc)
  | .while done => do let pc ← Run.endPc "while" done; Run.endOnFault (d.stepWhile r pc)
  | op => Run.exec r op

/-- Executes one operation and carries out what comes of it. -/
def step (base : Nat) (op : Op) : Run Unit := do
  Run.apply r base (← d.exec r op)
  let limit ← askShared (·.config.limits.maxStackSize)
  if limit < (← ask (·.stack.size)) then fail (Fault.stackLimit limit)

/-- Executes operations until the program counter is `stop` or past all of them. -/
def runOps (base stop : Nat) : (fuel : Nat) → Run Unit
  | 0 => Run.exhausted
  | fuel + 1 => do
    let pc ← ask (·.pc)
    if pc = stop then return ()
    match ← ask (·.ops[pc]?) with
    | none => return ()
    | some op =>
      match ← attempt (d.step r base op) with
      | .ok () => runOps base stop fuel
      | .error f =>
        Run.recover r base f
        runOps base stop fuel

/-- Runs with `base` as the number of scopes to stay above. -/
def runLoop (base stop : Nat) : Run Unit := do
  let saved ← ask (·.loopBase)
  alter fun t => { t with loopBase := base }
  let result ← attempt (d.runOps r base stop Run.stepLimit)
  alter fun t => { t with loopBase := saved }
  ofExcept result

/-- Calls a value and runs until the call is over. -/
def runCall (target : Value) (base : Nat) : Run Unit := do
  Run.apply r base (← d.callValue r target exitPc)
  d.runLoop r base exitPc

/-- Calls a value with arguments on a stack of its own. Answers what is then on top of it. -/
def callNested (target : Value) (args : List Value) : Run (Option Value) := do
  let (pc, retPc, base) ← ask fun t => (t.pc, t.retPc, t.scopes.size)
  Run.openBlock true (← ask Thread.safety)
  Run.pushEach args
  let result ← attempt (d.runCall r target (base + 1))
  let top ← ask fun t => do
    let scope ← t.scopes[base]?
    let stack ← t.valueStacks[scope.stack]?
    stack.back?
  let closed ← attempt (Run.unwindTo r base false)
  alter fun t => { t with pc, retPc }
  ofExcept result
  ofExcept closed
  return top

/-- Runs inside runs, up to `depth` of them inside one another. -/
def reentry : (depth : Nat) → Reentry
  | 0 => { call := fun _ _ => Run.exhausted, runThread := fun _ => Run.exhausted }
  | depth + 1 =>
    { call := fun target args => d.callNested (reentry depth) target args
      runThread := fun target => do d.runCall (reentry depth) target (← ask (·.scopes.size)) }

/-- Runs until the program counter is `stop` or past all operations. -/
def runUntil (stop : Nat) : Run Unit := do
  let (id, pc, base) ← ask fun t => (t.id, t.pc, t.scopes.size)
  note .debug fun _ => s!"thread {id} running from pc {pc} (stop {stop})"
  let result ← attempt (d.runLoop (d.reentry Run.reentryLimit) base stop)
  alter fun t => { t with pc := min t.pc t.ops.size }
  ofExcept result

end Detour

/-! ## Computations that are the same where a run gets to -/

/-- What no act of a run ends, in any of its threads. -/
structure Kept (I : Machine → Prop) : Prop where
  acts : ∀ m n, Acts False m n → I m → I n
  fork : ∀ m id, I m → I { m with thread := m.thread.fork id }

namespace Run

variable {α β : Type} {I : Machine → Prop} {x y : Run α} {k l : α → Run β} {m : Machine}

/-- Two computations are the same on every machine with this property. -/
def Agree (I : Machine → Prop) (x y : Run α) : Prop :=
  ∀ m, I m → x m = y m

theorem Agree.refl (x : Run α) : Agree I x x := fun _ _ => rfl

variable (hI : Kept I)

include hI

theorem Makes.kept (makes : Makes (Deeds False) x) {n : Machine} {a : α} (ok : x m = .ok a n)
    (holds : I m) : I n :=
  hI.acts m n (makes.ok ok).acts holds

theorem Agree.bind (hx : Agree I x y) (makes : Makes (Deeds False) y)
    (hk : ∀ a, Agree I (k a) (l a)) : Agree I (x >>= k) (y >>= l) := by
  intro m holds
  rw [bind_apply, bind_apply, hx m holds]
  cases done : y m with
  | ok a n => exact hk a n (makes.kept hI done holds)
  | error e n => rfl

/-- Both begin in the same way. -/
theorem Agree.next (makes : Makes (Deeds False) x) (hk : ∀ a, Agree I (k a) (l a)) :
    Agree I (x >>= k) (x >>= l) :=
  (Agree.refl x).bind hI makes hk

omit hI

/-- Both go on in the same way. -/
theorem Agree.then (hx : Agree I x y) : Agree I (x >>= k) (y >>= k) := by
  intro m holds
  rw [bind_apply, bind_apply, hx m holds]

theorem Agree.attempt (hx : Agree I x y) : Agree I x.attempt y.attempt := by
  intro m holds
  rw [Run.attempt, Run.attempt, hx m holds]

/-- A test that the rest comes after. -/
theorem Agree.refuse {refused : Prop} [Decidable refused] {f : Fault} {k l : Unit → Run α}
    (hk : Agree I (k ()) (l ())) :
    Agree I (if refused then Run.fail f >>= k else k ())
      (if refused then Run.fail f >>= l else l ()) := by
  split
  · exact fun _ _ => rfl
  · exact hk

end Run

/-- Runs inside the run are the same. -/
structure Reentry.Agree (I : Machine → Prop) (r r' : Reentry) : Prop where
  call : ∀ v args, Run.Agree I (r.call v args) (r'.call v args)
  runThread : ∀ v, Run.Agree I (r.runThread v) (r'.runThread v)

namespace Run

variable {α : Type} {I : Machine → Prop} {r r' : Reentry} {pull pull' : Puller} (hI : Kept I)
  (same : r'.Agree I r) (hr : r.Makes False)

section

include hI same hr

/-! ## Closing scopes -/

theorem agree_makeDeferred (calls : List Value) (first : Option Fault) :
    Agree I (makeDeferred r' calls first) (makeDeferred r calls first) := by
  induction calls generalizing first with
  | nil => exact .refl _
  | cons f rest ih =>
    refine (same.call f []).attempt.bind hI (hr.call f []).attempt fun answer => ?_
    cases answer with
    | ok _ => exact ih first
    | error e => exact .next hI (makes_note _ _) fun _ => ih _

theorem agree_closeScope (keepTop : Bool) :
    Agree I (closeScope r' keepTop) (closeScope r keepTop) := by
  refine .next hI (.ask _) fun size => Agree.refuse ?_
  refine .next hI (.ask _) fun deferred => .next hI (.alter fun t => ?_) fun _ => ?_
  · exact .alterScope t _ _ (fun _ => rfl) fun _ h => h
  · exact (agree_makeDeferred hI same hr _ _).then

theorem agree_closeDown (depth : Nat) (keepTop : Bool) (fuel : Nat) (first : Option Fault) :
    Agree I (closeDown r' depth keepTop fuel first) (closeDown r depth keepTop fuel first) := by
  induction fuel generalizing first with
  | zero => exact .refl _
  | succ fuel ih =>
    refine .next hI (.ask _) fun size => ?_
    split
    · exact .refl _
    refine (agree_closeScope hI same hr keepTop).attempt.bind hI
      (makes_closeScope hr keepTop).attempt fun result => ?_
    cases result with
    | ok _ => exact ih first
    | error e => exact ih _

theorem agree_unwindTo (depth : Nat) (keepTop : Bool) :
    Agree I (unwindTo r' depth keepTop) (unwindTo r depth keepTop) :=
  .next hI (.ask _) fun _ => (agree_closeDown hI same hr _ _ _ _).then

theorem agree_recallFrom (depth : Nat) : Agree I (recallFrom r' depth) (recallFrom r depth) :=
  .next hI (makes_lambdaScope depth) fun _ => .next hI (.ask _) fun _ =>
    Agree.refuse (agree_unwindTo hI same hr _ _).then

/-! ## Pulling iterators -/

theorem agree_pullWhere (hp : ∀ i, Agree I (pull' i) (pull i)) (mp : ∀ i, Flat r (pull i))
    (source : Ref) (test : Value) (fuel : Nat) :
    Agree I (pullWhere r' pull' source test fuel) (pullWhere r pull source test fuel) := by
  induction fuel with
  | zero => exact .refl _
  | succ fuel ih =>
    refine (hp source).bind hI ((mp source).makes hr) fun pulled => ?_
    cases pulled with
    | item v =>
      refine (same.call test [v]).bind hI (hr.call test [v]) fun answer? => ?_
      cases answer? with
      | none => exact ih
      | some answer =>
        dsimp only
        split
        · exact .refl _
        · exact ih
    | pending => exact .refl _
    | done => exact .refl _

omit same in
theorem agree_pollRound (hp : ∀ i, Agree I (pull' i) (pull i)) (mp : ∀ i, Flat r (pull i))
    (todo kept : List Ref) : Agree I (pollRound pull' todo kept) (pollRound pull todo kept) := by
  induction todo generalizing kept with
  | nil => exact .refl _
  | cons source todo ih =>
    refine (hp source).bind hI ((mp source).makes hr) fun pulled => ?_
    cases pulled with
    | item v => exact .refl _
    | pending => exact ih _
    | done => exact ih _

omit same in
theorem agree_pollUntil (hp : ∀ i, Agree I (pull' i) (pull i)) (mp : ∀ i, Flat r (pull i))
    (fuel : Nat) (queue : List Ref) : Agree I (pollUntil pull' fuel queue) (pollUntil pull fuel queue) := by
  induction fuel generalizing queue with
  | zero => exact .refl _
  | succ fuel ih =>
    cases queue with
    | nil => exact .refl _
    | cons source queue =>
      refine (agree_pollRound hI hr hp mp _ _).bind hI ((flat_pollRound mp _ _).makes hr)
        fun (found, queue) => ?_
      cases found with
      | some v => exact .refl _
      | none => exact ih queue

omit hI same hr in
theorem agree_pairUp (hp : ∀ i, Agree I (pull' i) (pull i)) (left right : Ref) (first : Pulled) :
    Agree I (pairUp pull' left right first) (pairUp pull left right first) := by
  cases first with
  | item v => exact (hp right).then
  | pending => exact .refl _
  | done => exact .refl _

theorem agree_advance (hp : ∀ i, Agree I (pull' i) (pull i)) (mp : ∀ i, Flat r (pull i))
    (it : Iterator) : Agree I (advance r' pull' it) (advance r pull it) := by
  cases it with
  | filter source test => exact (agree_pullWhere hI same hr hp mp _ _ _).then
  | map source f =>
    refine (hp source).bind hI ((mp source).makes hr) fun pulled => ?_
    cases pulled with
    | item v => exact (same.call f [v]).then
    | pending => exact .refl _
    | done => exact .refl _
  | zip left right held =>
    cases held with
    | some v => exact agree_pairUp hp left right (.item v)
    | none =>
      exact (hp left).bind hI ((mp left).makes hr) fun pulled => agree_pairUp hp left right pulled
  | poll queue => exact (agree_pollUntil hI hr hp mp _ _).then
  | chars rest => cases rest <;> exact .refl _
  | units rest => cases rest <;> exact .refl _
  | connect addr => cases addr <;> exact .refl _
  | _ => exact .refl _

theorem agree_pullWithin (fuel : Nat) (iter : Ref) :
    Agree I (pullWithin r' fuel iter) (pullWithin r fuel iter) := by
  induction fuel generalizing iter with
  | zero => exact .refl _
  | succ fuel ih =>
    refine .next hI (.askStore _) fun cell => ?_
    cases cell with
    | done => exact .refl _
    | busy => exact .refl _
    | ready it =>
      refine .next hI (makes_setIter iter .busy) fun _ => ?_
      exact (agree_advance hI same hr ih (flat_pullWithin fuel) it).attempt.then

theorem agree_pull (iter : Ref) : Agree I (Run.pull r' iter) (Run.pull r iter) :=
  .next hI (.askStore _) fun _ => agree_pullWithin hI same hr _ iter

theorem agree_await (iter : Ref) (fuel : Nat) : Agree I (await r' iter fuel) (await r iter fuel) := by
  induction fuel with
  | zero => exact .refl _
  | succ fuel ih =>
    refine (agree_pull hI same hr iter).bind hI ((flat_pull iter).makes hr) fun pulled => ?_
    cases pulled with
    | item v => exact .refl _
    | pending => exact ih
    | done => exact .refl _

theorem agree_drainInto (iter : Ref) (fuel : Nat) (items : Array Value) :
    Agree I (drainInto r' iter fuel items) (drainInto r iter fuel items) := by
  induction fuel generalizing items with
  | zero => exact .refl _
  | succ fuel ih =>
    refine (agree_await hI same hr iter _).bind hI ((flat_await iter _).makes hr) fun v? => ?_
    cases v? with
    | some v => exact ih _
    | none => exact .refl _

theorem agree_drain (seq : Value) : Agree I (drain r' seq) (drain r seq) :=
  .next hI ((flat_iterate seq).makes hr) fun _ => agree_drainInto hI same hr _ _ _

/-! ## The library -/

omit hr in
theorem agree_spawn (target : Value) : Agree I (spawn r' target) (spawn r target) := by
  refine .next hI makes_freshId fun id => .next hI (makes_note _ _) fun _ => .next hI (.ask _)
    fun parent => .next hI (makes_noteThread _ _ _) fun _ => ?_
  intro m holds
  have child : onThread (m.thread.fork id) (r'.runThread target) m =
      onThread (m.thread.fork id) (r.runThread target) m := by
    rw [onThread, onThread, (same.runThread target).attempt _ (hI.fork m id holds)]
  rw [bind_apply, bind_apply, ask]
  dsimp only
  rw [bind_apply, bind_apply, child]

theorem agree_native (f : Native) : Agree I (f.run r') (f.run r) := by
  have drained {k : Value → Array Value → Run Reply} :
      Agree I (do let seq ← pop; k seq (← drain r' seq)) (do let seq ← pop; k seq (← drain r seq)) :=
    .next hI (flat_pop.makes hr) fun seq => (agree_drain hI same hr seq).then
  cases f with
  | list => exact drained
  | table => exact drained
  | bin => exact drained
  | next =>
    exact .next hI (flat_pop.makes hr) fun v => .next hI ((flat_iterate v).makes hr) fun _ =>
      (agree_await hI same hr _ _).then
  | thread => exact .next hI (flat_pop.makes hr) fun v => (agree_spawn hI same v).then
  | _ => exact .refl _

theorem agree_convert (arity : Nat) (plan : List (Nat × Value)) :
    Agree I (convert r' arity plan) (convert r arity plan) := by
  induction plan with
  | nil => exact .refl _
  | cons entry plan ih =>
    obtain ⟨i, f⟩ := entry
    refine .next hI (.ask _) fun place => .next hI (.ask _) fun v => ?_
    refine (same.call f [v]).bind hI (hr.call f [v]) fun w? => .next hI (.orFail _ _) fun w => ?_
    exact .next hI ((flat_alterStack _).makes hr) fun _ => ih

theorem agree_runNative (f : Native) (retPc : Nat) :
    Agree I (runNative r' f retPc) (runNative r f retPc) :=
  .next hI (.ask _) fun _ => .next hI (Flat.makes (.alter (.goBack retPc)) hr) fun _ =>
    (agree_native hI same hr f).attempt.then

theorem agree_invoke (imp : Imp) (retPc : Nat) :
    Agree I (Run.invoke r' imp retPc) (Run.invoke r imp retPc) := by
  refine .next hI (makes_note _ _) fun _ => ?_
  cases imp.body with
  | native f => exact (agree_runNative hI same hr f retPc).then
  | lambda body => exact .refl _

/-! ## Runs -/

theorem agree_exit (label : Label) : Agree I (exit r' label) (exit r label) := by
  unfold exit
  split
  · exact .refl _
  · exact agree_recallFrom hI same hr _
  · exact .refl _
  · exact .refl _
  · exact .refl _

theorem agree_apply (base : Nat) (c : Control) : Agree I (apply r' base c) (apply r base c) := by
  cases c with
  | next => exact .refl _
  | jump pc => exact .refl _
  | unwind depth pc =>
    rw [apply, apply]
    exact Agree.refuse (agree_unwindTo hI same hr _ _).then

theorem agree_unwindAfterFault (depth : Nat) :
    Agree I (unwindAfterFault r' depth) (unwindAfterFault r depth) :=
  (agree_unwindTo hI same hr _ _).attempt.then

theorem agree_recover (base : Nat) (f : Fault) : Agree I (recover r' base f) (recover r base f) := by
  refine .next hI (.ask _) fun catching => ?_
  cases catching with
  | none =>
    exact .next hI (.ask _) fun _ => .next hI (makes_note _ _) fun _ =>
      (agree_unwindAfterFault hI same hr _).then
  | some frame =>
    exact .next hI (.ask _) fun _ => .next hI (makes_note _ _) fun _ =>
      (agree_unwindAfterFault hI same hr _).then

end

end Run

namespace Detour

open Run

variable {d : Detour} {I : Machine → Prop} {r r' : Reentry} (hI : Kept I)
  (low : ∀ m, I m → m.thread.safety ≤ d.level) (same : r'.Agree I r) (hr : r.Makes False)

include hI same hr

/-- An implementation that is not above the level is run as ever. -/
theorem agree_invoke {imp : Imp} (below : imp.safety ≤ d.level) (retPc : Nat) :
    Agree I (d.invoke r' imp retPc) (Run.invoke r imp retPc) := by
  rw [invoke, if_pos below]
  exact Run.agree_invoke hI same hr imp retPc

include low

/-- The implementation that a call by name comes to is not above the level. -/
theorem agree_dispatch (name : String) (retPc : Nat) :
    Agree I (d.dispatch r' name retPc) (Run.dispatch r name retPc) := by
  intro m holds
  rw [dispatch, Run.dispatch, bind_apply, bind_apply, askShared]
  dsimp only
  rw [bind_apply, bind_apply]
  cases known : m.shared.registry.funcs.find? name with
  | none => rfl
  | some imps =>
    change (remembered? imps >>= _) m = (remembered? imps >>= _) m
    rw [bind_apply, bind_apply]
    cases remembered : remembered? imps m with
    | error e n => rfl
    | ok cached n =>
      obtain ⟨rfl, allowed⟩ := remembered?_ok remembered
      cases cached with
      | some imp =>
        have below := Safety.le_trans (allowed imp rfl) (low _ holds)
        exact agree_invoke hI same hr below retPc _ holds
      | none =>
        -- the memory is wiped before the search, which changes neither the functions nor the level
        let t := { n.thread with cache := n.thread.cache.erase n.thread.pc }
        have wiped : Act False n.thread.safety n { n with thread := t } :=
          .thread t (.of_scopes (.eraseCache n.thread n.thread.pc) rfl rfl rfl)
        have holds : I { n with thread := t } := hI.acts _ _ wiped.acts holds
        dsimp only
        rw [bind_apply, bind_apply, alter]
        dsimp only
        rw [bind_apply, bind_apply, askShared]
        dsimp only
        rw [bind_apply, bind_apply, ask]
        dsimp only
        cases chosen : choose imps n.shared.registry.findConv? t.safety t.stack with
        | «exact» imp =>
          obtain ⟨member, level⟩ := choose_exact chosen
          have step : Act False t.safety { n with thread := t } _ :=
            .remember imp name imps known member
          exact agree_invoke hI same hr (Safety.le_trans level (low { n with thread := t } holds)) retPc _
            (hI.acts _ _ step.acts holds)
        | converted imp plan =>
          have below := Safety.le_trans (choose_converted chosen) (low { n with thread := t } holds)
          refine Agree.next hI (makes_note _ _) (fun _ => ?_) _ holds
          exact (agree_convert hI same hr _ _).bind hI ((flat_convert _ _).makes hr) fun _ =>
            agree_invoke hI same hr below retPc
        | blocked => rfl
        | nothing => rfl

theorem agree_callOnce (v : Value) (retPc : Nat) :
    Agree I (d.callOnce r' v retPc) (Run.callOnce r v retPc) := by
  unfold callOnce
  split
  · rename_i behavior payload
    simp only [Run.callOnce, behavior, payload]
    exact agree_dispatch hI low same hr _ retPc
  · rename_i other
    unfold Run.callOnce
    split
    · exact absurd ‹_› (other _ ‹_›)
    all_goals exact .refl _

theorem agree_settle (retPc fuel : Nat) (reply : Reply) :
    Agree I (d.settle r' retPc fuel reply) (Run.settle r retPc fuel reply) := by
  induction fuel generalizing reply with
  | zero => cases reply <;> exact .refl _
  | succ fuel ih =>
    cases reply with
    | control c => exact .refl _
    | enter v =>
      exact (agree_callOnce hI low same hr v retPc).bind hI (makes_callOnce hr v retPc) ih

theorem agree_callValue (v : Value) (retPc : Nat) :
    Agree I (d.callValue r' v retPc) (Run.callValue r v retPc) :=
  .next hI (flat_callFuel.makes hr) fun _ => agree_settle hI low same hr _ _ _

theorem agree_callName (name : String) (retPc : Nat) :
    Agree I (d.callName r' name retPc) (Run.callName r name retPc) :=
  .next hI (flat_callFuel.makes hr) fun _ => (agree_dispatch hI low same hr name retPc).bind hI
    (makes_dispatch hr name retPc) fun _ => agree_settle hI low same hr _ _ _

theorem agree_lookUp (name : String) : Agree I (d.lookUp r' name) (Run.lookUp r name) := by
  refine .next hI (.askShared _) fun (isFunc, t?) => ?_
  dsimp only
  split
  · exact .next hI (.ask _) fun _ => agree_callName hI low same hr name _
  · exact .refl _

theorem agree_nextFor (pc donePc : Nat) :
    Agree I (d.nextFor r' pc donePc) (Run.nextFor r pc donePc) := by
  refine .next hI ((flat_loopAt? pc).makes hr) fun running => ?_
  rcases running with _ | ⟨⟨iter, body⟩ | body, done⟩
  · exact .refl _
  · refine (agree_pull hI same hr iter).bind hI ((flat_pull iter).makes hr) fun pulled => ?_
    cases pulled with
    | item v =>
      exact .next hI ((flat_push v).makes hr) fun _ => agree_callValue hI low same hr _ _
    | pending => exact .refl _
    | done => exact .refl _
  · exact .refl _

theorem agree_stepFor (donePc : Nat) : Agree I (d.stepFor r' donePc) (Run.stepFor r donePc) := by
  refine .next hI (.ask _) fun pc => .next hI ((flat_loopAt? pc).makes hr) fun running => ?_
  dsimp only
  split
  · exact .next hI (makes_beginFor hr _ _) fun _ => agree_nextFor hI low same hr _ _
  · exact agree_nextFor hI low same hr _ _

theorem agree_stepWhile (donePc : Nat) : Agree I (d.stepWhile r' donePc) (Run.stepWhile r donePc) := by
  refine .next hI (.ask _) fun pc => .next hI ((flat_loopAt? pc).makes hr) fun running => ?_
  rcases running with _ | ⟨⟨iter, body⟩ | body, done⟩
  · exact .next hI (flat_pop.makes hr) fun body =>
      .next hI (makes_alterLoops fun d => d.nodup_insert pc _) fun _ =>
        agree_callValue hI low same hr _ _
  · exact .refl _
  · refine .next hI (flat_pop.makes hr) fun condition => ?_
    split
    · exact agree_callValue hI low same hr _ _
    · exact .refl _

theorem agree_exec (op : Op) : Agree I (d.exec r' op) (Run.exec r op) := by
  cases op with
  | deref name => exact agree_lookUp hI low same hr name
  | call name => exact .next hI (.ask _) fun _ => agree_callName hI low same hr name _
  | exit label => exact agree_exit hI same hr label
  | close => exact (agree_closeScope hI same hr true).then
  | closeList =>
    exact .next hI (.ask _) fun _ => .next hI ((flat_alterStack _).makes hr) fun _ =>
      (agree_closeScope hI same hr false).then
  | closeTry =>
    exact .next hI (.ask _) fun _ => .next hI (.orFail _ _) fun _ =>
      .next hI (.alter fun t => .of_scopes (.popTries t) rfl rfl rfl) fun _ =>
        (agree_closeScope hI same hr true).then
  | «for» done =>
    exact .next hI ((flat_endPc _ _).makes hr) fun pc =>
      (agree_stepFor hI low same hr pc).attempt.then
  | «while» done =>
    exact .next hI ((flat_endPc _ _).makes hr) fun pc =>
      (agree_stepWhile hI low same hr pc).attempt.then
  | check t => cases t <;> exact .refl _
  | _ => exact .refl _

/-- An operation of the thread does the same. -/
theorem step_agree (base : Nat) {op : Op} {m : Machine} (there : op ∈ m.thread.ops) (holds : I m) :
    d.step r' base op m = Run.step r base op m := by
  rw [step, Run.step, bind_apply, bind_apply, agree_exec hI low same hr op m holds]
  cases done : Run.exec r op m with
  | ok c n =>
    have reached : I n := hI.acts m n (after_ok done ▸ exec_deeds hr there).acts holds
    exact (agree_apply hI same hr base c).then n reached
  | error e n => rfl

theorem agree_runOps (base stop fuel : Nat) :
    Agree I (d.runOps r' base stop fuel) (Run.runOps r base stop fuel) := by
  induction fuel with
  | zero => exact .refl _
  | succ fuel ih =>
    refine .next hI (.ask _) fun pc => ?_
    split
    · exact .refl _
    intro m holds
    rw [bind_apply, bind_apply, ask]
    dsimp only
    cases found : m.thread.ops[pc]? with
    | none => rfl
    | some op =>
      have there := Array.mem_of_getElem? found
      have acts := (step_deeds hr base there).acts
      dsimp only
      rw [bind_apply, bind_apply, Run.attempt, Run.attempt, step_agree hI low same hr base there holds]
      cases done : Run.step r base op m with
      | ok u n => exact ih n (hI.acts m n (after_ok done ▸ acts) holds)
      | error e n =>
        have reached : I n := hI.acts m n (after_error done ▸ acts) holds
        cases e with
        | fault f =>
          exact (agree_recover hI same hr base f).bind hI (makes_recover hr base f) (fun _ => ih) n
            reached
        | outOfFuel => rfl

theorem agree_runLoop (base stop : Nat) :
    Agree I (d.runLoop r' base stop) (Run.runLoop r base stop) := by
  refine .next hI (.ask _) fun saved => .next hI (.alter fun t => ?_) fun _ => ?_
  · exact .aside rfl rfl rfl rfl rfl rfl rfl
  · exact (agree_runOps hI low same hr _ _ _).attempt.then

theorem agree_runCall (target : Value) (base : Nat) :
    Agree I (d.runCall r' target base) (Run.runCall r target base) :=
  (agree_callValue hI low same hr _ _).bind hI (makes_callValue hr _ _) fun c =>
    (agree_apply hI same hr base c).bind hI (makes_apply hr base c) fun _ =>
      agree_runLoop hI low same hr _ _

theorem agree_callNested (target : Value) (args : List Value) :
    Agree I (d.callNested r' target args) (Run.callNested r target args) := by
  refine .next hI (.ask _) fun (pc, retPc, base) => ?_
  intro m holds
  dsimp only
  rw [bind_apply, bind_apply, ask]
  dsimp only
  rw [bind_apply, bind_apply]
  cases opened : openBlock true m.thread.safety m with
  | error e n => rfl
  | ok u n =>
    have block : Deeds False m n := after_ok opened ▸ openBlock_deeds (.inl rfl)
    have reached : I n := hI.acts m n block.acts holds
    refine Agree.next hI ((flat_pushEach _).makes hr) (fun _ => ?_) n reached
    have makes := Watch.runCall_idle r target (base + 1) ▸ Watch.makes_runCall hr target (base + 1)
    refine (agree_runCall hI low same hr target _).attempt.bind hI makes.attempt fun result => ?_
    exact .next hI (.ask _) fun top => (agree_unwindTo hI same hr _ _).attempt.then

omit same hr

/-- Runs inside the run are the same. -/
theorem agree_reentry (depth : Nat) : (d.reentry depth).Agree I (Run.reentry depth) := by
  induction depth with
  | zero => exact ⟨fun _ _ => .refl _, fun _ => .refl _⟩
  | succ depth ih =>
    have makes := makes_reentry depth
    exact ⟨agree_callNested hI low ih makes, fun target =>
      .next hI (.ask _) fun base => agree_runCall hI low ih makes target base⟩

/-- As long as no scope is above the level, a run is the same whatever is done in place of
implementations above it. -/
theorem agree_runUntil (stop : Nat) : Agree I (d.runUntil stop) (Run.runUntil stop) := by
  have makes := makes_reentry reentryLimit
  refine .next hI (.ask _) fun (id, pc, base) => .next hI (makes_note _ _) fun _ => ?_
  exact (agree_runLoop hI low (agree_reentry hI low _) makes _ _).attempt.then

end Detour

end Catena
