import Catena.Proofs.Compile
import Catena.Proofs.Iterators.Cells
import Catena.Proofs.Run.Loop

/-!
# What minds iterators

Only a pull touches the cell of an iterator, and only where an iterator stands in it that can be pulled.
So an iterator that is at its end stays there, and one that is amid a pull stays so until that pull has
come to an answer, whatever runs meanwhile.
-/

namespace Catena

open Run (Makes)

variable {α β : Type} {r : Reentry} {m n : Machine}

/-- No iterator goes away. Those at their end are there still, and those amid a pull are so still. -/
def Machine.Minds (m n : Machine) : Prop :=
  ∀ i c, m.cell? i = some c → ∃ c', n.cell? i = some c' ∧ ((∀ it, c ≠ .ready it) → c' = c)

instance : IsPreorder Machine Machine.Minds where
  refl _ _ c found := ⟨c, found, fun _ => rfl⟩
  trans _ _ _ first second i c found := by
    obtain ⟨c', found', same⟩ := first i c found
    obtain ⟨c'', found'', same'⟩ := second i c' found'
    refine ⟨c'', found'', fun still => ?_⟩
    obtain rfl := same still
    exact same' still

theorem Machine.Minds.of_same (h : m.shared.store.SameIters n.shared.store) : m.Minds n :=
  fun i c found => ⟨c, h i c found, fun _ => rfl⟩

theorem Machine.Minds.still (h : m.Minds n) {i : Ref} {c : IterCell} (found : m.cell? i = some c)
    (still : ∀ it, c ≠ .ready it) : n.cell? i = some c := by
  obtain ⟨c', found', same⟩ := h i c found
  rw [found', same still]

/-- What can be pulled may be taken out of its cell, and other things may be put there. -/
theorem Machine.Minds.setCell {i : Ref} {it : Iterator} (h : m.Minds n) (ready : m.cell? i = some (.ready it))
    (c : IterCell) : m.Minds (n.setCell i c) := by
  intro j d found
  obtain ⟨d', found', same⟩ := h j d found
  by_cases here : i = j
  · subst here
    exact ⟨c, Machine.cell?_setCell_self (by rw [found']; rfl), fun still =>
      absurd (Option.some.inj (found.symm.trans ready)) (still it)⟩
  · exact ⟨d', (Machine.cell?_setCell_ne here n c).trans found', same⟩

/-- What starts a run inside a run minds iterators. -/
structure Reentry.Minds (r : Reentry) : Prop where
  call : ∀ v args, Run.Makes Machine.Minds (r.call v args)
  runThread : ∀ v, Run.Makes Machine.Minds (r.runThread v)

namespace Run

/-! ## Rules -/

theorem minds_alter (f : Thread → Thread) : Makes Machine.Minds (alter f) :=
  fun _ => .of_same (.refl _)

theorem minds_alterShared {f : Shared → Shared} (same : ∀ s : Shared, s.store.SameIters (f s).store) :
    Makes Machine.Minds (alterShared f) :=
  fun m => .of_same (same m.shared)

theorem minds_alterStore {f : Store → Store} (same : ∀ s : Store, s.SameIters (f s)) :
    Makes Machine.Minds (alterStore f) :=
  minds_alterShared fun s => same s.store

theorem minds_alloc {size : Store → Nat} {add : Store → Store}
    (same : ∀ s : Store, s.SameIters (add s)) :
    Makes Machine.Minds (alloc size add) :=
  (Makes.askStore _).bind fun _ => (minds_alterStore same).bind fun _ => .pure _

theorem minds_note (level : Log.Level) (message : Unit → String) :
    Makes Machine.Minds (note level message) :=
  minds_alterShared fun s => by rw [note_store]; exact .refl _

theorem minds_noteThread (level : Log.Level) (thread : Nat) (message : String) :
    Makes Machine.Minds (noteThread level thread message) :=
  minds_alterShared fun s => by rw [note_store]; exact .refl _

theorem minds_freshId : Makes Machine.Minds freshId :=
  fun _ => .of_same (.refl _)

theorem minds_register (make : Registry → Except Fault (Ty × Registry)) :
    Makes Machine.Minds (do
      let (t, registry) ← Run.ofExcept (← Run.askShared fun s => make s.registry)
      Run.alterShared fun s => { s with registry }
      return t) := by
  refine (Makes.askShared _).bind fun made => (Makes.ofExcept _).bind fun (t, registry) => ?_
  have registers : Makes Machine.Minds (alterShared fun s => { s with registry }) :=
    minds_alterShared fun s => .refl s.store
  exact registers.bind fun _ => .pure t

/-- A pull minds iterators if giving the answer does. -/
theorem minds_atCell {turn : Iterator → Run (Pulled × Iterator)} (i : Ref)
    (h : ∀ it, Makes Machine.Minds (turn it)) : Makes Machine.Minds (atCell i turn) := by
  intro m
  cases found : m.cell? i with
  | none =>
    rw [after_ok (atCell_done (by rw [found]; rfl))]
    exact refl m
  | some c =>
    cases c with
    | done =>
      rw [after_ok (atCell_done (by rw [found]; rfl))]
      exact refl m
    | busy =>
      rw [after_error (atCell_busy found)]
      exact refl m
    | ready it =>
      have run : (atCell i turn).after m = (attempt (turn it) >>= settleCell i).after (m.setCell i .busy) := by
        rw [after, atCell_ready found, after]
      have taken : m.Minds (m.setCell i .busy) := .setCell (refl m) found .busy
      rw [run, after_bind]
      cases turned : attempt (turn it) (m.setCell i .busy) with
      | error e q => exact trans_of Machine.Minds taken (after_error turned ▸ (h it).attempt _)
      | ok result q =>
        obtain ⟨c, settled⟩ := settleCell_after i result q
        dsimp only
        rw [settled]
        exact .setCell (trans_of Machine.Minds taken (after_ok turned ▸ (h it).attempt _)) found c

/-- Another thread minds iterators if what it does would mind them here. -/
theorem minds_onThread {x : Run α} (hx : Makes Machine.Minds x) (child : Thread) :
    Makes Machine.Minds (onThread child x) := by
  intro m
  have minds := hx.attempt { m with thread := child }
  unfold after at minds ⊢
  rw [onThread]
  cases h : attempt x { m with thread := child } <;> rw [h] at minds <;> exact minds

theorem minds_spawn (hr : r.Minds) (target : Value) : Makes Machine.Minds (spawn r target) := by
  refine minds_freshId.bind fun id => (minds_note _ _).bind fun _ => (Makes.ask _).bind fun _ => ?_
  refine (minds_noteThread _ _ _).bind fun _ => (Makes.ask _).bind fun child => ?_
  refine (minds_onThread (hr.runThread target) child).bind fun (result, child) => ?_
  have rest : Makes Machine.Minds (alloc (·.threads.size) fun s =>
      { s with threads := s.threads.push ⟨id, some (result.map fun () => child.stack)⟩ }) :=
    minds_alloc fun _ => .refl _
  cases result with
  | ok _ => exact (minds_noteThread _ _ _).bind fun _ => rest
  | error e => exact (minds_noteThread _ _ _).bind fun _ => rest

theorem minds_takeOutcome (t : Ref) : Makes Machine.Minds (takeOutcome t) := by
  refine (Makes.askStore _).bind fun handle => ?_
  cases handle.outcome with
  | none => exact .fail _
  | some outcome =>
    have taken : Makes Machine.Minds (alterStore (·.takeOutcome t)) := minds_alterStore fun s => .refl s
    exact taken.bind fun _ => .pure (handle.id, outcome)

/-- What stays at one level of nesting minds iterators if the runs inside it do. -/
theorem Flat.minds {x : Run α} (hx : Flat r x) (hr : r.Minds) : Makes Machine.Minds x := by
  induction hx with
  | pure a => exact .pure a
  | bind _ _ ihx ihk => exact ihx.bind ihk
  | attempt _ ih => exact ih.attempt
  | fail f => exact .fail f
  | exhausted => exact .exhausted
  | ask => exact .ask _
  | alter => exact minds_alter _
  | askShared => exact .askShared _
  | alterShared h => exact minds_alterShared h.iters
  | note level message => exact minds_note level message
  | noteThread level thread message => exact minds_noteThread level thread message
  | freshId => exact minds_freshId
  | newFiber id target => exact minds_alterStore fun _ => .refl _
  | takeOutcome t => exact minds_takeOutcome t
  | instantiate template args => exact minds_register (·.instantiate template args)
  | instantiateNamed name args => exact minds_register (·.instantiateNamed name args)
  | atCell i _ ih => exact minds_atCell i ih
  | call v args => exact hr.call v args
  | spawn v => exact minds_spawn hr v

/-! ## Scopes -/

theorem minds_checkRoom : Makes Machine.Minds checkRoom := by
  refine (Makes.askShared _).bind fun limit => (Makes.ask _).bind fun size => ?_
  split
  · exact .fail _
  · exact .pure _

theorem minds_checkStack : Makes Machine.Minds checkStack := by
  refine (Makes.ask _).bind fun heights => ?_
  split
  · exact .exhausted
  · exact .pure _

theorem minds_openBlock (ownStack : Bool) (safety : Safety) :
    Makes Machine.Minds (openBlock ownStack safety) := by
  refine minds_checkRoom.bind fun _ => ?_
  cases ownStack with
  | true => exact minds_alter (·.openBlock true safety)
  | false => exact minds_checkStack.bind fun _ => minds_alter _

theorem minds_makeDeferred (hr : r.Minds) (calls : List Value) (first : Option Fault) :
    Makes Machine.Minds (makeDeferred r calls first) := by
  induction calls generalizing first with
  | nil => exact .pure first
  | cons f rest ih =>
    refine (hr.call f []).attempt.bind fun answer => ?_
    cases answer with
    | ok _ => exact ih first
    | error e => exact (minds_note _ _).bind fun _ => ih _

theorem minds_setFiber (f : Ref) (state : FiberState) : Makes Machine.Minds (setFiber f state) :=
  minds_alterStore fun _ => .refl _

theorem minds_closeScope (hr : r.Minds) (keepTop : Bool) : Makes Machine.Minds (closeScope r keepTop) := by
  refine (Makes.ask _).bind fun size => Makes.refuse ?_
  refine (Makes.ask _).bind fun calls => (minds_alter _).bind fun _ => ?_
  refine (minds_makeDeferred hr _ _).bind fun first => (Makes.ask _).bind fun fiber => ?_
  refine (minds_alter _).bind fun _ => ?_
  cases fiber with
  | none => exact .passOn first
  | some f => exact (minds_setFiber f .done).bind fun _ => .passOn first

theorem minds_closeDown (hr : r.Minds) (depth : Nat) (keepTop : Bool) (fuel : Nat)
    (first : Option Fault) : Makes Machine.Minds (closeDown r depth keepTop fuel first) := by
  induction fuel generalizing first with
  | zero =>
    refine (Makes.ask _).bind fun size => ?_
    split
    · exact .pure first
    · exact .exhausted
  | succ fuel ih =>
    refine (Makes.ask _).bind fun size => ?_
    split
    · exact .pure first
    · refine (minds_closeScope hr keepTop).attempt.bind fun closed => ?_
      cases closed <;> exact ih _

theorem minds_unwindTo (hr : r.Minds) (depth : Nat) (keepTop : Bool) :
    Makes Machine.Minds (unwindTo r depth keepTop) :=
  (Makes.ask _).bind fun _ => (minds_closeDown hr _ _ _ _).bind fun first => .passOn first

/-! ## Lambdas and fibers -/

theorem minds_startLambda (c : Closure) (safety : Safety) (retPc : Nat) :
    Makes Machine.Minds (startLambda c safety retPc) :=
  (Makes.orFail _ _).bind fun _ => minds_checkRoom.bind fun _ => minds_checkStack.bind fun _ =>
    (minds_alter _).bind fun _ => .pure _

theorem minds_resume (coro : Coroutine) (retPc : Nat) (fiber : Option Ref) :
    Makes Machine.Minds (resume coro retPc fiber) := by
  refine (Makes.askShared _).bind fun limit => (Makes.ask _).bind fun size => Makes.refuse ?_
  exact minds_checkStack.bind fun _ => (minds_alter _).bind fun _ => .pure _

theorem minds_enterLambda (c : Closure) (safety : Safety) (retPc : Nat) :
    Makes Machine.Minds (enterLambda c safety retPc) := by
  refine (Makes.ask _).bind fun left => ?_
  cases left with
  | none => exact minds_startLambda c safety retPc
  | some coro =>
    exact (minds_alter _).bind fun _ => (minds_note _ _).bind fun _ => minds_resume coro retPc none

theorem minds_startFiber (f : Ref) (id : Nat) (state : FiberState) (c : Closure) (retPc : Nat) :
    Makes Machine.Minds (startFiber f id state c retPc) := by
  refine (minds_note _ _).bind fun _ => (Makes.ask _).bind fun _ => ?_
  refine (minds_startLambda _ _ _).attempt.bind fun started => ?_
  cases started with
  | ok c => exact (minds_alter _).bind fun _ => .pure _
  | error e => exact (minds_setFiber _ _).bind fun _ => .fail e

theorem minds_resumeFiber (f : Ref) (id : Nat) (coro : Coroutine) (retPc : Nat) :
    Makes Machine.Minds (resumeFiber f id coro retPc) := by
  refine (minds_setFiber _ _).bind fun _ => (minds_note _ _).bind fun _ => ?_
  refine (minds_resume _ _ _).attempt.bind fun resumed => ?_
  cases resumed with
  | ok c => exact .pure _
  | error e => exact (minds_setFiber _ _).bind fun _ => .fail e

theorem minds_enterTarget (f : Ref) (fiber : Fiber) (retPc : Nat) :
    Makes Machine.Minds (enterTarget f fiber retPc) := by
  unfold enterTarget
  split
  · refine (minds_setFiber _ _).bind fun _ => (Makes.askStore _).bind fun closure? => ?_
    cases closure? with
    | some c => exact (minds_startFiber _ _ _ _ _).bind fun _ => .pure _
    | none => exact .fail _
  · exact (minds_setFiber _ _).bind fun _ => .pure _

theorem minds_enterFiber (f : Ref) (retPc : Nat) : Makes Machine.Minds (enterFiber f retPc) := by
  refine (Makes.askStore _).bind fun fiber => ?_
  split
  · exact .fail _
  · exact minds_resumeFiber _ _ _ _
  · exact minds_enterTarget _ _ _

theorem minds_lambdaScope (depth : Nat) : Makes Machine.Minds (lambdaScope depth) :=
  (Makes.ask _).bind fun _ => .orFail _ _

theorem minds_suspend (depth : Nat) : Makes Machine.Minds (suspend depth) := by
  refine (minds_lambdaScope depth).bind fun i => (Makes.ask _).bind fun base => Makes.refuse ?_
  refine (Makes.ask _).bind fun head => (Makes.orFail _ _).bind fun callee => ?_
  have cuts : Makes Machine.Minds (fun m =>
      .ok (m.thread.cut i head callee.body.id).1 { m with thread := (m.thread.cut i head callee.body.id).2 } :
        Run Coroutine) := fun m => .of_same (.refl m.shared.store)
  refine cuts.bind fun coro => ?_
  cases head.fiber with
  | some f =>
    exact (Makes.askStore _).bind fun _ => (minds_note _ _).bind fun _ => (minds_setFiber _ _).bind fun _ =>
      .pure _
  | none => exact (minds_note _ _).bind fun _ => (minds_alter _).bind fun _ => .pure _

theorem minds_recallFrom (hr : r.Minds) (depth : Nat) : Makes Machine.Minds (recallFrom r depth) := by
  refine (minds_lambdaScope depth).bind fun i => (Makes.ask _).bind fun base => Makes.refuse ?_
  refine (minds_unwindTo hr _ _).bind fun _ => (Makes.ask _).bind fun _ => ?_
  exact (Makes.orFail _ _).bind fun _ => (Makes.orFail _ _).bind fun _ => (minds_alter _).bind fun _ => .pure _

theorem minds_exitReturn (depth : Nat) : Makes Machine.Minds (exitReturn depth) :=
  (minds_lambdaScope depth).bind fun _ => (Makes.ask _).bind fun _ => .pure _

theorem minds_exitLoop (depth : Nat) : Makes Machine.Minds (exitLoop depth) :=
  (Makes.ask _).bind fun _ => (Makes.orFail _ _).bind fun _ => (Makes.ask _).bind fun _ =>
    (minds_alter _).bind fun _ => (minds_note _ _).bind fun _ => .pure _

theorem minds_exit (hr : r.Minds) (label : Label) : Makes Machine.Minds (exit r label) := by
  unfold exit
  split
  · exact minds_exitReturn _
  · exact minds_recallFrom hr _
  · exact minds_suspend _
  · exact minds_exitLoop _
  · exact .fail _

/-! ## Calls -/

theorem minds_invoke (hr : r.Minds) (imp : Imp) (retPc : Nat) : Makes Machine.Minds (invoke r imp retPc) := by
  refine (minds_note _ _).bind fun _ => ?_
  split
  · refine ((flat_runNative _ _).minds hr).bind fun reply => ?_
    split <;> exact .pure _
  · exact (minds_enterLambda _ _ _).bind fun _ => .pure _

theorem minds_dispatch (hr : r.Minds) (name : String) (retPc : Nat) :
    Makes Machine.Minds (dispatch r name retPc) := by
  refine (Makes.askShared _).bind fun _ => (Makes.orFail _ _).bind fun imps => ?_
  refine (Makes.ask _).bind fun cached => ?_
  cases cached with
  | some imp => exact minds_invoke hr imp retPc
  | none =>
    refine (minds_alter _).bind fun _ => (Makes.askShared _).bind fun _ => (Makes.ask _).bind fun choice => ?_
    cases choice with
    | exact imp => exact (minds_alter _).bind fun _ => minds_invoke hr imp retPc
    | converted imp plan =>
      exact (minds_note _ _).bind fun _ => ((flat_convert _ _).minds hr).bind fun _ => minds_invoke hr imp retPc
    | blocked => exact (Makes.ask _).bind fun _ => .fail _
    | nothing => exact (flat_describeTop.minds hr).bind fun _ => .fail _

theorem minds_callOnce (hr : r.Minds) (v : Value) (retPc : Nat) :
    Makes Machine.Minds (callOnce r v retPc) := by
  unfold callOnce
  split
  · exact minds_dispatch hr _ _
  · exact .fail _
  · exact (Makes.askStore _).bind fun _ => (Makes.orFail _ _).bind fun _ => (Makes.ask _).bind fun _ =>
      (minds_enterLambda _ _ _).bind fun _ => .pure _
  · exact .fail _
  · exact ((flat_labelPc _).minds hr).bind fun _ => .pure _
  · exact .fail _
  · exact minds_enterFiber _ _
  · exact .fail _
  · exact (Makes.askStore _).bind fun _ => .fail _

theorem minds_settle (hr : r.Minds) (retPc fuel : Nat) (reply : Reply) :
    Makes Machine.Minds (settle r retPc fuel reply) := by
  induction fuel generalizing reply with
  | zero =>
    cases reply with
    | control c => exact .pure c
    | enter v => exact .exhausted
  | succ fuel ih =>
    cases reply with
    | control c => exact .pure c
    | enter v => exact (minds_callOnce hr v retPc).bind ih

theorem minds_callValue (hr : r.Minds) (v : Value) (retPc : Nat) :
    Makes Machine.Minds (callValue r v retPc) :=
  (flat_callFuel.minds hr).bind fun _ => minds_settle hr _ _ _

theorem minds_callName (hr : r.Minds) (name : String) (retPc : Nat) :
    Makes Machine.Minds (callName r name retPc) :=
  (flat_callFuel.minds hr).bind fun _ => (minds_dispatch hr _ _).bind fun _ => minds_settle hr _ _ _

/-! ## Operations -/

theorem minds_lookUp (hr : r.Minds) (name : String) : Makes Machine.Minds (lookUp r name) := by
  refine (Makes.askShared _).bind fun (isFunc, t?) => ?_
  dsimp only
  split
  · exact (Makes.ask _).bind fun _ => minds_callName hr _ _
  · split
    · exact ((flat_push _).minds hr).bind fun _ => .pure _
    · exact .fail _

theorem minds_bind (name : String) (v : Value) : Makes Machine.Minds (Run.bind name v) :=
  (Makes.ask _).bind fun _ => Makes.refuse (minds_alter _)

theorem minds_openTry (donePc : Nat) : Makes Machine.Minds (openTry donePc) :=
  (Makes.ask _).bind fun _ => (minds_openBlock _ _).bind fun _ => (minds_alter _).bind fun _ => .pure _

theorem minds_closeTry (hr : r.Minds) : Makes Machine.Minds (closeTry r) := by
  refine (Makes.ask _).bind fun _ => (Makes.orFail _ _).bind fun frame => (minds_alter _).bind fun _ => ?_
  refine (minds_closeScope hr true).bind fun _ => ?_
  have rest (v : Value) : Makes Machine.Minds (do push v; return .next : Run Control) :=
    ((flat_push v).minds hr).bind fun _ => .pure _
  dsimp only
  split
  · exact rest _
  · exact ((flat_errorList _).minds hr).bind rest

theorem minds_alterLoops (f : Dict Nat LoopState → Dict Nat LoopState) :
    Makes Machine.Minds (alterLoops f) :=
  minds_alter _

theorem minds_beginFor (hr : r.Minds) (pc donePc : Nat) : Makes Machine.Minds (beginFor pc donePc) :=
  (flat_pop.minds hr).bind fun _ => (flat_pop.minds hr).bind fun _ => ((flat_iterate _).minds hr).bind fun _ =>
    minds_alterLoops _

theorem minds_nextFor (hr : r.Minds) (pc donePc : Nat) : Makes Machine.Minds (nextFor r pc donePc) := by
  refine ((flat_loopAt? pc).minds hr).bind fun running => ?_
  split
  · refine ((flat_pull _).minds hr).bind fun pulled => ?_
    cases pulled with
    | item v => exact ((flat_push v).minds hr).bind fun _ => minds_callValue hr _ _
    | pending => exact .pure _
    | done => exact (minds_alterLoops _).bind fun _ => .pure _
  · exact .fail _

theorem minds_stepFor (hr : r.Minds) (donePc : Nat) : Makes Machine.Minds (stepFor r donePc) := by
  refine (Makes.ask _).bind fun pc => ((flat_loopAt? pc).minds hr).bind fun running => ?_
  dsimp only
  split
  · exact (minds_beginFor hr _ _).bind fun _ => minds_nextFor hr _ _
  · exact minds_nextFor hr _ _

theorem minds_stepWhile (hr : r.Minds) (donePc : Nat) : Makes Machine.Minds (stepWhile r donePc) := by
  refine (Makes.ask _).bind fun pc => ((flat_loopAt? pc).minds hr).bind fun running => ?_
  split
  · exact (flat_pop.minds hr).bind fun _ => (minds_alterLoops _).bind fun _ => minds_callValue hr _ _
  · refine (flat_pop.minds hr).bind fun condition => ?_
    split
    · exact minds_callValue hr _ _
    · exact (minds_alterLoops _).bind fun _ => .pure _
  · exact .fail _

theorem minds_endOnFault {step : Run Control} (h : Makes Machine.Minds step) :
    Makes Machine.Minds (endOnFault step) := by
  refine h.attempt.bind fun result => ?_
  cases result with
  | ok c => exact .pure c
  | error e => exact (Makes.ask _).bind fun _ => (minds_alterLoops _).bind fun _ => .fail e

theorem minds_exec (hr : r.Minds) (op : Op) : Makes Machine.Minds (exec r op) := by
  have goOn {x : Run Unit} (hx : Makes Machine.Minds x) :
      Makes Machine.Minds (do x; return .next : Run Control) := hx.bind fun _ => .pure _
  cases flat : op.isFlat with
  | true => exact (flat_exec flat).minds hr
  | false =>
    cases op with
    | deref name => exact minds_lookUp hr name
    | call name => exact (Makes.ask _).bind fun _ => minds_callName hr _ _
    | bind name => exact (flat_pop.minds hr).bind fun _ => goOn (minds_bind _ _)
    | unlambda id => exact minds_exitReturn 0
    | exit label id => exact minds_exit hr label
    | begin ownStack safety => exact (Makes.ask _).bind fun _ => goOn (minds_openBlock _ _)
    | close => exact goOn (minds_closeScope hr true)
    | closeList =>
      exact (Makes.ask _).bind fun _ => (minds_alter _).bind fun _ => (minds_closeScope hr false).bind fun _ =>
        ((flat_listFrom _).minds hr).bind fun _ => goOn ((flat_push _).minds hr)
    | «try» done => exact ((flat_labelPc done).minds hr).bind fun _ => minds_openTry _
    | closeTry => exact minds_closeTry hr
    | «for» done => exact ((flat_endPc _ _).minds hr).bind fun _ => minds_endOnFault (minds_stepFor hr _)
    | «while» done => exact ((flat_endPc _ _).minds hr).bind fun _ => minds_endOnFault (minds_stepWhile hr _)
    | _ => cases flat

/-! ## Runs -/

theorem minds_apply (hr : r.Minds) (base : Nat) (c : Control) : Makes Machine.Minds (apply r base c) := by
  cases c with
  | next => rw [apply]; exact minds_alter _
  | jump pc => rw [apply]; exact minds_alter _
  | unwind depth pc =>
    rw [apply]
    exact Makes.refuse ((minds_unwindTo hr _ _).bind fun _ => minds_alter _)

theorem minds_unwindAfterFault (hr : r.Minds) (depth : Nat) :
    Makes Machine.Minds (unwindAfterFault r depth) := by
  refine (minds_unwindTo hr _ _).attempt.bind fun result => ?_
  cases result with
  | ok _ => exact .pure ()
  | error e => exact minds_note _ _

theorem minds_resumeTry (f : Fault) (i : Nat) (frame : TryFrame) :
    Makes Machine.Minds (resumeTry f i frame) := by
  refine (Makes.ask _).bind fun scope? => ?_
  cases scope? with
  | none => exact .exhausted
  | some scope => exact minds_alter _

theorem minds_recover (hr : r.Minds) (base : Nat) (f : Fault) :
    Makes Machine.Minds (recover r base f) := by
  refine (Makes.ask _).bind fun catching => ?_
  cases catching with
  | none =>
    exact (Makes.ask _).bind fun _ => (minds_note _ _).bind fun _ =>
      (minds_unwindAfterFault hr _).bind fun _ => .fail f
  | some frame =>
    exact (Makes.ask _).bind fun _ => (minds_note _ _).bind fun _ =>
      (minds_unwindAfterFault hr _).bind fun _ => (Makes.ask _).bind fun _ =>
        (Makes.orFail _ _).bind fun _ => minds_resumeTry f _ _

theorem minds_step (hr : r.Minds) (base : Nat) (op : Op) : Makes Machine.Minds (step r base op) := by
  refine (minds_exec hr op).bind fun c => (minds_apply hr base c).bind fun _ => ?_
  refine (Makes.askShared _).bind fun limit => (Makes.ask _).bind fun size => ?_
  split
  · exact .fail _
  · exact .pure _

end Run

namespace Watch

open Run

variable (w : Watch)

theorem minds_runOps (hr : r.Minds) (base stop fuel : Nat) :
    Makes Machine.Minds (w.runOps r base stop fuel) := by
  induction fuel with
  | zero => exact .exhausted
  | succ fuel ih =>
    refine (Makes.haltIf _).bind fun _ => (Makes.ask _).bind fun pc => ?_
    split
    · exact .pure ()
    refine (Makes.ask _).bind fun op? => ?_
    cases op? with
    | none => exact .pure ()
    | some op =>
      refine (minds_step hr base op).attempt.bind fun result => ?_
      cases result with
      | ok _ => exact ih
      | error f => exact (Makes.haltIf _).bind fun _ => (minds_recover hr base f).bind fun _ => ih

theorem minds_runLoop (hr : r.Minds) (base stop : Nat) : Makes Machine.Minds (w.runLoop r base stop) :=
  (Makes.ask _).bind fun _ => (minds_alter _).bind fun _ => (w.minds_runOps hr _ _ _).attempt.bind fun _ =>
    (minds_alter _).bind fun _ => .ofExcept _

theorem minds_runCall (hr : r.Minds) (target : Value) (base : Nat) :
    Makes Machine.Minds (w.runCall r target base) :=
  (minds_callValue hr _ _).bind fun _ => (minds_apply hr _ _).bind fun _ => w.minds_runLoop hr _ _

theorem minds_callNested (hr : r.Minds) (target : Value) (args : List Value) :
    Makes Machine.Minds (w.callNested r target args) := by
  have aside : Makes Machine.Minds (w.callAside r target args) :=
    (Makes.ask _).bind fun _ => (Makes.ask _).bind fun _ => (minds_openBlock _ _).bind fun _ =>
      ((flat_pushEach _).minds hr).bind fun _ => (w.minds_runCall hr _ _).attempt.bind fun _ =>
      (Makes.ask _).bind fun _ => (minds_unwindTo hr _ _).attempt.bind fun _ => (minds_alter _).bind fun _ =>
      (Makes.ofExcept _).bind fun _ => (Makes.ofExcept _).bind fun _ => .pure _
  exact aside.attempt.bind fun _ => (Makes.haltIf _).bind fun _ => .ofExcept _

/-- Runs inside runs mind iterators. -/
theorem minds_reentry (depth : Nat) : (w.reentry depth).Minds := by
  induction depth with
  | zero => exact ⟨fun _ _ => .exhausted, fun _ => .exhausted⟩
  | succ depth ih =>
    exact ⟨w.minds_callNested ih, fun _ => (Makes.ask _).bind fun _ => w.minds_runCall ih _ _⟩

theorem minds_runUntil (stop : Nat) : Makes Machine.Minds (w.runUntil stop) :=
  (Makes.ask _).bind fun _ => (minds_note _ _).bind fun _ =>
    (w.minds_runLoop (w.minds_reentry _) _ _).attempt.bind fun _ =>
      (minds_alter _).bind fun _ => .ofExcept _

end Watch

end Catena
