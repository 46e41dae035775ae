import Catena.Library.Concurrency
import Catena.Proofs.Run.Change

/-!
# Computations at one level of nesting

Most of what a program does opens and closes no scope: it takes values off the stack and puts others
there, reads and writes the store, and at most starts a run inside the run. Such a computation is
`Flat`: it is put together from a few elementary steps. What is to be shown of all of them is shown
of the steps.
-/

namespace Catena

variable {α β : Type} {r : Reentry}

/-- What lies outside an engine, without what was printed. -/
def Host.unprinted (h : Host) : Host := { h with stdout := "", stderr := "" }

/-- What is shared, without what has been logged and printed. -/
def Shared.silenced (s : Shared) : Shared := { s with log := .silent, host := s.host.unprinted }

/-- A scope without its deferred calls. -/
def Scope.settled (s : Scope) : Scope := { s with defers := [] }

/-- The iterators of the first store stand in the second one as they did. -/
def Store.SameIters (s s' : Store) : Prop :=
  ∀ (i : Ref) (c : IterCell), s.iters[i]? = some c → s'.iters[i]? = some c

theorem Store.SameIters.refl (s : Store) : s.SameIters s := fun _ _ found => found

/-- The first store and the second have the same fibers, and what there is of iterators and threads is
spared. -/
structure Store.Spares (s s' : Store) : Prop where
  fibers : s'.fibers = s.fibers
  iters : s.SameIters s'
  threads : s.SameThreads s'

theorem Store.Spares.of_eq {s s' : Store} (fibers : s'.fibers = s.fibers) (iters : s'.iters = s.iters)
    (threads : s'.threads = s.threads) : s.Spares s' :=
  ⟨fibers, fun _ _ found => iters ▸ found, .of_eq threads⟩

/-- A change of what is shared that neither reads nor writes the log, and touches no iterator and no
thread that was started. -/
structure Shared.Tidy (f : Shared → Shared) : Prop where
  drift : ∀ s : Shared, s.Drift (f s)
  silenced : ∀ s, (f s).silenced = (f s.silenced).silenced
  log : ∀ s, (f s).log = s.log
  iters : ∀ s : Shared, s.store.SameIters (f s).store
  threads : ∀ s : Shared, s.store.SameThreads (f s).store

/-- A change of a thread at one level of nesting: of values, deferred calls, the faults collected by
`try:` forms, the brackets of generic types and the place that a library function goes back to. It does not
depend on the base of the run. -/
structure Thread.Tidy (f : Thread → Thread) : Prop where
  drift : ∀ t : Thread, t.Drift (f t)
  based : ∀ t b, f { t with loopBase := b } = { f t with loopBase := b }
  scopes : ∀ t, (f t).scopes.map Scope.settled = t.scopes.map Scope.settled
  tries : ∀ t, (f t).tries.map TryFrame.bare = t.tries.map TryFrame.bare
  /-- The innermost scope apart. -/
  lower : ∀ t, (f t).scopes.pop = t.scopes.pop
  /-- The innermost form apart. -/
  outer : ∀ t, (f t).tries.pop = t.tries.pop
  rest : ∀ t, { f t with
    scopes := t.scopes
    valueStacks := t.valueStacks
    tries := t.tries
    params := t.params
    retPc := t.retPc } = t

theorem pop_modify_last {γ : Type} (xs : Array γ) (f : γ → γ) :
    (xs.modify (xs.size - 1) f).pop = xs.pop := by
  apply Array.ext_getElem?
  intro j
  rw [Array.getElem?_pop, Array.getElem?_pop, Array.size_modify]
  split
  · exact Thread.Drift.getElem?_modify_ne _ _ (by omega)
  · rfl

namespace Thread.Tidy

theorem ops {f : Thread → Thread} (h : Tidy f) (t : Thread) : (f t).ops = t.ops := by
  have same := congrArg Thread.ops (h.rest t)
  exact same

theorem modifyStack (f : Array Value → Array Value) : Tidy (Thread.modifyStack · f) where
  drift := fun t => .modifyStack t f
  based := fun t b => by unfold Thread.modifyStack; split <;> rfl
  scopes := fun t => by unfold Thread.modifyStack; split <;> rfl
  tries := fun t => by unfold Thread.modifyStack; split <;> rfl
  lower := fun t => by unfold Thread.modifyStack; split <;> rfl
  outer := fun t => by unfold Thread.modifyStack; split <;> rfl
  rest := fun t => by unfold Thread.modifyStack; split <;> rfl

/-- Calls are deferred to the end of the innermost scope. -/
theorem defer (f : List Value → List Value) :
    Tidy (·.modifyScope fun s => { s with defers := f s.defers }) where
  drift := fun t => .modifyScope t _ (fun _ => rfl) fun _ h => h
  based := fun _ _ => rfl
  scopes := fun t =>
    Drift.map_modify t.scopes _ (fun s => { s with defers := f s.defers }) _ fun _ => rfl
  tries := fun _ => rfl
  lower := fun t => pop_modify_last t.scopes _
  outer := fun _ => rfl
  rest := fun _ => rfl

/-- The innermost `try:` form collects other faults. -/
theorem collect (f : List Fault → List Fault) :
    Tidy fun t =>
      { t with tries := t.tries.modify (t.tries.size - 1) fun e => { e with faults := f e.faults } } where
  drift := fun t => .alterTries t _ _ fun _ => rfl
  based := fun _ _ => rfl
  scopes := fun _ => rfl
  tries := fun t =>
    Drift.map_modify t.tries _ (fun e => { e with faults := f e.faults }) _ fun _ => rfl
  lower := fun _ => rfl
  outer := fun t => pop_modify_last t.tries _
  rest := fun _ => rfl

theorem params (f : Thread → List ParamMark)
    (h : ∀ t b, f { t with loopBase := b } = f t) : Tidy fun t => { t with params := f t } where
  drift := fun t => .aside rfl rfl rfl rfl rfl
  based := fun t b => by rw [h]
  scopes := fun _ => rfl
  tries := fun _ => rfl
  lower := fun _ => rfl
  outer := fun _ => rfl
  rest := fun _ => rfl

/-- A library function is to go back to another place. -/
theorem goBack (retPc : Nat) : Tidy ({ · with retPc }) where
  drift := fun _ => .aside rfl rfl rfl rfl rfl
  based := fun _ _ => rfl
  scopes := fun _ => rfl
  tries := fun _ => rfl
  lower := fun _ => rfl
  outer := fun _ => rfl
  rest := fun _ => rfl

end Thread.Tidy

namespace Run

/-- A pull of the iterator of a cell, which is taken out of it while it gives its answer. -/
def atCell (iter : Ref) (turn : Iterator → Run (Pulled × Iterator)) : Run Pulled := do
  match ← askStore fun s => s.iters[iter]?.getD .done with
  | .done => return .done
  | .busy => fail Fault.busyIterator
  | .ready it =>
    setIter iter .busy
    match ← attempt (turn it) with
    | .ok (.done, _) => setIter iter .done; return .done
    | .ok (pulled, it) => setIter iter (.ready it); return pulled
    | .error e => setIter iter .done; fail e

theorem pullWithin_succ (fuel : Nat) (iter : Ref) :
    pullWithin r (fuel + 1) iter = atCell iter (advance r (pullWithin r fuel)) := rfl

/-- What stays at one level of nesting, runs inside the run apart. -/
inductive Flat (r : Reentry) : {α : Type} → Run α → Prop
  | pure {α : Type} (a : α) : Flat r (Pure.pure a : Run α)
  | bind {α β : Type} {x : Run α} {k : α → Run β} :
      Flat r x → (∀ a, Flat r (k a)) → Flat r (x >>= k)
  | attempt {α : Type} {x : Run α} : Flat r x → Flat r x.attempt
  | fail {α : Type} (f : Fault) : Flat r (Run.fail f : Run α)
  | exhausted {α : Type} : Flat r (Run.exhausted : Run α)
  | ask {α : Type} {f : Thread → α} (h : ∀ t b, f { t with loopBase := b } = f t) : Flat r (Run.ask f)
  | alter {f : Thread → Thread} (h : Thread.Tidy f) : Flat r (Run.alter f)
  | askShared {α : Type} {f : Shared → α} (h : ∀ s, f s.silenced = f s) : Flat r (Run.askShared f)
  | alterShared {f : Shared → Shared} (h : Shared.Tidy f) : Flat r (Run.alterShared f)
  | note (level : Log.Level) (message : Unit → String) : Flat r (Run.note level message)
  | noteThread (level : Log.Level) (thread : Nat) (message : String) :
      Flat r (Run.noteThread level thread message)
  | freshId : Flat r Run.freshId
  | newFiber (id : Nat) (target : Value) :
      Flat r (Run.alterStore fun s => { s with fibers := s.fibers.push ⟨id, target, .fresh⟩ })
  | takeOutcome (t : Ref) : Flat r (Run.takeOutcome t)
  | instantiate (template : Ty) (args : List Ty) : Flat r (Run.instantiate template args)
  | instantiateNamed (name : String) (args : List Ty) : Flat r (Run.instantiateNamed name args)
  | atCell {turn : Iterator → Run (Pulled × Iterator)} (iter : Ref) :
      (∀ it, Flat r (turn it)) → Flat r (Run.atCell iter turn)
  | call (v : Value) (args : List Value) : Flat r (r.call v args)
  | spawn (v : Value) : Flat r (Run.spawn r v)

namespace Flat

/-! ## Rules -/

/-- A test that the rest comes after. -/
theorem refuse {refused : Prop} [Decidable refused] {f : Fault} {k : Unit → Run α}
    (hk : Flat r (k ())) : Flat r (if refused then Run.fail f >>= k else k ()) := by
  split
  · exact (Flat.fail f).bind fun _ => hk
  · exact hk

theorem ofExcept (x : Except Fault α) : Flat r (Run.ofExcept x) := by
  cases x with
  | ok a => exact .pure a
  | error f => exact .fail f

theorem orFail (f : Fault) (x : Option α) : Flat r (Run.orFail f x) := by
  cases x with
  | some a => exact .pure a
  | none => exact .fail f

theorem askStore (f : Store → α) : Flat r (Run.askStore f) := .askShared fun _ => rfl

/-- What lies outside the engine may change, but not by what was printed. -/
theorem alterHost {f : Shared → Host} (h : ∀ s, (f s).unprinted = (f s.silenced).unprinted) :
    Flat r (Run.alterShared fun s => { s with host := f s }) :=
  .alterShared ⟨fun _ => ⟨rfl, .refl _, rfl⟩, fun s => by simp only [Shared.silenced, h s], fun _ => rfl,
    fun _ => .refl _, fun _ => .refl _⟩

theorem alterStore {f : Store → Store} (spares : ∀ s : Store, s.Spares (f s)) :
    Flat r (Run.alterStore f) :=
  .alterShared ⟨fun s => ⟨rfl, .refl _, (spares s.store).fibers⟩, fun _ => rfl, fun _ => rfl,
    fun s => (spares s.store).iters, fun s => (spares s.store).threads⟩

theorem alloc {size : Store → Nat} {add : Store → Store} (spares : ∀ s : Store, s.Spares (add s)) :
    Flat r (Run.alloc size add) :=
  (askStore size).bind fun a => (alterStore spares).bind fun _ => .pure a

/-- What an object was put into the store for. -/
theorem allocThen {size : Store → Nat} {add : Store → Store} {k : Ref → Run α}
    (spares : ∀ s : Store, s.Spares (add s)) (hk : ∀ a, Flat r (k a)) :
    Flat r (Run.alloc size add >>= k) :=
  (alloc spares).bind hk

theorem mapM {f : α → Run β} (h : ∀ a, Flat r (f a)) (xs : List α) : Flat r (xs.mapM f) := by
  induction xs with
  | nil => rw [List.mapM_nil]; exact .pure []
  | cons x xs ih =>
    rw [List.mapM_cons]
    exact (h x).bind fun _ => ih.bind fun _ => .pure _

theorem arrayMapM {f : α → Run β} (h : ∀ a, Flat r (f a)) (xs : Array α) : Flat r (xs.mapM f) := by
  rw [Array.mapM_eq_mapM_toList]
  exact (mapM h xs.toList).bind fun _ => .pure _

/-- What ends with an ordinary answer. -/
theorem thenNext {x : Run Unit} (hx : Flat r x) : Flat r (do x; return .next : Run Reply) :=
  hx.bind fun _ => .pure _

end Flat

/-! ## The value stack -/

theorem flat_alterStack (f : Array Value → Array Value) : Flat r (alter (·.modifyStack f)) :=
  .alter (.modifyStack f)

theorem flat_push (v : Value) : Flat r (push v) := flat_alterStack _

theorem flat_pushEach (values : List Value) : Flat r (pushEach values) := flat_alterStack _

theorem flat_pop : Flat r pop := by
  refine (Flat.ask fun _ _ => rfl).bind fun v? => ?_
  cases v? with
  | some v => exact (flat_alterStack _).bind fun _ => .pure v
  | none => exact .fail _

theorem flat_popN (n : Nat) : Flat r (popN n) := by
  refine (Flat.ask fun _ _ => rfl).bind fun size => ?_
  refine Flat.refuse ((Flat.ask fun _ _ => rfl).bind fun values => ?_)
  exact (flat_alterStack _).bind fun _ => .pure values

theorem flat_peek (what : String) : Flat r (peek what) :=
  (Flat.ask fun _ _ => rfl).bind fun _ => .orFail _ _

theorem flat_popAs (expected : String) (f : Value → Option α) : Flat r (popAs expected f) :=
  flat_pop.bind fun _ => .orFail _ _

theorem flat_popInt : Flat r popInt := flat_popAs _ _

theorem flat_popStr : Flat r popStr := flat_popAs _ _

theorem flat_popSym : Flat r popSym := flat_popAs _ _

theorem flat_popType : Flat r popType := flat_popAs _ _

/-- A value is made and pushed. -/
theorem Flat.thenPush {x : Run α} (hx : Flat r x) (f : α → Value) :
    Flat r (do push (f (← x)); return .next : Run Reply) :=
  hx.bind fun _ => (flat_push _).thenNext

/-! ## Values with an identity -/

theorem flat_newClosure (c : Closure) : Flat r (newClosure c) :=
  Flat.allocThen (fun _ => .of_eq rfl rfl rfl) fun _ => .pure _

theorem flat_newBin (bytes : Array UInt8) : Flat r (newBin bytes) :=
  Flat.allocThen (fun _ => .of_eq rfl rfl rfl) fun _ => .pure _

theorem flat_newError (f : Fault) : Flat r (newError f) :=
  Flat.allocThen (fun _ => .of_eq rfl rfl rfl) fun _ => .pure _

theorem Store.sameIters_push (it : Iterator) (s : Store) :
    s.SameIters { s with iters := s.iters.push (.ready it) } := by
  intro i c found
  have inside := (Array.getElem?_eq_some_iff.1 found).1
  show (s.iters.push (.ready it))[i]? = some c
  rw [Array.getElem?_push, if_neg (Nat.ne_of_lt inside)]
  exact found

theorem flat_newIter (it : Iterator) : Flat r (newIter it) :=
  .alloc fun s => ⟨rfl, Store.sameIters_push it s, .refl _⟩

theorem flat_listOf (items : Array Value) (item : Ty) : Flat r (listOf items item) :=
  (Flat.instantiate _ _).bind fun _ => Flat.allocThen (fun _ => .of_eq rfl rfl rfl) fun _ => .pure _

theorem flat_listFrom (items : Array Value) : Flat r (listFrom items) :=
  flat_listOf items _

theorem flat_iterOf (iter : Ref) (item : Ty) : Flat r (iterOf iter item) :=
  (Flat.instantiate _ _).bind fun _ => .pure _

theorem flat_pairOf (left right : Value) : Flat r (pairOf left right) :=
  (Flat.instantiate _ _).bind fun _ => Flat.allocThen (fun _ => .of_eq rfl rfl rfl) fun _ => .pure _

theorem flat_tableOf (entries : Table) (key value : Ty) : Flat r (tableOf entries key value) :=
  (Flat.instantiate _ _).bind fun _ => Flat.allocThen (fun _ => .of_eq rfl rfl rfl) fun _ => .pure _

end Run

end Catena
