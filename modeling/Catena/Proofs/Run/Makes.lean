import Catena.Proofs.Run.Deed
import Catena.Proofs.Run.Flat

/-!
# Computations and what they do

A computation put together of others does what they do. Here are the rules for the ways of putting
computations together, and what is done by the operations on a machine that all others are written
with.
-/

namespace Catena

variable {careful : Prop} {R S : Machine → Machine → Prop} {α β : Type}

theorem Thread.Tidy.calm {f : Thread → Thread} (h : Tidy f) (t : Thread) : t.Calm (f t) where
  drift := h.drift t
  ops := h.ops t
  env := (congrArg Thread.env (h.rest t) :)
  scopes := by
    have settled := congrArg (Array.map Scope.calm) (h.scopes t)
    rw [Array.map_map, Array.map_map] at settled
    exact settled

theorem Thread.Tidy.coros {f : Thread → Thread} (h : Tidy f) (t : Thread) : (f t).coros = t.coros :=
  (congrArg Thread.coros (h.rest t) :)

namespace Run

/-- The computation takes every machine to a related one, whatever its outcome. -/
def Makes (R : Machine → Machine → Prop) (x : Run α) : Prop :=
  ∀ m, R m (x.after m)

/-! ## Rules -/

theorem Makes.mono (h : ∀ m n, R m n → S m n) {x : Run α} (hx : Makes R x) : Makes S x :=
  fun m => h m _ (hx m)

theorem after_bind (x : Run α) (k : α → Run β) (m : Machine) :
    (x >>= k).after m =
      match x m with
      | .ok a n => (k a).after n
      | .error _ n => n := by
  unfold after
  rw [bind_apply]
  cases x m <;> rfl

/-- What ends well has come through both parts. -/
theorem bind_ok {x : Run α} {k : α → Run β} {m q : Machine} {b : β} (h : (x >>= k) m = .ok b q) :
    ∃ a n, x m = .ok a n ∧ k a n = .ok b q := by
  rw [bind_apply] at h
  cases first : x m with
  | ok a n => rw [first] at h; exact ⟨a, n, rfl, h⟩
  | error e n => rw [first] at h; cases h

theorem after_ok {x : Run α} {m n : Machine} {a : α} (h : x m = .ok a n) : x.after m = n := by
  simp only [after, h]

theorem after_error {x : Run α} {m n : Machine} {e : Halt} (h : x m = .error e n) :
    x.after m = n := by
  simp only [after, h]

theorem Makes.ok {x : Run α} (h : Makes R x) {m n : Machine} {a : α} (hx : x m = .ok a n) :
    R m n :=
  after_ok hx ▸ h m

theorem after_attempt (x : Run α) (m : Machine) : x.attempt.after m = x.after m := by
  unfold after
  rw [Run.attempt]
  rcases x m with ⟨a, n⟩ | ⟨_ | _, n⟩ <;> rfl

theorem Makes.attempt {x : Run α} (hx : Makes R x) : Makes R x.attempt :=
  fun m => (after_attempt x m).symm ▸ hx m

section Rules

variable [IsPreorder Machine R]

theorem Makes.pure (a : α) : Makes R (Pure.pure a : Run α) := fun m => refl m

/-- What comes after is only asked about in the machine that the first part ends well in. -/
theorem related_bind_at {x : Run α} {k : α → Run β} {m : Machine}
    (hx : R m (x.after m))
    (hk : ∀ a n, x m = .ok a n → R n ((k a).after n)) :
    R m ((x >>= k).after m) := by
  rw [after_bind]
  cases h : x m with
  | ok a n => exact trans_of R (after_ok h ▸ hx) (hk a n h)
  | error e n => exact after_error h ▸ hx

theorem related_bind {x : Run α} {k : α → Run β} {m : Machine} (hx : Makes R x)
    (hk : ∀ a n, x m = .ok a n → R n ((k a).after n)) :
    R m ((x >>= k).after m) :=
  related_bind_at (hx m) hk

/-- What only answers does nothing more. -/
theorem after_pure (x : Run α) (f : α → β) (m : Machine) :
    (x >>= fun a => Pure.pure (f a)).after m = x.after m := by
  rw [after_bind]
  cases h : x m with
  | ok a n => exact (after_ok h).symm
  | error e n => exact (after_error h).symm

/-- What was done before the first part is kept in view. -/
theorem related_then {x : Run α} {k : α → Run β} {m n : Machine} (before : R m n) (hx : Makes R x)
    (hk : ∀ a p, x n = .ok a p → R m p → R m ((k a).after p)) : R m ((x >>= k).after n) := by
  have first := trans_of R before (hx n)
  rw [after_bind]
  cases h : x n with
  | ok a p => exact hk a p h (after_ok h ▸ first)
  | error e p => exact after_error h ▸ first

theorem Makes.bind_of {x : Run α} {k : α → Run β} (hx : Makes R x)
    (hk : ∀ m a n, x m = .ok a n → R n ((k a).after n)) :
    Makes R (x >>= k) :=
  fun m => related_bind hx (hk m)

theorem Makes.bind {x : Run α} {k : α → Run β} (hx : Makes R x)
    (hk : ∀ a, Makes R (k a)) : Makes R (x >>= k) :=
  hx.bind_of fun _ a n _ => hk a n

theorem attempt_ok {x : Run α} {m n : Machine} {a : α} (h : x m = .ok a n) :
    x.attempt m = .ok (.ok a) n := by
  simp only [Run.attempt, h]

theorem attempt_fault {x : Run α} {m n : Machine} {f : Fault} (h : x m = .error (.fault f) n) :
    x.attempt m = .ok (.error f) n := by
  simp only [Run.attempt, h]

theorem attempt_outOfFuel {x : Run α} {m n : Machine} (h : x m = .error .outOfFuel n) :
    x.attempt m = .error .outOfFuel n := by
  simp only [Run.attempt, h]

/-- What has been attempted has ended well, or with a fault. -/
theorem attempt_cases {x : Run α} {m n : Machine} {result : Except Fault α}
    (h : x.attempt m = .ok result n) :
    (∃ a, result = .ok a ∧ x m = .ok a n) ∨ ∃ f, result = .error f ∧ x m = .error (.fault f) n := by
  rcases ends : x m with ⟨a, p⟩ | ⟨f | _, p⟩
  · cases (attempt_ok ends).symm.trans h; exact .inl ⟨a, rfl, rfl⟩
  · cases (attempt_fault ends).symm.trans h; exact .inr ⟨f, rfl, rfl⟩
  · cases (attempt_outOfFuel ends).symm.trans h

/-- Only a run out of fuel is not caught. -/
theorem attempt_error {x : Run α} {m n : Machine} {e : Halt} (h : x.attempt m = .error e n) :
    e = .outOfFuel := by
  unfold Run.attempt at h
  split at h
  · cases h
  · cases h
  · cases h; rfl

theorem Makes.fail (f : Fault) : Makes R (fail f : Run α) := fun m => refl m

theorem Makes.exhausted : Makes R (exhausted : Run α) := fun m => refl m

/-- A test that the rest comes after. -/
theorem Makes.refuse {refused : Prop} [Decidable refused] {f : Fault} {k : Unit → Run α}
    (hk : Makes R (k ())) : Makes R (if refused then Run.fail f >>= k else k ()) := by
  split
  · exact (Makes.fail f).bind fun _ => hk
  · exact hk

theorem Makes.ofExcept (x : Except Fault α) : Makes R (ofExcept x) := by
  cases x with
  | ok a => exact .pure a
  | error f => exact .fail f

theorem Makes.orFail (f : Fault) (x : Option α) : Makes R (orFail f x) := by
  cases x with
  | some a => exact .pure a
  | none => exact .fail f

theorem orFail_ok {f : Fault} {x : Option α} {m n : Machine} {a : α}
    (h : Run.orFail f x m = .ok a n) : x = some a ∧ n = m := by
  cases x with
  | some b => cases h; exact ⟨rfl, rfl⟩
  | none => cases h

theorem ofExcept_ok {x : Except Fault α} {m n : Machine} {a : α}
    (h : Run.ofExcept x m = .ok a n) : x = .ok a ∧ n = m := by
  cases x with
  | ok b => cases h; exact ⟨rfl, rfl⟩
  | error f => cases h

theorem Makes.passOn (first : Option Fault) : Makes R (passOn first) := by
  cases first with
  | none => exact .pure ()
  | some f => exact .fail f

theorem Makes.haltIf (test : Machine → Bool) : Makes R (haltIf test) := by
  intro m
  unfold after Run.haltIf
  cases test m <;> exact refl m

theorem Makes.ask (f : Thread → α) : Makes R (ask f) := fun m => refl m

theorem Makes.askShared (f : Shared → α) : Makes R (askShared f) := fun m => refl m

theorem Makes.askStore (f : Store → α) : Makes R (askStore f) := fun m => refl m

end Rules

/-! ## Threads, what is shared, and the store -/

theorem Makes.alter {f : Thread → Thread} (h : ∀ t : Thread, t.Calm (f t))
    (coros : ∀ t : Thread, (f t).coros = t.coros := by exact fun _ => rfl) :
    Makes (Deeds careful) (alter f) :=
  fun m => (Deed.thread _ (h m.thread) (coros m.thread)).deeds

theorem Makes.alterShared {f : Shared → Shared} (h : ∀ s : Shared, s.Drift (f s))
    (threads : ∀ s : Shared, s.store.SameThreads (f s).store) :
    Makes (Deeds careful) (alterShared f) :=
  fun m => (Deed.shared _ (h m.shared) (threads m.shared)).deeds

theorem Makes.alterStore {f : Store → Store} (h : ∀ s, (f s).fibers = s.fibers)
    (threads : ∀ s : Store, s.SameThreads (f s) := by exact fun _ => .refl _) :
    Makes (Deeds careful) (alterStore f) :=
  .alterShared (fun s => ⟨rfl, .refl _, h s.store⟩) fun s => threads s.store

theorem Makes.alloc {size : Store → Nat} {add : Store → Store}
    (h : ∀ s, (add s).fibers = s.fibers)
    (threads : ∀ s : Store, s.SameThreads (add s) := by exact fun _ => .refl _) :
    Makes (Deeds careful) (alloc size add) :=
  (Makes.askStore size).bind fun r => (Makes.alterStore h threads).bind fun _ => .pure r

/-- What an object was put into the store for. -/
theorem Makes.allocThen {size : Store → Nat} {add : Store → Store} {k : Ref → Run α}
    (h : ∀ s, (add s).fibers = s.fibers) (hk : ∀ r, Makes (Deeds careful) (k r))
    (threads : ∀ s : Store, s.SameThreads (add s) := by exact fun _ => .refl _) :
    Makes (Deeds careful) (Run.alloc size add >>= k) :=
  (Makes.alloc h threads).bind hk

/-! ## Ids, types and messages -/

theorem note_drift (s : Shared) (level : Log.Level) (target : String) (message : Unit → String)
    (thread : Option Nat) : s.Drift (s.note level target message thread) := by
  unfold Shared.note
  split
  · exact ⟨rfl, .refl _, rfl⟩
  · exact .refl s

theorem note_registry (s : Shared) (level : Log.Level) (target : String) (message : Unit → String)
    (thread : Option Nat) : (s.note level target message thread).registry = s.registry := by
  unfold Shared.note
  split <;> rfl

theorem note_store (s : Shared) (level : Log.Level) (target : String) (message : Unit → String)
    (thread : Option Nat) : (s.note level target message thread).store = s.store := by
  unfold Shared.note
  split <;> rfl

theorem note_threads (s : Shared) (level : Log.Level) (target : String) (message : Unit → String)
    (thread : Option Nat) : s.store.SameThreads (s.note level target message thread).store :=
  .of_eq (congrArg Store.threads (note_store s level target message thread))

theorem makes_note (level : Log.Level) (message : Unit → String) :
    Makes (Deeds careful) (note level message) :=
  .alterShared (fun s => note_drift s level _ message none) fun s => note_threads s level _ message none

theorem makes_noteThread (level : Log.Level) (thread : Nat) (message : String) :
    Makes (Deeds careful) (noteThread level thread message) :=
  .alterShared (fun s => note_drift s level _ _ (some thread)) fun s =>
    note_threads s level _ _ (some thread)

theorem makes_freshId : Makes (Deeds careful) freshId := fun m =>
  (Deed.shared (m.shared.freshId.2) ⟨rfl, Registry.freshId_grown _, rfl⟩ (.refl _)).deeds

theorem pop_some {m : Machine} {v : Value} (top : m.thread.top? = some v) :
    pop m = .ok v { m with thread := m.thread.modifyStack Array.pop } := by
  rw [pop, bind_apply, ask]
  dsimp only
  rw [top]
  rfl

theorem pop_none {m : Machine} (top : m.thread.top? = none) :
    pop m = .error (.fault (Fault.underflow "pop")) m := by
  rw [pop, bind_apply, ask]
  dsimp only
  rw [top]
  rfl

/-- What a thread left behind is taken if it is still there. -/
theorem takeOutcome_ok {t : Ref} {m n : Machine} {id : Nat} {outcome : Except Fault (Array Value)}
    (h : takeOutcome t m = .ok (id, outcome) n) :
    m.shared.store.threads[t]? = some ⟨id, some outcome⟩ ∧
      n = { m with shared := { m.shared with store := m.shared.store.takeOutcome t } } := by
  cases found : m.shared.store.threads[t]? with
  | none =>
    simp only [takeOutcome, bind_apply, askStore, askShared, found] at h
    cases h
  | some handle =>
    obtain ⟨id', outcome'⟩ := handle
    simp only [takeOutcome, bind_apply, askStore, askShared, found] at h
    cases outcome' with
    | none => cases h
    | some outcome' =>
      cases h
      exact ⟨rfl, rfl⟩

/-- What is not there any more is not taken, and nothing happens. -/
theorem takeOutcome_error {t : Ref} {m n : Machine} {e : Halt} (h : takeOutcome t m = .error e n) :
    n = m := by
  simp only [takeOutcome, bind_apply, askStore, askShared] at h
  cases left : ((m.shared.store.threads[t]?).getD default).outcome with
  | none =>
    rw [left] at h
    cases h
    rfl
  | some outcome =>
    rw [left] at h
    cases h

theorem makes_takeOutcome (t : Ref) : Makes (Deeds careful) (takeOutcome t) := by
  intro m
  cases h : takeOutcome t m with
  | ok a n =>
    obtain ⟨found, rfl⟩ := takeOutcome_ok h
    rw [after_ok h]
    exact (Deed.takeOutcome t _ _ found rfl).deeds
  | error e n =>
    rw [after_error h, takeOutcome_error h]
    exact .refl m

theorem Makes.register {make : Registry → Except Fault (Ty × Registry)}
    (h : ∀ r t r', make r = .ok (t, r') → r.Grown r') :
    Makes (Deeds careful) (do
      let (t, registry) ← Run.ofExcept (← Run.askShared fun s => make s.registry)
      Run.alterShared fun s => { s with registry }
      return t) := by
  intro m
  refine related_bind (Makes.askShared _) fun made n asked => ?_
  cases asked
  refine related_bind (Makes.ofExcept _) fun both n made => ?_
  obtain ⟨made, rfl⟩ := ofExcept_ok made
  obtain ⟨t, registry⟩ := both
  have step : Deed careful n.thread.safety n { n with shared := { n.shared with registry } } :=
    .shared _ ⟨rfl, h _ _ _ made, rfl⟩ (.refl _)
  exact step.deeds

theorem makes_instantiate (template : Ty) (args : List Ty) :
    Makes (Deeds careful) (instantiate template args) :=
  Makes.register fun _ _ _ made => (Registry.instantiate_adds made).grown

theorem makes_instantiateNamed (name : String) (args : List Ty) :
    Makes (Deeds careful) (instantiateNamed name args) :=
  Makes.register fun _ _ _ made => (Registry.instantiateNamed_adds made).grown

/-! ## Variables and blocks -/

theorem makes_bind (name : String) (v : Value) : Makes (Deeds careful) (Run.bind name v) := by
  refine (Makes.ask _).bind fun bound => Makes.refuse ?_
  exact fun m => (Deed.bind name v).deeds

/-- Where there is room, a test for it does nothing. -/
theorem checkRoom_ok {m n : Machine} {a : Unit} (h : checkRoom m = .ok a n) :
    n = m ∧ m.hasRoom := by
  simp only [checkRoom, maxScopes, bind_apply, askShared, ask] at h
  split at h
  · cases h
  · rename_i room
    cases h
    exact ⟨rfl, Nat.lt_of_not_le room⟩

theorem checkRoom_error {m n : Machine} {e : Halt} (h : checkRoom m = .error e n) : n = m := by
  simp only [checkRoom, maxScopes, bind_apply, askShared, ask] at h
  split at h
  · cases h
    rfl
  · cases h

theorem makes_checkRoom : Makes (Deeds careful) checkRoom := by
  refine (Makes.askShared _).bind fun limit => (Makes.ask _).bind fun size => ?_
  split
  · exact .fail _
  · exact .pure _

/-- Where there is a value stack, a test for it does nothing. -/
theorem checkStack_ok {m n : Machine} {a : Unit} (h : checkStack m = .ok a n) :
    n = m ∧ m.thread.valueStacks.size ≠ 0 := by
  simp only [checkStack, bind_apply, ask] at h
  split at h
  · cases h
  · rename_i stack
    cases h
    exact ⟨rfl, by simpa using stack⟩

theorem checkStack_error {m n : Machine} {e : Halt} (h : checkStack m = .error e n) : n = m := by
  simp only [checkStack, bind_apply, ask] at h
  split at h
  · cases h
    rfl
  · cases h

theorem makes_checkStack : Makes (Deeds careful) checkStack := by
  refine (Makes.ask _).bind fun heights => ?_
  split
  · exact .exhausted
  · exact .pure _

/-- A block opens at the level in force, or the one that its operation gives. -/
theorem openBlock_deeds {ownStack : Bool} {safety : Safety} {m : Machine}
    (level : safety = m.thread.safety ∨ .begin ownStack (some safety) ∈ m.thread.ops) :
    Deeds careful m ((openBlock ownStack safety).after m) := by
  refine related_bind makes_checkRoom fun _ n h => ?_
  obtain ⟨rfl, room⟩ := checkRoom_ok h
  cases ownStack with
  | true => exact (Deed.openBlock true safety room nofun level).deeds
  | false =>
    refine related_bind makes_checkStack fun _ p h => ?_
    obtain ⟨rfl, stack⟩ := checkStack_ok h
    exact (Deed.openBlock false safety room (fun _ => stack) level).deeds

/-- A block opens where there is room for it. -/
theorem openBlock_ok {ownStack : Bool} {safety : Safety} {m n : Machine} {a : Unit}
    (h : openBlock ownStack safety m = .ok a n) :
    m.hasRoom ∧ n = { m with thread := m.thread.openBlock ownStack safety } := by
  rw [openBlock, bind_apply] at h
  cases room : checkRoom m with
  | error e p => rw [room] at h; cases h
  | ok b p =>
    rw [room] at h
    obtain ⟨rfl, room⟩ := checkRoom_ok room
    cases ownStack with
    | true => cases h; exact ⟨room, rfl⟩
    | false =>
      replace h : (checkStack >>= fun _ => alter (·.openBlock false safety)) p = .ok a n := h
      rw [bind_apply] at h
      cases stack : checkStack p with
      | error e q => rw [stack] at h; cases h
      | ok c q =>
        rw [stack] at h
        obtain ⟨rfl, -⟩ := checkStack_ok stack
        cases h
        exact ⟨room, rfl⟩

theorem makes_newClosure (c : Closure) : Makes (Deeds careful) (newClosure c) :=
  Makes.allocThen (fun _ => rfl) fun _ => .pure _

end Run

/-- The changes made by what starts a run inside a run. If no last scope is to be closed, a deferred
call must not come back to a thread with one scope only. -/
structure Reentry.Makes (careful : Prop) (r : Reentry) : Prop where
  call : ∀ v args, Run.Makes (Deeds careful) (r.call v args)
  runThread : ∀ v, Run.Makes (Deeds careful) (r.runThread v)
  deferred : careful → ∀ v m a n,
    Run.attempt (r.call v []) m = .ok a n → 2 ≤ n.thread.scopes.size

namespace Run

variable {r : Reentry}

/-! ## What stays at one level of nesting -/

/-- What another thread does is what starts as a copy of this one and gives way to it again. -/
theorem makes_onThread {x : Run α} (hx : Makes (Deeds careful) x) (id : Nat) {m : Machine} :
    Deeds careful m ((onThread (m.thread.fork id) x).after m) := by
  have child := hx.attempt { m with thread := m.thread.fork id }
  have back := Deeds.fork id (.refl m) child
  unfold after at back ⊢
  rw [onThread]
  cases h : attempt x { m with thread := m.thread.fork id } <;> simpa [h] using back

theorem makes_spawn (hr : r.Makes careful) (target : Value) : Makes (Deeds careful) (spawn r target) := by
  refine makes_freshId.bind fun id => (makes_note _ _).bind fun _ => (Makes.ask _).bind fun _ => ?_
  refine (makes_noteThread _ _ _).bind fun _ m => ?_
  refine related_bind (Makes.ask _) fun child n h => ?_
  cases h
  refine related_bind_at (makes_onThread (hr.runThread target) id) fun (result, child) n _ => ?_
  have rest : Makes (Deeds careful) (alloc (·.threads.size) fun s =>
      { s with threads := s.threads.push ⟨id, some (result.map fun () => child.stack)⟩ }) :=
    .alloc (fun _ => rfl) fun s => s.sameThreads_push _
  cases result with
  | ok _ => exact ((makes_noteThread _ _ _).bind fun _ => rest) n
  | error e => exact ((makes_noteThread _ _ _).bind fun _ => rest) n

theorem makes_setIter (iter : Ref) (cell : IterCell) : Makes (Deeds careful) (setIter iter cell) :=
  .alterStore fun _ => rfl

theorem Makes.atCell {turn : Iterator → Run (Pulled × Iterator)} (iter : Ref)
    (h : ∀ it, Makes (Deeds careful) (turn it)) : Makes (Deeds careful) (atCell iter turn) := by
  refine (Makes.askStore _).bind fun cell => ?_
  cases cell with
  | done => exact .pure _
  | busy => exact .fail _
  | ready it =>
    refine (makes_setIter iter .busy).bind fun _ => (h it).attempt.bind fun result => ?_
    split
    · exact (makes_setIter iter .done).bind fun _ => .pure _
    · exact (makes_setIter iter _).bind fun _ => .pure _
    · exact (makes_setIter iter .done).bind fun _ => .fail _

/-- What stays at one level of nesting makes the changes that the runs inside it make. -/
theorem Flat.makes {x : Run α} (hx : Flat r x) (hr : r.Makes careful) : Makes (Deeds careful) x := by
  induction hx with
  | pure a => exact .pure a
  | bind _ _ ihx ihk => exact ihx.bind ihk
  | attempt _ ih => exact ih.attempt
  | fail f => exact .fail f
  | exhausted => exact .exhausted
  | ask => exact .ask _
  | alter h => exact .alter h.calm h.coros
  | askShared => exact .askShared _
  | alterShared h => exact .alterShared h.drift h.threads
  | note level message => exact makes_note level message
  | noteThread level thread message => exact makes_noteThread level thread message
  | freshId => exact makes_freshId
  | newFiber id target => exact fun _ => (Deed.newFiber id target).deeds
  | takeOutcome t => exact makes_takeOutcome t
  | instantiate template args => exact makes_instantiate template args
  | instantiateNamed name args => exact makes_instantiateNamed name args
  | atCell iter _ ih => exact .atCell iter ih
  | call v args => exact hr.call v args
  | spawn v => exact makes_spawn hr v

end Run

end Catena
