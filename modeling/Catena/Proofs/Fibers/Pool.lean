import Catena.Proofs.Nesting
import Mathlib.Algebra.GroupWithZero.Nat

/-!
# Fibers among threads

Threads share their fibers. Each swap of the state of a fiber happens at once, but between two swaps
of one thread any other thread may come in. While a thread starts a fiber, goes on with one, or leaves
one, it holds it: the state has been swapped and the scope is not there yet, or the scope is gone and
the state is still to be swapped.

Scopes that a fiber runs in are counted wherever they are: on threads, in what lambdas and fibers were
left with, and in what threads hold. Together with the threads that hold it there is never more than
one for a fiber, and none unless it is marked as running (`Pool.Sound`). Each piece of work keeps it so.
-/

namespace Catena

/-! ## Counting -/

/-- One if the fiber runs in the scope. -/
def Scope.activations (f : Ref) (s : Scope) : Nat := if s.fiber = some f then 1 else 0

/-- How many of the scopes a fiber runs in. -/
def activationsIn (f : Ref) (scopes : Array Scope) : Nat :=
  (scopes.toList.map (Scope.activations f)).sum

namespace Coroutine

def activations (f : Ref) (c : Coroutine) : Nat := activationsIn f c.scopes

end Coroutine

/-- On a thread, and in what its lambdas were left with. -/
def Thread.activations (f : Ref) (t : Thread) : Nat :=
  activationsIn f t.scopes + (t.coros.entries.map fun e => e.2.activations f).sum

def FiberState.activations (f : Ref) : FiberState → Nat
  | .suspended coro => coro.activations f
  | _ => 0

/-- In what fibers were left with. -/
def Store.activations (f : Ref) (s : Store) : Nat :=
  (s.fibers.toList.map fun g => g.state.activations f).sum

/-- What a thread holds between two swaps: a fiber, and what it was left with. -/
structure Hold where
  fiber : Ref
  coro : Option Coroutine

namespace Hold

def activations (f : Ref) (h : Hold) : Nat := h.coro.elim 0 (·.activations f)

/-- One if it is this fiber that is held. -/
def token (f : Ref) (h : Hold) : Nat := if h.fiber = f then 1 else 0

end Hold

/-- A thread at work. -/
structure Worker where
  thread : Thread
  hold : Option Hold := none

namespace Worker

def activations (f : Ref) (w : Worker) : Nat :=
  w.thread.activations f + w.hold.elim 0 (·.activations f)

def token (f : Ref) (w : Worker) : Nat := w.hold.elim 0 (·.token f)

end Worker

section

variable {f : Ref} {t t' : Thread}

theorem activationsIn_push (f : Ref) (scopes : Array Scope) (s : Scope) :
    activationsIn f (scopes.push s) = activationsIn f scopes + s.activations f := by
  simp [activationsIn]

/-- What counts is which fiber each scope runs. -/
theorem activationsIn_congr {a b : Array Scope} (same : a.map Scope.fiber = b.map Scope.fiber) :
    activationsIn f a = activationsIn f b := by
  have counted (scopes : Array Scope) : activationsIn f scopes =
      ((scopes.map Scope.fiber).toList.map fun o => if o = some f then 1 else 0).sum := by
    rw [activationsIn, Array.toList_map, List.map_map]
    rfl
  rw [counted a, counted b, same]

theorem activationsIn_pop (f : Ref) (t : Thread) :
    activationsIn f t.scopes.pop + t.scope.activations f = activationsIn f t.scopes := by
  rw [Thread.scope, Array.back?_eq_getElem?, activationsIn, activationsIn, Array.toList_pop,
    ← Array.getElem?_toList, ← Array.length_toList]
  generalize t.scopes.toList = scopes
  induction scopes using List.reverseRecOn with
  | nil => rfl
  | append_singleton scopes s _ => simp

theorem cut_activations {i : Nat} {head : Scope} (found : t.scopes[i]? = some head) (lambda : Nat) :
    activationsIn f (t.cut i head lambda).2.scopes +
      ((t.cut i head lambda).1.activations f + head.activations f) = activationsIn f t.scopes := by
  have upper : (t.cut i head lambda).1.activations f =
      ((t.scopes.toList.drop (i + 1)).map (Scope.activations f)).sum := by
    rw [Coroutine.activations, activationsIn, Thread.cut_scopes found, List.map_cons, List.map_map,
      List.sum_cons]
    have none : Scope.activations f { head with stack := 0, callerEnv := none, fiber := none } = 0 := rfl
    rw [none, Nat.zero_add]
    rfl
  have lower : activationsIn f (t.cut i head lambda).2.scopes =
      ((t.scopes.toList.take i).map (Scope.activations f)).sum := by
    rw [activationsIn, Thread.cut, Thread.extract_lower]
  have parts := congrArg (fun l => (l.map (Scope.activations f)).sum)
    (List.take_append_drop i t.scopes.toList)
  rw [← Array.getElem?_toList] at found
  simp only [List.map_append, List.sum_append, Thread.parted found, List.map_cons, List.sum_cons] at parts
  rw [upper, lower, activationsIn]
  omega

theorem graft_activations (f : Ref) (t : Thread) (coro : Coroutine) (retPc : Nat) (fiber : Option Ref) :
    activationsIn f (t.graft coro retPc fiber).scopes ≤
      activationsIn f t.scopes + (coro.activations f + if fiber = some f then 1 else 0) := by
  cases all : coro.scopes.toList with
  | nil =>
    have none : coro.scopes = #[] := Array.toList_eq_nil_iff.1 all
    simp [Thread.graft, none]
  | cons head rest =>
    rw [activationsIn, Thread.graft_scopes all, activationsIn, Coroutine.activations, activationsIn, all]
    simp only [List.map_append, List.sum_append, List.map_cons, List.sum_cons, List.map_map]
    have upper : (rest.map (Scope.activations f ∘ fun s =>
        { s with stack := s.stack + (t.valueStacks.size - 1) })) = rest.map (Scope.activations f) := rfl
    rw [upper]
    simp only [Scope.activations]
    omega

/-- Writing to a slot that lambdas are left in adds no more than what is written. -/
theorem sum_insert_le (weight : Coroutine → Nat) (coros : Dict Nat Coroutine) (id : Nat)
    (coro : Coroutine) :
    ((coros.insert id coro).entries.map fun e => weight e.2).sum ≤
      (coros.entries.map fun e => weight e.2).sum + weight coro := by
  show ((Dict.put id coro coros.entries).map fun e => weight e.2).sum ≤ _
  generalize coros.entries = entries
  induction entries with
  | nil => simp [Dict.put]
  | cons e entries ih =>
    rw [Dict.put]
    split
    · simp only [List.map_cons, List.sum_cons]
      omega
    · simp only [List.map_cons, List.sum_cons]
      omega

theorem sum_filter_le {γ : Type} (weight : γ → Nat) (p : γ → Bool) (xs : List γ) :
    ((xs.filter p).map weight).sum ≤ (xs.map weight).sum := by
  induction xs with
  | nil => exact Nat.le_refl 0
  | cons x xs ih =>
    rw [List.filter_cons]
    split
    · simp only [List.map_cons, List.sum_cons]
      omega
    · simp only [List.map_cons, List.sum_cons]
      omega

/-- Emptying a slot takes away what was in it. -/
theorem sum_erase_le (weight : Coroutine → Nat) {coros : Dict Nat Coroutine} {id : Nat}
    {coro : Coroutine} (found : coros.find? id = some coro) :
    ((coros.erase id).entries.map fun e => weight e.2).sum + weight coro ≤
      (coros.entries.map fun e => weight e.2).sum := by
  show ((coros.entries.filter fun e => e.1 ≠ id).map fun e => weight e.2).sum + weight coro ≤ _
  rw [Dict.find?] at found
  generalize coros.entries = entries at found
  induction entries with
  | nil => cases found
  | cons e entries ih =>
    rw [Dict.lookup] at found
    by_cases here : e.1 = id
    · obtain rfl : e.2 = coro := by simpa [here] using found
      have rest := sum_filter_le (fun e => weight e.2) (fun e => e.1 ≠ id) entries
      rw [List.filter_cons_of_neg (by simpa using here), List.map_cons, List.sum_cons]
      omega
    · have rest := ih (by simpa [here] using found)
      rw [List.filter_cons_of_pos (by simpa using here), List.map_cons, List.map_cons, List.sum_cons,
        List.sum_cons]
      omega

/-- A fiber that is marked gives up what it was left with and gets what the mark says. -/
theorem mark_activations {m : Machine} {g : Ref} {fiber : Fiber}
    (found : m.shared.store.fibers[g]? = some fiber) (state : FiberState) :
    (m.mark g state).shared.store.activations f + fiber.state.activations f =
      m.shared.store.activations f + state.activations f := by
  rw [Store.activations, Store.activations]
  simp only [Machine.mark, Machine.alterFibers, Array.toList_modify]
  rw [← Array.getElem?_toList] at found
  generalize m.shared.store.fibers.toList = fibers at found
  induction fibers generalizing g with
  | nil => simp at found
  | cons first fibers ih =>
    cases g with
    | zero =>
      obtain rfl : first = fiber := by simpa using found
      simp only [List.modify_zero_cons, List.map_cons, List.sum_cons]
      omega
    | succ g =>
      have rest := ih (g := g) (by simpa using found)
      simp only [List.modify_succ_cons, List.map_cons, List.sum_cons]
      omega

theorem mark_activations_none {m : Machine} {g : Ref}
    (missing : m.shared.store.fibers[g]? = none) (state : FiberState) : m.mark g state = m := by
  have same : m.shared.store.fibers.modify g (fun f => { f with state }) = m.shared.store.fibers := by
    apply Array.ext_getElem?
    intro i
    rw [Array.getElem?_modify]
    split
    next here => rw [← here, missing]; rfl
    next => rfl
  rw [Machine.mark, Machine.alterFibers, same]

end

/-! ## Work -/

/-- What is left of a fiber that was left in the middle. -/
def FiberState.coro? : FiberState → Option Coroutine
  | .suspended coro => some coro
  | _ => none

/-- One piece of work of a thread, from what it holds to what it holds then. The state of a fiber is
swapped by `take`, `put` and `keep`; nothing else of the work on fibers touches what is shared. -/
inductive Work (m : Machine) : Option Hold → Machine → Option Hold → Prop
  /-- Anything that is shared changes, save for the fibers. -/
  | shared (h : Option Hold) (s : Shared) (fibers : s.store.fibers = m.shared.store.fibers) :
      Work m h { m with shared := s } h
  /-- Anything on the thread changes, save for which fibers run in its scopes. -/
  | thread (h : Option Hold) (t : Thread)
      (scopes : t.scopes.map Scope.fiber = m.thread.scopes.map Scope.fiber)
      (coros : t.coros = m.thread.coros) : Work m h { m with thread := t } h
  | openScope (h : Option Hold) (t : Thread) (s : Scope) (alone : s.fiber = none)
      (scopes : t.scopes = m.thread.scopes.push s) (coros : t.coros = m.thread.coros) :
      Work m h { m with thread := t } h
  | closeScope (h : Option Hold) (keepTop : Bool) (alone : m.thread.scope.fiber = none) :
      Work m h { m with thread := (m.thread.closeScope keepTop).2 } h
  | suspendLambda (h : Option Hold) (i : Nat) (head : Scope) (id : Nat)
      (found : m.thread.scopes[i]? = some head) :
      Work m h { m with thread :=
        { (m.thread.cut i head id).2 with
          coros := m.thread.coros.insert id (m.thread.cut i head id).1 } } h
  | resumeLambda (h : Option Hold) (id : Nat) (coro : Coroutine) (retPc : Nat)
      (found : m.thread.coros.find? id = some coro) :
      Work m h { m with thread :=
        { m.thread with coros := m.thread.coros.erase id }.graft coro retPc none } h
  | dropLambda (h : Option Hold) (id : Nat) :
      Work m h { m with thread := { m.thread with coros := m.thread.coros.erase id } } h
  | newFiber (h : Option Hold) (id : Nat) (target : Value) :
      Work m h (m.alterFibers (·.push ⟨id, target, .fresh⟩)) h
  /-- A fiber that does not run is called. -/
  | take (f : Ref) (fiber : Fiber) (found : m.shared.store.fibers[f]? = some fiber)
      (stopped : fiber.state ≠ .running) :
      Work m none (m.mark f .running) (some ⟨f, fiber.state.coro?⟩)
  /-- The lambda of the fiber starts. -/
  | start (f : Ref) (c : Closure) (safety : Safety) (retPc : Nat) :
      Work m (some ⟨f, none⟩) { m with thread := m.thread.openFiber f c safety retPc } none
  /-- The fiber goes on with what it was left with. -/
  | goOn (f : Ref) (coro : Coroutine) (retPc : Nat) :
      Work m (some ⟨f, some coro⟩) { m with thread := m.thread.graft coro retPc (some f) } none
  /-- The fiber is over, or could not start and is what it was. -/
  | put (f : Ref) (coro : Option Coroutine) (state : FiberState)
      (idle : state = .fresh ∨ state = .done) : Work m (some ⟨f, coro⟩) (m.mark f state) none
  /-- The scope that a fiber runs in closes. -/
  | leave (f : Ref) (keepTop : Bool) (runs : m.thread.scope.fiber = some f) :
      Work m none { m with thread := (m.thread.closeScope keepTop).2 } (some ⟨f, none⟩)
  /-- The fiber is left in the middle. -/
  | cut (f : Ref) (i : Nat) (head : Scope) (id : Nat) (found : m.thread.scopes[i]? = some head)
      (runs : head.fiber = some f) :
      Work m none { m with thread := (m.thread.cut i head id).2 }
        (some ⟨f, some (m.thread.cut i head id).1⟩)
  /-- What the fiber was left with is put away. -/
  | keep (f : Ref) (coro : Coroutine) : Work m (some ⟨f, some coro⟩) (m.mark f (.suspended coro)) none
  /-- The thread comes to an end with a fiber in its hands. -/
  | forget (h : Hold) : Work m (some h) m none

/-! ## What work keeps -/

/-- The fiber is marked as running. -/
def Store.Runs (s : Store) (f : Ref) : Prop :=
  ∃ fiber, s.fibers[f]? = some fiber ∧ fiber.state = .running

/-- What counts for a fiber where a thread works, and what it holds. -/
def Machine.weight (f : Ref) (m : Machine) (h : Option Hold) : Nat :=
  m.thread.activations f + h.elim 0 (·.activations f) + h.elim 0 (·.token f) +
    m.shared.store.activations f

/-- With what counts elsewhere, no fiber has more than one scope to run in or thread to hold it, and
none that is not marked as running has any. -/
def Machine.SoundWith (rest : Ref → Nat) (m : Machine) (h : Option Hold) : Prop :=
  ∀ f, rest f + m.weight f h ≤ 1 ∧ (rest f + m.weight f h ≠ 0 → m.shared.store.Runs f)

section

variable {f g : Ref} {m n : Machine} {h k : Option Hold} {rest : Ref → Nat}

theorem Store.Runs.mark (runs : m.shared.store.Runs g) {state : FiberState} (apart : g ≠ f) :
    (m.mark f state).shared.store.Runs g := by
  obtain ⟨fiber, found, running⟩ := runs
  refine ⟨fiber, ?_, running⟩
  rw [← found]
  exact Thread.Drift.getElem?_modify_ne _ _ apart

/-- Work that does not add to what counts, and swaps no state. -/
theorem Machine.SoundWith.less (sound : m.SoundWith rest h)
    (weight : ∀ f, n.weight f k ≤ m.weight f h)
    (runs : ∀ f, m.shared.store.Runs f → n.shared.store.Runs f) : n.SoundWith rest k := by
  intro f
  obtain ⟨one, running⟩ := sound f
  have less := weight f
  exact ⟨by omega, fun some => runs f (running (by omega))⟩

/-- A swap gives away the fiber that is held. -/
theorem Machine.SoundWith.give {hold : Hold} {state : FiberState} (sound : m.SoundWith rest (some hold))
    (weight : ∀ f, (m.mark hold.fiber state).weight f none + hold.token f ≤ m.weight f (some hold)) :
    (m.mark hold.fiber state).SoundWith rest none := by
  intro f
  obtain ⟨one, running⟩ := sound f
  have less := weight f
  by_cases same : hold.fiber = f
  · have token : hold.token f = 1 := if_pos same
    exact ⟨by omega, fun some => by omega⟩
  · have token : hold.token f = 0 := if_neg same
    exact ⟨by omega, fun some => (running (by omega)).mark (Ne.symm same)⟩

theorem Thread.closeScope_scopes (t : Thread) (keepTop : Bool) :
    (t.closeScope keepTop).2.scopes = t.scopes.pop ∧ (t.closeScope keepTop).2.coros = t.coros := by
  rw [Thread.closeScope_eq]
  exact ⟨rfl, rfl⟩

/-- Work keeps the counts. -/
theorem Work.sound (work : Work m h n k) (sound : m.SoundWith rest h) : n.SoundWith rest k := by
  cases work with
  | shared h s fibers =>
    refine sound.less (fun f => ?_) fun f runs => ?_
    · simp only [Machine.weight, Store.activations, fibers]
      exact Nat.le_refl _
    · rw [Store.Runs, fibers]
      exact runs
  | thread h t scopes coros =>
    refine sound.less (fun f => ?_) fun f runs => runs
    simp only [Machine.weight, Thread.activations, activationsIn_congr scopes, coros]
    exact Nat.le_refl _
  | openScope h t s alone scopes coros =>
    refine sound.less (fun f => ?_) fun f runs => runs
    have none : s.activations f = 0 := by simp [Scope.activations, alone]
    simp only [Machine.weight, Thread.activations, scopes, activationsIn_push, none, coros]
    exact Nat.le_refl _
  | closeScope h keepTop alone =>
    refine sound.less (fun f => ?_) fun f runs => runs
    obtain ⟨scopes, coros⟩ := m.thread.closeScope_scopes keepTop
    have pop := activationsIn_pop f m.thread
    simp only [Machine.weight, Thread.activations, scopes, coros]
    omega
  | suspendLambda h i head id found =>
    refine sound.less (fun f => ?_) fun f runs => runs
    have parts := cut_activations (f := f) found id
    have slot := sum_insert_le (Coroutine.activations f) m.thread.coros id
      (m.thread.cut i head id).1
    simp only [Machine.weight, Thread.activations]
    omega
  | resumeLambda h id coro retPc found =>
    refine sound.less (fun f => ?_) fun f runs => runs
    have upper := graft_activations f { m.thread with coros := m.thread.coros.erase id } coro retPc none
    have slot := sum_erase_le (Coroutine.activations f) found
    have coros : ({ m.thread with coros := m.thread.coros.erase id }.graft coro retPc none).coros =
      m.thread.coros.erase id := rfl
    simp only [reduceCtorEq, if_false] at upper
    simp only [Machine.weight, Thread.activations, coros]
    omega
  | dropLambda h id =>
    refine sound.less (fun f => ?_) fun f runs => runs
    have fewer := sum_filter_le (fun e => Coroutine.activations f e.2) (fun e => e.1 ≠ id)
      m.thread.coros.entries
    simp only [Machine.weight, Thread.activations, Dict.erase]
    omega
  | newFiber h id target =>
    refine sound.less (fun f => ?_) fun f runs => ?_
    · simp [Machine.weight, Machine.alterFibers, Store.activations, FiberState.activations]
    · obtain ⟨fiber, found, running⟩ := runs
      refine ⟨fiber, ?_, running⟩
      have inside := (Array.getElem?_eq_some_iff.1 found).1
      simp only [Machine.alterFibers]
      rw [Array.getElem?_push_lt inside, ← found, Array.getElem?_eq_getElem inside]
  | take f fiber found stopped =>
    intro g
    obtain ⟨one, running⟩ := sound g
    have store := mark_activations (f := g) found .running
    have coroutine : fiber.state.coro?.elim 0 (·.activations g) = fiber.state.activations g := by
      cases fiber.state <;> rfl
    have weight : (m.mark f .running).weight g (some ⟨f, fiber.state.coro?⟩) =
        m.weight g none + if f = g then 1 else 0 := by
      have mark : (m.mark f .running).thread = m.thread := rfl
      have none : FiberState.activations g .running = 0 := rfl
      simp only [Machine.weight, Option.elim_some, Option.elim_none, Hold.activations, Hold.token,
        coroutine, mark]
      omega
    by_cases same : f = g
    · subst same
      have idle : ¬ m.shared.store.Runs f := by
        rintro ⟨fiber', found', running'⟩
        obtain rfl := Option.some.inj (found.symm.trans found')
        exact stopped running'
      have none : rest f + m.weight f none = 0 := by
        by_contra some
        exact idle (running some)
      have runs : (m.mark f .running).shared.store.Runs f := by
        refine ⟨{ fiber with state := .running }, ?_, rfl⟩
        simp only [Machine.mark, Machine.alterFibers, Array.getElem?_modify, if_true, found,
          Option.map_some]
      rw [weight, if_pos rfl]
      exact ⟨by omega, fun _ => runs⟩
    · rw [weight, if_neg same]
      exact ⟨one, fun some => (running some).mark (Ne.symm same)⟩
  | start f c safety retPc =>
    refine sound.less (fun g => ?_) fun g runs => runs
    have pushed := activationsIn_push g m.thread.scopes
      { Scope.lambda c safety (m.thread.valueStacks.size - 1) retPc m.thread.env with fiber := some f }
    simp only [Scope.activations, Option.some.injEq] at pushed
    simp only [Machine.weight, Thread.activations, Thread.openFiber, Thread.openLambda, pushed,
      Option.elim_some, Option.elim_none, Hold.activations, Hold.token]
    omega
  | goOn f coro retPc =>
    refine sound.less (fun g => ?_) fun g runs => runs
    have upper := graft_activations g m.thread coro retPc (some f)
    have coros : (m.thread.graft coro retPc (some f)).coros = m.thread.coros := rfl
    simp only [Option.some.injEq] at upper
    simp only [Machine.weight, Thread.activations, coros, Option.elim_some, Option.elim_none,
      Hold.activations, Hold.token]
    omega
  | put f coro state idle =>
    refine sound.give fun g => ?_
    have none : state.activations g = 0 := by
      rcases idle with rfl | rfl <;> rfl
    have store : (m.mark f state).shared.store.activations g ≤ m.shared.store.activations g := by
      cases found : m.shared.store.fibers[f]? with
      | none => rw [mark_activations_none found]
      | some fiber =>
        have marked := mark_activations (f := g) found state
        omega
    have mark : (m.mark f state).thread = m.thread := rfl
    simp only [Machine.weight, Option.elim_some, Option.elim_none, mark]
    omega
  | leave f keepTop runs =>
    refine sound.less (fun g => ?_) fun g runs => runs
    obtain ⟨scopes, coros⟩ := m.thread.closeScope_scopes keepTop
    have pop := activationsIn_pop g m.thread
    simp only [Scope.activations, runs, Option.some.injEq] at pop
    simp only [Machine.weight, Thread.activations, scopes, coros, Option.elim_some, Option.elim_none,
      Hold.activations, Hold.token]
    omega
  | cut f i head id found runs =>
    refine sound.less (fun g => ?_) fun g runs => runs
    have parts := cut_activations (f := g) found id
    have coros : (m.thread.cut i head id).2.coros = m.thread.coros := rfl
    simp only [Scope.activations, runs, Option.some.injEq] at parts
    simp only [Machine.weight, Thread.activations, coros, Option.elim_some, Option.elim_none,
      Hold.activations, Hold.token]
    omega
  | keep f coro =>
    refine sound.give fun g => ?_
    have store : (m.mark f (.suspended coro)).shared.store.activations g ≤
        m.shared.store.activations g + coro.activations g := by
      cases found : m.shared.store.fibers[f]? with
      | none =>
        rw [mark_activations_none found]
        omega
      | some fiber =>
        have marked := mark_activations (f := g) found (.suspended coro)
        have put : FiberState.activations g (.suspended coro) = coro.activations g := rfl
        omega
    have mark : (m.mark f (.suspended coro)).thread = m.thread := rfl
    simp only [Machine.weight, Option.elim_some, Option.elim_none, Hold.activations, mark]
    omega
  | forget hold =>
    refine sound.less (fun g => ?_) fun g runs => runs
    simp only [Machine.weight, Option.elim_some, Option.elim_none]
    omega

end

end Catena
