import Catena.Proofs.Fibers.Pool

/-!
# One activation of a fiber

However the work of the threads of an engine is interleaved, a fiber runs in one scope at most, and in
none unless it is marked as running (`Pool.Reached.one_activation`). What the threads do is work of
this kind, whatever program they run, so each machine that is reached is one of the threads of a pool
that is reached.
-/

namespace Catena

/-- What is shared, and the threads that share it. -/
structure Pool where
  shared : Shared
  workers : List Worker

namespace Pool

/-- How many scopes a fiber runs in. -/
def activations (f : Ref) (P : Pool) : Nat :=
  (P.workers.map (Worker.activations f)).sum + P.shared.store.activations f

/-- How many threads hold a fiber. -/
def tokens (f : Ref) (P : Pool) : Nat := (P.workers.map (Worker.token f)).sum

/-- One of the threads works, starts another one, or comes to an end. -/
inductive Step (P : Pool) : Pool → Prop
  | work (i : Nat) (t : Thread) (h : Option Hold) (n : Machine) (k : Option Hold)
      (there : P.workers[i]? = some ⟨t, h⟩) (work : Work ⟨P.shared, t⟩ h n k) :
      Step P ⟨n.shared, P.workers.set i ⟨n.thread, k⟩⟩
  | spawn (i id : Nat) (w : Worker) (there : P.workers[i]? = some w) :
      Step P { P with workers := P.workers ++ [⟨w.thread.fork id, none⟩] }
  | finish (i : Nat) : Step P { P with workers := P.workers.eraseIdx i }

/-- Steps one after the other, of whichever threads, and the handles of which some thread has taken what
they held. Nothing else happens to what a handle holds. -/
inductive Goes (P : Pool) : List Ref → Pool → Prop
  | refl : Goes P [] P
  | tail {ts : List Ref} {Q R : Pool} : Goes P ts Q → Q.Step R →
      Q.shared.store.SameThreads R.shared.store → Goes P ts R
  | take {ts : List Ref} {Q : Pool} (i : Nat) (w : Worker) (t : Ref) (handle : ThreadHandle)
      (outcome : Except Fault (Array Value)) : Goes P ts Q → Q.workers[i]? = some w →
      Q.shared.store.threads[t]? = some handle → handle.outcome = some outcome →
      Goes P (ts ++ [t]) { Q with shared := { Q.shared with store := Q.shared.store.takeOutcome t } }

/-- The pools that an engine comes to. -/
inductive Reached : Pool → Prop
  | new (config : Config) (log : Log.Logger) (host : Host) :
      Reached ⟨(Engine.new config log host).shared, [⟨(Engine.new config log host).thread, none⟩]⟩
  | step {P Q : Pool} : Reached P → P.Step Q → Reached Q

/-- No fiber has more than one scope to run in or thread to hold it, and none that is not marked as
running has any. -/
def Sound (P : Pool) : Prop :=
  ∀ f, P.activations f + P.tokens f ≤ 1 ∧
    (P.activations f + P.tokens f ≠ 0 → P.shared.store.Runs f)

variable {P Q R : Pool}

theorem Goes.trans {ts us : List Ref} (h : P.Goes ts Q) (k : Q.Goes us R) : P.Goes (ts ++ us) R := by
  induction k with
  | refl =>
    rw [List.append_nil]
    exact h
  | tail _ step same ih => exact ih.tail step same
  | take i w t handle outcome _ there found left ih =>
    rw [← List.append_assoc]
    exact ih.take i w t handle outcome there found left

/-- To take what a handle holds is work of the thread that does it. -/
theorem step_take {i : Nat} {w : Worker} (there : P.workers[i]? = some w) (t : Ref) :
    P.Step { P with shared := { P.shared with store := P.shared.store.takeOutcome t } } := by
  obtain ⟨inside, same⟩ := List.getElem?_eq_some_iff.1 there
  have step := Step.work i w.thread w.hold _ w.hold there
    (.shared w.hold { P.shared with store := P.shared.store.takeOutcome t } rfl)
  have back : P.workers.set i ⟨w.thread, w.hold⟩ = P.workers := by
    rw [← same, List.set_getElem_self]
  rwa [back] at step

theorem Reached.goes {ts : List Ref} (h : P.Reached) (k : P.Goes ts Q) : Q.Reached := by
  induction k with
  | refl => exact h
  | tail _ step _ ih => exact ih.step step
  | take i w t handle outcome _ there found left ih => exact ih.step (step_take there t)

/-! ## What steps keep -/

theorem sum_eraseIdx {γ : Type} (weight : γ → Nat) {xs : List γ} {i : Nat} {x : γ}
    (there : xs[i]? = some x) :
    ((xs.eraseIdx i).map weight).sum + weight x = (xs.map weight).sum := by
  induction xs generalizing i with
  | nil => simp at there
  | cons y xs ih =>
    cases i with
    | zero =>
      obtain rfl : y = x := by simpa using there
      simp only [List.eraseIdx_cons_zero, List.map_cons, List.sum_cons]
      omega
    | succ i =>
      have others := ih (by simpa using there)
      simp only [List.eraseIdx_cons_succ, List.map_cons, List.sum_cons]
      omega

/-- What counts on all threads but one. -/
def others (P : Pool) (i : Nat) (f : Ref) : Nat :=
  ((P.workers.eraseIdx i).map (Worker.activations f)).sum +
    ((P.workers.eraseIdx i).map (Worker.token f)).sum

theorem others_weight {i : Nat} {t : Thread} {h : Option Hold} (there : P.workers[i]? = some ⟨t, h⟩)
    (f : Ref) : P.others i f + Machine.weight f ⟨P.shared, t⟩ h = P.activations f + P.tokens f := by
  have scopes := sum_eraseIdx (Worker.activations f) there
  have holds := sum_eraseIdx (Worker.token f) there
  simp only [Worker.activations, Worker.token] at scopes holds
  simp only [others, Machine.weight, activations, tokens]
  omega

/-- The counts are in order as a thread sees them. -/
theorem sound_iff {i : Nat} {t : Thread} {h : Option Hold} (there : P.workers[i]? = some ⟨t, h⟩) :
    P.Sound ↔ Machine.SoundWith (P.others i) ⟨P.shared, t⟩ h := by
  constructor
  · intro sound f
    rw [others_weight there]
    exact sound f
  · intro sound f
    rw [← others_weight there]
    exact sound f

theorem Step.sound (step : P.Step Q) (sound : P.Sound) : Q.Sound := by
  cases step with
  | work i t h n k there work =>
    have inside : i < P.workers.length := (List.getElem?_eq_some_iff.1 there).1
    have after : (P.workers.set i ⟨n.thread, k⟩)[i]? = some ⟨n.thread, k⟩ :=
      List.getElem?_set_self inside
    have same : others ⟨n.shared, P.workers.set i ⟨n.thread, k⟩⟩ i = P.others i := by
      funext f
      simp only [others, List.eraseIdx_set_eq]
    rw [sound_iff after, same]
    exact work.sound ((sound_iff there).1 sound)
  | spawn i id w there =>
    intro f
    have none : Worker.activations f ⟨w.thread.fork id, none⟩ = 0 := by
      simp [Worker.activations, Thread.activations, Thread.fork, activationsIn, Scope.activations,
        Scope.root, EmptyCollection.emptyCollection]
    have counts : activations f { P with workers := P.workers ++ [⟨w.thread.fork id, .none⟩] } =
        P.activations f := by
      simp [activations, none]
    have holds : tokens f { P with workers := P.workers ++ [⟨w.thread.fork id, .none⟩] } =
        P.tokens f := by
      simp [tokens, Worker.token]
    rw [counts, holds]
    exact sound f
  | finish i =>
    cases there : P.workers[i]? with
    | none =>
      have same : P.workers.eraseIdx i = P.workers :=
        List.eraseIdx_of_length_le (List.getElem?_eq_none_iff.1 there)
      rw [same]
      exact sound
    | some w =>
      intro f
      obtain ⟨one, runs⟩ := sound f
      have scopes := sum_eraseIdx (Worker.activations f) there
      have holds := sum_eraseIdx (Worker.token f) there
      simp only [activations, tokens] at one runs ⊢
      exact ⟨by omega, fun some => runs (by omega)⟩

theorem sound_new (config : Config) (log : Log.Logger) (host : Host) :
    Sound ⟨(Engine.new config log host).shared, [⟨(Engine.new config log host).thread, none⟩]⟩ := by
  intro f
  have fibers : (Engine.new config log host).shared.store.fibers = #[] :=
    (new_drift config log host).fibers
  have none : activations f
      ⟨(Engine.new config log host).shared, [⟨(Engine.new config log host).thread, none⟩]⟩ = 0 := by
    simp only [activations, Store.activations, fibers]
    rfl
  rw [none]
  exact ⟨Nat.zero_le 1, fun some => absurd rfl some⟩

theorem Reached.sound (h : P.Reached) : P.Sound := by
  induction h with
  | new config log host => exact sound_new config log host
  | step _ step ih => exact step.sound ih

end Pool

/-! ## What runs do -/

/-- Work that begins with nothing held and takes nothing from a handle. -/
inductive Works (m : Machine) : Machine → Option Hold → Prop
  | refl : Works m m none
  | tail {n p : Machine} {h k : Option Hold} : Works m n h → Work n h p k →
      n.shared.store.SameThreads p.shared.store → Works m p k

theorem mark_mark (m : Machine) (f : Ref) (state state' : FiberState) :
    (m.mark f state).mark f state' = m.mark f state' := by
  have same : (m.shared.store.fibers.modify f fun f => { f with state }).modify f
      (fun f => { f with state := state' }) =
      m.shared.store.fibers.modify f fun f => { f with state := state' } := by
    apply Array.ext_getElem?
    intro i
    simp only [Array.getElem?_modify]
    split
    · cases m.shared.store.fibers[i]? <;> rfl
    · rfl
  simp only [Machine.mark, Machine.alterFibers, same]

theorem Thread.Calm.fibers {t t' : Thread} (h : t.Calm t') :
    t'.scopes.map Scope.fiber = t.scopes.map Scope.fiber := by
  have same := congrArg (Array.map Scope.fiber) h.scopes
  rw [Array.map_map, Array.map_map] at same
  exact same

theorem Thread.bind_fibers (t : Thread) (name : String) (v : Value) :
    (t.bind name v).scopes.map Scope.fiber = t.scopes.map Scope.fiber :=
  Drift.map_modify t.scopes _ (fun s => { s with bound := (name, t.env.find? name) :: s.bound }) _
    fun _ => rfl

theorem Thread.restart_fibers (t : Thread) (i : Nat) (c : Closure) :
    (t.restart i c).scopes.map Scope.fiber = t.scopes.map Scope.fiber :=
  Drift.map_modify t.scopes i (fun s => { s with bound := [], loops := ∅ }) _ fun _ => rfl

section

variable {m n p : Machine} {h k : Option Hold}

theorem Work.works (work : Work m none n h)
    (same : m.shared.store.SameThreads n.shared.store := by exact .refl _) : Works m n h :=
  .tail .refl work same

/-- A fiber that is taken is put back. -/
theorem works_mark {f : Ref} (stopped : m.Stopped f) (put : ∀ coro,
    Work (m.mark f .running) (some ⟨f, coro⟩) n none)
    (same : (m.mark f .running).shared.store.SameThreads n.shared.store)
    (missing : m.shared.store.fibers[f]? = none → n = m) : Works m n none := by
  cases found : m.shared.store.fibers[f]? with
  | none =>
    rw [missing found]
    exact .refl
  | some fiber => exact (Work.take f fiber found (stopped fiber found)).works.tail (put _) same

/-- A deed is work that begins and ends with nothing held, or takes what a handle holds. -/
theorem Deed.works {top : Safety} (deed : Deed False top m n) : Works m n none ∨
    ∃ t handle outcome, m.shared.store.threads[t]? = some handle ∧ handle.outcome = some outcome ∧
      n = { m with shared := { m.shared with store := m.shared.store.takeOutcome t } } := by
  cases deed with
  | takeOutcome t handle outcome found left => exact .inr ⟨t, handle, outcome, found, left, rfl⟩
  | shared s h threads => exact .inl ((Work.shared none s h.fibers).works threads)
  | thread t h coros => exact .inl (Work.thread none t h.fibers coros).works
  | newFiber id target => exact .inl (Work.newFiber none id target).works
  | remember imp name imps known member => exact .inl (Work.works (.thread none _ rfl rfl))
  | bind name v => exact .inl (Work.thread none _ (m.thread.bind_fibers name v) rfl).works
  | openBlock ownStack safety room stack level => exact .inl (Work.works (.openScope none _ _ rfl rfl rfl))
  | openTry frame room h => exact .inl (Work.works (.openScope none _ _ rfl rfl rfl))
  | openLambda c safety retPc room stack level => exact .inl (Work.works (.openScope none _ _ rfl rfl rfl))
  | startFiber f c safety retPc known idle room stack level =>
    left
    have found := Array.getElem?_eq_getElem known
    have taken := Work.take f _ found (idle.stopped _ found)
    have fresh : (m.shared.store.fibers[f]).state.coro? = none := by
      rcases idle _ found with state | state <;> rw [state] <;> rfl
    rw [fresh] at taken
    exact taken.works.tail (.start f c safety retPc) (.refl _)
  | endFiber f stopped =>
    left
    refine works_mark stopped (fun coro => ?_) (.refl _) fun missing => mark_activations_none missing _
    rw [← mark_mark m f .running .done]
    exact .put f coro .done (.inr rfl)
  | strandFiber f stopped =>
    left
    exact works_mark stopped (fun coro => .forget _) (.refl _) fun missing =>
      mark_activations_none missing _
  | close keepTop _ alone => exact .inl (Work.closeScope none keepTop alone).works
  | closeFiber keepTop f _ runs =>
    exact .inl ((Work.leave f keepTop runs).works.tail (.put f none .done (.inr rfl)) (.refl _))
  | restart i c innermost called =>
    exact .inl (Work.thread none _ (m.thread.restart_fibers i c) rfl).works
  | suspendLambda i head callee found called _ =>
    exact .inl (Work.suspendLambda none i head callee.body.id found).works
  | suspendFiber i head callee f found called runs =>
    exact .inl ((Work.cut f i head callee.body.id found runs).works.tail (.keep f _) (.refl _))
  | resumeLambda id coro retPc found room stack =>
    exact .inl (Work.resumeLambda none id coro retPc found).works
  | dropLambda id coro found refused => exact .inl (Work.dropLambda none id).works
  | resumeFiber f fiber coro retPc found left room stack =>
    have taken := Work.take f fiber found (by rw [left]; nofun)
    rw [left] at taken
    exact .inl (taken.works.tail (.goOn f coro retPc) (.refl _))

end

namespace Pool

variable {P Q : Pool}

/-- The pool with what one of its threads has come to, and others that have been started. -/
def after (P : Pool) (i : Nat) (n : Machine) (h : Option Hold) (started : List Worker) : Pool :=
  ⟨n.shared, P.workers.set i ⟨n.thread, h⟩ ++ started⟩

theorem after_there {i : Nat} {w : Worker} (there : P.workers[i]? = some w) (n : Machine)
    (h : Option Hold) (started : List Worker) :
    (P.after i n h started).workers[i]? = some ⟨n.thread, h⟩ := by
  have inside : i < P.workers.length := (List.getElem?_eq_some_iff.1 there).1
  rw [after, List.getElem?_append_left (by simpa using inside), List.getElem?_set_self inside]

theorem after_after {i : Nat} {w : Worker} (there : P.workers[i]? = some w) (n p : Machine)
    (h k : Option Hold) (started more : List Worker) :
    (P.after i n h started).after i p k more = P.after i p k (started ++ more) := by
  have inside : i < P.workers.length := (List.getElem?_eq_some_iff.1 there).1
  rw [after, after, after, List.set_append_left _ _ (by simpa using inside), List.set_set,
    List.append_assoc]

theorem after_same {i : Nat} {t : Thread} {h : Option Hold} (there : P.workers[i]? = some ⟨t, h⟩) :
    P.after i ⟨P.shared, t⟩ h [] = P := by
  obtain ⟨inside, same⟩ := List.getElem?_eq_some_iff.1 there
  rw [after, List.append_nil, ← same, List.set_getElem_self]

/-- The work of one thread is steps of the pool. -/
theorem goes_works {i : Nat} {t : Thread} (there : P.workers[i]? = some ⟨t, none⟩) {n : Machine}
    {h : Option Hold} (works : Works ⟨P.shared, t⟩ n h) : P.Goes [] (P.after i n h []) := by
  induction works with
  | refl =>
    rw [after_same there]
    exact .refl
  | @tail n p h k _ work same ih =>
    have step : (P.after i n h []).Step ((P.after i n h []).after i p k []) := by
      show Step _ ⟨p.shared, (P.after i n h []).workers.set i ⟨p.thread, k⟩ ++ []⟩
      rw [List.append_nil]
      exact .work i n.thread h p k (after_there there n h []) work
    rw [after_after there] at step
    exact ih.tail step same

/-- A deed of one thread is steps of the pool. -/
theorem goes_deed {i : Nat} {t : Thread} (there : P.workers[i]? = some ⟨t, none⟩) {top : Safety}
    {n : Machine} (deed : Deed False top ⟨P.shared, t⟩ n) : ∃ ts, P.Goes ts (P.after i n none []) := by
  rcases deed.works with works | ⟨ref, handle, outcome, found, left, rfl⟩
  · exact ⟨[], goes_works there works⟩
  · have taken := Goes.refl.take i _ ref handle outcome there found left
    have same : P.after i ⟨{ P.shared with store := P.shared.store.takeOutcome ref }, t⟩ none [] =
        { P with shared := { P.shared with store := P.shared.store.takeOutcome ref } } := by
      obtain ⟨inside, same⟩ := List.getElem?_eq_some_iff.1 there
      rw [after, List.append_nil, ← same, List.set_getElem_self]
    exact ⟨_, same ▸ taken⟩

/-- What one thread does in a run is steps of the pool, those of the threads it starts among them. -/
theorem goes_deeds {m n : Machine} (deeds : Deeds False m n) {i : Nat} (shared : P.shared = m.shared)
    (there : P.workers[i]? = some ⟨m.thread, none⟩) :
    ∃ ts started, P.Goes ts (P.after i n none started) := by
  induction deeds generalizing P i with
  | refl m =>
    refine ⟨[], [], ?_⟩
    have same := after_same there
    rw [shared] at same
    rw [same]
    exact .refl
  | @next m n p q _ _ deed first second =>
    obtain ⟨ts, started, goes⟩ := first shared there
    obtain ⟨us, more, goes'⟩ := second rfl (after_there there n none started)
    rw [after_after there] at goes'
    obtain ⟨vs, last⟩ := goes_deed (after_there there p none (started ++ more)) deed
    rw [after_after there] at last
    exact ⟨_, _, (goes.trans goes').trans last⟩
  | @fork m n p id _ _ first child =>
    obtain ⟨ts, started, goes⟩ := first shared there
    let Q := P.after i n none started
    have spawn := Step.spawn i id _ (after_there there n none started)
    have new : (Q.workers ++ [⟨n.thread.fork id, none⟩])[Q.workers.length]? =
        some ⟨n.thread.fork id, none⟩ := by simp
    obtain ⟨us, more, goes'⟩ := child
      (P := { Q with workers := Q.workers ++ [⟨n.thread.fork id, none⟩] }) rfl new
    refine ⟨ts ++ us, started ++ [⟨p.thread, none⟩] ++ more, (goes.tail spawn (.refl _)).trans ?_⟩
    have same : after { Q with workers := Q.workers ++ [⟨n.thread.fork id, none⟩] } Q.workers.length p
        none more = P.after i { p with thread := n.thread } none (started ++ [⟨p.thread, none⟩] ++ more) := by
      have last : (Q.workers ++ [Worker.mk (n.thread.fork id) none]).set Q.workers.length
          (Worker.mk p.thread none) = Q.workers ++ [Worker.mk p.thread none] := by simp
      show Pool.mk p.shared (_ ++ more) = Pool.mk p.shared _
      rw [last]
      simp only [Q, after, List.append_assoc]
    rw [← same]
    exact goes'

/-- Compiling is steps of the pool. -/
theorem goes_compile {i : Nat} {t : Thread} (there : P.workers[i]? = some ⟨t, none⟩) (text : String) :
    ∃ ts started, P.Goes ts (P.after i ((Run.compile text).after ⟨P.shared, t⟩) none started) := by
  rcases Run.compile_deeds text ⟨P.shared, t⟩ with deeds | ⟨code, c, -, before, after⟩
  · exact goes_deeds deeds rfl there
  · obtain ⟨ts, started, goes⟩ := goes_deeds before rfl there
    have first := after_there there ⟨c.shared, t⟩ none started
    have longer := goes_works first
      (Work.works (.thread none { t with ops := t.ops ++ code.ops.toArray } rfl rfl))
    rw [after_after there] at longer
    have second := after_there there ⟨c.shared, { t with ops := t.ops ++ code.ops.toArray }⟩ none
      (started ++ [])
    obtain ⟨us, more, goes'⟩ := goes_deeds after rfl second
    rw [after_after there] at goes'
    exact ⟨_, _, (goes.trans longer).trans goes'⟩

/-- However the work of threads is interleaved, a fiber runs in one scope at most, and only while it is
marked as running; a call of a fiber that runs is refused and changes nothing; and whatever one of the
threads compiles and runs comes to such a pool again. -/
theorem Reached.one_activation (h : P.Reached) :
    (∀ f, P.activations f ≤ 1 ∧ (P.activations f = 1 → P.shared.store.Runs f)) ∧
    (∀ f fiber, P.shared.store.fibers[f]? = some fiber → fiber.state ≠ .running →
      P.activations f = 0) ∧
    (∀ f t v r retPc, P.shared.store.Runs f → v.ty.behavior = .fiber → v.payload = .fiber f →
      ∃ e : Fault, e.kind = .thread ∧
        Run.callOnce r v retPc ⟨P.shared, t⟩ = .error (.fault e) ⟨P.shared, t⟩) ∧
    ∀ i t, P.workers[i]? = some ⟨t, none⟩ →
      (∀ text, ∃ started,
        (P.after i ((Run.compile text).after ⟨P.shared, t⟩) none started).Reached) ∧
      (∀ (w : Watch) stop, ∃ started,
        (P.after i ((w.runUntil stop).after ⟨P.shared, t⟩) none started).Reached) ∧
      (∀ (w : Watch) depth target, ∃ started,
        (P.after i (((w.reentry depth).runThread target).after ⟨P.shared, t⟩) none started).Reached) ∧
      ∀ (w : Watch) depth base op, op ∈ t.ops → ∃ started,
        (P.after i ((Run.step (w.reentry depth) base op).after ⟨P.shared, t⟩) none started).Reached := by
  have makes (w : Watch) (depth : Nat) : (w.reentry depth).Makes False :=
    w.makes_reentry False.elim depth
  have deeds {i : Nat} {t : Thread} (there : P.workers[i]? = some ⟨t, none⟩) {n : Machine}
      (deeds : Deeds False ⟨P.shared, t⟩ n) : ∃ started, (P.after i n none started).Reached := by
    obtain ⟨ts, started, goes⟩ := goes_deeds deeds rfl there
    exact ⟨started, h.goes goes⟩
  refine ⟨fun f => ?_, fun f fiber found stopped => ?_, fun f t v r retPc runs behavior payload => ?_,
    fun i t there => ⟨fun text => ?_, fun w stop => ?_, fun w depth target => ?_,
      fun w depth base op member => ?_⟩⟩
  · obtain ⟨one, runs⟩ := h.sound f
    exact ⟨by omega, fun some => runs (by omega)⟩
  · obtain ⟨-, runs⟩ := h.sound f
    by_contra some
    obtain ⟨fiber', found', running⟩ := runs (by omega)
    obtain rfl := Option.some.inj (found.symm.trans found')
    exact stopped running
  · obtain ⟨fiber, found, running⟩ := runs
    refine ⟨Fault.busyFiber fiber.id, rfl, ?_⟩
    simp only [Run.callOnce, behavior, payload]
    rw [Run.enterFiber, Run.bind_apply, Run.askStore, Run.askShared]
    simp only [found, Option.getD_some, running]
    rfl
  · obtain ⟨ts, started, goes⟩ := goes_compile there text
    exact ⟨started, h.goes goes⟩
  · exact deeds there (Watch.makes_runUntil False.elim stop _)
  · exact deeds there ((makes w depth).runThread target _)
  · exact deeds there (Run.step_deeds (makes w depth) base member)

end Pool

/-- Every machine that is reached is one of the threads of a pool that is reached. -/
theorem Reached.pooled {kind : Watch → Prop} {m : Machine} (h : Reached kind m) :
    ∃ (P : Pool) (i : Nat), P.Reached ∧ P.shared = m.shared ∧ P.workers[i]? = some ⟨m.thread, none⟩ := by
  have goOn {P : Pool} {i : Nat} {m n : Machine} {ts : List Ref} {started : List Worker}
      (reached : P.Reached) (there : P.workers[i]? = some ⟨m.thread, none⟩)
      (goes : P.Goes ts (P.after i n none started)) :
      ∃ (P : Pool) (i : Nat), P.Reached ∧ P.shared = n.shared ∧ P.workers[i]? = some ⟨n.thread, none⟩ :=
    ⟨_, i, reached.goes goes, rfl, Pool.after_there there n none started⟩
  induction h with
  | new config log host =>
    let P : Pool := ⟨(Engine.new config log host).shared, [⟨(Engine.new config log host).thread, none⟩]⟩
    have same : P.shared = (Engine.new config log host).shared := by simp only [P]
    exact ⟨P, 0, .new config log host, same, List.getElem?_cons_zero⟩
  | @compile m text _ ih =>
    obtain ⟨P, i, reached, shared, there⟩ := ih
    obtain ⟨ts, started, goes⟩ := Pool.goes_compile there text
    rw [shared] at goes
    exact goOn reached there goes
  | @define m name args safety f _ ih =>
    obtain ⟨P, i, reached, shared, there⟩ := ih
    have same := (addImp_drift m.shared name args safety (.native f)).fibers
    rw [← shared] at same
    have goes := Pool.goes_works there (Work.works (.shared none _ same) (addImp_threads _ _ _ _ _))
    rw [shared] at goes
    exact goOn reached there goes
  | @allow m safety _ ih =>
    obtain ⟨P, i, reached, shared, there⟩ := ih
    have same : (m.thread.setRootSafety safety).scopes.map Scope.fiber = m.thread.scopes.map Scope.fiber :=
      Thread.Drift.map_modify m.thread.scopes 0 (fun s => { s with safety }) _ fun _ => rfl
    have goes := Pool.goes_works there (Work.works (.thread none _ same rfl))
    rw [shared] at goes
    exact goOn reached there goes
  | @push m v _ ih =>
    obtain ⟨P, i, reached, shared, there⟩ := ih
    have calm := (Thread.Tidy.modifyStack (·.push v)).calm m.thread
    have goes := Pool.goes_works there
      (Work.works (.thread none _ calm.fibers ((Thread.Tidy.modifyStack (·.push v)).coros m.thread)))
    rw [shared] at goes
    exact goOn reached there goes
  | @goTo m pc _ ih =>
    obtain ⟨P, i, reached, shared, there⟩ := ih
    have goes := Pool.goes_works there
      (Work.works (.thread none { m.thread with pc } rfl rfl))
    rw [shared] at goes
    exact goOn reached there goes
  | @run m w stop _ _ ih =>
    obtain ⟨P, i, reached, shared, there⟩ := ih
    obtain ⟨ts, started, goes⟩ :=
      Pool.goes_deeds (Watch.makes_runUntil False.elim stop m) shared there
    exact goOn reached there goes
  | @fork m id _ ih =>
    obtain ⟨P, i, reached, shared, there⟩ := ih
    exact ⟨_, P.workers.length, reached.step (.spawn i id _ there), shared, by simp⟩
  | @call m w depth target _ _ ih =>
    obtain ⟨P, i, reached, shared, there⟩ := ih
    have makes : (w.reentry depth).Makes False := w.makes_reentry False.elim depth
    obtain ⟨ts, started, goes⟩ := Pool.goes_deeds (makes.runThread target m) shared there
    exact goOn reached there goes

/-- A thread that runs a fiber. -/
def Machine.inFiber : Machine :=
  (Watch.runUntil ⟨fun _ m => decide (2 ≤ m.thread.scopes.size), fun _ _ => false⟩ 100).after
    ((Run.compile "{ 1 } fiber call").after (Engine.new {} .silent {}))

/-- The fiber runs in one scope, and cannot be called from there. -/
theorem Pool.Reached.one_activation_inFiber : ∃ P : Pool, P.Reached ∧
    P.shared = Machine.inFiber.shared ∧ P.activations 0 = 1 ∧ P.shared.store.Runs 0 ∧
    ∃ e : Fault, e.kind = .thread ∧
      Run.callOnce (Run.reentry 0) ⟨.fiber, .fiber 0⟩ 0 ⟨P.shared, Machine.inFiber.thread⟩ =
        .error (.fault e) ⟨P.shared, Machine.inFiber.thread⟩ := by
  have reached : Catena.Reached anyWatch .inFiber := .run _ 100 trivial (.compile _ (.new ..))
  obtain ⟨P, i, pool, shared, there⟩ := reached.pooled
  obtain ⟨one, -, refused, -⟩ := pool.one_activation
  have here : Machine.inFiber.thread.activations 0 = 1 := by decide +kernel
  have counted := sum_eraseIdx (Worker.activations 0) there
  have some : P.activations 0 = 1 := by
    have most := (one 0).1
    simp only [Pool.activations, Worker.activations, here] at counted most ⊢
    omega
  have runs := (one 0).2 some
  exact ⟨P, pool, shared, some, runs, refused 0 Machine.inFiber.thread ⟨.fiber, .fiber 0⟩
    (Run.reentry 0) 0 runs rfl rfl⟩

end Catena
