import Catena.Proofs.Fibers.Threads

/-!
# What a thread leaves behind

A thread that comes to an end leaves its values or a fault to whoever joins it first. However the threads
work in the meantime, whatever handles they copy and join, what it has left is there until then, is given
out once, and is refused to all who join it later (`Run.spawn_joined`). Which handles an engine lists is
nothing to them.
-/

namespace Catena

/-! ## Handles -/

theorem Store.takeOutcome_same (s : Store) {t : Ref} {handle : ThreadHandle}
    (found : s.threads[t]? = some handle) :
    (s.takeOutcome t).threads[t]? = some { handle with outcome := none } := by
  simp only [takeOutcome, Array.getElem?_modify, if_true, found, Option.map_some]

theorem Store.takeOutcome_other (s : Store) {t u : Ref} (apart : t ≠ u) :
    (s.takeOutcome t).threads[u]? = s.threads[u]? :=
  Thread.Drift.getElem?_modify_ne _ _ apart.symm

/-- A handle is as it was as long as nobody has taken what it holds, and after that it holds nothing and
nobody takes anything. -/
theorem Pool.Goes.handle {P Q : Pool} {ts : List Ref} (h : P.Goes ts Q) {t : Ref} {handle : ThreadHandle}
    (found : P.shared.store.threads[t]? = some handle) :
    (t ∉ ts ∧ Q.shared.store.threads[t]? = some handle) ∨
      (ts.count t = 1 ∧ Q.shared.store.threads[t]? = some { handle with outcome := none }) := by
  induction h with
  | refl => exact .inl ⟨List.not_mem_nil, found⟩
  | tail _ _ same ih =>
    rcases ih with ⟨never, kept⟩ | ⟨once, taken⟩
    · exact .inl ⟨never, same t _ kept⟩
    · exact .inr ⟨once, same t _ taken⟩
  | @take ts Q i w u held outcome _ there there' left ih =>
    by_cases here : u = t
    · subst here
      rcases ih with ⟨never, kept⟩ | ⟨once, taken⟩
      · right
        constructor
        · rw [List.count_append, List.count_eq_zero_of_not_mem never]
          simp
        · exact Store.takeOutcome_same _ kept
      -- It holds nothing any more.
      · rw [taken] at there'
        cases there'
        cases left
    · have other := Q.shared.store.takeOutcome_other here
      have apart : [u].count t = 0 := List.count_eq_zero_of_not_mem (by simpa using Ne.symm here)
      rcases ih with ⟨never, kept⟩ | ⟨once, taken⟩
      · left
        constructor
        · simp only [List.mem_append, List.mem_singleton, not_or]
          exact ⟨never, Ne.symm here⟩
        · exact other.trans kept
      · right
        constructor
        · rw [List.count_append, once, apart]
        · exact other.trans taken

namespace Run

variable {r : Reentry} {target v : Value} {m n : Machine} {t : Ref} {id : Nat}

/-- What a value leaves behind that runs as the whole work of a thread. -/
inductive Outcome (r : Reentry) (target : Value) (m : Machine) : Except Fault (Array Value) → Prop
  | values {n : Machine} (done : r.runThread target m = .ok () n) : Outcome r target m (.ok n.thread.stack)
  | fault {f : Fault} {n : Machine} (failed : r.runThread target m = .error (.fault f) n) :
      Outcome r target m (.error f)

/-- What is done on another thread leaves this one as it is. -/
theorem onThread_ok {α : Type} {child u : Thread} {x : Run α} {result : Except Fault α}
    (h : onThread child x m = .ok (result, u) n) :
    ∃ p, x.attempt { m with thread := child } = .ok result p ∧ u = p.thread ∧
      n = { p with thread := m.thread } := by
  unfold onThread at h
  split at h
  · rename_i tried
    cases h
    exact ⟨_, tried, rfl, rfl⟩
  · cases h

/-- A message changes nothing but the log. -/
theorem noted_ok {level : Log.Level} {topic : String} {message : Unit → String} {about : Option Nat} {a : Unit}
    (h : alterShared (·.note level topic message about) m = .ok a n) :
    ∃ s, m.shared.Drift s ∧ n = { m with shared := s } := by
  cases h
  exact ⟨_, note_drift _ _ _ _ _, rfl⟩

/-- A thread that starts works on its own. What it leaves is what its handle holds. -/
theorem spawn_ok (started : spawn r target m = .ok t n) :
    ∃ id s outcome, m.shared.Drift s ∧ Outcome r target ⟨s, m.thread.fork id⟩ outcome ∧
      n.thread = m.thread ∧ n.shared.store.threads[t]? = some ⟨id, some outcome⟩ := by
  obtain ⟨id, p, fresh, started⟩ := bind_ok started
  cases fresh
  have fresh : m.shared.Drift m.shared.freshId.2 := ⟨rfl, Registry.freshId_grown _, rfl⟩
  obtain ⟨_, p, noted, started⟩ := bind_ok started
  obtain ⟨s, drift, rfl⟩ := noted_ok noted
  obtain ⟨_, p, asked, started⟩ := bind_ok started
  cases asked
  obtain ⟨_, p, noted, started⟩ := bind_ok started
  obtain ⟨s', drift', rfl⟩ := noted_ok noted
  obtain ⟨_, p, asked, started⟩ := bind_ok started
  cases asked
  obtain ⟨⟨result, child⟩, p, ran, started⟩ := bind_ok started
  obtain ⟨q, tried, rfl, rfl⟩ := onThread_ok ran
  have drift := (fresh.trans drift).trans drift'
  -- The message about the end of the thread comes before its handle.
  rcases attempt_cases tried with ⟨⟨⟩, rfl, done⟩ | ⟨f, rfl, failed⟩
  · obtain ⟨_, p, noted, started⟩ := bind_ok started
    obtain ⟨u, -, rfl⟩ := noted_ok noted
    cases started
    exact ⟨_, s', _, drift, .values done, rfl, Array.getElem?_push_size⟩
  · obtain ⟨_, p, noted, started⟩ := bind_ok started
    obtain ⟨u, -, rfl⟩ := noted_ok noted
    cases started
    exact ⟨_, s', _, drift, .fault failed, rfl, Array.getElem?_push_size⟩

/-! ## Joining -/

/-- The first who joins gets the values, or the fault. -/
theorem join_first (top : m.thread.top? = some v) (handle : v.payload = .thread t)
    {outcome : Except Fault (Array Value)}
    (found : m.shared.store.threads[t]? = some ⟨id, some outcome⟩) :
    ∃ s, s.store = m.shared.store.takeOutcome t ∧
      (∀ values, outcome = .ok values →
        join m = .ok .next ⟨s, (m.thread.modifyStack Array.pop).pushAll values⟩) ∧
      ∀ f, outcome = .error f → join m = .error (.fault f) ⟨s, m.thread.modifyStack Array.pop⟩ := by
  let s := { m.shared with store := m.shared.store.takeOutcome t }
  have taken : takeOutcome t { m with thread := m.thread.modifyStack Array.pop } =
      .ok (id, outcome) ⟨s, m.thread.modifyStack Array.pop⟩ := by
    simp only [takeOutcome, bind_apply, askStore, askShared, found]
    rfl
  rw [join, bind_apply, pop_some top]
  simp only [handle, bind_apply, taken]
  cases outcome with
  | error f =>
    refine ⟨s, rfl, fun values same => ?_, fun f' same => ?_⟩
    · cases same
    · cases same
      rfl
  | ok values =>
    refine ⟨_, ?_, fun values' same => by cases same; rfl, fun f same => by cases same⟩
    exact note_store ..

/-- Whoever joins later is refused, and gets nothing. -/
theorem join_later (top : m.thread.top? = some v) (handle : v.payload = .thread t)
    (found : m.shared.store.threads[t]? = some ⟨id, none⟩) :
    join m = .error (.fault (Fault.joinedThread id))
      { m with thread := m.thread.modifyStack Array.pop } := by
  have refused : takeOutcome t { m with thread := m.thread.modifyStack Array.pop } =
      .error (.fault (Fault.joinedThread id)) { m with thread := m.thread.modifyStack Array.pop } := by
    simp only [takeOutcome, bind_apply, askStore, askShared, found]
    rfl
  rw [join, bind_apply, pop_some top]
  simp only [handle, bind_apply, refused]

end Run

namespace Pool

variable {P : Pool} {i : Nat} {t : Ref} {u : Thread} {v : Value} {id : Nat}

/-- To join is steps of the pool in which what the handle holds is taken. -/
theorem goes_join (there : P.workers[i]? = some ⟨u, none⟩) (top : u.top? = some v)
    (handle : v.payload = .thread t) {outcome : Except Fault (Array Value)}
    (found : P.shared.store.threads[t]? = some ⟨id, some outcome⟩) :
    P.Goes [t] (P.after i (Run.join.after ⟨P.shared, u⟩) none []) := by
  let popped := u.modifyStack Array.pop
  let taken : Shared := { P.shared with store := P.shared.store.takeOutcome t }
  have pops : P.Goes [] (P.after i ⟨P.shared, popped⟩ none []) := by
    have tidy := Thread.Tidy.modifyStack Array.pop
    exact goes_works there (Work.works (.thread none popped (tidy.calm u).fibers (tidy.coros u)))
  have there' := after_there there ⟨P.shared, popped⟩ none []
  have takes := pops.take i _ t _ outcome there' found rfl
  -- What comes after the taking is work of the thread again.
  have ends {s : Shared} (store : s.store = taken.store) {w : Thread}
      (fibers : w.scopes.map Scope.fiber = popped.scopes.map Scope.fiber) (coros : w.coros = popped.coros) :
      P.Goes [t] (P.after i ⟨s, w⟩ none []) := by
    have same : taken.store.SameThreads s.store := .of_eq (congrArg Store.threads store)
    have messages : Works ⟨taken, popped⟩ ⟨s, popped⟩ none :=
      (Work.shared none s (congrArg Store.fibers store)).works same
    have works := messages.tail (.thread none w fibers coros) (.refl _)
    have goes := goes_works (P := ⟨taken, (P.after i ⟨P.shared, popped⟩ none []).workers⟩) there' works
    exact after_after there ⟨taken, popped⟩ ⟨s, w⟩ none none [] [] ▸ takes.trans goes
  obtain ⟨s, store, values, fault⟩ := Run.join_first (m := ⟨P.shared, u⟩) top handle found
  cases outcome with
  | ok vs =>
    rw [Run.after_ok (values vs rfl)]
    have tidy := Thread.Tidy.modifyStack (· ++ vs)
    exact ends store (tidy.calm popped).fibers (tidy.coros popped)
  | error f =>
    rw [Run.after_error (fault f rfl)]
    exact ends store rfl rfl

end Pool

/-- A thread works on a copy of the stack of the one that starts it, and what it comes to there is what its
handle holds. However the threads work from then on, the handle is joined once: whoever comes first gets the
values or the fault, and whoever comes later is refused and gets nothing. Whatever a thread compiles and runs
is such work. -/
theorem Run.spawn_joined {r : Reentry} {target : Value} {m n : Machine} {t : Ref}
    (started : Run.spawn r target m = .ok t n) :
    ∃ id s outcome, m.shared.Drift s ∧ (m.thread.fork id).stack = m.thread.stack ∧
      Run.Outcome r target ⟨s, m.thread.fork id⟩ outcome ∧ n.thread = m.thread ∧
      (∀ (P Q : Pool) ts, P.shared = n.shared → P.Goes ts Q →
        ts.count t ≤ 1 ∧
        ∀ i u v, Q.workers[i]? = some ⟨u, none⟩ → u.top? = some v → v.payload = .thread t →
          (t ∉ ts → ∃ s',
            (∀ values, outcome = .ok values →
              Run.join ⟨Q.shared, u⟩ = .ok .next ⟨s', (u.modifyStack Array.pop).pushAll values⟩) ∧
            (∀ f, outcome = .error f →
              Run.join ⟨Q.shared, u⟩ = .error (.fault f) ⟨s', u.modifyStack Array.pop⟩) ∧
            Q.Goes [t] (Q.after i (Run.join.after ⟨Q.shared, u⟩) none [])) ∧
          (t ∈ ts → ∃ f : Fault, f.kind = .thread ∧
            Run.join ⟨Q.shared, u⟩ = .error (.fault f) ⟨Q.shared, u.modifyStack Array.pop⟩)) ∧
      ∀ (P : Pool) i u, P.workers[i]? = some ⟨u, none⟩ →
        (∀ text, ∃ ts started, P.Goes ts (P.after i ((Run.compile text).after ⟨P.shared, u⟩) none started)) ∧
        (∀ (w : Watch) stop, ∃ ts started,
          P.Goes ts (P.after i ((w.runUntil stop).after ⟨P.shared, u⟩) none started)) ∧
        (∀ (w : Watch) depth target, ∃ ts started,
          P.Goes ts (P.after i (((w.reentry depth).runThread target).after ⟨P.shared, u⟩) none started)) ∧
        ∀ (w : Watch) depth base op, op ∈ u.ops → ∃ ts started,
          P.Goes ts (P.after i ((Run.step (w.reentry depth) base op).after ⟨P.shared, u⟩) none started) := by
  have makes (w : Watch) (depth : Nat) : (w.reentry depth).Makes False :=
    w.makes_reentry False.elim depth
  obtain ⟨id, s, outcome, drift, ends, back, holds⟩ := Run.spawn_ok started
  refine ⟨id, s, outcome, drift, rfl, ends, back, fun P Q ts same goes => ?_, fun P i u there => ⟨fun text => ?_,
    fun w stop => ?_, fun w depth target => ?_, fun w depth base op member => ?_⟩⟩
  · rw [← same] at holds
    rcases goes.handle holds with ⟨never, kept⟩ | ⟨once, taken⟩
    · refine ⟨Nat.le_of_lt_succ ?_, fun i u v there top handle => ⟨fun _ => ?_, fun joined => ?_⟩⟩
      · rw [List.count_eq_zero_of_not_mem never]
        omega
      · obtain ⟨s', -, values, fault⟩ := Run.join_first (m := ⟨Q.shared, u⟩) top handle kept
        exact ⟨s', values, fault, Pool.goes_join there top handle kept⟩
      · exact absurd joined never
    · refine ⟨Nat.le_of_eq once, fun i u v there top handle => ⟨fun never => ?_, fun _ => ?_⟩⟩
      · rw [List.count_eq_zero_of_not_mem never] at once
        cases once
      · exact ⟨_, rfl, Run.join_later (m := ⟨Q.shared, u⟩) top handle taken⟩
  · exact Pool.goes_compile there text
  · exact Pool.goes_deeds (Watch.makes_runUntil False.elim stop ⟨P.shared, u⟩) rfl there
  · exact Pool.goes_deeds ((makes w depth).runThread target ⟨P.shared, u⟩) rfl there
  · exact Pool.goes_deeds (Run.step_deeds (makes w depth) base member) rfl there

/-- A machine that knows a function to run as a thread. -/
def Machine.starting : Machine :=
  (Watch.idle.runUntil 100).after
    ((Run.compile "func: more (I64) 2 + ; 1").after (Engine.new {} .silent {}))

/-- Of two threads that have the handle, the second is refused. -/
theorem Run.spawn_joined_starting :
    ∃ t n p, Run.spawn (Run.reentry 2) ⟨.func, .func "more"⟩ .starting = .ok t n ∧
      Run.join ⟨n.shared, n.thread.push ⟨.thread, .thread t⟩⟩ = .ok .next p ∧
      p.thread.stack.map Value.int? = #[some 1, some 3] ∧
      ∃ f : Fault, f.kind = .thread ∧
        Run.join ⟨p.shared, n.thread.push ⟨.thread, .thread t⟩⟩ = .error (.fault f)
          ⟨p.shared, (n.thread.push ⟨.thread, .thread t⟩).modifyStack Array.pop⟩ := by
  have computed : (((Run.spawn (Run.reentry 2) ⟨.func, .func "more"⟩).answer? .starting).any fun t =>
      let n := (Run.spawn (Run.reentry 2) ⟨.func, .func "more"⟩).after .starting
      let m : Machine := ⟨n.shared, n.thread.push ⟨.thread, .thread t⟩⟩
      (Run.join.answer? m).isSome && (Run.join.after m).thread.stack.map Value.int? = #[some 1, some 3]) = true := by
    decide +kernel
  obtain ⟨t, answers, facts⟩ := (Option.any_eq_true ..).1 computed
  have started := Run.answer?_eq_some answers
  generalize (Run.spawn (Run.reentry 2) ⟨.func, .func "more"⟩).after .starting = n at started facts
  obtain ⟨first, stack⟩ := Bool.and_eq_true_iff.1 facts
  obtain ⟨answer, answers⟩ := Option.isSome_iff_exists.1 first
  have joins := Run.answer?_eq_some answers
  let u := n.thread.push ⟨.thread, .thread t⟩
  have top : u.top? = some ⟨.thread, .thread t⟩ := n.thread.top?_push _
  obtain ⟨id, s, outcome, -, -, -, -, work, -⟩ := Run.spawn_joined started
  let P : Pool := ⟨n.shared, [⟨u, none⟩, ⟨u, none⟩]⟩
  obtain ⟨-, once⟩ := work P P [] rfl .refl
  obtain ⟨s', values, fault, goes⟩ := (once 0 u _ rfl top rfl).1 List.not_mem_nil
  obtain rfl : answer = .next := by
    cases outcome with
    | error f => cases (fault f rfl).symm.trans joins
    | ok vs => exact (EStateM.Result.ok.inj (joins.symm.trans (values vs rfl))).1
  obtain ⟨-, again⟩ := work P _ [t] rfl goes
  obtain ⟨f, kind, refused⟩ := (again 1 u _ rfl top rfl).2 (List.mem_singleton_self t)
  exact ⟨t, n, _, started, joins, of_decide_eq_true stack, f, kind, refused⟩

end Catena
