import Catena.Proofs.Run.Exec

/-!
# The changes that runs make

Whatever watches a run, the run makes changes only (`makes_runUntil`). If the watch stops every
deferred call that comes back to a thread with less than two scopes, no last scope is closed.
-/

namespace Catena

open Run (Makes)

variable {careful : Prop} {α β : Type} {r : Reentry}

/-- The watch stops deferred calls that come back to a thread with less than two scopes. -/
def Watch.Careful (w : Watch) : Prop :=
  ∀ m, m.thread.scopes.size < 2 → w.returns [] m = true

namespace Run

theorem makes_apply (hr : r.Makes careful) (base : Nat) (c : Control) :
    Makes (Deeds careful) (apply r base c) := by
  cases c with
  | next => rw [apply]; exact .alter fun t => .aside rfl rfl rfl rfl rfl rfl rfl
  | jump pc => rw [apply]; exact .alter fun t => .aside rfl rfl rfl rfl rfl rfl rfl
  | unwind depth pc =>
    rw [apply]
    refine Makes.refuse ((makes_unwindTo hr _ _).bind fun _ => ?_)
    exact .alter fun t => .aside rfl rfl rfl rfl rfl rfl rfl

theorem makes_unwindAfterFault (hr : r.Makes careful) (depth : Nat) :
    Makes (Deeds careful) (unwindAfterFault r depth) := by
  refine (makes_unwindTo hr _ _).attempt.bind fun result => ?_
  cases result with
  | ok _ => exact .pure ()
  | error e => exact makes_note _ _

theorem unwindAfterFault_ok {depth : Nat} {m n : Machine} {a : Unit}
    (h : unwindAfterFault r depth m = .ok a n) : n.thread.scopes.size ≤ max depth 1 := by
  rw [unwindAfterFault, bind_apply] at h
  cases unwound : attempt (unwindTo r depth false) m with
  | ok result p =>
    rw [unwound] at h
    have few := unwindTo_size unwound
    cases result with
    | ok _ => cases h; exact few
    | error e => cases h; exact few
  | error e p => rw [unwound] at h; cases h

/-- The scope that a fault is caught in is the topmost one. -/
theorem resumeTry_deeds (f : Fault) (i : Nat) (frame : TryFrame) {m : Machine}
    (few : m.thread.scopes.size ≤ i + 1) : Deeds careful m ((resumeTry f i frame).after m) := by
  rw [resumeTry, after_bind, ask]
  dsimp only
  cases found : m.thread.scopes[i]? with
  | none => exact .refl m
  | some scope =>
    have inside := (Array.getElem?_eq_some_iff.1 found).1
    have top : m.thread.scope = scope := by
      rw [Thread.scope, Array.back?_eq_getElem?, show m.thread.scopes.size - 1 = i by omega, found]
      rfl
    have faults := Thread.Drift.alterTries m.thread (m.thread.tries.size - 1)
      (fun e => { e with faults := e.faults ++ [f] }) fun _ => rfl
    have values := faults.trans (.alterStack _ fun s => s.extract 0 frame.depth)
    have loops := values.trans (.alterScope _ i
      (fun s => { s with loops := loopsOutside frame.startPc frame.donePc s.loops }) (fun _ => rfl)
      fun s h => s.loops.nodup_filterKeys _ h)
    rw [← top]
    have calm := Thread.Drift.map_modify m.thread.scopes i
      (fun s => { s with loops := loopsOutside frame.startPc frame.donePc s.loops }) Scope.calm
      fun _ => rfl
    refine Deed.deeds (.thread _ ⟨?_, rfl, rfl, calm⟩ rfl)
    exact loops.trans (.aside rfl rfl rfl rfl rfl)

theorem makes_recover (hr : r.Makes careful) (base : Nat) (f : Fault) :
    Makes (Deeds careful) (recover r base f) := by
  refine (Makes.ask _).bind fun catching => ?_
  cases catching with
  | none =>
    exact (Makes.ask _).bind fun _ => (makes_note _ _).bind fun _ =>
      (makes_unwindAfterFault hr _).bind fun _ => .fail f
  | some frame =>
    refine (Makes.ask _).bind fun _ => (makes_note _ _).bind fun _ =>
      (makes_unwindAfterFault hr _).bind_of fun m _ n unwound => ?_
    have few := unwindAfterFault_ok unwound
    refine related_bind (Makes.ask _) fun innermost? p h => ?_
    cases h
    refine related_bind (Makes.orFail _ _) fun innermost p h => ?_
    obtain ⟨-, rfl⟩ := orFail_ok h
    exact resumeTry_deeds f _ innermost (by omega)

theorem step_deeds (hr : r.Makes careful) (base : Nat) {op : Op} {m : Machine}
    (there : op ∈ m.thread.ops) : Deeds careful m ((step r base op).after m) := by
  refine related_bind_at (exec_deeds hr there) fun c n _ => ?_
  refine (makes_apply hr base c).bind (fun _ => ?_) n
  refine (Makes.askShared _).bind fun limit => (Makes.ask _).bind fun size => ?_
  split
  · exact .fail _
  · exact .pure _

end Run

namespace Watch

open Run

variable {w : Watch}

theorem makes_runOps (hr : r.Makes careful) (base stop fuel : Nat) :
    Makes (Deeds careful) (w.runOps r base stop fuel) := by
  induction fuel with
  | zero => exact .exhausted
  | succ fuel ih =>
    refine (Makes.haltIf _).bind fun _ => (Makes.ask _).bind fun pc => ?_
    split
    · exact .pure ()
    refine (Makes.ask _).bind_of fun m op? n h => ?_
    cases h
    dsimp only
    cases found : m.thread.ops[pc]? with
    | none => exact .refl m
    | some op =>
      have stepped := step_deeds hr base (Array.mem_of_getElem? found)
      refine related_bind_at (after_attempt (step r base op) m ▸ stepped) fun result n _ => ?_
      cases result with
      | ok _ => exact ih n
      | error f => exact (Makes.haltIf _).bind (fun _ => (makes_recover hr base f).bind fun _ => ih) n

theorem makes_runLoop (hr : r.Makes careful) (base stop : Nat) :
    Makes (Deeds careful) (w.runLoop r base stop) := by
  refine (Makes.ask _).bind fun saved => Makes.bind (.alter fun t => ?_) fun _ => ?_
  · exact .aside rfl rfl rfl rfl rfl rfl rfl
  refine (makes_runOps hr _ _ _).attempt.bind fun result => ?_
  exact Makes.bind (.alter fun t => .aside rfl rfl rfl rfl rfl rfl rfl) fun _ => .ofExcept result

theorem makes_runCall (hr : r.Makes careful) (target : Value) (base : Nat) :
    Makes (Deeds careful) (w.runCall r target base) :=
  (makes_callValue hr _ _).bind fun _ => (makes_apply hr _ _).bind fun _ => makes_runLoop hr _ _

theorem makes_callAside (hr : r.Makes careful) (target : Value) (args : List Value) :
    Makes (Deeds careful) (w.callAside r target args) := by
  refine (Makes.ask _).bind fun (pc, base) => (Makes.ask _).bind_of fun m safety n h => ?_
  cases h
  refine related_bind_at (openBlock_deeds (.inl rfl)) fun _ p _ => ?_
  refine ((flat_pushEach _).makes hr).bind (fun _ => ?_) p
  refine (makes_runCall hr _ _).attempt.bind fun result => (Makes.ask _).bind fun top => ?_
  refine (makes_unwindTo hr _ _).attempt.bind fun closed => Makes.bind (.alter fun t => ?_) fun _ => ?_
  · exact .aside rfl rfl rfl rfl rfl rfl rfl
  exact (Makes.ofExcept _).bind fun _ => (Makes.ofExcept _).bind fun _ => .pure _

theorem makes_callNested (hr : r.Makes careful) (target : Value) (args : List Value) :
    Makes (Deeds careful) (w.callNested r target args) :=
  (makes_callAside hr _ _).attempt.bind fun _ => (Makes.haltIf _).bind fun _ => .ofExcept _

/-- A deferred call that comes back comes back to two scopes at least. -/
theorem callNested_scopes (care : w.Careful) {target : Value} {m n : Machine}
    {a : Except Fault (Option Value)}
    (h : attempt (w.callNested r target []) m = .ok a n) : 2 ≤ n.thread.scopes.size := by
  cases aside : attempt (w.callAside r target []) m with
  | error e p =>
    have run : w.callNested r target [] m = .error .outOfFuel p := by
      rw [callNested, bind_apply, aside, attempt_error aside]
    rw [attempt_outOfFuel run] at h
    cases h
  | ok answer p =>
    have run : w.callNested r target [] m =
        (haltIf (w.returns []) >>= fun _ => ofExcept answer) p := by
      rw [callNested, bind_apply, aside]
    cases stops : w.returns [] p with
    | true =>
      simp only [bind_apply, haltIf, stops, if_true] at run
      rw [attempt_outOfFuel run] at h
      cases h
    | false =>
      simp only [bind_apply, haltIf, stops, Bool.false_eq_true, if_false] at run
      have same : n = p := by
        cases answer with
        | ok v => rw [attempt_ok run] at h; cases h; rfl
        | error f => rw [attempt_fault run] at h; cases h; rfl
      subst same
      exact Nat.le_of_not_lt fun few => nomatch stops.symm.trans (care n few)

/-- Runs inside runs make changes. -/
theorem makes_reentry (care : careful → w.Careful) (depth : Nat) :
    (w.reentry depth).Makes careful := by
  induction depth with
  | zero => exact ⟨fun _ _ => .exhausted, fun _ => .exhausted, fun _ _ _ _ _ h => nomatch h⟩
  | succ depth ih =>
    exact ⟨makes_callNested ih, fun _ => (Makes.ask _).bind fun _ => makes_runCall ih _ _,
      fun h _ _ _ _ => callNested_scopes (care h)⟩

theorem makes_runUntil (care : careful → w.Careful) (stop : Nat) :
    Makes (Deeds careful) (w.runUntil stop) := by
  refine (Makes.ask _).bind fun (id, pc, base) => (makes_note _ _).bind fun _ => ?_
  refine (makes_runLoop (makes_reentry care _) _ _).attempt.bind fun result => ?_
  exact Makes.bind (.alter fun t => .aside rfl rfl rfl rfl rfl rfl rfl) fun _ => .ofExcept result

end Watch

/-- Without a watch as well. -/
theorem Run.makes_reentry (depth : Nat) : (Run.reentry depth).Makes False :=
  Watch.reentry_idle depth ▸ Watch.makes_reentry False.elim depth

end Catena
