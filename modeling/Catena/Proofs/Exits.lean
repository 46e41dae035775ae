import Catena.Proofs.Breakpoint

/-!
# Exits that are refused

An exit is refused if there is no such lambda or loop, or if a run that may not go below some of the
scopes would have to. A refused exit leaves the thread as it was, with one exception: a `break` that
would cross a call made from inside an operation has already let go of its loop. So once a `try:` form
has caught the refusal, the loops around the form go on, save for that one.
-/

namespace Catena

/-- The structured exit that an operation makes. The end of a lambda is a return from it. -/
def Op.exit? : Op → Option (ExitKind × Nat)
  | .exit label _ => label.role
  | .unlambda _ => some (.return, 0)
  | _ => none

/-- What a run with `base` scopes to stay above refuses, and the fault it refuses it with. -/
inductive Thread.Refuses (t : Thread) (base : Nat) : ExitKind → Nat → Fault → Prop
  | noLambda {kind : ExitKind} {depth : Nat} (leaves : kind ≠ .break)
      (none : t.lambdaScope? depth = none) : Refuses t base kind depth (Fault.noLambda depth)
  | noLoop {depth : Nat} (none : t.loop? depth = none) :
      Refuses t base .break depth (Fault.noLoop depth)
  | return {depth i : Nat} (found : t.lambdaScope? depth = some i) (below : i < base) :
      Refuses t base .return depth Fault.exitCrosses
  | recall {depth i : Nat} (found : t.lambdaScope? depth = some i) (below : i < t.loopBase) :
      Refuses t base .recall depth Fault.recallCrosses
  | yield {depth i : Nat} (found : t.lambdaScope? depth = some i) (below : i < t.loopBase) :
      Refuses t base .yield depth Fault.yieldCrosses
  | break {depth i pc : Nat} (found : t.loop? depth = some (i, pc)) (below : i + 1 < base) :
      Refuses t base .break depth Fault.exitCrosses

/-- What a refused exit leaves: everything, but for the loop that a `break` was to leave. -/
def Thread.refused (t : Thread) (kind : ExitKind) (depth : Nat) : Thread :=
  match kind, t.loop? depth with
  | .break, some (i, pc) =>
    { t with scopes := t.scopes.modify i fun s => { s with loops := s.loops.erase pc } }
  | _, _ => t

theorem Thread.refused_some {t : Thread} {depth i pc : Nat} (found : t.loop? depth = some (i, pc)) :
    t.refused .break depth =
      { t with scopes := t.scopes.modify i fun s => { s with loops := s.loops.erase pc } } := by
  simp only [refused, found]

theorem Thread.refused_none {t : Thread} {depth : Nat} (none : t.loop? depth = none) :
    t.refused .break depth = t := by
  simp only [refused, none]

/-- What is shared, with something more in the log. -/
def Shared.Logged (s s' : Shared) : Prop :=
  s' = { s with log := s'.log, host := s'.host }

theorem Shared.logged_note (s : Shared) (level : Log.Level) (target : String)
    (message : Unit → String) : s.Logged (s.note level target message) := by
  unfold Shared.note
  split <;> exact rfl

namespace Run

variable {r : Reentry} {base : Nat} {m : Machine}

theorem lambdaScope_none {depth : Nat} (none : m.thread.lambdaScope? depth = none) :
    lambdaScope depth m = .error (.fault (Fault.noLambda depth)) m := by
  rw [lambdaScope, bind_apply, ask]
  dsimp only
  rw [none]
  rfl

theorem lambdaScope_some {depth i : Nat} (found : m.thread.lambdaScope? depth = some i) :
    lambdaScope depth m = .ok i m := by
  rw [lambdaScope, bind_apply, ask]
  dsimp only
  rw [found]
  rfl

/-- A change of the flow of control that goes below the base is not carried out. -/
theorem apply_crosses {depth pc : Nat} (below : depth < base) :
    apply r base (.unwind depth pc) m = .error (.fault Fault.exitCrosses) m := by
  rw [apply, if_pos below]
  rfl

/-- Where the exit fails, so does the step. -/
theorem step_of_exec {op : Op} {e : Halt} {n : Machine} (failed : exec r op m = .error e n) :
    step r base op m = .error e n := by
  rw [step, bind_apply, failed]

theorem step_of_apply {op : Op} {c : Control} {e : Halt} {n p : Machine}
    (done : exec r op m = .ok c n) (failed : apply r base c n = .error e p) :
    step r base op m = .error e p := by
  rw [step, bind_apply, done]
  dsimp only
  rw [bind_apply, failed]

/-- What an operation that is an exit does. -/
def leave (r : Reentry) : ExitKind → Nat → Run Control
  | .return, depth => exitReturn depth
  | .recall, depth => recallFrom r depth
  | .yield, depth => suspend depth
  | .break, depth => exitLoop depth

theorem exec_exit {op : Op} {kind : ExitKind} {depth : Nat} (is : op.exit? = some (kind, depth)) :
    exec r op = leave r kind depth := by
  cases op with
  | exit label lambda =>
    have role : label.role = some (kind, depth) := is
    rw [exec, exit, role]
    cases kind <;> rfl
  | unlambda id =>
    cases is
    rfl
  | _ => cases is

/-- A loop is let go of before the exit from it is carried out. -/
theorem exitLoop_some {depth i pc : Nat} (found : m.thread.loop? depth = some (i, pc)) :
    ∃ donePc s, m.shared.Logged s ∧
      exitLoop depth m = .ok (.unwind (i + 1) donePc) ⟨s, m.thread.refused .break depth⟩ := by
  let donePc := (m.thread.scopes[i]?.bind (·.loops.find? pc)).elim (pc + 1) (·.donePc)
  refine ⟨donePc, _, m.shared.logged_note .trace Phase.vm.target fun _ =>
    s!"break out of loop at pc {pc}", ?_⟩
  rw [exitLoop, bind_apply, ask]
  dsimp only
  rw [found, Thread.refused_some found]
  rfl

/-- A refused exit fails with what it is refused with, and leaves the thread as it was but for the loop
that a `break` was to leave. -/
theorem step_refused {op : Op} {kind : ExitKind} {depth : Nat} {f : Fault}
    (is : op.exit? = some (kind, depth)) (refuses : m.thread.Refuses base kind depth f) :
    ∃ s, m.shared.Logged s ∧
      step r base op m = .error (.fault f) ⟨s, m.thread.refused kind depth⟩ := by
  have same : kind ≠ .break → m.thread.refused kind depth = m.thread := by
    intro leaves
    cases kind <;> first | rfl | exact absurd rfl leaves
  have leaves : exec r op m = leave r kind depth m := congrFun (exec_exit is) m
  cases refuses with
  | noLambda other none =>
    refine ⟨m.shared, rfl, ?_⟩
    rw [same other]
    refine step_of_exec (leaves.trans ?_)
    have missing := lambdaScope_none none
    cases kind with
    | «return» => rw [leave, exitReturn, bind_apply, missing]
    | «recall» => rw [leave, recallFrom, bind_apply, missing]
    | yield => rw [leave, suspend, bind_apply, missing]
    | «break» => exact absurd rfl other
  | noLoop none =>
    refine ⟨m.shared, rfl, ?_⟩
    rw [Thread.refused_none none]
    refine step_of_exec (leaves.trans ?_)
    rw [leave, exitLoop, bind_apply, ask]
    dsimp only
    rw [none]
    rfl
  | @«return» depth i found below =>
    refine ⟨m.shared, rfl, ?_⟩
    rw [same fun is => by cases is]
    have left : leave r .return depth m =
        .ok (.unwind i (m.thread.scopes[i]?.elim 0 (·.retPc))) m := by
      rw [leave, exitReturn, bind_apply, lambdaScope_some found]
      rfl
    exact step_of_apply (leaves.trans left) (apply_crosses below)
  | «recall» found below =>
    refine ⟨m.shared, rfl, ?_⟩
    rw [same fun is => by cases is]
    refine step_of_exec (leaves.trans ?_)
    rw [leave, recallFrom, bind_apply, lambdaScope_some found]
    dsimp only
    rw [bind_apply, ask]
    dsimp only
    rw [if_pos below]
    rfl
  | yield found below =>
    refine ⟨m.shared, rfl, ?_⟩
    rw [same fun is => by cases is]
    refine step_of_exec (leaves.trans ?_)
    rw [leave, suspend, bind_apply, lambdaScope_some found]
    dsimp only
    rw [bind_apply, ask]
    dsimp only
    rw [if_pos below]
    rfl
  | «break» found below =>
    obtain ⟨donePc, s, logged, left⟩ := exitLoop_some found
    exact ⟨s, logged, step_of_apply (leaves.trans left) (apply_crosses below)⟩

/-- A `break` inside a call from a loop that runs at program counter 7, made in a scope that the call
has opened: the loop is let go of all the same. -/
theorem step_refused_crossing :
    let loop : LoopState := ⟨.while .nil, 9⟩
    let outer : Scope := { Scope.root .safe with loops := ⟨[(7, loop)]⟩ }
    let m : Machine := ⟨default, { id := 0, scopes := #[outer, Scope.root .safe], loopBase := 2 }⟩
    m.thread.Refuses 2 .break 0 Fault.exitCrosses ∧
      (m.thread.refused .break 0).scopes.toList.map (·.loops.entries.length) = [0, 0] ∧
      ∃ s, m.shared.Logged s ∧ step outermost 2 (.exit (.exit .break 0 0) none) m =
        .error (.fault Fault.exitCrosses) ⟨s, m.thread.refused .break 0⟩ := by
  have refuses : Thread.Refuses
      { id := 0, scopes := #[{ Scope.root .safe with loops := ⟨[(7, ⟨.while .nil, 9⟩)]⟩ }, Scope.root .safe],
        loopBase := 2 } 2 .break 0 Fault.exitCrosses := .break rfl (by decide)
  exact ⟨refuses, rfl, step_refused rfl refuses⟩

end Run

end Catena
