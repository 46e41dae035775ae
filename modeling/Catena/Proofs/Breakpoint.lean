import Catena.Proofs.Compile
import Catena.Proofs.Run.InStep

/-!
# Stopping and going on

A run may be stopped at a program counter and gone on with from there. The run that goes on takes the
scopes that are open at the stop as its base, so it refuses exits that the run without the stop would
have made, and it does not catch faults in `try:` forms that were open at the stop. Apart from that
the stop makes no difference (`breakpoint_transparent`).
-/

namespace Catena

variable {r : Reentry} {m n : Machine}

/-- The machine a run begins in. -/
def Machine.begun (m : Machine) (stop : Nat) : Machine :=
  { m with shared := m.shared.note .debug Phase.vm.target fun _ =>
      s!"thread {m.thread.id} running from pc {m.thread.pc} (stop {stop})" }.withBase
    m.thread.scopes.size

/-- The machine a run ends in, with the base of the run around it. -/
def Machine.ended (m : Machine) (base : Nat) : Machine :=
  { m with thread :=
    { m.thread with loopBase := base, pc := min m.thread.pc m.thread.ops.size } }

/-- The `try:` form that catches a fault of a run with the given base. -/
def Thread.catcher? (t : Thread) (base : Nat) : Option TryFrame :=
  (t.tries.back?).filter fun e => decide (base ≤ e.scope) && decide (e.scope < t.scopes.size)

namespace Run

/-- Whether a run with the given base refuses an exit, which would leave a scope that was open when
the run began. -/
def refuses (r : Reentry) (base : Nat) (op : Op) (m : Machine) : Bool :=
  let unwinds :=
    match exec r op m with
    | .ok (.unwind depth _) _ => decide (depth < base)
    | _ => false
  let leaves :=
    match op with
    | .exit { role := some (.yield, depth), .. } _ | .exit { role := some (.recall, depth), .. } _ =>
      (m.thread.lambdaScope? depth).any fun i => decide (i < base)
    | _ => false
  unwinds || leaves

/-- Whether a run ends well and refuses no exit on the way. -/
def endsAbove (r : Reentry) (base stop : Nat) : (fuel : Nat) → Machine → Bool
  | 0, _ => false
  | fuel + 1, m =>
    if m.thread.pc = stop then true
    else
      match m.thread.ops[m.thread.pc]? with
      | none => true
      | some op =>
        !refuses r base op m &&
          match step r base op m with
          | .ok _ n => endsAbove r base stop fuel n
          | .error (.fault f) n =>
            match recover r base f n with
            | .ok _ p => endsAbove r base stop fuel p
            | .error .. => false
          | .error .outOfFuel _ => false

variable {base base' stop : Nat}

theorem refuses_unwind {op : Op} {depth pc : Nat} (exit : exec r op m = .ok (.unwind depth pc) n)
    (below : depth < base) : refuses r base op m = true := by
  simp only [refuses, exit, below, decide_true, Bool.true_or]

theorem refuses_leave {label : Label} {kind : ExitKind} {depth i : Nat} (id : Option Nat)
    (role : label.role = some (kind, depth)) (leaves : kind = .yield ∨ kind = .recall)
    (found : m.thread.lambdaScope? depth = some i) (below : i < base) :
    refuses r base (.exit label id) m = true := by
  obtain ⟨name, anon, role', pc⟩ := label
  obtain rfl : role' = some (kind, depth) := role
  rcases leaves with rfl | rfl <;>
    simp only [refuses, found, Option.any_some, below, decide_true, Bool.or_true]

theorem apply_agree (hr : r.Lockstep False) (alike : m.Alike n) (le : base ≤ base') {c : Control}
    (above : ∀ depth pc, c = .unwind depth pc → base' ≤ depth) :
    m.Agree n (apply r base c m) (apply r base' c n) := by
  cases c with
  | next => exact lockstep_apply hr base' .next m n alike False.elim
  | jump pc => exact lockstep_apply hr base' (.jump pc) m n alike False.elim
  | unwind depth pc =>
    have above := above depth pc rfl
    rw [apply, apply, if_neg (by omega), if_neg (by omega)]
    refine (Lockstep.bind (lockstep_unwindTo hr depth true) fun _ => ?_) m n alike False.elim
    exact .alter (fun _ _ => rfl) fun _ => rfl

/-- An operation that the stricter run does not refuse goes the same way in both. -/
theorem step_agree (hr : r.Lockstep False) (alike : m.Alike n) (le : base ≤ base')
    (own : m.thread.loopBase = base) (own' : n.thread.loopBase = base') {op : Op}
    (allowed : refuses r base' op n = false) : m.Agree n (step r base op m) (step r base' op n) := by
  have same : ∀ label id, op = .exit label id → SameSide m n label := by
    rintro label id rfl kind depth i role leaves found
    have found' : n.thread.lambdaScope? depth = some i := by
      rw [alike.thread]
      exact found
    have above : ¬i < base' := fun below =>
      nomatch (refuses_leave id role leaves found' below).symm.trans allowed
    omega
  refine Lockstep.agree_bind (exec_agree hr alike same) ?_
  intro c p q _ ran alike' _ _
  have above : ∀ depth pc, c = .unwind depth pc → base' ≤ depth := by
    rintro depth pc rfl
    exact Nat.le_of_not_lt fun below =>
      nomatch (refuses_unwind ran below).symm.trans allowed
  refine Lockstep.agree_bind (apply_agree hr alike' le above) ?_
  intro _ p q _ _ alike _ _
  exact lockstep_checkHeight p q alike False.elim

theorem recover_some {f : Fault} {frame : TryFrame} (h : m.thread.catcher? base = some frame) :
    recover r base f m = (do
      let pc ← ask (·.pc)
      note .debug fun _ => s!"caught at pc {pc}: {f.text}"
      unwindAfterFault r (frame.scope + 1)
      let innermost ← orFail f (← ask (·.tries.back?))
      resumeTry f frame.scope innermost) m := by
  unfold Thread.catcher? at h
  rw [recover, bind_apply, ask]
  dsimp only
  rw [h]

/-- A run that goes on after a fault has caught it. -/
theorem recover_ok {f : Fault} {p : Machine} (caught : recover r base f m = .ok () p) :
    ∃ frame, m.thread.catcher? base = some frame := by
  cases none : m.thread.catcher? base with
  | some frame => exact ⟨frame, rfl⟩
  | none =>
    unfold Thread.catcher? at none
    rw [recover, bind_apply, ask] at caught
    dsimp only at caught
    rw [none] at caught
    simp only [bind_apply, ask, note, alterShared] at caught
    split at caught <;> cases caught

/-- A fault that the stricter run catches is caught in the same place in both. -/
theorem recover_agree (hr : r.Lockstep False) (alike : m.Alike n) (le : base ≤ base') {f : Fault}
    {p : Machine} (caught : recover r base' f n = .ok () p) :
    m.Agree n (recover r base f m) (recover r base' f n) := by
  obtain ⟨frame, strict⟩ := recover_ok caught
  have lower : m.thread.catcher? base = some frame := by
    have same : n.thread.catcher? base' = m.thread.catcher? base' := by
      rw [alike.thread]
      rfl
    obtain ⟨last, inside⟩ := Option.filter_eq_some_iff.1 (same.symm.trans strict)
    simp only [Bool.and_eq_true, decide_eq_true_eq] at inside
    refine Option.filter_eq_some_iff.2 ⟨last, ?_⟩
    simp only [Bool.and_eq_true, decide_eq_true_eq]
    exact ⟨Nat.le_trans le inside.1, inside.2⟩
  rw [recover_some strict, recover_some lower]
  exact lockstep_catch hr f frame m n alike False.elim

/-- One round of a run. -/
theorem runOps_succ (base stop fuel : Nat) (m : Machine) :
    runOps r base stop (fuel + 1) m =
      if m.thread.pc = stop then .ok () m
      else
        match m.thread.ops[m.thread.pc]? with
        | none => .ok () m
        | some op =>
          match step r base op m with
          | .ok _ n => runOps r base stop fuel n
          | .error (.fault f) n =>
            match recover r base f n with
            | .ok _ p => runOps r base stop fuel p
            | .error e p => .error e p
          | .error .outOfFuel n => .error .outOfFuel n := by
  rw [runOps, bind_apply, ask]
  dsimp only
  split
  · rfl
  rw [bind_apply, ask]
  dsimp only
  cases m.thread.ops[m.thread.pc]? with
  | none => rfl
  | some op =>
    dsimp only
    rw [bind_apply, attempt]
    rcases step r base op m with ⟨_, n⟩ | ⟨f | _, n⟩
    · rfl
    · dsimp only
      rw [bind_apply]
      cases recover r base f n <;> rfl
    · rfl

/-- Where the stricter run ends well and refuses nothing, the other one ends alike. -/
theorem runOps_lower (hr : r.Lockstep False) (le : base ≤ base') {fuel : Nat} (alike : m.Alike n)
    (own : m.thread.loopBase = base) (own' : n.thread.loopBase = base')
    (above : endsAbove r base' stop fuel n = true) :
    ∃ p q, runOps r base stop fuel m = .ok () p ∧ runOps r base' stop fuel n = .ok () q ∧
      p.Alike q := by
  induction fuel generalizing m n with
  | zero => cases above
  | succ fuel ih =>
    have pc : n.thread.pc = m.thread.pc := by rw [alike.thread]
    have ops : n.thread.ops = m.thread.ops := by rw [alike.thread]
    rw [endsAbove] at above
    rw [runOps_succ, runOps_succ, ← ops, ← pc]
    split at above
    next past =>
      rw [if_pos past, if_pos past]
      exact ⟨m, n, rfl, rfl, alike⟩
    next inside =>
    rw [if_neg inside, if_neg inside]
    revert above
    cases n.thread.ops[n.thread.pc]? with
    | none => exact fun _ => ⟨m, n, rfl, rfl, alike⟩
    | some op =>
      dsimp only
      intro above
      obtain ⟨allowed, above⟩ := Bool.and_eq_true_iff.1 above
      have steps := step_agree hr alike le own own' (by simpa using allowed)
      generalize step r base op m = one at steps ⊢
      generalize step r base' op n = other at steps above ⊢
      cases steps with
      | ok _ alike held held' => exact ih alike (held.2.trans own) (held'.2.trans own') above
      | @fault p s f alike held held' =>
        dsimp only at above ⊢
        cases caught : recover r base' f s with
        | error e t =>
          rw [caught] at above
          cases above
        | ok _ t =>
          have both := recover_agree hr alike le caught
          rw [caught] at above both
          generalize recover r base f p = lower at both ⊢
          cases both with
          | ok _ alike keeps keeps' =>
            exact ih alike (keeps.2.trans (held.2.trans own)) (keeps'.2.trans (held'.2.trans own'))
              above
      | outOfFuel alike => cases above

/-! ## Going on -/

/-- A run with more fuel ends in the same way. -/
theorem runOps_more {fuel : Nat} (ends : ∀ p, runOps r base stop fuel m ≠ .error .outOfFuel p)
    (k : Nat) : runOps r base stop (fuel + k) m = runOps r base stop fuel m := by
  induction fuel generalizing m with
  | zero => exact absurd rfl (ends m)
  | succ fuel ih =>
    rw [Nat.add_right_comm]
    rw [runOps_succ] at ends ⊢
    rw [runOps_succ]
    split
    · rfl
    next inside =>
    rw [if_neg inside] at ends
    revert ends
    cases m.thread.ops[m.thread.pc]? with
    | none => exact fun _ => rfl
    | some op =>
      dsimp only
      rcases step r base op m with ⟨_, n⟩ | ⟨f | _, n⟩
      · exact ih
      · dsimp only
        cases recover r base f n with
        | ok _ p => exact ih
        | error e p => exact fun _ => rfl
      · exact fun _ => rfl

theorem Lockstep.holds {x : Run α} (hx : Lockstep True x) (fileless : m.shared.Fileless) {p : Machine}
    {a : α} (ends : x m = .ok a p) : m.Holds p ∧ p.shared.Fileless := by
  have both := hx m m (.refl fileless) fun _ => rfl
  rw [ends] at both
  cases both with
  | ok _ alike held => exact ⟨held, alike.fileless⟩

/-- What a run does up to a stop is the beginning of the run to the end of the operations. -/
theorem runOps_split (hr : r.Lockstep False) {fuel : Nat} (fileless : m.shared.Fileless) {p : Machine}
    (ends : runOps r base stop fuel m = .ok () p) :
    ∃ k, k ≤ fuel ∧
      ∀ j, runOps r base m.thread.ops.size (k + j) m = runOps r base m.thread.ops.size j p := by
  induction fuel generalizing m with
  | zero => cases ends
  | succ fuel ih =>
    have here (same : p = m) : ∃ k, k ≤ fuel + 1 ∧
        ∀ j, runOps r base m.thread.ops.size (k + j) m = runOps r base m.thread.ops.size j p :=
      ⟨0, Nat.zero_le _, fun j => by rw [Nat.zero_add, same]⟩
    -- A round of the run up to the stop is a round of the run to the end.
    have after {n : Machine} (held : m.Holds n) (fileless : n.shared.Fileless)
        (ends : runOps r base stop fuel n = .ok () p)
        (round : ∀ j, runOps r base m.thread.ops.size (j + 1) m = runOps r base m.thread.ops.size j n) :
        ∃ k, k ≤ fuel + 1 ∧
          ∀ j, runOps r base m.thread.ops.size (k + j) m = runOps r base m.thread.ops.size j p := by
      obtain ⟨k, few, rest⟩ := ih fileless ends
      rw [held.1] at rest
      refine ⟨k + 1, Nat.succ_le_succ few, fun j => ?_⟩
      rw [Nat.add_right_comm, round, rest]
    rw [runOps_succ] at ends
    split at ends
    · cases ends
      exact here rfl
    cases found : m.thread.ops[m.thread.pc]? with
    | none =>
      rw [found] at ends
      cases ends
      exact here rfl
    | some op =>
      rw [found] at ends
      dsimp only at ends
      have inside : m.thread.pc ≠ m.thread.ops.size :=
        Nat.ne_of_lt (Array.getElem?_eq_some_iff.1 found).1
      cases done : step r base op m with
      | ok _ n =>
        rw [done] at ends
        obtain ⟨held, fileless⟩ := (lockstep_step hr base op).holds fileless done
        refine after held fileless ends fun j => ?_
        rw [runOps_succ, if_neg inside, found]
        dsimp only
        rw [done]
      | error e n =>
        rw [done] at ends
        cases e with
        | outOfFuel => cases ends
        | fault f =>
          dsimp only at ends
          cases caught : recover r base f n with
          | error e q =>
            rw [caught] at ends
            cases ends
          | ok _ q =>
            rw [caught] at ends
            obtain ⟨held, quiet⟩ :=
              (lockstep_step hr base op).attempt.holds fileless (attempt_fault done)
            obtain ⟨keeps, quiet⟩ := (lockstep_recover hr base f).weaken.holds quiet caught
            refine after (held.trans keeps) quiet ends fun j => ?_
            rw [runOps_succ, if_neg inside, found]
            dsimp only
            rw [done]
            dsimp only
            rw [caught]

/-- How a run ends, with the base of the run around it. -/
def ending (base : Nat) : EStateM.Result Halt Machine Unit → EStateM.Result Halt Machine Unit
  | .ok a p => .ok a (p.ended base)
  | .error (.fault f) p => .error (.fault f) (p.ended base)
  | .error .outOfFuel p => .error .outOfFuel p

/-- A run from outside, said by its operations. -/
theorem runUntil_apply (stop : Nat) (m : Machine) :
    runUntil stop m = ending m.thread.loopBase
      (runOps outermost m.thread.scopes.size stop stepLimit (m.begun stop)) := by
  let noted := { m with shared := m.shared.note .debug Phase.vm.target fun _ =>
      s!"thread {m.thread.id} running from pc {m.thread.pc} (stop {stop})" }
  show (attempt (runLoop outermost m.thread.scopes.size stop) >>= _) noted = _
  rw [bind_apply, attempt, runLoop_apply,
    show m.begun stop = noted.withBase m.thread.scopes.size from rfl]
  generalize runOps outermost m.thread.scopes.size stop stepLimit
    (noted.withBase m.thread.scopes.size) = ends
  rcases ends with ⟨a, p⟩ | ⟨_ | _, p⟩ <;> rfl

/-- Two runs end in the same way, well or with the same fault: with the same thread, and with what is
shared the same but for what has been logged and printed. -/
inductive SameEnd : EStateM.Result Halt Machine Unit → EStateM.Result Halt Machine Unit → Prop
  | ok {p q : Machine} (thread : q.thread = p.thread)
      (shared : q.shared.silenced = p.shared.silenced) : SameEnd (.ok () p) (.ok () q)
  | fault {p q : Machine} (f : Fault) (thread : q.thread = p.thread)
      (shared : q.shared.silenced = p.shared.silenced) :
      SameEnd (.error (.fault f) p) (.error (.fault f) q)

variable {x y z : EStateM.Result Halt Machine Unit}

theorem SameEnd.symm (h : SameEnd x y) : SameEnd y x := by
  cases h with
  | ok thread shared => exact .ok thread.symm shared.symm
  | fault f thread shared => exact .fault f thread.symm shared.symm

theorem SameEnd.trans (h : SameEnd x y) (k : SameEnd y z) : SameEnd x z := by
  cases h with
  | ok thread shared =>
    cases k with
    | ok thread' shared' => exact .ok (thread'.trans thread) (shared'.trans shared)
  | fault f thread shared =>
    cases k with
    | fault _ thread' shared' => exact .fault f (thread'.trans thread) (shared'.trans shared)

/-- What ends alike ends the same, as seen from the run around it. -/
theorem sameEnd_of_alike {p q : Machine} (alike : p.Alike q) (base : Nat) :
    SameEnd (ending base (.ok () p)) (ending base (.ok () q)) := by
  have thread := congrArg
    (fun t : Thread => { t with loopBase := base, pc := min t.pc t.ops.size }) alike.thread
  exact .ok thread alike.shared

theorem sameEnd_of_agree (agree : m.Agree n x y) (fuel : ∀ p, x ≠ .error .outOfFuel p) (base : Nat) :
    SameEnd (ending base x) (ending base y) := by
  cases agree with
  | ok _ alike => exact sameEnd_of_alike alike base
  | fault f alike =>
    have thread := congrArg
      (fun t : Thread => { t with loopBase := base, pc := min t.pc t.ops.size }) alike.thread
    exact .fault f thread alike.shared
  | @outOfFuel p => exact absurd rfl (fuel p)

theorem ending_ok {p : Machine} {b : Nat} (h : ending b x = .ok () p) :
    ∃ q, x = .ok () q ∧ p = q.ended b := by
  rcases x with ⟨_, q⟩ | ⟨_ | _, q⟩ <;> cases h
  exact ⟨q, rfl, rfl⟩

theorem begun_alike (fileless : m.shared.Fileless) (stop : Nat) : m.Alike (m.begun stop) := by
  have noted := fileless.note .debug Phase.vm.target (fun _ =>
    s!"thread {m.thread.id} running from pc {m.thread.pc} (stop {stop})") none
  exact ⟨noted.1, rfl, fileless, noted.2⟩

/-- A whole run ends like what it does behind a stop that it passes. -/
theorem runAll_split {p : Machine} (fileless : m.shared.Fileless)
    (fuel : ∀ p, runAll m ≠ .error .outOfFuel p)
    (first : runOps outermost m.thread.scopes.size stop stepLimit (m.begun stop) = .ok () p) :
    p.thread.ops = m.thread.ops ∧ p.thread.loopBase = m.thread.scopes.size ∧ p.shared.Fileless ∧
      ∃ j, j ≤ stepLimit ∧
      (∀ q, runOps outermost m.thread.scopes.size m.thread.ops.size j p ≠ .error .outOfFuel q) ∧
      SameEnd (runAll m) (ending m.thread.loopBase
        (runOps outermost m.thread.scopes.size m.thread.ops.size j p)) := by
  have hr : outermost.Lockstep False := lockstep_reentry reentryLimit
  have begins := begun_alike fileless stop
  obtain ⟨held, quiet⟩ := (lockstep_runOps hr _ _ _).holds begins.fileless' first
  obtain ⟨k, few, rest⟩ := runOps_split hr begins.fileless' first
  have split : runOps outermost m.thread.scopes.size m.thread.ops.size stepLimit (m.begun stop) =
      runOps outermost m.thread.scopes.size m.thread.ops.size (stepLimit - k) p := by
    have split := rest (stepLimit - k)
    rw [Nat.add_sub_cancel' few] at split
    exact split
  -- The whole run begins with another message only.
  have whole : runAll m = ending m.thread.loopBase (runOps outermost m.thread.scopes.size
    m.thread.ops.size stepLimit (m.begun m.thread.ops.size)) := runUntil_apply _ _
  have message : (m.begun stop).Alike (m.begun m.thread.ops.size) :=
    ⟨(begun_alike fileless _).shared.trans begins.shared.symm, rfl, begins.fileless',
      (begun_alike fileless _).fileless'⟩
  have both := lockstep_runOps hr m.thread.scopes.size m.thread.ops.size stepLimit _ _ message
    fun _ => rfl
  rw [split] at both
  have enough (q : Machine) :
      runOps outermost m.thread.scopes.size m.thread.ops.size (stepLimit - k) p ≠
        .error .outOfFuel q := by
    intro ends
    rw [ends] at both
    generalize runOps outermost m.thread.scopes.size m.thread.ops.size stepLimit
      (m.begun m.thread.ops.size) = other at both whole
    cases both with
    | outOfFuel => exact fuel _ whole
  refine ⟨held.1, held.2, quiet, stepLimit - k, Nat.sub_le _ _, enough, ?_⟩
  rw [whole]
  exact (sameEnd_of_agree both enough _).symm

/-- Behind the last operation a run is over. -/
theorem runOps_behind {p : Machine} {j : Nat} (behind : p.thread.ops.size ≤ p.thread.pc)
    (enough : ∀ q, runOps r base stop j p ≠ .error .outOfFuel q) : runOps r base stop j p = .ok () p := by
  cases j with
  | zero => exact absurd rfl (enough p)
  | succ j =>
    rw [runOps_succ, Array.getElem?_eq_none behind]
    split <;> rfl

/-- The machine a run was stopped in differs from the one it left in the base, unless the run was
over. -/
theorem ended_alike {p : Machine} (fileless : p.shared.Fileless) (base : Nat)
    (inside : p.thread.pc ≤ p.thread.ops.size) : p.Alike (p.ended base) := by
  refine ⟨rfl, ?_, fileless, fileless⟩
  simp only [Machine.ended, Nat.min_eq_left inside]

/-- Behind all operations there is nothing to go on with. -/
theorem goesOn_behind {p : Machine} {base j : Nat} (behind : p.thread.ops.size < p.thread.pc)
    (enough : ∀ q, runOps r base' p.thread.ops.size j p ≠ .error .outOfFuel q)
    (fileless : p.shared.Fileless) :
    SameEnd (ending base (runOps r base' p.thread.ops.size j p))
      (ending base (runOps r p.thread.scopes.size p.thread.ops.size stepLimit
        ((p.ended base).begun p.thread.ops.size))) := by
  have past : ((p.ended base).begun p.thread.ops.size).thread.pc = p.thread.ops.size :=
    Nat.min_eq_right (Nat.le_of_lt behind)
  have begins := begun_alike (m := p.ended base) fileless p.thread.ops.size
  rw [runOps_behind (Nat.le_of_lt behind) enough,
    show stepLimit = stepLimit - 1 + 1 from rfl, runOps_succ, if_pos past]
  refine .ok ?_ begins.shared
  simp only [Machine.ended, Machine.begun, Machine.withBase, Nat.min_assoc, Nat.min_self]

/-- What goes on with the base it was stopped with goes on as it would have without the stop. -/
theorem goesOn_same (hr : r.Lockstep False) {p q : Machine} {j : Nat} (alike : p.Alike q)
    (own : p.thread.loopBase = base) (own' : q.thread.loopBase = base) (few : j ≤ stepLimit)
    (enough : ∀ q, runOps r base stop j p ≠ .error .outOfFuel q) (b : Nat) :
    SameEnd (ending b (runOps r base stop j p)) (ending b (runOps r base stop stepLimit q)) := by
  have both := lockstep_runOps hr base stop j p q alike fun _ => own'.trans own.symm
  have enough' (s : Machine) : runOps r base stop j q ≠ .error .outOfFuel s := by
    intro ends
    rw [ends] at both
    generalize found : runOps r base stop j p = other at both
    cases both with
    | outOfFuel => exact enough _ found
  rw [← Nat.add_sub_cancel' few, runOps_more enough']
  exact sameEnd_of_agree both enough b

/-- A breakpoint is transparent: a run that is stopped somewhere and goes on from there ends like
the run that is not stopped, if as many scopes are open at the stop as there were at the start, or
if what follows ends well and refuses no exit with the larger of the two numbers as its base. -/
theorem breakpoint_transparent {stop : Nat} (fileless : m.shared.Fileless)
    (stopped : runUntil stop m = .ok () n) (fuel : ∀ p, runAll m ≠ .error .outOfFuel p)
    (above : n.thread.scopes.size = m.thread.scopes.size ∨
      endsAbove outermost (max m.thread.scopes.size n.thread.scopes.size) n.thread.ops.size stepLimit
        (n.withBase (max m.thread.scopes.size n.thread.scopes.size)) = true) :
    SameEnd (runAll m) (runAll n) := by
  have hr : outermost.Lockstep False := lockstep_reentry reentryLimit
  rw [runUntil_apply] at stopped
  obtain ⟨p, first, rfl⟩ := ending_ok stopped
  obtain ⟨ops, own, quiet, j, few, enough, straight⟩ := runAll_split fileless fuel first
  refine straight.trans ?_
  rw [show runAll (p.ended m.thread.loopBase) = ending m.thread.loopBase (runOps outermost
    p.thread.scopes.size p.thread.ops.size stepLimit
      ((p.ended m.thread.loopBase).begun p.thread.ops.size)) from runUntil_apply _ _, ← ops]
  rw [← ops] at enough
  by_cases behind : p.thread.ops.size < p.thread.pc
  · exact goesOn_behind behind enough quiet
  have stopped := ended_alike quiet m.thread.loopBase (Nat.le_of_not_lt behind)
  have begins := begun_alike (m := p.ended m.thread.loopBase) quiet p.thread.ops.size
  rcases above with same | above
  · rw [show p.thread.scopes.size = m.thread.scopes.size from same]
    exact goesOn_same hr (stopped.trans begins) own same few enough _
  · -- Both runs end like the stricter one.
    obtain ⟨s, q, lower, strict, alike⟩ := runOps_lower hr (Nat.le_max_left _ _)
      (stopped.withBase p.thread.loopBase _) own rfl above
    obtain ⟨t, q', lower', strict', alike'⟩ := runOps_lower hr (Nat.le_max_right _ _)
      (begins.symm.withBase p.thread.scopes.size _) rfl rfl above
    obtain rfl : q = q' := by
      have same := strict.symm.trans strict'
      cases same
      rfl
    have more := runOps_more enough (stepLimit - j)
    rw [Nat.add_sub_cancel' few] at more
    rw [← more, show runOps outermost m.thread.scopes.size p.thread.ops.size stepLimit p = .ok () s
      from lower, show runOps outermost p.thread.scopes.size p.thread.ops.size stepLimit
        ((p.ended m.thread.loopBase).begun p.thread.ops.size) = .ok () t from lower']
    exact sameEnd_of_alike (alike.trans alike'.symm) _

end Run

/-- A block that has just been compiled. -/
def Machine.blockAhead : Machine := (Run.compile "( 1 2 )").after (Engine.new {} .silent {})

/-- The block may be stopped at inside. -/
theorem Run.breakpoint_transparent_block :
    1 < ((runUntil 1).after .blockAhead).thread.scopes.size ∧
      SameEnd (runAll .blockAhead) (runAll ((runUntil 1).after .blockAhead)) := by
  have stops : (runUntil 1).answer? .blockAhead = some () := by decide +kernel
  have ends : runAll.answer? .blockAhead = some () := by decide +kernel
  have fileless : Machine.blockAhead.shared.Fileless := by
    unfold Shared.Fileless
    decide +kernel
  refine ⟨by decide +kernel, breakpoint_transparent fileless (answer?_eq_some stops)
    (fun p exhausted => ?_) (.inr (by decide +kernel))⟩
  have done := answer?_eq_some ends
  rw [exhausted] at done
  cases done

/-- The fault that a computation ends with. -/
def Run.fault? {α : Type} (x : Run α) (m : Machine) : Option Fault :=
  match x m with
  | .error (.fault f) _ => some f
  | _ => none

theorem Run.fault?_eq_some {α : Type} {x : Run α} {f : Fault} (h : x.fault? m = some f) :
    x m = .error (.fault f) (x.after m) := by
  unfold fault? at h
  unfold after
  split at h <;> cases h
  rename_i failed
  rw [failed]

/-- A call of a lambda that has just been compiled. -/
def Machine.callAhead : Machine :=
  (Run.compile "\x7b 1 2 \x7d call").after (Engine.new {} .silent {})

/-- A run that is stopped inside a lambda does not come back from it. -/
theorem Run.breakpoint_in_lambda :
    ∃ n p q, runUntil 2 .callAhead = .ok () n ∧ runAll .callAhead = .ok () p ∧
      runAll n = .error (.fault Fault.exitCrosses) q ∧ ¬SameEnd (runAll .callAhead) (runAll n) := by
  have stops : (runUntil 2).answer? .callAhead = some () := by decide +kernel
  have ends : runAll.answer? .callAhead = some () := by decide +kernel
  have refused : runAll.fault? ((runUntil 2).after .callAhead) = some Fault.exitCrosses := by
    decide +kernel
  have done := answer?_eq_some ends
  have fails := fault?_eq_some refused
  refine ⟨_, _, _, answer?_eq_some stops, done, fails, fun same => ?_⟩
  rw [done, fails] at same
  cases same

end Catena
