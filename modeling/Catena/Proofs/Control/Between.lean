import Catena.Proofs.Control.Histories

/-!
# Runs in between

A run executes one operation after the other, and a fault goes to the innermost `try:` form
(`Run.Turn`). The machines that it has between two operations (`Amid`) are those of a run from anywhere.
-/

namespace Catena

/-- The machine at another place. -/
def Machine.goTo (m : Machine) (pc : Nat) : Machine :=
  { m with thread := { m.thread with pc } }

/-- The stack in use has no more values than there may be. -/
def Machine.Fits (m : Machine) : Prop :=
  m.thread.stack.size ≤ m.shared.config.limits.maxStackSize

namespace Run

/-- Executes one operation. If it fails, the innermost `try:` form catches the fault. -/
def turn (r : Reentry) (base : Nat) (op : Op) : Run Unit := do
  match ← attempt (step r base op) with
  | .ok () => return ()
  | .error f => recover r base f

/-- The next turn of a run. -/
structure Turn (r : Reentry) (base stop : Nat) (m : Machine) (op : Op) (n : Machine) : Prop where
  moves : m.thread.pc ≠ stop
  found : m.thread.ops[m.thread.pc]? = some op
  done : turn r base op m = .ok () n

/-- The run of one machine is, after some turns, that of the other. -/
def Reaches (r : Reentry) (base stop : Nat) (m n : Machine) : Prop :=
  ∃ turns, ∀ fuel, runOps r base stop (turns + fuel) m = runOps r base stop fuel n

section

variable {α : Type} {r : Reentry} {base stop : Nat} {m n p : Machine} {op : Op}

theorem Reaches.refl (m : Machine) : Reaches r base stop m m :=
  ⟨0, fun fuel => by rw [Nat.zero_add]⟩

theorem Reaches.trans (h : Reaches r base stop m n) (k : Reaches r base stop n p) :
    Reaches r base stop m p := by
  obtain ⟨first, h⟩ := h
  obtain ⟨rest, k⟩ := k
  refine ⟨first + rest, fun fuel => ?_⟩
  rw [Nat.add_assoc, h, k]

theorem runOps_ended (ended : m.thread.pc = stop ∨ m.thread.ops[m.thread.pc]? = none) (fuel : Nat) :
    runOps r base stop (fuel + 1) m = .ok () m := by
  rw [runOps, bind_apply, ask]
  dsimp only
  split
  · rfl
  · rename_i moves
    rw [bind_apply, ask]
    dsimp only
    rw [ended.resolve_left moves]
    rfl

/-- A run that is not at its end takes a turn first. -/
theorem runOps_turn (moves : m.thread.pc ≠ stop) (found : m.thread.ops[m.thread.pc]? = some op)
    (fuel : Nat) : runOps r base stop (fuel + 1) m =
      (turn r base op >>= fun _ => runOps r base stop fuel) m := by
  rw [runOps, bind_apply, ask]
  dsimp only
  rw [if_neg moves, bind_apply, ask]
  dsimp only
  rw [found]
  dsimp only
  rw [turn, bind_assoc, bind_apply, bind_apply]
  cases attempt (step r base op) m with
  | ok result p => cases result <;> rfl
  | error e p => rfl

theorem Turn.reaches (h : Turn r base stop m op n) : Reaches r base stop m n := by
  refine ⟨1, fun fuel => ?_⟩
  rw [Nat.add_comm, runOps_turn h.moves h.found, bind_apply, h.done]

/-- A turn executes the operation, or else a fault is caught. -/
theorem turn_cases (h : turn r base op m = .ok () n) : step r base op m = .ok () n ∨
    ∃ f p, step r base op m = .error (.fault f) p ∧ recover r base f p = .ok () n := by
  rw [turn] at h
  obtain ⟨result, p, tried, rest⟩ := bind_ok h
  rcases attempt_cases tried with ⟨a, rfl, done⟩ | ⟨f, rfl, failed⟩
  · cases rest
    exact .inl done
  · exact .inr ⟨f, p, failed, rest⟩

theorem turn_of_step (h : step r base op m = .ok () n) : turn r base op m = .ok () n := by
  rw [turn, bind_apply, attempt_ok h]
  rfl

/-- An operation is executed, what it leads to is carried out, and the stack in use may be so large. -/
theorem step_of_done {c : Control} (done : exec r op m = .ok c p) (goes : apply r base c p = .ok () n)
    (fits : n.Fits) : step r base op m = .ok () n := by
  rw [step, bind_apply, done]
  dsimp only
  rw [bind_apply, goes]
  dsimp only
  rw [bind_apply, askShared]
  dsimp only
  rw [bind_apply, ask]
  dsimp only
  rw [if_neg (Nat.not_lt.2 fits)]
  rfl

theorem done_of_step (h : step r base op m = .ok () n) :
    ∃ c p, exec r op m = .ok c p ∧ apply r base c p = .ok () n ∧ n.Fits := by
  rw [step] at h
  obtain ⟨c, p, done, h⟩ := bind_ok h
  obtain ⟨_, q, goes, h⟩ := bind_ok h
  obtain ⟨limit, q', limits, h⟩ := bind_ok h
  cases limits
  obtain ⟨size, q', sizes, h⟩ := bind_ok h
  cases sizes
  split at h
  · cases h
  · rename_i fits
    cases h
    exact ⟨c, p, done, goes, Nat.le_of_not_lt fits⟩

end

/-- A scope that is open before and after a turn stays open in it. -/
theorem Turn.holds {ops : List Op} {G : Ground} {r : Reentry} {stop i : Nat} {m n : Machine} {op : Op}
    (h : Turn r G.floor stop m op n) (hr : r.Sound ops) (pos : 1 ≤ G.base) (free : ∀ x, G.Runs ops x)
    (here : m.At ops G) (low : G.base ≤ i) (inside : i < m.thread.scopes.size)
    (inside' : i < n.thread.scopes.size) : n.At ops G ∧ m.thread.Holds i n.thread := by
  have paved := here.orderly.paved
  have found : ops[m.thread.pc]? = some op := by
    rw [← here.orderly.thread.ops, Array.getElem?_toList]
    exact h.found
  have own : m.Owns G op := fun _ => .inr (Nat.lt_of_le_of_lt low inside)
  have steps := meets_step here paved hr pos (free _) own found
  rcases turn_cases h.done with done | ⟨f, p, failed, recovered⟩
  · have went := steps.ok done
    exact ⟨went.here, went.nests i inside inside'⟩
  · have fell := steps.fault failed
    have caught := (meets_recover hr paved pos fell.orderly fell.loopBase fell.seated f).ok recovered
    obtain ⟨frame, -, -, catching, -, -, -, -, size⟩ := caught.caught
    obtain ⟨-, inner⟩ := Option.filter_eq_some_iff.1 catching
    simp only [Bool.and_eq_true, decide_eq_true_eq] at inner
    have between : i < p.thread.scopes.size := by omega
    exact ⟨caught.here, (fell.nests i inside between).trans (caught.nests i between inside')⟩

/-- Calls the value that a run is begun for. -/
def beginCall (r : Reentry) (base : Nat) (target : Value) : Run Unit := do
  apply r base (← callValue r target exitPc)

/-- Calls a value from inside an operation, in a block of its own above `base` scopes. -/
def beginNested (r : Reentry) (base : Nat) (target : Value) (args : List Value) : Run Unit := do
  openBlock true (← ask Thread.safety)
  pushEach args
  beginCall r (base + 1) target

end Run

/-- The machines that a run has between two operations. A run begins where the embedding program lets it,
or as a value is called for a thread or from inside an operation. -/
inductive Amid (depth stop : Nat) : Nat → Machine → Prop
  | run {m : Machine} : UnderWay m →
      Amid depth stop m.thread.scopes.size (m.withBase m.thread.scopes.size)
  | thread {m n : Machine} {target : Value} (tame : target.Tame)
      (begins : Run.beginCall (Run.reentry depth) m.thread.scopes.size target m = .ok () n) :
      UnderWay m → Amid depth stop m.thread.scopes.size (n.withBase m.thread.scopes.size)
  | call {m n : Machine} {target : Value} {args : List Value} (tame : target.Tame)
      (all : ∀ v ∈ args, v.Tame)
      (begins : Run.beginNested (Run.reentry depth) m.thread.scopes.size target args m = .ok () n) :
      UnderWay m → Amid depth stop (m.thread.scopes.size + 1) (n.withBase (m.thread.scopes.size + 1))
  | turn {base : Nat} {m n : Machine} {op : Op} : Amid depth stop base m →
      Run.Turn (Run.reentry depth) base stop m op n → Amid depth stop base n

section

open Run

variable {ops : List Op} {r : Reentry} {depth base stop : Nat} {m n : Machine} {target : Value}

/-- A call that begins a run leads where the scopes are right. -/
theorem adrift_begins (hr : r.Sound ops) (orderly : m.Orderly ops) (tame : target.Tame)
    (begins : beginCall r base target m = .ok () n) (size : m.thread.scopes.size = base) :
    (n.withBase base).Adrift ops base (n.withBase base).thread.pc := by
  subst size
  obtain ⟨c, p, called, goes⟩ := bind_ok begins
  obtain ⟨pc, rfl, enters⟩ := (comes_callValue orderly.paved hr tame exitPc m orderly).ok called
  cases goes
  have seated := enters.seated _ (orderly.thread.anywhere (Nat.le_refl _) exitPc)
  constructor
  · exact { enters.orderly with thread := (enters.orderly.thread.goTo pc).based _ }
  · rfl
  · exact ⟨_, _, Nat.pos_of_ne_zero orderly.thread.rooted, seated⟩

theorem Amid.adrift (h : Amid depth stop base m) : ∃ ops, m.Adrift ops base m.thread.pc := by
  induction h with
  | @run m started =>
    obtain ⟨ops, orderly⟩ := started.orderly
    have based : (m.withBase m.thread.scopes.size).Orderly ops :=
      { orderly with thread := orderly.thread.based _ }
    exact ⟨ops, .of_few based rfl (Nat.le_refl _) _⟩
  | thread tame begins started =>
    obtain ⟨ops, orderly⟩ := started.orderly
    exact ⟨ops, adrift_begins (sound_reentry ops depth) orderly tame begins rfl⟩
  | @call m n target args tame all begins started =>
    obtain ⟨ops, orderly⟩ := started.orderly
    have opens := meets_openBlock (Q := fun _ n => n.Orderly ops ∧
      n.thread = m.thread.openBlock true m.thread.safety) (E := fun _ => True) true m.thread.safety
      orderly trivial fun _ =>
        ⟨{ orderly with thread := orderly.thread.openBlock true m.thread.safety nofun }, rfl⟩
    obtain ⟨safety, p, asked, begins⟩ := bind_ok begins
    cases asked
    obtain ⟨_, p, opened, begins⟩ := bind_ok begins
    obtain ⟨orderly', same⟩ := opens.ok opened
    obtain ⟨_, q, pushed, begins⟩ := bind_ok begins
    obtain ⟨remains, -⟩ := (stable_pushEach all p orderly').ok pushed
    have size : q.thread.scopes.size = m.thread.scopes.size + 1 := by
      rw [remains.still.size, same]
      exact Array.size_push _
    exact ⟨ops, adrift_begins (sound_reentry ops depth) remains.orderly tame begins size⟩
  | @turn base m n op _ turn ih =>
    obtain ⟨ops, adrift⟩ := ih
    have hr := sound_reentry ops depth
    have found : ops[m.thread.pc]? = some op := by
      rw [← adrift.orderly.thread.ops, Array.getElem?_toList]
      exact turn.found
    have steps := adrift_step hr adrift found
    rcases turn_cases turn.done with done | ⟨f, p, failed, caught⟩
    · exact ⟨ops, steps.ok done⟩
    · obtain ⟨x, fell⟩ := steps.fault failed
      exact ⟨ops, (adrift_recover hr fell f).ok caught⟩

end

end Catena
