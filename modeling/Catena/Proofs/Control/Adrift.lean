import Catena.Proofs.Control.Runs

/-!
# Runs from anywhere

A run that goes on where another one was stopped, or at a place that the embedding program has told it,
begins in scopes of which nothing is known. It may close some of these, at the ends of forms that it has
not entered, but what it opens itself is right for the place where it is (`Machine.Adrift`). So every run
from an orderly machine leaves an orderly one, wherever it begins (`Lookout.orderly_runUntil`).
-/

namespace Catena

/-- Of the scopes that were there when a run began, so many that no exit goes below, some are left, and
those on top of them are right for a place. -/
structure Machine.Adrift (ops : List Op) (floor x : Nat) (n : Machine) : Prop where
  orderly : n.Orderly ops
  loopBase : n.thread.loopBase = floor
  seated : ∃ base low, 1 ≤ base ∧ n.thread.Seated ops (.adrift base floor low) x

/-- Scopes may have been closed, and none has been opened. -/
structure Machine.Sinks (ops : List Op) (m n : Machine) : Prop where
  orderly : n.Orderly ops
  loopBase : n.thread.loopBase = m.thread.loopBase
  size : n.thread.scopes.size ≤ m.thread.scopes.size

variable {ops : List Op} {floor x : Nat} {m n p : Machine}

/-- In the scopes that there are, every place is right. -/
theorem Thread.Orderly.anywhere {t : Thread} (h : t.Orderly ops) (low : t.scopes.size ≤ floor) (x : Nat) :
    t.Seated ops (.adrift t.scopes.size floor low) x :=
  .ground t.seats_length trivial False.elim fun _ member => t.frame_lt h.linked member

namespace Machine

theorem Adrift.of_few (orderly : m.Orderly ops) (loopBase : m.thread.loopBase = floor)
    (few : m.thread.scopes.size ≤ floor) (x : Nat) : m.Adrift ops floor x :=
  ⟨orderly, loopBase, _, few, Nat.pos_of_ne_zero orderly.thread.rooted, orderly.thread.anywhere few x⟩

theorem Sinks.refl (orderly : m.Orderly ops) : m.Sinks ops m :=
  ⟨orderly, rfl, Nat.le_refl _⟩

theorem Sinks.trans (h : m.Sinks ops n) (k : n.Sinks ops p) : m.Sinks ops p :=
  ⟨k.orderly, k.loopBase.trans h.loopBase, k.size.trans h.size⟩

theorem Remains.sinks (h : m.Remains ops n) : m.Sinks ops n :=
  ⟨h.orderly, h.still.keeps.loopBase, Nat.le_of_eq h.still.size⟩

end Machine

namespace Run

variable {α β : Type} {r : Reentry} {P : α → Prop} {op : Op}

/-- The computation opens no scope, and its answer is as told. -/
def Sinking (ops : List Op) (x : Run α) (P : α → Prop) : Prop :=
  ∀ m : Machine, m.Orderly ops → Meets ops m x (fun a n => m.Sinks ops n ∧ P a) (m.Sinks ops)

theorem Stable.sinking {x : Run α} (hx : Stable ops x P) : Sinking ops x P := by
  intro m orderly
  apply (hx m orderly).mono
  · exact fun _ _ _ both => ⟨both.1.sinks, both.2⟩
  · exact fun _ remains => remains.sinks

theorem Sinking.bind {x : Run α} {k : α → Run β} {Q : β → Prop} (hx : Sinking ops x P)
    (rest : ∀ a, P a → Sinking ops (k a) Q) : Sinking ops (x >>= k) Q := by
  intro m orderly
  apply (hx m orderly).bind
  intro a n _ both
  apply (rest a both.2 n both.1.orderly).mono
  · exact fun _ _ _ later => ⟨both.1.trans later.1, later.2⟩
  · exact fun _ later => both.1.trans later

/-- The bottom scope is not closed. -/
theorem closeScope_root (few : m.thread.scopes.size < 2) (keepTop : Bool) :
    closeScope r keepTop m = .error (.fault Fault.rootScope) m := by
  rw [closeScope, bind_apply, ask]
  dsimp only
  rw [if_pos (Nat.le_of_lt_succ few)]
  rfl

theorem sinking_closeScope (hr : r.Sound ops) (keepTop : Bool) :
    Sinking ops (closeScope r keepTop) Untold := by
  intro m orderly
  rcases Nat.lt_or_ge m.thread.scopes.size 2 with few | more
  · exact .of_fault (closeScope_root few keepTop) (.refl orderly)
  · have sinks (n : Machine) (shuts : m.Shuts ops keepTop n) : m.Sinks ops n :=
      ⟨shuts.orderly, shuts.lowered.keeps.loopBase, shuts.size ▸ Nat.sub_le _ _⟩
    apply (meets_closeScope hr keepTop orderly more).mono
    · exact fun _ n _ shuts => ⟨sinks n shuts, trivial⟩
    · exact sinks

theorem sinking_popTries : Sinking ops (alter fun t => { t with tries := t.tries.pop }) Untold := by
  intro m orderly
  have thread := orderly.thread
  have popped : Machine.Orderly ops { m with thread := { m.thread with tries := m.thread.tries.pop } } :=
    { orderly with
      thread := { thread with
        linked := thread.linked.drift (.popTries m.thread)
        all := { thread.all with } } }
  exact .of_ok rfl ⟨⟨popped, rfl, Nat.le_refl _⟩, trivial⟩

/-- An operation that ends a form opens no scope, whatever the form is. -/
theorem sinking_exec (hr : r.Sound ops) (closes : op.closesScope = true) :
    Sinking ops (exec r op) (· = .next) := by
  cases op <;> cases closes
  · exact (sinking_closeScope hr true).bind fun _ _ => (Stable.pure rfl).sinking
  · apply stable_askStack.sinking.bind
    intro items tame
    apply stable_emptied.sinking.bind
    intro _ _
    apply (sinking_closeScope hr false).bind
    intro _ _
    exact ((stable_listFrom tame).bind fun v told => (stable_push told).goOn).sinking
  · apply (Stable.asked _).sinking.bind
    intro frame? _
    apply (Stable.orFail (P := Untold) fun _ _ => trivial).sinking.bind
    intro frame _
    apply sinking_popTries.bind
    intro _ _
    apply (sinking_closeScope hr true).bind
    intro _ _
    have answers {x : Run Value} (hx : Stable ops x Value.Tame) :
        Sinking ops (do push (← x); return Control.next) (· = .next) :=
      (hx.bind fun v told => (stable_push told).goOn).sinking
    split
    · exact answers (.pure fun _ same => by cases same)
    · exact answers (stable_errorList frame.faults)

theorem adrift_step (hr : r.Sound ops) (h : m.Adrift ops floor m.thread.pc)
    (found : ops[m.thread.pc]? = some op) :
    Meets ops m (step r floor op) (fun _ n => n.Adrift ops floor n.thread.pc)
      (fun n => ∃ x, n.Adrift ops floor x) := by
  obtain ⟨orderly, loopBase, base, low, pos, seated⟩ := h
  have here : m.At ops (.adrift base floor low) := ⟨orderly, seated, loopBase⟩
  by_cases own : m.Owns (.adrift base floor low) op
  · apply (meets_step here orderly.paved hr pos (.inr (.inr ⟨base, floor, low, rfl⟩)) own found).mono
    · exact fun _ n _ went => ⟨went.here.orderly, went.here.loopBase, base, low, pos, went.here.seated⟩
    · intro n fell
      obtain ⟨y, seated⟩ := fell.seated
      exact ⟨y, fell.orderly, fell.loopBase, base, low, pos, seated⟩
  -- The end of a form that the run has not entered: what is left are scopes from before the run.
  · rw [Machine.Owns, Classical.not_imp, not_or] at own
    obtain ⟨closes, -, few⟩ := own
    have after (n : Machine) (sinks : m.Sinks ops n) (x : Nat) : n.Adrift ops floor x :=
      .of_few sinks.orderly (sinks.loopBase.trans loopBase)
        (sinks.size.trans ((Nat.le_of_not_lt few).trans low)) x
    apply Meets.bind (P := fun c n => m.Sinks ops n ∧ c = .next)
    · apply (sinking_exec hr closes m orderly).mono
      · exact fun _ _ _ both => both
      · exact fun n sinks => ⟨0, after n sinks 0⟩
    rintro _ n - ⟨sinks, rfl⟩
    have next : m.Sinks ops { n with thread := { n.thread with pc := n.thread.pc + 1 } } :=
      ⟨{ sinks.orderly with thread := sinks.orderly.thread.goTo _ }, sinks.loopBase, sinks.size⟩
    refine Meets.next (n := { n with thread := { n.thread with pc := n.thread.pc + 1 } }) rfl ?_
    apply Meets.next rfl
    apply Meets.next rfl
    split
    · exact .of_fault rfl ⟨0, after _ next 0⟩
    · exact .of_ok rfl (after _ next _)

theorem adrift_recover (hr : r.Sound ops) (h : m.Adrift ops floor x) (f : Fault) :
    Meets ops m (recover r floor f) (fun _ n => n.Adrift ops floor n.thread.pc) (·.Orderly ops) := by
  obtain ⟨orderly, loopBase, base, low, pos, seated⟩ := h
  apply (meets_recover (G := .adrift base floor low) hr orderly.paved pos orderly loopBase ⟨x, seated⟩ f).mono
  · exact fun _ n _ caught =>
      ⟨caught.here.orderly, caught.here.loopBase, base, low, pos, caught.here.seated⟩
  · exact fun n both => both.2.orderly

end Run

namespace Watch

open Run (ask Meets)

variable {r : Reentry} {stop : Nat} {target : Value}

theorem orderly_runLoop (w : Watch) (hr : r.Sound ops) (orderly : m.Orderly ops)
    (seated : ∃ base low, 1 ≤ base ∧ m.thread.Seated ops (.adrift base floor low) m.thread.pc) :
    Meets ops m (w.runLoop r floor stop) (fun _ n => n.Orderly ops) (·.Orderly ops) := by
  refine Meets.next (x := ask (·.loopBase)) rfl ?_
  refine Meets.next (n := { m with thread := { m.thread with loopBase := floor } }) rfl ?_
  have begins : Machine.Adrift ops floor m.thread.pc { m with thread := { m.thread with loopBase := floor } } :=
    ⟨{ orderly with thread := orderly.thread.based floor }, rfl, seated⟩
  have runs : Meets ops { m with thread := { m.thread with loopBase := floor } }
      (w.runOps r floor stop Run.stepLimit) (fun _ n => n.Orderly ops) (·.Orderly ops) := by
    apply (w.keeps_runOps (I := fun n => n.Adrift ops floor n.thread.pc)
      (J := fun n => ∃ x, n.Adrift ops floor x) (E := (·.Orderly ops)) (fun _ adrift => adrift.orderly)
      ?_ ?_ ?_ Run.stepLimit begins).mono
    · exact fun _ _ _ both => both.1.orderly
    · exact fun _ left => left
    · exact fun _ ⟨_, adrift⟩ => adrift.orderly
    · exact fun _ _ adrift _ found => Run.adrift_step hr adrift found
    · exact fun _ f ⟨_, adrift⟩ => Run.adrift_recover hr adrift f
  apply runs.attempt.bind
  rintro result n - (⟨a, rfl, left⟩ | ⟨f, rfl, left⟩)
  · exact .of_ok rfl { left with thread := left.thread.based _ }
  · exact .of_fault rfl { left with thread := left.thread.based _ }

/-- A value may be called as the whole work of any thread. -/
theorem orderly_runThread (w : Watch) (hr : r.Sound ops) (orderly : m.Orderly ops) (tame : target.Tame) :
    Meets ops m (w.runThread r target) (fun _ n => n.Orderly ops) (·.Orderly ops) := by
  refine Meets.next (x := ask (·.scopes.size)) rfl ?_
  apply Meets.bind (P := fun c n => m.Called ops exitPc c n)
  · apply (Run.comes_callValue orderly.paved hr tame exitPc m orderly).mono
    · exact fun _ _ _ called => called
    · exact fun _ remains => remains.orderly
  rintro _ n - ⟨pc, rfl, enters⟩
  refine Meets.next (n := { n with thread := { n.thread with pc } }) rfl ?_
  have entered := enters.seated _ (orderly.thread.anywhere (Nat.le_refl _) exitPc)
  have landed : Machine.Orderly ops { n with thread := { n.thread with pc } } :=
    { enters.orderly with thread := enters.orderly.thread.goTo pc }
  exact w.orderly_runLoop hr landed ⟨_, _, Nat.pos_of_ne_zero orderly.thread.rooted, entered⟩

end Watch

open Run (ask Meets) in
/-- A run from any place leaves an orderly machine, also where it is stopped. -/
theorem Lookout.orderly_runUntil (w : Lookout) (orderly : m.Orderly ops) (stop : Nat) :
    Meets ops m (w.runUntil stop) (fun _ n => n.Orderly ops) (·.Orderly ops) := by
  refine Meets.next (x := ask fun t => (t.id, t.pc, t.scopes.size)) rfl ?_
  apply Meets.noted orderly
  intro n noted same
  have begins : ∃ base low, 1 ≤ base ∧
      n.thread.Seated ops (.adrift base m.thread.scopes.size low) n.thread.pc := by
    rw [same]
    exact ⟨_, Nat.le_refl _, Nat.pos_of_ne_zero orderly.thread.rooted, orderly.thread.anywhere (Nat.le_refl _) _⟩
  apply (w.orderly_runLoop (w.sound_reentry ops _) noted begins).attempt.bind
  rintro result p - (⟨a, rfl, left⟩ | ⟨f, rfl, left⟩)
  · exact .of_ok rfl { left with thread := left.thread.goTo _ }
  · exact .of_fault rfl { left with thread := left.thread.goTo _ }

end Catena
