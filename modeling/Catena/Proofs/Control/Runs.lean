import Catena.Proofs.Control.Rounds

/-!
# Whole runs

While a run goes on, the scopes that it may not go below stay open (`Machine.Spans`). So a call from
inside an operation comes back to where it was made, with all that was there (`sound_reentry`), however
deep such calls are inside one another. A lookout may stop runs anywhere, also as such a call begins, and
the machines in which it does are orderly.
-/

namespace Catena

/-- A run has gone on from one machine to another. The scopes that it may not go below have stayed open,
and those there are now are right for some place. -/
structure Machine.Spans (ops : List Op) (G : Ground) (m n : Machine) : Prop where
  orderly : n.Orderly ops
  loopBase : n.thread.loopBase = m.thread.loopBase
  holds : ∀ i < G.base, m.thread.Holds i n.thread
  seated : ∃ y, n.thread.Seated ops G y

/-- A run is over: it has come to its stop or past all operations. -/
structure Machine.Ended (ops : List Op) (G : Ground) (stop : Nat) (m n : Machine) : Prop
    extends m.Spans ops G n where
  here : n.thread.Seated ops G n.thread.pc
  stopped : n.thread.pc = stop ∨ ops[n.thread.pc]? = none

/-- A run has ended with a fault, and what it opened has been closed. -/
structure Machine.Failed (ops : List Op) (G : Ground) (m n : Machine) : Prop
    extends m.Spans ops G n where
  size : n.thread.scopes.size ≤ G.floor

namespace Thread

variable {t t' : Thread} {i h base : Nat}

theorem Keeps.based (a : t.Keeps i h t') (base : Nat) :
    Keeps i h { t with loopBase := base } { t' with loopBase := base } :=
  ⟨a.scopes, a.loops, a.valueStacks, a.tries, a.env, a.ops, rfl⟩

theorem Holds.based (a : t.Holds i t') (base : Nat) :
    Holds i { t with loopBase := base } { t' with loopBase := base } :=
  ⟨a.place, fun s found => (a.keeps s found).based base, a.tries⟩

theorem frame_lt (linked : t.Linked) {f : TryFrame} (member : f ∈ t.frames) : f.scope < t.scopes.size := by
  obtain ⟨g, there, rfl⟩ := List.mem_map.1 (List.mem_reverse.1 member)
  have lt := linked.linked.frame_lt there
  rwa [Array.length_toList] at lt

/-- A call from inside an operation begins in a scope of its own. -/
theorem openBlock_called {ops : List Op} (linked : t.Linked) (safety : Safety) :
    (t.openBlock true safety).Seated ops (.inner (t.scopes.size + 1)) exitPc := by
  have opened : (t.openBlock true safety).seats = _ := seats_push rfl
  rw [Thread.Seated, opened]
  apply Catena.Seated.ground
  · rw [List.length_cons, seats_length]
    rfl
  · rfl
  · intro _ s first
    obtain rfl := Option.some.inj first
    exact .of_none rfl
  · exact fun f member => Nat.lt_succ_of_lt (t.frame_lt linked member)

/-- What keeps the scope of such a call open keeps all that was there before. -/
theorem openBlock_keeps {safety : Safety} (holds : (t.openBlock true safety).Holds t.scopes.size t') :
    t.Keeps t.scopes.size t.valueStacks.size t' := by
  have found : (t.openBlock true safety).scopes[t.scopes.size]? =
      some (Scope.block safety ((t.openBlock true safety).valueStacks.size - 1) true) :=
    Array.getElem?_push_size
  have stack : (t.openBlock true safety).valueStacks.size - 1 = t.valueStacks.size := by
    rw [openBlock, if_pos rfl, Array.size_push, Nat.add_sub_cancel]
  have keeps := holds.keeps _ found
  rw [Scope.block, stack] at keeps
  have grown : t.Keeps t.scopes.size t.valueStacks.size (t.openBlock true safety) := by
    have one : (t.openBlock true safety).valueStacks = t.valueStacks ++ #[#[]] := rfl
    have none : ∀ f ∈ (#[] : Array TryFrame), t.scopes.size ≤ f.scope := fun f member =>
      absurd member (Array.not_mem_empty f)
    exact .grow Array.toList_push one Array.append_empty.symm none rfl rfl rfl
  exact grown.trans keeps

/-- What has been kept by a run in scopes on top is as it was once these are closed. -/
theorem Keeps.closed (keeps : t.Keeps t.scopes.size t.valueStacks.size t') (linked : t.Linked)
    (rooted : t.scopes.size ≠ 0) {u : Thread} (lowered : t'.Lowered 0 u) (linked' : u.Linked)
    (size : u.scopes.size = t.scopes.size) : t.Aside { u with pc := t.pc, retPc := t.retPc } := by
  have below := lowered.keeps
  rw [size] at below
  have none := (keeps.mono (Nat.le_refl _) (Nat.zero_le _)).trans (below.mono (Nat.le_refl _) (Nat.zero_le _))
  have height := none.height size linked linked' rooted
  rw [height] at below
  have back := ((keeps.trans below).goTo t.pc).goBack t.retPc
  exact back.aside size linked ⟨linked'.linked, linked'.called⟩ rooted rfl rfl

theorem Orderly.based {ops : List Op} (h : t.Orderly ops) (base : Nat) :
    Orderly ops { t with loopBase := base } :=
  ⟨⟨h.linked.linked, h.linked.called⟩, h.rooted, { h.all with }, h.cache, h.coros, h.ops⟩

end Thread

namespace Machine

variable {ops : List Op} {G : Ground} {m n p : Machine} {lost : Nat}

theorem Spans.refl (orderly : m.Orderly ops) {y : Nat} (seated : m.thread.Seated ops G y) :
    m.Spans ops G m :=
  ⟨orderly, rfl, fun i _ => .refl i _, y, seated⟩

theorem Spans.trans (h : m.Spans ops G n) (k : n.Spans ops G p) : m.Spans ops G p :=
  ⟨k.orderly, k.loopBase.trans h.loopBase, fun i low => (h.holds i low).trans (k.holds i low), k.seated⟩

theorem Spans.base_le (h : m.Spans ops G n) : G.base ≤ n.thread.scopes.size := by
  obtain ⟨y, seated⟩ := h.seated
  exact n.thread.seats_length ▸ Seated.base_le seated

theorem At.base_le (here : m.At ops G) : G.base ≤ m.thread.scopes.size :=
  m.thread.seats_length ▸ Seated.base_le here.seated

theorem Spans.of_nests (above : G.base ≤ m.thread.scopes.size) (orderly : n.Orderly ops)
    (loopBase : n.thread.loopBase = m.thread.loopBase) (nests : m.thread.Nests n.thread)
    (seated : ∃ y, n.thread.Seated ops G y) : m.Spans ops G n := by
  obtain ⟨y, right⟩ := seated
  have above' : G.base ≤ n.thread.scopes.size := n.thread.seats_length ▸ Seated.base_le right
  exact ⟨orderly, loopBase, fun i low => nests i (by omega) (by omega), y, right⟩

theorem Went.spans (h : m.Went ops G lost n) (before : m.At ops G) : m.Spans ops G n :=
  .of_nests before.base_le h.here.orderly (h.here.loopBase.trans before.loopBase.symm) h.nests
    ⟨_, h.here.seated⟩

theorem Fell.spans (h : m.Fell ops G lost n) (before : m.At ops G) : m.Spans ops G n :=
  .of_nests before.base_le h.orderly (h.loopBase.trans before.loopBase.symm) h.nests h.seated

/-- A fault that is caught keeps open what it left open. -/
theorem Caught.spans {f : Fault} (h : n.Caught ops G f p) (before : m.Spans ops G n)
    (loopBase : n.thread.loopBase = G.floor) : m.Spans ops G p :=
  before.trans (.of_nests before.base_le h.here.orderly (h.here.loopBase.trans loopBase.symm) h.nests
    ⟨_, h.here.seated⟩)

theorem Closes.spans {left : Nat} (h : m.Closes ops 0 left n) (above : G.base ≤ left)
    (seated : ∃ y, m.thread.Seated ops G y) : m.Spans ops G n := by
  obtain ⟨y, seated⟩ := seated
  have before : G.base ≤ m.thread.scopes.size := m.thread.seats_length ▸ Seated.base_le seated
  exact .of_nests before h.orderly h.lowered.keeps.loopBase
    (h.lowered.nests (Nat.zero_le _) h.orderly.thread.linked)
    (h.lowered.seated h.orderly.thread.linked (h.size ▸ above) seated)

end Machine

/-- A watch that may also stop a run as a call from inside an operation begins. -/
structure Lookout extends Watch where
  begins : Value → List Value → Machine → Bool

namespace Lookout

/-- Runs inside runs, up to `depth` of them inside one another. -/
def reentry (w : Lookout) : (depth : Nat) → Reentry
  | 0 => { call := fun _ _ => Run.exhausted, runThread := fun _ => Run.exhausted }
  | depth + 1 =>
    { call := fun target args => do
        Run.haltIf (w.begins target args)
        w.callNested (w.reentry depth) target args
      runThread := fun target => w.runThread (w.reentry depth) target }

/-- Runs until the program counter is `stop` or past all operations. -/
def runUntil (w : Lookout) (stop : Nat) : Run Unit := do
  let (id, pc, base) ← Run.ask fun t => (t.id, t.pc, t.scopes.size)
  Run.note .debug fun _ => s!"thread {id} running from pc {pc} (stop {stop})"
  let result ← Run.attempt (w.runLoop (w.reentry Run.reentryLimit) base stop)
  Run.alter fun t => { t with pc := min t.pc t.ops.size }
  Run.ofExcept result

/-- The lookout that stops nothing. -/
def idle : Lookout := { Watch.idle with begins := fun _ _ _ => false }

theorem reentry_idle (depth : Nat) : idle.reentry depth = Run.reentry depth := by
  induction depth with
  | zero => rfl
  | succ depth ih =>
    rw [reentry, Run.reentry, Reentry.mk.injEq, ih]
    constructor
    · funext target args
      exact Watch.callNested_idle ..
    · funext target
      exact congrArg (Run.ask (·.scopes.size) >>= ·) (funext fun _ => Watch.runCall_idle ..)

/-- A run on which nobody looks out is the run itself. -/
theorem runUntil_idle (stop : Nat) : idle.runUntil stop = Run.runUntil stop := by
  simp only [runUntil, Run.runUntil, Run.outermost, reentry_idle, ← Watch.runLoop_idle]
  rfl

end Lookout

namespace Run

theorem meets_ofExcept {α : Type} {ops : List Op} {m : Machine} {Q : α → Machine → Prop}
    {E : Machine → Prop} (result : Except Fault α) (passes : ∀ a, Q a m) (fails : E m) :
    Meets ops m (ofExcept result) Q E := by
  cases result with
  | ok a => exact .of_ok (n := m) rfl (passes a)
  | error f => exact .of_fault (n := m) rfl fails

/-- Here a run may be stopped. -/
theorem Meets.halt {α : Type} {ops : List Op} {m : Machine} {test : Machine → Bool} {k : Unit → Run α}
    {Q : α → Machine → Prop} {E : Machine → Prop} (orderly : m.Orderly ops)
    (rest : Meets ops m (k ()) Q E) : Meets ops m (haltIf test >>= k) Q E := by
  by_cases halts : test m = true
  · have stops : (haltIf test >>= k) m = .error .outOfFuel m := by
      rw [bind_apply, haltIf, if_pos halts]
    rwa [Meets, stops]
  · exact .next (by rw [haltIf, if_neg halts]) rest

end Run

namespace Watch

open Run (ask Meets Stable)

variable {ops : List Op} {G : Ground} {r : Reentry} {m n : Machine} {stop : Nat} {target : Value}
  {args : List Value}

/-! ## A run -/

/-- What each step of a run keeps, and each fault that is caught, is kept by the run. -/
theorem keeps_runOps (w : Watch) {base : Nat} {I J E : Machine → Prop} (orderly : ∀ n, I n → n.Orderly ops)
    (fallen : ∀ n, J n → n.Orderly ops)
    (step : ∀ n op, I n → n.thread.pc ≠ stop → ops[n.thread.pc]? = some op →
      Meets ops n (Run.step r base op) (fun _ => I) J)
    (recover : ∀ n f, J n → Meets ops n (Run.recover r base f) (fun _ => I) E) (fuel : Nat) (first : I m) :
    Meets ops m (w.runOps r base stop fuel)
      (fun _ n => I n ∧ (n.thread.pc = stop ∨ ops[n.thread.pc]? = none)) E := by
  induction fuel generalizing m with
  | zero => exact .exhausted (orderly m first)
  | succ fuel ih =>
    apply Meets.halt (orderly m first)
    refine Meets.next (x := ask (·.pc)) rfl ?_
    split
    · rename_i stopped
      exact .of_ok (n := m) rfl ⟨first, .inl stopped⟩
    rename_i moves
    refine Meets.next (x := ask (·.ops[m.thread.pc]?)) rfl ?_
    have asked : m.thread.ops[m.thread.pc]? = ops[m.thread.pc]? := by
      rw [← (orderly m first).thread.ops, Array.getElem?_toList]
    dsimp only
    rw [asked]
    cases found : ops[m.thread.pc]? with
    | none => exact .of_ok (n := m) rfl ⟨first, .inr found⟩
    | some op =>
      apply (step m op first moves found).attempt.bind
      rintro result n - (⟨a, rfl, goes⟩ | ⟨f, rfl, fell⟩)
      · exact ih goes
      · apply Meets.halt (fallen n fell)
        exact (recover n f fell).bind fun _ p _ caught => ih caught

theorem meets_runOps (w : Watch) (hr : r.Sound ops) (pos : 1 ≤ G.base) (known : G.known)
    (runs : ∀ pc, pc ≠ stop → G.Runs ops pc) (fuel : Nat) (here : m.At ops G) :
    Meets ops m (w.runOps r G.floor stop fuel) (fun _ n => m.Ended ops G stop n) (m.Failed ops G) := by
  apply (w.keeps_runOps (I := fun n => m.Spans ops G n ∧ n.At ops G)
    (J := fun n => m.Spans ops G n ∧ n.thread.loopBase = G.floor) (E := m.Failed ops G)
    (fun _ both => both.1.orderly) (fun _ both => both.1.orderly) ?_ ?_ fuel ⟨.refl here.orderly here.seated, here⟩).mono
  · exact fun _ n _ ⟨⟨spans, here⟩, stopped⟩ => ⟨spans, here.seated, stopped⟩
  · exact fun _ failed => failed
  · rintro n op ⟨spans, here⟩ moves found
    apply (Run.meets_step here here.orderly.paved hr pos (runs _ moves) (fun _ => .inl known) found).mono
    · exact fun _ p _ went => ⟨spans.trans (went.spans here), went.here⟩
    · exact fun p fell => ⟨spans.trans (fell.spans here), fell.loopBase⟩
  · rintro n f ⟨spans, loopBase⟩
    apply (Run.meets_recover hr spans.orderly.paved pos spans.orderly loopBase spans.seated f).mono
    · exact fun _ p _ caught => ⟨caught.spans spans loopBase, caught.here⟩
    · rintro p ⟨-, closes⟩
      have above := Nat.le_min.2 ⟨spans.base_le, G.low⟩
      exact ⟨spans.trans (closes.spans above spans.seated), closes.size ▸ Nat.min_le_right _ _⟩

theorem meets_runLoop (w : Watch) (hr : r.Sound ops) (pos : 1 ≤ G.base) (known : G.known)
    (runs : ∀ pc, pc ≠ stop → G.Runs ops pc) (orderly : m.Orderly ops)
    (seated : m.thread.Seated ops G m.thread.pc) :
    Meets ops m (w.runLoop r G.floor stop) (fun _ n => m.Ended ops G stop n) (m.Failed ops G) := by
  refine Meets.next (x := ask (·.loopBase)) rfl ?_
  refine Meets.next (n := { m with thread := { m.thread with loopBase := G.floor } }) rfl ?_
  have here : Machine.At ops G { m with thread := { m.thread with loopBase := G.floor } } :=
    ⟨{ orderly with thread := orderly.thread.based G.floor }, seated, rfl⟩
  have back (n : Machine) (spans : Machine.Spans ops G
      { m with thread := { m.thread with loopBase := G.floor } } n) :
      m.Spans ops G { n with thread := { n.thread with loopBase := m.thread.loopBase } } :=
    ⟨{ spans.orderly with thread := spans.orderly.thread.based _ }, rfl,
      fun i low => (spans.holds i low).based m.thread.loopBase, spans.seated⟩
  apply (w.meets_runOps hr pos known runs Run.stepLimit here).attempt.bind
  rintro result n - (⟨a, rfl, ended⟩ | ⟨f, rfl, failed⟩)
  · exact .of_ok rfl ⟨back n ended.toSpans, ended.here, ended.stopped⟩
  · exact .of_fault rfl ⟨back n failed.toSpans, failed.size⟩

/-- A call runs until it is over, where the scopes are right for the end of a call. -/
theorem meets_runCall (w : Watch) (hr : r.Sound ops) {base : Nat} (pos : 1 ≤ base)
    (orderly : m.Orderly ops) (seated : m.thread.Seated ops (.inner base) exitPc) (tame : target.Tame) :
    Meets ops m (w.runCall r target base) (fun _ n => m.Spans ops (.inner base) n)
      (m.Spans ops (.inner base)) := by
  have paved := orderly.paved
  have above : base ≤ m.thread.scopes.size := m.thread.seats_length ▸ Seated.base_le seated
  have linked := orderly.thread.linked
  apply Meets.bind (P := fun c n => m.Called ops exitPc c n)
  · apply (Run.comes_callValue paved hr tame exitPc m orderly).mono
    · exact fun _ _ _ called => called
    · intro n remains
      exact .of_nests above remains.orderly remains.still.keeps.loopBase (remains.still.nests linked)
        ⟨_, remains.still.seated seated⟩
  rintro _ n - ⟨pc, rfl, enters⟩
  refine Meets.next (n := { n with thread := { n.thread with pc } }) rfl ?_
  have entered := enters.seated (.inner base) seated
  have spans : m.Spans ops (.inner base) { n with thread := { n.thread with pc } } :=
    .of_nests above { enters.orderly with thread := enters.orderly.thread.goTo pc } enters.loopBase
      (enters.nests.goTo pc) ⟨pc, entered⟩
  have runs : ∀ pc, pc ≠ exitPc → (Ground.inner base).Runs ops pc := fun pc other =>
    .inr (.inl ⟨base, rfl, other⟩)
  apply (w.meets_runLoop hr pos trivial runs spans.orderly entered).mono
  · exact fun _ p _ ended => spans.trans ended.toSpans
  · exact fun p failed => spans.trans failed.toSpans

/-! ## Runs inside runs -/

theorem aside_callAside (w : Watch) (hr : r.Sound ops) (orderly : m.Orderly ops) (tame : target.Tame)
    (all : ∀ v ∈ args, v.Tame) :
    Meets ops m (w.callAside r target args)
      (fun answer n => (n.Orderly ops ∧ m.thread.Aside n.thread) ∧ ∀ v, answer = some v → v.Tame)
      (fun n => n.Orderly ops ∧ m.thread.Aside n.thread) := by
  have thread := orderly.thread
  have linked := thread.linked
  have rooted := thread.rooted
  refine Meets.next (x := ask fun t => (t.pc, t.retPc, t.scopes.size)) rfl ?_
  refine Meets.next (x := ask Thread.safety) rfl ?_
  apply Meets.bind (P := fun _ n => n.Orderly ops ∧ n.thread = m.thread.openBlock true m.thread.safety)
  · apply Run.meets_openBlock true _ orderly ⟨orderly, .refl _⟩
    exact fun _ => ⟨{ orderly with thread := thread.openBlock true m.thread.safety nofun }, rfl⟩
  rintro _ m₁ - ⟨opened, same⟩
  have called : Thread.Seated ops _ exitPc _ := m.thread.openBlock_called linked m.thread.safety
  rw [← same] at called
  obtain ⟨remains, -⟩ := (Run.stable_pushEach all m₁ opened).ok rfl
  refine Meets.next (a := ()) (n := { m₁ with thread := m₁.thread.pushAll args.toArray }) rfl ?_
  generalize { m₁ with thread := m₁.thread.pushAll args.toArray } = m₂ at remains ⊢
  have seated := remains.still.seated called
  apply (w.meets_runCall hr (Nat.le_add_left 1 _) remains.orderly seated tame).attempt.bind
  intro result n _ outcome
  have spans : m₂.Spans ops (.inner (m.thread.scopes.size + 1)) n := by
    rcases outcome with ⟨a, -, spans⟩ | ⟨f, -, spans⟩ <;> exact spans
  have size := spans.base_le
  change m.thread.scopes.size + 1 ≤ n.thread.scopes.size at size
  have keeps : m.thread.Keeps m.thread.scopes.size m.thread.valueStacks.size n.thread := by
    have one : m₁.thread.scopes.size = m.thread.scopes.size + 1 := by
      rw [same]
      exact Array.size_push _
    have below := remains.still.nests opened.thread.linked m.thread.scopes.size (by omega)
      (by rw [remains.still.size]; omega)
    exact m.thread.openBlock_keeps (same ▸ below.trans (spans.holds _ (Nat.lt_succ_self _)))
  refine Meets.next (x := ask _) (n := n) rfl ?_
  have closes := Run.meets_unwindTo hr m.thread.scopes.size false spans.orderly
  rw [show min n.thread.scopes.size (max m.thread.scopes.size 1) = m.thread.scopes.size by omega] at closes
  apply closes.attempt.bind
  intro closed p _ outcome
  have closes : n.Closes ops 0 m.thread.scopes.size p := by
    rcases outcome with ⟨a, -, closes⟩ | ⟨f, -, closes⟩ <;> exact closes
  let came : Machine := { p with thread := { p.thread with pc := m.thread.pc, retPc := m.thread.retPc } }
  refine Meets.next (a := ()) (n := came) rfl ?_
  have back : came.Orderly ops ∧ m.thread.Aside came.thread :=
    ⟨{ closes.orderly with thread := (closes.orderly.thread.goTo m.thread.pc).goBack m.thread.retPc },
      keeps.closed linked rooted closes.lowered closes.orderly.thread.linked closes.size⟩
  have top : ∀ v, (do
      let scope ← n.thread.scopes[m.thread.scopes.size]?
      let stack ← n.thread.valueStacks[scope.stack]?
      stack.back?) = some v → v.Tame := by
    intro v found
    obtain ⟨scope, -, found⟩ := Option.bind_eq_some_iff.1 found
    obtain ⟨stack, there, found⟩ := Option.bind_eq_some_iff.1 found
    exact spans.orderly.thread.all.valueStacks stack (Array.mem_of_getElem? there) v
      (Array.mem_of_back? found)
  apply Meets.bind (P := fun _ q => q = came)
  · exact Run.meets_ofExcept result (fun _ => rfl) back
  rintro _ q - rfl
  apply Meets.bind (P := fun _ q => q = came)
  · exact Run.meets_ofExcept closed (fun _ => rfl) back
  rintro _ q - rfl
  exact .of_ok rfl ⟨back, top⟩

/-- A call from inside an operation comes back to where it was made, with all that was there. -/
theorem aside_callNested (w : Watch) (hr : r.Sound ops) (orderly : m.Orderly ops) (tame : target.Tame)
    (all : ∀ v ∈ args, v.Tame) :
    Meets ops m (w.callNested r target args)
      (fun answer n => (n.Orderly ops ∧ m.thread.Aside n.thread) ∧ ∀ v, answer = some v → v.Tame)
      (fun n => n.Orderly ops ∧ m.thread.Aside n.thread) := by
  apply (w.aside_callAside hr orderly tame all).attempt.bind
  rintro result n - (⟨answer, rfl, aside, told⟩ | ⟨f, rfl, aside⟩)
  · exact .halt aside.1 (.of_ok rfl ⟨aside, told⟩)
  · exact .halt aside.1 (.of_fault rfl aside)

theorem meets_runThread (w : Watch) (hr : r.Sound ops) (orderly : m.Orderly ops) (tame : target.Tame)
    {t : Thread} {id : Nat} (forked : m.thread = t.fork id) :
    Meets ops m (w.runThread r target) (fun _ n => n.Orderly ops) (fun n => n.Orderly ops) := by
  have one : m.thread.scopes.size = 1 := by
    rw [forked]
    rfl
  have seated : m.thread.Seated ops (.inner 1) exitPc := by
    rw [forked]
    refine .ground rfl rfl (fun _ s first => ?_) nofun
    obtain rfl := Option.some.inj first
    exact .of_none rfl
  refine Meets.next (x := ask (·.scopes.size)) rfl ?_
  dsimp only
  rw [one]
  apply (w.meets_runCall hr (Nat.le_refl 1) orderly seated tame).mono
  · exact fun _ _ _ spans => spans.orderly
  · exact fun _ spans => spans.orderly

end Watch

/-- Runs inside runs come back to where they were begun, however deep they may go. -/
theorem Lookout.sound_reentry (w : Lookout) (ops : List Op) (depth : Nat) :
    (w.reentry depth).Sound ops := by
  induction depth with
  | zero => exact ⟨fun _ _ _ _ _ => .exhausted, fun _ _ _ _ _ orderly _ => .exhausted orderly⟩
  | succ depth ih =>
    constructor
    · exact fun target args tame all m orderly =>
        .halt orderly (w.aside_callNested ih orderly tame all)
    · exact fun target tame m t id orderly forked => w.meets_runThread ih orderly tame forked

theorem Run.sound_reentry (ops : List Op) (depth : Nat) : (Run.reentry depth).Sound ops :=
  Lookout.reentry_idle depth ▸ Lookout.idle.sound_reentry ops depth

end Catena
