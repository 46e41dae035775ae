import Catena.Proofs.Control.Between
import Catena.Proofs.Control.Bottom
import Catena.Session

/-!
# Evaluation is balanced

A session evaluates one text after the other on the same thread, and a text may leave forms in any way:
at their ends, by exits, by a fault. After each evaluation that comes to an end, well or not, the bottom
scope is the only one, there is one value stack and no `try:` form, and the variables in force are those
that `let:` has bound outside of all forms, with their values (`Evaluated.evaluation_balanced`).
-/

namespace Catena

/-- The variables with others bound on top, one after the other. -/
def Env.having (env : Env) (lets : List (String × Value)) : Env :=
  lets.foldl (fun env b => env.insert b.1 b.2) env

/-- The variable that the next operation is about to bind outside of all forms, with its value. -/
def Machine.letAtTop? (m : Machine) : Option (String × Value) :=
  match m.thread.ops[m.thread.pc]? with
  | some (.bind name) =>
    if around m.thread.ops.toList m.thread.pc = [] ∧ m.thread.scope.binds name = false then
      m.thread.top?.map (name, ·)
    else none
  | _ => none

/-- The machines in which a run executes its operations, one after the other. -/
def Run.course (r : Reentry) (base stop : Nat) : (fuel : Nat) → Machine → List Machine
  | 0, _ => []
  | fuel + 1, m =>
    if m.thread.pc = stop then []
    else
      match m.thread.ops[m.thread.pc]? with
      | none => []
      | some op =>
        m :: match turn r base op m with
          | .ok () n => course r base stop fuel n
          | .error .. => []

/-- What a run binds outside of all forms, in order. -/
def Run.lets (r : Reentry) (base stop fuel : Nat) (m : Machine) : List (String × Value) :=
  (course r base stop fuel m).filterMap Machine.letAtTop?

namespace Engine

/-- The engine as it is about to execute the operation at a place, the first of a run from there. -/
def setOut (e : Engine) (pc : Nat) : Engine :=
  { shared := e.shared.note .debug Phase.vm.target fun _ =>
      s!"thread {e.thread.id} running from pc {pc} (stop {e.thread.ops.size})"
    thread := { e.thread with pc, loopBase := e.thread.scopes.size } }

/-- What a run from a place binds outside of all forms, in order. -/
def letsFrom (e : Engine) (pc : Nat) : List (String × Value) :=
  Run.lets Run.outermost e.thread.scopes.size e.thread.ops.size Run.stepLimit (e.setOut pc)

/-- The engine with the operations from `base` on printed, if they are asked for. -/
def announce (e : Engine) (dumpOps : Bool) (base : Nat) : Engine :=
  if dumpOps then
    let host := (e.listing base).foldl Host.printErrorLine e.shared.host
    { e with shared := { e.shared with host } }
  else e

/-- What the evaluation of a text binds outside of all forms, in order. -/
def lets (e : Engine) (dumpOps : Bool) (source : String) : List (String × Value) :=
  match e.compile source with
  | (.error _, _) => []
  | (.ok base, e) => (e.announce dumpOps base).letsFrom base

/-- The evaluation of a text comes to an end, well or not. -/
def Returns (e : Engine) (dumpOps : Bool) (source : String) : Prop :=
  (e.evalText dumpOps source).1 ≠ .error .outOfFuel

instance (e : Engine) (dumpOps : Bool) (source : String) : Decidable (e.Returns dumpOps source) :=
  match outcome : (e.evalText dumpOps source).1 with
  | .error .outOfFuel => isFalse fun returns => returns outcome
  | .error (.report _) => isTrue fun same => by rw [outcome] at same; cases same
  | .ok () => isTrue fun same => by rw [outcome] at same; cases same

end Engine

/-- The engines that a session comes to as it evaluates texts that put no label, and lets go of values in
between, each with what `let:` has bound outside of all forms so far, in order. -/
inductive Evaluated : Engine → List (String × Value) → Prop
  | new (config : Config) (log : Log.Logger) (host : Host) : Evaluated (Engine.new config log host) []
  | clear {e : Engine} {lets : List (String × Value)} : Evaluated e lets → Evaluated e.clear lets
  | eval {e : Engine} {lets : List (String × Value)} (dumpOps : Bool) (source : String)
      (quiet : Unlabelled source) (returns : e.Returns dumpOps source) :
      Evaluated e lets → Evaluated (e.evalText dumpOps source).2 (lets ++ e.lets dumpOps source)

/-! ## Between two evaluations -/

/-- Nothing is open but the bottom scope, and the loops left in it stand outside of all forms. -/
structure Thread.Alone (ops : List Op) (t : Thread) : Prop where
  size : t.scopes.size = 1
  height : t.valueStacks.size = 1
  tries : t.tries = #[]
  loops : ∀ s ∈ t.seats, s.Loops ops fun k => around ops k = []

structure Machine.Resting (ops : List Op) (m : Machine) : Prop extends m.thread.Alone ops where
  orderly : m.Orderly ops

variable {ops unit : List Op} {m n p : Machine} {pc : Nat}

namespace Env

theorem having_append (env : Env) (lets lets' : List (String × Value)) :
    env.having (lets ++ lets') = (env.having lets).having lets' := List.foldl_append

theorem Same.having {a b : Env} (h : Same a b) (lets : List (String × Value)) :
    Same (a.having lets) (b.having lets) := by
  induction lets generalizing a b with
  | nil => exact h
  | cons first rest ih => exact ih (h.insert first.1 first.2)

end Env

namespace Thread

variable {t t' : Thread}

theorem Linked.height {s : Scope} (linked : t.Linked) (only : t.scopes = #[s]) :
    t.valueStacks.size = s.stack + 1 := by
  refine (linked.linked.top s ?_).symm
  rw [only]
  rfl

namespace Alone

theorem new (id : Nat) : Alone [] { id } := by
  refine ⟨rfl, rfl, rfl, fun s member => ?_⟩
  obtain rfl := List.mem_singleton.1 member
  exact .of_none rfl

/-- Operations come behind those there are. -/
theorem append (h : t.Alone ops) (unit : List Op) :
    Alone (ops ++ unit) { t with ops := t.ops ++ unit.toArray } := by
  refine ⟨h.size, h.height, h.tries, fun s member => .append ((h.loops s member).mono ?_) unit⟩
  intro k op found _ outside
  rw [around_append (Nat.le_of_lt (List.getElem?_eq_some_iff.1 found).1), outside]

theorem still (h : t.Alone ops) (still : t.Still t') : t'.Alone ops := by
  have size := still.size.trans h.size
  refine ⟨size, still.height.trans h.height, ?_, ?_⟩
  · have none : t'.tries.toList.map TryFrame.bare = t.tries.toList.map TryFrame.bare := still.tries.1
    rw [h.tries] at none
    exact Array.toList_eq_nil_iff.1 (List.map_eq_nil_iff.1 none)
  · obtain ⟨first, only⟩ := Array.size_eq_one_iff.1 h.size
    obtain ⟨last, only'⟩ := Array.size_eq_one_iff.1 size
    have stayed := still.scopes
    rw [only, only'] at stayed
    obtain ⟨fewer, -⟩ := List.forall₂_cons.1 stayed
    intro s member
    rw [seats, only'] at member
    obtain rfl := List.mem_singleton.1 member
    have loops := h.loops first.seat (by rw [seats, only]; exact List.mem_singleton.2 rfl)
    exact loops.fewer fewer.seat

end Alone

end Thread

namespace Machine.Resting

theorem goTo (h : m.Resting ops) (pc : Nat) : Resting ops { m with thread := { m.thread with pc } } :=
  ⟨⟨h.size, h.height, h.tries, h.loops⟩, { h.orderly with thread := h.orderly.thread.goTo pc }⟩

theorem based (h : m.Resting ops) (base : Nat) :
    Resting ops { m with thread := { m.thread with loopBase := base } } :=
  ⟨⟨h.size, h.height, h.tries, h.loops⟩, { h.orderly with thread := h.orderly.thread.based base }⟩

/-- A run from a place outside of all forms may begin. -/
theorem seated (h : m.Resting ops) (home : around ops pc = []) :
    m.thread.Seated ops (.outer ops 1 False) pc := by
  refine .ground (m.thread.seats_length.trans h.size) home (fun _ s first => ?_) fun f member => ?_
  · exact (h.loops s (List.mem_of_head? first)).mono fun k op _ _ outside => ⟨outside, False.elim⟩
  · exact h.size ▸ m.thread.frame_lt h.orderly.thread.linked member

theorem new (config : Config) (log : Log.Logger) (host : Host) :
    Resting [] (Engine.new config log host) := by
  obtain ⟨id, thread⟩ : ∃ id, (Engine.new config log host).thread = { id } := ⟨_, rfl⟩
  exact ⟨thread ▸ .new id, orderly_new config log host⟩

theorem remains (h : m.Resting ops) (remains : m.Remains ops n) : n.Resting ops :=
  ⟨h.toAlone.still remains.still, remains.orderly⟩

/-- Operations come behind those there are. -/
theorem extend (h : m.Resting ops) (remains : Machine.Remains (ops ++ unit)
      { m with thread := { m.thread with ops := m.thread.ops ++ unit.toArray } } n) :
    n.Resting (ops ++ unit) :=
  ⟨(h.toAlone.append unit).still remains.still, remains.orderly⟩

end Machine.Resting

/-- Scopes that have stayed open below a run, when no others are left. -/
theorem Machine.Spans.resting (h : m.Spans ops (.outer ops 1 False) n) (begun : m.Resting ops)
    (size : n.thread.scopes.size = 1) : n.Resting ops := by
  have holds := h.holds 0 Nat.one_pos
  obtain ⟨first, only⟩ := Array.size_eq_one_iff.1 begun.size
  obtain ⟨last, only'⟩ := Array.size_eq_one_iff.1 size
  refine ⟨⟨size, ?_, ?_, ?_⟩, h.orderly⟩
  · have place := holds.place
    rw [only, only'] at place
    have stack := congrArg Scope.Place.stack (Option.some.inj place)
    calc n.thread.valueStacks.size
        = last.stack + 1 := h.orderly.thread.linked.height only'
      _ = first.stack + 1 := congrArg (· + 1) stack
      _ = 1 := (begun.orderly.thread.linked.height only).symm.trans begun.height
  · have none := holds.tries.1
    have all := Thread.framesBelow_size h.orderly.thread.linked
    rw [size] at all
    rw [begun.tries, Nat.zero_add, all] at none
    exact Array.toList_eq_nil_iff.1 (List.map_eq_nil_iff.1 none)
  · obtain ⟨y, seated⟩ := h.seated
    obtain ⟨-, loops, -⟩ := Seated.ground_of seated (n.thread.seats_length.trans size)
    intro s member
    have head : n.thread.seats.head? = some s := by
      rw [Thread.seats, only'] at member ⊢
      rw [List.mem_singleton.1 member]
      rfl
    exact (loops trivial s head).mono fun _ _ _ _ both => both.1

/-! ## What a run binds -/

/-- With more variables bound in the bottom scope, there is in force what was. -/
structure Machine.Gives (ops : List Op) (lets : List (String × Value)) (m n : Machine) : Prop where
  orderly : n.Orderly ops
  loopBase : n.thread.loopBase = m.thread.loopBase
  env : Env.Same (n.thread.under 1) ((m.thread.under 1).having lets)

/-- Nothing is open, as before, and more variables are bound. -/
structure Machine.Rests (ops : List Op) (lets : List (String × Value)) (m n : Machine) : Prop
    extends n.Resting ops where
  env : Env.Same n.thread.env (m.thread.env.having lets)

/-- Where nothing is open, all that has been opened is gone. -/
theorem Seated.length_of_outside {G : Ground} {x : Nat} {seats : List Seat} {frames : List TryFrame}
    (h : Seated ops G x seats frames) (outside : around ops x = []) : seats.length = G.base := by
  cases h with
  | ground size => exact size
  | scope inside =>
    rw [outside] at inside
    cases inside

namespace Machine

theorem Spares.gives (h : m.Spares ops n) : m.Gives ops [] n := ⟨h.orderly, h.loopBase, h.env⟩

theorem Gives.spares {lets : List (String × Value)} (h : m.Gives ops lets n) (k : n.Spares ops p) :
    m.Gives ops lets p :=
  ⟨k.orderly, k.loopBase.trans h.loopBase, k.env.trans h.env⟩

theorem Gives.trans {lets lets' : List (String × Value)} (h : m.Gives ops lets n)
    (k : n.Gives ops lets' p) : m.Gives ops (lets ++ lets') p := by
  refine ⟨k.orderly, k.loopBase.trans h.loopBase, ?_⟩
  rw [Env.having_append]
  exact k.env.trans (h.env.having lets')

/-- A place outside of all forms is one where only the bottom scope is open. -/
theorem At.outside_iff (here : m.At ops (.outer ops 1 False)) :
    around ops m.thread.pc = [] ↔ m.thread.scopes.size = 1 := by
  constructor
  · exact fun outside => m.thread.seats_length.symm.trans (Seated.length_of_outside here.seated outside)
  · exact fun size => (Seated.ground_of here.seated (m.thread.seats_length.trans size)).1

end Machine

namespace Run

variable {r : Reentry} {op : Op} {base stop : Nat}

theorem letAtTop?_other (found : m.thread.ops[m.thread.pc]? = some op)
    (other : ∀ name, op ≠ .bind name) : m.letAtTop? = none := by
  rw [Machine.letAtTop?, found]
  cases op with
  | bind name => exact absurd rfl (other name)
  | _ => rfl

theorem letAtTop?_bind (here : m.At ops (.outer ops 1 False)) {name : String}
    (found : m.thread.ops[m.thread.pc]? = some (.bind name)) :
    m.letAtTop? = if m.thread.scopes.size = 1 ∧ m.thread.scope.binds name = false then
      m.thread.top?.map (name, ·) else none := by
  rw [Machine.letAtTop?, found, here.orderly.thread.ops]
  simp only [here.outside_iff]

theorem gives_execBind (here : m.At ops (.outer ops 1 False)) {name : String}
    (found : m.thread.ops[m.thread.pc]? = some (.bind name)) :
    Meets ops m (exec r (.bind name)) (fun _ => m.Gives ops m.letAtTop?.toList)
      (m.Gives ops m.letAtTop?.toList) := by
  rw [letAtTop?_bind here found]
  apply (meets_execBind here.orderly name).mono
  · rintro c n - ⟨v, top, free, binds⟩
    refine ⟨binds.orderly, binds.loopBase, ?_⟩
    by_cases only : m.thread.scopes.size = 1
    · rw [if_pos ⟨only, free⟩, top]
      have under := n.thread.under_size
      have under' := m.thread.under_size
      rw [binds.size, only] at under
      rw [only] at under'
      rw [under, under']
      exact binds.env
    · rw [if_neg fun both => only both.1]
      have rooted := here.orderly.thread.rooted
      exact binds.below (by omega)
  · rintro n ⟨spares, top | taken⟩
    · rw [top, Option.map_none, ite_self]
      exact spares.gives
    · rw [taken, if_neg fun both => Bool.noConfusion both.2]
      exact spares.gives

theorem gives_exec (here : m.At ops (.outer ops 1 False)) (hr : r.Sound ops)
    (found : ops[m.thread.pc]? = some op) :
    Meets ops m (exec r op) (fun _ => m.Gives ops m.letAtTop?.toList)
      (m.Gives ops m.letAtTop?.toList) := by
  have there : m.thread.ops[m.thread.pc]? = some op := by
    rw [← here.orderly.thread.ops, Array.getElem?_toList] at found
    exact found
  by_cases binds : ∃ name, op = .bind name
  · obtain ⟨name, rfl⟩ := binds
    exact gives_execBind here there
  · have other : ∀ name, op ≠ .bind name := fun name is => binds ⟨name, is⟩
    have runs : Ground.Runs ops (.outer ops 1 False) m.thread.pc := .inl ⟨1, False, rfl⟩
    rw [letAtTop?_other there other]
    apply (sparing_exec here here.orderly.paved hr (Nat.le_refl 1) runs found other).mono
    · exact fun _ _ _ spares => spares.gives
    · exact fun _ spares => spares.gives

theorem gives_step (here : m.At ops (.outer ops 1 False)) (hr : r.Sound ops)
    (found : ops[m.thread.pc]? = some op) (base : Nat) :
    Meets ops m (step r base op) (fun _ => m.Gives ops m.letAtTop?.toList)
      (m.Gives ops m.letAtTop?.toList) := by
  apply (gives_exec here hr found).bind
  intro c n _ gives
  have above : 1 ≤ n.thread.loopBase := Nat.le_of_eq (gives.loopBase.trans here.loopBase).symm
  apply (sparing_carryOut hr base c n gives.orderly above).mono
  · exact fun _ _ _ later => gives.spares later.1
  · exact fun _ later => gives.spares later

theorem gives_turn (here : m.At ops (.outer ops 1 False)) (hr : r.Sound ops)
    (found : ops[m.thread.pc]? = some op) :
    Meets ops m (turn r 1 op)
      (fun _ n => n.At ops (.outer ops 1 False) ∧ m.Gives ops m.letAtTop?.toList n)
      (m.Gives ops m.letAtTop?.toList) := by
  have paved := here.orderly.paved
  have went :=
    meets_step here paved hr (Nat.le_refl 1) (.inl ⟨1, False, rfl⟩) (fun _ => .inl trivial) found
  apply (went.and (gives_step here hr found 1)).attempt.bind
  rintro result n - (⟨_, rfl, went, gives⟩ | ⟨f, rfl, fell, gives⟩)
  · exact .of_ok (n := n) rfl ⟨went.here, gives⟩
  · have caught :=
      meets_recover hr fell.orderly.paved (Nat.le_refl 1) fell.orderly fell.loopBase fell.seated f
    have above : 1 ≤ n.thread.loopBase := Nat.le_of_eq fell.loopBase.symm
    apply (caught.and (sparing_recover hr (Nat.le_refl 1) f n fell.orderly above)).mono
    · exact fun _ _ _ both => ⟨both.1.here, gives.spares both.2.1⟩
    · exact fun _ both => gives.spares both.2

theorem lets_ended (ended : m.thread.pc = stop ∨ m.thread.ops[m.thread.pc]? = none) (fuel : Nat) :
    lets r base stop (fuel + 1) m = [] := by
  rw [lets, course]
  split
  · rfl
  · rename_i moves
    rw [ended.resolve_left moves]
    rfl

theorem lets_turn (moves : m.thread.pc ≠ stop) (found : m.thread.ops[m.thread.pc]? = some op)
    (fuel : Nat) : lets r base stop (fuel + 1) m = m.letAtTop?.toList ++
      match turn r base op m with
      | .ok () n => lets r base stop fuel n
      | .error .. => [] := by
  rw [lets, course, if_neg moves, found]
  dsimp only
  rw [List.filterMap_cons]
  cases m.letAtTop? <;> cases turn r base op m <;> rfl

theorem gives_runOps (hr : r.Sound ops) (fuel : Nat) (here : m.At ops (.outer ops 1 False)) :
    Meets ops m (runOps r 1 stop fuel) (fun _ => m.Gives ops (lets r 1 stop fuel m))
      (m.Gives ops (lets r 1 stop fuel m)) := by
  induction fuel generalizing m with
  | zero => exact .exhausted here.orderly
  | succ fuel ih =>
    by_cases ended : m.thread.pc = stop ∨ m.thread.ops[m.thread.pc]? = none
    · rw [lets_ended ended]
      exact .of_ok (runOps_ended ended fuel) (Machine.Spares.refl here.orderly).gives
    obtain ⟨moves, more⟩ := not_or.1 ended
    obtain ⟨op, there⟩ := Option.ne_none_iff_exists'.1 more
    have found : ops[m.thread.pc]? = some op := by
      rw [← here.orderly.thread.ops, Array.getElem?_toList]
      exact there
    have first := gives_turn here hr found
    apply Meets.of_run (runOps_turn moves there fuel)
    rw [lets_turn moves there]
    cases run : turn r 1 op m with
    | ok _ n =>
      obtain ⟨here', gives⟩ := first.ok run
      apply Meets.next run
      exact (ih here').mono (fun _ _ _ later => gives.trans later) fun _ later => gives.trans later
    | error e n =>
      rw [Meets, bind_apply, run]
      cases e with
      | fault f => exact (List.append_nil _).symm ▸ first.fault run
      | outOfFuel => exact first.stopped run

/-- All that a run has opened is gone as it ends. -/
theorem rests_runOps (hr : r.Sound ops) (fuel : Nat) (rest : m.Resting ops)
    (here : m.At ops (.outer ops 1 False)) :
    Meets ops m (runOps r 1 ops.length fuel) (fun _ => m.Rests ops (lets r 1 ops.length fuel m))
      (m.Rests ops (lets r 1 ops.length fuel m)) := by
  have back (n : Machine) (spans : m.Spans ops (.outer ops 1 False) n)
      (size : n.thread.scopes.size = 1) (gives : m.Gives ops (lets r 1 ops.length fuel m) n) :
      m.Rests ops (lets r 1 ops.length fuel m) n := by
    have env := gives.env
    have under := n.thread.under_size
    have under' := m.thread.under_size
    rw [size] at under
    rw [rest.size] at under'
    rw [under, under'] at env
    exact ⟨spans.resting rest size, env⟩
  have runs := Watch.idle.meets_runOps hr (Nat.le_refl 1) trivial
    (fun pc (_ : pc ≠ ops.length) => .inl ⟨1, False, rfl⟩) fuel here
  rw [Watch.runOps_idle] at runs
  apply (runs.and (gives_runOps hr fuel here)).mono
  · rintro _ n - ⟨ended, gives⟩
    have behind : ops.length ≤ n.thread.pc := by
      rcases ended.stopped with stopped | none
      · exact Nat.le_of_eq stopped.symm
      · exact List.getElem?_eq_none_iff.1 none
    have outside := here.orderly.paved.balanced.around_end behind
    have length := Seated.length_of_outside ended.here outside
    exact back n ended.toSpans (n.thread.seats_length.symm.trans length) gives
  · rintro n ⟨failed, gives⟩
    exact back n failed.toSpans (Nat.le_antisymm failed.size failed.toSpans.base_le) gives

theorem rests_runLoop (hr : r.Sound ops) (rest : m.Resting ops) (home : around ops m.thread.pc = [])
    {bound : List (String × Value)}
    (is : lets r 1 ops.length stepLimit { m with thread := { m.thread with loopBase := 1 } } = bound) :
    Meets ops m (runLoop r 1 ops.length) (fun _ => m.Rests ops bound) (m.Rests ops bound) := by
  subst is
  have based := rest.based 1
  have here : Machine.At ops (.outer ops 1 False) { m with thread := { m.thread with loopBase := 1 } } :=
    ⟨based.orderly, based.seated home, rfl⟩
  refine Meets.next (x := ask (·.loopBase)) rfl ?_
  refine Meets.next (n := { m with thread := { m.thread with loopBase := 1 } }) rfl ?_
  apply (rests_runOps hr stepLimit based here).attempt.bind
  rintro result n - (⟨a, rfl, rests⟩ | ⟨f, rfl, rests⟩)
  · exact .of_ok rfl ⟨rests.toResting.based _, rests.env⟩
  · exact .of_fault rfl ⟨rests.toResting.based _, rests.env⟩

/-- A run from a place outside of all forms comes back to rest, with what it has bound there. -/
theorem rests_runFrom (rest : m.Resting ops) (home : around ops pc = []) :
    Meets ops m (runFrom pc) (fun _ => m.Rests ops (Engine.letsFrom m pc))
      (m.Rests ops (Engine.letsFrom m pc)) := by
  have stop : m.thread.ops.size = ops.length := by
    rw [← rest.orderly.thread.ops, Array.length_toList]
  let text : Unit → String := fun _ =>
    s!"thread {m.thread.id} running from pc {pc} (stop {m.thread.ops.size})"
  let noted : Machine :=
    { shared := m.shared.note .debug Phase.vm.target text, thread := { m.thread with pc } }
  have there : noted.Resting ops := by
    have store := note_store m.shared .debug Phase.vm.target text none
    have registry := note_registry m.shared .debug Phase.vm.target text none
    have gone := rest.goTo pc
    exact { gone with orderly := { gone.orderly with
      store := store ▸ gone.orderly.store
      registry := registry ▸ gone.orderly.registry } }
  have bound : lets outermost 1 ops.length stepLimit
      { noted with thread := { noted.thread with loopBase := 1 } } = Engine.letsFrom m pc := by
    have set : Engine.setOut m pc = { noted with thread := { noted.thread with loopBase := 1 } } := by
      rw [Engine.setOut, rest.size]
    rw [Engine.letsFrom, set, rest.size, stop]
  have runs := rests_runLoop (sound_reentry ops reentryLimit) there home bound
  refine Meets.next (n := { m with thread := { m.thread with pc } }) rfl ?_
  refine Meets.next (x := ask (·.ops.size)) rfl ?_
  refine Meets.next (x := ask _) rfl ?_
  refine Meets.next (n := noted) rfl ?_
  dsimp only
  rw [rest.size, stop]
  apply runs.attempt.bind
  intro result n _ ended
  have rests : m.Rests ops (Engine.letsFrom m pc) n := by
    rcases ended with ⟨_, -, rests⟩ | ⟨_, -, rests⟩ <;> exact ⟨rests.toResting, rests.env⟩
  let stopped : Machine := { n with thread := { n.thread with pc := min n.thread.pc n.thread.ops.size } }
  have gone : stopped.Resting ops := rests.toResting.goTo _
  refine Meets.next (n := stopped) rfl ?_
  exact meets_ofExcept result (fun _ => ⟨gone, rests.env⟩) ⟨gone, rests.env⟩

end Run

/-! ## Sessions -/

/-- A run from a place makes changes. -/
theorem Run.makes_runFrom (pc : Nat) : Makes (Deeds False) (runFrom pc) := by
  have rest (stop : Nat) : Makes (Deeds False) (runUntil stop) :=
    Lookout.runUntil_idle stop ▸ Lookout.idle.makes_runUntil stop
  exact Makes.bind (.alter fun t => .aside rfl rfl rfl rfl rfl rfl rfl) fun _ => (Makes.ask _).bind rest

namespace Engine

/-- An engine that waits for the next text, with variables bound so far. -/
structure Waits (ops : List Op) (lets : List (String × Value)) (e : Engine) : Prop
    extends Machine.Resting ops e where
  ready : e.shared.registry.Ready
  env : Env.Same e.thread.env (Env.having ∅ lets)

variable {e : Engine} {lets : List (String × Value)} {source : String}

namespace Waits

theorem new (config : Config) (log : Log.Logger) (host : Host) :
    Waits [] [] (Engine.new config log host) :=
  have grown := (new_gains config log host).registry.grown
  { Machine.Resting.new config log host with
    ready := grown.ready ⟨bootRegistry_standard, bootRegistry_labelled⟩
    env := .refl _ }

theorem announce (h : Waits ops lets e) (dumpOps : Bool) (base : Nat) :
    Waits ops lets (e.announce dumpOps base) := by
  rw [Engine.announce]
  split
  · exact { h with orderly := { h.orderly with } }
  · exact h

theorem clear (h : Waits ops lets e) : Waits ops lets e.clear := by
  have remains := ((Run.stable_emptied e h.orderly).ok rfl).1
  exact { h.toResting.remains remains with ready := h.ready, env := remains.still.env.trans h.env }

/-- What a text is compiled to comes behind all forms. -/
theorem compile (h : Waits ops lets e) (quiet : Unlabelled source) :
    ∃ ops', Waits ops' lets (e.compile source).2 ∧
      ∀ base, (e.compile source).1 = .ok base → around ops' base = [] := by
  obtain ⟨unit, remains, place⟩ := Run.compile_extends h.orderly h.ready quiet
  have changes : Changes False e _ := Run.makes_compile source e
  have waits : Waits (ops ++ unit) lets ((Run.compile source).after e) :=
    { h.toResting.extend remains with
      ready := changes.grown.ready h.ready
      env := remains.still.env.trans h.env }
  refine ⟨ops ++ unit, ?_⟩
  rw [Run.after] at waits
  rw [Engine.compile]
  cases made : Run.compile source e with
  | error e n =>
    rw [made] at waits
    refine ⟨waits, fun base is => ?_⟩
    cases is
  | ok base n =>
    rw [made] at waits
    refine ⟨waits, fun base' is => ?_⟩
    obtain rfl := Except.ok.inj is
    rw [place base n made, around_append (Nat.le_refl _)]
    exact h.orderly.paved.balanced.around_end (Nat.le_refl _)

theorem runFrom (h : Waits ops lets e) {base : Nat} (home : around ops base = [])
    (ends : (e.runFrom source base).1 ≠ .error .outOfFuel) :
    Waits ops (lets ++ e.letsFrom base) (e.runFrom source base).2 := by
  have runs := Run.rests_runFrom h.toResting home
  have changes : Deeds False e _ := Run.makes_runFrom base e
  have waits (n : Machine) (is : (Run.runFrom base).after e = n)
      (rests : e.Rests ops (e.letsFrom base) n) : Waits ops (lets ++ e.letsFrom base) n := by
    refine { rests.toResting with ready := ?_, env := ?_ }
    · exact is ▸ changes.changes.grown.ready h.ready
    · rw [Env.having_append]
      exact rests.env.trans (h.env.having _)
  rw [Engine.runFrom] at ends ⊢
  cases run : Run.runFrom base e with
  | ok _ n =>
    exact waits n (by rw [Run.after, run]) (runs.ok run)
  | error halt n =>
    cases halt with
    | fault f => exact waits n (by rw [Run.after, run]) (runs.fault run)
    | outOfFuel =>
      rw [run] at ends
      exact absurd rfl ends

theorem evalText (h : Waits ops lets e) {dumpOps : Bool} (quiet : Unlabelled source)
    (returns : e.Returns dumpOps source) :
    ∃ ops', Waits ops' (lets ++ e.lets dumpOps source) (e.evalText dumpOps source).2 := by
  obtain ⟨ops', waits, home⟩ := h.compile quiet
  rw [Returns, Engine.evalText] at returns
  refine ⟨ops', ?_⟩
  rw [Engine.evalText, Engine.lets]
  rcases made : e.compile source with ⟨_ | base, n⟩
  · rw [made] at waits
    rw [List.append_nil]
    exact waits
  · rw [made] at waits home returns
    exact (waits.announce dumpOps base).runFrom (home base rfl) returns

end Waits

end Engine

namespace Evaluated

theorem waits {e : Engine} {lets : List (String × Value)} (h : Evaluated e lets) :
    ∃ ops, Engine.Waits ops lets e := by
  induction h with
  | new config log host => exact ⟨[], .new config log host⟩
  | clear _ ih =>
    obtain ⟨ops, waits⟩ := ih
    exact ⟨ops, waits.clear⟩
  | eval dumpOps source quiet returns _ ih =>
    obtain ⟨ops, waits⟩ := ih
    exact waits.evalText quiet returns

/-- However the texts so far have ended, nothing is open but the bottom scope, and there is in force what they
have bound outside of all forms. -/
theorem evaluation_balanced {e : Engine} {lets : List (String × Value)} (h : Evaluated e lets) :
    e.thread.scopes.size = 1 ∧ e.thread.valueStacks.size = 1 ∧ e.thread.tries = #[] ∧
      Env.Same e.thread.env (Env.having ∅ lets) := by
  obtain ⟨ops, waits⟩ := h.waits
  exact ⟨waits.size, waits.height, waits.tries, waits.env⟩

/-- A text that fails within a list, a block and a lambda, and one after it. -/
theorem evaluation_balanced_raise : ∃ (e : Engine) (lets : List (String × Value)), Evaluated e lets ∧
    lets.map (fun b => (b.1, b.2.int?)) = [("a", some 7), ("d", some 8)] ∧
    e.thread.scopes.size = 1 ∧ e.thread.valueStacks.size = 1 ∧ e.thread.tries = #[] ∧
      Env.Same e.thread.env (Env.having ∅ lets) := by
  have failed := (new {} .silent {}).eval false
    "let: a 7; \x7b(let: b 1; [$b (5 'x' raise)])\x7d call let: c 1;" (.of_not_mem (by decide))
    (by decide +kernel)
  have went := failed.eval false "let: d $a 1 +;" (.of_not_mem (by decide)) (by decide +kernel)
  exact ⟨_, _, went, by decide +kernel, went.evaluation_balanced⟩

end Evaluated

end Catena
