import Catena.Proofs.Control.Between

/-!
# A loop over a sequence is a fold

A `for` loop is spread over four operations and a record in the scope where it runs. To run it is to pull
its iterator and to call its body with each item in turn, on the stack there is then, until there are no
more items (`Run.Fed`). Whatever the calls do in the scopes above, other loops or the same loop again, the
record of the loop stays what it is, unless a `break` lets go of it. Then the run is at the end of the loop,
in the same scope, and the record is gone (`Amid.for_folds`). This is so if no record of an earlier run of
the loop is left in the scope where it begins, and in a scope that the run has opened itself there is none.
-/

namespace Catena

/-! ## Calls that come back -/

theorem Thread.modifyScope_push {t : Thread} {lower : Array Scope} {s : Scope}
    (scopes : t.scopes = lower.push s) (f : Scope → Scope) : (t.modifyScope f).scopes = lower.push (f s) := by
  rw [modifyScope, scopes, Array.size_push, Nat.add_sub_cancel]
  exact Run.modify_push ..

namespace Thread.Rests

variable {t t' : Thread} {depth k : Nat}

/-- The innermost scope is told apart. -/
theorem iff_push {lower lower' : Array Scope} {s s' : Scope} (scopes : t.scopes = lower.push s)
    (scopes' : t'.scopes = lower'.push s') (same : lower'.size = lower.size) :
    t.Rests t.scopes.size t' ↔
      (List.Forall₂ Scope.Stayed lower.toList lower'.toList ∧ s.Stayed s') ∧
      (t.Unbroken → lower'.toList.map Scope.loops = lower.toList.map Scope.loops ∧ s'.loops = s.loops) ∧
      t'.ops = t.ops := by
  have size : t'.scopes.size = t.scopes.size := by
    rw [scopes, scopes', Array.size_push, Array.size_push, same]
  have stays : List.Forall₂ Scope.Stayed (t.scopes.toList.take t.scopes.size)
      (t'.scopes.toList.take t.scopes.size) ↔
      List.Forall₂ Scope.Stayed lower.toList lower'.toList ∧ s.Stayed s' := by
    rw [List.take_of_length_le (by rw [Array.length_toList]),
      List.take_of_length_le (by rw [Array.length_toList, size]), scopes, scopes', Array.toList_push,
      Array.toList_push, ← List.forall₂_reverse_iff, List.reverse_append, List.reverse_append]
    simp [and_comm]
  have loops : t'.loops.take t.scopes.size = t.loops.take t.scopes.size ↔
      lower'.toList.map Scope.loops = lower.toList.map Scope.loops ∧ s'.loops = s.loops := by
    rw [List.take_of_length_le (by rw [length_loops, size]), List.take_of_length_le (by rw [length_loops]),
      Thread.loops, Thread.loops, scopes, scopes', Array.toList_push, Array.toList_push, List.map_append,
      List.map_append, List.map_singleton, List.map_singleton]
    constructor
    · intro all
      obtain ⟨below, top⟩ := List.append_inj' all rfl
      exact ⟨below, List.singleton_inj.1 top⟩
    · rintro ⟨below, top⟩
      rw [below, top]
  constructor
  · rintro ⟨scopes, same, ops⟩
    exact ⟨stays.1 scopes, fun unbroken => loops.1 (same unbroken), ops⟩
  · rintro ⟨scopes, same, ops⟩
    exact ⟨stays.2 scopes, fun unbroken => loops.2 (same unbroken), ops⟩

theorem top (h : t.Rests t.scopes.size t') (size : t'.scopes.size = t.scopes.size)
    (rooted : t.scopes.size ≠ 0) :
    t.scope.Stayed t'.scope ∧ (t.Unbroken → t'.scope.loops = t.scope.loops) := by
  obtain ⟨lower, s, scopes⟩ := Array.exists_push_of_size_pos (Nat.pos_of_ne_zero rooted)
  obtain ⟨lower', s', scopes'⟩ := Array.exists_push_of_size_pos (Nat.pos_of_ne_zero (size ▸ rooted))
  rw [scopes, scopes', Array.size_push, Array.size_push] at size
  obtain ⟨⟨-, stayed⟩, loops, -⟩ := (iff_push scopes scopes' (Nat.succ.inj size)).1 h
  rw [scope, scope, scopes, scopes', Array.back?_push, Array.back?_push]
  exact ⟨stayed, fun unbroken => (loops unbroken).2⟩

/-- No loop has come to the innermost scope. -/
theorem fresh (h : t.Rests t.scopes.size t') (size : t'.scopes.size = t.scopes.size)
    (rooted : t.scopes.size ≠ 0) (gone : t.scope.loops.find? k = none) :
    t'.scope.loops.find? k = none := by
  obtain ⟨stayed, -⟩ := h.top size rooted
  rw [Option.eq_none_iff_forall_ne_some]
  intro st found
  have old := stayed.loops k st found
  exact Option.some_ne_none st (old.symm.trans gone)

/-- A loop of the innermost scope that still runs is as it was, and if no operation leaves a loop, it still
runs. -/
theorem loop (h : t.Rests t.scopes.size t') (size : t'.scopes.size = t.scopes.size)
    (rooted : t.scopes.size ≠ 0) (runs : t.Unbroken ∨ (t'.scope.loops.find? k).isSome = true)
    {st : LoopState} (found : t.scope.loops.find? k = some st) : t'.scope.loops.find? k = some st := by
  obtain ⟨stayed, same⟩ := h.top size rooted
  rcases runs with unbroken | runs
  · rw [same unbroken]
    exact found
  · obtain ⟨st', found'⟩ := Option.isSome_iff_exists.1 runs
    have old := stayed.loops k st' found'
    exact found'.trans (old.symm.trans found)

end Thread.Rests

namespace Run

/-- A call comes back to place `back`: it is done at once, or it goes on in scopes above the lowest `depth`
until its lambda returns from there, at its end or before. -/
inductive Returns (r : Reentry) (base stop depth back : Nat) : Machine → Machine → Prop
  | atOnce {m : Machine} (size : m.thread.scopes.size = depth) (place : m.thread.pc = back) :
      Returns r base stop depth back m m
  | last {m n : Machine} {op : Op} {i : Nat} (inside : depth < m.thread.scopes.size)
      (moves : m.thread.pc ≠ stop) (found : m.thread.ops[m.thread.pc]? = some op)
      (exits : exec r op = exitReturn i) (done : step r base op m = .ok () n)
      (size : n.thread.scopes.size = depth) (place : n.thread.pc = back) :
      Returns r base stop depth back m n
  | turn {m n p : Machine} {op : Op} (inside : depth < m.thread.scopes.size)
      (goes : Turn r base stop m op n) (above : depth < n.thread.scopes.size) :
      Returns r base stop depth back n p → Returns r base stop depth back m p

variable {ops : List Op} {G : Ground} {r : Reentry} {base stop depth back : Nat} {m n : Machine} {op : Op}

theorem Returns.reaches (h : Returns r base stop depth back m n) : Reaches r base stop m n := by
  induction h with
  | atOnce => exact .refl _
  | last _ moves found _ done => exact Turn.reaches ⟨moves, found, turn_of_step done⟩
  | turn _ goes _ _ ih => exact goes.reaches.trans ih

/-- The stack of the caller does not outgrow its limit. -/
theorem Returns.fits (h : Returns r base stop depth back m n)
    (begins : m.Fits ∨ depth < m.thread.scopes.size) : n.Fits := by
  induction h with
  | atOnce size => exact begins.resolve_right (by omega)
  | last _ _ _ _ done =>
    obtain ⟨-, -, -, -, fits⟩ := done_of_step done
    exact fits
  | turn _ _ above _ ih => exact ih (.inr above)

/-- The scopes below are there still after a turn of a call. -/
theorem Turn.rests (h : Turn r G.floor stop m op n) (hr : r.Sound ops) (pos : 1 ≤ G.base)
    (free : ∀ x, G.Runs ops x) (here : m.At ops G) (low : G.base ≤ depth)
    (inside : depth < m.thread.scopes.size) (above : depth < n.thread.scopes.size) :
    n.At ops G ∧ m.thread.Rests depth n.thread := by
  obtain ⟨here', holds⟩ := h.holds hr pos free here low inside above
  exact ⟨here', .of_keeps (holds.keeps _ (Array.getElem?_eq_getElem inside))⟩

/-- A return closes the scopes above the lambda's caller. -/
theorem rests_exitReturn {i : Nat} (hr : r.Sound ops) (orderly : m.Orderly ops)
    (exits : exec r op = exitReturn i) (done : step r base op m = .ok () n) :
    m.thread.Rests n.thread.scopes.size n.thread := by
  obtain ⟨c, p, left, goes, -⟩ := done_of_step done
  rw [exits] at left
  obtain ⟨j, q, found, answer⟩ := bind_ok left
  have scope : Meets ops m (lambdaScope i) _ _ := meets_lambdaScope i m
  obtain ⟨rfl, -⟩ := scope.ok found
  obtain ⟨place, q, asked, answer⟩ := bind_ok answer
  cases asked
  cases answer
  rw [apply] at goes
  split at goes
  · cases goes
  · obtain ⟨_, p, closed, goes⟩ := bind_ok goes
    have closes := (meets_unwindTo hr j true orderly).ok closed
    cases goes
    exact (Thread.Rests.of_keeps closes.lowered.keeps).goTo _

/-- When a call has come back, the scopes are those that it was made in. -/
theorem Returns.rests (h : Returns r G.floor stop depth back m n) (hr : r.Sound ops) (pos : 1 ≤ G.base)
    (free : ∀ x, G.Runs ops x) (here : m.At ops G) (low : G.base ≤ depth) :
    n.At ops G ∧ m.thread.Rests depth n.thread ∧ n.thread.scopes.size = depth ∧ n.thread.pc = back := by
  induction h with
  | @atOnce m size place => exact ⟨here, size ▸ (Thread.Still.refl _).rests, size, place⟩
  | @last m n op i inside _ found exits done size place =>
    have there : ops[m.thread.pc]? = some op := by
      rw [← here.orderly.thread.ops, Array.getElem?_toList]
      exact found
    have own : m.Owns G op := fun _ => .inr (Nat.lt_of_le_of_lt low inside)
    have went := (meets_step here here.orderly.paved hr pos (free _) own there).ok done
    have rests := rests_exitReturn hr here.orderly exits done
    exact ⟨went.here, size ▸ rests, size, place⟩
  | turn inside goes above _ ih =>
    obtain ⟨between, first⟩ := goes.rests hr pos free here low inside above
    obtain ⟨there, rest, arrived⟩ := ih between
    exact ⟨there, first.trans rest, arrived⟩

end Run

/-! ## A loop -/

/-- A loop of the innermost scope has not been let go of, as there are no operations that leave a loop, or
as it still runs. -/
def Machine.Keeps (m : Machine) (pc : Nat) : Prop :=
  m.thread.Unbroken ∨ (m.thread.scope.loops.find? pc).isSome = true

namespace Run

/-- Takes the body and the sequence of a `for` loop off the stack. -/
def takeFor : Run (Ref × Value) := do
  let body ← pop
  let seq ← pop
  return (← iterate seq, body)

/-- Pushes an item and calls the body of a loop. -/
def feed (r : Reentry) (base : Nat) (body v : Value) (back : Nat) : Run Unit := do
  push v
  apply r base (← callValue r body back)

/-- An iterator is pulled until it has no more items, and the body of the loop at `pc` is called with each.
A pull that has nothing yet is made again, and each call comes back to the loop. If there are operations
that leave a loop, none has let go of this one. -/
inductive Fed (r : Reentry) (base stop pc : Nat) (iter : Ref) (body : Value) :
    List Value → Machine → Machine → Prop
  | done {m n : Machine} (runs : m.Keeps pc) (pulled : pull r iter m = .ok .done n) (fits : n.Fits) :
      Fed r base stop pc iter body [] m n
  | pending {vs : List Value} {m n p : Machine} (runs : m.Keeps pc)
      (pulled : pull r iter m = .ok .pending n) (fits : n.Fits) :
      Fed r base stop pc iter body vs n p → Fed r base stop pc iter body vs m p
  | item {v : Value} {vs : List Value} {m n q u p : Machine} (runs : m.Keeps pc)
      (pulled : pull r iter m = .ok (.item v) n) (called : feed r base body v (pc + 1) n = .ok () q)
      (fits : q.Fits) (returns : Returns r base stop m.thread.scopes.size (pc + 1) q u) :
      Fed r base stop pc iter body vs (u.goTo pc) p → Fed r base stop pc iter body (v :: vs) m p

end Run

namespace Machine

/-- A loop runs in the innermost scope. -/
def looping (m : Machine) (pc : Nat) (loop : LoopState) : Machine :=
  { m with thread := m.thread.modifyScope fun s => { s with loops := s.loops.insert pc loop } }

theorem looping_record (m : Machine) (rooted : m.thread.scopes.size ≠ 0) (pc : Nat) (loop : LoopState) :
    (m.looping pc loop).thread.scope.loops.find? pc = some loop := by
  obtain ⟨lower, s, scopes⟩ := Array.exists_push_of_size_pos (Nat.pos_of_ne_zero rooted)
  have began := Thread.modifyScope_push scopes fun s => { s with loops := s.loops.insert pc loop }
  rw [Thread.scope, looping, began, Array.back?_push]
  exact (s.loops.find?_insert ..).trans (if_pos rfl)

/-- The loop that ran in the innermost scope is over, and control is behind it. -/
def behindLoop (m : Machine) (pc : Nat) : Machine :=
  (m.dropLoop pc).goTo (pc + 2)

/-- A run is at a `for` loop that runs. -/
structure InLoop (ops : List Op) (G : Ground) (pc : Nat) (iter : Ref) (body : Value) (m : Machine) :
    Prop where
  here : m.At ops G
  place : m.thread.pc = pc
  record : m.thread.scope.loops.find? pc = some ⟨.for iter body, pc + 2⟩

end Machine

namespace Run

/-- What a loop does with what the pull of its iterator gave. -/
def round (r : Reentry) (pc : Nat) (body : Value) : Pulled → Run Control
  | .item v => do push v; callValue r body (pc + 1)
  | .pending => return .jump pc
  | .done => do alterLoops (·.erase pc); return .jump (pc + 2)

section

variable {r : Reentry} {m n : Machine} {iter : Ref} {body : Value} {loop : LoopState} {donePc back x : Nat}

theorem exec_for {l : Label} (place : l.pc = some x) (r : Reentry) (m : Machine) :
    exec r (.for (some l)) m = endOnFault (stepFor r x) m := by
  have ends : endPc "for" (some l) m = .ok x m := by
    show labelPc l m = _
    rw [labelPc, place]
    rfl
  rw [exec, bind_apply, ends]

theorem endOnFault_ok {step : Run Control} {c : Control} (done : step m = .ok c n) :
    endOnFault step m = .ok c n := by
  rw [endOnFault, bind_apply, attempt_ok done]
  rfl

/-- A loop that does not run yet begins and goes on like one that runs. -/
theorem stepFor_begins (fresh : m.thread.scope.loops.find? m.thread.pc = none)
    (taken : takeFor m = .ok (iter, body) n) : stepFor r donePc m =
      nextFor r m.thread.pc donePc (n.looping m.thread.pc ⟨.for iter body, donePc⟩) := by
  have parts (pc : Nat) : beginFor pc donePc = (takeFor >>= fun parts =>
      alterLoops (·.insert pc ⟨.for parts.1 parts.2, donePc⟩)) := by
    simp only [beginFor, takeFor, bind_assoc, pure_bind]
  have begun : beginFor m.thread.pc donePc m =
      .ok () (n.looping m.thread.pc ⟨.for iter body, donePc⟩) := by
    rw [parts, bind_apply, taken]
    rfl
  simp only [stepFor, bind_apply, ask, loopAt?, fresh, Option.isNone_none, if_true, begun]

theorem stepFor_goesOn (runs : m.thread.scope.loops.find? m.thread.pc = some loop) :
    stepFor r donePc m = nextFor r m.thread.pc donePc m := by
  simp only [stepFor, bind_apply, ask, loopAt?, runs, Option.isNone_some, Bool.false_eq_true, if_false]

theorem nextFor_runs (runs : m.thread.scope.loops.find? x = some ⟨.for iter body, back⟩) :
    nextFor r x (x + 2) m = (pull r iter >>= round r x body) m := by
  rw [nextFor, bind_apply, loopAt?, ask]
  dsimp only
  rw [runs]
  rfl

end

section

variable {ops : List Op} {G : Ground} {r : Reentry} {base stop pc depth : Nat} {m n p : Machine} {iter : Ref}
  {body : Value} {finish : Label} {vs : List Value}

theorem Fed.keeps (h : Fed r base stop pc iter body vs m p) : m.Keeps pc := by
  cases h <;> assumption

/-- A loop that still runs is as it was. -/
theorem stays_looping (h : m.InLoop ops G pc iter body) (here : n.At ops G)
    (rests : m.thread.Rests m.thread.scopes.size n.thread)
    (size : n.thread.scopes.size = m.thread.scopes.size) (place : n.thread.pc = pc)
    (fed : Fed r base stop pc iter body vs n p) : n.InLoop ops G pc iter body := by
  have runs : m.thread.Unbroken ∨ (n.thread.scope.loops.find? pc).isSome = true :=
    fed.keeps.imp_left fun unbroken => unbroken.of_ops rests.ops.symm
  exact ⟨here, place, rests.loop size h.here.orderly.thread.rooted runs h.record⟩

/-- At a loop, the run makes a turn with what comes of a pull. -/
theorem turn_for (h : m.InLoop ops G pc iter body) (found : ops[pc]? = some (.for (some finish)))
    (done : finish.pc = some (pc + 2)) (apart : pc ≠ stop) {pulled : Pulled} {q : Machine} {c : Control}
    (pulls : pull r iter m = .ok pulled q) (next : round r pc body pulled q = .ok c p)
    (goes : apply r base c p = .ok () n) (fits : n.Fits) :
    Turn r base stop m (.for (some finish)) n := by
  obtain ⟨here, rfl, record⟩ := h
  have there : m.thread.ops[m.thread.pc]? = some (.for (some finish)) := by
    rw [← Array.getElem?_toList, here.orderly.thread.ops]
    exact found
  have round : exec r (.for (some finish)) m = .ok c p := by
    rw [exec_for done]
    apply endOnFault_ok
    rw [stepFor_goesOn record, nextFor_runs record, bind_apply, pulls]
    exact next
  exact ⟨apart, there, turn_of_step (step_of_done round goes fits)⟩

/-- A machine that has come to the jump of a loop goes on at the loop. -/
theorem reaches_loop (orderly : m.Orderly ops) (found : ops[pc]? = some (.for (some finish)))
    (place : m.thread.pc = pc + 1) (fits : m.Fits) (apart : ¬ Near pc stop) :
    Reaches r base stop m (m.goTo pc) := by
  obtain ⟨start, -, pos, before, there, behind, -⟩ := orderly.paved.loop_at found rfl
  rw [← orderly.thread.ops, Array.getElem?_toList] at before behind
  have outside : stop ≠ pc - 1 ∧ stop ≠ pc + 1 := by
    constructor
    · rintro rfl
      exact apart ⟨by omega, by omega⟩
    · rintro rfl
      exact apart ⟨by omega, by omega⟩
  have back : Turn r base stop m (.jump start.name (some start)) (m.goTo (pc - 1)) := by
    constructor
    · rw [place]
      exact outside.2.symm
    · rw [place]
      exact behind
    · apply turn_of_step
      refine step_of_done (c := .jump (pc - 1)) (p := m) ?_ rfl fits
      have jumps : jumpPc start.name (some start) m = .ok (pc - 1) m := by
        show labelPc start m = _
        rw [labelPc, there]
        rfl
      rw [exec, bind_apply, jumps]
      rfl
  have on : Turn r base stop (m.goTo (pc - 1)) (.target start) (m.goTo pc) := by
    constructor
    · exact outside.1.symm
    · exact before
    · apply turn_of_step
      refine step_of_done (c := .next) (p := m.goTo (pc - 1)) rfl ?_ fits
      rw [apply, alter]
      simp only [Machine.goTo, Nat.sub_add_cancel pos]
  exact back.reaches.trans on.reaches

/-- With an item the run makes a turn into the body of a loop. -/
theorem turn_feed (h : m.InLoop ops G pc iter body) (hr : r.Sound ops) (free : ∀ x, G.Runs ops x)
    (found : ops[pc]? = some (.for (some finish))) (done : finish.pc = some (pc + 2)) (apart : pc ≠ stop)
    {v : Value} (pulled : pull r iter m = .ok (.item v) n)
    (called : feed r G.floor body v (pc + 1) n = .ok () p) (fits : p.Fits) :
    Turn r G.floor stop m (.for (some finish)) p ∧ p.At ops G ∧
      m.thread.Rests m.thread.scopes.size p.thread := by
  obtain ⟨remains, tame⟩ := (stable_pull hr iter m h.here.orderly).ok pulled
  have paved := h.here.orderly.paved
  have stands := remains.stands h.here
  -- The item is pushed.
  obtain ⟨_, n', pushed, calls⟩ := bind_ok called
  obtain ⟨still, -⟩ := (stable_push tame n remains.orderly).ok pushed
  have stands' := still.stands stands.here
  have place : n'.thread.pc = pc := stands'.pc.trans (stands.pc.trans h.place)
  have size : n'.thread.scopes.size = m.thread.scopes.size := stands'.size.trans stands.size
  -- The body is called.
  obtain ⟨c, q, calls, goes⟩ := bind_ok calls
  have callee : body.Tame := h.here.orderly.thread.all.scope.loops.find? h.record
  obtain ⟨entry, rfl, enters⟩ := (comes_callValue paved hr callee (pc + 1) n' still.orderly).ok calls
  have next : round r pc body (.item v) n = .ok (.jump entry) q := by
    rw [round, bind_apply, pushed]
    exact calls
  have turn := turn_for h found done apart pulled next goes fits
  cases goes
  have jump : n'.thread.Seated ops G (pc + 1) := by
    have seated := stands'.here.seated
    rw [place] at seated
    exact seated.around_loop paved (free _) found rfl ⟨by omega, by omega⟩ ⟨by omega, by omega⟩
  have entered : Machine.At ops G (q.goTo entry) :=
    ⟨{ enters.orderly with thread := enters.orderly.thread.goTo entry }, enters.seated G jump,
      enters.loopBase.trans stands'.here.loopBase⟩
  have second := still.still.rests
  have third := enters.rests
  rw [stands.size] at second
  rw [size] at third
  exact ⟨turn, entered, ((remains.still.rests.trans second).trans third).goTo entry⟩

/-- When the body of a loop has come back, the run is at the loop again. -/
theorem Returns.again (h : Returns r G.floor stop depth (pc + 1) m n) (hr : r.Sound ops)
    (pos : 1 ≤ G.base) (free : ∀ x, G.Runs ops x) (found : ops[pc]? = some (.for (some finish)))
    (apart : ¬Near pc stop) (here : m.At ops G) (low : G.base ≤ depth) (fits : m.Fits) :
    Reaches r G.floor stop m (n.goTo pc) ∧ (n.goTo pc).At ops G ∧
      m.thread.Rests depth (n.goTo pc).thread ∧ (n.goTo pc).thread.scopes.size = depth := by
  obtain ⟨there, rests, size, place⟩ := h.rests hr pos free here low
  have loops : Reaches r G.floor stop n (n.goTo pc) :=
    reaches_loop there.orderly found place (h.fits (.inl fits)) apart
  have seated : n.thread.Seated ops G pc := by
    have seated := there.seated
    rw [place] at seated
    exact seated.around_loop here.orderly.paved (free _) found rfl ⟨by omega, by omega⟩
      ⟨by omega, by omega⟩
  have orderly : Machine.Orderly ops (n.goTo pc) :=
    { there.orderly with thread := there.orderly.thread.goTo pc }
  exact ⟨h.reaches.trans loops, ⟨orderly, seated, there.loopBase⟩, rests.goTo pc, size⟩

/-- From a loop that runs, the run comes to the place behind it when its body has been called with all the
items. -/
theorem Fed.reaches (fed : Fed r G.floor stop pc iter body vs m p) (hr : r.Sound ops) (pos : 1 ≤ G.base)
    (free : ∀ x, G.Runs ops x) (found : ops[pc]? = some (.for (some finish)))
    (done : finish.pc = some (pc + 2)) (apart : ¬Near pc stop) (h : m.InLoop ops G pc iter body) :
    ∃ n, Turn r G.floor stop m (.for (some finish)) n ∧ Reaches r G.floor stop n (p.behindLoop pc) ∧
      m.thread.Rests m.thread.scopes.size p.thread ∧ p.thread.scopes.size = m.thread.scopes.size := by
  have here : pc ≠ stop := by
    rintro rfl
    exact apart ⟨Nat.le_succ _, Nat.le_succ _⟩
  induction fed with
  | @done m n runs pulled fits =>
    obtain ⟨remains, -⟩ := (stable_pull hr iter m h.here.orderly).ok pulled
    have turn : Turn r G.floor stop m _ (n.behindLoop pc) :=
      turn_for h found done here pulled rfl rfl fits
    exact ⟨_, turn, .refl _, remains.still.rests, remains.still.size⟩
  | @pending vs m n p runs pulled fits rest ih =>
    obtain ⟨remains, -⟩ := (stable_pull hr iter m h.here.orderly).ok pulled
    have stands := remains.stands h.here
    have same : n.goTo pc = n := by
      rw [← h.place, ← stands.pc]
      rfl
    have turn : Turn r G.floor stop m _ (n.goTo pc) := turn_for h found done here pulled rfl rfl fits
    rw [same] at turn
    have rests := remains.still.rests
    have again := stays_looping h stands.here rests stands.size (stands.pc.trans h.place) rest
    obtain ⟨q, next, reaches, kept, size⟩ := ih again
    rw [stands.size] at kept size
    exact ⟨n, turn, next.reaches.trans reaches, rests.trans kept, size⟩
  | @item v vs m n q u p runs pulled called fits returns rest ih =>
    obtain ⟨turn, entered, first⟩ := turn_feed h hr free found done here pulled called fits
    have low : G.base ≤ m.thread.scopes.size := m.thread.seats_length ▸ Seated.base_le h.here.seated
    obtain ⟨back, there, second, size⟩ := returns.again hr pos free found apart entered low fits
    have kept := first.trans second
    have again := stays_looping h there kept size rfl rest
    obtain ⟨w, next, reaches, later, size'⟩ := ih again
    rw [size] at later size'
    exact ⟨q, turn, (back.trans next.reaches).trans reaches, kept.trans later, size'⟩

end

end Run

/-! ## The whole loop -/

namespace Run

/-- A machine that begins a loop goes on like one that is in it. -/
theorem turn_congr {r : Reentry} {base x : Nat} {m n : Machine} {finish : Label}
    (place : finish.pc = some x) (same : stepFor r x m = stepFor r x n) :
    turn r base (.for (some finish)) m = turn r base (.for (some finish)) n := by
  have execs : exec r (.for (some finish)) m = exec r (.for (some finish)) n := by
    rw [exec_for place, exec_for place, endOnFault, bind_apply, bind_apply, attempt, attempt, same]
  rw [turn, bind_apply, bind_apply, attempt, attempt, step, bind_apply, bind_apply, execs]

/-- The body of a loop is no label. -/
theorem stable_takeFor {ops : List Op} : Stable ops takeFor fun parts => parts.2.Tame := by
  apply stable_pop.bind
  intro body tame
  apply stable_pop.seq
  intro seq
  exact (stable_iterate seq).bind fun _ _ => .pure tame

end Run

/-- What is written under a new key is gone without trace when the key is taken out. -/
theorem Dict.erase_insert {d : Dict Nat LoopState} {k : Nat} (fresh : d.find? k = none) (st : LoopState) :
    (d.insert k st).erase k = d := by
  obtain ⟨entries⟩ := d
  change Dict.lookup k entries = none at fresh
  change Dict.mk ((Dict.put k st entries).filter fun e => e.1 ≠ k) = _
  congr
  induction entries with
  | nil => simp [Dict.put]
  | cons e rest ih =>
    obtain ⟨k', old⟩ := e
    rw [Dict.lookup] at fresh
    split at fresh
    · cases fresh
    · rename_i other
      rw [Dict.put, if_neg other, List.filter_cons_of_pos (by simpa using other), ih fresh]

/-- A loop that began in the innermost scope is over: all scopes are as before. -/
theorem Thread.Rests.ended {t u : Thread} {pc : Nat} {loop : LoopState}
    (h : (t.modifyScope fun s => { s with loops := s.loops.insert pc loop }).Rests t.scopes.size u)
    (size : u.scopes.size = t.scopes.size) (rooted : t.scopes.size ≠ 0)
    (fresh : t.scope.loops.find? pc = none) :
    t.Rests t.scopes.size (u.modifyScope fun s => { s with loops := s.loops.erase pc }) := by
  obtain ⟨lower, s, scopes⟩ := Array.exists_push_of_size_pos (Nat.pos_of_ne_zero rooted)
  obtain ⟨lower', s', scopes'⟩ := Array.exists_push_of_size_pos (Nat.pos_of_ne_zero (size ▸ rooted))
  rw [scope, scopes, Array.back?_push] at fresh
  have same : lower'.size = lower.size := by
    rw [scopes, scopes', Array.size_push, Array.size_push] at size
    exact Nat.succ.inj size
  have began := modifyScope_push scopes fun s => { s with loops := s.loops.insert pc loop }
  have whole : t.scopes.size =
      (t.modifyScope fun s => { s with loops := s.loops.insert pc loop }).scopes.size := by
    rw [began, scopes, Array.size_push, Array.size_push]
  rw [whole, iff_push began scopes' same] at h
  obtain ⟨⟨below, stayed⟩, loops, ops⟩ := h
  rw [iff_push scopes (modifyScope_push scopes' _) same]
  refine ⟨⟨below, ?_, fun k st found => ?_⟩, fun unbroken => ?_, ops⟩
  · have unlooped := stayed.same
    exact unlooped
  · change (s'.loops.erase pc).find? k = some st at found
    rw [Dict.find?_erase] at found
    split at found
    · cases found
    · rename_i other
      have kept := stayed.loops k st found
      change (s.loops.insert pc loop).find? k = some st at kept
      rwa [Dict.find?_insert, if_neg other] at kept
  · obtain ⟨under, top⟩ := loops unbroken
    refine ⟨under, ?_⟩
    change s'.loops.erase pc = s.loops
    rw [top]
    exact Dict.erase_insert fresh loop

/-- In a scope that a run has opened there is only the record of the loop that the run is at. -/
theorem Machine.Adrift.near {ops : List Op} {floor x : Nat} {m : Machine} (h : m.Adrift ops floor x)
    (inside : floor < m.thread.scopes.size) {k : Nat} {st : LoopState}
    (found : m.thread.scope.loops.find? k = some st) : Near k x := by
  obtain ⟨orderly, -, base, low, -, seated⟩ := h
  obtain ⟨lower, s, scopes⟩ := Array.exists_push_of_size_pos (Nat.pos_of_ne_zero orderly.thread.rooted)
  obtain ⟨rest, seats, -⟩ := Thread.seats_modifyScope scopes id
  have length := m.thread.seats_length
  rw [seats, List.length_cons] at length
  have above : base ≤ rest.length := by omega
  rw [Thread.Seated, seats] at seated
  obtain ⟨-, -, -, -, -, -, -, loops, -⟩ := seated.top above
  rw [Thread.scope, scopes, Array.back?_push] at found
  exact (loops k st found).2.2

/-- Where a loop begins, the run is in it once its record has been made. -/
theorem Machine.At.begins {ops : List Op} {G : Ground} {m n : Machine} {op : Op} {iter : Ref} {body : Value}
    (here : m.At ops G) (free : ∀ x, G.Runs ops x) (found : ops[m.thread.pc]? = some op)
    (isLoop : op.isLoop = true) (taken : Run.takeFor m = .ok (iter, body) n) :
    m.Remains ops n ∧ Machine.InLoop ops G m.thread.pc iter body
      (n.looping m.thread.pc ⟨.for iter body, m.thread.pc + 2⟩) := by
  obtain ⟨remains, tame⟩ := (Run.stable_takeFor m here.orderly).ok taken
  have stands := remains.stands here
  have standing := Run.standing_addLoop stands.here (free _) (stands.pc ▸ found) isLoop (.for iter body) tame
  rw [stands.pc] at standing
  obtain ⟨begun, -⟩ := standing.ok rfl
  have record := n.looping_record stands.here.orderly.thread.rooted m.thread.pc
    ⟨.for iter body, m.thread.pc + 2⟩
  exact ⟨remains, begun.here, begun.pc.trans stands.pc, record⟩

/-- In a scope that the run has opened there is only the record of the loop that it is at. A `for` loop of
which no record is in the scope where it begins is a fold: once its body has been called with each item in
turn, the run is at the end label of the loop, in the same scopes, and their loops are those that there were
before. -/
theorem Amid.for_folds {depth stop base : Nat} {m : Machine} (h : Amid depth stop base m) :
    (base < m.thread.scopes.size → ∀ k, ¬Near k m.thread.pc → m.thread.scope.loops.find? k = none) ∧
    ∀ (done : Option Label) (iter : Ref) (body : Value) (vs : List Value) (n p : Machine),
      m.thread.ops[m.thread.pc]? = some (.for done) → ¬Near m.thread.pc stop →
      m.thread.scope.loops.find? m.thread.pc = none → Run.takeFor m = .ok (iter, body) n →
      Run.Fed (Run.reentry depth) base stop m.thread.pc iter body vs
        (n.looping m.thread.pc ⟨.for iter body, m.thread.pc + 2⟩) p →
      (∃ finish, done = some finish ∧ finish.pc = some (m.thread.pc + 2)) ∧
      Run.Reaches (Run.reentry depth) base stop m (p.behindLoop m.thread.pc) ∧
      (p.behindLoop m.thread.pc).thread.scopes.size = m.thread.scopes.size ∧
      (p.behindLoop m.thread.pc).thread.scope.loops.find? m.thread.pc = none ∧
      m.thread.Rests m.thread.scopes.size (p.behindLoop m.thread.pc).thread := by
  obtain ⟨ops, adrift⟩ := h.adrift
  constructor
  · intro inside k far
    rw [Option.eq_none_iff_forall_ne_some]
    exact fun st found => far (adrift.near inside found)
  · intro done iter body vs n p found apart fresh taken fed
    obtain ⟨orderly, loopBase, low, few, pos, seated⟩ := adrift
    have rooted := orderly.thread.rooted
    let G : Ground := .adrift low base few
    have free (x : Nat) : G.Runs ops x := .inr (.inr ⟨low, base, few, rfl⟩)
    have here : m.At ops G := ⟨orderly, seated, loopBase⟩
    have there : ops[m.thread.pc]? = some (.for done) := by
      rw [← orderly.thread.ops, Array.getElem?_toList]
      exact found
    obtain ⟨-, finish, -, -, -, -, shape, place, -⟩ := orderly.paved.loop_at there rfl
    obtain rfl : done = some finish := by
      rcases shape with same | same
      · exact Op.for.inj same
      · cases same
    -- The loop begins, and its rounds follow.
    obtain ⟨remains, looping⟩ := here.begins free there rfl taken
    obtain ⟨q, turn, reaches, rests, size⟩ :=
      fed.reaches (Run.sound_reentry ops depth) pos free there place apart looping
    have first : Run.Turn (Run.reentry depth) base stop m (.for (some finish)) q := by
      refine ⟨fun same => apart (same ▸ ⟨Nat.le_succ _, Nat.le_succ _⟩), found, ?_⟩
      have goesOn : Run.stepFor (Run.reentry depth) (m.thread.pc + 2)
          (n.looping m.thread.pc ⟨.for iter body, m.thread.pc + 2⟩) = _ :=
        Run.stepFor_goesOn (by rw [looping.place]; exact looping.record)
      rw [looping.place, ← Run.stepFor_begins fresh taken] at goesOn
      rw [Run.turn_congr place goesOn.symm]
      exact turn.done
    -- Behind it, the scopes are those that there were.
    have same : (n.looping m.thread.pc ⟨.for iter body, m.thread.pc + 2⟩).thread.scopes.size =
        n.thread.scopes.size := Array.size_modify
    have behind : (p.behindLoop m.thread.pc).thread.scopes.size = m.thread.scopes.size :=
      Array.size_modify.trans (size.trans (same.trans remains.still.size))
    have fresh' := remains.still.rests.fresh remains.still.size rooted fresh
    have ended : n.thread.Rests n.thread.scopes.size (p.behindLoop m.thread.pc).thread := by
      rw [same] at rests size
      exact (Thread.Rests.ended rests size (remains.still.size ▸ rooted) fresh').goTo _
    rw [remains.still.size] at ended
    have all := remains.still.rests.trans ended
    exact ⟨⟨finish, rfl, place⟩, first.reaches.trans reaches, behind, all.fresh behind rooted fresh, all⟩

/-! ## Loops that are run through -/

namespace Run

section

variable (r : Reentry) (base stop : Nat)

instance (m : Machine) : Decidable m.Fits := inferInstanceAs (Decidable (_ ≤ _))

/-- The next turn, if there is one. -/
def next? (m : Machine) : Option (Op × Machine) :=
  if m.thread.pc = stop then none
  else m.thread.ops[m.thread.pc]?.bind fun op =>
    ((turn r base op).answer? m).map fun _ => (op, (turn r base op).after m)

/-- So many turns. -/
def turns? : Nat → Machine → Option Machine
  | 0, m => some m
  | k + 1, m => (next? r base stop m).bind fun (_, n) => turns? k n

/-- The end of a lambda, if it goes back to place `back` in so many scopes. -/
def returned? (depth back : Nat) (op : Op) (m : Machine) : Option Machine :=
  match op with
  | .unlambda _ => ((step r base op).answer? m).bind fun _ =>
    let n := (step r base op).after m
    if n.thread.scopes.size = depth ∧ n.thread.pc = back then some n else none
  | _ => none

/-- Where a call comes back. -/
def returns? (depth back : Nat) : Nat → Machine → Option Machine
  | 0, _ => none
  | fuel + 1, m =>
    if m.thread.scopes.size = depth ∧ m.thread.pc = back then some m
    else if depth < m.thread.scopes.size then
      (next? r base stop m).bind fun (op, n) =>
        if depth < n.thread.scopes.size then returns? depth back fuel n
        else returned? r base depth back op m
    else none

/-- The items that a loop takes, and what its last pull leaves. -/
def fed? (pc : Nat) (iter : Ref) (body : Value) : Nat → Machine → Option (List Value × Machine)
  | 0, _ => none
  | fuel + 1, m =>
    let n := (pull r iter).after m
    if (m.thread.scope.loops.find? pc).isSome then
      match (pull r iter).answer? m with
      | none => none
      | some .done => if n.Fits then some ([], n) else none
      | some .pending => if n.Fits then fed? pc iter body fuel n else none
      | some (.item v) =>
        let q := (feed r base body v (pc + 1)).after n
        if ((feed r base body v (pc + 1)).answer? n).isSome ∧ q.Fits then
          (returns? r base stop m.thread.scopes.size (pc + 1) fuel q).bind fun u =>
            (fed? pc iter body fuel (u.goTo pc)).map fun (vs, p) => (v :: vs, p)
        else none
    else none

end

section

variable {r : Reentry} {base stop pc depth back fuel : Nat} {m n : Machine} {op : Op}

theorem turn_of_next? (h : next? r base stop m = some (op, n)) : Turn r base stop m op n := by
  rw [next?] at h
  split at h
  · cases h
  · rename_i moves
    obtain ⟨op, found, h⟩ := Option.bind_eq_some_iff.1 h
    obtain ⟨_, done, same⟩ := Option.map_eq_some_iff.1 h
    cases same
    exact ⟨moves, found, answer?_eq_some done⟩

theorem last_of_returned? (inside : depth < m.thread.scopes.size) (moves : m.thread.pc ≠ stop)
    (found : m.thread.ops[m.thread.pc]? = some op) (h : returned? r base depth back op m = some n) :
    Returns r base stop depth back m n := by
  unfold returned? at h
  split at h
  · obtain ⟨_, done, h⟩ := Option.bind_eq_some_iff.1 h
    dsimp only at h
    split at h
    · rename_i arrived
      cases h
      exact .last inside moves found rfl (answer?_eq_some done) arrived.1 arrived.2
    · cases h
  · cases h

theorem returns_of_returns? (h : returns? r base stop depth back fuel m = some n) :
    Returns r base stop depth back m n := by
  induction fuel generalizing m with
  | zero => cases h
  | succ fuel ih =>
    rw [returns?] at h
    split at h
    · rename_i arrived
      cases h
      exact .atOnce arrived.1 arrived.2
    · split at h
      · rename_i inside
        obtain ⟨⟨op, q⟩, next, h⟩ := Option.bind_eq_some_iff.1 h
        have goes := turn_of_next? next
        dsimp only at h
        split at h
        · rename_i above
          exact .turn inside goes above (ih h)
        · exact last_of_returned? inside goes.moves goes.found h
      · cases h

theorem fed_of_fed? {iter : Ref} {body : Value} {vs : List Value}
    (h : fed? r base stop pc iter body fuel m = some (vs, n)) : Fed r base stop pc iter body vs m n := by
  induction fuel generalizing m vs with
  | zero => cases h
  | succ fuel ih =>
    rw [fed?] at h
    dsimp only at h
    split at h
    · rename_i runs
      split at h
      · cases h
      · rename_i pulled
        split at h
        · rename_i fits
          cases h
          exact .done (.inr runs) (answer?_eq_some pulled) fits
        · cases h
      · rename_i pulled
        split at h
        · rename_i fits
          exact .pending (.inr runs) (answer?_eq_some pulled) fits (ih h)
        · cases h
      · rename_i v pulled
        split at h
        · rename_i called
          obtain ⟨⟨⟩, answers⟩ := Option.isSome_iff_exists.1 called.1
          obtain ⟨u, returns, h⟩ := Option.bind_eq_some_iff.1 h
          obtain ⟨⟨ws, p⟩, rest, same⟩ := Option.map_eq_some_iff.1 h
          cases same
          exact .item (.inr runs) (answer?_eq_some pulled) (answer?_eq_some answers) called.2
            (returns_of_returns? returns) (ih rest)
        · cases h
    · cases h

end

end Run

theorem Amid.turns {depth stop base k : Nat} {m n : Machine} (h : Amid depth stop base m)
    (goes : Run.turns? (Run.reentry depth) base stop k m = some n) : Amid depth stop base n := by
  induction k generalizing m with
  | zero => cases goes; exact h
  | succ k ih =>
    obtain ⟨⟨op, p⟩, next, rest⟩ := Option.bind_eq_some_iff.1 goes
    exact ih (h.turn (Run.turn_of_next? next)) rest

/-- A machine that is to add up what is in a list and in the list within it. -/
def Machine.adding : Machine :=
  (Run.compile "func: add (I64) + ; func: add (List) \x7b add \x7d for ; 0 [1 [2 3]] add").after
    (Engine.new {} .silent {})

/-- A loop that runs in one scope and, for its second item, in another one as well. -/
theorem Amid.for_folds_adding : ∃ m iter body v w n p, Amid 2 23 1 m ∧ 1 < m.thread.scopes.size ∧
    Run.takeFor m = .ok (iter, body) n ∧
    Run.Fed (Run.reentry 2) 1 23 m.thread.pc iter body [v, w]
      (n.looping m.thread.pc ⟨.for iter body, m.thread.pc + 2⟩) p ∧
    Run.Reaches (Run.reentry 2) 1 23 m (p.behindLoop m.thread.pc) ∧
    (p.behindLoop m.thread.pc).thread.stack.map Value.int? = #[some 6] := by
  have computed : ((Run.turns? (Run.reentry 2) 1 23 15 (Machine.adding.withBase 1)).any fun m =>
      m.thread.scopes.size = 2 && m.thread.pc = 10 &&
      (m.thread.scope.loops.find? m.thread.pc).isNone &&
      (m.thread.ops[m.thread.pc]?.any fun op => match op with | .for _ => true | _ => false) &&
      (Run.takeFor.answer? m).any fun (iter, body) =>
        (Run.fed? (Run.reentry 2) 1 23 m.thread.pc iter body 30
          ((Run.takeFor.after m).looping m.thread.pc ⟨.for iter body, m.thread.pc + 2⟩)).any fun (vs, p) =>
            vs.length = 2 && (p.behindLoop m.thread.pc).thread.stack.map Value.int? = #[some 6]) = true := by
    decide +kernel
  obtain ⟨m, goes, facts⟩ := (Option.any_eq_true ..).1 computed
  simp only [Bool.and_eq_true, decide_eq_true_eq, Option.isNone_iff_eq_none] at facts
  obtain ⟨⟨⟨⟨size, place⟩, fresh⟩, loop⟩, facts⟩ := facts
  obtain ⟨op, found, isFor⟩ := (Option.any_eq_true ..).1 loop
  obtain ⟨⟨iter, body⟩, taken, facts⟩ := (Option.any_eq_true ..).1 facts
  obtain ⟨⟨vs, p⟩, fed, facts⟩ := (Option.any_eq_true ..).1 facts
  simp only [Bool.and_eq_true, decide_eq_true_eq] at facts
  obtain ⟨two, sum⟩ := facts
  obtain ⟨v, w, rfl⟩ := List.length_eq_two.1 two
  obtain ⟨done, rfl⟩ : ∃ done, op = .for done := by
    split at isFor
    · exact ⟨_, rfl⟩
    · cases isFor
  have amid : Amid 2 23 1 m := by
    have started : UnderWay Machine.adding := .compile _ (.of_not_mem (by decide)) (.new ..)
    have begins : Amid 2 23 Machine.adding.thread.scopes.size _ := .run started
    have one : Machine.adding.thread.scopes.size = 1 := by decide +kernel
    rw [one] at begins
    exact begins.turns goes
  have apart : ¬Near m.thread.pc 23 := by
    rw [place, Near]
    omega
  have items := Run.fed_of_fed? fed
  obtain ⟨-, folds⟩ := amid.for_folds
  obtain ⟨-, reaches, -⟩ :=
    folds done iter body [v, w] _ p found apart fresh (Run.answer?_eq_some taken) items
  exact ⟨m, iter, body, v, w, _, p, amid, by omega, Run.answer?_eq_some taken, items, reaches, sum⟩

end Catena
