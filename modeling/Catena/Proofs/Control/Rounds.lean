import Catena.Proofs.Control.Exec

/-!
# From operation to operation

What an operation leads to is carried out, and a fault goes to the innermost `try:` form of the run or
ends it. Either way the run goes on where its scopes are right (`meets_step`, `meets_recover`). A form
that catches a fault is still open then, and has that fault as its last.
-/

namespace Catena

/-- A run that has gone on to another place, where no more than `lost` scopes have gone. -/
structure Machine.Went (ops : List Op) (G : Ground) (lost : Nat) (m n : Machine) : Prop where
  here : n.At ops G
  size : m.thread.scopes.size ≤ n.thread.scopes.size + lost
  nests : m.thread.Nests n.thread

/-- A `try:` form has caught a fault: it is still open and innermost, has that fault as its last, and the
run goes on at its end. -/
structure Machine.Caught (ops : List Op) (G : Ground) (f : Fault) (m n : Machine) : Prop where
  here : n.At ops G
  nests : m.thread.Nests n.thread
  caught : ∃ frame frame' before, m.thread.catcher? G.floor = some frame ∧
    n.thread.tries.back? = some frame' ∧ frame'.bare = frame.bare ∧ frame'.faults = before ++ [f] ∧
    n.thread.pc = frame.donePc ∧ n.thread.scopes.size = frame.scope + 1

namespace Thread

variable {ops : List Op} {t t' : Thread} {i h : Nat}

/-! ## Another place -/

theorem Keeps.goTo (a : t.Keeps i h t') (pc : Nat) : t.Keeps i h { t' with pc } :=
  ⟨a.scopes, a.loops, a.valueStacks, a.tries, a.env, a.ops, a.loopBase⟩

theorem Keeps.goBack (a : t.Keeps i h t') (retPc : Nat) : t.Keeps i h { t' with retPc } :=
  ⟨a.scopes, a.loops, a.valueStacks, a.tries, a.env, a.ops, a.loopBase⟩

theorem Nests.goTo (a : t.Nests t') (pc : Nat) : t.Nests { t' with pc } := by
  intro i inside inside'
  have holds := a i inside inside'
  exact ⟨holds.place, fun s found => (holds.keeps s found).goTo pc, holds.tries⟩

/-! ## A form that catches a fault -/

/-- Behind the `try:` form that catches a fault, which opened scope `i`. -/
def resumeTry (t : Thread) (f : Fault) (i : Nat) (frame : TryFrame) : Thread :=
  { t with
    tries := t.tries.modify (t.tries.size - 1) fun e => { e with faults := e.faults ++ [f] }
    valueStacks := t.valueStacks.modify t.scope.stack fun s => s.extract 0 frame.depth
    scopes := t.scopes.modify i fun s =>
      { s with loops := Run.loopsOutside frame.startPc frame.donePc s.loops }
    params := t.params.filter fun p => p.scopes ≤ i
    pc := frame.donePc }

theorem resumeTry_calm (t : Thread) (f : Fault) (i : Nat) (frame : TryFrame) :
    t.Calm (t.resumeTry f i frame) := by
  have faults := Drift.alterTries t (t.tries.size - 1)
    (fun e => { e with faults := e.faults ++ [f] }) fun _ => rfl
  have values := faults.trans (.alterStack _ fun s => s.extract 0 frame.depth)
  have loops := values.trans (.alterScope _ i
    (fun s => { s with loops := Run.loopsOutside frame.startPc frame.donePc s.loops }) (fun _ => rfl)
    fun s h => s.loops.nodup_filterKeys _ h)
  refine ⟨loops.trans (.aside rfl rfl rfl rfl rfl), rfl, rfl, ?_⟩
  exact Drift.map_modify t.scopes i (fun s => { s with
    loops := Run.loopsOutside frame.startPc frame.donePc s.loops }) Scope.calm fun _ => rfl

theorem Orderly.resumeTry (h : t.Orderly ops) (f : Fault) (i : Nat) (frame : TryFrame) :
    (t.resumeTry f i frame).Orderly ops := by
  constructor
  · exact h.linked.drift (t.resumeTry_calm f i frame).drift
  · rw [Thread.resumeTry, Array.size_modify]
    exact h.rooted
  · exact { h.all with
      valueStacks := Values.modify h.all.valueStacks fun s old => Values.extracted _ _ old
      scopes := Values.modify (f := fun s : Scope => { s with
        loops := Run.loopsOutside frame.startPc frame.donePc s.loops }) h.all.scopes fun s old =>
          { old with loops := old.loops.filterKeys _ } }
  · exact h.cache
  · exact h.coros
  · exact h.ops

theorem resumeTry_nests (linked : t.Linked) (f : Fault) {frame : TryFrame}
    (innermost : t.scopes.size = i + 1) : t.Nests (t.resumeTry f i frame) := by
  have last : i = t.scopes.size - 1 := by omega
  have top := linked.top (by omega)
  apply Nests.within linked
  · exact Drift.map_modify _ _ (fun s : Scope => { s with
      loops := Run.loopsOutside frame.startPc frame.donePc s.loops }) _ fun _ => rfl
  · rw [resumeTry, last]
    exact pop_modify_last _ _
  · intro k lt
    exact Drift.getElem?_modify_ne _ _ (by omega)
  · exact (Still.of_tidy (.collect (· ++ [f])) linked (by omega)).tries
  · rw [(t.resumeTry_calm f i frame).under]
    exact .refl _
  · rfl
  · rfl

theorem frames_back {e : TryFrame} (back : t.tries.back? = some e) :
    ∃ rest, t.frames = e.bare :: rest := by
  obtain ⟨init, tries⟩ := Array.back?_eq_some_iff.1 back
  refine ⟨(init.toList.map TryFrame.bare).reverse, ?_⟩
  rw [frames, tries, Array.toList_push, List.map_append, List.reverse_append]
  rfl

/-- The innermost form stays that where scopes above its own go. -/
theorem Lowered.back {lost : Nat} (a : t.Lowered lost t') (linked : t.Linked) (linked' : t'.Linked)
    {e : TryFrame} (back : t.tries.back? = some e) (size : t'.scopes.size = e.scope + 1) :
    ∃ e', t'.tries.back? = some e' ∧ e'.bare = e.bare := by
  obtain ⟨init, tries⟩ := Array.back?_eq_some_iff.1 back
  have order := linked.linked.order
  rw [tries, Array.toList_push, List.map_append, List.pairwise_append] at order
  have all : Linked.framesBelow t.tries.toList t'.scopes.size = t.tries.toList := by
    apply List.filter_eq_self.2
    intro f member
    rw [tries, Array.toList_push] at member
    rw [size]
    rcases List.mem_append.1 member with outer | last
    · have lt := order.2.2 f.scope (List.mem_map_of_mem outer) e.scope (by simp)
      exact decide_eq_true (Nat.lt_succ_of_lt lt)
    · rw [List.mem_singleton.1 last]
      exact decide_eq_true (Nat.lt_succ_self _)
  have bare := a.keeps.tries.1
  rw [all, framesBelow_size linked'] at bare
  have last := congrArg List.getLast? bare
  rw [List.getLast?_map, List.getLast?_map, Array.getLast?_toList, Array.getLast?_toList, back] at last
  obtain ⟨e', back', same⟩ := Option.map_eq_some_iff.1 last
  exact ⟨e', back', same⟩

theorem resumeTry_seated {G : Ground} {y : Nat} (seated : t.Seated ops G y) (paved : Paved ops)
    (linked : t.Linked) (f : Fault) {e : TryFrame} (back : t.tries.back? = some e)
    (innermost : t.scopes.size = e.scope + 1) (above : G.base ≤ e.scope) :
    (t.resumeTry f e.scope e).Seated ops G e.donePc := by
  obtain ⟨rest, frames⟩ := frames_back back
  rw [Thread.Seated, frames] at seated
  obtain ⟨upper, s, below, seats, length, -, resumes⟩ := seated.caught paved above
  have found : t.scopes[e.scope]? = some t.scopes[e.scope] := Array.getElem?_eq_getElem _
  obtain ⟨upper', below', seats', length', size', modified⟩ := seats_at found
  obtain rfl : upper' = [] := List.length_eq_zero_iff.1 (by omega)
  obtain rfl : upper = [] := by
    have count := congrArg List.length (seats.symm.trans seats')
    simp only [List.length_append, List.length_cons, List.length_nil] at count
    exact List.length_eq_zero_iff.1 (by dsimp only [TryFrame.bare] at length; omega)
  obtain ⟨rfl, rfl⟩ := List.cons.inj (seats.symm.trans seats')
  have recorded := (Still.of_tidy (.collect (· ++ [f])) linked (by omega)).tries
  have same : (t.resumeTry f e.scope e).frames = t.frames := by
    rw [Thread.frames, Thread.frames]
    exact congrArg List.reverse recorded.1
  have after : (t.resumeTry f e.scope e).seats = Scope.seat { t.scopes[e.scope] with
      loops := Run.loopsOutside e.startPc e.donePc t.scopes[e.scope].loops } :: below := modified _
  rw [Thread.Seated, after, same, frames]
  apply resumes
  · refine ⟨rfl, rfl, fun k st there => ?_⟩
    change (Run.loopsOutside _ _ _).find? k = some st at there
    rw [Run.loopsOutside, Dict.find?_filterKeys] at there
    split at there
    · exact there
    · cases there
  · rintro k st there ⟨start, done⟩
    change (Run.loopsOutside _ _ _).find? k = some st at there
    have inside : (!(decide (e.startPc < k) && decide (k < e.donePc))) = false := by
      change e.startPc < k at start
      change k < e.donePc at done
      rw [decide_eq_true start, decide_eq_true done]
      rfl
    rw [Run.loopsOutside, Dict.find?_filterKeys, inside] at there
    cases there

theorem Orderly.goTo (h : t.Orderly ops) (pc : Nat) : Orderly ops { t with pc } :=
  ⟨⟨h.linked.linked, h.linked.called⟩, h.rooted, { h.all with }, h.cache, h.coros, h.ops⟩

theorem Orderly.goBack (h : t.Orderly ops) (retPc : Nat) : Orderly ops { t with retPc } :=
  ⟨⟨h.linked.linked, h.linked.called⟩, h.rooted, { h.all with }, h.cache, h.coros, h.ops⟩

end Thread

namespace Machine

variable {ops : List Op} {G : Ground} {lost : Nat} {m n p : Machine}

theorem Went.fell (h : m.Went ops G lost n) : m.Fell ops G lost n :=
  ⟨h.here.orderly, h.here.loopBase, h.size, h.nests, _, h.here.seated⟩

theorem Fell.goTo (h : m.Fell ops G lost n) {pc : Nat} (seated : n.thread.Seated ops G pc) :
    m.Went ops G lost { n with thread := { n.thread with pc } } :=
  ⟨⟨{ h.orderly with thread := h.orderly.thread.goTo pc }, seated, h.loopBase⟩, h.size, h.nests.goTo pc⟩

end Machine

namespace Run

variable {ops : List Op} {G : Ground} {lost : Nat} {r : Reentry} {m n : Machine} {op : Op}

/-! ## A step -/

/-- What an operation leads to is carried out. -/
theorem meets_apply (hr : r.Sound ops) (pos : 1 ≤ G.base) {c : Control} (leads : m.Proceeds ops G lost c n) :
    Meets ops n (apply r G.floor c) (fun _ p => m.Went ops G lost p) (m.Fell ops G lost) := by
  cases c with
  | next =>
    have fell := leads.fell ⟨_, leads.goes⟩
    exact .of_ok rfl (fell.goTo leads.goes)
  | jump pc =>
    have fell := leads.fell ⟨_, leads.goes⟩
    exact .of_ok rfl (fell.goTo leads.goes)
  | unwind depth pc =>
    obtain ⟨seated, target⟩ := leads.goes
    rw [apply]
    apply Meets.refuse fun _ => leads.fell seated
    intro above
    have low := G.low
    obtain ⟨le, right⟩ := target (low.trans (Nat.le_of_not_lt above))
    have left : min n.thread.scopes.size (max depth 1) = depth := by omega
    have fell (p : Machine) (closes : n.Closes ops 1 depth p) : m.Fell ops G lost p := by
      have within : m.thread.scopes.size - lost ≤ depth := leads.within
      have size := closes.size
      constructor
      · exact closes.orderly
      · exact closes.lowered.keeps.loopBase.trans leads.loopBase
      · omega
      · exact leads.nests.trans (closes.lowered.nests (Nat.le_refl 1) closes.orderly.thread.linked)
          ((Nat.min_le_right _ _).trans closes.lowered.size)
      · exact ⟨pc, closes.seated_at right⟩
    have closes := meets_unwindTo hr depth true leads.orderly
    rw [left] at closes
    apply Meets.bind (P := fun _ p => n.Closes ops 1 depth p)
    · exact closes.mono (fun _ _ _ closes => closes) fell
    · exact fun _ p _ closes => .of_ok rfl ((fell p closes).goTo (closes.seated_at right))

theorem meets_step (here : m.At ops G) (paved : Paved ops) (hr : r.Sound ops) (pos : 1 ≤ G.base)
    (runs : G.Runs ops m.thread.pc) (own : m.Owns G op) (found : ops[m.thread.pc]? = some op) :
    Meets ops m (step r G.floor op) (fun _ n => m.Went ops G (op.sheds m.thread.scopes.size) n)
      (m.Fell ops G (op.sheds m.thread.scopes.size)) := by
  apply Meets.bind (leading_exec here paved hr pos runs own found)
  intro c n _ leads
  apply (meets_apply hr pos leads).bind
  intro _ p _ went
  apply Meets.next rfl
  apply Meets.next rfl
  split
  · exact .of_fault (n := p) rfl went.fell
  · exact .of_ok (n := p) rfl went

/-! ## A fault -/

theorem meets_unwindAfterFault (hr : r.Sound ops) {depth : Nat} (orderly : m.Orderly ops) (pos : 1 ≤ depth)
    (E : Machine → Prop) : Meets ops m (unwindAfterFault r depth)
      (fun _ n => m.Closes ops 0 (min m.thread.scopes.size depth) n) E := by
  have closes := meets_unwindTo hr depth false orderly
  rw [max_eq_left pos] at closes
  apply closes.attempt.bind
  rintro result n - (⟨a, rfl, closes⟩ | ⟨f, rfl, closes⟩)
  · exact .of_ok (n := n) rfl closes
  · have noted := (stable_note .warn (fun _ => s!"error while unwinding: {f.text}") n closes.orderly).ok rfl
    exact .of_ok rfl ⟨noted.1.orderly, closes.lowered, closes.size⟩

theorem Meets.of_run {α : Type} {x y : Run α} {Q : α → Machine → Prop} {E : Machine → Prop}
    (same : x m = y n) (h : Meets ops n y Q E) : Meets ops m x Q E := by
  rw [Meets] at h ⊢
  rw [same]
  exact h

theorem recover_none {base : Nat} {f : Fault} (none : m.thread.catcher? base = none) :
    recover r base f m = (do
      let (id, pc) ← ask fun t => (t.id, t.pc)
      note .debug fun _ => s!"thread {id} failed at pc {pc}: {f.text}"
      unwindAfterFault r base
      fail f) m := by
  unfold Thread.catcher? at none
  rw [recover, bind_apply, ask]
  dsimp only
  rw [none]

theorem resumeTry_run (f : Fault) {i : Nat} (e : TryFrame) (innermost : m.thread.scopes.size = i + 1) :
    resumeTry f i e m = .ok () { m with thread := m.thread.resumeTry f i e } := by
  have found : m.thread.scopes[i]? = some m.thread.scope := by
    rw [Thread.scope, Array.back?_eq_getElem?, innermost, Nat.add_sub_cancel,
      Array.getElem?_eq_getElem (by omega)]
    rfl
  rw [resumeTry, bind_apply, ask]
  dsimp only
  rw [found]
  rfl

/-- A `try:` form of the run catches a fault. -/
theorem meets_catch (hr : r.Sound ops) (paved : Paved ops) (orderly : m.Orderly ops)
    (loopBase : m.thread.loopBase = G.floor) {y : Nat} (seated : m.thread.Seated ops G y) (f : Fault)
    {frame : TryFrame} (catching : m.thread.catcher? G.floor = some frame) (E : Machine → Prop) :
    Meets ops m (do
      unwindAfterFault r (frame.scope + 1)
      let innermost ← orFail f (← ask (·.tries.back?))
      resumeTry f frame.scope innermost) (fun _ n => m.Caught ops G f n) E := by
  obtain ⟨back, inside⟩ := Option.filter_eq_some_iff.1 catching
  simp only [Bool.and_eq_true, decide_eq_true_eq] at inside
  obtain ⟨low, high⟩ := inside
  apply (meets_unwindAfterFault hr orderly (Nat.le_add_left 1 _) _).bind
  intro _ n _ closes
  rw [Nat.min_eq_right high] at closes
  have thread := closes.orderly.thread
  have size := closes.size
  obtain ⟨innermost, back', same⟩ :=
    Thread.Lowered.back closes.lowered orderly.thread.linked thread.linked back size
  have scope : innermost.scope = frame.scope := by
    have image := congrArg TryFrame.scope same
    exact image
  have donePc : innermost.donePc = frame.donePc := by
    have image := congrArg TryFrame.donePc same
    exact image
  obtain ⟨y', seated'⟩ := closes.lowered.seated thread.linked (size ▸ Nat.le_succ_of_le (G.low.trans low)) seated
  have caught : m.Caught ops G f { n with thread := n.thread.resumeTry f innermost.scope innermost } := by
    constructor
    · constructor
      · exact { closes.orderly with thread := thread.resumeTry f innermost.scope innermost }
      · exact Thread.resumeTry_seated seated' paved thread.linked f back' (scope ▸ size) (scope ▸ G.low.trans low)
      · exact closes.lowered.keeps.loopBase.trans loopBase
    · apply (closes.lowered.nests (Nat.zero_le _) thread.linked).trans
        (Thread.resumeTry_nests thread.linked f (scope ▸ size))
      exact (Nat.min_le_right _ _).trans (Nat.le_of_eq Array.size_modify)
    · refine ⟨frame, { innermost with faults := innermost.faults ++ [f] }, innermost.faults, catching, ?_,
        same, rfl, donePc, ?_⟩
      · obtain ⟨init, tries⟩ := Array.back?_eq_some_iff.1 back'
        rw [Thread.resumeTry]
        dsimp only
        rw [tries, Array.size_push, Nat.add_sub_cancel, modify_push, Array.back?_push]
      · exact Array.size_modify.trans size
  refine Meets.next (x := ask (·.tries.back?)) rfl ?_
  dsimp only
  rw [back']
  refine Meets.next (a := innermost) (n := n) rfl ?_
  rw [← scope]
  exact .of_ok (resumeTry_run f innermost (scope ▸ size)) caught

/-- A fault ends the run only if there is no `try:` form of the run to catch it. -/
theorem meets_recover (hr : r.Sound ops) (paved : Paved ops) (pos : 1 ≤ G.base) (orderly : m.Orderly ops)
    (loopBase : m.thread.loopBase = G.floor) (seated : ∃ y, m.thread.Seated ops G y) (f : Fault) :
    Meets ops m (recover r G.floor f) (fun _ n => m.Caught ops G f n)
      (fun n => m.thread.catcher? G.floor = none ∧ m.Closes ops 0 (min m.thread.scopes.size G.floor) n) := by
  obtain ⟨y, seated⟩ := seated
  cases catching : m.thread.catcher? G.floor with
  | none =>
    apply Meets.of_run (recover_none catching)
    refine Meets.next (x := ask fun t => (t.id, t.pc)) rfl ?_
    apply Meets.noted orderly
    intro n noted same
    apply (meets_unwindAfterFault hr noted (pos.trans G.low) _).bind
    intro _ p _ closes
    rw [same] at closes
    exact .of_fault (n := p) rfl ⟨rfl, closes.orderly, same ▸ closes.lowered, closes.size⟩
  | some frame =>
    apply Meets.of_run (recover_some catching)
    refine Meets.next (x := ask (·.pc)) rfl ?_
    apply Meets.noted orderly
    intro n noted same
    rw [← same] at loopBase seated catching
    apply (meets_catch hr paved noted loopBase seated f catching _).mono
    · exact fun _ p _ caught => ⟨caught.here, same ▸ caught.nests, same ▸ caught.caught⟩
    · exact fun p no => no

end Run

end Catena
