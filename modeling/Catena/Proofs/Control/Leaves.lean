import Catena.Proofs.Control.Borders
import Catena.Proofs.Exits

/-!
# Where exits lead

A `return` and a `break` lead out of the scopes above their target, which are closed as the change of the
flow of control is carried out. A `recall` closes them by itself, and a `yield` cuts them off. Wherever an
exit leads, the scopes that are left are right for that place.
-/

namespace Catena

namespace Dict

variable {κ α : Type} [DecidableEq κ]

theorem find?_of_mem_keys {d : Dict κ α} {k : κ} (member : k ∈ d.keys) : ∃ a, d.find? k = some a := by
  obtain ⟨entries⟩ := d
  change k ∈ entries.map (·.1) at member
  show ∃ a, lookup k entries = some a
  induction entries with
  | nil => cases member
  | cons e es ih =>
    rw [lookup]
    split
    · exact ⟨_, rfl⟩
    · rename_i other
      rcases List.mem_cons.1 member with rfl | later
      · exact absurd rfl other
      · exact ih later

theorem find?_filterKeys (d : Dict κ α) (p : κ → Bool) (k : κ) :
    (d.filterKeys p).find? k = if p k then d.find? k else none := by
  rw [find?, filterKeys, find?]
  dsimp only
  induction d.entries with
  | nil => simp [lookup]
  | cons e es ih =>
    rw [List.filter_cons]
    by_cases same : e.1 = k
    · subst same
      cases keep : p e.1 <;> simp_all [lookup]
    · split <;> simp [lookup, same, ih]

end Dict

namespace Thread

variable {ops : List Op} {G : Ground} {t : Thread} {x i depth : Nat} {s : Scope}

/-! ## The scope an exit is about -/

theorem lambdaScope?_found (found : t.lambdaScope? depth = some i) :
    ∃ s, t.scopes[i]? = some s ∧ s.isLambda = true := by
  have member := List.mem_of_getElem? found
  obtain ⟨-, is⟩ := List.mem_filter.1 member
  exact (Option.any_eq_true _ _).1 is

theorem loop?_found {k : Nat} (found : t.loop? depth = some (i, k)) :
    ∃ s st, t.scopes[i]? = some s ∧ s.loops.find? k = some st := by
  have member := List.mem_of_getElem? found
  obtain ⟨j, -, inside⟩ := List.mem_flatMap.1 member
  obtain ⟨k', key, same⟩ := List.mem_map.1 inside
  cases same
  cases there : t.scopes[i]? with
  | none =>
    rw [there] at key
    cases key
  | some s =>
    rw [there] at key
    obtain ⟨st, loop⟩ := Dict.find?_of_mem_keys (List.mem_reverse.1 key)
    exact ⟨s, st, rfl, loop⟩

/-- The scopes of a thread above and below one of them. -/
theorem seats_at (found : t.scopes[i]? = some s) : ∃ upper below, t.seats = upper ++ s.seat :: below ∧
    below.length = i ∧ upper.length + (i + 1) = t.scopes.size ∧
      ∀ f, seats { t with scopes := t.scopes.modify i f } = upper ++ (f s).seat :: below := by
  rw [← Array.getElem?_toList] at found
  obtain ⟨lt, here⟩ := List.getElem?_eq_some_iff.1 found
  have parts : t.scopes.toList = t.scopes.toList.take i ++ s :: t.scopes.toList.drop (i + 1) := by
    rw [← parted found, List.take_append_drop]
  have shape (u : Scope) :
      ((t.scopes.toList.take i ++ u :: t.scopes.toList.drop (i + 1)).map Scope.seat).reverse =
        ((t.scopes.toList.drop (i + 1)).map Scope.seat).reverse ++ u.seat ::
          ((t.scopes.toList.take i).map Scope.seat).reverse := by
    simp
  refine ⟨_, _, (congrArg (fun l => (l.map Scope.seat).reverse) parts).trans (shape s), ?_, ?_, ?_⟩
  · rw [List.length_reverse, List.length_map, List.length_take]
    omega
  · rw [List.length_reverse, List.length_map, List.length_drop, ← Array.length_toList]
    omega
  · intro f
    rw [seats]
    dsimp only
    rw [Array.toList_modify, List.modify_eq_take_cons_drop lt, here, shape]

/-- What is left when a lambda and all above it has gone is right for where its caller goes on. -/
theorem Seated.leaveLambda (seated : t.Seated ops G x) (found : t.scopes[i]? = some s)
    (lambda : s.isLambda = true) (above : G.base ≤ i) :
    Catena.Seated ops G s.retPc (t.seats.drop (t.scopes.size - i))
      (t.frames.filter fun f => f.scope < i) := by
  obtain ⟨upper, below, seats, length, size, -⟩ := seats_at found
  rw [Thread.Seated, seats] at seated
  obtain ⟨y, left⟩ := seated.drop (Nat.le_succ_of_le (length ▸ above))
  have called : s.seat.body.isSome = true := by rw [Scope.seat, Option.isSome_map]; exact lambda
  obtain ⟨under, -⟩ := left.lambda called (length ▸ above)
  have frames : (t.frames.filter fun f => f.scope < (s.seat :: below).length) =
      t.frames.filter fun f => f.scope < i := by
    have low := under.filter_frames
    rw [List.filter_filter] at low
    rw [← low, length, List.length_cons, length]
    apply List.filter_congr
    intro f _
    rw [Bool.eq_iff_iff]
    simp only [Bool.and_eq_true, decide_eq_true_eq]
    omega
  have dropped : t.seats.drop (t.scopes.size - i) = below := by
    rw [seats, List.append_cons]
    apply List.drop_left'
    rw [List.length_append, List.length_singleton]
    omega
  rw [dropped, ← frames]
  exact under

/-- What is left when a loop has gone, and all the scopes above it, is right for the place behind the
loop. -/
theorem Seated.leaveLoop {ops : List Op} (seated : t.Seated ops G x) (paved : Paved ops)
    (runs : G.Runs ops x) (found : t.scopes[i]? = some s) {k : Nat} {st : LoopState}
    (loop : s.loops.find? k = some st) (above : G.base ≤ i + 1) {t' : Thread}
    (left : t' = { t with scopes := t.scopes.modify i fun s => { s with loops := s.loops.erase k } }) :
    Catena.Seated ops G st.donePc (t'.seats.drop (t.scopes.size - (i + 1)))
      (t.frames.filter fun f => f.scope < i + 1) := by
  obtain ⟨upper, below, seats, length, size, modified⟩ := seats_at found
  rw [Thread.Seated, seats] at seated
  have fewer : s.seat.Fewer (Scope.seat { s with loops := s.loops.erase k }) := by
    refine ⟨rfl, rfl, fun j st there => ?_⟩
    change (s.loops.erase k).find? j = some st at there
    rw [Dict.find?_erase] at there
    split at there
    · cases there
    · exact there
  have gone : (Scope.seat { s with loops := s.loops.erase k }).loops.find? k = none := by
    change (s.loops.erase k).find? k = none
    rw [Dict.find?_erase, if_pos rfl]
  have behind := seated.leave paved runs (length ▸ above) loop fewer gone
  rw [length] at behind
  subst left
  rw [modified, List.drop_left' (by omega)]
  exact behind

/-- The innermost scope is that of a lambda that starts anew. -/
theorem Orderly.restart (h : t.Orderly ops) {c : Closure} (tame : c.env.All Value.Tame) (i : Nat) :
    (t.restart i c).Orderly ops := by
  have altered : Orderly ops
      { t with scopes := t.scopes.modify i fun s => { s with bound := [], loops := ∅ } } :=
    h.alterScope i (fun _ => rfl) (fun _ _ => List.nodup_nil) fun s all =>
      { all with bound := nofun, loops := .empty }
  exact { altered with
    linked := ⟨altered.linked.linked, altered.linked.called⟩
    all := { altered.all with env := tame } }

theorem restart_nests (linked : t.Linked) {c : Closure} (innermost : t.scopes.size = i + 1)
    (called : t.scopes[i]?.bind (·.callee) = some c) : t.Nests (t.restart i c) := by
  have last : i = t.scopes.size - 1 := by omega
  apply Nests.within linked
  · exact Drift.map_modify _ _ (fun s : Scope => { s with bound := [], loops := ∅ }) _ fun _ => rfl
  · rw [Thread.restart, last]
    exact pop_modify_last _ _
  · exact fun _ _ => rfl
  · exact .refl _
  · exact restart_under linked innermost called (by omega)
  · rfl
  · rfl

theorem restart_seated (seated : t.Seated ops G x) (paved : Paved ops) {c : Closure}
    (innermost : t.scopes.size = i + 1) (called : t.scopes[i]?.bind (·.callee) = some c)
    (above : G.base ≤ i) {entry : Nat} (starts : c.body.entry = some entry) :
    (t.restart i c).Seated ops G entry := by
  obtain ⟨s, found, is⟩ := Option.bind_eq_some_iff.1 called
  obtain ⟨upper, below, seats, length, size, modified⟩ := seats_at found
  obtain rfl : upper = [] := List.length_eq_zero_iff.1 (by omega)
  have low := Catena.Seated.filter_frames seated
  rw [Thread.Seated, seats] at seated
  have body : s.seat.body = some c.body := by rw [Scope.seat, is]; rfl
  let fresh : Seat := Scope.seat { s with bound := [], loops := ∅ }
  have same : fresh.body = s.seat.body := rfl
  have anew := seated.restart paved body (length ▸ above) same rfl rfl starts
  have frames : (t.frames.filter fun f => f.scope < below.length + 1) = t.frames := by
    rwa [seats, List.nil_append, List.length_cons] at low
  rw [frames] at anew
  have after : (t.restart i c).seats = fresh :: below :=
    modified _
  rw [Thread.Seated, after]
  exact anew

/-! ## What is cut off, and what is left -/

theorem cut_seats (found : t.scopes[i]? = some s) (lambda : Nat) :
    (t.cut i s lambda).1.seats = t.seats.take (t.scopes.size - i) ∧
      (t.cut i s lambda).2.seats = t.seats.drop (t.scopes.size - i) := by
  have lt := (Array.getElem?_eq_some_iff.1 found).1
  have size : (t.scopes.toList.map Scope.seat).length - (t.scopes.size - i) = i := by
    rw [List.length_map, Array.length_toList]
    omega
  rw [← Array.getElem?_toList] at found
  constructor
  · rw [Coroutine.seats, cut_scopes (Array.getElem?_toList ▸ found), seats, List.take_reverse, size,
      ← List.map_drop, parted found, List.map_cons, List.map_cons, List.map_map]
    rfl
  · rw [seats, seats, List.drop_reverse, size, Thread.cut]
    dsimp only
    rw [extract_lower, List.map_take]

theorem cut_frames (linked : t.Linked) (i : Nat) (s : Scope) (lambda : Nat) :
    (t.cut i s lambda).1.frames = (t.frames.filter fun f => i ≤ f.scope).map
      (fun f => { f with scope := f.scope - i }) ∧
      (t.cut i s lambda).2.frames = t.frames.filter fun f => f.scope < i := by
  constructor
  · have upper : (t.cut i s lambda).1.tries.toList =
        (t.tries.toList.filter fun f => i ≤ f.scope).map fun f => { f with scope := f.scope - i } := by
      rw [← Linked.drop_findIdx linked.linked.order i, ← extract_upper]
      simp [Thread.cut]
    rw [Coroutine.frames, upper, frames, List.filter_reverse, List.filter_map, List.map_reverse,
      List.map_map, List.map_map]
    rfl
  · have lower : (t.cut i s lambda).2.tries.toList = Linked.framesBelow t.tries.toList i := by
      simp only [Thread.cut, extract_lower, Linked.take_findIdx linked.linked.order i]
    rw [frames, lower, frames, List.filter_reverse, Below.map_framesBelow]
    rfl

theorem cut_nests (linked : t.Linked) (found : t.scopes[i]? = some s) {c : Closure}
    (called : s.callee = some c) (lambda : Nat) : t.Nests (t.cut i s lambda).2 := by
  have lt := (Array.getElem?_eq_some_iff.1 found).1
  have stack := linked.stack_lt found
  have size : (t.cut i s lambda).2.scopes.size = i := by
    simp only [Thread.cut, Array.size_extract]
    omega
  have env : (t.cut i s lambda).2.env = (t.cut i s lambda).2.under i := by
    have all := (t.cut i s lambda).2.under_size
    rw [size] at all
    exact all.symm
  intro j _ inside
  apply Holds.of_keeps (j := i) (h := s.stack + 1) _ (size ▸ inside)
  · intro u there
    have mono := Catena.Linked.stack_mono linked.linked.chain (Nat.le_of_lt (size ▸ inside))
      (Array.getElem?_toList.trans there) (Array.getElem?_toList.trans found)
    exact Nat.le_succ_of_le mono
  · apply Keeps.shrink
    · exact extract_lower _ _
    · intro k below
      rw [Thread.cut]
      dsimp only
      rw [Array.getElem?_extract, if_pos (by omega), Nat.zero_add]
    · simp only [Thread.cut, extract_lower, Linked.take_findIdx linked.linked.order i]
    · exact env.trans (cut_under linked found called lambda (Nat.le_refl i))
    · rfl
    · rfl

/-- What is cut off was left at the place behind. -/
theorem cut_orderly (h : t.Orderly ops) (found : t.scopes[i]? = some s) {c : Closure}
    (called : s.callee = some c) (lambda : Nat) (seated : t.Seated ops G (t.pc + 1))
    (above : G.base ≤ i) : (t.cut i s lambda).1.Orderly ops := by
  obtain ⟨upper, below, seats, length, size, -⟩ := seats_at found
  refine ⟨h.linked.cut_off found called lambda, ?_⟩
  have isSome : s.seat.body.isSome = true := by rw [Scope.seat, called]; rfl
  rw [Thread.Seated, seats] at seated
  have off := seated.cut_off isSome (length ▸ above)
  rw [length] at off
  rw [(cut_seats found lambda).1, (cut_frames h.linked i s lambda).1, seats, List.append_cons,
    List.take_left' (by rw [List.length_append, List.length_singleton]; omega)]
  exact off

theorem Orderly.cut_left (h : t.Orderly ops) (found : t.scopes[i]? = some s) {c : Closure}
    (called : s.callee = some c) (lambda : Nat) (pos : 1 ≤ i) : (t.cut i s lambda).2.Orderly ops := by
  have lt := (Array.getElem?_eq_some_iff.1 found).1
  constructor
  · exact h.linked.cut_left found called lambda
  · simp only [Thread.cut, Array.size_extract]
    omega
  · exact (h.all.cut lambda (h.all.scopes s (Array.mem_of_getElem? found))).2
  · exact h.cache
  · exact h.coros
  · exact h.ops

end Thread

namespace Machine

variable {ops : List Op} {G : Ground} {lost left : Nat} {m n p : Machine} {pc : Nat}

/-- What has led somewhere may go on at its level for a while. -/
theorem Proceeds.remains (h : m.Proceeds ops G lost (.jump pc) n) (k : n.Remains ops p) :
    m.Proceeds ops G lost (.jump pc) p := by
  have size := k.still.size
  have more := h.size
  constructor
  · exact k.orderly
  · exact k.still.keeps.loopBase.trans h.loopBase
  · omega
  · exact h.nests.trans (k.still.nests h.orderly.thread.linked) (by omega)
  · exact k.still.seated h.goes
  · trivial

theorem Proceeds.fell {c : Control} (h : m.Proceeds ops G lost c n) (seated : ∃ y, n.thread.Seated ops G y) :
    m.Fell ops G lost n :=
  ⟨h.orderly, h.loopBase, h.size, h.nests, seated⟩

/-- Scopes that go of themselves leave others that are right for some place. -/
theorem Closes.fell (h : m.Closes ops lost left n) (few : lost ≤ 1) (here : m.At ops G)
    (above : G.base ≤ left) : m.Fell ops G m.thread.scopes.size n := by
  constructor
  · exact h.orderly
  · exact h.lowered.keeps.loopBase.trans here.loopBase
  · exact Nat.le_add_left _ _
  · exact h.lowered.nests few h.orderly.thread.linked
  · exact h.lowered.seated h.orderly.thread.linked (h.size ▸ above) here.seated

end Machine

namespace Run

variable {ops : List Op} {G : Ground} {lost depth : Nat} {r : Reentry} {m : Machine} {op : Op}

/-! ## Out of scopes that are closed later -/

theorem meets_lambdaScope (depth : Nat) (m : Machine) : Meets ops m (lambdaScope depth)
    (fun i n => n = m ∧ ∃ s, m.thread.scopes[i]? = some s ∧ s.isLambda = true) (· = m) := by
  cases found : m.thread.lambdaScope? depth with
  | none => exact .of_fault (lambdaScope_none found) rfl
  | some i => exact .of_ok (lambdaScope_some found) ⟨rfl, Thread.lambdaScope?_found found⟩

theorem leading_exitReturn (here : m.At ops G) (depth : Nat) :
    Leading ops G m.thread.scopes.size (exitReturn depth) m := by
  have stands := Machine.Stands.refl here
  apply Meets.bind (P := fun i n => n = m ∧ ∃ s, m.thread.scopes[i]? = some s ∧ s.isLambda = true)
  · apply (meets_lambdaScope depth m).mono
    · exact fun _ _ _ both => both
    · rintro n rfl
      exact stands.fell
  rintro i n - ⟨rfl, s, found, lambda⟩
  refine .of_ok (a := .unwind i s.retPc) (n := n) ?_ (stands.leads ⟨⟨_, here.seated⟩, fun above => ?_⟩ ?_)
  · rw [bind_apply, ask, found]
    rfl
  · have lt := (Array.getElem?_eq_some_iff.1 found).1
    exact ⟨Nat.le_of_lt lt, here.seated.leaveLambda found lambda above⟩
  · rw [Control.Within, Nat.sub_self]
    exact Nat.zero_le _

/-- A loop is let go of, and the run goes on behind it. -/
theorem leading_exitLoop (here : m.At ops G) (paved : Paved ops) (runs : G.Runs ops m.thread.pc)
    (broken : ¬m.thread.Unbroken) (depth : Nat) : Leading ops G m.thread.scopes.size (exitLoop depth) m := by
  apply Meets.next rfl
  dsimp only
  cases found : m.thread.loop? depth with
  | none => exact .of_fault (n := m) rfl (Machine.Stands.refl here).fell
  | some both =>
    obtain ⟨i, k⟩ := both
    obtain ⟨s, st, there, loop⟩ := Thread.loop?_found found
    have remains : m.Remains ops _ := ⟨here.orderly.dropLoop i k, .dropLoop broken i k⟩
    refine .next rfl (.next rfl (.next rfl ?_))
    apply Meets.noted remains.orderly
    intro n noted same
    have lt := (Array.getElem?_eq_some_iff.1 there).1
    have stands : m.Stands ops G n := Machine.Remains.stands ⟨noted, same ▸ remains.still⟩ here
    have done : (m.thread.scopes[i]?.bind (·.loops.find? k)).elim (k + 1) (·.donePc) = st.donePc := by
      rw [there, Option.bind_some, loop]
      rfl
    refine .of_ok (n := n) rfl (stands.leads ?_ (by rw [Control.Within, Nat.sub_self]; exact Nat.zero_le _))
    dsimp only
    rw [done]
    refine ⟨⟨_, stands.here.seated⟩, fun above => ⟨stands.size ▸ lt, ?_⟩⟩
    have frames : n.thread.frames = m.thread.frames := by rw [same]; rfl
    rw [stands.size, frames, same]
    exact here.seated.leaveLoop paved runs there loop above rfl

/-! ## Scopes that are closed or cut off right away -/

theorem leading_recallFrom (hr : r.Sound ops) (here : m.At ops G) (paved : Paved ops) (pos : 1 ≤ G.base)
    (depth : Nat) : Leading ops G m.thread.scopes.size (recallFrom r depth) m := by
  have stands := Machine.Stands.refl here
  apply Meets.bind (P := fun i n => n = m ∧ ∃ s, m.thread.scopes[i]? = some s ∧ s.isLambda = true)
  · apply (meets_lambdaScope depth m).mono
    · exact fun _ _ _ both => both
    · rintro n rfl
      exact stands.fell
  rintro i n - ⟨rfl, s, found, lambda⟩
  apply Meets.next rfl
  apply Meets.refuse fun _ => stands.fell
  intro inside
  have above : G.base ≤ i := G.low.trans (here.loopBase ▸ Nat.le_of_not_lt inside)
  have lt := (Array.getElem?_eq_some_iff.1 found).1
  have left : min n.thread.scopes.size (max (i + 1) 1) = i + 1 := by omega
  apply Meets.bind (P := fun _ p => n.Closes ops 0 (i + 1) p)
  · have closes := meets_unwindTo hr (i + 1) false here.orderly
    rw [left] at closes
    apply closes.mono
    · exact fun _ _ _ closes => closes
    · exact fun p closes => closes.fell (Nat.zero_le _) here (Nat.le_succ_of_le above)
  intro _ p _ closes
  have fell := closes.fell (Nat.zero_le _) here (Nat.le_succ_of_le above)
  apply Meets.next rfl
  dsimp only
  cases called : p.thread.scopes[i]?.bind (·.callee) with
  | none => exact .of_fault (n := p) rfl fell
  | some c =>
    apply Meets.next rfl
    cases starts : c.body.entry with
    | none => exact .of_fault (n := p) rfl fell
    | some entry =>
      have thread := closes.orderly.thread
      obtain ⟨s', found', is⟩ := Option.bind_eq_some_iff.1 called
      have all := thread.all.scopes s' (Array.mem_of_getElem? found')
      obtain ⟨y, seated⟩ := fell.seated
      have leads : n.Proceeds ops G n.thread.scopes.size (.jump entry)
          { p with thread := p.thread.restart i c } := by
        constructor
        · exact { closes.orderly with thread := thread.restart (all.callee c is) i }
        · exact fell.loopBase
        · exact Nat.le_add_left _ _
        · apply fell.nests.trans (p.thread.restart_nests thread.linked closes.size called)
          exact (Nat.min_le_right _ _).trans (Nat.le_of_eq Array.size_modify)
        · exact Thread.restart_seated seated paved closes.size called above starts
        · trivial
      exact .of_ok rfl leads

/-- What has been cut off is kept by the fiber that runs in it, or else by the thread. -/
def keepCoro (fiber? : Option Ref) (coro : Coroutine) : Run Unit :=
  match fiber? with
  | some f => do
    let id ← askStore fun s => s.fibers[f]?.elim 0 (·.id)
    note .debug fun _ => s!"fiber#{id} suspended at pc {coro.pc}"
    setFiber f (.suspended coro)
  | none => do
    note .debug fun _ => s!"lambda#{coro.lambda} suspended at pc {coro.pc}"
    alter fun t => { t with coros := t.coros.insert coro.lambda coro }

theorem stable_keepCoro (fiber? : Option Ref) {coro : Coroutine} (left : coro.Orderly ops)
    (tame : coro.All Value.Tame) : Stable ops (keepCoro fiber? coro) Untold := by
  cases fiber? with
  | some f =>
    apply (Stable.askedStore _).seq
    intro id
    apply (stable_note _ _).seq
    intro _
    apply stable_setFiber
    intro c same
    cases same
    exact ⟨left, tame⟩
  | none =>
    apply (stable_note _ _).seq
    intro _
    apply stable_remember (fun t => t.coros.insert coro.lambda coro) (fun t => t.cache)
    · exact fun t orderly => orderly.all.coros.insert tame
    · intro t orderly id c found
      rw [Dict.find?_insert] at found
      split at found
      · obtain rfl := Option.some.inj found
        exact left
      · exact orderly.coros id c found
    · exact fun t orderly => orderly.cache

theorem suspend_run (depth : Nat) (m : Machine) : (∃ f, suspend depth m = .error (.fault f) m) ∨
    ∃ i s c, m.thread.scopes[i]? = some s ∧ s.callee = some c ∧ m.thread.loopBase ≤ i ∧
      suspend depth m = (do
        keepCoro s.fiber (m.thread.cut i s c.body.id).1
        return .jump s.retPc : Run Control) { m with thread := (m.thread.cut i s c.body.id).2 } := by
  cases found : m.thread.lambdaScope? depth with
  | none =>
    refine .inl ⟨Fault.noLambda depth, ?_⟩
    rw [suspend, bind_apply, lambdaScope_none found]
  | some i =>
    obtain ⟨s, there, lambda⟩ := Thread.lambdaScope?_found found
    obtain ⟨c, called⟩ := Option.isSome_iff_exists.1 lambda
    rw [suspend, bind_apply, lambdaScope_some found]
    by_cases below : i < m.thread.loopBase
    · refine .inl ⟨Fault.yieldCrosses, ?_⟩
      simp only [bind_apply, ask, below, if_true]
      rfl
    · refine .inr ⟨i, s, c, there, called, Nat.le_of_not_lt below, ?_⟩
      simp only [bind_apply, ask, below, if_false, there, Option.getD_some, called, orFail, pure,
        EStateM.pure]
      cases s.fiber <;> rfl

theorem leading_suspend (here : m.At ops G) (pos : 1 ≤ G.base)
    (next : m.thread.Seated ops G (m.thread.pc + 1)) (depth : Nat) :
    Leading ops G m.thread.scopes.size (suspend depth) m := by
  have thread := here.orderly.thread
  rcases suspend_run depth m with ⟨f, failed⟩ | ⟨i, s, c, found, called, inside, run⟩
  · exact .of_fault failed (Machine.Stands.refl here).fell
  rw [Leading, Meets, run, ← Meets]
  have above : G.base ≤ i := G.low.trans (here.loopBase ▸ inside)
  have left : (m.thread.cut i s c.body.id).1.Orderly ops :=
    Thread.cut_orderly thread found called c.body.id next above
  have tame : (m.thread.cut i s c.body.id).1.All Value.Tame :=
    (thread.all.cut c.body.id (thread.all.scopes s (Array.mem_of_getElem? found))).1
  have seated : (m.thread.cut i s c.body.id).2.Seated ops G s.retPc := by
    rw [Thread.Seated, (Thread.cut_seats found c.body.id).2, (Thread.cut_frames thread.linked i s c.body.id).2]
    exact here.seated.leaveLambda found (Thread.called_isLambda called) above
  have lands : m.Proceeds ops G m.thread.scopes.size (.jump s.retPc)
      { m with thread := (m.thread.cut i s c.body.id).2 } := by
    constructor
    · exact { here.orderly with thread := thread.cut_left found called c.body.id (pos.trans above) }
    · exact here.loopBase
    · exact Nat.le_add_left _ _
    · exact Thread.cut_nests thread.linked found called c.body.id
    · exact seated
    · trivial
  apply Meets.bind (P := fun _ p => m.Proceeds ops G m.thread.scopes.size (.jump s.retPc) p)
  · apply (stable_keepCoro s.fiber left tame _ lands.orderly).mono
    · exact fun _ _ _ both => lands.remains both.1
    · exact fun _ remains => (lands.remains remains).fell ⟨_, (lands.remains remains).goes⟩
  · exact fun _ p _ leads => .of_ok (n := p) rfl leads

end Run

end Catena
