import Catena.Proofs.Control.Seats

/-!
# From place to place

Where paved operations lead, the scopes are right for the place. Most operations lead to the next place,
the end of a scope to the place behind it; the loops that run are those whose operations are near, so
that none of them is left behind when the place is left.
-/

namespace Catena

/-! ## What is open at a place -/

section Places

variable {ops : List Op} {op : Op} {i j x q : Nat}

/-- Whether an operation opens or closes a scope. -/
def Op.isBorder (op : Op) : Bool :=
  op.opens?.any Bracket.isScope || op.closes?.any Bracket.isScope

def Op.isJump : Op → Bool
  | .jump _ _ => true
  | _ => false

theorem around_next (found : ops[x]? = some op) (inner : op.isBorder = false) :
    around ops (x + 1) = around ops x := by
  rw [around_succ found, Op.nest]
  rw [Op.isBorder, Bool.or_eq_false_iff] at inner
  cases opens : op.opens? with
  | some b =>
    rw [opens] at inner
    simp only [show b.isScope = false from inner.1, Bool.false_eq_true, if_false]
  | none =>
    cases closes : op.closes? with
    | some b =>
      rw [closes] at inner
      simp only [show b.isScope = false from inner.2, Bool.false_eq_true, if_false]
    | none => rfl

theorem mem_around_lt (member : q ∈ around ops x) : q < x := by
  induction x generalizing q with
  | zero => cases member
  | succ x ih =>
    cases found : ops[x]? with
    | none =>
      have few := List.getElem?_eq_none_iff.1 found
      have same : around ops (x + 1) = around ops x := by
        rw [around, around, List.take_of_length_le few, List.take_of_length_le (by omega)]
      exact Nat.lt_succ_of_lt (ih (same ▸ member))
    | some op =>
      rw [around_succ found, Op.nest] at member
      split at member
      · split at member
        · rcases List.mem_cons.1 member with rfl | member
          · exact Nat.lt_succ_self _
          · exact Nat.lt_succ_of_lt (ih member)
        · exact Nat.lt_succ_of_lt (ih member)
      · split at member
        · exact Nat.lt_succ_of_lt (ih (List.mem_of_mem_tail member))
        · exact Nat.lt_succ_of_lt (ih member)
      · exact Nat.lt_succ_of_lt (ih member)

/-- What is no longer open does not open again. -/
theorem not_mem_around_succ (gone : q ∉ around ops x) (before : q < x) : q ∉ around ops (x + 1) := by
  intro member
  refine gone ?_
  cases found : ops[x]? with
  | none =>
    have few := List.getElem?_eq_none_iff.1 found
    have same : around ops (x + 1) = around ops x := by
      rw [around, around, List.take_of_length_le few, List.take_of_length_le (by omega)]
    exact same ▸ member
  | some op =>
    rw [around_succ found, Op.nest] at member
    split at member
    · split at member
      · rcases List.mem_cons.1 member with rfl | member
        · exact absurd before (Nat.lt_irrefl _)
        · exact member
      · exact member
    · split at member
      · exact List.mem_of_mem_tail member
      · exact member
    · exact member

/-- What begins at `i` is only open up to its end. -/
theorem Matches.le_of_mem (h : Matches ops i j) {b : Bracket} (found : ops[i]? = some op)
    (opens : op.opens? = some b) (scope : b.isScope = true) (member : i ∈ Catena.around ops x) : x ≤ j := by
  obtain ⟨inside, behind⟩ := h.around found opens scope
  have lt : i < j := mem_around_lt (inside ▸ List.mem_cons_self)
  by_contra later
  obtain ⟨k, rfl⟩ : ∃ k, x = j + 1 + k := ⟨x - (j + 1), by omega⟩
  have never (k : Nat) : i ∉ Catena.around ops (j + 1 + k) := by
    induction k with
    | zero =>
      rw [Nat.add_zero, behind]
      exact fun member => Nat.lt_irrefl i (mem_around_lt member)
    | succ k ih => exact not_mem_around_succ (x := j + 1 + k) ih (by omega)
  exact never k member

end Places

namespace Paved

variable {ops : List Op} {op : Op} {k k' x p : Nat}

/-- What is open at a loop is open all around it. -/
theorem around_near (h : Paved ops) (found : ops[k]? = some op) (isLoop : op.isLoop = true)
    (near : Near k x) : around ops x = around ops k := by
  obtain ⟨start, finish, pos, -, -, -, -, -, before, after, -⟩ := h.loop_at found isLoop
  have split : x = k - 1 ∨ x = k ∨ x = k + 1 := by
    obtain ⟨le, ge⟩ := near
    omega
  rcases split with rfl | rfl | rfl
  · exact before
  · rfl
  · exact after

/-- No two loops are near one place. -/
theorem near_unique (h : Paved ops) {op' : Op} (found : ops[k]? = some op) (isLoop : op.isLoop = true)
    (found' : ops[k']? = some op') (isLoop' : op'.isLoop = true) (near : Near k x) (near' : Near k' x) :
    k = k' := by
  have apart {i j : Nat} {a b : Op} (hi : ops[i]? = some a) (la : a.isLoop = true)
      (hj : ops[j]? = some b) (lb : b.isLoop = true) (lt : i < j) (le : j ≤ i + 2) : False := by
    obtain ⟨start, finish, -, -, -, jump, -⟩ := h.loop i a hi la
    obtain ⟨start', finish', -, target, -⟩ := h.loop j b hj lb
    rcases Nat.lt_or_ge j (i + 2) with close | far
    · obtain rfl : j = i + 1 := by omega
      obtain rfl := Option.some.inj (jump.symm.trans hj)
      cases lb
    · obtain rfl : j = i + 2 := by omega
      cases jump.symm.trans target
  obtain ⟨le, ge⟩ := near
  obtain ⟨le', ge'⟩ := near'
  rcases Nat.lt_trichotomy k k' with lt | same | gt
  · exact (apart found isLoop found' isLoop' lt (by omega)).elim
  · exact same
  · exact (apart found' isLoop' found isLoop gt (by omega)).elim

/-- What is near a loop is its label, the loop itself or its jump. -/
theorem near_cases (h : Paved ops) {other : Op} (found : ops[k]? = some op) (isLoop : op.isLoop = true)
    (here : ops[x]? = some other) (near : Near k x) :
    (k = x + 1 ∧ ∃ l, other = .target l) ∨ (k = x ∧ other = op) ∨
      (x = k + 1 ∧ ∃ l, other = .jump l.name (some l)) := by
  obtain ⟨start, finish, pos, before, -, behind, -⟩ := h.loop k op found isLoop
  have split : x + 1 = k ∨ x = k ∨ x = k + 1 := by
    obtain ⟨le, ge⟩ := near
    omega
  rcases split with rfl | rfl | rfl
  · exact .inl ⟨rfl, start, Option.some.inj (here.symm.trans before)⟩
  · exact .inr (.inl ⟨rfl, Option.some.inj (here.symm.trans found)⟩)
  · exact .inr (.inr ⟨rfl, start, Option.some.inj (here.symm.trans behind)⟩)

theorem not_near_opens (h : Paved ops) {first : Op} {b : Bracket} (found : ops[k]? = some op)
    (isLoop : op.isLoop = true) (there : ops[p]? = some first) (opens : first.opens? = some b) :
    ¬ Near k p := by
  intro near
  rcases h.near_cases found isLoop there near with ⟨-, l, rfl⟩ | ⟨-, rfl⟩ | ⟨-, l, rfl⟩
  · cases opens
  · obtain ⟨done, rfl | rfl⟩ := Op.isLoop_cases isLoop <;> cases opens
  · cases opens

/-- A loop inside a `try:` form stands between its beginning and its end. -/
theorem loop_within (h : Paved ops) {done : Label} (found : ops[k]? = some op) (isLoop : op.isLoop = true)
    (there : ops[p]? = some (.try done)) (inside : around ops k = p :: around ops p) :
    p < k ∧ ∃ x, done.pc = some x ∧ k < x := by
  have member : p ∈ around ops k := inside ▸ List.mem_cons_self
  obtain ⟨j, matched, pos, before, place⟩ := h.attempt p done there
  have le := matched.le_of_mem there rfl rfl member
  refine ⟨mem_around_lt member, j - 1, place, ?_⟩
  have end_ : k ≠ j := by
    rintro rfl
    have shut := (matched.around there rfl rfl).2
    obtain ⟨-, -, -, -, -, -, -, -, -, after, -⟩ := h.loop_at found isLoop
    rw [after, inside] at shut
    simpa using congrArg List.length shut
  have label : k ≠ j - 1 := by
    rintro rfl
    obtain rfl := Option.some.inj (before.symm.trans found)
    cases isLoop
  omega

end Paved

namespace Ground

variable {ops : List Op} {G : Ground} {x y k : Nat}

theorem Runs.around (runs : G.Runs ops x) (known : G.known) (home : G.home x) : around ops x = [] := by
  rcases runs with ⟨base, fresh, rfl⟩ | ⟨base, rfl, other⟩ | ⟨base, floor, low, rfl⟩
  · exact home
  · exact absurd home other
  · exact known.elim

theorem Runs.home (runs : G.Runs ops x) (home : G.home x) (same : Catena.around ops y = Catena.around ops x) :
    G.home y := by
  rcases runs with ⟨base, fresh, rfl⟩ | ⟨base, rfl, other⟩ | ⟨base, floor, low, rfl⟩
  · exact same.trans home
  · exact absurd home other
  · trivial

end Ground

namespace Seated

variable {ops : List Op} {G : Ground} {x y k p : Nat} {op : Op} {s s' : Seat} {seats upper below : List Seat}
  {frames : List TryFrame}

/-! ## In one scope -/

/-- Another place in the same scopes, to which the running loops are as near. -/
theorem move (h : Seated ops G x seats frames) (runs : seats.length = G.base → G.Runs ops x)
    (same : around ops y = around ops x)
    (loops : ∀ s, seats.head? = some s → ∀ k st op, s.loops.find? k = some st → ops[k]? = some op →
      op.isLoop = true → Near k x → Near k y) : Seated ops G y seats frames := by
  cases h with
  | ground size home within low =>
    have runs := runs size
    refine .ground size (runs.home home same) (fun known s first => ?_) low
    intro k st found
    obtain ⟨done, ⟨op, there, isLoop⟩, allowed⟩ := within known s first k st found
    refine ⟨done, ⟨op, there, isLoop⟩, ?_⟩
    rcases runs with ⟨base, fresh, rfl⟩ | ⟨base, rfl, other⟩ | ⟨base, floor, low, rfl⟩
    · exact allowed.imp_right fun near isFresh => loops s first k st op found there isLoop (near isFresh)
    · exact absurd home other
    · exact known.elim
  | scope inside found opens within bottom below =>
    refine .scope (same.trans inside) found opens (fun k st there => ?_) bottom below
    obtain ⟨done, ⟨op, loop, isLoop⟩, near⟩ := within k st there
    exact ⟨done, ⟨op, loop, isLoop⟩, loops _ rfl k st op there loop isLoop near⟩

/-- The next place. -/
theorem next (h : Seated ops G x seats frames) (paved : Paved ops) (runs : G.Runs ops x)
    (found : ops[x]? = some op) (inner : op.isBorder = false) (other : op.isLoop = false)
    (stays : op.isJump = false) : Seated ops G (x + 1) seats frames := by
  refine h.move (fun _ => runs) (around_next found inner) fun s _ k st loop _ there isLoop near => ?_
  rcases paved.near_cases there isLoop found near with ⟨rfl, -⟩ | ⟨-, rfl⟩ | ⟨-, l, rfl⟩
  · exact ⟨by omega, by omega⟩
  · rw [isLoop] at other; cases other
  · cases stays

/-- From an operation that opens a scope to behind its end. -/
theorem skip (h : Seated ops G x seats frames) (paved : Paved ops)
    (runs : seats.length = G.base → G.Runs ops x) {b : Bracket} (found : ops[x]? = some op)
    (opens : op.opens? = some b) (same : around ops y = around ops x) : Seated ops G y seats frames :=
  h.move runs same fun _ _ _ _ _ _ there isLoop near =>
    absurd near (paved.not_near_opens there isLoop found opens)

/-- From a loop, with its label and jump, to one of these. -/
theorem around_loop (h : Seated ops G x seats frames) (paved : Paved ops) (runs : G.Runs ops x)
    (found : ops[k]? = some op) (isLoop : op.isLoop = true) (near : Near k x) (near' : Near k y) :
    Seated ops G y seats frames := by
  refine h.move (fun _ => runs) ?_ fun _ _ k' _ _ _ there isLoop' near'' => ?_
  · rw [paved.around_near found isLoop near, paved.around_near found isLoop near']
  · rwa [← paved.near_unique found isLoop there isLoop' near near'']

/-- A loop begins, or the scope changes its loops in another way. -/
theorem alterLoops (h : Seated ops G x (s :: seats) frames) (runs : G.Runs ops x)
    (body : s'.body = s.body) (retPc : s'.retPc = s.retPc)
    (loops : ∀ k st, s'.loops.find? k = some st → s.loops.find? k = some st ∨
      st.donePc = k + 2 ∧ k = x ∧ ∃ op, ops[x]? = some op ∧ op.isLoop = true) :
    Seated ops G x (s' :: seats) frames := by
  cases h with
  | ground size home within low =>
    refine .ground size home (fun known t first => ?_) low
    obtain rfl := Option.some.inj first
    intro k st found
    rcases loops k st found with old | ⟨done, rfl, op, there, isLoop⟩
    · exact within known s rfl k st old
    · refine ⟨done, ⟨op, there, isLoop⟩, ?_⟩
      rcases runs with ⟨base, fresh, rfl⟩ | ⟨base, rfl, other⟩ | ⟨base, floor, low, rfl⟩
      · exact ⟨home, fun _ => ⟨Nat.le_succ k, Nat.le_succ k⟩⟩
      · exact absurd home other
      · exact known.elim
  | scope inside found opens within bottom below =>
    refine .scope inside found ?_ (fun k st there => ?_) (body ▸ bottom) below
    · cases opens with
      | lambda called => rw [← retPc]; exact .lambda (body.trans called)
      | block called => exact .block (body.trans called)
      | attempt called scope start place => exact .attempt (body.trans called) scope start place
    · rcases loops k st there with old | ⟨done, rfl, loop⟩
      · exact within k st old
      · exact ⟨done, loop, Nat.le_succ k, Nat.le_succ k⟩

/-- Behind a loop that is over. -/
theorem pass (h : Seated ops G x (s :: seats) frames) (paved : Paved ops)
    (runs : seats.length + 1 = G.base → G.Runs ops x) (found : ops[k]? = some op)
    (isLoop : op.isLoop = true) (near : Near k x) (gone : s.loops.find? k = none) :
    Seated ops G (k + 2) (s :: seats) frames := by
  refine h.move runs ?_ fun t first k' st op' loop there isLoop' near' => ?_
  · obtain ⟨-, -, -, -, -, -, -, -, -, -, after⟩ := paved.loop_at found isLoop
    rw [after, paved.around_near found isLoop near]
  · obtain rfl := Option.some.inj first
    rw [← paved.near_unique found isLoop there isLoop' near near', gone] at loop
    cases loop

/-! ## Scopes that open and close -/

/-- An operation opens a scope. -/
theorem enter {above : List TryFrame} (h : Seated ops G y seats frames) (found : ops[p]? = some op)
    (opens : Opens p seats.length frames op s above y) (fresh : s.loops = ∅)
    (runs : s.body = none → G.Runs ops p) : Seated ops G (p + 1) (s :: seats) above := by
  obtain ⟨b, isOpen, scope⟩ := opens.opens?
  exact .scope (around_opens found isOpen scope) found opens (.of_none fresh) (fun block _ => runs block) h

/-- At the end of a scope, the topmost one is that which is to end, unless nothing is known of it. -/
theorem closing (h : Seated ops G x (s :: seats) frames) (paved : Paved ops) (runs : G.Runs ops x)
    (own : G.known ∨ G.base ≤ seats.length) {b : Bracket} (found : ops[x]? = some op) (closes : op.closes? = some b) (scope : b.isScope = true) :
    G.base ≤ seats.length ∧ ∃ p first y below, ops[p]? = some first ∧ first.opens? = some b ∧
      Opens p seats.length below first s frames y ∧ Seated ops G y seats below ∧
      (s.body = none → seats.length = G.base → G.Runs ops p) ∧ around ops (x + 1) = around ops p := by
  obtain ⟨p, first, inside, there, opens, behind⟩ := paved.close_at found closes scope
  cases h with
  | ground size home =>
    rw [List.length_cons] at size
    rw [runs.around (own.resolve_right (by omega)) home] at inside
    cases inside
  | @scope _ p' y first' _ _ _ below inside' there' opened _ bottom under =>
    obtain rfl : p' = p := (List.cons.inj (inside'.symm.trans inside)).1
    obtain rfl := Option.some.inj (there'.symm.trans there)
    exact ⟨under.base_le, p', first', y, below, there, opens, opened, under, bottom, behind⟩

/-- Behind the end of a block. -/
theorem close_block (h : Seated ops G x (s :: seats) frames) (paved : Paved ops) (runs : G.Runs ops x)
    (own : G.known ∨ G.base ≤ seats.length) (found : ops[x]? = some op) (closes : op.closes? = some .block) :
    G.base ≤ seats.length ∧ s.body = none ∧ Seated ops G (x + 1) seats frames := by
  obtain ⟨le, p, first, y, below, there, opens, opened, under, bottom, behind⟩ :=
    h.closing paved runs own found closes rfl
  cases opened with
  | lambda => cases opens
  | attempt => cases opens
  | block none => exact ⟨le, none, under.skip paved (bottom none) there opens behind⟩

/-- Behind the end of a `try:` form. -/
theorem close_try (h : Seated ops G x (s :: seats) frames) (paved : Paved ops) (runs : G.Runs ops x)
    (own : G.known ∨ G.base ≤ seats.length) (found : ops[x]? = some op) (closes : op.closes? = some .try) :
    G.base ≤ seats.length ∧ s.body = none ∧ ∃ frame below, frames = frame :: below ∧
      frame.scope = seats.length ∧ Seated ops G (x + 1) seats below := by
  obtain ⟨le, p, first, y, below, there, opens, opened, under, bottom, behind⟩ :=
    h.closing paved runs own found closes rfl
  cases opened with
  | lambda => cases opens
  | block => cases opens
  | @attempt _ _ frame none scope start place =>
    exact ⟨le, none, frame, below, rfl, scope, under.skip paved (bottom none) there opens behind⟩

/-- The scope of a lambda is that of an operation that makes it, and starts anew right behind that. -/
theorem restart (h : Seated ops G x (upper ++ s :: below) frames) (paved : Paved ops)
    {body : LambdaDef} (called : s.body = some body) (above : G.base ≤ below.length)
    (body' : s'.body = s.body) (retPc : s'.retPc = s.retPc) (fresh : s'.loops = ∅) {entry : Nat}
    (starts : body.entry = some entry) :
    Seated ops G entry (s' :: below) (frames.filter fun f => f.scope < below.length + 1) := by
  obtain ⟨y, seated⟩ := h.drop (Nat.le_succ_of_le above)
  have isSome : s.body.isSome = true := by rw [called]; rfl
  obtain ⟨under, p, body₁, kind, skip, same, found, -⟩ := seated.lambda isSome above
  obtain rfl := Option.some.inj (called.symm.trans same)
  obtain ⟨first, -, -⟩ := paved.lambda_at found
  obtain rfl := Option.some.inj (starts.symm.trans first)
  refine Seated.enter under found ?_ fresh fun block => ?_
  · rw [← retPc]
    exact .lambda (body'.trans called)
  · rw [body', called] at block
    cases block

/-! ## Loops that are left -/

/-- Where a `break` leads. -/
theorem leave (h : Seated ops G x (upper ++ s :: below) frames) (paved : Paved ops) (runs : G.Runs ops x)
    (above : G.base ≤ below.length + 1) {st : LoopState} (loop : s.loops.find? k = some st)
    (fewer : s.Fewer s') (gone : s'.loops.find? k = none) :
    Seated ops G st.donePc (s' :: below) (frames.filter fun f => f.scope < below.length + 1) := by
  obtain ⟨y, seated⟩ := h.drop above
  rcases Nat.lt_or_ge below.length G.base with bottom | inner
  · have size : (s :: below).length = G.base := Nat.le_antisymm bottom above
    obtain ⟨home, within, low⟩ := seated.ground_of size
    rcases runs with ⟨base, fresh, rfl⟩ | ⟨base, rfl, -⟩ | ⟨base, floor, le, rfl⟩
    · have within := within trivial s rfl
      obtain ⟨done, ⟨op, there, isLoop⟩, allowed⟩ := within k st loop
      obtain ⟨-, -, -, -, -, -, -, -, -, -, after⟩ := paved.loop_at there isLoop
      refine .ground size (by rw [done]; exact after.trans allowed.1) (fun _ t first => ?_) low
      obtain rfl := Option.some.inj first
      intro k' st' found
      obtain ⟨done', ⟨op', there', isLoop'⟩, outside, near⟩ := within k' st' (fewer.loops k' st' found)
      refine ⟨done', ⟨op', there', isLoop'⟩, outside, fun isFresh => ?_⟩
      have same := paved.near_unique there isLoop there' isLoop' (allowed.2 isFresh) (near isFresh)
      rw [same, found] at gone
      cases gone
    · obtain ⟨-, -, allowed⟩ := within trivial s rfl k st loop
      exact allowed.elim
    · exact .ground size trivial False.elim low
  · obtain ⟨-, -, -, -, -, -, -, within, -⟩ := seated.top inner
    obtain ⟨done, ⟨op, there, isLoop⟩, near⟩ := within k st loop
    have left := seated.fewer (.cons fewer (List.forall₂_refl _))
    rw [done]
    exact left.pass paved (fun size => by omega) there isLoop near gone

/-! ## Faults -/

/-- A `try:` form goes on behind itself with no loop left. -/
theorem caught {frame : TryFrame} {rest : List TryFrame} (h : Seated ops G x seats (frame :: rest))
    (paved : Paved ops) (above : G.base ≤ frame.scope) :
    ∃ upper s below, seats = upper ++ s :: below ∧ below.length = frame.scope ∧ s.body = none ∧
      ∀ s', s.Fewer s' →
        (∀ k st, s'.loops.find? k = some st → ¬ (frame.startPc < k ∧ k < frame.donePc)) →
        Seated ops G frame.donePc (s' :: below) (frame :: rest) := by
  generalize all : frame :: rest = frames at h
  induction h with
  | ground _ _ _ low =>
    subst all
    exact absurd (low frame List.mem_cons_self) (by omega)
  | @scope x p y op s seats top lower inside found opens within bottom under ih =>
    cases opens with
    | lambda called =>
      obtain ⟨upper, t, below, rfl, rest⟩ := ih all
      exact ⟨s :: upper, t, below, rfl, rest⟩
    | block called =>
      obtain ⟨upper, t, below, rfl, rest⟩ := ih all
      exact ⟨s :: upper, t, below, rfl, rest⟩
    | attempt called scope start place =>
      obtain ⟨rfl, rfl⟩ := List.cons.inj all
      refine ⟨[], s, seats, rfl, scope.symm, called, fun s' fewer none => ?_⟩
      obtain ⟨z, done, same⟩ := paved.try_at found
      obtain rfl := Option.some.inj (done.symm.trans place)
      refine .scope same found (.attempt (fewer.body.trans called) scope start place) ?_ ?_ under
      · intro k st loop
        obtain ⟨isDone, ⟨op, there, isLoop⟩, near⟩ := within k st (fewer.loops k st loop)
        have around := paved.around_near there isLoop near
        obtain ⟨lt, w, done', lt'⟩ := paved.loop_within there isLoop found (around ▸ inside)
        obtain rfl := Option.some.inj (done'.symm.trans place)
        exact absurd ⟨start ▸ lt, lt'⟩ (none k st loop)
      · rw [fewer.body]
        exact bottom

end Seated

end Catena
