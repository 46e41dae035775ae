import Catena.Proofs.Control.Paved
import Catena.Thread
import Mathlib.Data.List.Forall2

/-!
# Scopes and the operations they belong to

While paved operations are executed, the scopes of a thread say where it is: each belongs to the
operation that opened it, and these are the ones that are open at the place where the thread goes on
(`Seated`). A scope that is gone is left at a place where the ones below it are right. The scopes at the
bottom, which were there before the run began, are the ground on which the others stand.
-/

namespace Catena

/-- What a scope means for the flow of control. -/
structure Seat where
  body : Option LambdaDef
  retPc : Nat
  loops : Dict Nat LoopState

def Scope.seat (s : Scope) : Seat := ⟨s.callee.map (·.body), s.retPc, s.loops⟩

/-- Place `x` is that of the loop operation at `k`, or one right beside it. -/
def Near (k x : Nat) : Prop := k ≤ x + 1 ∧ x ≤ k + 1

namespace Seat

/-- The loops are those of loop operations, which go on right behind, and they are among the allowed. -/
def Loops (ops : List Op) (allowed : Nat → Prop) (s : Seat) : Prop :=
  ∀ k st, s.loops.find? k = some st →
    st.donePc = k + 2 ∧ (∃ op, ops[k]? = some op ∧ op.isLoop = true) ∧ allowed k

/-- The same, but for loops that were let go of. -/
structure Fewer (s s' : Seat) : Prop where
  body : s'.body = s.body
  retPc : s'.retPc = s.retPc
  loops : ∀ k st, s'.loops.find? k = some st → s.loops.find? k = some st

variable {ops : List Op} {allowed allowed' : Nat → Prop} {s s' : Seat}

theorem Loops.of_none (none : s.loops = ∅) : s.Loops ops allowed := by
  intro k st found
  rw [none] at found
  cases found

theorem Loops.mono (h : s.Loops ops allowed)
    (more : ∀ k op, ops[k]? = some op → op.isLoop = true → allowed k → allowed' k) :
    s.Loops ops allowed' := by
  intro k st found
  obtain ⟨done, ⟨op, there, isLoop⟩, known⟩ := h k st found
  exact ⟨done, ⟨op, there, isLoop⟩, more k op there isLoop known⟩

theorem Loops.fewer (h : s.Loops ops allowed) (fewer : s.Fewer s') : s'.Loops ops allowed :=
  fun k st found => h k st (fewer.loops k st found)

theorem Fewer.refl (s : Seat) : s.Fewer s := ⟨rfl, rfl, fun _ _ h => h⟩

instance : Std.Refl Fewer := ⟨.refl⟩

theorem Fewer.trans {s'' : Seat} (h : s.Fewer s') (k : s'.Fewer s'') : s.Fewer s'' :=
  ⟨k.body.trans h.body, k.retPc.trans h.retPc, fun i st found => h.loops i st (k.loops i st found)⟩

end Seat

/-- What a run stands on: how many scopes there are below those that it opened, how many it may not go
below by an exit, where it goes on once there are no more than the former, and, if anything is known of
them, which loops the topmost of them may be in then. -/
structure Ground where
  base : Nat
  floor : Nat
  home : Nat → Prop
  known : Prop
  loops : Nat → Nat → Prop
  low : base ≤ floor

namespace Ground

/-- A run of operations from outside, in the scopes there are. Unless it began without any loops, some of
earlier runs may be left. -/
def outer (ops : List Op) (base : Nat) (fresh : Prop) : Ground where
  base
  floor := base
  home y := around ops y = []
  known := True
  loops y k := around ops k = [] ∧ (fresh → Near k y)
  low := Nat.le_refl base

/-- A call from inside an operation, which is over once there are no more scopes than there were. -/
def inner (base : Nat) : Ground where
  base
  floor := base
  home := (· = exitPc)
  known := True
  loops _ _ := False
  low := Nat.le_refl base

/-- A run from anywhere, in whatever scopes there are. Of these it may have closed some. -/
def adrift (base floor : Nat) (low : base ≤ floor) : Ground where
  base
  floor
  home _ := True
  known := False
  loops _ _ := True
  low

/-- A run of scopes that has been cut off. -/
def cut : Ground := .adrift 0 0 (Nat.le_refl 0)

/-- Operations are not executed on the ground of a call from inside an operation. -/
def Runs (ops : List Op) (G : Ground) (x : Nat) : Prop :=
  (∃ base fresh, G = .outer ops base fresh) ∨ (∃ base, G = .inner base ∧ x ≠ exitPc) ∨
    ∃ base floor low, G = .adrift base floor low

end Ground

/-- An operation at place `p` opened a scope, and perhaps a `try:` form, on top of `n` others: which
forms there are then, and where the scopes below go on. -/
inductive Opens (p n : Nat) (below : List TryFrame) : Op → Seat → List TryFrame → Nat → Prop
  | lambda {body : LambdaDef} {kind : LambdaKind} {skip : Option Label} {s : Seat}
      (called : s.body = some body) : Opens p n below (.lambda body kind skip) s below s.retPc
  | block {own : Bool} {safety : Option Safety} {s : Seat} (called : s.body = none) :
      Opens p n below (.begin own safety) s below p
  | attempt {done : Label} {s : Seat} {frame : TryFrame} (called : s.body = none)
      (scope : frame.scope = n) (start : frame.startPc = p) (place : done.pc = some frame.donePc) :
      Opens p n below (.try done) s (frame :: below) p

/-- The scopes, the topmost first, are those of the operations open at a place, and so are the `try:`
forms. -/
inductive Seated (ops : List Op) (G : Ground) : Nat → List Seat → List TryFrame → Prop
  | ground {y : Nat} {seats : List Seat} {frames : List TryFrame} (size : seats.length = G.base)
      (home : G.home y) (loops : G.known → ∀ s, seats.head? = some s → s.Loops ops (G.loops y))
      (low : ∀ f ∈ frames, f.scope < G.base) : Seated ops G y seats frames
  | scope {x p y : Nat} {op : Op} {s : Seat} {seats : List Seat} {above frames : List TryFrame}
      (inside : around ops x = p :: around ops p) (found : ops[p]? = some op)
      (opens : Opens p seats.length frames op s above y) (loops : s.Loops ops (Near · x))
      (runs : s.body = none → seats.length = G.base → G.Runs ops p)
      (below : Seated ops G y seats frames) : Seated ops G x (s :: seats) above

namespace Opens

variable {p n y : Nat} {op : Op} {s s' : Seat} {below above : List TryFrame}

theorem opens? (h : Opens p n below op s above y) : ∃ b, op.opens? = some b ∧ b.isScope = true := by
  cases h <;> exact ⟨_, rfl, rfl⟩

theorem isLoop (h : Opens p n below op s above y) : op.isLoop = false := by
  cases h <;> rfl

/-- The forms below stay, and what comes on top belongs to the scope itself. -/
theorem filter (h : Opens p n below op s above y) (low : ∀ f ∈ below, f.scope < n) :
    above.filter (fun f => f.scope < n) = below := by
  have all : below.filter (fun f => f.scope < n) = below :=
    List.filter_eq_self.2 fun f member => decide_eq_true (low f member)
  cases h with
  | lambda => exact all
  | block => exact all
  | attempt _ scope => rw [List.filter_cons_of_neg (by simp [scope]), all]

theorem frame_le (h : Opens p n below op s above y) (low : ∀ f ∈ below, f.scope < n) :
    ∀ f ∈ above, f.scope < n + 1 := by
  intro f member
  cases h with
  | lambda => exact Nat.lt_succ_of_lt (low f member)
  | block => exact Nat.lt_succ_of_lt (low f member)
  | attempt _ scope =>
    rcases List.mem_cons.1 member with rfl | member
    · exact scope ▸ Nat.lt_succ_self n
    · exact Nat.lt_succ_of_lt (low f member)

theorem fewer (h : Opens p n below op s above y) (fewer : s.Fewer s') :
    Opens p n below op s' above y := by
  cases h with
  | lambda called => rw [← fewer.retPc]; exact .lambda (fewer.body.trans called)
  | block called => exact .block (fewer.body.trans called)
  | attempt called scope start place => exact .attempt (fewer.body.trans called) scope start place

end Opens

namespace Seated

variable {ops : List Op} {G : Ground} {x y p : Nat} {s s' head : Seat} {seats seats' upper below : List Seat}
  {frames : List TryFrame}

/-! ## What is seated -/

theorem base_le (h : Seated ops G x seats frames) : G.base ≤ seats.length := by
  induction h with
  | ground size => exact Nat.le_of_eq size.symm
  | scope _ _ _ _ _ _ ih => exact Nat.le_succ_of_le ih

theorem frame_lt (h : Seated ops G x seats frames) : ∀ f ∈ frames, f.scope < seats.length := by
  induction h with
  | ground size _ _ low => exact fun f member => size ▸ low f member
  | scope _ _ opens _ _ _ ih => exact opens.frame_le ih

/-- Above the ground, the topmost scope is that of an operation. -/
theorem top (h : Seated ops G x (s :: seats) frames) (above : G.base ≤ seats.length) :
    ∃ p y op below, around ops x = p :: around ops p ∧ ops[p]? = some op ∧
      Opens p seats.length below op s frames y ∧ s.Loops ops (Near · x) ∧
      Seated ops G y seats below := by
  cases h with
  | ground size => exact absurd size (by simp; omega)
  | scope inside found opens loops _ below => exact ⟨_, _, _, _, inside, found, opens, loops, below⟩

theorem ground_of (h : Seated ops G x seats frames) (size : seats.length = G.base) :
    G.home x ∧ (G.known → ∀ s, seats.head? = some s → s.Loops ops (G.loops x)) ∧
      ∀ f ∈ frames, f.scope < G.base := by
  cases h with
  | ground _ home loops low => exact ⟨home, loops, low⟩
  | scope _ _ _ _ _ below =>
    have le := below.base_le
    rw [List.length_cons] at size
    omega

/-- Loops may be let go of in any scope. -/
theorem fewer (h : Seated ops G x seats frames) (fewer : List.Forall₂ Seat.Fewer seats seats') :
    Seated ops G x seats' frames := by
  induction h generalizing seats' with
  | ground size home loops low =>
    refine .ground (fewer.length_eq ▸ size) home (fun known s first => ?_) low
    cases fewer with
    | nil => cases first
    | cons one _ =>
      obtain rfl := Option.some.inj first
      exact (loops known _ rfl).fewer one
  | scope inside found opens loops runs _ ih =>
    cases fewer with
    | cons one rest =>
      refine .scope inside found (rest.length_eq ▸ opens.fewer one) (loops.fewer one) ?_ (ih rest)
      rw [one.body, ← rest.length_eq]
      exact runs

/-! ## Where scopes are left -/

/-- Scopes that go leave the ones below where some place is right for them. -/
theorem drop (h : Seated ops G x (upper ++ below) frames) (above : G.base ≤ below.length) :
    ∃ y, Seated ops G y below (frames.filter fun f => f.scope < below.length) := by
  induction upper generalizing x frames with
  | nil =>
    have low : ∀ f ∈ frames, f.scope < below.length := h.frame_lt
    exact ⟨x, by rwa [List.filter_eq_self.2 fun f member => decide_eq_true (low f member)]⟩
  | cons s upper ih =>
    rw [List.cons_append] at h
    have more : G.base ≤ (upper ++ below).length := by
      rw [List.length_append]
      omega
    obtain ⟨p, y, op, lower, -, -, opens, -, under⟩ := h.top more
    obtain ⟨z, seated⟩ := ih under
    have filtered := opens.filter under.frame_lt
    refine ⟨z, ?_⟩
    rw [← filtered, List.filter_filter] at seated
    rwa [List.filter_congr fun f _ => ?_] at seated
    rw [Bool.eq_iff_iff, List.length_append]
    simp only [Bool.and_eq_true, decide_eq_true_eq]
    omega

/-- The scope of a lambda leaves those below where its caller goes on. -/
theorem lambda (h : Seated ops G x (head :: below) frames) (called : head.body.isSome = true)
    (above : G.base ≤ below.length) : Seated ops G head.retPc below frames ∧
      ∃ p body kind skip, head.body = some body ∧ ops[p]? = some (.lambda body kind skip) ∧
        around ops x = p :: around ops p := by
  obtain ⟨p, y, op, lower, inside, found, opens, -, under⟩ := h.top above
  cases opens with
  | lambda same => exact ⟨under, p, _, _, _, same, found, inside⟩
  | block none => rw [none] at called; cases called
  | attempt none => rw [none] at called; cases called

/-- What is cut off at the scope of a lambda is seated by itself. -/
theorem cut_off (h : Seated ops G x (upper ++ head :: below) frames) (called : head.body.isSome = true)
    (above : G.base ≤ below.length) :
    Seated ops .cut x (upper ++ [head])
      ((frames.filter fun f => below.length ≤ f.scope).map fun f =>
        { f with scope := f.scope - below.length }) := by
  induction upper generalizing x frames with
  | nil =>
    obtain ⟨-, p, body, kind, skip, same, found, inside⟩ := h.lambda called above
    obtain ⟨p', y, op, lower, inside', found', opens, loops, under⟩ := h.top above
    obtain rfl : p = p' := (List.cons.inj (inside.symm.trans inside')).1
    obtain rfl := Option.some.inj (found.symm.trans found')
    have none : (frames.filter fun f => below.length ≤ f.scope) = [] := by
      cases opens with
      | lambda =>
        refine List.filter_eq_nil_iff.2 fun f member => ?_
        have low := under.frame_lt f member
        simp only [decide_eq_true_eq]
        omega
    rw [none]
    refine .scope inside found (.lambda same) loops (fun none => ?_)
      (.ground rfl trivial False.elim fun _ member => nomatch member)
    rw [none] at same
    cases same
  | cons s upper ih =>
    rw [List.cons_append] at h ⊢
    have more : G.base ≤ (upper ++ head :: below).length := by
      rw [List.length_append, List.length_cons]
      omega
    obtain ⟨p, y, op, lower, inside, found, opens, loops, under⟩ := h.top more
    refine .scope inside found ?_ loops (fun _ bottom => ?_) (ih under)
    swap
    · simp [Ground.cut, Ground.adrift] at bottom
    have size : (upper ++ head :: below).length = (upper ++ [head]).length + below.length := by
      simp only [List.length_append, List.length_cons, List.length_nil]
      omega
    rw [size] at opens
    cases opens with
    | lambda same => exact .lambda same
    | block none => exact .block none
    | attempt none scope start place =>
      rw [List.filter_cons_of_pos (by simp [scope]), List.map_cons]
      exact .attempt none (by dsimp only; rw [scope, Nat.add_sub_cancel]) start place

/-- What has been cut off can be put on top of other scopes. -/
theorem graft {cut : List TryFrame} (h : Seated ops .cut x (upper ++ [head]) cut)
    (called : head.body.isSome = true) (under : Seated ops G y below frames)
    {head' : Seat} (body : head'.body = head.body) (loops : head'.loops = head.loops)
    (back : head'.retPc = y) :
    Seated ops G x (upper ++ head' :: below)
      ((cut.map fun f => { f with scope := f.scope + below.length }) ++ frames) := by
  induction upper generalizing x cut with
  | nil =>
    obtain ⟨p', y', op, lower, inside, found, opens, within, rest⟩ := h.top (Nat.zero_le _)
    have empty : lower = [] := by
      refine List.eq_nil_iff_forall_not_mem.2 fun f member => ?_
      exact Nat.not_lt_zero _ (rest.frame_lt f member)
    subst empty
    have allowed : head'.Loops ops (Near · x) := fun k st there => within k st (loops ▸ there)
    cases opens with
    | lambda same =>
      subst back
      refine .scope inside found (.lambda (body.trans same)) allowed (fun none => ?_) under
      rw [body, same] at none
      cases none
    | block none => rw [none] at called; cases called
    | attempt none => rw [none] at called; cases called
  | cons s upper ih =>
    rw [List.cons_append] at h ⊢
    obtain ⟨p', y', op, lower, inside, found, opens, within, rest⟩ := h.top (Nat.zero_le _)
    refine .scope inside found ?_ within (fun _ bottom => ?_) (ih rest)
    swap
    · have le := under.base_le
      simp only [List.length_append, List.length_cons] at bottom
      omega
    have size : (upper ++ head' :: below).length = (upper ++ [head]).length + below.length := by
      simp only [List.length_append, List.length_cons, List.length_nil]
      omega
    rw [size]
    cases opens with
    | lambda same => exact .lambda same
    | block none => exact .block none
    | attempt none scope start place =>
      rw [List.map_cons, List.cons_append]
      exact .attempt none (by dsimp only; rw [scope]) start place

end Seated

end Catena
