import Catena.Proofs.Values.Equality
import Catena.Proofs.Values.Rational
import Mathlib.Data.List.Lex
import Mathlib.Data.String.Basic
import Mathlib.Order.Compare

/-!
# The order of values

The order is partial: two values may have no order at all. On values that do not contain themselves it is
a strict order next to equality (`Store.compare_order`): turning the values round turns the answer round,
values that are neither before nor behind one another are equal, and steps that do not go down lead
nowhere but up.

A scalar is ordered by its place on a scale, and scales of different kinds are never compared. Pairs and
lists are compared from the front, and the first two parts that differ decide, or the first two that have
no order. So the laws go up from the parts to the whole: up to the deciding place the parts are all equal,
and there the law for the parts applies.
-/

namespace Catena

/-! ## Partial orders -/

/-- On a class, a comparison that need not have an answer is one of a strict order. -/
structure Ordered {α : Type} (cmp : α → α → Option Ordering) (C : α → Prop) : Prop where
  swap : ∀ a b, C a → C b → cmp b a = (cmp a b).map Ordering.swap
  trans : ∀ a b c o o', C a → C b → C c → cmp a b = some o → cmp b c = some o' → o ≠ .gt → o' ≠ .gt →
    cmp a c = some (o.then o')

theorem Ordered.mono {α : Type} {cmp : α → α → Option Ordering} {C D : α → Prop} (laws : Ordered cmp C)
    (h : ∀ a, D a → C a) : Ordered cmp D where
  swap a b ha hb := laws.swap a b (h a ha) (h b hb)
  trans a b c o o' ha hb hc := laws.trans a b c o o' (h a ha) (h b hb) (h c hc)

/-- A total order has these laws. -/
theorem ordered_compare (α : Type) [Ord α] [Std.TransOrd α] :
    Ordered (fun x y : α => some (compare x y)) fun _ => True where
  swap x y _ _ := congrArg some Std.OrientedCmp.eq_swap
  trans x y z o o' _ _ _ first second up up' := by
    obtain rfl := Option.some.inj first
    obtain rfl := Option.some.inj second
    cases less : compare x y with
    | lt => exact congrArg some (Std.TransCmp.lt_of_lt_of_isLE less (Ordering.isLE_iff_ne_gt.2 up'))
    | eq => exact congrArg some (Std.TransCmp.congr_left less)
    | gt => exact absurd less up

/-! ## Scales -/

/-- What a scalar is ordered by: a scale, and a place on it. -/
inductive Scale
  | number (x : ℚ)
  | bool (n : Nat)
  | char (n : Nat)
  | wchar (n : Nat)
  | str (s : String)
  | wstr (units : List UInt16)
  | sym (s : String)

namespace Scale

/-- The order of two places on one scale. -/
def compare? : Scale → Scale → Option Ordering
  | number x, number y => some (compare x y)
  | bool x, bool y | char x, char y | wchar x, wchar y => some (compare x y)
  | str x, str y | sym x, sym y => some (compare x y)
  | wstr x, wstr y => some (compare x y)
  | _, _ => none

theorem ordered : Ordered compare? fun _ => True where
  swap x y _ _ := by
    cases x <;> cases y <;> simp only [compare?, Option.map_none, Option.map_some]
    all_goals exact congrArg some Std.OrientedCmp.eq_swap
  trans x y z o o' _ _ _ first second up up' := by
    cases x <;> cases y <;> simp only [compare?, reduceCtorEq] at first
    all_goals
      cases z <;> simp only [compare?, reduceCtorEq] at second ⊢
      exact (ordered_compare _).trans _ _ _ o o' trivial trivial trivial first second up up'

theorem eq_of_compare? {x y : Scale} (h : x.compare? y = some .eq) : x = y := by
  cases x <;> cases y <;> simp only [compare?, reduceCtorEq] at h
  all_goals exact congrArg _ (Std.LawfulEqCmp.eq_of_compare (Option.some.inj h))

end Scale

/-- The place of a scalar on its scale. -/
def Payload.scale? : Payload → Option Scale
  | .int n => some (.number n.toInt)
  | .ratio r => some (.number r.value)
  | .bool b => some (.bool b.toNat)
  | .char c => some (.char c.toNat)
  | .wchar u => some (.wchar u.toNat)
  | .str s => some (.str s)
  | .wstr units => some (.wstr units)
  | .sym s => some (.sym s)
  | _ => none

theorem compareUnits_eq (as bs : List UInt16) : Store.compareUnits as bs = compare as bs := by
  induction as generalizing bs with
  | nil => cases bs <;> rfl
  | cons a as ih =>
    cases bs with
    | nil => rfl
    | cons b bs =>
      have head : compare a b = if a < b then .lt else if a = b then .eq else .gt := rfl
      rw [Store.compareUnits, List.compare_cons_cons, ih, head]
      simp only [UInt16.lt_iff_toNat_lt, ← UInt16.toNat_inj]
      rcases Nat.lt_trichotomy a.toNat b.toNat with less | same | more
      · simp [less]
      · simp [same]
      · simp [more, Nat.lt_asymm more, more.ne']

namespace Store

variable {s : Store} {rel rel' : Value → Value → Option Ordering} {C : Value → Prop} {a b c : Value}

/-! ## Places -/

theorem compareLists_congr {as bs : List Value} (h : ∀ a ∈ as, ∀ b ∈ bs, rel a b = rel' a b) :
    compareLists rel as bs = compareLists rel' as bs := by
  induction as generalizing bs with
  | nil => cases bs <;> rfl
  | cons a as ih =>
    cases bs with
    | nil => rfl
    | cons b bs =>
      have rest : compareLists rel as bs = compareLists rel' as bs :=
        ih fun x hx y hy => h x (by simp [hx]) y (by simp [hy])
      rw [compareLists, compareLists, h a (by simp) b (by simp), rest]

/-- Lists that are neither before nor behind one another have equal items if this holds of the items. -/
theorem compareLists_eq {equal : Value → Value → Bool} {as bs : List Value}
    (h : ∀ a ∈ as, ∀ b ∈ bs, rel a b = some .eq → equal a b = true)
    (same : compareLists rel as bs = some .eq) :
    List.Forall₂ (fun a b => equal a b = true) as bs := by
  induction as generalizing bs with
  | nil =>
    cases bs with
    | nil => exact .nil
    | cons b bs => cases same
  | cons a as ih =>
    cases bs with
    | nil => cases same
    | cons b bs =>
      rw [compareLists] at same
      split at same
      · refine .cons (h a (by simp) b (by simp) ‹_›) (ih (fun x hx y hy => ?_) same)
        exact h x (by simp [hx]) y (by simp [hy])
      · exact absurd same ‹_›

theorem compareLists_two (rel : Value → Value → Option Ordering) (a b c d : Value) :
    compareLists rel [a, b] [c, d] =
      match rel a c with
      | some .eq => rel b d
      | other => other := by
  simp only [compareLists]
  rcases rel a c with _ | (_ | _ | _) <;> try rfl
  rcases rel b d with _ | (_ | _ | _) <;> rfl

theorem compareLists_up {as bs : List Value} {o : Ordering}
    (h : compareLists rel (a :: as) (b :: bs) = some o) (up : o ≠ .gt) :
    rel a b = some .lt ∧ o = .lt ∨ rel a b = some .eq ∧ compareLists rel as bs = some o := by
  rw [compareLists] at h
  split at h
  · exact .inr ⟨‹_›, h⟩
  · cases o with
    | lt => exact .inl ⟨h, rfl⟩
    | eq => exact absurd h ‹_›
    | gt => exact absurd rfl up

/-- The first place where two lists differ decides, or the first two items that have no order. -/
theorem ordered_compareLists (laws : Ordered rel C) :
    Ordered (compareLists rel) fun as => ∀ a ∈ as, C a where
  swap as bs ha hb := by
    induction as generalizing bs with
    | nil => cases bs <;> rfl
    | cons a as ih =>
      cases bs with
      | nil => rfl
      | cons b bs =>
        simp only [List.forall_mem_cons] at ha hb
        rw [compareLists, compareLists, laws.swap a b ha.1 hb.1]
        rcases rel a b with _ | (_ | _ | _)
        · rfl
        · rfl
        · exact ih bs ha.2 hb.2
        · rfl
  trans as bs cs o o' ha hb hc first second up up' := by
    induction as generalizing bs cs with
    | nil =>
      cases cs with
      | nil =>
        cases bs with
        | nil => cases first; cases second; rfl
        | cons b bs => cases second; exact absurd rfl up'
      | cons c cs =>
        cases bs with
        | nil => cases first; cases second; rfl
        | cons b bs => cases first; rfl
    | cons a as ih =>
      cases bs with
      | nil => cases first; exact absurd rfl up
      | cons b bs =>
        cases cs with
        | nil => cases second; exact absurd rfl up'
        | cons c cs =>
          simp only [List.forall_mem_cons] at ha hb hc
          have head {x y : Ordering} (hx : rel a b = some x) (hy : rel b c = some y) (ux : x ≠ .gt)
              (uy : y ≠ .gt) : rel a c = some (x.then y) :=
            laws.trans a b c x y ha.1 hb.1 hc.1 hx hy ux uy
          rw [compareLists]
          rcases compareLists_up first up with ⟨hx, rfl⟩ | ⟨hx, rest⟩ <;>
            rcases compareLists_up second up' with ⟨hy, rfl⟩ | ⟨hy, rest'⟩ <;>
            rw [head hx hy (by decide) (by decide)]
          · rfl
          · rfl
          · have less : o = .lt ∨ o = .eq := by cases o <;> simp_all
            rcases less with rfl | rfl <;> rfl
          · exact ih bs cs ha.2 hb.2 hc.2 rest rest'

/-! ## Values -/

/-- How a value is compared: by its place on a scale, or part by part. -/
inductive View
  | scalar (x : Scale)
  | pair (sides : Option (Value × Value))
  | list (items : List Value)
  | other

/-- How a value is compared. -/
def view (s : Store) (v : Value) : View :=
  match v.payload with
  | .pair r => .pair s.pairs[r]?
  | .list r => .list (s.listAt r).toList
  | p => (p.scale?).elim .other .scalar

/-- The order of two values that are compared in given ways, given that of their parts. -/
def View.compare? (rel : Value → Value → Option Ordering) : View → View → Option Ordering
  | scalar x, scalar y => x.compare? y
  | pair sides, pair sides' =>
    match sides, sides' with
    | some p, some q => compareLists rel [p.1, p.2] [q.1, q.2]
    | _, _ => none
  | list as, list bs => compareLists rel as bs
  | _, _ => none

namespace View

/-- The parts that decide. -/
def parts : View → List Value
  | pair (some p) => [p.1, p.2]
  | list items => items
  | _ => []

theorem compare?_congr {v w : View} (h : ∀ x ∈ v.parts, ∀ y ∈ w.parts, rel x y = rel' x y) :
    v.compare? rel w = v.compare? rel' w := by
  rcases v with x | (_ | p) | as | _ <;> rcases w with y | (_ | q) | bs | _ <;> try rfl
  · exact compareLists_congr h
  · exact compareLists_congr h

theorem ordered (laws : Ordered rel C) : Ordered (compare? rel) fun v => ∀ w ∈ v.parts, C w where
  swap v w hv hw := by
    rcases v with x | (_ | p) | as | _ <;> rcases w with y | (_ | q) | bs | _ <;> try rfl
    · exact Scale.ordered.swap x y trivial trivial
    · exact (ordered_compareLists laws).swap _ _ hv hw
    · exact (ordered_compareLists laws).swap _ _ hv hw
  trans v w u o o' hv hw hu first second up up' := by
    rcases v with x | (_ | p) | as | _ <;> rcases w with y | (_ | q) | bs | _ <;> try cases first
    all_goals rcases u with z | (_ | r) | cs | _ <;> try cases second
    · exact Scale.ordered.trans x y z o o' trivial trivial trivial first second up up'
    · exact (ordered_compareLists laws).trans _ _ _ o o' hv hw hu first second up up'
    · exact (ordered_compareLists laws).trans _ _ _ o o' hv hw hu first second up up'

end View

theorem parts_view (s : Store) (v : Value) : ∀ w ∈ (s.view v).parts, w ∈ s.parts v := by
  obtain ⟨t, p⟩ := v
  cases p with
  | pair r => cases found : s.pairs[r]? <;> simp [view, View.parts, parts, found]
  | list r => exact fun w member => member
  | _ => exact fun w member => absurd member List.not_mem_nil

section

variable {v : Value}

theorem scale_of_view {x : Scale} (h : s.view v = .scalar x) : v.payload.scale? = some x := by
  unfold view at h
  split at h
  · cases h
  · cases h
  · cases found : v.payload.scale? with
    | none => rw [found] at h; cases h
    | some y => rw [found] at h; cases h; rfl

theorem pair_of_view {p : Value × Value} (h : s.view v = .pair (some p)) :
    ∃ r, v.payload = .pair r ∧ s.pairs[r]? = some p := by
  unfold view at h
  split at h
  · exact ⟨_, ‹_›, View.pair.inj h⟩
  · cases h
  · cases found : v.payload.scale? <;> rw [found] at h <;> cases h

theorem list_of_view {items : List Value} (h : s.view v = .list items) :
    ∃ r, v.payload = .list r ∧ (s.listAt r).toList = items := by
  unfold view at h
  split at h
  · cases h
  · exact ⟨_, ‹_›, View.list.inj h⟩
  · cases found : v.payload.scale? <;> rw [found] at h <;> cases h

end

/-- The order of values, given that of their parts. -/
def compareBy (s : Store) (rel : Value → Value → Option Ordering) (a b : Value) : Option Ordering :=
  match a.payload, b.payload with
  | .int m, .int n => some (compare m.toInt n.toInt)
  | .ratio p, .ratio q => some (p.cmp q)
  | .int n, .ratio q => some ((Ratio.ofInt64 n).cmp q)
  | .ratio p, .int n => some (p.cmp (Ratio.ofInt64 n))
  | .bool x, .bool y => some (compare x.toNat y.toNat)
  | .char x, .char y => some (compare x.toNat y.toNat)
  | .wchar x, .wchar y => some (compare x.toNat y.toNat)
  | .str x, .str y => some (compareText x y)
  | .wstr x, .wstr y => some (compareUnits x y)
  | .sym x, .sym y => some (compareText x y)
  | .pair x, .pair y =>
    match s.pairs[x]?, s.pairs[y]? with
    | some p, some q =>
      match rel p.1 q.1 with
      | some .eq => rel p.2 q.2
      | other => other
    | _, _ => none
  | .list x, .list y => compareLists rel (s.listAt x).toList (s.listAt y).toList
  | _, _ => none

theorem compareWithin_succ (s : Store) (n : Nat) (a b : Value) :
    s.compareWithin (n + 1) a b = s.compareBy (s.compareWithin n) a b := rfl

/-- If the value is a ratio, it is in lowest terms. -/
def Reduced (v : Value) : Prop :=
  ∀ r ∈ v.ratio?, r.Lowest

theorem compareBy_eq (ha : Reduced a) (hb : Reduced b) :
    s.compareBy rel a b = (s.view a).compare? rel (s.view b) := by
  obtain ⟨t, p⟩ := a
  obtain ⟨u, q⟩ := b
  cases p <;> cases q <;> try rfl
  case int.int m n => exact congrArg some (Ratio.compare_congr Int.cast_lt.symm Int.cast_inj.symm)
  case int.ratio n r =>
    have order := Ratio.cmp_eq (Ratio.lowest_ofInt64 n) (hb r rfl)
    rw [Ratio.value_ofInt64] at order
    exact congrArg some order
  case ratio.int r n =>
    have order := Ratio.cmp_eq (ha r rfl) (Ratio.lowest_ofInt64 n)
    rw [Ratio.value_ofInt64] at order
    exact congrArg some order
  case ratio.ratio r r' => exact congrArg some (Ratio.cmp_eq (ha r rfl) (hb r' rfl))
  case wstr.wstr as bs => exact congrArg some (compareUnits_eq as bs)
  case pair.pair x y =>
    simp only [compareBy, view]
    rcases s.pairs[x]? with _ | p <;> rcases s.pairs[y]? with _ | q <;> try rfl
    exact (compareLists_two ..).symm

theorem compareBy_congr (ha : Reduced a) (hb : Reduced b)
    (h : ∀ x ∈ s.parts a, ∀ y ∈ s.parts b, rel x y = rel' x y) :
    s.compareBy rel a b = s.compareBy rel' a b := by
  rw [compareBy_eq ha hb, compareBy_eq ha hb]
  exact View.compare?_congr fun x hx y hy => h x (s.parts_view a x hx) y (s.parts_view b y hy)

/-- A bound that is not smaller than the values are deep plays no part. -/
theorem compareWithin_stable {n m k : Nat} (ha : s.Nested Reduced n a) (hb : s.Nested Reduced n b)
    (hm : n ≤ m) (hk : n ≤ k) : s.compareWithin (m + 1) a b = s.compareWithin (k + 1) a b := by
  rw [compareWithin_succ, compareWithin_succ]
  refine compareBy_congr ha.here hb.here fun x hx y hy => ?_
  induction n generalizing a b m k x y with
  | zero => rw [ha.2] at hx; cases hx
  | succ n ih =>
    obtain ⟨m, rfl⟩ : ∃ l, m = l + 1 := ⟨m - 1, by omega⟩
    obtain ⟨k, rfl⟩ : ∃ l, k = l + 1 := ⟨k - 1, by omega⟩
    have px := ha.2 x hx
    have py := hb.2 y hy
    exact compareBy_congr px.here py.here fun v hv w hw => ih px py (by omega) (by omega) v hv w hw

/-- Neither the value nor any value in it contains itself, and all ratios in it are in lowest terms. -/
structure Regular (s : Store) (v : Value) : Prop where
  acyclic : s.Acyclic v
  reduced : ∀ w, s.Within w v → Reduced w

theorem regular_iff (s : Store) (v : Value) : s.Regular v ↔ s.Nested Reduced s.nesting v := by
  rw [nested_iff]
  exact ⟨fun h => ⟨h.acyclic, h.reduced⟩, fun h => ⟨h.1, h.2⟩⟩

theorem Regular.here (h : s.Regular a) : Reduced a := h.reduced a .refl

/-- The order of two values is that of their parts. -/
theorem compare?_eq (ha : s.Regular a) (hb : s.Regular b) :
    s.compare? a b = (s.view a).compare? s.compare? (s.view b) := by
  rw [← compareBy_eq ha.here hb.here]
  exact compareWithin_stable ((regular_iff s a).1 ha) ((regular_iff s b).1 hb) (Nat.le_refl _) (Nat.le_succ _)

/-- Scalars at one place of one scale are the same, or an integer and a ratio of the same value. -/
theorem alike_of_scale {x : Scale} (ha : Reduced a) (hb : Reduced b) (first : a.payload.scale? = some x)
    (second : b.payload.scale? = some x) :
    a.same b = true ∨ s.Alike s.equals a.payload b.payload := by
  obtain ⟨t, p⟩ := a
  obtain ⟨u, q⟩ := b
  cases p <;> cases first <;> cases q <;> first
    | cases second
    | have place := Option.some.inj second
  case int.refl.int m n =>
    obtain rfl := Int64.toInt_inj.1 (Int.cast_inj.1 (Scale.number.inj place))
    exact .inl (Payload.identical_refl _)
  case int.refl.ratio n r =>
    have value := (Ratio.value_ofInt64 n).trans (Scale.number.inj place).symm
    exact .inr (.whole ((Ratio.lowest_ofInt64 n).eq_of_value (hb r rfl) value))
  case ratio.refl.int r n =>
    have value := (Ratio.value_ofInt64 n).trans (Scale.number.inj place)
    exact .inr (.ratio ((Ratio.lowest_ofInt64 n).eq_of_value (ha r rfl) value))
  case ratio.refl.ratio r r' =>
    obtain rfl := (ha r rfl).eq_of_value (hb r' rfl) (Scale.number.inj place).symm
    exact .inl (Payload.identical_refl _)
  case bool.refl.bool x y =>
    obtain rfl : x = y := by cases x <;> cases y <;> first | rfl | cases place
    exact .inl (Payload.identical_refl _)
  case char.refl.char x y =>
    obtain rfl := Char.toNat_inj.1 (Scale.char.inj place)
    exact .inl (Payload.identical_refl _)
  case wchar.refl.wchar x y =>
    obtain rfl := UInt16.toNat_inj.1 (Scale.wchar.inj place)
    exact .inl (Payload.identical_refl _)
  all_goals exact .inl (Payload.identical_refl _)

/-- Values that are neither before nor behind one another are equal if this holds of their parts. -/
theorem equals_of_parts (ha : s.Regular a) (hb : s.Regular b)
    (parts : ∀ v ∈ s.parts a, ∀ w ∈ s.parts b, s.compare? v w = some .eq → s.equals v w = true)
    (same : s.compare? a b = some .eq) : s.equals a b = true := by
  rw [compare?_eq ha hb] at same
  rw [equals_iff ha.acyclic hb.acyclic]
  have equal : ∀ v ∈ (s.view a).parts, ∀ w ∈ (s.view b).parts, s.compare? v w = some .eq →
      s.equals v w = true :=
    fun v hv w hw => parts v (s.parts_view a v hv) w (s.parts_view b w hw)
  rcases va : s.view a with x | (_ | p) | as | _ <;> rcases vb : s.view b with y | (_ | q) | bs | _ <;>
    rw [va, vb] at same equal <;> try cases same
  · obtain rfl := Scale.eq_of_compare? same
    exact alike_of_scale ha.here hb.here (scale_of_view va) (scale_of_view vb)
  · obtain ⟨x, is, px⟩ := pair_of_view va
    obtain ⟨y, is', py⟩ := pair_of_view vb
    cases compareLists_eq equal same with
    | cons left rest =>
      cases rest with
      | cons right _ =>
        rw [is, is']
        exact .inr (.pair px py left right)
  · obtain ⟨x, is, rfl⟩ := list_of_view va
    obtain ⟨y, is', rfl⟩ := list_of_view vb
    rw [is, is']
    exact .inr (.list (compareLists_eq equal same))

/-- If the laws hold on the parts of values, they do on the values. -/
theorem ordered_whole (laws : Ordered s.compare? C) :
    Ordered s.compare? fun v => s.Regular v ∧ ∀ w ∈ s.parts v, C w where
  swap a b := by
    rintro ⟨ha, inside⟩ ⟨hb, inside'⟩
    rw [compare?_eq ha hb, compare?_eq hb ha]
    exact (View.ordered laws).swap _ _ (fun w hw => inside w (s.parts_view a w hw))
      fun w hw => inside' w (s.parts_view b w hw)
  trans a b c o o' := by
    rintro ⟨ha, inside⟩ ⟨hb, inside'⟩ ⟨hc, inside''⟩
    rw [compare?_eq ha hb, compare?_eq hb hc, compare?_eq ha hc]
    exact (View.ordered laws).trans _ _ _ o o' (fun w hw => inside w (s.parts_view a w hw))
      (fun w hw => inside' w (s.parts_view b w hw)) fun w hw => inside'' w (s.parts_view c w hw)

theorem Nested.regular {n : Nat} (h : s.Nested Reduced n a) : s.Regular a :=
  ⟨h.acyclic, fun _ within => (h.within within).1⟩

theorem ordered_nested (s : Store) (n : Nat) : Ordered s.compare? (s.Nested Reduced n) := by
  induction n with
  | zero =>
    have none : Ordered s.compare? fun _ => False :=
      ⟨fun _ _ no _ => no.elim, fun _ _ _ _ _ no _ _ _ => no.elim⟩
    refine (ordered_whole none).mono fun v nested => ⟨nested.regular, fun w member => ?_⟩
    rw [nested.2] at member
    cases member
  | succ n ih => exact (ordered_whole ih).mono fun v nested => ⟨nested.regular, nested.2⟩

theorem equals_of_compare? {n : Nat} (ha : s.Nested Reduced n a) (hb : s.Nested Reduced n b) :
    s.compare? a b = some .eq → s.equals a b = true := by
  induction n generalizing a b with
  | zero =>
    refine equals_of_parts ha.regular hb.regular fun v member => ?_
    rw [ha.2] at member
    cases member
  | succ n ih =>
    exact equals_of_parts ha.regular hb.regular fun v member w member' => ih (ha.2 v member) (hb.2 w member')

/-- On values that do not contain themselves and whose ratios are in lowest terms, the order is a strict
partial order next to equality. Two of them have an order just if they have one the other way round, which
is then the reverse; if neither is before the other they are equal; and from a value that is not behind a
second one and a second that is not behind a third follows where the first is to the third. Scalars are
ordered on their scales, pairs and lists by the first parts that differ. -/
theorem compare_order (s : Store) :
    (∀ a b, s.Regular a → s.Regular b → s.compare? b a = (s.compare? a b).map Ordering.swap) ∧
    (∀ a b, s.Regular a → s.Regular b → s.compare? a b = some .eq → s.equals a b = true) ∧
    (∀ a b c o o', s.Regular a → s.Regular b → s.Regular c → s.compare? a b = some o →
      s.compare? b c = some o' → o ≠ .gt → o' ≠ .gt →
      s.compare? a c = some (if o = .eq ∧ o' = .eq then .eq else .lt)) ∧
    ∀ a b, s.Regular a → s.Regular b →
      s.compare? a b = (s.view a).compare? s.compare? (s.view b) := by
  have laws : Ordered s.compare? s.Regular := (s.ordered_nested s.nesting).mono fun v => (s.regular_iff v).1
  refine ⟨laws.swap, fun a b ha hb => ?_, fun a b c o o' ha hb hc first second up up' => ?_, ?_⟩
  · exact equals_of_compare? ((s.regular_iff a).1 ha) ((s.regular_iff b).1 hb)
  · rw [laws.trans a b c o o' ha hb hc first second up up']
    cases o <;> cases o' <;> first
      | rfl
      | contradiction
  · exact fun a b => compare?_eq

/-- Lists and pairs of numbers and texts. The last two lists hold something that has no order, behind the
place that decides. -/
def graded : Store where
  lists := #[#[.int 1, .str "b"], #[.ratio ⟨1, 1⟩, .str "b", .nil], #[.ratio ⟨3, 2⟩, .nil]]
  pairs := #[(.sym "k", ⟨.list, .list 0⟩), (.sym "k", ⟨.list, .list 1⟩), (.sym "k", ⟨.list, .list 2⟩)]

instance (v : Value) : Decidable (Reduced v) :=
  inferInstanceAs (Decidable (∀ r ∈ v.ratio?, r.Lowest))

instance (s : Store) : DecidablePred s.Regular := fun v =>
  decidable_of_iff _ (regular_iff s v).symm

theorem compare_order_graded :
    let pair (r : Ref) : Value := ⟨.pair, .pair r⟩
    graded.Regular (pair 0) ∧ graded.Regular (pair 1) ∧ graded.Regular (pair 2) ∧
      graded.compare? (pair 0) (pair 1) = some .lt ∧ graded.compare? (pair 1) (pair 2) = some .lt ∧
      graded.compare? (pair 1) (pair 0) = some .gt ∧ graded.compare? (pair 0) (pair 2) = some .lt ∧
      graded.compare? (pair 0) (pair 0) = some .eq ∧ graded.equals (pair 0) (pair 0) = true := by
  intro pair
  have first : graded.Regular (pair 0) := by decide +kernel
  have second : graded.Regular (pair 1) := by decide +kernel
  have third : graded.Regular (pair 2) := by decide +kernel
  have one : graded.compare? (pair 0) (pair 1) = some .lt := by decide +kernel
  have two : graded.compare? (pair 1) (pair 2) = some .lt := by decide +kernel
  have self : graded.compare? (pair 0) (pair 0) = some .eq := by decide +kernel
  obtain ⟨swap, equal, trans, -⟩ := graded.compare_order
  refine ⟨first, second, third, one, two, ?_, ?_, self, equal _ _ first first self⟩
  · rw [swap _ _ first second, one]
    rfl
  · exact trans _ _ _ _ _ first second third one two (by decide) (by decide)

end Store

end Catena
