import Catena.Proofs.Values.Nesting
import Mathlib.Data.Fintype.EquivFin
import Mathlib.Data.List.Forall2

/-!
# Equality of values

On values that contain neither themselves nor a table with two equal keys, equality is an equivalence
relation (`Store.equals_equivalence`). There the bound on the recursion plays no part: equality of two
values is equality of their parts (`Store.equals_eq`), so its laws go up from the parts to the whole.

For tables this takes a count. An entry is sought by its key, so to be equal is to be covered by a table
of the same length. Entries with unequal keys are covered by different ones; hence none is left over in
the second table, and the first covers it in turn.
-/

namespace Catena

/-! ## Being the same -/

namespace Payload

variable {p q : Payload}

theorem identical_refl (p : Payload) : p.identical p = true := by
  cases p <;> simp [identical]

/-- Payloads that are the same are equal, but for what types and labels have beside their identity. -/
theorem eq_of_identical (h : p.identical q = true) :
    p = q ∨ (∃ t u, p = .type t ∧ q = .type u ∧ t.id = u.id) ∨
      ∃ l m, p = .label l ∧ q = .label m ∧ l.name = m.name ∧ l.anon = m.anon := by
  unfold identical at h
  split at h <;> simp_all

theorem identical_congr (h : p.identical q = true) (r : Payload) : p.identical r = q.identical r := by
  rcases eq_of_identical h with rfl | ⟨t, u, rfl, rfl, id⟩ | ⟨l, m, rfl, rfl, name, anon⟩
  · rfl
  · cases r <;> simp [identical, id]
  · cases r <;> simp [identical, name, anon]

theorem identical_symm (h : p.identical q = true) : q.identical p = true :=
  (identical_congr h p).symm.trans p.identical_refl

end Payload

namespace Store

variable {s : Store} {rel rel' : Value → Value → Bool} {C : Value → Prop} {a b c : Value}

/-! ## Equality of the whole from that of the parts -/

theorem allPairs_iff (rel : Value → Value → Bool) (as bs : List Value) :
    allPairs rel as bs = true ↔ List.Forall₂ (fun a b => rel a b = true) as bs := by
  induction as generalizing bs with
  | nil => cases bs <;> simp [allPairs]
  | cons a as ih => cases bs <;> simp [allPairs, ih]

theorem allPairs_congr {as bs : List Value} (h : ∀ a ∈ as, ∀ b ∈ bs, rel a b = rel' a b) :
    allPairs rel as bs = allPairs rel' as bs := by
  induction as generalizing bs with
  | nil => cases bs <;> rfl
  | cons a as ih =>
    cases bs with
    | nil => rfl
    | cons b bs =>
      have rest : allPairs rel as bs = allPairs rel' as bs :=
        ih fun x hx y hy => h x (by simp [hx]) y (by simp [hy])
      rw [allPairs, allPairs, h a (by simp) b (by simp), rest]

theorem findKey_congr {t : Table} {k : Value} (h : ∀ e ∈ t, rel e.1 k = rel' e.1 k) :
    findKey rel k t = findKey rel' k t := by
  induction t with
  | nil => rfl
  | cons e t ih => rw [findKey, findKey, h e (by simp), ih fun f member => h f (by simp [member])]

theorem findKey_some {t : Table} {k w : Value} (h : findKey rel k t = some w) :
    ∃ e ∈ t, rel e.1 k = true ∧ e.2 = w := by
  induction t with
  | nil => cases h
  | cons e t ih =>
    rw [findKey] at h
    split at h
    · exact ⟨e, by simp, ‹_›, Option.some.inj h⟩
    · obtain ⟨f, member, found⟩ := ih h
      exact ⟨f, by simp [member], found⟩

/-- The entries of the table that the value is, if it is one. -/
def entries (s : Store) (v : Value) : Table :=
  match v.payload with
  | .table r => s.tableAt r
  | _ => []

theorem mem_parts_entry {e : Value × Value} (member : e ∈ s.entries a) :
    e.1 ∈ s.parts a ∧ e.2 ∈ s.parts a := by
  unfold entries at member
  split at member
  · rename_i r is
    rw [parts, is]
    exact ⟨List.mem_flatMap.2 ⟨e, member, by simp⟩, List.mem_flatMap.2 ⟨e, member, by simp⟩⟩
  · cases member

/-- Equality of values, given which of their parts are equal. -/
def equalsBy (s : Store) (rel : Value → Value → Bool) (a b : Value) : Bool :=
  a.same b ||
    match a.payload, b.payload with
    | .int n, .ratio r => Ratio.ofInt64 n == r
    | .ratio r, .int n => Ratio.ofInt64 n == r
    | .bin x, .bin y => s.binAt x == s.binAt y
    | .list x, .list y => allPairs rel (s.listAt x).toList (s.listAt y).toList
    | .struct x, .struct y => allPairs rel (s.structAt x).toList (s.structAt y).toList
    | .table x, .table y =>
      (s.tableAt x).length == (s.tableAt y).length &&
        (s.tableAt x).all fun e =>
          match findKey rel e.1 (s.tableAt y) with
          | some w => rel e.2 w
          | none => false
    | .pair x, .pair y =>
      match s.pairs[x]?, s.pairs[y]? with
      | some p, some q => rel p.1 q.1 && rel p.2 q.2
      | _, _ => false
    | .error x, .error y =>
      (s.errorAt x).kind == (s.errorAt y).kind && (s.errorAt x).message == (s.errorAt y).message
    | _, _ => false

theorem equalsWithin_succ (s : Store) (n : Nat) (a b : Value) :
    s.equalsWithin (n + 1) a b = s.equalsBy (s.equalsWithin n) a b := rfl

/-- How values that are not the same are equal, given which of their parts are. -/
inductive Alike (s : Store) (rel : Value → Value → Bool) : Payload → Payload → Prop
  | whole {n : Int64} {r : Ratio} : Ratio.ofInt64 n = r → Alike s rel (.int n) (.ratio r)
  | ratio {n : Int64} {r : Ratio} : Ratio.ofInt64 n = r → Alike s rel (.ratio r) (.int n)
  | bin {x y : Ref} : s.binAt x = s.binAt y → Alike s rel (.bin x) (.bin y)
  | list {x y : Ref} : List.Forall₂ (fun a b => rel a b = true) (s.listAt x).toList (s.listAt y).toList →
      Alike s rel (.list x) (.list y)
  | struct {x y : Ref} :
      List.Forall₂ (fun a b => rel a b = true) (s.structAt x).toList (s.structAt y).toList →
      Alike s rel (.struct x) (.struct y)
  | table {x y : Ref} : (s.tableAt x).length = (s.tableAt y).length →
      (∀ e ∈ s.tableAt x, ∃ w, findKey rel e.1 (s.tableAt y) = some w ∧ rel e.2 w = true) →
      Alike s rel (.table x) (.table y)
  | pair {x y : Ref} {p q : Value × Value} : s.pairs[x]? = some p → s.pairs[y]? = some q →
      rel p.1 q.1 = true → rel p.2 q.2 = true → Alike s rel (.pair x) (.pair y)
  | error {x y : Ref} : (s.errorAt x).kind = (s.errorAt y).kind →
      (s.errorAt x).message = (s.errorAt y).message → Alike s rel (.error x) (.error y)

theorem equalsBy_iff :
    s.equalsBy rel a b = true ↔ a.same b = true ∨ s.Alike rel a.payload b.payload := by
  obtain ⟨t, p⟩ := a
  obtain ⟨u, q⟩ := b
  rw [equalsBy, Bool.or_eq_true]
  refine or_congr_right ⟨fun equal => ?_, fun alike => ?_⟩
  · dsimp only at equal ⊢
    split at equal
    · exact .whole (beq_iff_eq.1 equal)
    · exact .ratio (beq_iff_eq.1 equal)
    · exact .bin (beq_iff_eq.1 equal)
    · exact .list ((allPairs_iff ..).1 equal)
    · exact .struct ((allPairs_iff ..).1 equal)
    · obtain ⟨length, found⟩ := Bool.and_eq_true_iff.1 equal
      refine .table (beq_iff_eq.1 length) fun e member => ?_
      have entry := List.all_eq_true.1 found e member
      split at entry
      · exact ⟨_, ‹_›, entry⟩
      · cases entry
    · split at equal
      · obtain ⟨left, right⟩ := Bool.and_eq_true_iff.1 equal
        exact .pair ‹_› ‹_› left right
      · cases equal
    · obtain ⟨kind, message⟩ := Bool.and_eq_true_iff.1 equal
      exact .error (beq_iff_eq.1 kind) (beq_iff_eq.1 message)
    · cases equal
  · cases alike with
    | whole same => exact beq_iff_eq.2 same
    | ratio same => exact beq_iff_eq.2 same
    | bin same => exact beq_iff_eq.2 same
    | list each => exact (allPairs_iff ..).2 each
    | struct each => exact (allPairs_iff ..).2 each
    | table length found =>
      refine Bool.and_eq_true_iff.2 ⟨beq_iff_eq.2 length, List.all_eq_true.2 fun e member => ?_⟩
      obtain ⟨w, key, value⟩ := found e member
      simp only [key, value]
    | pair px py left right => simp [px, py, left, right]
    | error kind message => simp [kind, message]

theorem forall₂_congr {as bs : List Value} (h : ∀ a ∈ as, ∀ b ∈ bs, rel a b = rel' a b)
    (each : List.Forall₂ (fun a b => rel a b = true) as bs) :
    List.Forall₂ (fun a b => rel' a b = true) as bs :=
  (allPairs_iff ..).1 (allPairs_congr h ▸ (allPairs_iff ..).2 each)

theorem Alike.congr (h : ∀ x ∈ s.parts a, ∀ y ∈ s.parts b, rel x y = rel' x y ∧ rel y x = rel' y x)
    (alike : s.Alike rel a.payload b.payload) : s.Alike rel' a.payload b.payload := by
  obtain ⟨t, p⟩ := a
  obtain ⟨u, q⟩ := b
  cases alike with
  | whole same => exact .whole same
  | ratio same => exact .ratio same
  | bin same => exact .bin same
  | list each => exact .list (forall₂_congr (fun v hv w hw => (h v hv w hw).1) each)
  | struct each => exact .struct (forall₂_congr (fun v hv w hw => (h v hv w hw).1) each)
  | @table x y length found =>
    refine .table length fun e member => ?_
    obtain ⟨key, value⟩ : e.1 ∈ s.parts ⟨t, .table x⟩ ∧ e.2 ∈ s.parts ⟨t, .table x⟩ :=
      mem_parts_entry member
    have others {f : Value × Value} (inside : f ∈ s.tableAt y) :
        f.1 ∈ s.parts ⟨u, .table y⟩ ∧ f.2 ∈ s.parts ⟨u, .table y⟩ := mem_parts_entry inside
    obtain ⟨w, at_key, equal⟩ := found e member
    obtain ⟨f, inside, -, rfl⟩ := findKey_some at_key
    refine ⟨f.2, ?_, (h _ value _ (others inside).2).1 ▸ equal⟩
    rw [← at_key]
    exact findKey_congr fun f inside => ((h _ key _ (others inside).1).2).symm
  | @pair x y p q px py left right =>
    rw [parts_pair px, parts_pair py] at h
    exact .pair px py ((h p.1 (by simp) q.1 (by simp)).1 ▸ left)
      ((h p.2 (by simp) q.2 (by simp)).1 ▸ right)
  | error kind message => exact .error kind message

theorem equalsBy_congr
    (h : ∀ x ∈ s.parts a, ∀ y ∈ s.parts b, rel x y = rel' x y ∧ rel y x = rel' y x) :
    s.equalsBy rel a b = s.equalsBy rel' a b := by
  rw [Bool.eq_iff_iff, equalsBy_iff, equalsBy_iff]
  refine or_congr_right ⟨Alike.congr h, Alike.congr fun x hx y hy => ?_⟩
  exact ⟨(h x hx y hy).1.symm, (h x hx y hy).2.symm⟩

/-- A bound that is not smaller than the values are deep plays no part. -/
theorem equalsWithin_stable {P : Value → Prop} {n m k : Nat} (ha : s.Nested P n a) (hb : s.Nested P n b)
    (hm : n ≤ m) (hk : n ≤ k) : s.equalsWithin (m + 1) a b = s.equalsWithin (k + 1) a b := by
  rw [equalsWithin_succ, equalsWithin_succ]
  refine equalsBy_congr fun x hx y hy => ?_
  induction n generalizing a b m k x y with
  | zero => rw [ha.2] at hx; cases hx
  | succ n ih =>
    obtain ⟨m, rfl⟩ : ∃ l, m = l + 1 := ⟨m - 1, by omega⟩
    obtain ⟨k, rfl⟩ : ∃ l, k = l + 1 := ⟨k - 1, by omega⟩
    have px := ha.2 x hx
    have py := hb.2 y hy
    constructor
    · exact equalsBy_congr fun v hv w hw => ih px py (by omega) (by omega) v hv w hw
    · exact equalsBy_congr fun v hv w hw => ih py px (by omega) (by omega) v hv w hw

/-- Values that do not contain themselves are equal if their parts are. -/
theorem equals_eq (ha : s.Acyclic a) (hb : s.Acyclic b) :
    s.equals a b = s.equalsBy s.equals a b :=
  equalsWithin_stable ha.nested hb.nested (Nat.le_refl _) (Nat.le_succ _)

theorem equals_iff (ha : s.Acyclic a) (hb : s.Acyclic b) :
    s.equals a b = true ↔ a.same b = true ∨ s.Alike s.equals a.payload b.payload := by
  rw [equals_eq ha hb, equalsBy_iff]

/-! ## Tables -/

/-- On the values of a class, the relation is symmetric and transitive. -/
structure Lawful (rel : Value → Value → Bool) (C : Value → Prop) : Prop where
  symm : ∀ a b, C a → C b → rel a b = true → rel b a = true
  trans : ∀ a b c, C a → C b → C c → rel a b = true → rel b c = true → rel a c = true

/-- No two keys are related. -/
def Apart (rel : Value → Value → Bool) (t : Table) : Prop :=
  t.Pairwise fun e f => rel e.1 f.1 = false

/-- Every entry of the first table has a counterpart in the second. -/
def Covered (rel : Value → Value → Bool) (t u : Table) : Prop :=
  ∀ e ∈ t, ∃ f ∈ u, rel f.1 e.1 = true ∧ rel e.2 f.2 = true

/-- Keys and values of the table are of a class. -/
def Drawn (C : Value → Prop) (t : Table) : Prop :=
  ∀ e ∈ t, C e.1 ∧ C e.2

section

variable {t u w : Table}

/-- Related keys of one table stand at one place. -/
theorem Apart.place (laws : Lawful rel C) (apart : Apart rel t) (ht : Drawn C t) {i j : Fin t.length}
    (same : rel t[i].1 t[j].1 = true) : i = j := by
  have before := List.pairwise_iff_getElem.1 apart
  rcases Nat.lt_trichotomy i j with less | equal | more
  · have := before i j i.isLt j.isLt less
    simp_all
  · exact Fin.ext equal
  · have back := laws.symm _ _ (ht _ (List.getElem_mem i.isLt)).1 (ht _ (List.getElem_mem j.isLt)).1 same
    have := before j i j.isLt i.isLt more
    simp_all

/-- Where no two keys are related, an entry is found under all keys that its own is related to. -/
theorem Apart.findKey (laws : Lawful rel C) (apart : Apart rel t) (ht : Drawn C t) {k : Value} (hk : C k)
    {e : Value × Value} (member : e ∈ t) (related : rel e.1 k = true) :
    findKey rel k t = some e.2 := by
  induction t with
  | nil => cases member
  | cons f t ih =>
    obtain ⟨first, apart⟩ := List.pairwise_cons.1 apart
    rw [Store.findKey]
    rcases List.mem_cons.1 member with rfl | inside
    · rw [if_pos related]
    · have he := (ht e member).1
      have hf := (ht f List.mem_cons_self).1
      rw [if_neg, ih apart (fun g hg => ht g (List.mem_cons_of_mem f hg)) inside]
      intro other
      have := laws.trans _ _ _ hf hk he other (laws.symm _ _ he hk related)
      rw [first e inside] at this
      cases this

theorem covered_of_found
    (found : ∀ e ∈ t, ∃ w, findKey rel e.1 u = some w ∧ rel e.2 w = true) : Covered rel t u := by
  intro e member
  obtain ⟨w, at_key, equal⟩ := found e member
  obtain ⟨f, inside, key, rfl⟩ := findKey_some at_key
  exact ⟨f, inside, key, equal⟩

theorem Covered.found (laws : Lawful rel C) (apart : Apart rel u) (ht : Drawn C t) (hu : Drawn C u)
    (covered : Covered rel t u) :
    ∀ e ∈ t, ∃ w, findKey rel e.1 u = some w ∧ rel e.2 w = true := by
  intro e member
  obtain ⟨f, inside, key, value⟩ := covered e member
  exact ⟨f.2, apart.findKey laws hu (ht e member).1 inside key, value⟩

theorem Covered.trans (laws : Lawful rel C) (ht : Drawn C t) (hu : Drawn C u) (hw : Drawn C w)
    (first : Covered rel t u) (second : Covered rel u w) : Covered rel t w := by
  intro e member
  obtain ⟨f, inside, key, value⟩ := first e member
  obtain ⟨g, inside', key', value'⟩ := second f inside
  obtain ⟨he, he'⟩ := ht e member
  obtain ⟨hf, hf'⟩ := hu f inside
  obtain ⟨hg, hg'⟩ := hw g inside'
  exact ⟨g, inside', laws.trans _ _ _ hg hf he key' key, laws.trans _ _ _ he' hf' hg' value value'⟩

/-- Entries with unrelated keys have different counterparts. -/
theorem Covered.counterparts (laws : Lawful rel C) (apart : Apart rel t) (ht : Drawn C t) (hu : Drawn C u)
    (covered : Covered rel t u) :
    ∃ other : Fin t.length → Fin u.length, Function.Injective other ∧
      ∀ i, rel u[other i].1 t[i].1 = true ∧ rel t[i].2 u[other i].2 = true := by
  have place (i : Fin t.length) :
      ∃ j : Fin u.length, rel u[j].1 t[i].1 = true ∧ rel t[i].2 u[j].2 = true := by
    obtain ⟨f, inside, related⟩ := covered t[i] (List.getElem_mem i.isLt)
    obtain ⟨j, bound, rfl⟩ := List.getElem_of_mem inside
    exact ⟨⟨j, bound⟩, related⟩
  choose other related using place
  refine ⟨other, fun i i' same => ?_, related⟩
  have key (i : Fin t.length) : C t[i].1 := (ht t[i] (List.getElem_mem i.isLt)).1
  have key' : C u[other i].1 := (hu _ (List.getElem_mem (other i).isLt)).1
  refine apart.place laws ht (laws.trans _ _ _ (key i) key' (key i') ?_ ?_)
  · exact laws.symm _ _ key' (key i) (related i).1
  · simpa only [same] using (related i').1

theorem Covered.length_le (laws : Lawful rel C) (apart : Apart rel t) (ht : Drawn C t) (hu : Drawn C u)
    (covered : Covered rel t u) : t.length ≤ u.length := by
  obtain ⟨other, injective, -⟩ := covered.counterparts laws apart ht hu
  simpa using Fintype.card_le_of_injective other injective

/-- A table that is covered by one of its own length covers it. -/
theorem Covered.symm (laws : Lawful rel C) (apart : Apart rel t) (ht : Drawn C t) (hu : Drawn C u)
    (length : t.length = u.length) (covered : Covered rel t u) : Covered rel u t := by
  obtain ⟨other, injective, related⟩ := covered.counterparts laws apart ht hu
  have surjective : Function.Surjective other :=
    ((Fintype.bijective_iff_injective_and_card other).2 ⟨injective, by simp [length]⟩).2
  intro f member
  obtain ⟨j, bound, rfl⟩ := List.getElem_of_mem member
  obtain ⟨i, is⟩ := surjective ⟨j, bound⟩
  obtain ⟨key, value⟩ := related i
  simp only [is] at key value
  have own := ht t[i] (List.getElem_mem i.isLt)
  have others := hu u[j] (List.getElem_mem bound)
  exact ⟨t[i], List.getElem_mem i.isLt, laws.symm _ _ others.1 own.1 key, laws.symm _ _ own.2 others.2 value⟩

end

/-! ## The laws -/

theorem forall₂_symm {as bs : List Value} (laws : Lawful rel C) (ha : ∀ a ∈ as, C a) (hb : ∀ b ∈ bs, C b)
    (each : List.Forall₂ (fun a b => rel a b = true) as bs) :
    List.Forall₂ (fun a b => rel a b = true) bs as := by
  induction each with
  | nil => exact .nil
  | cons first _ ih =>
    simp only [List.forall_mem_cons] at ha hb
    exact .cons (laws.symm _ _ ha.1 hb.1 first) (ih ha.2 hb.2)

theorem forall₂_trans {as bs cs : List Value} (laws : Lawful rel C) (ha : ∀ a ∈ as, C a)
    (hb : ∀ b ∈ bs, C b) (hc : ∀ c ∈ cs, C c)
    (each : List.Forall₂ (fun a b => rel a b = true) as bs)
    (each' : List.Forall₂ (fun a b => rel a b = true) bs cs) :
    List.Forall₂ (fun a b => rel a b = true) as cs := by
  induction each generalizing cs with
  | nil => cases each'; exact .nil
  | cons first _ ih =>
    cases each' with
    | cons first' each' =>
      simp only [List.forall_mem_cons] at ha hb hc
      exact .cons (laws.trans _ _ _ ha.1 hb.1 hc.1 first first') (ih ha.2 hb.2 hc.2 each')

/-- The value is no table with two equal keys. -/
def KeysApart (s : Store) (v : Value) : Prop :=
  Apart s.equals (s.entries v)

/-- Neither the value nor any value in it contains itself or is a table with two equal keys. -/
structure Proper (s : Store) (v : Value) : Prop where
  acyclic : s.Acyclic v
  apart : ∀ w, s.Within w v → s.KeysApart w

theorem proper_iff (s : Store) (v : Value) : s.Proper v ↔ s.Nested s.KeysApart s.nesting v := by
  rw [nested_iff]
  exact ⟨fun h => ⟨h.acyclic, h.apart⟩, fun h => ⟨h.1, h.2⟩⟩

instance (s : Store) : DecidablePred s.KeysApart := fun v =>
  inferInstanceAs (Decidable ((s.entries v).Pairwise fun e f => s.equals e.1 f.1 = false))

instance (s : Store) : DecidablePred s.Proper := fun v =>
  decidable_of_iff _ (proper_iff s v).symm

theorem drawn_of_parts (all : ∀ w ∈ s.parts a, C w) : Drawn C (s.entries a) := fun _ member =>
  ⟨all _ (mem_parts_entry member).1, all _ (mem_parts_entry member).2⟩

theorem Alike.symm (laws : Lawful rel C) (apart : Apart rel (s.entries a))
    (ha : ∀ w ∈ s.parts a, C w) (hb : ∀ w ∈ s.parts b, C w)
    (alike : s.Alike rel a.payload b.payload) : s.Alike rel b.payload a.payload := by
  have entries := drawn_of_parts ha
  have entries' := drawn_of_parts hb
  obtain ⟨t, p⟩ := a
  obtain ⟨u, q⟩ := b
  cases alike with
  | whole same => exact .ratio same
  | ratio same => exact .whole same
  | bin same => exact .bin same.symm
  | list each => exact .list (forall₂_symm laws ha hb each)
  | struct each => exact .struct (forall₂_symm laws ha hb each)
  | table length found =>
    refine .table length.symm ?_
    have covered := (covered_of_found found).symm laws apart entries entries' length
    exact covered.found laws apart entries' entries
  | @pair x y p q px py left right =>
    rw [parts_pair px] at ha
    rw [parts_pair py] at hb
    exact .pair py px (laws.symm _ _ (ha p.1 (by simp)) (hb q.1 (by simp)) left)
      (laws.symm _ _ (ha p.2 (by simp)) (hb q.2 (by simp)) right)
  | error kind message => exact .error kind.symm message.symm

/-- Going over a third value, two values are the same, or alike again. -/
theorem Alike.trans (laws : Lawful rel C) (apart : Apart rel (s.entries c))
    (ha : ∀ w ∈ s.parts a, C w) (hb : ∀ w ∈ s.parts b, C w) (hc : ∀ w ∈ s.parts c, C w)
    (first : s.Alike rel a.payload b.payload) (second : s.Alike rel b.payload c.payload) :
    a.same c = true ∨ s.Alike rel a.payload c.payload := by
  have entries := drawn_of_parts ha
  have entries' := drawn_of_parts hb
  have entries'' := drawn_of_parts hc
  obtain ⟨t, p⟩ := a
  obtain ⟨u, q⟩ := b
  obtain ⟨v, r⟩ := c
  cases first with
  | whole same =>
    cases second with
    | ratio same' =>
      obtain ⟨rfl, -⟩ := Ratio.mk.inj (same.trans same'.symm)
      exact .inl (Payload.identical_refl _)
  | ratio same =>
    cases second with
    | whole same' => exact .inl (same ▸ same' ▸ Payload.identical_refl _)
  | bin same =>
    cases second with
    | bin same' => exact .inr (.bin (same.trans same'))
  | list each =>
    cases second with
    | list each' => exact .inr (.list (forall₂_trans laws ha hb hc each each'))
  | struct each =>
    cases second with
    | struct each' => exact .inr (.struct (forall₂_trans laws ha hb hc each each'))
  | table length found =>
    cases second with
    | table length' found' =>
      refine .inr (.table (length.trans length') ?_)
      have covered := (covered_of_found found).trans laws entries entries' entries'' (covered_of_found found')
      exact covered.found laws apart entries entries''
  | @pair x y p q px py left right =>
    cases second with
    | @pair _ z q' r py' pz left' right' =>
      obtain rfl := Option.some.inj (py.symm.trans py')
      rw [parts_pair px] at ha
      rw [parts_pair py] at hb
      rw [parts_pair pz] at hc
      refine .inr (.pair px pz ?_ ?_)
      · exact laws.trans _ _ _ (ha p.1 (by simp)) (hb q.1 (by simp)) (hc r.1 (by simp)) left left'
      · exact laws.trans _ _ _ (ha p.2 (by simp)) (hb q.2 (by simp)) (hc r.2 (by simp)) right right'
  | error kind message =>
    cases second with
    | error kind' message' => exact .inr (.error (kind.trans kind') (message.trans message'))

theorem Alike.of_same (same : a.same b = true) (alike : s.Alike rel b.payload c.payload) :
    s.Alike rel a.payload c.payload := by
  rcases Payload.eq_of_identical same with is | ⟨t, u, -, is, -⟩ | ⟨l, m, -, is, -⟩
  · exact is ▸ alike
  · rw [is] at alike
    cases alike
  · rw [is] at alike
    cases alike

theorem Alike.to_same (alike : s.Alike rel a.payload b.payload) (same : b.same c = true) :
    s.Alike rel a.payload c.payload := by
  generalize a.payload = p at *
  rcases Payload.eq_of_identical same with is | ⟨t, u, is, -⟩ | ⟨l, m, is, -⟩
  · exact is ▸ alike
  · rw [is] at alike
    cases alike
  · rw [is] at alike
    cases alike

/-- If equality is symmetric and transitive on the parts of values, it is on the values. -/
theorem lawful_whole (laws : Lawful s.equals C) :
    Lawful s.equals fun v => s.Acyclic v ∧ s.KeysApart v ∧ ∀ w ∈ s.parts v, C w where
  symm a b := by
    rintro ⟨acyclic, apart, ha⟩ ⟨acyclic', -, hb⟩ equal
    rw [equals_iff acyclic acyclic'] at equal
    rw [equals_iff acyclic' acyclic]
    exact equal.imp Payload.identical_symm (Alike.symm laws apart ha hb)
  trans a b c := by
    rintro ⟨acyclic, -, ha⟩ ⟨acyclic', -, hb⟩ ⟨acyclic'', apart, hc⟩ first second
    rw [equals_iff acyclic acyclic'] at first
    rw [equals_iff acyclic' acyclic''] at second
    rw [equals_iff acyclic acyclic'']
    rcases first with same | alike <;> rcases second with same' | alike'
    · exact .inl ((Payload.identical_congr same _).trans same')
    · exact .inr (alike'.of_same same)
    · exact .inr (alike.to_same same')
    · exact alike.trans laws apart ha hb hc alike'

theorem Lawful.mono {D : Value → Prop} (laws : Lawful rel C) (h : ∀ v, D v → C v) : Lawful rel D where
  symm a b ha hb := laws.symm a b (h a ha) (h b hb)
  trans a b c ha hb hc := laws.trans a b c (h a ha) (h b hb) (h c hc)

theorem lawful_none (rel : Value → Value → Bool) : Lawful rel fun _ => False :=
  ⟨fun _ _ no _ _ => no.elim, fun _ _ _ no _ _ _ _ => no.elim⟩

theorem lawful_nested (s : Store) (n : Nat) : Lawful s.equals (s.Nested s.KeysApart n) := by
  induction n with
  | zero =>
    refine (lawful_whole (lawful_none _)).mono fun v nested => ⟨nested.acyclic, nested.1, fun w member => ?_⟩
    rw [nested.2] at member
    cases member
  | succ n ih => exact (lawful_whole ih).mono fun v nested => ⟨nested.acyclic, nested⟩

theorem lawful_proper (s : Store) : Lawful s.equals s.Proper :=
  (s.lawful_nested s.nesting).mono fun v => (s.proper_iff v).1

/-- Every value is equal to itself. -/
theorem equals_refl (s : Store) (v : Value) : s.equals v v = true := by
  rw [equals, equalsWithin_succ, equalsBy_iff]
  exact .inl (Payload.identical_refl _)

/-- On values that contain neither themselves nor a table with two equal keys, equality is reflexive,
symmetric and transitive, and two of them are equal just if they are the same or alike in their parts. -/
theorem equals_equivalence (s : Store) :
    (∀ a, s.Proper a → s.equals a a = true) ∧
    (∀ a b, s.Proper a → s.Proper b → s.equals a b = true → s.equals b a = true) ∧
    (∀ a b c, s.Proper a → s.Proper b → s.Proper c →
      s.equals a b = true → s.equals b c = true → s.equals a c = true) ∧
    ∀ a b, s.Proper a → s.Proper b →
      (s.equals a b = true ↔ a.same b = true ∨ s.Alike s.equals a.payload b.payload) := by
  have laws := s.lawful_proper
  exact ⟨fun a _ => s.equals_refl a, laws.symm, laws.trans,
    fun a b ha hb => equals_iff ha.acyclic hb.acyclic⟩

/-- Three tables with equal entries: the lists in them are shared or not, whole numbers are written as
integers or as ratios, and the order differs. -/
def threefold : Store where
  lists := #[#[.int 2, .str "x"], #[.ratio ⟨2, 1⟩, .str "x"]]
  tables :=
    #[[(.int 1, ⟨.list, .list 0⟩), (.sym "k", .nil)], [(.sym "k", .nil), (.ratio ⟨1, 1⟩, ⟨.list, .list 1⟩)],
      [(.ratio ⟨1, 1⟩, ⟨.list, .list 0⟩), (.sym "k", .nil)]]

theorem equals_equivalence_threefold :
    let table (r : Ref) : Value := ⟨.table, .table r⟩
    threefold.Proper (table 0) ∧ threefold.Proper (table 1) ∧ threefold.Proper (table 2) ∧
      threefold.equals (table 0) (table 1) = true ∧ threefold.equals (table 1) (table 2) = true ∧
      threefold.equals (table 1) (table 0) = true ∧ threefold.equals (table 0) (table 2) = true := by
  intro table
  have first : threefold.Proper (table 0) := by decide +kernel
  have second : threefold.Proper (table 1) := by decide +kernel
  have third : threefold.Proper (table 2) := by decide +kernel
  have one : threefold.equals (table 0) (table 1) = true := by decide +kernel
  have two : threefold.equals (table 1) (table 2) = true := by decide +kernel
  obtain ⟨-, symm, trans, -⟩ := threefold.equals_equivalence
  exact ⟨first, second, third, one, two, symm _ _ first second one,
    trans _ _ _ first second third one two⟩

end Store

end Catena
