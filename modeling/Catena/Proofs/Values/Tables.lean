import Catena.Proofs.Values.Content
import Mathlib.Data.Set.Card

/-!
# Tables

A table is a finite map in the order in which its keys came, up to equality of values
(`Tended.finite_map`). A key counts for what it says (`Store.image`), so it does not matter which of
several equal values it is sought, replaced or taken out by, nor that the store around it changes. It
only must not be changed itself while it stands in the table, and not be, nor hold, a table with two
equal keys: of such a table and another, each may be equal to the other without the other being equal to
it, and both find room in one table (`Store.tableInsert_doubled`).
-/

namespace Catena

/-- What was done to a table, with what the key said then. -/
inductive Event where
  | insert (key : Image) (v : Value)
  | remove (key : Image)

namespace Event

open Classical in
/-- The value that was written last under a key, unless it was taken out since. Latest events first. -/
noncomputable def latest (c : Image) : List Event → Option Value
  | [] => none
  | .insert k v :: past => if k = c then some v else latest c past
  | .remove k :: past => if k = c then none else latest c past

end Event

namespace Store

variable {s s' : Store} {t : Table} {k v : Value} {past : List Event}

/-! ## One operation -/

/-- Where a key stands in a table, if an equal one does. -/
theorem key_cases (s : Store) (k : Value) (t : Table) :
    (∀ e ∈ t, s.equals e.1 k = false) ∨
      ∃ before e after, t = before ++ e :: after ∧ (∀ f ∈ before, s.equals f.1 k = false) ∧
        s.equals e.1 k = true := by
  induction t with
  | nil => exact .inl (List.forall_mem_nil _)
  | cons e t ih =>
    by_cases equal : s.equals e.1 k = true
    · exact .inr ⟨[], e, t, rfl, List.forall_mem_nil _, equal⟩
    · rw [Bool.not_eq_true] at equal
      rcases ih with none | ⟨before, f, after, rfl, differ, found⟩
      · exact .inl (List.forall_mem_cons.2 ⟨equal, none⟩)
      · exact .inr ⟨e :: before, f, after, rfl, List.forall_mem_cons.2 ⟨equal, differ⟩, found⟩

theorem tableInsert_absent (absent : ∀ e ∈ t, s.equals e.1 k = false) :
    s.tableInsert k v t = (none, t ++ [(k, v)]) := by
  induction t with
  | nil => rfl
  | cons e t ih =>
    obtain ⟨differ, absent⟩ := List.forall_mem_cons.1 absent
    rw [tableInsert, ih absent]
    simp [differ]

theorem tableInsert_found {before after : Table} {e : Value × Value}
    (differ : ∀ f ∈ before, s.equals f.1 k = false) (found : s.equals e.1 k = true) :
    s.tableInsert k v (before ++ e :: after) = (some e.2, before ++ (e.1, v) :: after) := by
  induction before with
  | nil => simp [tableInsert, found]
  | cons f before ih =>
    obtain ⟨first, differ⟩ := List.forall_mem_cons.1 differ
    rw [List.cons_append, tableInsert, ih differ]
    simp [first]

theorem tableRemove_absent (absent : ∀ e ∈ t, s.equals e.1 k = false) :
    s.tableRemove k t = (none, t) := by
  induction t with
  | nil => rfl
  | cons e t ih =>
    obtain ⟨differ, absent⟩ := List.forall_mem_cons.1 absent
    rw [tableRemove, ih absent]
    simp [differ]

theorem tableRemove_found {before after : Table} {e : Value × Value}
    (differ : ∀ f ∈ before, s.equals f.1 k = false) (found : s.equals e.1 k = true) :
    s.tableRemove k (before ++ e :: after) = (some e.2, before ++ after) := by
  induction before with
  | nil => simp [tableRemove, found]
  | cons f before ih =>
    obtain ⟨first, differ⟩ := List.forall_mem_cons.1 differ
    rw [List.cons_append, tableRemove, ih differ]
    simp [first]

/-- Writing a key and taking it out answer what was found under it. -/
theorem tableInsert_fst (s : Store) (k v : Value) (t : Table) :
    (s.tableInsert k v t).1 = s.tableGet t k := by
  induction t with
  | nil => rfl
  | cons e t ih =>
    rw [tableGet, findKey, tableInsert]
    split
    · rfl
    · exact ih

theorem tableRemove_fst (s : Store) (k : Value) (t : Table) :
    (s.tableRemove k t).1 = s.tableGet t k := by
  induction t with
  | nil => rfl
  | cons e t ih =>
    rw [tableGet, findKey, tableRemove]
    split
    · rfl
    · exact ih

end Store

/-- A table that was empty, after what was done to it: keys were written and taken out, and in between
the store changed in some way that left every key of the table as it was. -/
inductive Tended : Store → Table → List Event → Prop
  | new (s : Store) : Tended s [] []
  | change {s s' : Store} {t : Table} {past : List Event} : Tended s t past →
      (∀ e ∈ t, s.Untouched s' e.1) → Tended s' t past
  | insert {s : Store} {t : Table} {past : List Event} {k : Value} (v : Value) : Tended s t past →
      s.Proper k → Tended s (s.tableInsert k v t).2 (.insert (s.image k) v :: past)
  | remove {s : Store} {t : Table} {past : List Event} {k : Value} : Tended s t past →
      s.Proper k → Tended s (s.tableRemove k t).2 (.remove (s.image k) :: past)

/-- The entries of a table, with what the keys say in place of the keys. -/
def Store.said (s : Store) (t : Table) : List (Image × Value) :=
  t.map fun e => (s.image e.1, e.2)

/-- The table has what was written last under each key that was not taken out since, once. -/
structure Upheld (s : Store) (t : Table) (past : List Event) : Prop where
  proper : ∀ e ∈ t, s.Proper e.1
  nodup : ((s.said t).map Prod.fst).Nodup
  latest : ∀ c v, Event.latest c past = some v ↔ (c, v) ∈ s.said t

namespace Upheld

variable {s s' : Store} {t before after : Table} {k v : Value} {e : Value × Value} {past : List Event}

theorem new (s : Store) : Upheld s [] [] := ⟨List.forall_mem_nil _, List.nodup_nil, by simp [Event.latest, Store.said]⟩

theorem change (h : Upheld s t past) (same : ∀ e ∈ t, s.Untouched s' e.1) : Upheld s' t past := by
  have said : s'.said t = s.said t := List.map_congr_left fun e member => by rw [(same e member).image]
  exact ⟨fun e member => (same e member).proper (h.proper e member), said ▸ h.nodup, said ▸ h.latest⟩

theorem said_key (h : Upheld s t past) (proper : s.Proper k) (member : e ∈ t) :
    s.equals e.1 k = true ↔ s.image e.1 = s.image k :=
  (h.proper e member).equals_iff proper

/-- Nothing is written under a key that no key of the table is equal to. -/
theorem latest_absent (h : Upheld s t past) (proper : s.Proper k) (absent : ∀ e ∈ t, s.equals e.1 k = false) :
    Event.latest (s.image k) past = none := by
  rw [Option.eq_none_iff_forall_ne_some]
  intro v written
  obtain ⟨e, member, same⟩ := List.mem_map.1 ((h.latest _ _).1 written)
  have equal := (h.said_key proper member).2 (Prod.ext_iff.1 same).1
  rw [absent e member] at equal
  cases equal

theorem latest_found (h : Upheld s t past) (proper : s.Proper k) (member : e ∈ t)
    (found : s.equals e.1 k = true) : Event.latest (s.image k) past = some e.2 := by
  refine (h.latest _ _).2 (List.mem_map.2 ⟨e, member, ?_⟩)
  rw [(h.said_key proper member).1 found]

theorem append (h : Upheld s t past) (proper : s.Proper k) (v : Value)
    (fresh : Event.latest (s.image k) past = none) :
    Upheld s (t ++ [(k, v)]) (.insert (s.image k) v :: past) := by
  have said : s.said (t ++ [(k, v)]) = s.said t ++ [(s.image k, v)] := List.map_append
  have none (w : Value) : (s.image k, w) ∉ s.said t := by
    rw [← h.latest, fresh]
    exact nofun
  refine ⟨List.forall_mem_append.2 ⟨h.proper, List.forall_mem_singleton.2 proper⟩, ?_, fun c w => ?_⟩
  · have := h.nodup
    grind
  · have := h.latest c w
    rw [said, Event.latest]
    grind

theorem replace (h : Upheld s (before ++ e :: after) past) (v : Value) :
    Upheld s (before ++ (e.1, v) :: after) (.insert (s.image e.1) v :: past) := by
  have said (w : Value) : s.said (before ++ (e.1, w) :: after) =
      s.said before ++ (s.image e.1, w) :: s.said after := by simp [Store.said]
  have nodup := h.nodup
  refine ⟨?_, ?_, fun c w => ?_⟩
  · have proper := h.proper
    rw [List.forall_mem_append, List.forall_mem_cons] at proper ⊢
    exact proper
  · rw [said] at nodup ⊢
    grind
  · have := h.latest c w
    rw [said] at nodup this ⊢
    rw [Event.latest]
    grind

theorem erase (h : Upheld s (before ++ e :: after) past) :
    Upheld s (before ++ after) (.remove (s.image e.1) :: past) := by
  have said : s.said (before ++ e :: after) =
      s.said before ++ (s.image e.1, e.2) :: s.said after := by simp [Store.said]
  have said' : s.said (before ++ after) = s.said before ++ s.said after := List.map_append
  have nodup := h.nodup
  refine ⟨?_, ?_, fun c w => ?_⟩
  · have proper := h.proper
    rw [List.forall_mem_append, List.forall_mem_cons] at proper
    exact List.forall_mem_append.2 ⟨proper.1, proper.2.2⟩
  · rw [said] at nodup
    grind
  · have := h.latest c w
    rw [said] at nodup this
    rw [Event.latest]
    grind

theorem idle (h : Upheld s t past) (fresh : Event.latest (s.image k) past = none) :
    Upheld s t (.remove (s.image k) :: past) := by
  refine ⟨h.proper, h.nodup, fun c w => ?_⟩
  rw [Event.latest, ← h.latest]
  split <;> simp_all

theorem insert (h : Upheld s t past) (proper : s.Proper k) (v : Value) :
    Upheld s (s.tableInsert k v t).2 (.insert (s.image k) v :: past) := by
  rcases s.key_cases k t with absent | ⟨before, e, after, rfl, differ, found⟩
  · rw [Store.tableInsert_absent absent]
    exact h.append proper v (h.latest_absent proper absent)
  · rw [Store.tableInsert_found differ found, ← (h.said_key proper (by simp)).1 found]
    exact h.replace v

theorem remove (h : Upheld s t past) (proper : s.Proper k) :
    Upheld s (s.tableRemove k t).2 (.remove (s.image k) :: past) := by
  rcases s.key_cases k t with absent | ⟨before, e, after, rfl, differ, found⟩
  · rw [Store.tableRemove_absent absent]
    exact h.idle (h.latest_absent proper absent)
  · rw [Store.tableRemove_found differ found, ← (h.said_key proper (by simp)).1 found]
    exact h.erase

theorem get (h : Upheld s t past) (proper : s.Proper k) :
    s.tableGet t k = Event.latest (s.image k) past := by
  rw [← s.tableRemove_fst]
  rcases s.key_cases k t with absent | ⟨before, e, after, rfl, differ, found⟩
  · rw [Store.tableRemove_absent absent, h.latest_absent proper absent]
  · rw [Store.tableRemove_found differ found, h.latest_found proper (by simp) found]

/-- As many keys stand in the table as there are that were written and not taken out since. -/
theorem card (h : Upheld s t past) : {c | (Event.latest c past).isSome}.encard = t.length := by
  classical
  have live : {c | (Event.latest c past).isSome} = ((s.said t).map Prod.fst).toFinset := by
    ext c
    simp [Option.isSome_iff_exists, h.latest]
  rw [live, Set.encard_coe_eq_coe_finsetCard, List.toFinset_card_of_nodup h.nodup]
  simp [Store.said]

theorem apart (h : Upheld s t past) :
    t.Pairwise fun e f => s.equals e.1 f.1 = false ∧ s.equals f.1 e.1 = false := by
  have nodup := h.nodup
  rw [Store.said, List.map_map, List.Nodup, List.pairwise_map] at nodup
  refine nodup.imp_of_mem fun {e f} he hf differ => ?_
  rw [← Bool.not_eq_true, ← Bool.not_eq_true, h.said_key (h.proper f hf) he, h.said_key (h.proper e he) hf]
  exact ⟨differ, Ne.symm differ⟩

end Upheld

theorem Tended.upheld {s : Store} {t : Table} {past : List Event} (h : Tended s t past) : Upheld s t past := by
  induction h with
  | new s => exact .new s
  | change _ same ih => exact ih.change same
  | insert v _ proper ih => exact ih.insert proper v
  | remove _ proper ih => exact ih.remove proper

/-- A table is a finite map in the order in which its keys came. No two keys are equal; there are as many
as were written and not taken out since; a key has the value that was written last under an equal one, and
none if it was taken out since. To write under a key of the table changes the value and leaves the key
where it is, any other comes last; to take one out leaves the others as they are. Both answer the value
there was. -/
theorem Tended.finite_map {s : Store} {t : Table} {past : List Event} (h : Tended s t past) :
    (t.Pairwise fun e f => s.equals e.1 f.1 = false ∧ s.equals f.1 e.1 = false) ∧
    {c | (Event.latest c past).isSome}.encard = t.length ∧
    (∀ k, s.Proper k →
      s.tableGet t k = Event.latest (s.image k) past ∧
      (∀ v, (s.tableInsert k v t).1 = Event.latest (s.image k) past) ∧
      (s.tableRemove k t).1 = Event.latest (s.image k) past ∧
      ((Event.latest (s.image k) past = none ∧ (∀ e ∈ t, s.equals e.1 k = false) ∧
          (∀ v, (s.tableInsert k v t).2 = t ++ [(k, v)]) ∧ (s.tableRemove k t).2 = t) ∨
        ∃ before e after, t = before ++ e :: after ∧ s.equals e.1 k = true ∧
          Event.latest (s.image k) past = some e.2 ∧
          (∀ v, (s.tableInsert k v t).2 = before ++ (e.1, v) :: after) ∧
          (s.tableRemove k t).2 = before ++ after)) ∧
    ∀ a b, s.Proper a → s.Proper b → (s.equals a b = true ↔ s.image a = s.image b) := by
  have upheld := h.upheld
  refine ⟨upheld.apart, upheld.card, fun k proper => ?_, fun a b ha hb => ha.equals_iff hb⟩
  refine ⟨upheld.get proper, fun v => ?_, ?_, ?_⟩
  · rw [s.tableInsert_fst, upheld.get proper]
  · rw [s.tableRemove_fst, upheld.get proper]
  · rcases s.key_cases k t with absent | ⟨before, e, after, rfl, differ, found⟩
    · refine .inl ⟨upheld.latest_absent proper absent, absent, fun v => ?_, ?_⟩
      · rw [Store.tableInsert_absent absent]
      · rw [Store.tableRemove_absent absent]
    · refine .inr ⟨before, e, after, rfl, found, ?_, fun v => ?_, ?_⟩
      · exact upheld.latest_found proper (by simp) found
      · rw [Store.tableInsert_found differ found]
      · rw [Store.tableRemove_found differ found]

namespace Store

/-- A list of 2 and a list of 2/1 are written one after the other; the second is then emptied, which
leaves the key of the table as it was. -/
theorem finite_map_threefold :
    let list (r : Ref) : Value := ⟨.list, .list r⟩
    let t := (threefold.tableInsert (list 1) (.int 2) (threefold.tableInsert (list 0) (.int 1) []).2).2
    let past := [Event.insert (threefold.image (list 1)) (.int 2), .insert (threefold.image (list 0)) (.int 1)]
    let s := { threefold with lists := threefold.lists.setIfInBounds 1 #[] }
    Tended s t past ∧ s.Proper (list 0) ∧ s.Proper (list 1) ∧ t = [(list 0, .int 2)] ∧
      s.tableGet t (list 0) = Event.latest (s.image (list 0)) past ∧
      s.tableGet t (list 1) = Event.latest (s.image (list 1)) past := by
  intro list t past s
  have first : threefold.Proper (list 0) := by decide +kernel
  have second : threefold.Proper (list 1) := by decide +kernel
  have equal : threefold.equals (list 0) (list 1) = true := by decide +kernel
  have is : t = [(list 0, .int 2)] := by simp [t, tableInsert, equal]
  have untouched : threefold.Nested (fun w => s.shape w = threefold.shape w ∧ s.entries w = threefold.entries w)
      1 (list 0) := by
    refine ⟨⟨rfl, rfl⟩, fun w member => ?_⟩
    have : w = .int 2 ∨ w = .str "x" := by simpa [parts, list, threefold, listAt] using member
    rcases this with rfl | rfl <;> exact ⟨⟨rfl, rfl⟩, rfl⟩
  have tended : Tended s t past := by
    refine .change (.insert _ (.insert _ (.new _) first) second) fun e member => ?_
    obtain rfl := List.mem_singleton.1 (is ▸ member)
    exact fun w within => (untouched.within within).1
  have first' : s.Proper (list 0) := by decide +kernel
  have second' : s.Proper (list 1) := by decide +kernel
  obtain ⟨-, -, map, -⟩ := tended.finite_map
  exact ⟨tended, first', second', is, (map _ first').1, (map _ second').1⟩

/-- A table of two lists of 1 each, which were not equal when it was made, beside one with the keys 1
and 2. -/
def doubled : Store where
  lists := #[#[.int 1], #[.int 1], #[.int 2]]
  tables :=
    #[[(⟨.list, .list 0⟩, .int 1), (⟨.list, .list 2⟩, .int 3)],
      [(⟨.list, .list 0⟩, .int 1), (⟨.list, .list 1⟩, .int 1)]]

/-- Each key of the one table has its value in the other, but not the other way round. Written in this
order, the two stand in one table, although the second is equal to the first. -/
theorem tableInsert_doubled :
    let table (r : Ref) : Value := ⟨.table, .table r⟩
    let t := (doubled.tableInsert (table 1) (.int 2) (doubled.tableInsert (table 0) (.int 1) []).2).2
    doubled.Acyclic (table 0) ∧ doubled.Acyclic (table 1) ∧ doubled.equals (table 1) (table 0) = true ∧
      t = [(table 0, .int 1), (table 1, .int 2)] ∧
      ¬t.Pairwise fun e f => doubled.equals e.1 f.1 = false ∧ doubled.equals f.1 e.1 = false := by
  intro table t
  have first : doubled.Nested (fun _ => True) doubled.nesting (table 0) := by decide +kernel
  have second : doubled.Nested (fun _ => True) doubled.nesting (table 1) := by decide +kernel
  have equal : doubled.equals (table 1) (table 0) = true := by decide +kernel
  have differ : doubled.equals (table 0) (table 1) = false := by decide +kernel
  have is : t = [(table 0, .int 1), (table 1, .int 2)] := by simp [t, tableInsert, differ]
  refine ⟨first.acyclic, second.acyclic, equal, is, fun apart => ?_⟩
  rw [is] at apart
  simp [equal] at apart

end Store

end Catena
