import Catena.Proofs.Values.Equality
import Mathlib.Data.Set.Image

/-!
# What a value says

Two values that contain neither themselves nor a table with two equal keys are equal just if they say
the same (`Proper.equals_iff`): what a value says (`Store.image`) has no references in it, counts a whole
number and its ratio as one, and takes a table as the set of its entries.

Since what a value says does not depend on the store it stands in, it can be followed from one store to
the next. It stays the same as long as nothing within the value is changed (`Untouched.image`).
-/

namespace Catena

/-- What a value is at its top, with `α` for what stands in it. Scalars, and objects that are equal to
themselves only, are known by what they are the same as. -/
inductive Shape (α : Type) where
  | scalar (same : Payload → Bool)
  | number (r : Ratio)
  | bytes (bytes : Array UInt8)
  | fault (kind : Fault.Kind) (message : String)
  | list (items : List α)
  | struct (fields : List α)
  | table (entries : Set (α × α))
  | pair (left right : α)

/-- A shape, with `f` of what stands in it. -/
def Shape.map {α β : Type} (f : α → β) : Shape α → Shape β
  | .scalar same => .scalar same
  | .number r => .number r
  | .bytes bs => .bytes bs
  | .fault kind message => .fault kind message
  | .list items => .list (items.map f)
  | .struct fields => .struct (fields.map f)
  | .table entries => .table (Prod.map f f '' entries)
  | .pair left right => .pair (f left) (f right)

/-- What stands in a value of the shape, entries of a table in their order. -/
def Shape.parts : Shape Value → (entries : Table) → List Value
  | .list items, _ => items
  | .struct fields, _ => fields
  | .table _, entries => entries.flatMap fun e => [e.1, e.2]
  | .pair left right, _ => [left, right]
  | _, _ => []

/-- What a value says, as far as `n` steps down. -/
def Content : (n : Nat) → Type
  | 0 => Unit
  | n + 1 => Shape (Content n)

/-- What a value says, however far down. -/
abbrev Image := (n : Nat) → Content n

namespace Store

variable {s s' : Store} {a b v w : Value}

def shape (s : Store) (v : Value) : Shape Value :=
  match v.payload with
  | .int n => .number (Ratio.ofInt64 n)
  | .ratio r => .number r
  | .bin r => .bytes (s.binAt r)
  | .error r => .fault (s.errorAt r).kind (s.errorAt r).message
  | .list r => .list (s.listAt r).toList
  | .struct r => .struct (s.structAt r).toList
  | .table r => .table (Membership.mem (s.tableAt r))
  | .pair r =>
    match s.pairs[r]? with
    | some p => .pair p.1 p.2
    | none => .scalar v.payload.identical
  | p => .scalar p.identical

def content (s : Store) : (n : Nat) → Value → Content n
  | 0, _ => ()
  | n + 1, v => (s.shape v).map (s.content n)

def image (s : Store) (v : Value) : Image := fun n => s.content n v

theorem shape_pair {t : Ty} {r : Ref} {p : Value × Value} (stored : s.pairs[r]? = some p) :
    s.shape ⟨t, .pair r⟩ = .pair p.1 p.2 := by
  simp [shape, stored]

/-! ## Equal values say the same -/

theorem shape_of_same (same : a.same b = true) : s.shape a = s.shape b := by
  obtain ⟨t, p⟩ := a
  obtain ⟨u, q⟩ := b
  rcases Payload.eq_of_identical same with is | ⟨x, y, rfl, rfl, -⟩ | ⟨x, y, rfl, rfl, -⟩
  · cases is
    rfl
  · exact congrArg Shape.scalar (funext (Payload.identical_congr same))
  · exact congrArg Shape.scalar (funext (Payload.identical_congr same))

/-- How the shape of a value tells what the value is. -/
inductive Shows (s : Store) : Payload → Shape Value → Prop
  | scalar {p : Payload} : Shows s p (.scalar p.identical)
  | int {n : Int64} : Shows s (.int n) (.number (Ratio.ofInt64 n))
  | ratio {r : Ratio} : Shows s (.ratio r) (.number r)
  | bin {x : Ref} : Shows s (.bin x) (.bytes (s.binAt x))
  | error {x : Ref} : Shows s (.error x) (.fault (s.errorAt x).kind (s.errorAt x).message)
  | list {x : Ref} : Shows s (.list x) (.list (s.listAt x).toList)
  | struct {x : Ref} : Shows s (.struct x) (.struct (s.structAt x).toList)
  | table {x : Ref} : Shows s (.table x) (.table (· ∈ s.tableAt x))
  | pair {x : Ref} {p : Value × Value} : s.pairs[x]? = some p → Shows s (.pair x) (.pair p.1 p.2)

theorem shows_shape (s : Store) (v : Value) : s.Shows v.payload (s.shape v) := by
  unfold shape
  split <;> try rename_i is; rw [is]
  · exact .int
  · exact .ratio
  · exact .bin
  · exact .error
  · exact .list
  · exact .struct
  · exact .table
  · split
    · exact .pair ‹_›
    · exact .scalar
  · exact .scalar

theorem Proper.part (h : s.Proper v) (member : w ∈ s.parts v) : s.Proper w :=
  ⟨h.acyclic.part member, fun u within => h.apart u (within.tail member)⟩

theorem forall₂_imp {α : Type} {R R' : α → α → Prop} {as bs : List α} (each : List.Forall₂ R as bs)
    (imp : ∀ a ∈ as, ∀ b ∈ bs, R a b → R' a b) : List.Forall₂ R' as bs := by
  induction each with
  | nil => exact .nil
  | cons first _ ih =>
    simp only [List.forall_mem_cons] at imp
    exact .cons (imp.1.1 first) (ih fun a ha b hb => (imp.2 a ha).2 b hb)

theorem map_eq_iff {α β : Type} {f : α → β} {as bs : List α} :
    as.map f = bs.map f ↔ List.Forall₂ (fun a b => f a = f b) as bs := by
  rw [← List.forall₂_eq_eq_eq, List.forall₂_map_left_iff, List.forall₂_map_right_iff]

theorem Covered.image_subset {α : Type} {rel : Value → Value → Bool} {C : Value → Prop} {f : Value → α}
    {t u : Table} (ht : Drawn C t) (hu : Drawn C u)
    (agree : ∀ x y, C x → C y → rel x y = true → f x = f y) (covered : Covered rel t u) :
    Prod.map f f '' {e | e ∈ t} ⊆ Prod.map f f '' {e | e ∈ u} := by
  rintro _ ⟨e, member, rfl⟩
  obtain ⟨e', member', key, value⟩ := covered e member
  refine ⟨e', member', Prod.ext (agree _ _ (hu e' member').1 (ht e member).1 key) ?_⟩
  exact (agree _ _ (ht e member).2 (hu e' member').2 value).symm

/-- Values that are equal say the same. -/
theorem content_of_equals {n : Nat} (ha : s.Proper a) (hb : s.Proper b) (equal : s.equals a b = true) :
    s.content n a = s.content n b := by
  induction n generalizing a b with
  | zero => rfl
  | succ n ih =>
    have agree (x y : Value) (hx : s.Proper x) (hy : s.Proper y) (equal : s.equals x y = true) :
        s.content n x = s.content n y := ih hx hy equal
    have inA (w : Value) (member : w ∈ s.parts a) : s.Proper w := ha.part member
    have inB (w : Value) (member : w ∈ s.parts b) : s.Proper w := hb.part member
    rw [content, content]
    rcases (equals_iff ha.acyclic hb.acyclic).1 equal with same | alike
    · rw [shape_of_same same]
    · have drawn := drawn_of_parts inA
      have drawn' := drawn_of_parts inB
      have apart := ha.apart a .refl
      obtain ⟨t, p⟩ := a
      obtain ⟨u, q⟩ := b
      cases alike with
      | whole same => exact congrArg Shape.number same
      | ratio same => exact congrArg Shape.number same.symm
      | bin same => exact congrArg Shape.bytes same
      | list each =>
        refine congrArg Shape.list (map_eq_iff.2 (forall₂_imp each fun x hx y hy => ?_))
        exact agree x y (inA x hx) (inB y hy)
      | struct each =>
        refine congrArg Shape.struct (map_eq_iff.2 (forall₂_imp each fun x hx y hy => ?_))
        exact agree x y (inA x hx) (inB y hy)
      | table length found =>
        have covered := covered_of_found found
        have covers := covered.symm s.lawful_proper apart drawn drawn' length
        exact congrArg Shape.table (Set.Subset.antisymm (covered.image_subset drawn drawn' agree)
          (covers.image_subset drawn' drawn agree))
      | @pair x y p q px py left right =>
        rw [parts_pair px] at inA
        rw [parts_pair py] at inB
        have one := agree p.1 q.1 (inA _ (by simp)) (inB _ (by simp)) left
        have two := agree p.2 q.2 (inA _ (by simp)) (inB _ (by simp)) right
        rw [shape_pair px, shape_pair py]
        exact congrArg₂ Shape.pair one two
      | error kind message => exact congrArg₂ Shape.fault kind message

/-! ## Values that say the same are equal -/

theorem Covered.of_image_subset {α : Type} {rel : Value → Value → Bool} {C : Value → Prop} {f : Value → α}
    {t u : Table} (ht : Drawn C t) (hu : Drawn C u)
    (agree : ∀ x y, C x → C y → f x = f y → rel x y = true)
    (subset : Prod.map f f '' {e | e ∈ t} ⊆ Prod.map f f '' {e | e ∈ u}) : Covered rel t u := by
  intro e member
  obtain ⟨e', member', same⟩ := subset ⟨e, member, rfl⟩
  obtain ⟨keys, values⟩ := Prod.ext_iff.1 same
  exact ⟨e', member', agree _ _ (hu e' member').1 (ht e member).1 keys,
    agree _ _ (ht e member).2 (hu e' member').2 values.symm⟩

/-- Shapes that agree are those of values that are the same, or alike in their parts. -/
theorem same_or_alike {α : Type} {rel : Value → Value → Bool} {C : Value → Prop} {f : Value → α}
    (laws : Lawful rel C) (ha : ∀ w ∈ s.parts a, C w) (hb : ∀ w ∈ s.parts b, C w)
    (apart : Apart rel (s.entries a)) (apart' : Apart rel (s.entries b))
    (agree : ∀ x y, C x → C y → f x = f y → rel x y = true)
    (same : (s.shape a).map f = (s.shape b).map f) :
    a.same b = true ∨ s.Alike rel a.payload b.payload := by
  have drawn := drawn_of_parts ha
  have drawn' := drawn_of_parts hb
  have first := s.shows_shape a
  have second := s.shows_shape b
  obtain ⟨t, p⟩ := a
  obtain ⟨u, q⟩ := b
  generalize s.shape ⟨t, p⟩ = x, s.shape ⟨u, q⟩ = y at first second same
  dsimp only at first second
  cases first with
  | scalar =>
    cases second with
    | scalar => exact .inl ((congrFun (Shape.scalar.inj same) q).trans q.identical_refl)
    | _ => cases same
  | int =>
    cases second with
    | int => exact .inl (beq_iff_eq.2 (Ratio.mk.inj (Shape.number.inj same)).1)
    | ratio => exact .inr (.whole (Shape.number.inj same))
    | _ => cases same
  | ratio =>
    cases second with
    | int => exact .inr (.ratio (Shape.number.inj same).symm)
    | ratio => exact .inl (beq_iff_eq.2 (Shape.number.inj same))
    | _ => cases same
  | bin =>
    cases second with
    | bin => exact .inr (.bin (Shape.bytes.inj same))
    | _ => cases same
  | error =>
    cases second with
    | error => exact .inr (.error (Shape.fault.inj same).1 (Shape.fault.inj same).2)
    | _ => cases same
  | list =>
    cases second with
    | list =>
      refine .inr (.list (forall₂_imp (map_eq_iff.1 (Shape.list.inj same)) fun x hx y hy => ?_))
      exact agree x y (ha x hx) (hb y hy)
    | _ => cases same
  | struct =>
    cases second with
    | struct =>
      refine .inr (.struct (forall₂_imp (map_eq_iff.1 (Shape.struct.inj same)) fun x hx y hy => ?_))
      exact agree x y (ha x hx) (hb y hy)
    | _ => cases same
  | table =>
    cases second with
    | table =>
      have entries := Shape.table.inj same
      have covered := Covered.of_image_subset drawn drawn' agree entries.subset
      have covers := Covered.of_image_subset drawn' drawn agree entries.superset
      refine .inr (.table ?_ (covered.found laws apart' drawn drawn'))
      exact Nat.le_antisymm (covered.length_le laws apart drawn drawn')
        (covers.length_le laws apart' drawn' drawn)
    | _ => cases same
  | pair px =>
    cases second with
    | pair py =>
      rw [parts_pair px] at ha
      rw [parts_pair py] at hb
      obtain ⟨one, two⟩ := Shape.pair.inj same
      exact .inr (.pair px py (agree _ _ (ha _ (by simp)) (hb _ (by simp)) one)
        (agree _ _ (ha _ (by simp)) (hb _ (by simp)) two))
    | _ => cases same

/-- A step further than they are deep, values say all. -/
theorem equals_of_content {n : Nat} (ha : s.Nested s.KeysApart n a) (hb : s.Nested s.KeysApart n b)
    (same : s.content (n + 1) a = s.content (n + 1) b) : s.equals a b = true := by
  induction n generalizing a b with
  | zero =>
    have noneA : ∀ w ∈ s.parts a, False := by simp [ha.2]
    have noneB : ∀ w ∈ s.parts b, False := by simp [hb.2]
    rw [equals_iff ha.acyclic hb.acyclic]
    exact same_or_alike (lawful_none _) noneA noneB ha.here hb.here (fun _ _ no => no.elim) same
  | succ n ih =>
    rw [equals_iff ha.acyclic hb.acyclic]
    exact same_or_alike (s.lawful_nested n) ha.2 hb.2 ha.here hb.here (fun x y hx hy => ih hx hy) same

/-- Two values that contain neither themselves nor a table with two equal keys are equal just if they
say the same. -/
theorem Proper.equals_iff (ha : s.Proper a) (hb : s.Proper b) :
    s.equals a b = true ↔ s.image a = s.image b := by
  constructor
  · exact fun equal => funext fun n => content_of_equals ha hb equal
  · exact fun same => equals_of_content ((s.proper_iff a).1 ha) ((s.proper_iff b).1 hb) (congrFun same _)

/-! ## From one store to another -/

/-- The second store has everything within the value as the first has it. -/
def Untouched (s s' : Store) (v : Value) : Prop :=
  ∀ w, s.Within w v → s'.shape w = s.shape w ∧ s'.entries w = s.entries w

theorem Untouched.refl (s : Store) (v : Value) : s.Untouched s v := fun _ _ => ⟨rfl, rfl⟩

theorem Untouched.part (h : s.Untouched s' v) (member : w ∈ s.parts v) : s.Untouched s' w :=
  fun u within => h u (within.tail member)

theorem map_shape_congr {α : Type} {f g : Value → α} (h : ∀ w ∈ s.parts v, f w = g w) :
    (s.shape v).map f = (s.shape v).map g := by
  have drawn := drawn_of_parts h
  have shown := s.shows_shape v
  obtain ⟨t, p⟩ := v
  generalize s.shape ⟨t, p⟩ = x at shown
  cases shown with
  | list => exact congrArg Shape.list (List.map_congr_left h)
  | struct => exact congrArg Shape.struct (List.map_congr_left h)
  | table =>
    refine congrArg Shape.table (Set.image_congr fun e member => ?_)
    exact Prod.ext (drawn e member).1 (drawn e member).2
  | pair stored =>
    rw [parts_pair stored] at h
    exact congrArg₂ Shape.pair (h _ (by simp)) (h _ (by simp))
  | _ => rfl

theorem parts_eq_shape (s : Store) (v : Value) : s.parts v = (s.shape v).parts (s.entries v) := by
  unfold parts shape entries
  cases v.payload with
  | pair r =>
    dsimp only
    cases s.pairs[r]? <;> rfl
  | _ => rfl

theorem Untouched.parts (h : s.Untouched s' v) : s'.parts v = s.parts v := by
  rw [parts_eq_shape, parts_eq_shape, (h v .refl).1, (h v .refl).2]

theorem Untouched.content {n : Nat} (h : s.Untouched s' v) : s'.content n v = s.content n v := by
  induction n generalizing v with
  | zero => rfl
  | succ n ih =>
    rw [Store.content, Store.content, (h v .refl).1]
    exact map_shape_congr fun w member => ih (h.part member)

/-- What a value says stays the same as long as nothing within it is changed. -/
theorem Untouched.image (h : s.Untouched s' v) : s'.image v = s.image v :=
  funext fun _ => h.content

theorem Untouched.equals (ha : s.Untouched s' a) (hb : s.Untouched s' b) (pa : s.Proper a) (pb : s.Proper b)
    (pa' : s'.Proper a) (pb' : s'.Proper b) : s'.equals a b = s.equals a b := by
  rw [Bool.eq_iff_iff, pa'.equals_iff pb', pa.equals_iff pb, ha.image, hb.image]

theorem Untouched.keysApart (h : s.Untouched s' v) (proper : ∀ w ∈ s.parts v, s.Proper w)
    (proper' : ∀ w ∈ s.parts v, s'.Proper w) (apart : s.KeysApart v) : s'.KeysApart v := by
  rw [KeysApart, (h v .refl).2]
  refine List.Pairwise.imp_of_mem (fun {e f} he hf differ => ?_) apart
  have ke := (mem_parts_entry he).1
  have kf := (mem_parts_entry hf).1
  rw [(h.part ke).equals (h.part kf) (proper _ ke) (proper _ kf) (proper' _ ke) (proper' _ kf), differ]

theorem Nested.proper {n : Nat} (h : s.Nested s.KeysApart n v) : s.Proper v :=
  ⟨h.acyclic, fun _ within => (h.within within).1⟩

theorem Untouched.nested {n : Nat} (h : s.Untouched s' v) (nested : s.Nested s.KeysApart n v) :
    s'.Nested s'.KeysApart n v := by
  have proper (w : Value) (member : w ∈ s.parts v) : s.Proper w := nested.proper.part member
  induction n generalizing v with
  | zero =>
    refine ⟨h.keysApart proper (fun w member => ?_) nested.1, h.parts.trans nested.2⟩
    rw [nested.2] at member
    cases member
  | succ n ih =>
    have each (w : Value) (member : w ∈ s.parts v) : s'.Nested s'.KeysApart n w :=
      ih (h.part member) (nested.2 w member) fun u inside => (proper w member).part inside
    exact ⟨h.keysApart proper (fun w member => (each w member).proper) nested.1, h.parts ▸ each⟩

theorem Untouched.proper (h : s.Untouched s' v) (proper : s.Proper v) : s'.Proper v :=
  (h.nested ((s.proper_iff v).1 proper)).proper

end Store

end Catena
