import Catena.Registry

/-!
# What registries keep

A registry only grows: no implementation, type or conversion is ever taken out of it, each
implementation has an id that no other one has, ids are only used up, a label's name stays taken, and
the forms of the language and the templates stay the same.
-/

namespace Catena

/-- Whether the embedding program says what the function does. -/
def Native.isHost : Native → Bool
  | .host _ | .hostIter .. | .hostPend => true
  | _ => false

end Catena

namespace Catena.Registry

/-- The implementation belongs to some function. -/
def Registered (r : Registry) (imp : Imp) : Prop :=
  ∃ name imps, r.funcs.find? name = some imps ∧ imp ∈ imps

/-- The ids of implementations are used up, and no two share one. -/
structure Distinct (r : Registry) : Prop where
  below : ∀ imp, r.Registered imp → imp.id < r.nextId
  apart : ∀ imp imp', r.Registered imp → r.Registered imp' → imp.id = imp'.id → imp = imp'

/-- Labels are known under their own names, and none of them is anonymous. -/
def Labelled (r : Registry) : Prop :=
  ∀ name l, r.labels.find? name = some l → l.name = name ∧ l.anon = false

/-- A registry may come to differ in this way. -/
structure Grown (r r' : Registry) : Prop where
  registered : ∀ imp, r.Registered imp → r'.Registered imp
  distinct : r.Distinct → r'.Distinct
  ids : r.nextId ≤ r'.nextId
  macros : r'.macros = r.macros
  taken : ∀ name, r.labels.contains name = true → r'.labels.contains name = true
  labelled : r.Labelled → r'.Labelled
  types : ∀ name t, r.types.find? name = some t → r'.types.find? name = some t
  templates : ∀ name t, r'.types.find? name = some t → r.types.find? name = some t ∨ t.isTemplate = false
  convs : r'.convs = ∅ → r.convs = ∅

theorem Grown.refl (r : Registry) : r.Grown r :=
  ⟨fun _ h => h, fun h => h, Nat.le_refl _, rfl, fun _ h => h, fun h => h, fun _ _ h => h,
    fun _ _ => .inl, fun h => h⟩

theorem Grown.trans {a b c : Registry} (h : a.Grown b) (k : b.Grown c) : a.Grown c where
  registered imp known := k.registered imp (h.registered imp known)
  distinct distinct := k.distinct (h.distinct distinct)
  ids := Nat.le_trans h.ids k.ids
  macros := k.macros.trans h.macros
  taken name known := k.taken name (h.taken name known)
  labelled labelled := k.labelled (h.labelled labelled)
  types name t known := k.types name t (h.types name t known)
  templates name t known := (k.templates name t known).elim (h.templates name t) .inr
  convs none := h.convs (k.convs none)

/-- Ids may be used up for other things than implementations. -/
theorem Grown.of_funcs {r r' : Registry} (funcs : r'.funcs = r.funcs) (ids : r.nextId ≤ r'.nextId)
    (macros : r'.macros = r.macros) (labels : r'.labels = r.labels)
    (types : ∀ name t, r.types.find? name = some t → r'.types.find? name = some t)
    (templates : ∀ name t, r'.types.find? name = some t →
      r.types.find? name = some t ∨ t.isTemplate = false)
    (convs : r'.convs = ∅ → r.convs = ∅) : r.Grown r' := by
  have same : ∀ imp, r'.Registered imp ↔ r.Registered imp := fun imp => by
    simp only [Registered, funcs]
  constructor
  · exact fun imp => (same imp).2
  · intro h
    constructor
    · exact fun imp known => Nat.lt_of_lt_of_le (h.below imp ((same imp).1 known)) ids
    · exact fun imp imp' known known' => h.apart imp imp' ((same imp).1 known) ((same imp').1 known')
  · exact ids
  · exact macros
  · exact fun name => by rw [labels]; exact id
  · exact fun h => by rw [Labelled, labels]; exact h
  · exact types
  · exact templates
  · exact convs

theorem freshId_grown (r : Registry) : r.Grown r.freshId.2 :=
  .of_funcs rfl (Nat.le_succ _) rfl rfl (fun _ _ h => h) (fun _ _ => .inl) fun h => h

theorem registered_addImp (r : Registry) (name : String) (args : List Arg) (safety : Safety)
    (body : Body) (imp : Imp) :
    (r.addImp name args safety body).2.Registered imp ↔
      imp = (r.addImp name args safety body).1 ∨ r.Registered imp := by
  simp only [Registered, addImp, freshId, Dict.find?_insert]
  constructor
  · rintro ⟨name', imps, found, member⟩
    split at found
    · obtain rfl := Option.some.inj found
      rcases List.mem_cons.1 member with rfl | old
      · exact .inl rfl
      · cases h : r.funcs.find? name with
        | none => simp [h] at old
        | some imps => exact .inr ⟨name, imps, h, by simpa [h] using old⟩
    · exact .inr ⟨name', imps, found, member⟩
  · rintro (rfl | ⟨name', imps, found, member⟩)
    · exact ⟨name, _, if_pos rfl, List.mem_cons_self⟩
    · by_cases h : name = name'
      · subst h
        exact ⟨name, _, if_pos rfl, List.mem_cons_of_mem _ (by simpa [found] using member)⟩
      · exact ⟨name', imps, by rw [if_neg h, found], member⟩

theorem addImp_grown (r : Registry) (name : String) (args : List Arg) (safety : Safety)
    (body : Body) : r.Grown (r.addImp name args safety body).2 := by
  constructor
  · exact fun imp known => (registered_addImp ..).2 (.inr known)
  · intro h
    constructor
    · intro imp known
      rcases (registered_addImp ..).1 known with rfl | old
      · exact Nat.lt_succ_self _
      · exact Nat.lt_succ_of_lt (h.below imp old)
    · intro imp imp' known known' same
      rcases (registered_addImp ..).1 known with rfl | old <;>
        rcases (registered_addImp ..).1 known' with rfl | old'
      · rfl
      · exact absurd same.symm (Nat.ne_of_lt (h.below imp' old'))
      · exact absurd same (Nat.ne_of_lt (h.below imp old))
      · exact h.apart imp imp' old old' same
  · exact Nat.le_succ _
  · rfl
  · exact fun _ => id
  · exact id
  · exact fun _ _ => id
  · exact fun _ _ => .inl
  · exact id

/-! ## Types, labels and conversions -/

/-- A type may be added under a name that is not taken. -/
theorem find?_addType {r : Registry} {t : Ty} (fresh : r.types.find? t.name = none) {name : String}
    {s : Ty} (h : r.types.find? name = some s) : (r.addType t).types.find? name = some s := by
  rw [addType, Dict.find?_insert, if_neg]
  · exact h
  · rintro rfl
    rw [fresh] at h
    cases h

/-- What is known then was known before, or is the added type. -/
theorem find?_of_addType {r : Registry} {t : Ty} (plain : t.isTemplate = false) {name : String} {s : Ty}
    (h : (r.addType t).types.find? name = some s) :
    r.types.find? name = some s ∨ s.isTemplate = false := by
  rw [addType, Dict.find?_insert] at h
  split at h
  · exact .inr (Option.some.inj h ▸ plain)
  · exact .inl h

theorem addInstance_grown {r : Registry} {template : Ty} {args : List Ty} (above : List Ty)
    (fresh : r.types.find? (instanceName template args) = none) :
    r.Grown (r.addInstance template args above).2 := by
  refine .of_funcs rfl (Nat.le_succ _) rfl rfl (fun name t h => ?_) (fun name t h => ?_) fun h => h
  · exact find?_addType (r := r.freshId.2) (t := (r.addInstance template args above).1) fresh h
  · exact find?_of_addType (r := r.freshId.2) (t := (r.addInstance template args above).1) rfl h

theorem deriveWith_grown (r : Registry) (template : Ty) (args above : List Ty) :
    r.Grown (r.deriveWith template args above).2 := by
  unfold deriveWith
  split
  · exact .refl r
  · rename_i fresh
    exact addInstance_grown above fresh

/-- Making an instance takes no other name. -/
theorem deriveWith_other {r : Registry} {template : Ty} {args above : List Ty} {name : String}
    (other : instanceName template args ≠ name) (fresh : r.types.find? name = none) :
    (r.deriveWith template args above).2.types.find? name = none := by
  unfold deriveWith
  split
  · exact fresh
  · simp only [addInstance, freshId, addType, Dict.find?_insert]
    rw [if_neg other]
    exact fresh

/-- Instances of templates whose names begin with different letters have different names. -/
theorem instanceName_ne {s t : Ty} {c d : Char} {cs ds : List Char} (args args' : List Ty)
    (hs : s.name.toList = c :: cs) (ht : t.name.toList = d :: ds) (apart : c ≠ d) :
    instanceName s args ≠ instanceName t args' := by
  intro same
  have chars := congrArg String.toList same
  simp only [instanceName, String.toList_append, hs, ht, List.cons_append, List.cons.injEq] at chars
  exact apart chars.1

theorem derive_grown (r : Registry) (template : Ty) (args : List Ty) :
    r.Grown (r.derive template args).2 := by
  unfold derive
  split
  · exact .refl r
  rename_i fresh
  split
  · rename_i named
    refine (deriveWith_grown r _ _ _).trans (addInstance_grown _ (deriveWith_other ?_ fresh))
    simp only [Bool.or_eq_true, beq_iff_eq] at named
    rcases named with named | named <;>
      exact instanceName_ne _ _ rfl (congrArg String.toList named) (by decide)
  split
  · rename_i named
    have named := congrArg String.toList (beq_iff_eq.1 named)
    have fresh : (r.derivePair (args.take 2)).2.types.find? (instanceName template args) = none :=
      deriveWith_other (instanceName_ne _ args rfl named (by decide)) fresh
    exact ((deriveWith_grown r _ _ _).trans (deriveWith_grown _ _ _ _)).trans
      (addInstance_grown _ (deriveWith_other (instanceName_ne _ args rfl named (by decide)) fresh))
  split
  · exact deriveWith_grown r _ _ _
  · exact addInstance_grown _ fresh

/-- Only types are added. -/
structure Adds (r r' : Registry) : Prop where
  grown : r.Grown r'
  funcs : r'.funcs = r.funcs
  convs : r'.convs = r.convs
  labels : r'.labels = r.labels

theorem Adds.refl (r : Registry) : r.Adds r := ⟨.refl r, rfl, rfl, rfl⟩

theorem Adds.trans {a b c : Registry} (h : a.Adds b) (k : b.Adds c) : a.Adds c :=
  ⟨h.grown.trans k.grown, k.funcs.trans h.funcs, k.convs.trans h.convs, k.labels.trans h.labels⟩

theorem deriveWith_adds (r : Registry) (template : Ty) (args above : List Ty) :
    r.Adds (r.deriveWith template args above).2 := by
  have grown := deriveWith_grown r template args above
  unfold deriveWith at *
  split <;> exact ⟨by simpa [*] using grown, rfl, rfl, rfl⟩

theorem derive_adds (r : Registry) (template : Ty) (args : List Ty) :
    r.Adds (r.derive template args).2 := by
  have grown := derive_grown r template args
  suffices h : (r.derive template args).2.funcs = r.funcs ∧
      (r.derive template args).2.convs = r.convs ∧ (r.derive template args).2.labels = r.labels from
    ⟨grown, h.1, h.2.1, h.2.2⟩
  unfold derive
  split
  · exact ⟨rfl, rfl, rfl⟩
  split
  · have first := deriveWith_adds r .seq [args.headD .any] []
    exact ⟨first.funcs, first.convs, first.labels⟩
  split
  · have first : r.Adds (r.derivePair (args.take 2)).2 := deriveWith_adds r _ _ _
    have both := first.trans (deriveWith_adds _ .seq [(r.derivePair (args.take 2)).1] [])
    exact ⟨both.funcs, both.convs, both.labels⟩
  split
  · have first : r.Adds (r.derivePair args).2 := deriveWith_adds r _ _ _
    exact ⟨first.funcs, first.convs, first.labels⟩
  · exact ⟨rfl, rfl, rfl⟩

theorem instantiate_adds {r r' : Registry} {template t : Ty} {args : List Ty}
    (h : r.instantiate template args = .ok (t, r')) : r.Adds r' := by
  unfold instantiate at h
  split at h
  · cases h
  split at h
  · cases h
  · obtain ⟨-, rfl⟩ := Prod.mk.inj (Except.ok.inj h)
    exact derive_adds r template _

theorem instantiateNamed_adds {r r' : Registry} {name : String} {t : Ty} {args : List Ty}
    (h : r.instantiateNamed name args = .ok (t, r')) : r.Adds r' := by
  unfold instantiateNamed at h
  split at h
  · cases h
  · exact instantiate_adds h

theorem declareType_grown {r r' : Registry} {name : String} {supers : List Ty}
    {behavior : Behavior} {t : Ty} (h : r.declareType name supers behavior = .ok (t, r')) :
    r.Grown r' := by
  unfold declareType at h
  split at h
  · cases h
  · rename_i free
    obtain ⟨-, rfl⟩ := Prod.mk.inj (Except.ok.inj h)
    let made : Ty := ⟨r.nextId, name, none, if supers.isEmpty then [.any] else supers, [], 0, behavior⟩
    refine .of_funcs rfl (Nat.le_succ _) rfl rfl (fun other t h => ?_) (fun other t h => ?_) fun h => h
    · have fresh : r.types.find? name = none := by simpa [Dict.contains] using free
      exact find?_addType (r := r.freshId.2) (t := made) fresh h
    · exact find?_of_addType (r := r.freshId.2) (t := made) rfl h

theorem addLabels_cons (r : Registry) (l : Label) (labels : List Label) :
    r.addLabels (l :: labels) = { r with labels := r.labels.insert l.name l }.addLabels labels := rfl

theorem addLabels_grown (r : Registry) (labels : List Label) (named : ∀ l ∈ labels, l.anon = false) :
    r.Grown (r.addLabels labels) := by
  induction labels generalizing r with
  | nil => exact .refl r
  | cons l labels ih =>
    rw [addLabels_cons]
    refine .trans ?_ (ih _ fun l' member => named l' (List.mem_cons_of_mem _ member))
    constructor
    · exact fun _ => id
    · exact fun h => ⟨h.below, h.apart⟩
    · exact Nat.le_refl _
    · rfl
    · intro name known
      rw [Dict.contains, Dict.find?_insert]
      split
      · rfl
      · exact known
    · intro labelled name l' found
      rw [Dict.find?_insert] at found
      split at found
      · rename_i same
        obtain rfl := Option.some.inj found
        exact ⟨same, named l List.mem_cons_self⟩
      · exact labelled name l' found
    · exact fun _ _ => id
    · exact fun _ _ => .inl
    · exact id

theorem addConv_grown (r : Registry) (source target : Ty) (f : Value) :
    r.Grown (r.addConv source target f) := by
  refine .of_funcs rfl (Nat.le_refl _) rfl rfl (fun _ _ h => h) (fun _ _ => .inl) fun none => ?_
  have some : (r.addConv source target f).convs.find? (source.id, target.id) = some f := by
    rw [addConv, Dict.find?_insert, if_pos rfl]
  rw [none] at some
  cases some

/-! ## What a text adds -/

/-- Types and library functions are added. -/
structure Gains (r r' : Registry) : Prop where
  grown : r.Grown r'
  convs : r'.convs = r.convs
  labels : r'.labels = r.labels
  imps : ∀ imp, r'.Registered imp → r.Registered imp ∨ ∃ f, imp.body = .native f ∧ f.isHost = false

theorem Gains.refl (r : Registry) : r.Gains r := ⟨.refl r, rfl, rfl, fun _ known => .inl known⟩

theorem Gains.trans {a b c : Registry} (h : a.Gains b) (k : b.Gains c) : a.Gains c where
  grown := h.grown.trans k.grown
  convs := k.convs.trans h.convs
  labels := k.labels.trans h.labels
  imps imp known := (k.imps imp known).elim (h.imps imp) .inr

theorem Gains.of_funcs {r r' : Registry} (grown : r.Grown r') (funcs : r'.funcs = r.funcs)
    (convs : r'.convs = r.convs) (labels : r'.labels = r.labels) : r.Gains r' where
  grown := grown
  convs := convs
  labels := labels
  imps imp known := by
    rw [Registered, funcs] at known
    exact .inl known

theorem Adds.gains {r r' : Registry} (h : r.Adds r') : r.Gains r' :=
  .of_funcs h.grown h.funcs h.convs h.labels

theorem freshId_gains (r : Registry) : r.Gains r.freshId.2 :=
  .of_funcs r.freshId_grown rfl rfl rfl

theorem declareType_gains {r r' : Registry} {name : String} {supers : List Ty}
    {behavior : Behavior} {t : Ty} (h : r.declareType name supers behavior = .ok (t, r')) :
    r.Gains r' := by
  have grown := declareType_grown h
  unfold declareType at h
  split at h
  · cases h
  · obtain ⟨-, rfl⟩ := Prod.mk.inj (Except.ok.inj h)
    exact .of_funcs grown rfl rfl rfl

theorem addImp_gains (r : Registry) (name : String) (args : List Arg) (safety : Safety) {f : Native}
    (own : f.isHost = false) : r.Gains (r.addImp name args safety (.native f)).2 where
  grown := r.addImp_grown name args safety (.native f)
  convs := rfl
  labels := rfl
  imps imp known := by
    rcases (registered_addImp ..).1 known with rfl | old
    · exact .inr ⟨f, rfl, own⟩
    · exact .inl old

end Catena.Registry
