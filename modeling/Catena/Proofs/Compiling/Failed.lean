import Catena.Proofs.Compiling.Amends

/-!
# Texts that do not compile

A compilation that fails leaves the engine as it was, but for ids, instances and the structures whose
forms were complete before the fault. Another text compiles afterwards exactly if it would have
compiled with these structures declared and nothing else, so if there are none, exactly if it would
have compiled before (`failed_compile`): instances are only looked up by their names, and which ids
were taken makes no difference to a compilation.
-/

namespace Catena

open Registry (Amends Declared)

variable {I : Ids} {r₀ r r' s s' : Registry} {ds es : List Declared} {name : String} {t t' : Ty}

/-! ## Two registries with a past in common -/

/-- The names that mean the same since the common past: they do not look like those of instances, or
they were known then. -/
def Registry.Settled (r₀ : Registry) (name : String) : Prop :=
  TypeExpr.looksGeneric name = false ∨ (r₀.types.find? name).isSome

/-- What the first registry knows is still known, and what is new is no template and known under its
own name. -/
structure Registry.Since (r₀ r : Registry) : Prop where
  kept : ∀ name t, r₀.types.find? name = some t → r.types.find? name = some t
  new : ∀ name t, r.types.find? name = some t →
    r₀.types.find? name = some t ∨ (t.name = name ∧ t.isTemplate = false)

/-- The same name. -/
def Ty.Namesakes (t t' : Ty) : Prop := t'.name = t.name

/-- Two registries with a past in common that a compilation cannot tell apart. -/
structure Registry.Kin (r₀ : Registry) (I : Ids) (r r' : Registry) : Prop where
  below : ∀ a b, I a b → a < r.nextId ∧ b < r'.nextId
  apart : ∀ a a' b b', I a a' → I b b' → (a = b ↔ a' = b')
  forms : r.macros = r₀.macros ∧ r'.macros = r₀.macros
  labels : r'.labels = r.labels
  funcs : ∀ name, r'.funcs.contains name = r.funcs.contains name
  since : r₀.Since r
  since' : r₀.Since r'
  types : ∀ name, r₀.Settled name → Option.Rel Ty.Namesakes (r.types.find? name) (r'.types.find? name)

namespace Registry

theorem Since.refl (r₀ : Registry) : r₀.Since r₀ := ⟨fun _ _ => id, fun _ _ => .inl⟩

theorem Since.ordinary (h : r₀.Since r) (ordinary : r₀.Ordinary) : r.Lettered := by
  intro name t found is
  rcases h.new name t found with before | ⟨-, plain⟩
  · exact ordinary.lettered name t before is
  · rw [plain] at is
    cases is

/-- Templates are known since the common past. -/
theorem Since.template (h : r₀.Since r) (found : r.types.find? name = some t) (is : t.isTemplate = true) :
    r₀.types.find? name = some t := by
  rcases h.new name t found with before | ⟨-, plain⟩
  · exact before
  · rw [plain] at is
    cases is

/-! ### Instances -/

theorem Since.amends (h : r₀.Since r) (made : Amends ds r s) : r₀.Since s := by
  refine ⟨fun name t found => made.grown.types name t (h.kept name t found), fun name t found => ?_⟩
  rcases made.grown.templates name t found with before | plain
  · exact h.new name t before
  rcases made.types found with before | ⟨-, -, named⟩ | ⟨d, -, -, named⟩
  · exact h.new name t before
  · exact .inr ⟨named, plain⟩
  · exact .inr ⟨named, plain⟩

/-- Instances do not change what other names mean. -/
theorem Since.settled (h : r₀.Since r) (made : Amends [] r s) (settled : r₀.Settled name) :
    s.types.find? name = r.types.find? name := by
  cases before : r.types.find? name with
  | some t => exact made.grown.types name t before
  | none =>
    cases after : s.types.find? name with
    | none => rfl
    | some t =>
      rcases made.types after with found | ⟨generic, -, -⟩ | ⟨d, none, -⟩
      · rw [before] at found
        cases found
      · rcases settled with plain | known
        · rw [plain] at generic
          cases generic
        · obtain ⟨u, known⟩ := Option.isSome_iff_exists.1 known
          rw [h.kept name u known] at before
          cases before
      · cases none

/-- Both registries grow, and the same functions and namesakes come to be known. -/
theorem Kin.of_grown (h : r₀.Kin I r r') (grown : r.Grown s) (grown' : r'.Grown s')
    (labels : s.labels = r.labels) (labels' : s'.labels = r'.labels)
    (funcs : ∀ name, s'.funcs.contains name = s.funcs.contains name) (since : r₀.Since s)
    (since' : r₀.Since s') (types : ∀ name, r₀.Settled name →
      Option.Rel Ty.Namesakes (s.types.find? name) (s'.types.find? name)) : r₀.Kin I s s' where
  below a b is := by
    obtain ⟨low, low'⟩ := h.below a b is
    exact ⟨Nat.lt_of_lt_of_le low grown.ids, Nat.lt_of_lt_of_le low' grown'.ids⟩
  apart := h.apart
  forms := ⟨grown.macros.trans h.forms.1, grown'.macros.trans h.forms.2⟩
  labels := by rw [labels, labels', h.labels]
  funcs := funcs
  since := since
  since' := since'
  types := types

theorem Kin.instances (h : r₀.Kin I r r') (made : Amends [] r s) (made' : Amends [] r' s')
    (labels : s.labels = r.labels) (labels' : s'.labels = r'.labels) : r₀.Kin I s s' := by
  refine h.of_grown made.grown made'.grown labels labels' ?_ (h.since.amends made)
    (h.since'.amends made') fun name settled => ?_
  · rw [made.funcs, made'.funcs]
    exact h.funcs
  · rw [h.since.settled made settled, h.since'.settled made' settled]
    exact h.types name settled

theorem addInstance_known (r : Registry) (template : Ty) (args above : List Ty) :
    (r.addInstance template args above).2.types.find? (instanceName template args) =
      some (r.addInstance template args above).1 := by
  simp only [addInstance, freshId, addType, Dict.find?_insert, if_true]

theorem deriveWith_known (r : Registry) (template : Ty) (args above : List Ty) :
    (r.deriveWith template args above).2.types.find? (instanceName template args) =
      some (r.deriveWith template args above).1 := by
  unfold deriveWith
  split
  · assumption
  · exact addInstance_known r template args above

/-- An instance is known under its name. -/
theorem derive_known (r : Registry) (template : Ty) (args : List Ty) :
    (r.derive template args).2.types.find? (instanceName template args) =
      some (r.derive template args).1 := by
  unfold derive
  split
  · assumption
  split
  · exact addInstance_known _ _ _ _
  split
  · exact addInstance_known _ _ _ _
  split
  · rename_i pair
    have same : instanceName template args = instanceName .pair args := by
      rw [instanceName, instanceName, eq_of_beq pair]
      rfl
    rw [same]
    exact deriveWith_known _ _ _ _
  · exact addInstance_known _ _ _ _

/-- Two types known under the name of an instance are namesakes. -/
theorem Kin.namesakes (h : r₀.Kin I r r') (found : r.types.find? name = some t)
    (found' : r'.types.find? name = some t') : t.Namesakes t' := by
  rcases h.since.new name t found with before | ⟨named, -⟩
  · rw [h.since'.kept name t before] at found'
    obtain rfl := Option.some.inj found'
    rfl
  · rcases h.since'.new name t' found' with before | ⟨named', -⟩
    · rw [h.since.kept name t' before] at found
      obtain rfl := Option.some.inj found
      rfl
    · exact named'.trans named.symm

theorem instanceName_namesakes (template : Ty) {args args' : List Ty}
    (same : args.Forall₂ Ty.Namesakes args') :
    instanceName template args' = instanceName template args := by
  have names : args'.map (·.name) = args.map (·.name) := by
    induction same with
    | nil => rfl
    | cons head _ ih => rw [List.map_cons, List.map_cons, head, ih]
  rw [instanceName, instanceName, names]

theorem Kin.instantiateNamed (h : r₀.Kin I r r') (ordinary : r₀.Ordinary) {args args' : List Ty}
    (same : args.Forall₂ Ty.Namesakes args')
    (made : r.instantiateNamed name args = .ok (t, s)) :
    ∃ t' s', r'.instantiateNamed name args' = .ok (t', s') ∧ t.Namesakes t' ∧ r₀.Kin I s s' := by
  have adds := instantiateNamed_adds made
  have amends := instantiateNamed_amends (h.since.ordinary ordinary) made
  unfold Registry.instantiateNamed at made
  split at made
  · cases made
  rename_i template found
  unfold Registry.instantiate at made
  split at made
  · cases made
  rename_i is
  split at made
  · cases made
  rename_i few
  have is : template.isTemplate = true := by simpa using is
  -- a template is older than both registries, and so the same in both
  have found' : r'.types.find? name = some template :=
    h.since'.kept name template (h.since.template found is)
  have made' : r'.instantiateNamed name args' = .ok (r'.derive template (padArgs template args')) := by
    rw [Registry.instantiateNamed, found']
    simp only [Registry.instantiate, is, Bool.not_true, Bool.false_eq_true, if_false]
    rw [← same.length_eq, if_neg few]
  obtain ⟨rfl, rfl⟩ := Prod.mk.inj (Except.ok.inj made)
  have kin := h.instances amends (instantiateNamed_amends (h.since'.ordinary ordinary) made')
    adds.labels (instantiateNamed_adds made').labels
  refine ⟨_, _, made', ?_, kin⟩
  -- the instances need not be equal, but they are found under one name
  have padded : (padArgs template args).Forall₂ Ty.Namesakes (padArgs template args') := by
    rw [padArgs, padArgs, same.length_eq]
    exact List.rel_append same (List.forall₂_same.2 fun _ _ => rfl)
  have known' := derive_known r' template (padArgs template args')
  rw [instanceName_namesakes template padded] at known'
  exact kin.namesakes (derive_known r template (padArgs template args)) known'

/-! ### Other changes -/

theorem Kin.freshId (h : r₀.Kin I r r') :
    r₀.Kin (I.join r.nextId r'.nextId) r.freshId.2 r'.freshId.2 where
  below a b is := by
    rcases is with is | ⟨rfl, rfl⟩
    · obtain ⟨low, low'⟩ := h.below a b is
      exact ⟨Nat.lt_succ_of_lt low, Nat.lt_succ_of_lt low'⟩
    · exact ⟨Nat.lt_succ_self _, Nat.lt_succ_self _⟩
  apart a a' b b' is is' := by
    rcases is with is | ⟨rfl, rfl⟩ <;> rcases is' with is' | ⟨rfl, rfl⟩
    · exact h.apart a a' b b' is is'
    · obtain ⟨low, low'⟩ := h.below _ _ is
      exact ⟨fun same => absurd same (Nat.ne_of_lt low), fun same => absurd same (Nat.ne_of_lt low')⟩
    · obtain ⟨low, low'⟩ := h.below _ _ is'
      exact ⟨fun same => absurd same.symm (Nat.ne_of_lt low),
        fun same => absurd same.symm (Nat.ne_of_lt low')⟩
    · exact ⟨fun _ => rfl, fun _ => rfl⟩
  forms := h.forms
  labels := h.labels
  funcs := h.funcs
  since := ⟨h.since.kept, h.since.new⟩
  since' := ⟨h.since'.kept, h.since'.new⟩
  types := h.types

/-- A declared type is found, and is no template; other names mean what they did. -/
theorem Since.declared {supers : List Ty} {behavior : Behavior} (h : r₀.Since r)
    (made : r.declareType name supers behavior = .ok (t, s)) : r₀.Since s := by
  have grown := declareType_grown made
  obtain ⟨-, named, -, types⟩ := declareType_types made
  refine ⟨fun name t found => grown.types name t (h.kept name t found), fun other u found => ?_⟩
  rcases grown.templates other u found with before | plain
  · exact h.new other u before
  · rw [types, Dict.find?_insert] at found
    split at found
    · rename_i same
      obtain rfl := Option.some.inj found
      exact .inr ⟨named.trans same, plain⟩
    · exact h.new other u found

theorem Kin.declareType (h : r₀.Kin I r r') (settled : r₀.Settled name) {supers : List Ty}
    {behavior : Behavior} (made : r.declareType name supers behavior = .ok (t, s)) :
    ∃ t' s', r'.declareType name supers behavior = .ok (t', s') ∧ t.Namesakes t' ∧ r₀.Kin I s s' := by
  obtain ⟨free, named, -, types⟩ := declareType_types made
  -- only here it matters that the name does not look like that of an instance
  have free' : r'.types.find? name = none := by
    have both := h.types name settled
    rw [free] at both
    cases both' : r'.types.find? name with
    | none => rfl
    | some => rw [both'] at both; cases both
  obtain ⟨t', s', made'⟩ : ∃ t' s', r'.declareType name supers behavior = .ok (t', s') := by
    simp only [Registry.declareType, Dict.contains, free', Option.isSome_none, Bool.false_eq_true, if_false]
    exact ⟨_, _, rfl⟩
  obtain ⟨-, named', -, types'⟩ := declareType_types made'
  have same : t.Namesakes t' := named'.trans named.symm
  have gains := declareType_gains made
  have gains' := declareType_gains made'
  refine ⟨t', s', made', same, ?_⟩
  refine h.of_grown gains.grown gains'.grown gains.labels gains'.labels ?_ (h.since.declared made)
    (h.since'.declared made') fun other known => ?_
  · rw [declareType_funcs made, declareType_funcs made']
    exact h.funcs
  · rw [types, types', Dict.find?_insert, Dict.find?_insert]
    split
    · exact .some same
    · exact h.types other known

theorem Kin.addImp (h : r₀.Kin I r r') (name : String) (args args' : List Arg) (safety : Safety)
    (body body' : Body) :
    r₀.Kin I (r.addImp name args safety body).2 (r'.addImp name args' safety body').2 := by
  refine h.of_grown (addImp_grown r name args safety body) (addImp_grown r' name args' safety body')
    rfl rfl (fun other => ?_) ⟨h.since.kept, h.since.new⟩ ⟨h.since'.kept, h.since'.new⟩ h.types
  simp only [Registry.addImp, Registry.freshId, Dict.contains, Dict.find?_insert]
  split
  · rfl
  · exact h.funcs other

end Registry

/-! ## The same structures, declared twice -/

/-- The same structure, declared at another time. -/
structure Registry.Declared.Alike (d e : Declared) : Prop where
  type : d.type.Namesakes e.type
  fields : e.fields.map (·.1) = d.fields.map (·.1)

namespace Registry

theorem Declared.Alike.symm {d e : Declared} (h : d.Alike e) : e.Alike d :=
  ⟨h.type.symm, h.fields.symm⟩

/-- The functions of a structure go by the names of its fields. -/
theorem Declared.funcs_names (d : Declared) : d.funcs.map (·.1) =
    "new" :: (d.fields.map (·.1)).flatMap fun field => ["." ++ field, "." ++ field ++ "="] := by
  obtain ⟨t, fields⟩ := d
  have each : (fields.zipIdx.map (·.1)).flatMap (fun f => ["." ++ f.1, "." ++ f.1 ++ "="]) =
      fields.flatMap fun f => ["." ++ f.1, "." ++ f.1 ++ "="] := by
    rw [List.zipIdx_map_fst]
  rw [List.flatMap_map] at each ⊢
  rw [← each, Declared.funcs, Compile.structFuncs, List.map_cons, List.map_flatMap]
  rfl

theorem funcs_names_alike (alike : ds.Forall₂ Declared.Alike es) :
    (es.flatMap Declared.funcs).map (·.1) = (ds.flatMap Declared.funcs).map (·.1) := by
  induction alike with
  | nil => rfl
  | cons head _ ih =>
    simp only [List.flatMap_cons, List.map_append, ih, Declared.funcs_names, head.fields]

theorem addFuncs_contains (r : Registry) (fs : List (String × List Arg × Safety × Native))
    (name : String) : (r.addFuncs fs).funcs.contains name =
      (r.funcs.contains name || (fs.map (·.1)).contains name) := by
  induction fs generalizing r with
  | nil => simp [addFuncs]
  | cons f fs ih =>
    refine (ih _).trans ?_
    simp only [addImp, Registry.freshId, Dict.contains, Dict.find?_insert, List.map_cons,
      List.contains_cons]
    split
    · rename_i same
      simp [same]
    · rename_i other
      rw [beq_false_of_ne (Ne.symm other), Bool.false_or]

/-- The functions that are known afterwards were known before or belong to one of the structures. -/
theorem Amends.contains (h : Amends ds r s) (name : String) : s.funcs.contains name =
    (r.funcs.contains name || ((ds.flatMap Declared.funcs).map (·.1)).contains name) := by
  induction h with
  | refl => simp
  | freshId _ ih => exact ih
  | inst _ _ _ _ ih => exact ih
  | struct _ made ih =>
    rw [addFuncs_contains, declareType_funcs made, ih, Bool.or_assoc]
    simp only [List.flatMap_append, List.map_append, List.flatMap_singleton, List.contains_append]

theorem Amends.known_alike (made : Amends ds r s) (made' : Amends es r s')
    (alike : ∀ d ∈ ds, ∃ e ∈ es, d.Alike e) (settled : r.Settled name)
    (found : s.types.find? name = some t) : ∃ t', s'.types.find? name = some t' ∧ t.Namesakes t' := by
  rcases made.types found with before | ⟨generic, -, -⟩ | ⟨d, is, rfl, rfl⟩
  · exact ⟨t, made'.grown.types name t before, rfl⟩
  · rcases settled with plain | known
    · rw [plain] at generic
      cases generic
    · obtain ⟨u, known⟩ := Option.isSome_iff_exists.1 known
      obtain rfl := Option.some.inj ((made.grown.types name u known).symm.trans found)
      exact ⟨u, made'.grown.types name u known, rfl⟩
  · obtain ⟨e, is', like⟩ := alike d is
    exact ⟨e.type, like.type ▸ (made'.declared is').2.2, like.type⟩

/-- Registries that come of one by declaring the same structures cannot be told apart. -/
theorem Amends.kin (made : Amends ds r s) (made' : Amends es r s') (labels : s.labels = r.labels)
    (labels' : s'.labels = r.labels) (alike : ds.Forall₂ Declared.Alike es) :
    r.Kin (fun _ _ => False) s s' where
  below _ _ := False.elim
  apart _ _ _ _ := False.elim
  forms := ⟨made.grown.macros, made'.grown.macros⟩
  labels := labels'.trans labels.symm
  funcs name := by rw [made.contains, made'.contains, funcs_names_alike alike]
  since := (Since.refl r).amends made
  since' := (Since.refl r).amends made'
  types name settled := by
    have there : ∀ d ∈ ds, ∃ e ∈ es, d.Alike e := fun d is => by
      obtain ⟨⟨i, here⟩, rfl⟩ := List.get_of_mem is
      exact ⟨es.get ⟨i, alike.length_eq ▸ here⟩, List.get_mem _ _, alike.get _ _⟩
    have back : ∀ e ∈ es, ∃ d ∈ ds, e.Alike d := fun e is => by
      obtain ⟨⟨i, here⟩, rfl⟩ := List.get_of_mem is
      exact ⟨ds.get ⟨i, alike.length_eq ▸ here⟩, List.get_mem _ _, (alike.get _ _).symm⟩
    cases found : s.types.find? name with
    | some t =>
      obtain ⟨t', found', same⟩ := made.known_alike made' there settled found
      rw [found']
      exact .some same
    | none =>
      cases found' : s'.types.find? name with
      | none => exact .none
      | some t' =>
        obtain ⟨t, known, -⟩ := made'.known_alike made back settled found'
        rw [found] at known
        cases known

end Registry

/-! ## Compiling the same text again -/

/-- A keyword of the language stands for an operation without ids. -/
theorem keyword_like {ty : Ty → Ty → Prop} {word : String → Prop} {op : Op}
    (builtin : (name, Macro.word op) ∈ Macro.builtins) : op.Like ty word I op := by
  simp only [Macro.builtins, List.mem_cons, Prod.mk.injEq, Macro.word.injEq, List.not_mem_nil, or_false,
    reduceCtorEq, and_false, false_or] at builtin
  rcases builtin with ⟨-, rfl⟩ | ⟨-, rfl⟩ | ⟨-, rfl⟩ | ⟨-, rfl⟩ | ⟨-, rfl⟩ | ⟨-, rfl⟩ | ⟨-, rfl⟩
  · exact .push (.refl _)
  · exact .push (.refl _)
  · exact .push (.refl _)
  · exact .drop 1
  · exact .check .none
  · exact .for .none
  · exact .while .none

namespace Likeness

/-- Engines with a past in common: types correspond that have one name. -/
def since (r₀ : Registry) (ordinary : r₀.Ordinary) : Likeness where
  ty := Ty.Namesakes
  word := r₀.Settled
  macros := r₀.macros
  registry := r₀.Kin
  ty_refl _ := rfl
  ty_name := id
  word_plain := .inl
  apart h is is' := h.apart _ _ _ _ is is'
  forms h := h.forms
  keywords _ found := by
    rcases ordinary.standard _ _ found with builtin | ⟨take, host⟩
    · exact keyword_like builtin
    · cases host
  labels h := h.labels
  funcs h := h.funcs
  types h settled := h.types _ settled
  freshId h := h.freshId
  instantiateNamed h _ same made := h.instantiateNamed ordinary same made
  declareType h settled made := h.declareType settled made
  addImp name safety h _ _ := h.addImp name _ _ safety _ _

end Likeness

namespace Compile

/-- A text that compiles also does so on an engine with a past in common, if it declares no structure
under a name that looks like that of an instance. -/
theorem source_since {u u' : Shared} {text : String} {base : Nat} {code : Code} {d : Compiler}
    (ordinary : r₀.Ordinary) (kin : r₀.Kin I u.registry u'.registry) (config : u'.config = u.config)
    (ok : source text base { shared := u } = .ok code d)
    (plain : ∀ name t, d.shared.registry.types.find? name = some t → t.template = none →
      r₀.Settled name) : ∃ code' d', source text base { shared := u' } = .ok code' d' := by
  let L := Likeness.since r₀ ordinary
  have begun : L.State I { shared := u } { shared := u' } := ⟨kin, config, .nil, .nil, .nil⟩
  have read (ts : List Token) (h : Token.scan 0 text.toList = .ok ts) :
      ∃ ts', Token.scan 0 text.toList = .ok ts' ∧ Alike (formOf L.macros) ts ts' :=
    ⟨ts, h, .same (Token.SameTexts.refl ts)⟩
  obtain ⟨ops, e, made, free⟩ := unplaced_of_source ok
  obtain ⟨d', placing, registry, -⟩ := source_placed made free
  obtain ⟨-, rfl⟩ := EStateM.Result.ok.inj (placing.symm.trans ok)
  have nice : L.Plain e.shared.registry := fun name t found => plain name t (by rwa [registry])
  obtain ⟨J, ops', e', -, made', state, likes⟩ := Likeness.unplaced read (Nat.le_refl _) base base _ _ _ _
    begun made nice
  have free' : e'.shared.registry.checkLabels (namedLabels ops') = .ok () := by
    rw [Likeness.namedLabels_eq likes, ← free, Registry.checkLabels, Registry.checkLabels,
      L.labels state.registry]
  obtain ⟨e'', placing', -, -⟩ := source_placed made' free'
  exact ⟨_, e'', placing'⟩

end Compile

namespace Run

variable {m n : Machine} {text : String}

/-- What a unit defines becomes known. -/
def finish (code : Code) (base : Nat) : Run Nat := do
  defineFuncs code.funcs
  defineConvs code.convs
  let (id, size) ← ask fun t => (t.id, t.ops.size)
  note .debug fun _ => s!"thread {id} now has {size} ops"
  return base

/-- Definitions become known without fail, and nothing is forgotten. -/
theorem finish_ok (code : Code) (base : Nat) (m : Machine) :
    ∃ n, finish code base m = .ok base n ∧ m.shared.registry.Grown n.shared.registry := by
  have convs (cs : List PendingConv) (m : Machine) : ∃ n, defineConvs cs m = .ok () n := by
    induction cs generalizing m with
    | nil => exact ⟨m, rfl⟩
    | cons c cs ih => exact ih _
  have funcs (fs : List PendingFunc) (m : Machine) : ∃ n, defineFuncs fs m = .ok () n := by
    induction fs generalizing m with
    | nil => exact ⟨m, rfl⟩
    | cons f fs ih => exact ih _
  have makes : Makes (Deeds False) (finish code base) :=
    (makes_defineFuncs _).bind fun _ => (makes_defineConvs _).bind fun _ => (Makes.ask _).bind fun _ =>
      (makes_note _ _).bind fun _ => .pure _
  obtain ⟨m₁, first⟩ := funcs code.funcs m
  obtain ⟨m₂, second⟩ := convs code.convs m₁
  obtain ⟨n, done⟩ : ∃ n, finish code base m = .ok base n := by
    unfold finish
    rw [bind_apply, first]
    dsimp only
    rw [bind_apply, second]
    exact ⟨_, rfl⟩
  exact ⟨n, done, after_ok done ▸ (makes m).changes.grown⟩

theorem compile_eq (text : String) (m : Machine) : compile text m =
    match Compile.source text m.thread.ops.size { shared := m.shared } with
    | .ok code c => finish code m.thread.ops.size
        { shared := c.shared, thread := { m.thread with ops := m.thread.ops ++ code.ops.toArray } }
    | .error e c => .error e { m with shared := c.shared } := by
  unfold compile
  rw [bind_apply, ask]
  dsimp only
  rw [bind_apply, compileAt]
  cases Compile.source text m.thread.ops.size { shared := m.shared } <;> rfl

theorem compile_ok {base : Nat} (ok : compile text m = .ok base n) :
    ∃ code d, Compile.source text m.thread.ops.size { shared := m.shared } = .ok code d ∧
      d.shared.registry.Grown n.shared.registry := by
  rw [compile_eq] at ok
  split at ok
  · rename_i code d made
    obtain ⟨n', done, grown⟩ := finish_ok code m.thread.ops.size
      { shared := d.shared, thread := { m.thread with ops := m.thread.ops ++ code.ops.toArray } }
    obtain ⟨-, rfl⟩ := EStateM.Result.ok.inj (done.symm.trans ok)
    exact ⟨code, d, made, grown⟩
  · cases ok

end Run

/-! ## Engines -/

variable {m n p : Machine} {text : String}

theorem Reached.ordinary {kind : Watch → Prop} (h : Reached kind m) : m.shared.registry.Ordinary := by
  refine h.keeps (I := fun m => m.shared.registry.Ordinary) (fun impossible : False => impossible.elim)
    (fun config log host => ?_) (fun _ _ ordinary => ordinary) fun _ _ changes => changes.grown.ordinary
  exact (new_drift config log host).registry.ordinary
    ⟨bootRegistry_standard, Registry.bootRegistry_lettered⟩

/-- Whether no structure among the types has a name that looks like that of an instance. -/
def Registry.hasPlainNames (r : Registry) : Bool :=
  r.types.entries.all fun e => e.2.template.isSome || !TypeExpr.looksGeneric e.1

namespace Machine

/-- The text compiles. -/
def Compiles (text : String) (m : Machine) : Prop :=
  ∃ base n, Run.compile text m = .ok base n

theorem compiles_iff : m.Compiles text ↔ ((Run.compile text).answer? m).isSome = true := by
  constructor
  · rintro ⟨base, n, ok⟩
    simp only [Run.answer?, ok, Option.isSome_some]
  · intro answers
    obtain ⟨base, answers⟩ := Option.isSome_iff_exists.1 answers
    exact ⟨base, _, Run.answer?_eq_some answers⟩

instance : Decidable (m.Compiles text) := decidable_of_iff _ compiles_iff.symm

/-- To compile the text makes no structure known whose name looks like that of an instance, except
for names that were known to the registry. -/
def NamesPlainly (text : String) (r₀ : Registry) (m : Machine) : Prop :=
  ∀ name t, ((Run.compile text).after m).shared.registry.types.find? name = some t →
    t.template = none → r₀.Settled name

/-- A text without braces that can be read does not say a word that is none of its own. -/
theorem not_says {word : String} (plain : (Token.scan 0 text.toList).toOption.all fun ts =>
    ts.all fun t => t.text != word && !t.isBrace) : ¬ Says text word := by
  rintro ⟨ts, scanned, t, member, said⟩
  rw [scanned] at plain
  have other := List.all_eq_true.1 plain t member
  cases said with
  | itself same => simp [same] at other
  | inside brace => simp [brace] at other

theorem namesPlainly_of {r₀ : Registry}
    (h : ((Run.compile text).after m).shared.registry.hasPlainNames = true) : m.NamesPlainly text r₀ := by
  intro name t found alone
  have plain := List.all_eq_true.1 h _ (Dict.All.lookup_mem found)
  simp only [alone, Option.isSome_none, Bool.false_or, Bool.not_eq_eq_eq_not, Bool.not_true] at plain
  exact .inl plain

/-- One machine comes of the other by declaring these structures: its registry differs by them and by
ids and instances, and the rest is as it was. -/
structure Declares (ds : List Declared) (m n : Machine) : Prop where
  thread : n.thread = m.thread
  config : n.shared.config = m.shared.config
  store : n.shared.store = m.shared.store
  convs : n.shared.registry.convs = m.shared.registry.convs
  labels : n.shared.registry.labels = m.shared.registry.labels
  amends : Amends ds m.shared.registry n.shared.registry

theorem Declares.refl (m : Machine) : m.Declares [] m := ⟨rfl, rfl, rfl, rfl, rfl, .refl _⟩

/-- What compiles on a machine compiles on one with the same structures. -/
theorem Compiles.alike (ordinary : m.shared.registry.Ordinary) (here : m.Declares ds n)
    (there : m.Declares es p) (alike : ds.Forall₂ Declared.Alike es)
    (plain : n.NamesPlainly text m.shared.registry) (ok : n.Compiles text) : p.Compiles text := by
  obtain ⟨base, n', ok⟩ := ok
  obtain ⟨code, d, made, grown⟩ := Run.compile_ok ok
  have kin := here.amends.kin there.amends here.labels there.labels alike
  have same : p.thread = n.thread := there.thread.trans here.thread.symm
  obtain ⟨code', d', made'⟩ : ∃ code' d',
      Compile.source text p.thread.ops.size { shared := p.shared } = .ok code' d' := by
    rw [same]
    exact Compile.source_since ordinary kin (there.config.trans here.config.symm) made
      fun name t found => plain name t (Run.after_ok ok ▸ grown.types name t found)
  obtain ⟨n'', done, -⟩ := Run.finish_ok code' p.thread.ops.size
    { shared := d'.shared, thread := { p.thread with ops := p.thread.ops ++ code'.ops.toArray } }
  refine ⟨p.thread.ops.size, n'', ?_⟩
  rw [Run.compile_eq, made']
  exact done

/-- When a text does not compile, the machine has declared the structures whose forms were complete
before the fault, which the text names after the word `struct:`, and nothing else is different but ids
and instances. A text compiles afterwards if and only if it would have compiled with nothing but the
same structures declared, as long as none takes the name of an instance. The registries of all engines
are ordinary (`Reached.ordinary`). -/
theorem failed_compile {e : Halt} (ordinary : m.shared.registry.Ordinary)
    (failed : Run.compile text m = .error e n) : ∃ ds, m.Declares ds n ∧
      (∀ d ∈ ds, Says text "struct:" ∧ Says text d.type.name) ∧
      (∀ name t, t.template = none → (n.shared.registry.types.find? name = some t ↔
        m.shared.registry.types.find? name = some t ∨ ∃ d ∈ ds, d.type = t ∧ t.name = name)) ∧
      (∀ name, ∃ new, n.shared.registry.overloads name = new ++ m.shared.registry.overloads name ∧
        new.Forall₂ Registry.Implements (Registry.named name (ds.flatMap Declared.funcs))) ∧
      ∀ p es other, m.Declares es p → ds.Forall₂ Declared.Alike es →
        n.NamesPlainly other m.shared.registry → p.NamesPlainly other m.shared.registry →
        (n.Compiles other ↔ p.Compiles other) := by
  obtain ⟨d, made, rfl⟩ : ∃ d, Compile.source text m.thread.ops.size { shared := m.shared } = .error e d ∧
      { m with shared := d.shared } = n := by
    rw [Run.compile_eq] at failed
    split at failed
    · rename_i code d made
      obtain ⟨n', done, -⟩ := Run.finish_ok code m.thread.ops.size
        { shared := d.shared, thread := { m.thread with ops := m.thread.ops ++ code.ops.toArray } }
      cases done.symm.trans failed
    · rename_i made
      cases failed
      exact ⟨_, made, rfl⟩
  obtain ⟨gains, ds, amends, said⟩ := Compile.source_amends ordinary made
  have declares : m.Declares ds { m with shared := d.shared } :=
    ⟨rfl, gains.config, gains.store, gains.registry.convs, gains.registry.labels, amends⟩
  refine ⟨ds, declares, said, fun name t => amends.types_iff, amends.overloads, ?_⟩
  intro p es other declares' alike plain plain'
  have back : es.Forall₂ Declared.Alike ds := alike.flip.imp fun _ _ h => h.symm
  exact ⟨fun ok => ok.alike ordinary declares declares' alike plain,
    fun ok => ok.alike ordinary declares' declares back plain'⟩

/-- A new machine on which a form was complete before the fault. -/
def declared : Machine :=
  (Run.compile "struct: P x ; )").after (Engine.new {} .silent {})

/-- A new machine on which an instance was made before the fault. -/
def instanced : Machine :=
  (Run.compile "func: f (List<I64>) 1").after (Engine.new {} .silent {})

theorem failed_compile_declares :
    (¬ (Engine.new {} .silent {}).Compiles "struct: P x ; )" ∧
      (Engine.new {} .silent {}).shared.registry.types.contains "P" = false ∧
      declared.shared.registry.types.contains "P" = true ∧
      (Engine.new {} .silent {}).Compiles "struct: P x ;" ∧ ¬ declared.Compiles "struct: P x ;") ∧
    ¬ (Engine.new {} .silent {}).Compiles "func: f (List<I64>) 1" ∧
      (Engine.new {} .silent {}).Compiles "struct: List<I64> ;" ∧
      ¬ instanced.Compiles "struct: List<I64> ;" := by
  decide +kernel

theorem failed_compile_instanced :
    instanced.shared.registry.types.contains "List<I64>" = true ∧
      (Engine.new {} .silent {}).shared.registry.types.contains "List<I64>" = false ∧
      instanced.Compiles "func: f (List<I64>) 1 ;" := by
  refine ⟨by decide +kernel, by decide +kernel, ?_⟩
  have reached : Reached anyWatch (Engine.new {} .silent {}) := .new ..
  obtain ⟨e, n, failed⟩ : ∃ e n, Run.compile "func: f (List<I64>) 1" (Engine.new {} .silent {}) = .error e n := by
    have fails : ¬ (Engine.new {} .silent {}).Compiles "func: f (List<I64>) 1" := by decide +kernel
    cases ran : Run.compile "func: f (List<I64>) 1" (Engine.new {} .silent {}) with
    | ok a n => exact absurd ⟨a, n, ran⟩ fails
    | error e n => exact ⟨e, n, rfl⟩
  have ends : instanced = n := Run.after_error failed
  have unsaid : ¬ Says "func: f (List<I64>) 1" "struct:" := not_says (by decide +kernel)
  obtain ⟨ds, -, said, -, -, agree⟩ := failed_compile reached.ordinary failed
  have none : ds = [] := List.eq_nil_iff_forall_not_mem.2 fun d is => unsaid (said d is).1
  subst none
  have plain : n.NamesPlainly "func: f (List<I64>) 1 ;" (Engine.new {} .silent {}).shared.registry :=
    ends ▸ namesPlainly_of (by decide +kernel)
  rw [ends, agree _ [] "func: f (List<I64>) 1 ;" (.refl _) .nil plain (namesPlainly_of (by decide +kernel))]
  decide +kernel

end Machine

end Catena
