import Catena.Proofs.Compiling.Settle
import Catena.Proofs.Layout.Words
import Catena.Proofs.Types.Instance

/-!
# What a compilation does to the registry

A compilation takes ids and remembers instances of generic types, and each structure form that it
completes declares a type and its functions. Nothing else in the registry changes, whether it succeeds
or not, and a structure is declared only by a text that says `struct:` (`source_amends`).
-/

namespace Catena

/-! ## Names of instances -/

/-- Whether the name begins with a letter. -/
def Ty.isLettered (t : Ty) : Bool :=
  t.name.toList.head?.any Text.isAlphabetic

/-- The name of an instance looks like one. -/
theorem looksGeneric_instance {template : Ty} (lettered : template.isLettered = true) (args : List Ty) :
    TypeExpr.looksGeneric (Registry.instanceName template args) = true := by
  obtain ⟨c, begins, letter⟩ := (Option.any_eq_true ..).1 lettered
  obtain ⟨cs, split⟩ := List.head?_eq_some_iff.1 begins
  have text : (Registry.instanceName template args).toList =
      c :: (cs ++ '<' :: (String.intercalate "," (args.map (·.name))).toList ++ ['>']) := by
    simp [Registry.instanceName, split]
  simp only [TypeExpr.looksGeneric, text, letter, Bool.true_and, Bool.and_eq_true, beq_iff_eq]
  constructor
  · simp
  · rw [← List.cons_append, List.getLast?_concat]

namespace Registry

/-- The templates have names that begin with a letter. -/
def Lettered (r : Registry) : Prop :=
  ∀ name t, r.types.find? name = some t → t.isTemplate = true → t.isLettered = true

/-- What the registries of all engines have in common: the forms are the built-in ones and those of
the embedding program, and the names of the templates begin with letters. -/
structure Ordinary (r : Registry) : Prop where
  standard : r.Standard
  lettered : r.Lettered

theorem Grown.ordinary {r s : Registry} (h : r.Grown s) (ordinary : r.Ordinary) : s.Ordinary := by
  refine ⟨h.standard ordinary.standard, fun name t found is => ?_⟩
  rcases h.templates name t found with before | plain
  · exact ordinary.lettered name t before is
  · rw [plain] at is
    cases is

theorem bootRegistry_lettered : Engine.bootRegistry.Lettered := by
  intro name t found is
  have letters : ∀ t ∈ Ty.builtins, t.isTemplate = true → t.isLettered = true := by decide +kernel
  rcases Sound.find?_addTypes Sound.names_nodup {} found with ⟨built, -⟩ | none
  · exact letters t built is
  · cases none

/-! ## Changes -/

/-- Functions are added, one after the other. -/
def addFuncs (r : Registry) (fs : List (String × List Arg × Safety × Native)) : Registry :=
  fs.foldl (fun r f => (r.addImp f.1 f.2.1 f.2.2.1 (.native f.2.2.2)).2) r

/-- A structure type with its fields. -/
structure Declared where
  type : Ty
  fields : List (String × Ty)

/-- The functions that belong to the structure. -/
def Declared.funcs (d : Declared) : List (String × List Arg × Safety × Native) :=
  Compile.structFuncs d.type d.fields

/-- What comes of a registry in a compilation that declares these structures: ids are taken, instances
remembered, and a structure type is declared together with its functions. -/
inductive Amends : List Declared → Registry → Registry → Prop
  | refl (r : Registry) : Amends [] r r
  | freshId {ds : List Declared} {r s : Registry} : Amends ds r s → Amends ds r s.freshId.2
  | inst {ds : List Declared} {r s : Registry} {template : Ty} {args : List Ty} (above : List Ty) :
      Amends ds r s → TypeExpr.looksGeneric (instanceName template args) = true →
      s.types.find? (instanceName template args) = none →
      Amends ds r (s.addInstance template args above).2
  | struct {ds : List Declared} {r s s' : Registry} {name : String} {fields : List (String × Ty)} {t : Ty} :
      Amends ds r s →
      s.declareType name [.struct] (.record name (fields.map (·.1))) = .ok (t, s') →
      Amends (ds ++ [⟨t, fields⟩]) r (s'.addFuncs (Declared.funcs ⟨t, fields⟩))

variable {ds es : List Declared} {r s t : Registry}

theorem Amends.trans (h : Amends ds r s) (k : Amends es s t) : Amends (ds ++ es) r t := by
  induction k with
  | refl => rwa [List.append_nil]
  | freshId _ ih => exact (ih h).freshId
  | inst above _ generic fresh ih => exact (ih h).inst above generic fresh
  | struct _ made ih =>
    rw [← List.append_assoc]
    exact (ih h).struct made

theorem addFuncs_grown (r : Registry) (fs : List (String × List Arg × Safety × Native)) :
    r.Grown (r.addFuncs fs) := by
  induction fs generalizing r with
  | nil => exact .refl r
  | cons f fs ih => exact (addImp_grown r _ _ _ _).trans (ih _)

theorem Amends.grown (h : Amends ds r s) : r.Grown s := by
  induction h with
  | refl r => exact .refl r
  | freshId _ ih => exact ih.trans (freshId_grown _)
  | inst above _ _ fresh ih => exact ih.trans (addInstance_grown above fresh)
  | struct _ made ih => exact (ih.trans (declareType_grown made)).trans (addFuncs_grown _ _)

/-! ## What is known afterwards -/

theorem addFuncs_types (r : Registry) (fs : List (String × List Arg × Safety × Native)) :
    (r.addFuncs fs).types = r.types := by
  induction fs generalizing r with
  | nil => rfl
  | cons f fs ih => exact ih _

theorem declareType_types {name : String} {supers : List Ty} {behavior : Behavior} {u : Ty}
    (made : r.declareType name supers behavior = .ok (u, s)) : r.types.find? name = none ∧
      u.name = name ∧ u.template = none ∧ s.types = r.types.insert name u := by
  unfold declareType at made
  split at made
  · cases made
  · rename_i free
    obtain ⟨rfl, rfl⟩ := Prod.mk.inj (Except.ok.inj made)
    exact ⟨by simpa [Dict.contains] using free, rfl, rfl, rfl⟩

theorem declareType_funcs {name : String} {supers : List Ty} {behavior : Behavior} {u : Ty}
    (made : r.declareType name supers behavior = .ok (u, s)) : s.funcs = r.funcs := by
  unfold declareType at made
  split at made
  · cases made
  · obtain ⟨-, rfl⟩ := Prod.mk.inj (Except.ok.inj made)
    rfl

/-- What is known afterwards was known before, is an instance, or is one of the structure types. -/
theorem Amends.types (h : Amends ds r s) {name : String} {u : Ty} (found : s.types.find? name = some u) :
    r.types.find? name = some u ∨
      (TypeExpr.looksGeneric name = true ∧ u.template ≠ none ∧ u.name = name) ∨
      ∃ d ∈ ds, d.type = u ∧ u.name = name := by
  induction h with
  | refl => exact .inl found
  | freshId _ ih => exact ih found
  | inst above _ generic fresh ih =>
    simp only [addInstance, Registry.freshId, addType, Dict.find?_insert] at found
    split at found
    · rename_i same
      obtain rfl := Option.some.inj found
      exact .inr (.inl ⟨same ▸ generic, Option.some_ne_none _, same⟩)
    · exact ih found
  | struct _ made ih =>
    obtain ⟨-, named, -, types⟩ := declareType_types made
    rw [addFuncs_types, types, Dict.find?_insert] at found
    split at found
    · rename_i same
      obtain rfl := Option.some.inj found
      exact .inr (.inr ⟨_, List.mem_append_right _ List.mem_cons_self, rfl, named.trans same⟩)
    · refine (ih found).imp_right (.imp_right ?_)
      rintro ⟨d, is, same⟩
      exact ⟨d, List.mem_append_left _ is, same⟩

/-- A structure type is declared under a free name, and is known under it from then on. -/
theorem Amends.declared (h : Amends ds r s) {d : Declared} (is : d ∈ ds) :
    d.type.template = none ∧ r.types.find? d.type.name = none ∧
      s.types.find? d.type.name = some d.type := by
  induction h with
  | refl => cases is
  | freshId _ ih => exact ih is
  | inst above _ _ fresh ih =>
    obtain ⟨alone, free, known⟩ := ih is
    exact ⟨alone, free, (addInstance_grown above fresh).types _ _ known⟩
  | @struct _ r s s' name fields u before made ih =>
    obtain ⟨free, named, alone, types⟩ := declareType_types made
    rcases List.mem_append.1 is with is | new
    · obtain ⟨alone, free, known⟩ := ih is
      refine ⟨alone, free, ?_⟩
      rw [addFuncs_types]
      exact (declareType_grown made).types _ _ known
    · obtain rfl := List.mem_singleton.1 new
      refine ⟨alone, ?_, ?_⟩
      · cases known : r.types.find? u.name with
        | none => rfl
        | some v =>
          have later := before.grown.types _ _ known
          rw [named, free] at later
          cases later
      · rw [addFuncs_types, types, Dict.find?_insert, if_pos named.symm]

/-- The types that stand on their own are those that did so before, and the structure types. -/
theorem Amends.types_iff (h : Amends ds r s) {name : String} {u : Ty} (alone : u.template = none) :
    s.types.find? name = some u ↔
      r.types.find? name = some u ∨ ∃ d ∈ ds, d.type = u ∧ u.name = name := by
  constructor
  · intro found
    rcases h.types found with before | ⟨-, made, -⟩ | declared
    · exact .inl before
    · exact absurd alone made
    · exact .inr declared
  · rintro (before | ⟨d, is, rfl, rfl⟩)
    · exact h.grown.types name u before
    · exact (h.declared is).2.2

/-- The implementations of a function, newest first. -/
def overloads (r : Registry) (name : String) : List Imp :=
  (r.funcs.find? name).getD []

/-- The implementation is that of the library function. -/
structure Implements (imp : Imp) (f : String × List Arg × Safety × Native) : Prop where
  name : imp.name = f.1
  args : imp.args = f.2.1
  safety : imp.safety = f.2.2.1
  body : imp.body = .native f.2.2.2

theorem overloads_addImp (r : Registry) (name : String) (args : List Arg) (safety : Safety)
    (body : Body) (other : String) : (r.addImp name args safety body).2.overloads other =
      if name = other then (r.addImp name args safety body).1 :: r.overloads other
      else r.overloads other := by
  simp only [overloads, addImp, Registry.freshId, Dict.find?_insert]
  split
  · rename_i same
    rw [same]
    rfl
  · rfl

/-- The functions of one name, newest first. -/
def named (name : String) (fs : List (String × List Arg × Safety × Native)) :
    List (String × List Arg × Safety × Native) :=
  (fs.filter fun f => f.1 == name).reverse

theorem overloads_addFuncs (r : Registry) (fs : List (String × List Arg × Safety × Native))
    (name : String) : ∃ new, (r.addFuncs fs).overloads name = new ++ r.overloads name ∧
      new.Forall₂ Implements (named name fs) := by
  induction fs generalizing r with
  | nil => exact ⟨[], rfl, .nil⟩
  | cons f fs ih =>
    obtain ⟨new, added, like⟩ := ih (r.addImp f.1 f.2.1 f.2.2.1 (.native f.2.2.2)).2
    rw [overloads_addImp] at added
    -- later functions come to stand before the implementation added first
    by_cases same : f.1 = name
    · rw [if_pos same] at added
      refine ⟨new ++ [_], added.trans (List.append_cons ..), ?_⟩
      have here : named name (f :: fs) = named name fs ++ [f] := by simp [named, same]
      rw [here]
      exact List.rel_append like (.cons ⟨rfl, rfl, rfl, rfl⟩ .nil)
    · rw [if_neg same] at added
      refine ⟨new, added, ?_⟩
      have there : named name (f :: fs) = named name fs := by simp [named, same]
      rwa [there]

theorem named_concat (name : String) (ds : List Declared) (d : Declared) :
    named name ((ds ++ [d]).flatMap Declared.funcs) =
      named name d.funcs ++ named name (ds.flatMap Declared.funcs) := by
  simp [named]

/-- Each function has gained the implementations that belong to the structures, and no others. -/
theorem Amends.overloads (h : Amends ds r s) (name : String) :
    ∃ new, s.overloads name = new ++ r.overloads name ∧ new.Forall₂ Implements
      (named name (ds.flatMap Declared.funcs)) := by
  induction h with
  | refl => exact ⟨[], rfl, .nil⟩
  | freshId _ ih => exact ih
  | inst _ _ _ _ ih => exact ih
  | @struct ds r s s' _ fields u _ made ih =>
    obtain ⟨new, before, like⟩ := ih
    obtain ⟨newer, added, like'⟩ := overloads_addFuncs s' (Declared.funcs ⟨u, fields⟩) name
    have same : s'.overloads name = s.overloads name := by
      rw [Registry.overloads, Registry.overloads, declareType_funcs made]
    refine ⟨newer ++ new, by rw [added, same, before, List.append_assoc], ?_⟩
    rw [named_concat]
    exact List.rel_append like' like

/-- Without structures no function changes. -/
theorem Amends.funcs (h : Amends [] r s) : s.funcs = r.funcs := by
  generalize none : ([] : List Declared) = ds at h
  induction h with
  | refl => rfl
  | freshId _ ih => exact ih none
  | inst _ _ _ _ ih => exact ih none
  | struct => exact absurd none (List.append_ne_nil_of_right_ne_nil _ (by simp)).symm

/-! ## Instances -/

variable {template : Ty} {args : List Ty}

theorem deriveWith_amends (lettered : template.isLettered = true) (r : Registry) (args above : List Ty) :
    Amends [] r (r.deriveWith template args above).2 := by
  unfold deriveWith
  split
  · exact .refl r
  · rename_i fresh
    exact (Amends.refl r).inst above (looksGeneric_instance lettered args) fresh

theorem derive_amends (lettered : template.isLettered = true) (r : Registry) (args : List Ty) :
    Amends [] r (r.derive template args).2 := by
  have seq : Ty.seq.isLettered = true := by decide
  have pair : Ty.pair.isLettered = true := by decide
  have generic := looksGeneric_instance lettered args
  unfold derive
  split
  · exact .refl r
  rename_i fresh
  split
  · rename_i named
    refine (deriveWith_amends seq r _ _).inst _ generic (deriveWith_other ?_ fresh)
    simp only [Bool.or_eq_true, beq_iff_eq] at named
    rcases named with named | named <;>
      exact instanceName_ne _ _ rfl (congrArg String.toList named) (by decide)
  split
  · rename_i named
    have named := congrArg String.toList (beq_iff_eq.1 named)
    have fresh : (r.derivePair (args.take 2)).2.types.find? (instanceName template args) = none :=
      deriveWith_other (instanceName_ne _ args rfl named (by decide)) fresh
    exact ((deriveWith_amends pair r _ _).trans (deriveWith_amends seq _ _ _)).inst _ generic
      (deriveWith_other (instanceName_ne _ args rfl named (by decide)) fresh)
  split
  · exact deriveWith_amends pair r _ _
  · exact (Amends.refl r).inst _ generic fresh

theorem instantiateNamed_amends {name : String} {u : Ty} (lettered : r.Lettered)
    (made : r.instantiateNamed name args = .ok (u, s)) : Amends [] r s := by
  unfold instantiateNamed at made
  split at made
  · cases made
  rename_i template found
  unfold instantiate at made
  split at made
  · cases made
  rename_i is
  split at made
  · cases made
  · obtain ⟨-, rfl⟩ := Prod.mk.inj (Except.ok.inj made)
    exact derive_amends (lettered name template found (by simpa using is)) r _

end Registry

open Registry (Amends)

namespace TypeExpr

mutual

theorem resolve_amends {r : Registry} (ordinary : r.Ordinary) : (e : TypeExpr) →
    Amends [] r (e.resolve r).2
  | named name => by
    rw [resolve]
    split <;> exact .refl r
  | generic name args => by
    have each := resolveEach_amends ordinary args
    rw [resolve]
    split
    · rename_i h
      rwa [h] at each
    · rename_i h
      rw [h] at each
      split
      · rename_i made
        exact each.trans (Registry.instantiateNamed_amends (each.grown.ordinary ordinary).lettered made)
      · exact each
  | same n => .refl r
  | argOf n k => .refl r

theorem resolveEach_amends {r : Registry} (ordinary : r.Ordinary) : (es : List TypeExpr) →
    Amends [] r (resolveEach r es).2
  | [] => .refl r
  | e :: es => by
    have first := resolve_amends ordinary e
    rw [resolveEach]
    split
    · rename_i h
      rwa [h] at first
    · rename_i r' h
      rw [h] at first
      have rest := resolveEach_amends (first.grown.ordinary ordinary) es
      split <;>
      · rename_i h'
        rw [h'] at rest
        exact first.trans rest

end

theorem toArg_amends {r : Registry} (ordinary : r.Ordinary) (e : TypeExpr) :
    Amends [] r (e.toArg r).2 := by
  unfold toArg
  split
  · exact .refl r
  · exact .refl r
  · have resolved := resolve_amends ordinary e
    split <;>
    · rename_i h
      rwa [h] at resolved

end TypeExpr

/-! ## Steps of a compilation -/

namespace Compile

open Registry (Declared)

variable {α β : Type} {known : String → Prop} {P : α → Prop} {Q : β → Prop} {x : Compile α}

/-- A structure was declared by a source that says these words. -/
def Said (known : String → Prop) (d : Declared) : Prop :=
  known "struct:" ∧ known d.type.name

/-- However the step ends, the registry comes to differ only by what a compilation does, and a
structure is declared only if the words for it are there. What the step answers is as told. -/
def Amending (known : String → Prop) (P : α → Prop) (x : Compile α) : Prop :=
  ∀ c, c.shared.registry.Ordinary →
    (∃ ds, Amends ds c.shared.registry (after x c).shared.registry ∧ ∀ d ∈ ds, Said known d) ∧
      ∀ a d, x c = .ok a d → P a

theorem Amending.bind {k : α → Compile β} (hx : Amending known P x)
    (hk : ∀ a, P a → Amending known Q (k a)) : Amending known Q (x >>= k) := by
  intro c ordinary
  obtain ⟨⟨ds, first, said⟩, told⟩ := hx c ordinary
  rw [after_bind]
  simp only [Bind.bind, EStateM.bind]
  rw [after] at first
  cases ran : x c with
  | error e d =>
    rw [ran] at first
    exact ⟨⟨ds, first, said⟩, fun _ _ is => by cases is⟩
  | ok a d =>
    rw [ran] at first
    obtain ⟨⟨es, second, said'⟩, told'⟩ := hk a (told a d ran) d (first.grown.ordinary ordinary)
    refine ⟨⟨ds ++ es, first.trans second, fun e is => ?_⟩, told'⟩
    exact (List.mem_append.1 is).elim (said e) (said' e)

/-- A step that leaves the registry as it is. -/
theorem Amending.still (same : ∀ c, (after x c).shared.registry = c.shared.registry)
    (told : ∀ c a d, x c = .ok a d → P a) : Amending known P x := by
  intro c _
  refine ⟨⟨[], ?_, nofun⟩, told c⟩
  rw [same]
  exact .refl _

theorem Amending.pure {a : α} (h : P a) : Amending known P (Pure.pure a) :=
  .still (fun _ => rfl) fun _ _ _ ok => by cases ok; exact h

theorem Amending.fail (f : Fault) : Amending known P (Compile.fail f : Compile α) :=
  .still (fun _ => rfl) fun _ _ _ failed => by cases failed

theorem Amending.refuse {refused : Prop} [Decidable refused] {f : Fault} {k : Unit → Compile α}
    (hk : Amending known P (k ())) :
    Amending known P (if refused then Compile.fail f >>= k else k ()) := by
  split
  · exact (Amending.fail (P := fun _ => True) f).bind fun _ _ => hk
  · exact hk

theorem Amending.ofExcept {e : Except Fault α} (h : ∀ a, e = .ok a → P a) :
    Amending known P (Compile.ofExcept e) := by
  cases e with
  | ok a => exact .pure (h a rfl)
  | error f => exact .fail f

theorem Amending.located (pos : Nat) (hx : Amending known P x) :
    Amending known P (Compile.located pos x) := by
  intro c ordinary
  rw [after_located]
  exact ⟨(hx c ordinary).1, fun a d ok => (hx c ordinary).2 a d (located_ok ok)⟩

theorem Amending.mapM {f : α → Compile β} (h : ∀ a, Amending known (fun _ => True) (f a))
    (xs : List α) : Amending known (fun _ => True) (xs.mapM f) := by
  induction xs with
  | nil => rw [List.mapM_nil]; exact .pure trivial
  | cons x xs ih =>
    rw [List.mapM_cons]
    exact (h x).bind fun _ _ => ih.bind fun _ _ => .pure trivial

theorem amends_freshId : Amending known (fun _ => True) freshId := fun _ _ =>
  ⟨⟨[], (Amends.refl _).freshId, nofun⟩, fun _ _ _ => trivial⟩

theorem amends_note (phase : Phase) (level : Log.Level) (message : Unit → String) :
    Amending known (fun _ => True) (note phase level message) :=
  .still (fun _ => Run.note_registry _ _ _ _ _) fun _ _ _ _ => trivial

theorem amends_emit (op : Op) : Amending known (fun _ => True) (emit op) := by
  refine .still (fun c => ?_) fun _ _ _ _ => trivial
  exact Run.note_registry c.shared .trace Phase.compiler.target
    (fun _ => s!"emit {c.shared.store.opText op}") none

theorem amends_tokens {text : String} {offset : Nat}
    (h : ∀ ts, Token.scan offset text.toList = .ok ts → Token.Within known ts) :
    Amending known (Token.Within known) (tokens text offset) :=
  (amends_note _ _ _).bind fun _ _ => (Amending.ofExcept h).bind fun _ within =>
    (amends_note _ _ _).bind fun _ _ => .pure within

theorem amends_registry {make : Registry → Except Fault α × Registry}
    (h : ∀ r : Registry, r.Ordinary → Amends [] r (make r).2) : Amending known (fun _ => True) (do
      let (a, registry) ← ask fun s => make s.registry
      alter fun s => { s with registry }
      Compile.ofExcept a) := by
  intro c ordinary
  have kept (a : Except Fault α) (d : Compiler) :
      (after (Compile.ofExcept a) d).shared.registry = d.shared.registry := by
    cases a <;> rfl
  refine ⟨⟨[], ?_, nofun⟩, fun _ _ _ => trivial⟩
  have same : (after (do
      let (a, registry) ← ask fun s => make s.registry
      alter fun s => { s with registry }
      Compile.ofExcept a) c).shared.registry = (make c.shared.registry).2 := kept _ _
  rw [same]
  exact h _ ordinary

theorem amends_resolve (e : TypeExpr) : Amending known (fun _ => True) (resolve e) :=
  amends_registry fun _ ordinary => e.resolve_amends ordinary

theorem amends_argOf (e : TypeExpr) : Amending known (fun _ => True) (argOf e) :=
  amends_registry fun _ ordinary => TypeExpr.toArg_amends ordinary e

/-! ## Forms -/

theorem amends_expect (first : Token) (what : String) {ts : List Token}
    (h : Token.Within known ts) :
    Amending known (fun p => known p.1.text ∧ Token.Within known p.2) (expect first what ts) := by
  cases ts with
  | nil => exact .fail _
  | cons t ts => exact .pure ⟨h t List.mem_cons_self _ (.itself rfl), Within.tail h⟩

theorem amends_typeAt (text : String) (pos : Nat) : Amending known (fun _ => True) (typeAt text pos) :=
  .located pos ((Amending.ofExcept fun _ _ => trivial).bind fun _ _ => amends_resolve _)

mutual

theorem amends_typeOps : (e : TypeExpr) → Amending known (fun _ => True) (typeOps e)
  | .named name => by rw [typeOps]; exact amends_emit _
  | .generic name args => by
    rw [typeOps]
    exact amends_freshId.bind fun _ _ => (amends_emit _).bind fun _ _ =>
      (amends_typeOpsEach args).bind fun _ _ => amends_emit _
  | .same n => Amending.fail _
  | .argOf n k => Amending.fail _

theorem amends_typeOpsEach : (es : List TypeExpr) → Amending known (fun _ => True) (typeOpsEach es)
  | [] => by rw [typeOpsEach]; exact .pure trivial
  | e :: es => by
    rw [typeOpsEach]
    exact (amends_typeOps e).bind fun _ _ => amends_typeOpsEach es

end

theorem amends_signature (first : Token) {ts : List Token} (h : Token.Within known ts) :
    Amending known (fun p => Token.Within known p.2) (signature first ts) := by
  induction ts with
  | nil => exact .fail _
  | cons t ts ih =>
    rw [signature]
    dsimp only
    split
    · exact .pure (Within.tail h)
    · exact (Amending.located _ (.ofExcept fun _ _ => trivial)).bind fun _ _ =>
        (ih (Within.tail h)).bind fun _ rest => .pure rest

theorem amends_argAt (arity : Nat) (e : TypeExpr) (pos : Nat) :
    Amending known (fun _ => True) (argAt arity e pos) := by
  have checked : Amending known (fun _ => True) (checkReference arity e) := by
    unfold checkReference
    split
    · split
      · exact .fail _
      · exact .pure trivial
    · split
      · exact .fail _
      · exact .pure trivial
    · exact .pure trivial
  exact .located pos (checked.bind fun _ _ => amends_argOf e)

theorem amends_fields (first : Token) (seen : List String) {ts : List Token}
    (h : Token.Within known ts) :
    Amending known (fun p => Token.Within known p.2) (fields first seen ts) := by
  induction ts generalizing seen with
  | nil => exact .fail _
  | cons t ts ih =>
    have typed (pos : Nat) (text? : Option String) :
        Amending known (fun _ => True) (fieldType pos text?) := by
      cases text? with
      | some text => exact amends_typeAt text pos
      | none => exact .pure trivial
    rw [fields]
    dsimp only
    split
    · exact .pure (Within.tail h)
    · exact (typed _ _).bind fun _ _ =>
        Amending.refuse ((ih _ (Within.tail h)).bind fun _ rest => .pure rest)

theorem after_addStructFuncs (fs : List (String × List Arg × Safety × Native)) (c : Compiler) :
    (after (addStructFuncs fs) c).shared.registry = c.shared.registry.addFuncs fs := by
  induction fs generalizing c with
  | nil => rfl
  | cons f fs ih =>
    obtain ⟨name, args, safety, native⟩ := f
    refine (ih { c with shared := (c.shared.addImp name args safety (.native native)).2 }).trans ?_
    exact congrArg (Registry.addFuncs · fs) (Run.note_registry _ _ _ _ _)

theorem after_then (x : Compile α) (b : β) (c : Compiler) :
    after (x >>= fun _ => pure b) c = after x c := by
  rw [after_bind, after]
  cases x c <;> rfl

theorem amends_structForm (first : Token) {ts : List Token} (h : Token.Within known ts)
    (needed : known "struct:") : Amending known (Token.Within known) (structForm first ts) := by
  apply (amends_expect _ _ h).bind
  rintro ⟨name, ts⟩ ⟨said, left⟩
  apply (amends_fields _ _ left).bind
  rintro ⟨fs, ts⟩ left c -
  change (∃ ds, Amends ds c.shared.registry (after (Likeness.declaring name fs ts) c).shared.registry ∧
    ∀ d ∈ ds, Said known d) ∧ ∀ a d, Likeness.declaring name fs ts c = .ok a d → Token.Within known a
  cases made : c.shared.declareType name.text [.struct] (.record name.text (fs.map (·.1))) with
  | error f =>
    obtain ⟨e, failed⟩ : ∃ e, Likeness.declaring name fs ts c = .error e c := by
      simp only [Likeness.declaring, Compile.located, Bind.bind, EStateM.bind, ask, made]
      exact ⟨_, rfl⟩
    rw [after, failed]
    exact ⟨⟨[], .refl _, fun _ is => absurd is List.not_mem_nil⟩, fun _ _ is => by cases is⟩
  | ok both =>
    obtain ⟨t, shared⟩ := both
    obtain ⟨made', -⟩ := Likeness.declareType_known made
    have ended : (after (Likeness.declaring name fs ts) c).shared.registry =
        shared.registry.addFuncs (structFuncs t fs) := by
      rw [after, Likeness.declaring_ok made]
      exact (congrArg (·.shared.registry) (after_then _ ts _)).trans (after_addStructFuncs _ _)
    rw [ended, Likeness.declaring_ok made]
    refine ⟨⟨[⟨t, fs⟩], (Amends.refl _).struct made', fun d is => ?_⟩, fun us d ok => ?_⟩
    · obtain rfl := List.mem_singleton.1 is
      exact ⟨needed, (Registry.declareType_types made').2.1.symm ▸ said⟩
    · obtain ⟨_, e, -, done⟩ := bind_ok ok
      cases done
      exact left

variable {block : Block}

/-- The block does what a compilation does, and leaves some of its tokens over. -/
def Block.Amending (known : String → Prop) (block : Block) : Prop :=
  ∀ closing ts, Token.Within known ts → Compile.Amending known (Token.Within known) (block closing ts)

theorem amends_hostForm (first : Token) (take : Nat) {ts : List Token} (h : Token.Within known ts) :
    Amending known (Token.Within known) (hostForm first take ts) := by
  induction take generalizing ts with
  | zero => exact .pure h
  | succ take ih =>
    exact (amends_expect _ _ h).bind fun _ rest => (amends_emit _).bind fun _ _ => ih rest.2

section

variable (hb : Block.Amending known block) {ts : List Token} (within : Token.Within known ts)

include hb within

theorem amends_ownBlock (closing : String) (op : Op) :
    Amending known (Token.Within known) (ownBlock block closing op ts) :=
  (amends_emit _).bind fun _ _ => (hb _ _ within).bind fun _ rest => (amends_emit _).bind fun _ _ =>
    .pure rest

theorem amends_lambda (name : Option String) (kind : LambdaKind) (closing : Option String) :
    Amending known (fun p => Token.Within known p.2) (lambda block name kind closing ts) :=
  amends_freshId.bind fun _ _ => (amends_emit _).bind fun _ _ => (hb _ _ within).bind fun _ rest =>
    (amends_emit _).bind fun _ _ => .pure rest

theorem amends_funcBody (first name : Token) :
    Amending known (Token.Within known) (funcBody block first name ts) := by
  refine (amends_signature _ within).bind fun (exprs, ts) left =>
    (Amending.mapM (fun (e, pos) => amends_argAt _ e pos) _).bind fun args _ => ?_
  have rest : Token.Within known
      (if (ts.head?.bind fun t => Safety.ofName? t.text).isSome then ts.drop 1 else ts) := by
    split
    · exact Within.drop left 1
    · exact left
  exact (amends_lambda hb rest _ _ _).bind fun _ left => .still (fun _ => rfl) fun _ _ _ ok => by
    cases ok
    exact left

theorem amends_convForm (first : Token) :
    Amending known (Token.Within known) (convForm block first ts) := by
  refine (amends_expect _ _ within).bind fun _ left => (amends_expect _ _ left.2).bind fun _ left =>
    (amends_typeAt _ _).bind fun _ _ => (amends_typeAt _ _).bind fun _ _ =>
      (amends_lambda hb left.2 _ _ _).bind fun _ left => ?_
  exact .still (fun _ => rfl) fun _ _ _ ok => by
    cases ok
    exact left

/-- The form that a word begins; that of `struct:` needs the word. -/
theorem amends_form (first : Token) {m : Macro} (needed : m = .struct → known "struct:") :
    Amending known (Token.Within known) (form block first ts m) := by
  cases m with
  | func =>
    exact (amends_expect _ _ within).bind fun _ left => (amends_expect _ _ left.2).bind fun _ left =>
      Amending.refuse (amends_funcBody hb left.2 _ _)
  | binding =>
    exact (amends_expect _ _ within).bind fun _ left => Amending.refuse
      ((amends_ownBlock hb left.2 _ _).bind fun _ rest => (amends_emit _).bind fun _ _ => .pure rest)
  | struct => exact amends_structForm first within (needed rfl)
  | conv => exact amends_convForm hb within first
  | test =>
    exact (amends_expect _ _ within).bind fun _ left => Amending.refuse
      ((amends_ownBlock hb left.2 _ _).bind fun _ rest => (amends_emit _).bind fun _ _ => .pure rest)
  | attempt =>
    exact amends_freshId.bind fun _ _ => (amends_emit _).bind fun _ _ => (hb _ _ within).bind
      fun _ rest => (amends_emit _).bind fun _ _ => (amends_emit _).bind fun _ _ => .pure rest
  | unrestricted =>
    exact (amends_emit _).bind fun _ _ => (hb _ _ within).bind fun _ rest =>
      (amends_emit _).bind fun _ _ => .pure rest
  | defer =>
    exact (amends_lambda hb within _ _ _).bind fun _ rest => (amends_emit _).bind fun _ _ => .pure rest
  | word op => exact (amends_emit op).bind fun _ _ => .pure within
  | exit kind => exact (amends_freshId.bind fun _ _ => amends_emit _).bind fun _ _ => .pure within
  | host take => exact amends_hostForm first take within

end

/-! ## Tokens -/

theorem struct_word {word : String} {c d : Compiler} (ordinary : c.shared.registry.Ordinary)
    (h : findForm word c = .ok (some .struct) d) : word = "struct:" := by
  cases found : c.shared.registry.macros.find? word with
  | some m =>
    simp only [findForm, ask, found] at h
    cases h
    rcases ordinary.standard word _ found with builtin | ⟨take, host⟩
    · simpa [Macro.builtins] using builtin
    · cases host
  | none =>
    simp only [findForm, ask, found] at h
    obtain ⟨h, -⟩ := EStateM.Result.ok.inj h
    obtain ⟨⟨base, depth⟩, -, h⟩ := Option.bind_eq_some_iff.1 h
    cases (Option.filter_eq_some_iff.1 h).2

theorem amends_token (hb : Block.Amending known block) {t : Token} {ts : List Token}
    (within : Token.Within known (t :: ts)) :
    Amending known (Token.Within known) (token block t ts) := by
  have left := Within.tail within
  unfold token
  split
  · rename_i brace
    have read : Amending known (Token.Within known) (tokens (String.ofList t.inner) (t.pos + 1)) := by
      refine amends_tokens fun us scanned u member w said => ?_
      rw [String.toList_ofList] at scanned
      exact within t List.mem_cons_self w (.inside brace scanned member said)
    have spanned : Amending known (fun _ => True) (braces block t) :=
      read.bind fun _ inner => (amends_lambda hb inner _ _ _).bind fun _ _ => .pure trivial
    exact spanned.bind fun _ _ => .pure left
  split
  · exact amends_ownBlock hb left _ _
  split
  · exact amends_ownBlock hb left _ _
  split
  · exact .fail _
  split
  · exact .fail _
  split
  · exact (Amending.ofExcept fun _ _ => trivial).bind fun _ _ => (amends_emit _).bind fun _ _ =>
      .pure left
  split
  · exact (Amending.ofExcept fun _ _ => trivial).bind fun e _ => (amends_typeOps e).bind fun _ _ =>
      .pure left
  · intro c ordinary
    cases found : findForm t.text c with
    | error e d => cases found
    | ok m? d =>
      obtain rfl : c = d := (EStateM.Result.ok.inj found).2
      have goes (k : Option Macro → Compile (List Token)) :
          after (findForm t.text >>= k) c = after (k m?) c ∧
            (findForm t.text >>= k) c = k m? c := by
        constructor
        · rw [after_bind, found]
        · simp only [Bind.bind, EStateM.bind, found]
      rw [(goes _).1, (goes _).2]
      cases m? with
      | some m =>
        refine amends_form hb left t (fun is => ?_) c ordinary
        obtain rfl := is
        exact struct_word ordinary found ▸ within t List.mem_cons_self _ (.itself rfl)
      | none =>
        have plain : Amending known (Token.Within known) (do emit (.deref t.text); return ts) :=
          (amends_emit _).bind fun _ _ => .pure left
        exact plain c ordinary

theorem amends_upTo (fuel : Nat) : Block.Amending known (upTo fuel) := by
  -- braces hold a text of their own, so the induction is on the depth and not on the tokens
  induction fuel with
  | zero => exact fun _ _ _ => .still (fun _ => rfl) fun _ _ _ failed => by cases failed
  | succ fuel ih =>
    intro closing ts within
    cases ts with
    | nil =>
      cases closing with
      | none => exact .pure within
      | some closing => exact .fail _
    | cons t ts =>
      rw [upTo]
      split
      · exact .pure (Within.tail within)
      · exact (Amending.located _ (amends_token ih within)).bind fun _ left => ih _ _ left

/-! ## Settling -/

/-- A bracket that is folded makes its instance. -/
theorem amends_instantiate (template : String) (args : List Ty) (k : Ty → α) :
    Amending known (fun _ => True) (do
      let (t, registry) ← Compile.ofExcept (← ask fun s => s.registry.instantiateNamed template args)
      alter fun s => { s with registry }
      return k t) := by
  intro c ordinary
  refine ⟨⟨[], ?_, nofun⟩, fun _ _ _ => trivial⟩
  simp only [after, Bind.bind, EStateM.bind, ask]
  cases made : c.shared.registry.instantiateNamed template args with
  | error f => exact .refl _
  | ok both => exact Registry.instantiateNamed_amends ordinary.lettered made

theorem amends_rewriteOp (fold : Bool) (done : List Op) (op : Op) :
    Amending known (fun _ => True) (rewriteOp fold done op) := by
  unfold rewriteOp
  split
  · exact amends_freshId.bind fun _ _ => .pure trivial
  · exact amends_freshId.bind fun _ _ => .pure trivial
  · exact .pure trivial
  · exact .pure trivial
  · exact .pure trivial
  · split <;> exact .pure trivial
  · split
    · rename_i done _
      exact amends_instantiate _ _ fun t => ((.push (.type t) :: done, true) : List Op × Bool)
    · exact .pure trivial
  · exact .pure trivial

theorem amends_rewrite (fold changed : Bool) (done ops : List Op) :
    Amending known (fun _ => True) (rewrite fold changed done ops) := by
  induction ops generalizing changed done with
  | nil => exact .pure trivial
  | cons op ops ih => exact (amends_rewriteOp _ _ _).bind fun _ _ => ih _ _

theorem amends_rounds (config : CompilerConfig) (left : Nat) (ops : List Op) :
    Amending known (fun _ => True) (rounds config left ops) := by
  have named (ops : List Op) : Amending known (fun _ => True) (names ops) :=
    .still (fun _ => rfl) fun _ _ _ _ => trivial
  induction left generalizing ops with
  | zero => exact .fail _
  | succ left ih =>
    refine (named _).bind fun _ _ => (amends_rewrite _ _ _ _).bind fun _ _ =>
      (amends_note _ _ _).bind fun _ _ => ?_
    split
    · exact ih _
    · exact .pure trivial

theorem amends_settle (ops : List Op) : Amending known (fun _ => True) (settle ops) := by
  have config : Amending known (fun _ => True) (ask (·.config.compiler)) :=
    .still (fun _ => rfl) fun _ _ _ _ => trivial
  exact config.bind fun _ _ => (Amending.ofExcept fun _ _ => trivial).bind fun _ _ =>
    amends_rounds _ _ _

/-- The operations of a text are made in this way. -/
theorem amends_unplaced (text : String) (base : Nat) :
    Amending (Says text) (fun _ => True) (unplaced text base) := by
  have read : Amending (Says text) (Token.Within (Says text)) (tokens text 0) :=
    amends_tokens fun ts scanned t member w said => ⟨ts, scanned, t, member, said⟩
  refine read.bind fun ts within => (amends_note _ _ _).bind fun _ _ =>
    (amends_upTo _ _ _ within).bind fun _ _ => ?_
  exact fun c => amends_settle c.ops.toList c

/-- What is left when a text does not compile. -/
theorem failed_source {text : String} {base : Nat} {c d : Compiler} {e : Halt}
    (failed : source text base c = .error e d) : d = after (unplaced text base) c := by
  rw [source_eq] at failed
  simp only [after, Bind.bind, EStateM.bind] at failed ⊢
  cases made : unplaced text base c with
  | error e d =>
    rw [made] at failed
    cases failed
    rfl
  | ok ops d =>
    rw [made] at failed
    simp only [place, Bind.bind, EStateM.bind, ask] at failed
    cases free : d.shared.registry.checkLabels (namedLabels ops) with
    | error f =>
      rw [free] at failed
      cases failed
      rfl
    | ok =>
      rw [free] at failed
      cases failed

/-- A text that does not compile changes the registry by ids, instances and the structures declared
before the fault, and leaves conversions, labels, forms, objects and the configuration as they are. -/
theorem source_amends {text : String} {base : Nat} {c d : Compiler} {e : Halt}
    (ordinary : c.shared.registry.Ordinary) (failed : source text base c = .error e d) :
    c.shared.Gains d.shared ∧
      ∃ ds, Amends ds c.shared.registry d.shared.registry ∧ ∀ d ∈ ds, Said (Says text) d := by
  obtain rfl := failed_source failed
  exact ⟨keeps_unplaced text base c, (amends_unplaced text base c ordinary).1⟩

end Compile

end Catena
