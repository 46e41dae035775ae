import Catena.Overload
import Catena.Proofs.Types.Naming
import Catena.Proofs.Types.Preorder
import Mathlib.Logic.Relation

/-!
# Templates and their instances

Asking for an instance answers the type made from the template and the arguments asked for, and the same
type again whenever these are the same (`Registry.Built.instantiate_exact`), as long as types are
declared under plain names: one that is declared under the name of an instance stands in its place
(`Registry.instantiate_taken`).

What lies below an instance lies below its template (`Registry.Built.isa_template`). `Opt` is the
exception: `Nil` and `T` lie below `Opt<T>` by rules of their own, which the template has no part in.
-/

namespace Catena

/-! ## Below an instance, below the template -/

namespace Ty

/-- The type lies below the instance of `Opt` by one of the rules for it. -/
def Optional (a b : Ty) : Prop :=
  b.template = some .opt ∧ (a.isa .nil = true ∨ ∃ item, b.args = [item] ∧ a.isa item = true)

theorem Optional.of_super {a b s : Ty} (member : s ∈ a.supers) (h : s.Optional b) : a.Optional b := by
  obtain ⟨opt, below | ⟨item, args, below⟩⟩ := h
  · exact ⟨opt, .inl (isa_of_super member below)⟩
  · exact ⟨opt, .inr ⟨item, args, isa_of_super member below⟩⟩

theorem Family.below_template {D U : Ty → Prop} (h : Family D U) {a b template : Ty} (ha : U a) (hb : U b)
    (made : b.template = some template) (below : a.isa b = true) :
    a.isa template = true ∨ a.Optional b := by
  rcases h.isa_cases ha hb below with rfl | rfl | ⟨item, of, low⟩ | ⟨s, t, made', made'', same, -⟩ |
    ⟨s, member, sb⟩
  · obtain ⟨above, -, supers⟩ := instance_above (h.formed a hb) made
    exact .inl (isa_of_super (supers ▸ List.mem_cons_self) (isa_refl template))
  · cases made
  · refine .inr ⟨of.1, ?_⟩
    rcases low with rfl | low
    · exact .inl (isa_refl nil)
    · exact .inr ⟨item, of.2, low⟩
  · obtain rfl := Option.some.inj (made''.symm.trans made)
    obtain ⟨above, is, supers⟩ := instance_above (h.formed a ha) made'
    obtain rfl := template_ext is.mem_templates (template_mem (h.formed b hb) made) same
    exact .inl (isa_of_super (supers ▸ List.mem_cons_self) (isa_refl s))
  · have := sizeOf_super_lt member
    rcases below_template h (h.supers a ha s member) hb made sb with low | optional
    · exact .inl (isa_of_super member low)
    · exact .inr (optional.of_super member)
termination_by sizeOf a

end Ty

namespace Registry

/-- What lies below an instance lies below its template, unless it lies below an instance of `Opt` by
one of the rules for that. So an implementation declared on any other template accepts the values that
one declared on an instance of it accepts. -/
theorem Built.isa_template {r : Registry} (h : r.Built) {b template : Ty} (hb : r.Knows b)
    (made : b.template = some template) :
    (∀ a, r.Knows a → a.isa b = true → a.isa template = true ∨ a.Optional b) ∧
    (template ≠ .opt → ∀ window v, r.Knows v.ty →
      (Arg.type b).check window v = .yes → (Arg.type template).check window v = .yes) := by
  have below : ∀ a, r.Knows a → a.isa b = true → a.isa template = true ∨ a.Optional b :=
    fun _ ha => h.sound.toFamily.below_template ha hb made
  refine ⟨below, fun other window v known accepted => ?_⟩
  have low : v.ty.isa b = true := by
    by_contra none
    rw [Arg.check, Value.isa, if_neg none] at accepted
    cases accepted
  have high : v.ty.isa template = true :=
    (below v.ty known low).resolve_right fun ⟨opt, _⟩ => other (Option.some.inj (made.symm.trans opt))
  rw [Arg.check, Value.isa, if_pos high]

/-- Each engine starts with the built-in types. -/
theorem Built.knows {r : Registry} (h : r.Built) {t : Ty} (built : t ∈ Ty.builtins) : r.Knows t :=
  h.sound.base t built

/-- `Str` lies below `Seq<Char>`, and below `Seq`. -/
theorem Built.isa_template_str : Ty.str.isa .seqChar = true ∧ Ty.str.isa .seq = true := by
  have chars : Engine.bootRegistry.Knows .seqChar := Built.boot.knows (by simp [Ty.builtins])
  have str : Engine.bootRegistry.Knows .str := Built.boot.knows (by simp [Ty.builtins])
  have low : Ty.str.isa .seqChar = true := by decide +kernel
  refine ⟨low, ((Built.boot.isa_template chars rfl).1 .str str low).resolve_right fun optional => ?_⟩
  exact absurd (congrArg Ty.id (Option.some.inj optional.1)) (by decide)

/-- The integers lie below `Opt<I64>` but not below `Opt`. -/
theorem Built.isa_template_not_opt :
    ∃ (r : Registry) (b : Ty), r.Built ∧ r.Knows .int ∧ r.Knows b ∧ b.template = some .opt ∧
      Ty.int.isa b = true ∧ Ty.int.isa .opt = false := by
  obtain ⟨b, r, made⟩ : ∃ b r, Engine.bootRegistry.instantiate .opt [.int] = .ok (b, r) := ⟨_, _, rfl⟩
  have opt : Engine.bootRegistry.Knows .opt := Built.boot.knows (by simp [Ty.builtins])
  have int : Engine.bootRegistry.Knows .int := Built.boot.knows (by simp [Ty.builtins])
  have built : r.Built := .instantiate .boot opt (by simpa using int) made
  obtain ⟨-, known, of⟩ := Built.boot.sound.instantiate opt (by simpa using int) made
  exact ⟨r, b, built, built.knows (by simp [Ty.builtins]), known, of.1,
    Ty.isa_of_opt of (.inr (Ty.isa_refl _)), by decide +kernel⟩

/-! ## Asking for instances -/

/-- A type is declared below known types under a plain name, an instance of a known template is asked
for, or anything but types changes. -/
inductive Registers : Registry → Registry → Prop
  | declare {r r' : Registry} {name : String} {supers : List Ty} {behavior : Behavior} {t : Ty} :
      (∀ c ∈ name.toList, c ≠ '<' ∧ c ≠ '>' ∧ c ≠ ',') → (∀ s ∈ supers, r.Knows s) →
      r.declareType name supers behavior = .ok (t, r') → Registers r r'
  | instantiate {r r' : Registry} {template t : Ty} {args : List Ty} : r.Knows template →
      (∀ a ∈ args, r.Knows a) → r.instantiate template args = .ok (t, r') → Registers r r'
  | other {r r' : Registry} : r'.types = r.types → r.nextId ≤ r'.nextId → Registers r r'

/-- The second registry comes about from the first. -/
abbrev Later : Registry → Registry → Prop := Relation.ReflTransGen Registers

theorem Later.built {r r' : Registry} (later : r.Later r') (h : r.Built) : r'.Built := by
  induction later with
  | refl => exact h
  | tail _ step ih =>
    cases step with
    | declare plain known made => exact .declare ih plain known made
    | instantiate knows known made => exact .instantiate ih knows known made
    | other types ids => exact .other ih types ids

theorem Later.knows {r r' : Registry} (later : r.Later r') {t : Ty} (known : r.Knows t) : r'.Knows t := by
  induction later with
  | refl => exact known
  | tail _ step ih =>
    cases step with
    | declare _ _ made => exact (declareType_grown made).knows ih
    | instantiate _ _ made => exact (instantiate_adds made).grown.knows ih
    | other types _ => rwa [Knows, types]

/-- Where types are declared under plain names, an instance that is asked for is of the template and has
the arguments asked for, with `Any` for those left out. A later request is answered with the same type
if, and only if, it is for the same template and the same arguments. -/
theorem Built.instantiate_exact {r r₁ : Registry} (h : r.Built) {template t : Ty} {args : List Ty}
    (knows : r.Knows template) (known : ∀ a ∈ args, r.Knows a)
    (made : r.instantiate template args = .ok (t, r₁)) :
    t.template = some template ∧
    t.args = args ++ List.replicate (template.params - args.length) .any ∧
    ∀ r₂ r₃ template' t' args', r₁.Later r₂ → r₂.Knows template' → (∀ a ∈ args', r₂.Knows a) →
      r₂.instantiate template' args' = .ok (t', r₃) →
      (t' = t ↔ template' = template ∧ padArgs template' args' = padArgs template args) := by
  obtain ⟨-, known₁, of⟩ := h.sound.instantiate knows known made
  refine ⟨of.1, of.2, fun r₂ r₃ template' t' args' later knows' known' made' => ?_⟩
  have built₁ : r₁.Built := .instantiate h knows known made
  have built₂ := later.built built₁
  obtain ⟨sound, known₃, of'⟩ := built₂.sound.instantiate knows' known' made'
  constructor
  · rintro rfl
    exact ⟨Option.some.inj (of'.1.symm.trans of.1), of'.2.symm.trans of.2⟩
  · rintro ⟨rfl, same⟩
    have kept : r₃.Knows t := (instantiate_adds made').grown.knows (later.knows known₁)
    refine sound.ext known₃ kept ?_
    rw [sound.instance_name known₃ of', sound.instance_name kept of, same]

/-- A table whose values are left out is asked for, and then one whose values are of any type. -/
theorem Built.instantiate_exact_padded :
    ∃ (r₁ r₂ : Registry) (t t' : Ty), Engine.bootRegistry.instantiate .table [.sym] = .ok (t, r₁) ∧
      r₁.instantiate .table [.sym, .any] = .ok (t', r₂) ∧
      t.template = some .table ∧ t.args = [.sym, .any] ∧ t' = t := by
  obtain ⟨t, r₁, made⟩ := instantiate_ok Engine.bootRegistry .table [.sym] rfl (by decide)
  obtain ⟨t', r₂, made'⟩ := instantiate_ok r₁ .table [.sym, .any] rfl (by decide)
  have table : Engine.bootRegistry.Knows .table := Built.boot.knows (by simp [Ty.builtins])
  have sym : Engine.bootRegistry.Knows .sym := Built.boot.knows (by simp [Ty.builtins])
  have built₁ : r₁.Built := .instantiate .boot table (by simpa using sym) made
  obtain ⟨of, args, again⟩ := Built.boot.instantiate_exact table (by simpa using sym) made
  refine ⟨r₁, r₂, t, t', made, made', of, args, ?_⟩
  refine (again r₁ r₂ .table t' [.sym, .any] .refl (built₁.knows (by simp [Ty.builtins])) ?_ made').2
    ⟨rfl, rfl⟩
  simp [built₁.knows (t := .sym) (by simp [Ty.builtins]), built₁.knows (t := .any) (by simp [Ty.builtins])]

/-- A type that is declared under the name of an instance is what is answered for the instance. -/
theorem instantiate_taken {r r' : Registry} {template t : Ty} {args supers : List Ty} {behavior : Behavior}
    (is : template.isTemplate = true) (few : args.length ≤ template.params)
    (made : r.declareType (instanceName template (padArgs template args)) supers behavior = .ok (t, r')) :
    r'.instantiate template args = .ok (t, r') ∧ t.template = none := by
  unfold declareType at made
  split at made
  · cases made
  obtain ⟨rfl, rfl⟩ := Prod.mk.inj (Except.ok.inj made)
  refine ⟨?_, rfl⟩
  rw [instantiate, if_neg (by simp [is]), if_neg (Nat.not_lt.2 few), derive]
  simp only [addType, Dict.find?_insert, if_pos]

end Registry

end Catena
