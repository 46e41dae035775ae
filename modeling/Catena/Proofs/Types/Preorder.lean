import Catena.Proofs.Types.Instance

/-!
# Subtyping is a preorder

Starting from the built-in types, types are declared below any types there are, and templates are
given arguments. In all registries that come about in this way the subtype relation is reflexive, and
it is transitive up to any type that the template `Opt` does not occur in (`Registry.Built.isa_preorder`).
The template is left out because `Opt<T>` lies below it but `T` does not.
-/

namespace Catena

/-- The registries that come about by declaring types and by giving templates their arguments. What
else a registry knows plays no part. -/
inductive Registry.Built : Registry → Prop
  | boot : Built Engine.bootRegistry
  /-- A type is declared below known types, under a name that is a word. -/
  | declare {r r' : Registry} {name : String} {supers : List Ty} {behavior : Behavior} {t : Ty} :
      Built r → (∀ c ∈ name.toList, c ≠ '<' ∧ c ≠ '>' ∧ c ≠ ',') → (∀ s ∈ supers, r.Knows s) →
      r.declareType name supers behavior = .ok (t, r') → Built r'
  | instantiate {r r' : Registry} {template t : Ty} {args : List Ty} : Built r → r.Knows template →
      (∀ a ∈ args, r.Knows a) → r.instantiate template args = .ok (t, r') → Built r'
  /-- Ids are used up, and everything but types changes. -/
  | other {r r' : Registry} : Built r → r'.types = r.types → r.nextId ≤ r'.nextId → Built r'

/-- Every name stands for one type. -/
theorem Registry.Built.sound {r : Registry} (h : r.Built) : r.Sound fun _ => True := by
  induction h with
  | boot => exact .boot
  | declare _ word known made ih =>
    refine (ih.declareType (fun c member => ?_) known made trivial).1
    simp [TypeExpr.isNameChar, word c member]
  | instantiate _ knows known made ih => exact (ih.instantiate knows known made).1
  | other _ types ids ih => exact ih.of_types types ids

/-- Every type lies below itself, and what lies below a type lies below all that lies above it in which
the template `Opt` does not occur. -/
theorem Registry.Built.isa_preorder {r : Registry} (h : r.Built) :
    (∀ a, r.Knows a → a.isa a = true) ∧
    ∀ a b c, r.Knows a → r.Knows b → r.Knows c → ¬ Ty.Occurs .opt c →
      a.isa b = true → b.isa c = true → a.isa c = true :=
  ⟨fun a _ => a.isa_refl, fun _ _ _ ha hb hc free ab bc =>
    h.sound.toFamily.isa_trans ha hb hc free ab bc⟩

/-- From the integers over `Opt<I64>` to `Opt<Num>`. -/
theorem Registry.Built.isa_preorder_opt :
    ∃ (r : Registry) (b c : Ty), r.Built ∧ r.Knows b ∧ b.Of .opt [.int] ∧ r.Knows c ∧ c.Of .opt [.num] ∧
      Ty.int.isa b = true ∧ b.isa c = true ∧ Ty.int.isa c = true := by
  obtain ⟨b, r, first⟩ : ∃ b r, Engine.bootRegistry.instantiate .opt [.int] = .ok (b, r) :=
    ⟨_, _, rfl⟩
  obtain ⟨c, r', second⟩ : ∃ c r', r.instantiate .opt [.num] = .ok (c, r') := ⟨_, _, rfl⟩
  have base {r : Registry} (h : r.Built) {t : Ty} (built : t ∈ Ty.builtins) : r.Knows t :=
    h.sound.base t built
  have opt : Ty.opt ∈ Ty.builtins := by simp [Ty.builtins]
  have int : Ty.int ∈ Ty.builtins := by simp [Ty.builtins]
  have num : Ty.num ∈ Ty.builtins := by simp [Ty.builtins]
  have built : r.Built := .instantiate .boot (base .boot opt) (by simpa using base .boot int) first
  have built' : r'.Built := .instantiate built (base built opt) (by simpa using base built num) second
  obtain ⟨-, knows, of⟩ := Registry.Built.boot.sound.instantiate (base .boot opt)
    (by simpa using base .boot int) first
  obtain ⟨-, knows', of'⟩ := built.sound.instantiate (base built opt) (by simpa using base built num) second
  replace knows : r'.Knows b := (Registry.instantiate_adds second).grown.knows knows
  have low : Ty.int.isa b = true := Ty.isa_of_opt of (.inr (Ty.isa_refl _))
  have high : b.isa c = true := by
    refine Ty.isa_of_below ⟨_, _, of.1, of'.1, rfl, ?_⟩
    rw [of.2, of'.2]
    exact .cons (Ty.isa_of_super (List.mem_singleton_self _) (Ty.isa_refl _)) .nil
  have free : ¬ Ty.Occurs .opt c := by
    rintro (_ | ⟨member, inside⟩)
    · cases of'.1
    · rw [of'.2] at member
      obtain rfl := List.mem_singleton.1 member
      rcases inside with _ | ⟨member, -⟩
      cases member
  exact ⟨r', b, c, built', knows, of, knows', of', low, high,
    built'.isa_preorder.2 _ b c (base built' int) knows knows' free low high⟩

end Catena
