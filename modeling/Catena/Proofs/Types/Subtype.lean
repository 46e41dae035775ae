import Catena.Ty.Builtin
import Mathlib.Data.List.Forall2
import Mathlib.Logic.Relation
import Mathlib.Tactic.Tauto

/-!
# The order of types

The subtype relation is reflexive, and it is transitive because the types above an instance depend on
its arguments in step with their order (`Ty.Family.isa_trans`). The template `Opt` stands apart: it
lies above `Opt<T>`, but not above what lies below that, so nothing follows for a third type that it
occurs in. The join of two types is above both. The types that values have know no instance of `Opt`
(`Ty.Universe`). There what lies below a pair is a pair.
-/

namespace Catena.Ty

/-! ## The relation by its rules -/

theorem isaFirst_iff (a : Ty) (bs : List Ty) :
    isaFirst a bs = true ↔ ∃ b, bs.head? = some b ∧ a.isa b = true := by
  cases bs <;> simp [isaFirst]

theorem isaEach_iff (as bs : List Ty) :
    isaEach as bs = true ↔ List.Forall₂ (fun a b => a.isa b = true) as bs := by
  induction as generalizing bs with
  | nil => cases bs <;> simp [isaEach]
  | cons a as ih => cases bs <;> simp [isaEach, ih]

theorem anyIsa_iff (as : List Ty) (b : Ty) :
    anyIsa as b = true ↔ ∃ a ∈ as, a.isa b = true := by
  induction as with
  | nil => simp [anyIsa]
  | cons a as ih => simp [anyIsa, ih]

/-- Both instantiate one template, with arguments ordered place by place. -/
def Below (a b : Ty) : Prop :=
  ∃ s t, a.template = some s ∧ b.template = some t ∧ s.id = t.id ∧
    List.Forall₂ (fun a b => a.isa b = true) a.args b.args

theorem isa_iff (a b : Ty) :
    a.isa b = true ↔ a.id = b.id ∨ b.name = "Any" ∨
      (b.instantiates "Opt" = true ∧ (a.name = "Nil" ∨ ∃ c, b.args.head? = some c ∧ a.isa c = true)) ∨
      a.Below b ∨ ∃ s ∈ a.supers, s.isa b = true := by
  rw [isa]
  unfold Below
  cases a.template <;> cases b.template <;>
    simp [isaFirst_iff, isaEach_iff, anyIsa_iff, or_assoc]

theorem isa_refl (a : Ty) : a.isa a = true :=
  (isa_iff a a).2 (.inl rfl)

theorem isa_any (a : Ty) : a.isa any = true :=
  (isa_iff a any).2 (.inr (.inl rfl))

theorem isa_of_below {a b : Ty} (h : a.Below b) : a.isa b = true :=
  (isa_iff a b).2 (.inr (.inr (.inr (.inl h))))

theorem isa_of_super {a s b : Ty} (member : s ∈ a.supers) (h : s.isa b = true) : a.isa b = true :=
  (isa_iff a b).2 (.inr (.inr (.inr (.inr ⟨s, member, h⟩))))

theorem sizeOf_super_lt {s t : Ty} (h : s ∈ t.supers) : sizeOf s < sizeOf t :=
  Nat.lt_trans (List.sizeOf_lt_of_mem h) t.sizeOf_supers_lt

theorem sizeOf_arg_lt {a t : Ty} (h : a ∈ t.args) : sizeOf a < sizeOf t :=
  Nat.lt_trans (List.sizeOf_lt_of_mem h) t.sizeOf_args_lt

theorem sizeOf_super_arg_lt {s a t : Ty} (hs : s ∈ t.supers) (ha : a ∈ t.args) :
    sizeOf s + sizeOf a < sizeOf t := by
  have supers := List.sizeOf_lt_of_mem hs
  have args := List.sizeOf_lt_of_mem ha
  cases t
  simp only [mk.sizeOf_spec] at *
  omega

/-! ## The shapes of types -/

/-- The type instantiates a template with the given arguments. -/
def Of (t template : Ty) (args : List Ty) : Prop :=
  t.template = some template ∧ t.args = args

/-- What stands above an instance of a template, besides the template. -/
inductive Above : (template : Ty) → (args above : List Ty) → Prop
  | seq (item : Ty) : Above .seq [item] []
  | opt (item : Ty) : Above .opt [item] []
  | list {item s : Ty} : s.Of .seq [item] → Above .list [item] [s]
  | iter {item s : Ty} : s.Of .seq [item] → Above .iter [item] [s]
  | table {k v entry s : Ty} : entry.Of .pair [k, v] → s.Of .seq [entry] → Above .table [k, v] [s]
  | pair (a b : Ty) : Above .pair [a, b] (if a.isa .cmp && b.isa .cmp then [.cmp] else [])

/-- The templates. -/
def templates : List Ty := [seq, pair, list, table, opt, iter]

theorem Above.mem_templates {template : Ty} {args above : List Ty} (h : Above template args above) :
    template ∈ templates := by
  cases h <;> simp [templates]

theorem template_ext {s t : Ty} (hs : s ∈ templates) (ht : t ∈ templates) (h : s.id = t.id) :
    s = t := by
  simp only [templates, List.mem_cons, List.not_mem_nil, or_false] at hs ht
  rcases hs with rfl | rfl | rfl | rfl | rfl | rfl <;>
    rcases ht with rfl | rfl | rfl | rfl | rfl | rfl <;> first | rfl | exact absurd h (by decide)

/-- A type with its supertypes as they are made: one of the built-in types, a type declared in the way
that `D` says, or an instance of a template. -/
inductive Formed (D : Ty → Prop) : Ty → Prop
  | base {t : Ty} : t ∈ builtins → t.template = none → Formed D t
  | declared {t : Ty} : t.template = none → t.args = [] → t.params = 0 → D t → Formed D t
  | inst {t template : Ty} {args above : List Ty} : t.Of template args → Above template args above →
      t.supers = template :: above → t.behavior = template.behavior → Formed D t

/-- The type is declared as that of a structure. -/
structure IsRecord (t : Ty) : Prop where
  supers : t.supers = [.struct]
  behavior : ∃ name fields, t.behavior = .record name fields

/-- `Opt` takes no part in the type. -/
inductive Plain : Ty → Prop
  | mk {t : Ty} : t.template ≠ some .opt → (∀ s ∈ t.supers, Plain s) → (∀ a ∈ t.args, Plain a) →
      Plain t

theorem Plain.super {s t : Ty} (h : t.Plain) (member : s ∈ t.supers) : s.Plain := by
  obtain ⟨-, supers, -⟩ := h
  exact supers s member

theorem Plain.arg {a t : Ty} (h : t.Plain) (member : a ∈ t.args) : a.Plain := by
  obtain ⟨-, -, args⟩ := h
  exact args a member

theorem Plain.template {t : Ty} (h : t.Plain) : t.template ≠ some .opt := by
  obtain ⟨template, -, -⟩ := h
  exact template

/-- Types that are told apart by their ids and by their names, with everything above them and inside
them. -/
structure Family (D U : Ty → Prop) : Prop where
  formed : ∀ t, U t → t.Formed D
  supers : ∀ t, U t → ∀ s ∈ t.supers, U s
  args : ∀ t, U t → ∀ a ∈ t.args, U a
  apart : ∀ s t, U s → U t → s.id = t.id → s = t
  named : ∀ s t, U s → U t → s.name = t.name → s = t
  base : ∀ t ∈ builtins, U t

/-- The types of values: structure types are all that is declared, and `Opt` takes no part. -/
structure Universe (U : Ty → Prop) : Prop extends Family IsRecord U where
  plain : ∀ t, U t → t.Plain

section

variable {D : Ty → Prop}

theorem instance_above {t template : Ty} (h : t.Formed D) (made : t.template = some template) :
    ∃ above, Above template t.args above ∧ t.supers = template :: above := by
  cases h with
  | base _ none => rw [none] at made; cases made
  | declared none => rw [none] at made; cases made
  | inst of above supers =>
    obtain rfl := Option.some.inj (of.1.symm.trans made)
    exact ⟨_, of.2 ▸ above, supers⟩

theorem template_mem {t template : Ty} (h : t.Formed D) (made : t.template = some template) :
    template ∈ templates := by
  obtain ⟨above, is, -⟩ := instance_above h made
  exact is.mem_templates

/-- The two types instantiate one template. -/
theorem Below.same_template {a b : Ty} (h : a.Below b) (ha : a.Formed D) (hb : b.Formed D) :
    ∃ t, a.template = some t ∧ b.template = some t ∧
      List.Forall₂ (fun a b => a.isa b = true) a.args b.args := by
  obtain ⟨s, t, made, made', same, each⟩ := h
  obtain rfl := template_ext (template_mem ha made) (template_mem hb made') same
  exact ⟨s, made, made', each⟩

/-- What instantiates `Opt` by name is an instance of `Opt` with one argument. -/
theorem of_opt {t : Ty} (h : t.Formed D) (opt : t.instantiates "Opt" = true) :
    ∃ item, t.Of .opt [item] := by
  unfold instantiates at opt
  cases made : t.template with
  | none => rw [made] at opt; cases opt
  | some template =>
    rw [made] at opt
    obtain ⟨above, is, -⟩ := instance_above h made
    have member := is.mem_templates
    simp only [templates, List.mem_cons, List.not_mem_nil, or_false] at member
    rcases member with rfl | rfl | rfl | rfl | rfl | rfl <;> first | cases opt; done | skip
    generalize args : t.args = xs at is
    cases is with
    | opt item => exact ⟨item, made, args⟩

end

/-! ## The built-in types -/

/-- The types right above the built-in ones. -/
theorem super_builtin {s t : Ty} (built : t ∈ builtins) (member : s ∈ t.supers) :
    s ∈ [any, cmp, num, seq, seqChar, seqWchar, seqInt] := by
  have lists : t.supers ∈
      [[], [any], [cmp], [num], [seq], [cmp, seqChar], [cmp, seqWchar], [seqInt]] := by
    simp only [builtins, List.mem_cons, List.not_mem_nil, or_false] at built
    rcases built with rfl | rfl | rfl | rfl | rfl | rfl | rfl | rfl | rfl | rfl | rfl | rfl | rfl |
      rfl | rfl | rfl | rfl | rfl | rfl | rfl | rfl | rfl | rfl | rfl | rfl | rfl | rfl | rfl | rfl |
      rfl | rfl | rfl <;>
    first
    | exact .head _
    | exact .tail _ (.head _)
    | exact .tail _ (.tail _ (.head _))
    | exact .tail _ (.tail _ (.tail _ (.head _)))
    | exact .tail _ (.tail _ (.tail _ (.tail _ (.head _))))
    | exact .tail _ (.tail _ (.tail _ (.tail _ (.tail _ (.head _)))))
    | exact .tail _ (.tail _ (.tail _ (.tail _ (.tail _ (.tail _ (.head _))))))
    | exact .tail _ (.tail _ (.tail _ (.tail _ (.tail _ (.tail _ (.tail _ (.head _)))))))
  simp only [List.mem_cons, List.not_mem_nil, or_false] at lists
  rcases lists with h | h | h | h | h | h | h | h <;> rw [h] at member <;> simp at member ⊢ <;> tauto

/-- The types inside the built-in ones. -/
theorem arg_builtin {a t : Ty} (built : t ∈ builtins) (member : a ∈ t.args) :
    a ∈ [char, wchar, int] := by
  have lists : t.args ∈ [[], [char], [wchar], [int]] := by
    simp only [builtins, List.mem_cons, List.not_mem_nil, or_false] at built
    rcases built with rfl | rfl | rfl | rfl | rfl | rfl | rfl | rfl | rfl | rfl | rfl | rfl | rfl |
      rfl | rfl | rfl | rfl | rfl | rfl | rfl | rfl | rfl | rfl | rfl | rfl | rfl | rfl | rfl | rfl |
      rfl | rfl | rfl <;>
    first
    | exact .head _
    | exact .tail _ (.head _)
    | exact .tail _ (.tail _ (.head _))
    | exact .tail _ (.tail _ (.tail _ (.head _)))
  simp only [List.mem_cons, List.not_mem_nil, or_false] at lists
  rcases lists with h | h | h | h <;> rw [h] at member <;> simp at member ⊢ <;> tauto

/-- Built-in types have built-in types above them. -/
theorem super_mem_builtins {s t : Ty} (built : t ∈ builtins) (member : s ∈ t.supers) :
    s ∈ builtins := by
  have shape := super_builtin built member
  simp only [List.mem_cons, List.not_mem_nil, or_false] at shape
  rcases shape with rfl | rfl | rfl | rfl | rfl | rfl | rfl <;> simp [builtins]

theorem arg_mem_builtins {a t : Ty} (built : t ∈ builtins) (member : a ∈ t.args) : a ∈ builtins := by
  have shape := arg_builtin built member
  simp only [List.mem_cons, List.not_mem_nil, or_false] at shape
  rcases shape with rfl | rfl | rfl <;> simp [builtins]

/-- `Opt` takes no part in the built-in types. -/
theorem plain_builtin {t : Ty} (built : t ∈ builtins) : t.Plain := by
  refine .mk (fun opt => ?_) (fun s member => ?_) fun a member => ?_
  · have other : ∀ t ∈ builtins, t.template.map Ty.id ≠ some Ty.opt.id := by decide
    exact other t built (by rw [opt]; rfl)
  · have := sizeOf_super_lt member
    exact plain_builtin (super_mem_builtins built member)
  · have := sizeOf_arg_lt member
    exact plain_builtin (arg_mem_builtins built member)
termination_by sizeOf t

/-! ## Transitivity -/

/-- The type occurs in `t`: as `t` itself, or somewhere among its type arguments. -/
inductive Occurs (s : Ty) : Ty → Prop
  | here : Occurs s s
  | arg {a t : Ty} : a ∈ t.args → Occurs s a → Occurs s t

theorem isa_of_opt {a c item : Ty} (of : c.Of .opt [item]) (h : a.name = "Nil" ∨ a.isa item = true) :
    a.isa c = true := by
  refine (isa_iff a c).2 (.inr (.inr (.inl ⟨?_, ?_⟩)))
  · rw [instantiates, of.1]
    rfl
  · rw [of.2]
    exact h.imp_right fun below => ⟨item, rfl, below⟩

/-- A class of types, with the arguments of those in it, that leaves out the template `Opt` where there
are instances of it. -/
structure Upper (U C : Ty → Prop) : Prop where
  any : C any
  cmp : C cmp
  args : ∀ c, C c → ∀ a ∈ c.args, C a
  apart : ∀ b item c, U b → b.Of .opt [item] → C c → c ≠ opt

namespace Family

variable {D U C : Ty → Prop}

theorem hasAny (h : Family D U) : U any := h.base any (by simp [builtins])

theorem hasCmp (h : Family D U) : U cmp := h.base cmp (by simp [builtins])

theorem hasInt (h : Family D U) : U int := h.base int (by simp [builtins])

/-- The rules of the relation. -/
theorem isa_cases (h : Family D U) {a b : Ty} (ha : U a) (hb : U b) (below : a.isa b = true) :
    a = b ∨ b = any ∨ (∃ item, b.Of .opt [item] ∧ (a = nil ∨ a.isa item = true)) ∨ a.Below b ∨
      ∃ s ∈ a.supers, s.isa b = true := by
  rcases (isa_iff a b).1 below with same | top | ⟨opt, low⟩ | rest
  · exact .inl (h.apart a b ha hb same)
  · exact .inr (.inl (h.named b any hb h.hasAny top))
  · obtain ⟨item, of⟩ := of_opt (h.formed b hb) opt
    refine .inr (.inr (.inl ⟨item, of, ?_⟩))
    rcases low with named | ⟨c, first, low⟩
    · exact .inl (h.named a nil ha (h.base nil (by simp [builtins])) named)
    · rw [of.2] at first
      exact .inr (Option.some.inj first ▸ low)
  · exact .inr (.inr (.inr rest))

theorem not_nil {t template : Ty} (made : t.template = some template) : t ≠ nil := fun same => by
  rw [same] at made
  cases made

/-- Transitivity for types of a bounded size altogether. -/
def TransUpTo (U C : Ty → Prop) (n : Nat) : Prop :=
  ∀ a b c, U a → U b → U c → C c → sizeOf a + sizeOf b + sizeOf c ≤ n →
    a.isa b = true → b.isa c = true → a.isa c = true

theorem args_trans {n : Nat} (ih : TransUpTo U C n) {as bs cs : List Ty}
    (ha : ∀ a ∈ as, U a) (hb : ∀ b ∈ bs, U b) (hc : ∀ c ∈ cs, U c) (upper : ∀ c ∈ cs, C c)
    (small : ∀ a ∈ as, ∀ b ∈ bs, ∀ c ∈ cs, sizeOf a + sizeOf b + sizeOf c ≤ n)
    (ab : List.Forall₂ (fun a b => a.isa b = true) as bs)
    (bc : List.Forall₂ (fun a b => a.isa b = true) bs cs) :
    List.Forall₂ (fun a b => a.isa b = true) as cs := by
  induction ab generalizing cs with
  | nil => cases bc; exact .nil
  | cons first _ rest =>
    cases bc with
    | cons first' bc =>
      refine .cons (ih _ _ _ ?_ ?_ ?_ ?_ ?_ first first') (rest ?_ ?_ ?_ ?_ ?_ bc) <;> simp_all

/-- What stands above an instance stands, or has something below it that stands, above each instance
that lies below that one. -/
theorem above_mono {a b template : Ty} {above above' : List Ty} {n : Nat} (ih : TransUpTo U C n)
    (h : Family D U) (upper : C cmp) (ha : U a) (hb : U b)
    (small : ∀ x ∈ a.args, ∀ y ∈ b.args, cmp ∈ above' → sizeOf x + sizeOf y + sizeOf cmp ≤ n)
    (is : Above template a.args above) (is' : Above template b.args above')
    (each : List.Forall₂ (fun a b => a.isa b = true) a.args b.args) {s : Ty} (member : s ∈ above') :
    ∃ s' ∈ above, s' = s ∨ s'.Below s := by
  have ordered : ∀ x ∈ a.args, ∀ y ∈ b.args, cmp ∈ above' → x.isa y = true → y.isa cmp = true →
      x.isa cmp = true := fun x hx y hy has =>
    ih x y cmp (h.args a ha x hx) (h.args b hb y hy) h.hasCmp upper (small x hx y hy has)
  revert each ordered member
  generalize a.args = xs, b.args = ys at is is'
  intro each member ordered
  cases is with
  | seq => cases is'; cases member
  | opt => cases is'; cases member
  | list of =>
    cases is' with
    | list of' =>
      obtain rfl := List.mem_singleton.1 member
      exact ⟨_, List.mem_singleton_self _, .inr ⟨_, _, of.1, of'.1, rfl, by rwa [of.2, of'.2]⟩⟩
  | iter of =>
    cases is' with
    | iter of' =>
      obtain rfl := List.mem_singleton.1 member
      exact ⟨_, List.mem_singleton_self _, .inr ⟨_, _, of.1, of'.1, rfl, by rwa [of.2, of'.2]⟩⟩
  | table entry of =>
    cases is' with
    | table entry' of' =>
      obtain rfl := List.mem_singleton.1 member
      have pairs := isa_of_below ⟨_, _, entry.1, entry'.1, rfl, by rwa [entry.2, entry'.2]⟩
      refine ⟨_, List.mem_singleton_self _, .inr ⟨_, _, of.1, of'.1, rfl, ?_⟩⟩
      rw [of.2, of'.2]
      exact .cons pairs .nil
  | pair x₁ x₂ =>
    cases is' with
    | pair y₁ y₂ =>
      cases each with
      | cons first rest =>
        cases rest with
        | cons second _ =>
          split at member
          next both =>
            rw [Bool.and_eq_true] at both
            have some : cmp ∈ (if y₁.isa cmp && y₂.isa cmp then [cmp] else []) := by
              simp [both.1, both.2]
            have left := ordered x₁ (by simp) y₁ (by simp) some first both.1
            have right := ordered x₂ (by simp) y₂ (by simp) some second both.2
            obtain rfl := List.mem_singleton.1 member
            exact ⟨cmp, by simp [left, right], .inl rfl⟩
          next => cases member

section

variable {n : Nat} {a b c : Ty}

/-- Above `Any` lies only what lies above everything. -/
theorem trans_any (h : Family D U) (upper : Upper U C) (ih : TransUpTo U C n) (ha : U a) (hc : U c)
    (large : C c) (small : sizeOf a + sizeOf any + sizeOf c ≤ n + 1) (bc : any.isa c = true) :
    a.isa c = true := by
  rcases h.isa_cases h.hasAny hc bc with rfl | rfl | ⟨item, of, low⟩ | ⟨s, _, made, _⟩ | ⟨s, member, -⟩
  · exact isa_any a
  · exact isa_any a
  · have inside : item ∈ c.args := by simp [of.2]
    have := sizeOf_arg_lt inside
    rcases low with same | low
    · exact absurd (congrArg Ty.id same) (by decide)
    · exact isa_of_opt of (.inr (ih a any item ha h.hasAny (h.args c hc item inside)
        (upper.args c large item inside) (by omega) (isa_any a) low))
  · cases made
  · cases member

/-- From an instance of a template on, to an instance of `Opt`. -/
theorem trans_opt (h : Family D U) (upper : Upper U C) (ih : TransUpTo U C n) (ha : U a) (hb : U b)
    (hc : U c) (large : C c) (small : sizeOf a + sizeOf b + sizeOf c ≤ n + 1) {item : Ty}
    (of : c.Of .opt [item]) (ab : a.isa b = true) (low : b.isa item = true) : a.isa c = true := by
  have inside : item ∈ c.args := by simp [of.2]
  have := sizeOf_arg_lt inside
  exact isa_of_opt of (.inr (ih a b item ha hb (h.args c hc item inside)
    (upper.args c large item inside) (by omega) ab low))

/-- From an instance of `Opt` on. -/
theorem trans_of_opt (h : Family D U) (upper : Upper U C) (ih : TransUpTo U C n) (ha : U a) (hb : U b)
    (hc : U c) (large : C c) (small : sizeOf a + sizeOf b + sizeOf c ≤ n + 1) {item : Ty}
    (of : b.Of .opt [item]) (low : a = nil ∨ a.isa item = true) (bc : b.isa c = true) :
    a.isa c = true := by
  have ab : a.isa b = true := isa_of_opt of (low.imp_left fun same => congrArg Ty.name same)
  have other := upper.apart b item c hb of large
  have inside : item ∈ b.args := by simp [of.2]
  have := sizeOf_arg_lt inside
  obtain ⟨above, is, supers⟩ := instance_above (h.formed b hb) of.1
  rw [of.2] at is
  cases is
  have optIn : opt ∈ b.supers := by simp [supers]
  have hopt := h.supers b hb opt optIn
  rcases h.isa_cases hb hc bc with rfl | rfl | ⟨item', of', low'⟩ | below | ⟨s, member, sc⟩
  · exact ab
  · exact isa_any a
  · exact h.trans_opt upper ih ha hb hc large small of' ab (low'.resolve_left (not_nil of.1))
  · obtain ⟨t, made, made', each⟩ := below.same_template (h.formed b hb) (h.formed c hc)
    obtain rfl := Option.some.inj (of.1.symm.trans made)
    rw [of.2] at each
    generalize args : c.args = xs at each
    cases each with
    | cons first rest =>
      cases rest
      rename_i item'
      have inside' : item' ∈ c.args := by simp [args]
      have := sizeOf_arg_lt inside'
      refine isa_of_opt ⟨made', args⟩ (low.imp (congrArg Ty.name) fun low => ?_)
      exact ih a item item' ha (h.args b hb item inside) (h.args c hc item' inside')
        (upper.args c large item' inside') (by omega) low first
  · rw [supers] at member
    obtain rfl := List.mem_singleton.1 member
    rcases h.isa_cases hopt hc sc with same | rfl | ⟨item', of', low'⟩ | ⟨_, _, made, -⟩ | ⟨t, top, tc⟩
    · exact absurd same.symm other
    · exact isa_any a
    · rcases low' with same | low'
      · exact absurd (congrArg Ty.id same) (by decide)
      · exact h.trans_opt upper ih ha hb hc large small of' ab (isa_of_super optIn low')
    · cases made
    · obtain rfl := List.mem_singleton.1 top
      have := sizeOf_super_lt optIn
      have := sizeOf_super_lt top
      exact h.trans_any upper ih ha hc large (by omega) tc

/-- From an instance of a template on, that the first type instantiates as well. -/
theorem trans_of_below (h : Family D U) (upper : Upper U C) (ih : TransUpTo U C n) (ha : U a) (hb : U b)
    (hc : U c) (large : C c) (small : sizeOf a + sizeOf b + sizeOf c ≤ n + 1) (below : a.Below b)
    (bc : b.isa c = true) : a.isa c = true := by
  have ab := isa_of_below below
  obtain ⟨t, made, made', each⟩ := below.same_template (h.formed a ha) (h.formed b hb)
  rcases h.isa_cases hb hc bc with rfl | rfl | ⟨item, of, low⟩ | below' | ⟨s, member, sc⟩
  · exact ab
  · exact isa_any a
  · exact h.trans_opt upper ih ha hb hc large small of ab (low.resolve_left (not_nil made'))
  · obtain ⟨s, t', made₂, made₃, same, each'⟩ := below'
    obtain rfl := Option.some.inj (made'.symm.trans made₂)
    refine isa_of_below ⟨_, _, made, made₃, same, ?_⟩
    refine args_trans ih (h.args a ha) (h.args b hb) (h.args c hc) (upper.args c large) ?_ each each'
    intro x hx y hy z hz
    have := sizeOf_arg_lt hx
    have := sizeOf_arg_lt hy
    have := sizeOf_arg_lt hz
    omega
  · obtain ⟨above, is, supers⟩ := instance_above (h.formed a ha) made
    obtain ⟨above', is', supers'⟩ := instance_above (h.formed b hb) made'
    rw [supers'] at member
    rcases List.mem_cons.1 member with rfl | member
    · exact isa_of_super (supers ▸ List.mem_cons_self) sc
    have small' : ∀ x ∈ a.args, ∀ y ∈ b.args, cmp ∈ above' →
        sizeOf x + sizeOf y + sizeOf cmp ≤ n := fun x hx y hy has => by
      have := sizeOf_arg_lt hx
      have := sizeOf_super_arg_lt (supers' ▸ List.mem_cons_of_mem _ has) hy
      omega
    obtain ⟨s', member', same | between⟩ :=
      above_mono ih h upper.cmp ha hb small' is is' each member
    · exact isa_of_super (supers ▸ List.mem_cons_of_mem _ member') (same ▸ sc)
    · have inside : s' ∈ a.supers := supers ▸ List.mem_cons_of_mem _ member'
      have inside' : s ∈ b.supers := supers' ▸ List.mem_cons_of_mem _ member
      have := sizeOf_super_lt inside
      have := sizeOf_super_lt inside'
      refine isa_of_super inside (ih s' s c (h.supers a ha s' inside) (h.supers b hb s inside') hc
        large (by omega) (isa_of_below between) sc)

end

theorem transUpTo (h : Family D U) (upper : Upper U C) (n : Nat) : TransUpTo U C n := by
  induction n with
  | zero =>
    intro a b c _ _ _ _ small
    cases a
    simp only [mk.sizeOf_spec] at small
    omega
  | succ n ih =>
    intro a b c ha hb hc large small ab bc
    rcases h.isa_cases ha hb ab with rfl | rfl | ⟨item, of, low⟩ | below | ⟨s, member, sb⟩
    · exact bc
    · exact h.trans_any upper ih ha hc large small bc
    · exact h.trans_of_opt upper ih ha hb hc large small of low bc
    · exact h.trans_of_below upper ih ha hb hc large small below bc
    · have := sizeOf_super_lt member
      exact isa_of_super member
        (ih s b c (h.supers a ha s member) hb hc large (by omega) sb bc)

/-- The subtype relation is transitive as far as the template `Opt` does not occur in the highest
type. -/
theorem isa_trans (h : Family D U) {a b c : Ty} (ha : U a) (hb : U b) (hc : U c)
    (free : ¬ Occurs opt c) (ab : a.isa b = true) (bc : b.isa c = true) : a.isa c = true := by
  have single {t : Ty} (none : t.args = []) (other : t ≠ opt) : ¬ Occurs opt t := by
    rintro (_ | ⟨member, -⟩)
    · exact other rfl
    · rw [none] at member
      cases member
  have upper : Upper U fun c => ¬ Occurs opt c := by
    refine ⟨single rfl fun same => ?_, single rfl fun same => ?_, fun c free a member inside => ?_,
      fun b item c _ _ free same => ?_⟩
    · exact absurd (congrArg Ty.id same) (by decide)
    · exact absurd (congrArg Ty.id same) (by decide)
    · exact free (.arg member inside)
    · exact free (same ▸ .here)
  exact h.transUpTo upper _ a b c ha hb hc free (Nat.le_refl _) ab bc

end Family

/-! ## Ancestors and joins -/

/-- The second type is reached from the first by declared edges. -/
def Ascends : Ty → Ty → Prop :=
  Relation.ReflTransGen fun t s => s ∈ t.supers

theorem Ascends.isa {a s : Ty} (h : a.Ascends s) : a.isa s = true := by
  induction h using Relation.ReflTransGen.head_induction_on with
  | refl => exact isa_refl s
  | head member _ ih => exact isa_of_super member ih

theorem Ascends.sizeOf_le {a s : Ty} (h : a.Ascends s) : sizeOf s ≤ sizeOf a := by
  induction h with
  | refl => exact Nat.le_refl _
  | tail _ member ih => exact Nat.le_of_lt (Nat.lt_of_lt_of_le (sizeOf_super_lt member) ih)

theorem ascends_of_mem_visit {seen : List Nat} {queue : List Ty} {s : Ty} (member : s ∈ visit seen queue) :
    ∃ q ∈ queue, q.Ascends s := by
  induction seen, queue using visit.induct with
  | case1 seen => rw [visit] at member; cases member
  | case2 seen t queue old ih =>
    rw [visit, if_pos old] at member
    obtain ⟨q, inside, ascends⟩ := ih member
    exact ⟨q, List.mem_cons_of_mem _ inside, ascends⟩
  | case3 seen t queue new ih =>
    rw [visit, if_neg new] at member
    rcases List.mem_cons.1 member with rfl | member
    · exact ⟨s, List.mem_cons_self, .refl⟩
    · obtain ⟨q, inside, ascends⟩ := ih member
      rcases List.mem_append.1 inside with inside | above
      · exact ⟨q, List.mem_cons_of_mem _ inside, ascends⟩
      · exact ⟨t, List.mem_cons_self, .head above ascends⟩

theorem ascends_ancestor {a s : Ty} (member : s ∈ a.ancestors) : a.Ascends s := by
  obtain ⟨q, inside, ascends⟩ := ascends_of_mem_visit member
  rwa [List.mem_singleton.1 inside] at ascends

/-- A type lies below all its ancestors. -/
theorem isa_ancestor {a s : Ty} (member : s ∈ a.ancestors) : a.isa s = true :=
  (ascends_ancestor member).isa

/-- The join of two types lies above both. -/
theorem isa_join (a b : Ty) : a.isa (join any a b) = true ∧ b.isa (join any a b) = true := by
  unfold join
  split
  next ba => exact ⟨isa_refl a, ba⟩
  split
  next ab => exact ⟨ab, isa_refl b⟩
  next =>
    cases found : a.ancestors.find? fun s => b.isa s with
    | none => exact ⟨isa_any a, isa_any b⟩
    | some s => exact ⟨isa_ancestor (List.mem_of_find?_eq_some found), List.find?_some found⟩

namespace Family

variable {D U : Ty → Prop}

theorem mem_of_ancestor (h : Family D U) {a s : Ty} (ha : U a) (member : s ∈ a.ancestors) : U s := by
  have ascends := ascends_ancestor member
  clear member
  induction ascends with
  | refl => exact ha
  | tail _ above ih => exact h.supers _ ih _ above

theorem join_mem (h : Family D U) {a b : Ty} (ha : U a) (hb : U b) : U (join any a b) := by
  unfold join
  split
  · exact ha
  split
  · exact hb
  · cases found : a.ancestors.find? fun s => b.isa s with
    | none => exact h.hasAny
    | some s => exact h.mem_of_ancestor ha (List.mem_of_find?_eq_some found)

end Family

namespace Universe

variable {U : Ty → Prop}

theorem hasAny (h : Universe U) : U any := h.toFamily.hasAny

theorem hasInt (h : Universe U) : U int := h.toFamily.hasInt

theorem not_opt (h : Universe U) {t item : Ty} (ht : U t) : ¬ t.Of .opt [item] :=
  fun of => (h.plain t ht).template of.1

/-- The rules that are left where `Opt` takes no part. -/
theorem isa_cases (h : Universe U) {a b : Ty} (ha : U a) (hb : U b) (below : a.isa b = true) :
    a = b ∨ b = any ∨ a.Below b ∨ ∃ s ∈ a.supers, s.isa b = true := by
  rcases h.toFamily.isa_cases ha hb below with same | top | ⟨item, of, -⟩ | rest
  · exact .inl same
  · exact .inr (.inl top)
  · exact absurd of (h.not_opt hb)
  · exact .inr (.inr rest)

/-- The subtype relation is transitive where `Opt` takes no part. -/
theorem isa_trans (h : Universe U) {a b c : Ty} (ha : U a) (hb : U b) (hc : U c)
    (ab : a.isa b = true) (bc : b.isa c = true) : a.isa c = true := by
  have upper : Upper U fun _ => True :=
    ⟨trivial, trivial, fun _ _ _ _ => trivial, fun b _ _ hb of _ => absurd of (h.not_opt hb)⟩
  exact h.toFamily.transUpTo upper _ a b c ha hb hc trivial (Nat.le_refl _) ab bc

/-! ## What lies below a type that nothing is made below -/

/-- Right above a type stand built-in types other than the integers, and instances of `Seq`. -/
theorem super_cases {s t : Ty} (h : t.Formed IsRecord) (member : s ∈ t.supers) :
    (s ∈ builtins ∧ s.template = none ∧ s.id ≠ int.id) ∨ s.template = some .seq := by
  cases h with
  | base built _ =>
    have shape := super_builtin built member
    simp only [List.mem_cons, List.not_mem_nil, or_false] at shape
    rcases shape with rfl | rfl | rfl | rfl | rfl | rfl | rfl <;>
      first | exact .inr rfl | exact .inl ⟨by simp [builtins], rfl, by decide⟩
  | declared _ _ _ record =>
    rw [record.supers] at member
    obtain rfl := List.mem_singleton.1 member
    exact .inl ⟨by simp [builtins], rfl, by decide⟩
  | inst _ above supers =>
    rw [supers] at member
    cases member with
    | head => cases above <;> exact .inl ⟨by simp [builtins], rfl, by decide⟩
    | tail _ inside =>
      cases above with
      | seq => cases inside
      | opt => cases inside
      | list of => exact .inr (List.mem_singleton.1 inside ▸ of.1)
      | iter of => exact .inr (List.mem_singleton.1 inside ▸ of.1)
      | table _ of => exact .inr (List.mem_singleton.1 inside ▸ of.1)
      | pair a b =>
        split at inside
        · obtain rfl := List.mem_singleton.1 inside
          exact .inl ⟨by simp [builtins], rfl, by decide⟩
        · cases inside

/-- If nothing has `c` right above it, only instances of the same template lie below `c`. -/
theorem isa_alone (h : Universe U) {a c : Ty} (ha : U a) (hc : U c) (top : c ≠ any)
    (alone : ∀ t, U t → ∀ s ∈ t.supers, s ≠ c ∧ ¬ s.Below c) (below : a.isa c = true) :
    a = c ∨ a.Below c := by
  rcases h.isa_cases ha hc below with same | all | between | ⟨s, member, sc⟩
  · exact .inl same
  · exact absurd all top
  · exact .inr between
  · have := sizeOf_super_lt member
    obtain ⟨other, apart⟩ := alone a ha s member
    rcases isa_alone h (h.supers a ha s member) hc top alone sc with same | between
    · exact absurd same other
    · exact absurd between apart
termination_by sizeOf a

/-- What lies below a pair is a pair, side by side. -/
theorem isa_pair (h : Universe U) {a c k v : Ty} (ha : U a) (hc : U c) (made : c.Of .pair [k, v])
    (below : a.isa c = true) :
    ∃ x y, a.Of .pair [x, y] ∧ x.isa k = true ∧ y.isa v = true := by
  have top : c ≠ any := fun same => by
    have none := made.1
    rw [same] at none
    cases none
  have alone : ∀ t, U t → ∀ s ∈ t.supers, s ≠ c ∧ ¬ s.Below c := by
    intro t ht s member
    rcases super_cases (h.formed t ht) member with ⟨-, none, -⟩ | seq
    · refine ⟨fun same => ?_, fun ⟨_, _, is, _⟩ => ?_⟩
      · rw [same, made.1] at none
        cases none
      · rw [none] at is
        cases is
    · refine ⟨fun same => ?_, fun ⟨s', c', is, is', same, _⟩ => ?_⟩
      · rw [same, made.1] at seq
        cases seq
      · obtain rfl := Option.some.inj (is.symm.trans seq)
        obtain rfl := Option.some.inj (is'.symm.trans made.1)
        cases same
  rcases h.isa_alone ha hc top alone below with rfl | between
  · exact ⟨k, v, made, isa_refl k, isa_refl v⟩
  · obtain ⟨t, is, is', each⟩ := between.same_template (h.formed a ha) (h.formed c hc)
    obtain rfl := Option.some.inj (is'.symm.trans made.1)
    rw [made.2] at each
    generalize args : a.args = xs at each
    cases each with
    | cons left rest =>
      cases rest with
      | cons right rest =>
        cases rest
        exact ⟨_, _, ⟨is, args⟩, left, right⟩

/-- A type that is no instance and stands right above nothing has nothing else below it. -/
theorem isa_lone (h : Universe U) {a c : Ty} (ha : U a) (hc : U c) (none : c.template = none)
    (top : c ≠ any) (alone : ∀ t, U t → ∀ s ∈ t.supers, s ≠ c) (below : a.isa c = true) : a = c := by
  have apart : ∀ s : Ty, ¬ s.Below c := fun s ⟨_, _, _, is, _⟩ => by
    rw [none] at is
    cases is
  rcases h.isa_alone ha hc top (fun t ht s member => ⟨alone t ht s member, apart s⟩) below with
    same | between
  · exact same
  · exact absurd between (apart a)

/-- Nothing else lies below a structure type. -/
theorem isa_record (h : Universe U) {a c : Ty} (ha : U a) (hc : U c) (none : c.template = none)
    {name : String} {fields : List String} (record : c.behavior = .record name fields)
    (below : a.isa c = true) : a = c := by
  have built : ∀ b ∈ builtins, b ≠ c := by
    intro b member same
    subst same
    simp only [builtins, List.mem_cons, List.not_mem_nil, or_false] at member
    rcases member with rfl | rfl | rfl | rfl | rfl | rfl | rfl | rfl | rfl | rfl | rfl | rfl | rfl |
      rfl | rfl | rfl | rfl | rfl | rfl | rfl | rfl | rfl | rfl | rfl | rfl | rfl | rfl | rfl | rfl |
      rfl | rfl | rfl <;> cases record
  refine h.isa_lone ha hc none (fun same => built any (by simp [builtins]) same.symm) ?_ below
  intro t ht s member same
  rcases super_cases (h.formed t ht) member with ⟨is, -⟩ | seq
  · exact built s is same
  · rw [same, none] at seq
    cases seq

/-- Nothing else lies below the integers. -/
theorem isa_int (h : Universe U) {a : Ty} (ha : U a) (below : a.isa int = true) : a = int := by
  refine h.isa_lone ha h.hasInt rfl (fun same => absurd (congrArg Ty.id same) (by decide)) ?_ below
  intro t ht s member same
  rcases super_cases (h.formed t ht) member with ⟨-, -, other⟩ | seq
  · exact other (congrArg Ty.id same)
  · rw [same] at seq
    cases seq

/-! ## Items of sequences -/

/-- The item type of an instance whose `Seq` stands right above it. -/
theorem elem_of_super (h : Universe U) {t raw s item : Ty} (ht : U t)
    (made : t.template = some raw) (apart : raw.id ≠ Ty.seq.id) (none : raw.template = none)
    (supers : t.supers = [raw, s]) (seq : s.Of .seq [item]) : t.elem = item := by
  have inside : s ∈ t.supers := by simp [supers]
  have below : raw ∈ t.supers := by simp [supers]
  have notInt : ¬ t.isa int = true := fun isa => by
    rw [h.isa_int ht isa] at made
    cases made
  have first : ¬ raw.id = t.id := fun same => by
    rw [h.apart raw t (h.supers t ht raw below) ht same, made] at none
    cases none
  have second : ¬ s.id = t.id := fun same => by
    rw [← h.apart s t (h.supers t ht s inside) ht same] at made
    obtain rfl := Option.some.inj (made.symm.trans seq.1)
    exact apart rfl
  have third : ¬ s.id = raw.id := fun same => by
    rw [← h.apart s raw (h.supers t ht s inside) (h.supers t ht raw below) same, seq.1] at none
    cases none
  have ancestors : t.ancestors = t :: raw :: s :: visit [s.id, raw.id, t.id] (raw.supers ++ s.supers) := by
    rw [Ty.ancestors, visit, if_neg (by simp), supers]
    simp [visit, first, second, third]
  unfold elem
  rw [if_neg notInt, ancestors]
  simp [made, none, seq.1, seq.2, apart]

/-- What stands for the items of a sequence is a type itself. -/
theorem elem_mem (h : Universe U) {t : Ty} (ht : U t) : U t.elem := by
  unfold elem
  split
  · exact h.hasInt
  split
  · rename_i s found
    have known := h.mem_of_ancestor ht (List.mem_of_find?_eq_some found)
    cases args : s.args with
    | nil => exact h.hasAny
    | cons a _ => exact h.args s known a (by simp [args])
  · exact h.hasAny

end Universe

end Catena.Ty
