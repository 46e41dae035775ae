import Catena.Engine
import Catena.Proofs.Compile
import Catena.Proofs.Types.Subtype
import Mathlib.Data.List.Nodup

/-!
# Registries in which a name stands for one type

An instance is looked up by its name, so the registry gives the right one only if names can be read
in one way: if no structure type has a name that looks like that of an instance. In such a registry
(`Registry.Sound`) asking for an instance answers a type with the template and the arguments asked
for, and the types that values can have make up a `Ty.Universe`.
-/

namespace Catena

namespace Ty

/-! ## Names -/

/-- The name of a type can be taken apart into the names of its template and its arguments. -/
inductive Spelled : Ty → Prop
  | word {t : Ty} : t.template = none → t.args = [] →
      (∀ c ∈ t.name.toList, TypeExpr.isNameChar c = true) → Spelled t
  | inst {t template : Ty} {args : List Ty} : t.Of template args → template ∈ templates →
      args.length = template.params → t.name = Registry.instanceName template args →
      (∀ a ∈ args, Spelled a) → Spelled t

/-- What can come behind a name inside another one. -/
def Behind (cs : List Char) : Prop :=
  ∀ c ∈ cs.head?, c = ',' ∨ c = '>'

/-- Words are told apart by where they end. -/
theorem word_unique {p : Char → Bool} {cs ds xs ys : List Char} (hc : ∀ c ∈ cs, p c = true)
    (hd : ∀ d ∈ ds, p d = true) (hx : ∀ x ∈ xs.head?, p x = false) (hy : ∀ y ∈ ys.head?, p y = false)
    (same : cs ++ xs = ds ++ ys) : cs = ds ∧ xs = ys := by
  induction cs generalizing ds with
  | nil =>
    cases ds with
    | nil => exact ⟨rfl, same⟩
    | cons d ds =>
      rw [List.nil_append] at same
      have stops := hx d (by simp [same])
      simp [hd] at stops
  | cons c cs ih =>
    cases ds with
    | nil =>
      rw [List.nil_append] at same
      have stops := hy c (by simp [← same])
      simp [hc] at stops
    | cons d ds =>
      simp only [List.cons_append, List.cons.injEq] at same
      have rest := ih (fun c member => hc c (by simp [member])) (fun d member => hd d (by simp [member]))
        same.2
      exact ⟨by rw [same.1, rest.1], rest.2⟩

theorem Behind.stops {xs : List Char} (h : Behind xs) : ∀ x ∈ xs.head?, TypeExpr.isNameChar x = false := by
  intro x member
  rcases h x member with rfl | rfl <;> rfl

theorem template_word {t : Ty} (h : t ∈ templates) :
    ∀ c ∈ t.name.toList, TypeExpr.isNameChar c = true := by
  have words : ∀ t ∈ templates, t.name.toList.all TypeExpr.isNameChar = true := by decide +kernel
  exact List.all_eq_true.1 (words t h)

theorem template_named {s t : Ty} (hs : s ∈ templates) (ht : t ∈ templates) (h : s.name = t.name) :
    s = t := by
  have ids : ∀ s ∈ templates, ∀ t ∈ templates, s.name = t.name → s.id = t.id := by decide +kernel
  exact template_ext hs ht (ids s hs t ht h)

/-- The text of the arguments of an instance, and what comes behind it. -/
def argText (args : List Ty) (xs : List Char) : List Char :=
  (String.intercalate "," (args.map (·.name))).toList ++ '>' :: xs

theorem instanceName_text (template : Ty) (args : List Ty) (xs : List Char) :
    (Registry.instanceName template args).toList ++ xs =
      template.name.toList ++ '<' :: argText args xs := by
  simp [Registry.instanceName, argText, String.toList_append]

theorem argText_one (a : Ty) (xs : List Char) : argText [a] xs = a.name.toList ++ '>' :: xs := rfl

theorem argText_two (a b : Ty) (xs : List Char) :
    argText [a, b] xs = a.name.toList ++ ',' :: (b.name.toList ++ '>' :: xs) := by
  simp [argText, String.toList_append]

/-- Templates take one argument or two. -/
theorem args_cases {template : Ty} {args : List Ty} (member : template ∈ templates)
    (full : args.length = template.params) : (∃ a, args = [a]) ∨ ∃ a b, args = [a, b] := by
  have counts : ∀ t ∈ templates, t.params = 1 ∨ t.params = 2 := by decide
  rcases counts template member with one | two
  · exact .inl (List.length_eq_one_iff.1 (full.trans one))
  · exact .inr (List.length_eq_two.1 (full.trans two))

/-- Names can be read in one way. -/
theorem name_unique {a b : Ty} (ha : a.Spelled) (hb : b.Spelled) {xs ys : List Char}
    (hx : Behind xs) (hy : Behind ys) (same : a.name.toList ++ xs = b.name.toList ++ ys) :
    a.name = b.name ∧ xs = ys ∧ a.template = b.template ∧
      a.args.map (·.name) = b.args.map (·.name) := by
  induction ha generalizing b xs ys with
  | word none empty plain =>
    cases hb with
    | word none' empty' plain' =>
      have read := word_unique plain plain' hx.stops hy.stops same
      exact ⟨String.toList_inj.1 read.1, read.2, none.trans none'.symm, by rw [empty, empty']⟩
    | inst of member full named _ =>
      rw [named, instanceName_text] at same
      have read := word_unique plain (template_word member) hx.stops (by simp [TypeExpr.isNameChar]) same
      rcases hx '<' (by simp [read.2]) with wrong | wrong <;> cases wrong
  | @inst a template args of member full named _ ih =>
    rw [named, instanceName_text] at same
    cases hb with
    | word none empty plain =>
      have read := word_unique (template_word member) plain (by simp [TypeExpr.isNameChar]) hy.stops same
      rcases hy '<' (by simp [← read.2]) with wrong | wrong <;> cases wrong
    | @inst _ template' args' of' member' full' named' spelled =>
      rw [named', instanceName_text] at same
      have read := word_unique (template_word member) (template_word member')
        (by simp [TypeExpr.isNameChar]) (by simp [TypeExpr.isNameChar]) same
      obtain rfl := template_named member member' (String.toList_inj.1 read.1)
      have inner : argText args xs = argText args' ys := (List.cons.inj read.2).2
      have close (zs : List Char) : Behind ('>' :: zs) := by simp [Behind]
      have comma (zs : List Char) : Behind (',' :: zs) := by simp [Behind]
      suffices h : args.map (·.name) = args'.map (·.name) ∧ xs = ys by
        refine ⟨?_, h.2, of.1.trans of'.1.symm, by rw [of.2, of'.2, h.1]⟩
        rw [named, named', Registry.instanceName, Registry.instanceName, h.1]
      rcases args_cases member full with ⟨x, rfl⟩ | ⟨x, x', rfl⟩ <;>
        rcases args_cases member' full' with ⟨y, rfl⟩ | ⟨y, y', rfl⟩
      · rw [argText_one, argText_one] at inner
        have first := ih x (by simp) (spelled y (by simp)) (close _) (close _) inner
        exact ⟨by simp [first.1], (List.cons.inj first.2.1).2⟩
      · exact absurd (full.trans full'.symm) (by simp)
      · exact absurd (full.trans full'.symm) (by simp)
      · rw [argText_two, argText_two] at inner
        have first := ih x (by simp) (spelled y (by simp)) (comma _) (comma _) inner
        have second := ih x' (by simp) (spelled y' (by simp)) (close _) (close _)
          (List.cons.inj first.2.1).2
        exact ⟨by simp [first.1, second.1], (List.cons.inj second.2.1).2⟩

/-- Types with one name have the template and the names of the arguments in common. -/
theorem name_inj {a b : Ty} (ha : a.Spelled) (hb : b.Spelled) (same : a.name = b.name) :
    a.template = b.template ∧ a.args.map (·.name) = b.args.map (·.name) := by
  have read := name_unique ha hb (by simp [Behind]) (by simp [Behind])
    (congrArg (fun n : String => n.toList ++ []) same)
  exact read.2.2

theorem template_mem_builtins {t : Ty} (member : t ∈ templates) : t ∈ builtins := by
  simp only [templates, List.mem_cons, List.not_mem_nil, or_false] at member
  rcases member with rfl | rfl | rfl | rfl | rfl | rfl <;> simp [builtins]

/-- What is formed as a template is one. -/
theorem mem_templates {D : Ty → Prop} {t : Ty} (formed : t.Formed D) (is : t.isTemplate = true) : t ∈ templates := by
  simp only [isTemplate, Bool.and_eq_true, decide_eq_true_eq, Option.isNone_iff_eq_none] at is
  cases formed with
  | base built _ =>
    have some := is.1
    simp only [builtins, List.mem_cons, List.not_mem_nil, or_false] at built
    rcases built with rfl | rfl | rfl | rfl | rfl | rfl | rfl | rfl | rfl | rfl | rfl | rfl | rfl |
      rfl | rfl | rfl | rfl | rfl | rfl | rfl | rfl | rfl | rfl | rfl | rfl | rfl | rfl | rfl | rfl |
      rfl | rfl | rfl <;> first | simp [templates]; done | exact absurd some (by decide)
  | declared _ _ params =>
    rw [params] at is
    exact absurd is.1 (by decide)
  | inst of =>
    rw [of.1] at is
    cases is.2

end Ty

namespace Registry

/-- The registry has the type under its name. -/
def Knows (r : Registry) (t : Ty) : Prop :=
  r.types.find? t.name = some t

/-- Every name stands for one type, formed out of types that have names themselves. Types are declared in
the way that `D` says. -/
structure Sound (D : Ty → Prop) (r : Registry) : Prop where
  named : ∀ name t, r.types.find? name = some t → t.name = name
  below : ∀ t, r.Knows t → t.id < r.nextId
  apart : ∀ s t, r.Knows s → r.Knows t → s.id = t.id → s = t
  formed : ∀ t, r.Knows t → t.Formed D
  spelled : ∀ t, r.Knows t → t.Spelled
  supers : ∀ t, r.Knows t → ∀ s ∈ t.supers, r.Knows s
  args : ∀ t, r.Knows t → ∀ a ∈ t.args, r.Knows a
  base : ∀ t ∈ Ty.builtins, r.Knows t

theorem Grown.knows {r r' : Registry} (h : r.Grown r') {t : Ty} (known : r.Knows t) : r'.Knows t :=
  h.types _ t known

namespace Sound

variable {D : Ty → Prop} {r : Registry}

theorem knows (h : Sound D r) {name : String} {t : Ty} (found : r.types.find? name = some t) :
    r.Knows t := by
  rw [Knows, h.named name t found, found]

theorem ext (_ : Sound D r) {s t : Ty} (hs : r.Knows s) (ht : r.Knows t) (same : s.name = t.name) :
    s = t := by
  rw [Knows, same] at hs
  exact Option.some.inj (hs.symm.trans ht)

theorem ext_names (h : Sound D r) {as bs : List Ty} (ha : ∀ a ∈ as, r.Knows a)
    (hb : ∀ b ∈ bs, r.Knows b) (same : as.map (·.name) = bs.map (·.name)) : as = bs := by
  induction as generalizing bs with
  | nil => cases bs <;> simp_all
  | cons a as ih =>
    cases bs with
    | nil => simp at same
    | cons b bs =>
      simp only [List.map_cons, List.cons.injEq] at same
      rw [h.ext (ha a (by simp)) (hb b (by simp)) same.1,
        ih (fun a member => ha a (by simp [member])) (fun b member => hb b (by simp [member])) same.2]

/-! ## Types that `Opt` takes no part in -/

theorem plain_above (h : Sound D r) {t template : Ty} (known : r.Knows t)
    (made : t.template = some template) (other : template ≠ .opt)
    (args : ∀ a ∈ t.args, a.Plain) (above : ∀ s ∈ t.supers, s ≠ template → s.Plain) : t.Plain := by
  have member := Ty.template_mem (h.formed t known) made
  refine .mk (by rw [made]; exact fun same => other (Option.some.inj same)) (fun s inside => ?_) args
  by_cases same : s = template
  · exact same ▸ Ty.plain_builtin (Ty.template_mem_builtins member)
  · exact above s inside same

theorem plain_seq (h : Sound D r) {s item : Ty} (known : r.Knows s) (of : s.Of .seq [item])
    (plain : item.Plain) : s.Plain := by
  obtain ⟨above, is, supers⟩ := Ty.instance_above (h.formed s known) of.1
  rw [of.2] at is
  cases is
  refine h.plain_above known of.1 (fun same => absurd (congrArg Ty.id same) (by decide))
    (by simpa [of.2] using plain) fun t inside other => ?_
  rw [supers] at inside
  exact absurd (List.mem_singleton.1 inside) other

theorem plain_pair (h : Sound D r) {s k v : Ty} (known : r.Knows s) (of : s.Of .pair [k, v])
    (plain : k.Plain) (plain' : v.Plain) : s.Plain := by
  obtain ⟨above, is, supers⟩ := Ty.instance_above (h.formed s known) of.1
  rw [of.2] at is
  cases is
  refine h.plain_above known of.1 (fun same => absurd (congrArg Ty.id same) (by decide))
    (by simp [of.2, plain, plain']) fun t inside other => ?_
  rw [supers] at inside
  rcases List.mem_cons.1 inside with same | inside
  · exact absurd same other
  · split at inside
    · exact List.mem_singleton.1 inside ▸ Ty.plain_builtin (by simp [Ty.builtins])
    · cases inside

/-- An instance of a template other than `Opt` is free of it if its arguments are. -/
theorem plain_inst (h : Sound D r) {t template : Ty} {args : List Ty} (known : r.Knows t)
    (of : t.Of template args) (other : template ≠ .opt) (plain : ∀ a ∈ args, a.Plain) : t.Plain := by
  obtain ⟨above, is, supers⟩ := Ty.instance_above (h.formed t known) of.1
  refine h.plain_above known of.1 other (by simpa [of.2] using plain) fun s inside apart => ?_
  have knows := h.supers t known s inside
  rw [supers] at inside
  replace inside := List.mem_of_ne_of_mem apart inside
  rw [of.2] at is
  cases is with
  | seq => cases inside
  | opt => cases inside
  | list seq =>
    obtain rfl := List.mem_singleton.1 inside
    exact h.plain_seq knows seq (plain _ (by simp))
  | iter seq =>
    obtain rfl := List.mem_singleton.1 inside
    exact h.plain_seq knows seq (plain _ (by simp))
  | table entry seq =>
    obtain rfl := List.mem_singleton.1 inside
    have entryKnown := h.args s knows _ (seq.2 ▸ List.mem_singleton_self _)
    exact h.plain_seq knows seq (h.plain_pair entryKnown entry (plain _ (by simp)) (plain _ (by simp)))
  | pair a b =>
    split at inside
    · exact List.mem_singleton.1 inside ▸ Ty.plain_builtin (by simp [Ty.builtins])
    · cases inside

/-- All types of the registry are a family. -/
theorem toFamily (h : Sound D r) : Ty.Family D r.Knows where
  formed := h.formed
  supers := h.supers
  args := h.args
  apart := h.apart
  named := fun _ _ known known' => h.ext known known'
  base := h.base

/-- The types of values are a universe. -/
theorem toUniverse (h : Sound Ty.IsRecord r) : Ty.Universe fun t => r.Knows t ∧ t.Plain where
  formed := fun t known => h.formed t known.1
  plain := fun _ known => known.2
  supers := fun t known s member => ⟨h.supers t known.1 s member, known.2.super member⟩
  args := fun t known a member => ⟨h.args t known.1 a member, known.2.arg member⟩
  apart := fun s t known known' => h.apart s t known.1 known'.1
  named := fun _ _ known known' => h.ext known.1 known'.1
  base := fun t built => ⟨h.base t built, Ty.plain_builtin built⟩

/-! ## New types -/

/-- Ids may be used up, and everything but types may change. -/
theorem of_types {r' : Registry} (h : Sound D r) (types : r'.types = r.types)
    (ids : r.nextId ≤ r'.nextId) : r'.Sound D := by
  have same : ∀ t, r'.Knows t ↔ r.Knows t := fun t => by rw [Knows, Knows, types]
  constructor
  · intro name t found
    rw [types] at found
    exact h.named name t found
  · exact fun t known => Nat.lt_of_lt_of_le (h.below t ((same t).1 known)) ids
  · exact fun s t known known' => h.apart s t ((same s).1 known) ((same t).1 known')
  · exact fun t known => h.formed t ((same t).1 known)
  · exact fun t known => h.spelled t ((same t).1 known)
  · exact fun t known s member => (same s).2 (h.supers t ((same t).1 known) s member)
  · exact fun t known a member => (same a).2 (h.args t ((same t).1 known) a member)
  · exact fun t built => (same t).2 (h.base t built)

theorem knows_addType {t s : Ty} (fresh : r.types.find? t.name = none) :
    (r.freshId.2.addType t).Knows s ↔ s = t ∨ r.Knows s := by
  simp only [Knows, addType, freshId, Dict.find?_insert]
  constructor
  · intro found
    split at found
    · exact .inl (Option.some.inj found).symm
    · exact .inr found
  · rintro (rfl | known)
    · rw [if_pos rfl]
    · rw [if_neg, known]
      intro same
      rw [← same, fresh] at known
      cases known

/-- A type formed out of known ones may be added under a new name and the next id. -/
theorem addType (h : Sound D r) {t : Ty} (fresh : r.types.find? t.name = none) (id : t.id = r.nextId)
    (formed : t.Formed D) (spelled : t.Spelled) (supers : ∀ s ∈ t.supers, r.Knows s)
    (args : ∀ a ∈ t.args, r.Knows a) : (r.freshId.2.addType t).Sound D := by
  have knows (s : Ty) := knows_addType (s := s) fresh
  have old {s : Ty} (known : r.Knows s) : (r.freshId.2.addType t).Knows s := (knows s).2 (.inr known)
  constructor
  · intro name s found
    simp only [Registry.addType, freshId, Dict.find?_insert] at found
    split at found
    · rename_i same
      exact (Option.some.inj found) ▸ same
    · exact h.named name s found
  · intro s known
    rcases (knows s).1 known with rfl | known
    · exact id ▸ Nat.lt_succ_self _
    · exact Nat.lt_succ_of_lt (h.below s known)
  · intro s s' known known' same
    rcases (knows s).1 known with rfl | before <;> rcases (knows s').1 known' with rfl | before'
    · rfl
    · exact absurd (same.symm.trans id) (Nat.ne_of_lt (h.below s' before'))
    · exact absurd (same.trans id) (Nat.ne_of_lt (h.below s before))
    · exact h.apart s s' before before' same
  · intro s known
    rcases (knows s).1 known with rfl | known
    · exact formed
    · exact h.formed s known
  · intro s known
    rcases (knows s).1 known with rfl | known
    · exact spelled
    · exact h.spelled s known
  · intro s known p member
    rcases (knows s).1 known with rfl | known
    · exact old (supers p member)
    · exact old (h.supers s known p member)
  · intro s known a member
    rcases (knows s).1 known with rfl | known
    · exact old (args a member)
    · exact old (h.args s known a member)
  · exact fun s built => old (h.base s built)

/-! ## Instances -/

/-- A registry in which the instance of a template can be looked up. -/
def Has (D : Ty → Prop) (r' : Registry) (template : Ty) (args : List Ty) (t : Ty) : Prop :=
  r'.Sound D ∧ r'.Knows t ∧ t.Of template args

variable {template : Ty} {args above : List Ty}

/-- What has the name of an instance is the instance. -/
theorem of_name (h : Sound D r) (member : template ∈ Ty.templates) (known : ∀ a ∈ args, r.Knows a)
    (full : args.length = template.params) {t : Ty}
    (found : r.types.find? (instanceName template args) = some t) : t.Of template args := by
  have knows := h.knows found
  let made : Ty := ⟨0, instanceName template args, some template, [], args, 0, .plain⟩
  have spelled : made.Spelled :=
    .inst ⟨rfl, rfl⟩ member full rfl fun a inside => h.spelled a (known a inside)
  have read := Ty.name_inj (h.spelled t knows) spelled (h.named _ t found)
  exact ⟨read.1, h.ext_names (h.args t knows) known read.2⟩

theorem addInstance (h : Sound D r) (member : template ∈ Ty.templates) (known : ∀ a ∈ args, r.Knows a)
    (full : args.length = template.params) (is : Ty.Above template args above)
    (knows : ∀ s ∈ above, r.Knows s) (fresh : r.types.find? (instanceName template args) = none) :
    Has D (r.addInstance template args above).2 template args (r.addInstance template args above).1 := by
  let t := (r.addInstance template args above).1
  refine ⟨h.addType (t := t) fresh rfl (.inst ⟨rfl, rfl⟩ is rfl rfl) ?_ ?_ known,
    (knows_addType (t := t) fresh).2 (.inl rfl), rfl, rfl⟩
  · exact .inst ⟨rfl, rfl⟩ member full rfl fun a inside => h.spelled a (known a inside)
  · intro s inside
    rcases List.mem_cons.1 inside with rfl | inside
    · exact h.base _ (Ty.template_mem_builtins member)
    · exact knows s inside

theorem deriveWith (h : Sound D r) (member : template ∈ Ty.templates) (known : ∀ a ∈ args, r.Knows a)
    (full : args.length = template.params) (is : Ty.Above template args above)
    (knows : ∀ s ∈ above, r.Knows s) :
    Has D (r.deriveWith template args above).2 template args (r.deriveWith template args above).1 := by
  unfold Registry.deriveWith
  split
  · rename_i found
    exact ⟨h, h.knows found, h.of_name member known full found⟩
  · rename_i fresh
    exact h.addInstance member known full is knows fresh

theorem deriveSeq (h : Sound D r) {item : Ty} (known : r.Knows item) :
    Has D (r.deriveSeq item).2 .seq [item] (r.deriveSeq item).1 :=
  h.deriveWith (by simp [Ty.templates]) (by simpa using known) rfl (.seq item) (by simp)

theorem derivePair (h : Sound D r) {k v : Ty} (hk : r.Knows k) (hv : r.Knows v) :
    Has D (r.derivePair [k, v]).2 .pair [k, v] (r.derivePair [k, v]).1 := by
  have same : ([k, v].all fun a => a.isa .cmp) = (k.isa .cmp && v.isa .cmp) := by simp
  unfold Registry.derivePair
  rw [same]
  refine h.deriveWith (by simp [Ty.templates]) (by simp [hk, hv]) rfl (.pair k v) fun s inside => ?_
  split at inside
  · exact List.mem_singleton.1 inside ▸ h.base _ (by simp [Ty.builtins])
  · cases inside

/-- A sequence of items, its `Seq` made first. -/
theorem deriveOver (h : Sound D r) (member : template ∈ Ty.templates) (known : ∀ a ∈ args, r.Knows a)
    (full : args.length = template.params) {item : Ty} (knows : r.Knows item)
    (is : ∀ s : Ty, s.Of .seq [item] → Ty.Above template args [s])
    (other : instanceName .seq [item] ≠ instanceName template args)
    (fresh : r.types.find? (instanceName template args) = none) :
    let (s, r') := r.deriveSeq item
    Has D (r'.addInstance template args [s]).2 template args (r'.addInstance template args [s]).1 := by
  obtain ⟨sound, seqKnown, of⟩ := h.deriveSeq knows
  have grown := deriveWith_grown r .seq [item] []
  exact sound.addInstance member (fun a inside => grown.knows (known a inside)) full (is _ of)
    (fun s inside => List.mem_singleton.1 inside ▸ seqKnown) (deriveWith_other other fresh)

theorem derive (h : Sound D r) (member : template ∈ Ty.templates) (known : ∀ a ∈ args, r.Knows a)
    (full : args.length = template.params) :
    Has D (r.derive template args).2 template args (r.derive template args).1 := by
  unfold Registry.derive
  cases found : r.types.find? (instanceName template args) with
  | some t => exact ⟨h, h.knows found, h.of_name member known full found⟩
  | none =>
    dsimp only
    have letter {s : Ty} (args' : List Ty) {c : Char} {cs : List Char}
        (name : s.name.toList = c :: cs) (apart : 'S' ≠ c) :
        instanceName .seq args' ≠ instanceName s args :=
      instanceName_ne args' args rfl name apart
    simp only [Ty.templates, List.mem_cons, List.not_mem_nil, or_false] at member
    rcases member with rfl | rfl | rfl | rfl | rfl | rfl
    · obtain ⟨item, rfl⟩ := List.length_eq_one_iff.1 full
      exact h.addInstance (by simp [Ty.templates]) known full (.seq item) (List.forall_mem_nil _) found
    · obtain ⟨k, v, rfl⟩ := List.length_eq_two.1 full
      exact h.derivePair (known k (by simp)) (known v (by simp))
    · obtain ⟨item, rfl⟩ := List.length_eq_one_iff.1 full
      exact h.deriveOver (by simp [Ty.templates]) known full (known item (by simp)) (fun _ => .list)
        (letter _ rfl (by decide)) found
    · obtain ⟨k, v, rfl⟩ := List.length_eq_two.1 full
      obtain ⟨sound, entryKnown, of⟩ := h.derivePair (known k (by simp)) (known v (by simp))
      have grown : r.Grown (r.derivePair [k, v]).2 := deriveWith_grown r _ _ _
      have fresh : (r.derivePair [k, v]).2.types.find? (instanceName .table [k, v]) = none :=
        deriveWith_other (instanceName_ne _ _ rfl rfl (by decide)) found
      exact sound.deriveOver (by simp [Ty.templates]) (fun a inside => grown.knows (known a inside)) full
        entryKnown (fun _ => .table of) (letter _ rfl (by decide)) fresh
    · obtain ⟨item, rfl⟩ := List.length_eq_one_iff.1 full
      exact h.addInstance (by simp [Ty.templates]) known full (.opt item) (List.forall_mem_nil _) found
    · obtain ⟨item, rfl⟩ := List.length_eq_one_iff.1 full
      exact h.deriveOver (by simp [Ty.templates]) known full (known item (by simp)) (fun _ => .iter)
        (letter _ rfl (by decide)) found

/-! ## Type expressions -/

theorem instantiate (h : Sound D r) {t : Ty} {r' : Registry} (knows : r.Knows template)
    (known : ∀ a ∈ args, r.Knows a) (made : r.instantiate template args = .ok (t, r')) :
    Has D r' template (padArgs template args) t := by
  unfold Registry.instantiate at made
  split at made
  · cases made
  rename_i is
  split at made
  · cases made
  rename_i few
  have derived : r.derive template (padArgs template args) = (t, r') := Except.ok.inj made
  have member := Ty.mem_templates (h.formed template knows) (by simpa using is)
  have padded : ∀ a ∈ padArgs template args, r.Knows a := by
    intro a inside
    rcases List.mem_append.1 inside with inside | inside
    · exact known a inside
    · exact (List.eq_of_mem_replicate inside) ▸ h.base _ (by simp [Ty.builtins])
  have full : (padArgs template args).length = template.params := by
    simp [padArgs]
    omega
  have has := h.derive member padded full
  rwa [derived] at has

theorem instantiateNamed (h : Sound D r) {name : String} {t : Ty} {r' : Registry}
    (known : ∀ a ∈ args, r.Knows a) (made : r.instantiateNamed name args = .ok (t, r')) :
    r'.Sound D ∧ r'.Knows t := by
  unfold Registry.instantiateNamed at made
  split at made
  · cases made
  · rename_i template found
    have has := h.instantiate (h.knows found) known made
    exact ⟨has.1, has.2.1⟩

mutual

/-- A type expression stands for a known type, if for any. -/
theorem resolve (r : Registry) (h : Sound D r) : (e : TypeExpr) →
    (e.resolve r).2.Sound D ∧ ∀ t, (e.resolve r).1 = .ok t → (e.resolve r).2.Knows t
  | .named name => by
    rw [TypeExpr.resolve]
    cases found : r.types.find? name with
    | none => exact ⟨h, nofun⟩
    | some t => exact ⟨h, fun s same => Except.ok.inj same ▸ h.knows found⟩
  | .generic name args => by
    have each := resolveEach r h args
    rw [TypeExpr.resolve]
    rcases made : TypeExpr.resolveEach r args with ⟨_ | ts, r'⟩
    · rw [made] at each
      exact ⟨each.1, nofun⟩
    · rw [made] at each
      dsimp only
      cases made : r'.instantiateNamed name ts with
      | error f => exact ⟨each.1, nofun⟩
      | ok both =>
        have has := each.1.instantiateNamed (each.2 ts rfl) made
        exact ⟨has.1, fun s same => Except.ok.inj same ▸ has.2⟩
  | .same n => ⟨h, nofun⟩
  | .argOf n k => ⟨h, nofun⟩

theorem resolveEach (r : Registry) (h : Sound D r) : (es : List TypeExpr) →
    (TypeExpr.resolveEach r es).2.Sound D ∧
      ∀ ts, (TypeExpr.resolveEach r es).1 = .ok ts →
        ∀ t ∈ ts, (TypeExpr.resolveEach r es).2.Knows t
  | [] => ⟨h, fun ts same => by cases same; nofun⟩
  | e :: es => by
    have first := resolve r h e
    rw [TypeExpr.resolveEach]
    rcases made : e.resolve r with ⟨_ | t, r'⟩
    · rw [made] at first
      exact ⟨first.1, nofun⟩
    · rw [made] at first
      have rest := resolveEach r' first.1 es
      have grown := (TypeExpr.resolveEach_adds r' es).grown
      dsimp only
      rcases made' : TypeExpr.resolveEach r' es with ⟨_ | ts, r''⟩
      · rw [made'] at rest
        exact ⟨rest.1, nofun⟩
      · rw [made'] at rest grown
        refine ⟨rest.1, fun us same s inside => ?_⟩
        cases same
        rcases List.mem_cons.1 inside with rfl | inside
        · exact grown.knows (first.2 s rfl)
        · exact rest.2 ts rfl s inside

end

/-- A type may be declared under a name that is a word, below known types. -/
theorem declareType (h : Sound D r) {name : String} (word : ∀ c ∈ name.toList, TypeExpr.isNameChar c = true)
    {supers : List Ty} (known : ∀ s ∈ supers, r.Knows s) {behavior : Behavior} {t : Ty} {r' : Registry}
    (made : r.declareType name supers behavior = .ok (t, r')) (is : D t) :
    r'.Sound D ∧ r'.Knows t ∧ r.nextId ≤ t.id := by
  unfold Registry.declareType at made
  split at made
  · cases made
  rename_i free
  have fresh : r.types.find? name = none := by simpa [Dict.contains] using free
  let s : Ty := ⟨r.nextId, name, none, if supers.isEmpty then [.any] else supers, [], 0, behavior⟩
  obtain ⟨rfl, rfl⟩ := Prod.mk.inj (Except.ok.inj made)
  refine ⟨?_, (knows_addType (t := s) fresh).2 (.inl rfl), Nat.le_refl _⟩
  refine h.addType (t := s) fresh rfl (.declared rfl rfl rfl is) (.word rfl rfl word) ?_
    (List.forall_mem_nil _)
  intro p inside
  replace inside : p ∈ if supers.isEmpty then [.any] else supers := inside
  split at inside
  · exact List.mem_singleton.1 inside ▸ h.base _ (by simp [Ty.builtins])
  · exact known p inside

/-- A structure type may be declared under a name that is a word. -/
theorem declareRecord (h : Sound Ty.IsRecord r) {name : String}
    (plain : ∀ c ∈ name.toList, TypeExpr.isNameChar c = true)
    {word : String} {fields : List String} {t : Ty} {r' : Registry}
    (made : r.declareType name [.struct] (.record word fields) = .ok (t, r')) :
    r'.Sound Ty.IsRecord ∧ r'.Knows t ∧ r.nextId ≤ t.id ∧ t.template = none ∧
      t.behavior = .record word fields := by
  have shape : t.supers = [.struct] ∧ t.template = none ∧ t.behavior = .record word fields := by
    unfold Registry.declareType at made
    split at made
    · cases made
    · obtain ⟨rfl, -⟩ := Prod.mk.inj (Except.ok.inj made)
      exact ⟨rfl, rfl, rfl⟩
  have below : ∀ s ∈ [Ty.struct], r.Knows s := fun s inside =>
    List.mem_singleton.1 inside ▸ h.base _ (by simp [Ty.builtins])
  obtain ⟨sound, knows, id⟩ := h.declareType plain below made ⟨shape.1, word, fields, shape.2.2⟩
  exact ⟨sound, knows, id, shape.2⟩

/-! ## The first registry -/

theorem find?_addTypes {ts : List Ty} (apart : (ts.map (·.name)).Nodup) (r : Registry) {name : String} {t : Ty}
    (h : (ts.foldl Registry.addType r).types.find? name = some t) :
    (t ∈ ts ∧ t.name = name) ∨ r.types.find? name = some t := by
  induction ts generalizing r with
  | nil => exact .inr h
  | cons s ts ih =>
    simp only [List.map_cons, List.nodup_cons] at apart
    rcases ih apart.2 _ h with ⟨member, named⟩ | found
    · exact .inl ⟨List.mem_cons_of_mem _ member, named⟩
    · rw [Registry.addType, Dict.find?_insert] at found
      split at found
      · rename_i named
        obtain rfl := Option.some.inj found
        exact .inl ⟨List.mem_cons_self, named⟩
      · exact .inr found

theorem find?_of_mem {ts : List Ty} (apart : (ts.map (·.name)).Nodup) (r : Registry) {t : Ty}
    (h : t ∈ ts ∨ t.name ∉ ts.map (·.name) ∧ r.Knows t) : (ts.foldl Registry.addType r).Knows t := by
  induction ts generalizing r with
  | nil => simpa using h
  | cons s ts ih =>
    simp only [List.map_cons, List.nodup_cons, List.mem_cons, not_or] at apart h
    refine ih apart.2 _ ?_
    rcases h with (rfl | member) | ⟨⟨other, outside⟩, known⟩
    · refine .inr ⟨apart.1, ?_⟩
      rw [Knows, Registry.addType, Dict.find?_insert, if_pos rfl]
    · exact .inl member
    · refine .inr ⟨outside, ?_⟩
      rw [Knows, Registry.addType, Dict.find?_insert, if_neg (Ne.symm other), known]

theorem names_nodup : (Ty.builtins.map (·.name)).Nodup := by decide +kernel

theorem boot_knows (t : Ty) : Engine.bootRegistry.Knows t ↔ t ∈ Ty.builtins := by
  constructor
  · intro known
    rcases find?_addTypes names_nodup {} known with found | found
    · exact found.1
    · cases found
  · exact fun member => find?_of_mem names_nodup {} (.inl member)

theorem builtin_formed {t : Ty} (built : t ∈ Ty.builtins) : t.Formed D ∧ t.Spelled := by
  by_cases none : t.template = none
  · have words : ∀ t ∈ Ty.builtins, t.template.isNone = true →
        t.args.length = 0 ∧ t.name.toList.all TypeExpr.isNameChar = true := by decide +kernel
    have word := words t built (by rw [none]; rfl)
    exact ⟨.base built none,
      .word none (List.length_eq_zero_iff.1 word.1) (List.all_eq_true.1 word.2)⟩
  · have leaves : ∀ a ∈ [Ty.char, Ty.wchar, Ty.int], a.Spelled := by
      intro a member
      have words : ∀ a ∈ [Ty.char, Ty.wchar, Ty.int],
          a.name.toList.all TypeExpr.isNameChar = true := by decide +kernel
      refine .word ?_ ?_ (List.all_eq_true.1 (words a member)) <;>
      · simp only [List.mem_cons, List.not_mem_nil, or_false] at member
        rcases member with rfl | rfl | rfl <;> rfl
    have seqs : t ∈ [Ty.seqChar, Ty.seqWchar, Ty.seqInt] := by
      simp only [Ty.builtins, List.mem_cons, List.not_mem_nil, or_false] at built
      rcases built with rfl | rfl | rfl | rfl | rfl | rfl | rfl | rfl | rfl | rfl | rfl | rfl | rfl |
        rfl | rfl | rfl | rfl | rfl | rfl | rfl | rfl | rfl | rfl | rfl | rfl | rfl | rfl | rfl | rfl |
        rfl | rfl | rfl <;> first | exact absurd rfl none | simp
    simp only [List.mem_cons, List.not_mem_nil, or_false] at seqs
    rcases seqs with rfl | rfl | rfl <;>
      exact ⟨.inst ⟨rfl, rfl⟩ (.seq _) rfl rfl,
        .inst ⟨rfl, rfl⟩ (by simp [Ty.templates]) rfl rfl fun a member => leaves a (Ty.arg_builtin built member)⟩

/-- Every engine starts with a registry in which names stand for one type. -/
theorem boot : Engine.bootRegistry.Sound D where
  named := fun name t found => by
    rcases find?_addTypes names_nodup {} found with known | known
    · exact known.2
    · cases known
  below := fun t known => by
    have low : ∀ t ∈ Ty.builtins, t.id < Engine.bootRegistry.nextId := by decide
    exact low t ((boot_knows t).1 known)
  apart := fun s t known known' same => by
    have apart : (Ty.builtins.map (·.id)).Nodup := by decide
    exact List.inj_on_of_nodup_map apart ((boot_knows s).1 known) ((boot_knows t).1 known') same
  formed := fun t known => (builtin_formed ((boot_knows t).1 known)).1
  spelled := fun t known => (builtin_formed (D := D) ((boot_knows t).1 known)).2
  supers := fun t known s member =>
    (boot_knows s).2 (Ty.super_mem_builtins ((boot_knows t).1 known) member)
  args := fun t known a member =>
    (boot_knows a).2 (Ty.arg_mem_builtins ((boot_knows t).1 known) member)
  base := fun t built => (boot_knows t).2 built

end Sound

end Registry

end Catena
