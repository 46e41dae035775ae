import Catena.Machine
import Catena.Proofs.Types.Instance

/-!
# Least common supertypes

The join of two types lies above both. If neither lies below the other, it is the first of the ancestors
of the first type, breadth first, that the second lies below. That no common supertype among the
ancestors of the two is lower (`Registry.Furnished.join_least`) takes that no ancestor stands before one
that is lower, and has two exceptions. `Str` and `WStr` have `Any` before `Seq` among their ancestors,
for `Cmp` stands right below `Any`. And an instance that only the second type has among its ancestors is
never tried, although the first may lie below it by the order of the arguments.

The items of a list have the join of what has been met before with the next one's type as their type,
place after place, so what the join of two misses the list misses.
-/

namespace Catena

namespace Ty

/-! ## What is visited -/

theorem visit_old {seen : List Nat} {queue : List Ty} {t : Ty} (old : t.id ∈ seen) :
    visit seen (t :: queue) = visit seen queue := by
  rw [visit, if_pos (by simpa using old)]

theorem visit_new {seen : List Nat} {queue : List Ty} {t : Ty} (new : t.id ∉ seen) :
    visit seen (t :: queue) = t :: visit (t.id :: seen) (queue ++ t.supers) := by
  rw [visit, if_neg (by simpa using new)]

theorem not_seen_of_mem_visit {seen : List Nat} {queue : List Ty} {s : Ty} (member : s ∈ visit seen queue) :
    s.id ∉ seen := by
  induction seen, queue using visit.induct with
  | case1 seen => rw [visit] at member; cases member
  | case2 seen t queue old ih =>
    rw [visit_old (by simpa using old)] at member
    exact ih member
  | case3 seen t queue new ih =>
    have new : t.id ∉ seen := by simpa using new
    rw [visit_new new] at member
    rcases List.mem_cons.1 member with rfl | member
    · exact new
    · exact fun old => ih member (List.mem_cons_of_mem _ old)

/-- Ids that are not met make no difference. -/
theorem visit_fresh {seen seen' : List Nat} {queue : List Ty} (more : ∀ i ∈ seen, i ∈ seen')
    (fresh : ∀ x ∈ visit seen queue, x.id ∉ seen') : visit seen' queue = visit seen queue := by
  induction seen, queue using visit.induct generalizing seen' with
  | case1 seen => rw [visit, visit]
  | case2 seen t queue old ih =>
    have old : t.id ∈ seen := by simpa using old
    rw [visit_old old] at fresh ⊢
    rw [visit_old (more t.id old), ih more fresh]
  | case3 seen t queue new ih =>
    have new : t.id ∉ seen := by simpa using new
    rw [visit_new new] at fresh ⊢
    rw [visit_new (fresh t List.mem_cons_self), ih (fun i member => ?_) fun x member => ?_]
    · exact (List.mem_cons.1 member).elim (fun same => same ▸ List.mem_cons_self) fun old =>
        List.mem_cons_of_mem _ (more i old)
    · intro old
      rcases List.mem_cons.1 old with same | old
      · exact not_seen_of_mem_visit member (same ▸ List.mem_cons_self)
      · exact fresh x (List.mem_cons_of_mem _ member) old

/-- Everything in the queue is visited, and everything right above what is visited, if it has not been
seen before. -/
theorem visit_complete (seen : List Nat) (queue : List Ty) :
    (∀ q ∈ queue, q.id ∈ seen ∨ ∃ x ∈ visit seen queue, x.id = q.id) ∧
      ∀ x ∈ visit seen queue, ∀ p ∈ x.supers, p.id ∈ seen ∨ ∃ y ∈ visit seen queue, y.id = p.id := by
  induction seen, queue using visit.induct with
  | case1 seen => simp [visit]
  | case2 seen t queue old ih =>
    have old : t.id ∈ seen := by simpa using old
    rw [visit_old old]
    refine ⟨fun q member => ?_, ih.2⟩
    rcases List.mem_cons.1 member with rfl | member
    · exact .inl old
    · exact ih.1 q member
  | case3 seen t queue new ih =>
    rw [visit_new (by simpa using new)]
    have widen {i : Nat} (h : i ∈ t.id :: seen ∨ ∃ x ∈ visit (t.id :: seen) (queue ++ t.supers), x.id = i) :
        i ∈ seen ∨ ∃ x ∈ t :: visit (t.id :: seen) (queue ++ t.supers), x.id = i := by
      rcases h with old | ⟨x, member, id⟩
      · rcases List.mem_cons.1 old with rfl | old
        · exact .inr ⟨t, List.mem_cons_self, rfl⟩
        · exact .inl old
      · exact .inr ⟨x, List.mem_cons_of_mem _ member, id⟩
    refine ⟨fun q member => ?_, fun x member p above => ?_⟩
    · rcases List.mem_cons.1 member with rfl | member
      · exact .inr ⟨q, List.mem_cons_self, rfl⟩
      · exact widen (ih.1 q (List.mem_append_left _ member))
    · rcases List.mem_cons.1 member with rfl | member
      · exact widen (ih.1 p (List.mem_append_right _ above))
      · exact widen (ih.2 x member p above)

theorem visit_twice (seen : List Nat) (t : Ty) : visit seen [t, t] = visit seen [t] := by
  by_cases old : t.id ∈ seen
  · rw [visit_old old]
  · rw [visit_new old, visit_new old, List.cons_append, visit_old List.mem_cons_self]

theorem self_ancestor (t : Ty) : t ∈ t.ancestors := by
  rw [ancestors, visit]
  simp

namespace Family

variable {D U : Ty → Prop} {a s : Ty}

theorem super_ancestor (h : Family D U) {t : Ty} (ha : U a) (member : t ∈ a.ancestors)
    (above : s ∈ t.supers) : s ∈ a.ancestors := by
  have ht := h.mem_of_ancestor ha member
  rcases (visit_complete [] [a]).2 t member s above with seen | ⟨x, member, id⟩
  · cases seen
  · rwa [← h.apart x s (h.mem_of_ancestor ha member) (h.supers t ht s above) id]

/-- What lies above an ancestor is an ancestor, or an instance of the same template as one of them. -/
theorem ancestor_below (h : Family D U) {t : Ty} (ha : U a) (hs : U s) (member : t ∈ a.ancestors)
    (below : t.isa s = true) :
    s = any ∨ s.template = some .opt ∨ ∃ x ∈ a.ancestors, x = s ∨ x.Below s := by
  have ht := h.mem_of_ancestor ha member
  rcases h.isa_cases ht hs below with same | top | ⟨item, of, -⟩ | low | ⟨p, above, ps⟩
  · exact .inr (.inr ⟨t, member, .inl same⟩)
  · exact .inl top
  · exact .inr (.inl of.1)
  · exact .inr (.inr ⟨t, member, .inr low⟩)
  · have := sizeOf_super_lt above
    exact ancestor_below h ha hs (h.super_ancestor ha member above) ps
termination_by sizeOf t

/-- What lies above a type and is no instance is one of its ancestors. -/
theorem ancestor_of_isa (h : Family D U) (ha : U a) (hs : U s) (bare : s.template = none) (top : s ≠ any)
    (below : a.isa s = true) : s ∈ a.ancestors := by
  rcases h.ancestor_below ha hs (self_ancestor a) below with all | opt | ⟨x, member, rfl | ⟨_, _, -, made, -⟩⟩
  · exact absurd all top
  · rw [bare] at opt
    cases opt
  · exact member
  · rw [bare] at made
    cases made

end Family

/-! ## In which order -/

namespace Family

variable {D U : Ty → Prop}

/-- What has a type above it has another id than the ancestors of that. -/
theorem id_ne (h : Family D U) {t p x : Ty} (ht : U t) (above : p ∈ t.supers) (member : x ∈ p.ancestors) :
    x.id ≠ t.id := by
  intro same
  obtain rfl := h.apart x t (h.mem_of_ancestor (h.supers t ht p above) member) ht same
  have := (ascends_ancestor member).sizeOf_le
  have := sizeOf_super_lt above
  omega

/-- With a single type right above it, a type stands before the ancestors of that. -/
theorem ancestors_one (h : Family D U) {t p : Ty} (ht : U t) (supers : t.supers = [p]) :
    t.ancestors = t :: p.ancestors := by
  have apart : ∀ x ∈ p.ancestors, x.id ∉ [t.id] := fun x member same =>
    h.id_ne ht (by simp [supers]) member (List.mem_singleton.1 same)
  rw [ancestors, visit_new List.not_mem_nil, supers, List.nil_append,
    visit_fresh (List.forall_mem_nil _) apart, ancestors]

/-- With two types right above it that have one above them both, a type stands before the two, and
these before the ancestors of the one. -/
theorem ancestors_two (h : Family D U) {t p s q : Ty} (ht : U t) (supers : t.supers = [p, s])
    (differ : p ≠ s) (hp : p.supers = [q]) (hs : s.supers = [q]) :
    t.ancestors = t :: p :: s :: q.ancestors := by
  have up : U p := h.supers t ht p (by simp [supers])
  have us : U s := h.supers t ht s (by simp [supers])
  have first : p.id ≠ t.id := h.id_ne ht (by simp [supers]) (self_ancestor p)
  have second : s.id ≠ t.id := h.id_ne ht (by simp [supers]) (self_ancestor s)
  have third : s.id ≠ p.id := fun same => differ (h.apart s p us up same).symm
  have apart : ∀ x ∈ q.ancestors, x.id ∉ [s.id, p.id, t.id] := by
    intro x member
    have notP := h.id_ne up (by simp [hp]) member
    have notS := h.id_ne us (by simp [hs]) member
    have notT := h.id_ne ht (by simp [supers] : p ∈ t.supers)
      (h.ancestors_one up hp ▸ List.mem_cons_of_mem p member)
    simp [notP, notS, notT]
  rw [ancestors, visit_new List.not_mem_nil, supers, List.nil_append, visit_new (by simpa using first), hp,
    List.singleton_append, visit_new (by simp [second, third]), hs, List.singleton_append, visit_twice,
    visit_fresh (List.forall_mem_nil _) apart, ancestors]

end Family

/-- No type is lower than one that stands before it. -/
def Ranked (ts : List Ty) : Prop :=
  ts.Pairwise fun x y => y.isa x = true → x.isa y = true

instance : DecidablePred Ranked := fun ts =>
  inferInstanceAs (Decidable (ts.Pairwise fun x y => y.isa x = true → x.isa y = true))

theorem ranked_cons {t : Ty} {ts : List Ty} (below : ∀ x ∈ ts, t.isa x = true) (ranked : Ranked ts) :
    Ranked (t :: ts) :=
  List.pairwise_cons.2 ⟨fun x member _ => below x member, ranked⟩

theorem ranked_builtin {t : Ty} (built : t ∈ builtins) (str : t.id ≠ str.id) (wstr : t.id ≠ wstr.id) :
    Ranked t.ancestors := by
  have all : ∀ t ∈ builtins, t.id ≠ Ty.str.id → t.id ≠ Ty.wstr.id → Ranked t.ancestors := by
    decide +kernel
  exact all t built str wstr

namespace Family

variable {D U : Ty → Prop}

theorem ranked_one (h : Family D U) {t p : Ty} (ht : U t) (supers : t.supers = [p])
    (ranked : Ranked p.ancestors) : Ranked t.ancestors := by
  have all := h.ancestors_one ht supers
  rw [all]
  exact ranked_cons (fun x member => isa_ancestor (all ▸ List.mem_cons_of_mem t member)) ranked

/-- Nothing above a type that is no instance lies below what stands right below that type. -/
theorem not_isa_lower (h : Family D U) {p q x : Ty} (hp : U p) (supers : p.supers = [q]) (top : p ≠ any)
    (other : p.template ≠ some .opt) (bare : ∀ y ∈ q.ancestors, y.template = none)
    (member : x ∈ q.ancestors) : ¬ x.isa p = true := by
  intro below
  have hq : U q := h.supers p hp q (by simp [supers])
  rcases h.ancestor_below hq hp member below with all | opt | ⟨y, inside, rfl | ⟨_, _, made, -⟩⟩
  · exact top all
  · exact other opt
  · exact h.id_ne hp (by simp [supers]) inside rfl
  · rw [bare y inside] at made
    cases made

theorem ranked_two (h : Family D U) {t p s q : Ty} (ht : U t) (supers : t.supers = [p, s])
    (hp : p.supers = [q]) (hs : s.supers = [q]) (differ : p ≠ s) (template : p.template = none)
    (top : p ≠ any) (top' : s ≠ any) (other : s.template ≠ some .opt)
    (bare : ∀ y ∈ q.ancestors, y.template = none) (ranked : Ranked q.ancestors) :
    Ranked t.ancestors := by
  have up : U p := h.supers t ht p (by simp [supers])
  have us : U s := h.supers t ht s (by simp [supers])
  have all := h.ancestors_two ht supers differ hp hs
  have above : ∀ x ∈ p :: s :: q.ancestors, t.isa x = true := fun x member =>
    isa_ancestor (all ▸ List.mem_cons_of_mem t member)
  rw [all]
  refine ranked_cons above (List.pairwise_cons.2 ⟨fun x member below => ?_,
    List.pairwise_cons.2 ⟨fun x member below => ?_, ranked⟩⟩)
  · rcases List.mem_cons.1 member with rfl | member
    · have inside := h.ancestor_of_isa us up template top below
      rw [h.ancestors_one us hs] at inside
      rcases List.mem_cons.1 inside with same | inside
      · exact absurd same differ
      · exact absurd rfl (h.id_ne up (by simp [hp]) inside)
    · exact absurd below (h.not_isa_lower up hp top (by simp [template]) bare member)
  · exact absurd below (h.not_isa_lower us hs top' other bare member)

/-- The ancestors of all types but `Str` and `WStr` stand in order. -/
theorem ranked (h : Family IsRecord U) {t : Ty} (ht : U t) (notStr : t ≠ .str) (notWstr : t ≠ .wstr) :
    Ranked t.ancestors := by
  have bareSeq : ∀ y ∈ Ty.seq.ancestors, y.template = none := by
    have all : ∀ y ∈ Ty.seq.ancestors, y.template.isNone = true := by decide +kernel
    simpa using all
  have bareAny : ∀ y ∈ any.ancestors, y.template = none := by
    have all : ∀ y ∈ any.ancestors, y.template.isNone = true := by decide +kernel
    simpa using all
  have through {p item s : Ty} (supers : t.supers = [p, s]) (of : s.Of .seq [item]) (hp : p.supers = [.seq])
      (bare : p.template = none) : Ranked t.ancestors := by
    have us : U s := h.supers t ht s (by simp [supers])
    obtain ⟨above, is, hs⟩ := instance_above (h.formed s us) of.1
    rw [of.2] at is
    cases is
    refine h.ranked_two ht supers hp hs ?_ bare ?_ ?_ ?_ bareSeq
      (ranked_builtin (by simp [builtins]) (by decide) (by decide))
    · rintro rfl
      rw [of.1] at bare
      cases bare
    · rintro rfl
      cases hp
    · rintro rfl
      cases hs
    · rw [of.1]
      exact fun same => absurd (congrArg Ty.id (Option.some.inj same)) (by decide)
  cases h.formed t ht with
  | base built _ =>
    refine ranked_builtin built (fun same => notStr ?_) fun same => notWstr ?_
    · exact h.apart _ _ ht (h.base _ (by simp [builtins])) same
    · exact h.apart _ _ ht (h.base _ (by simp [builtins])) same
  | declared _ _ _ record =>
    exact h.ranked_one ht record.supers (ranked_builtin (by simp [builtins]) (by decide) (by decide))
  | inst _ above supers =>
    cases above with
    | seq => exact h.ranked_one ht supers (ranked_builtin (by simp [builtins]) (by decide) (by decide))
    | opt => exact h.ranked_one ht supers (ranked_builtin (by simp [builtins]) (by decide) (by decide))
    | list of => exact through supers of rfl rfl
    | iter of => exact through supers of rfl rfl
    | table _ of => exact through supers of rfl rfl
    | pair a b =>
      split at supers
      · refine h.ranked_two ht supers rfl rfl ?_ rfl ?_ ?_ (Option.some_ne_none _).symm bareAny
          (ranked_builtin (by simp [builtins]) (by decide) (by decide))
        · exact fun same => absurd (congrArg Ty.id same) (by decide)
        · exact fun same => absurd (congrArg Ty.id same) (by decide)
        · exact fun same => absurd (congrArg Ty.id same) (by decide)
      · exact h.ranked_one ht supers (ranked_builtin (by simp [builtins]) (by decide) (by decide))

end Family

/-- A type that stands too early among the ancestors of `Str` and `WStr`. -/
def Inverted (t x y : Ty) : Prop :=
  (t = .str ∨ t = .wstr) ∧ x = .any ∧ y = .seq

/-- No type is lower than one that stands before it among the ancestors of a type, but for `Seq` among
those of `Str` and `WStr`. -/
theorem Family.ancestors_ranked {U : Ty → Prop} (h : Family IsRecord U) {t : Ty} (ht : U t) :
    t.ancestors.Pairwise fun x y => y.isa x = true → x.isa y = true ∨ Inverted t x y := by
  by_cases special : t = .str ∨ t = .wstr
  · have ids : ∀ t ∈ [Ty.str, Ty.wstr], t.ancestors.Pairwise fun x y =>
        y.isa x = true → x.isa y = true ∨ x.id = any.id ∧ y.id = Ty.seq.id := by decide +kernel
    refine (ids t (by simpa using special)).imp_of_mem fun {x y} hx hy low below => ?_
    refine (low below).imp_right fun ⟨one, two⟩ => ⟨special, ?_, ?_⟩
    · exact h.apart _ _ (h.mem_of_ancestor ht hx) h.hasAny one
    · exact h.apart _ _ (h.mem_of_ancestor ht hy) (h.base _ (by simp [builtins])) two
  · rw [not_or] at special
    exact (h.ranked ht special.1 special.2).imp fun low below => .inl (low below)

theorem first_or {R : Ty → Ty → Prop} {ts : List Ty} {p : Ty → Bool} {r s : Ty} (order : ts.Pairwise R)
    (found : ts.find? p = some r) (member : s ∈ ts) (holds : p s = true) : s = r ∨ R r s := by
  obtain ⟨-, before, after, rfl, earlier⟩ := List.find?_eq_some_iff_append.1 found
  rcases List.mem_append.1 member with inside | inside
  · have := earlier s inside
    simp [holds] at this
  · rcases List.mem_cons.1 inside with same | inside
    · exact .inl same
    · exact .inr ((List.pairwise_cons.1 (List.pairwise_append.1 order).2.1).1 s inside)

/-- If the join was looked for among the ancestors of the first type, no other one of them above both is
lower, but for `Seq` where the first type is `Str` or `WStr`. -/
theorem Family.find?_lowest {U : Ty → Prop} (h : Family IsRecord U) {a b s : Ty} (ha : U a)
    (member : s ∈ a.ancestors) (bs : b.isa s = true)
    (low : s.isa ((a.ancestors.find? fun s => b.isa s).getD any) = true) :
    ((a.ancestors.find? fun s => b.isa s).getD any).isa s = true ∨
      Inverted a ((a.ancestors.find? fun s => b.isa s).getD any) s := by
  cases found : a.ancestors.find? fun s => b.isa s with
  | none => exact absurd bs (List.find?_eq_none.1 found s member)
  | some r =>
    rw [found] at low
    rcases first_or (h.ancestors_ranked ha) found member bs with rfl | order
    · exact .inl (isa_refl s)
    · exact order low

/-- No common supertype among the ancestors of two types is lower than their join, but for `Seq` where
the join is `Any` and the first type is `Str` or `WStr`, and for instances that are no ancestors of the
first type. -/
theorem Family.join_lowest {U : Ty → Prop} (h : Family IsRecord U) {a b s : Ty} (ha : U a) (hs : U s)
    (as : a.isa s = true) (bs : b.isa s = true) (low : s.isa (join any a b) = true) :
    (join any a b).isa s = true ∨ Inverted a (join any a b) s ∨ s ∉ a.ancestors ∧ s.template ≠ none := by
  unfold join at low ⊢
  by_cases higher : b.isa a = true
  · rw [if_pos higher]
    exact .inl as
  by_cases lower : a.isa b = true
  · rw [if_neg higher, if_pos lower]
    exact .inl bs
  rw [if_neg higher, if_neg lower] at low ⊢
  by_cases member : s ∈ a.ancestors
  · exact (h.find?_lowest ha member bs low).imp_right .inl
  by_cases bare : s.template = none
  · by_cases top : s = any
    · subst top
      exact .inl (isa_any _)
    · exact absurd (h.ancestor_of_isa ha hs bare top as) member
  · exact .inr (.inr ⟨member, bare⟩)

end Ty

/-! ## The items of a list -/

namespace Run

theorem foldl_join {U : Ty → Prop} (h : Ty.Universe U) {t : Ty} {values : List Value} (ht : U t)
    (hv : ∀ v ∈ values, U v.ty) :
    let joined := values.foldl (fun t w => Ty.join .any t w.ty) t
    U joined ∧ t.isa joined = true ∧ ∀ v ∈ values, v.isa joined = true := by
  induction values generalizing t with
  | nil => exact ⟨ht, Ty.isa_refl t, nofun⟩
  | cons v values ih =>
    have first := hv v (by simp)
    have known := h.join_mem ht first
    obtain ⟨below, below'⟩ := Ty.isa_join t v.ty
    obtain ⟨known', above, rest⟩ := ih known fun w member => hv w (by simp [member])
    refine ⟨known', h.isa_trans ht known known' below above, fun w member => ?_⟩
    rcases List.mem_cons.1 member with rfl | member
    · exact h.isa_trans first known known' below' above
    · exact rest w member

/-- The common supertype of values lies above all their types. -/
theorem isa_itemType {U : Ty → Prop} (h : Ty.Universe U) {values : List Value}
    (hv : ∀ v ∈ values, U v.ty) :
    U (itemType values) ∧ ∀ v ∈ values, v.isa (itemType values) = true := by
  cases values with
  | nil => exact ⟨h.hasAny, nofun⟩
  | cons v values =>
    obtain ⟨known, above, rest⟩ := foldl_join h (hv v (by simp)) fun w member =>
      hv w (List.mem_cons_of_mem v member)
    refine ⟨known, fun w member => ?_⟩
    rcases List.mem_cons.1 member with rfl | member
    · exact above
    · exact rest w member

theorem itemType_concat {values : List Value} (some : values ≠ []) (w : Value) :
    itemType (values ++ [w]) = Ty.join .any (itemType values) w.ty := by
  cases values with
  | nil => exact absurd rfl some
  | cons v values => exact List.foldl_concat ..

end Run

/-- The registries that come about by declaring structures and by giving templates their arguments. What
else a registry knows plays no part. -/
inductive Registry.Furnished : Registry → Prop
  | boot : Furnished Engine.bootRegistry
  /-- A structure is declared under a plain name. -/
  | declare {r r' : Registry} {name : String} {fields : List String} {t : Ty} : Furnished r →
      (∀ c ∈ name.toList, c ≠ '<' ∧ c ≠ '>' ∧ c ≠ ',') →
      r.declareType name [.struct] (.record name fields) = .ok (t, r') → Furnished r'
  | instantiate {r r' : Registry} {template t : Ty} {args : List Ty} : Furnished r → r.Knows template →
      (∀ a ∈ args, r.Knows a) → r.instantiate template args = .ok (t, r') → Furnished r'
  /-- Ids are used up, and everything but types changes. -/
  | other {r r' : Registry} : Furnished r → r'.types = r.types → r.nextId ≤ r'.nextId → Furnished r'

theorem Registry.Furnished.sound {r : Registry} (h : r.Furnished) : r.Sound Ty.IsRecord := by
  induction h with
  | boot => exact .boot
  | declare _ plain made ih =>
    refine (ih.declareRecord (fun c member => ?_) made).1
    simp [TypeExpr.isNameChar, plain c member]
  | instantiate _ knows known made ih => exact (ih.instantiate knows known made).1
  | other _ types ids ih => exact ih.of_types types ids

/-- The join of two types lies above both, and no type above both among their ancestors is lower, with
two exceptions: `Seq` may be, where the join is `Any` and the first type is `Str` or `WStr`, and so may
an instance that is no ancestor of the first type. The type of the items of a list is the join of that
of all items but the last with the type of the last, and lies above the types of all. -/
theorem Registry.Furnished.join_least {r : Registry} (h : r.Furnished) {a b : Ty} (ha : r.Knows a)
    (hb : r.Knows b) :
    a.isa (Ty.join .any a b) = true ∧ b.isa (Ty.join .any a b) = true ∧
    (∀ s, s ∈ a.ancestors ∨ s ∈ b.ancestors → a.isa s = true → b.isa s = true →
      s.isa (Ty.join .any a b) = true →
      (Ty.join .any a b).isa s = true ∨ Ty.Inverted a (Ty.join .any a b) s ∨
        s ∉ a.ancestors ∧ s.template ≠ none) ∧
    ∀ (vs : List Value) (w : Value), vs ≠ [] → Run.itemType vs = a → w.ty = b →
      Run.itemType (vs ++ [w]) = Ty.join .any a b ∧
      ((∀ v ∈ vs ++ [w], r.Knows v.ty ∧ v.ty.Plain) → ∀ v ∈ vs ++ [w], v.isa (Ty.join .any a b) = true) := by
  have family := h.sound.toFamily
  obtain ⟨left, right⟩ := Ty.isa_join a b
  refine ⟨left, right, fun s member as bs low => ?_, fun vs w some first last => ?_⟩
  · have known : r.Knows s := member.elim (family.mem_of_ancestor ha) (family.mem_of_ancestor hb)
    exact family.join_lowest ha known as bs low
  · have joined : Run.itemType (vs ++ [w]) = Ty.join .any a b := by
      rw [Run.itemType_concat some, first, last]
    exact ⟨joined, fun valued => joined ▸ (Run.isa_itemType h.sound.toUniverse valued).2⟩

/-- Lists and texts are sequences: with the lists first this is found, and with the texts first it is
not. -/
theorem Registry.Furnished.join_least_seq :
    Ty.join .any .list .str = .seq ∧ Ty.join .any .str .list = .any ∧
    Ty.list.isa .seq = true ∧ Ty.str.isa .seq = true ∧
    ∀ s, s ∈ Ty.list.ancestors ∨ s ∈ Ty.str.ancestors → Ty.list.isa s = true → Ty.str.isa s = true →
      s.isa .seq = true → Ty.seq.isa s = true ∨ Ty.Inverted .list .seq s ∨
        s ∉ Ty.list.ancestors ∧ s.template ≠ none := by
  have list : Engine.bootRegistry.Knows .list := Furnished.boot.sound.base _ (by simp [Ty.builtins])
  have str : Engine.bootRegistry.Knows .str := Furnished.boot.sound.base _ (by simp [Ty.builtins])
  have first : Ty.join .any .list .str = .seq := by cbv
  have second : Ty.join .any .str .list = .any := by cbv
  obtain ⟨left, right, lowest, -⟩ := Furnished.boot.join_least list str
  rw [first] at left right lowest
  exact ⟨first, second, left, right, lowest⟩

end Catena
