import Catena.Proofs.Types.Instance

/-!
# Names stand for types

The name of a type is a type expression. Where types are declared under names that can be written in
one, reading the name of any type there is and looking up what was read gives back that very type, and
makes no new one (`Registry.Written.names_read`): instances are written with all their arguments, so
each of them is found under the name that its parts make up.
-/

namespace Catena

namespace TypeExpr

/-! ## Reading what is written -/

/-- A name that can be written in a type expression: it is not empty, does not look like a reference
to an argument, and has no brackets or commas in it. -/
def Word (name : String) : Prop :=
  ∃ c cs, name.toList = c :: cs ∧ c ≠ '%' ∧ ∀ d ∈ c :: cs, isNameChar d = true

theorem takeWhile_word {p : Char → Bool} {cs rest : List Char} (all : ∀ c ∈ cs, p c = true)
    (stops : ∀ c ∈ rest.head?, p c = false) :
    (cs ++ rest).takeWhile p = cs ∧ (cs ++ rest).dropWhile p = rest := by
  have none_left : rest.takeWhile p = [] ∧ rest.dropWhile p = rest := by
    cases rest with
    | nil => exact ⟨rfl, rfl⟩
    | cons c rest => simp [stops c rfl]
  constructor
  · rw [List.takeWhile_append_of_pos all, none_left.1, List.append_nil]
  · rw [List.dropWhile_append_of_pos all, none_left.2]

/-- A name is read up to the next bracket or comma. -/
theorem skipWhile_word {name : String} (word : Word name) {rest : List Char}
    (stops : ∀ c ∈ rest.head?, isNameChar c = false) (pos : Nat) :
    String.ofList ((name.toList ++ rest).takeWhile isNameChar) = name ∧
      ∃ pos', Cursor.skipWhile isNameChar ⟨name.toList ++ rest, pos⟩ = ⟨rest, pos'⟩ := by
  obtain ⟨c, cs, spelled, -, all⟩ := word
  rw [← spelled] at all
  obtain ⟨taken, dropped⟩ := takeWhile_word all stops
  constructor
  · rw [taken, String.ofList_toList]
  · exact ⟨_, by rw [Cursor.skipWhile, dropped]⟩

/-- Reading the characters gives the expression and leaves the rest. -/
def ReadsAs (whole : String) (cs : List Char) (e : TypeExpr) (rest : List Char) : Prop :=
  ∀ pos, ∃ pos' shorter, expr whole ⟨cs, pos⟩ = .ok (e, ⟨⟨rest, pos'⟩, shorter⟩)

/-- A name that no bracket follows stands for itself. -/
theorem readsAs_named {name : String} (word : Word name) (whole : String) {rest : List Char}
    (behind : Ty.Behind rest) : ReadsAs whole (name.toList ++ rest) (named name) rest := by
  intro pos
  obtain ⟨read, pos', skipped⟩ := skipWhile_word word behind.stops pos
  obtain ⟨c, cs, spelled, apart, all⟩ := word
  have plain := all c List.mem_cons_self
  rw [expr]
  split
  next empty => simp [spelled] at empty
  next a ds front =>
    obtain ⟨rfl, rfl⟩ : c = a ∧ cs ++ rest = ds := by simpa [spelled] using front
    rw [if_neg apart, dif_pos plain]
    dsimp only
    split
    next ds opened =>
      rw [skipped] at opened
      rcases behind '<' (by simp [show rest = '<' :: ds from opened]) with wrong | wrong <;> cases wrong
    next =>
      simp only [read, skipped]
      have shorter : rest.length < (name.toList ++ rest).length := by
        rw [spelled, List.length_append, List.length_cons]
        omega
      exact ⟨pos', shorter, rfl⟩

/-- Reading the characters gives the expressions, with commas between them, and leaves the rest. -/
def ReadsEach (whole : String) (cs : List Char) (es : List TypeExpr) (rest : List Char) : Prop :=
  ∀ pos, ∃ pos' shorter, exprs whole ⟨cs, pos⟩ = .ok (es, ⟨⟨rest, pos'⟩, shorter⟩)

theorem ReadsAs.last {whole : String} {cs rest : List Char} {e : TypeExpr}
    (first : ReadsAs whole cs e ('>' :: rest)) : ReadsEach whole cs [e] ('>' :: rest) := by
  intro pos
  obtain ⟨pos', shorter, read⟩ := first pos
  refine ⟨pos', shorter, ?_⟩
  rw [exprs, read]
  rfl

theorem ReadsAs.cons {whole : String} {cs ds rest : List Char} {e : TypeExpr} {es : List TypeExpr}
    (first : ReadsAs whole cs e (',' :: ds)) (others : ReadsEach whole ds es rest) :
    ReadsEach whole cs (e :: es) rest := by
  intro pos
  obtain ⟨pos', shorter, read⟩ := first pos
  obtain ⟨pos'', shorter', reads⟩ := others (pos' + 1)
  refine ⟨pos'', ?_, ?_⟩
  · simp only [List.length_cons] at shorter shorter' ⊢
    omega
  · rw [exprs, read]
    simp only [reads]

/-- A name with arguments between brackets is read together with them. -/
theorem readsAs_generic {name : String} (word : Word name) {whole : String} {cs rest : List Char}
    {args : List TypeExpr} (inside : ReadsEach whole cs args ('>' :: rest)) :
    ReadsAs whole (name.toList ++ '<' :: cs) (generic name args) rest := by
  intro pos
  have stops : ∀ c ∈ ('<' :: cs).head?, isNameChar c = false := by simp [isNameChar]
  obtain ⟨read, pos', skipped⟩ := skipWhile_word word stops pos
  obtain ⟨pos'', shorter, reads⟩ :=
    inside ((Cursor.skipWhile isNameChar ⟨name.toList ++ '<' :: cs, pos⟩).pos + 1)
  obtain ⟨c, ds, spelled, apart, all⟩ := word
  have plain := all c List.mem_cons_self
  rw [expr]
  split
  next empty => simp [spelled] at empty
  next a es front =>
    obtain ⟨rfl, rfl⟩ : c = a ∧ ds ++ '<' :: cs = es := by simpa [spelled] using front
    rw [if_neg apart, dif_pos plain]
    dsimp only
    split
    next es opened =>
      have same : cs = es := by
        rw [skipped] at opened
        exact (List.cons.inj opened).2
      subst same
      refine ⟨pos'' + 1, ?_, ?_⟩
      · simp only [List.length_cons, List.length_append] at shorter ⊢
        omega
      · simp only [read, reads]
    next other =>
      rw [skipped] at other
      exact absurd rfl (other cs)

end TypeExpr

namespace Ty

/-- Built-in types that are not instances have names that can be written. -/
theorem builtin_word {t : Ty} (built : t ∈ builtins) (alone : t.template = none) :
    TypeExpr.Word t.name := by
  have words : ∀ t ∈ builtins, t.template.isNone = true →
      (t.name.toList.head?.any (· ≠ '%') && t.name.toList.all TypeExpr.isNameChar) = true := by
    decide +kernel
  have word := words t built (by rw [alone]; rfl)
  rw [Bool.and_eq_true] at word
  cases spelled : t.name.toList with
  | nil => simp [spelled] at word
  | cons c cs =>
    rw [spelled] at word
    exact ⟨c, cs, spelled, by simpa using word.1, List.all_eq_true.1 word.2⟩

theorem argText_cons (a b : Ty) (args : List Ty) (xs : List Char) :
    argText (a :: b :: args) xs = a.name.toList ++ ',' :: argText (b :: args) xs := by
  simp [argText, String.toList_append]

end Ty

namespace Registry

/-- The name of the type is read as an expression that stands for the type, which is there already. -/
def Readable (r : Registry) (t : Ty) : Prop :=
  ∃ e, (∀ whole rest, Ty.Behind rest → TypeExpr.ReadsAs whole (t.name.toList ++ rest) e rest) ∧
    e.resolve r = (.ok t, r)

theorem Readable.args {r : Registry} {args : List Ty} (some : args ≠ [])
    (each : ∀ a ∈ args, r.Readable a) :
    ∃ es, (∀ whole rest, TypeExpr.ReadsEach whole (Ty.argText args rest) es ('>' :: rest)) ∧
      TypeExpr.resolveEach r es = (.ok args, r) := by
  induction args with
  | nil => exact absurd rfl some
  | cons a args ih =>
    obtain ⟨e, reads, resolved⟩ := each a List.mem_cons_self
    cases args with
    | nil =>
      refine ⟨[e], fun whole rest => ?_, ?_⟩
      · rw [Ty.argText_one]
        exact (reads whole _ (by simp [Ty.Behind])).last
      · simp only [TypeExpr.resolveEach, resolved]
    | cons b args =>
      obtain ⟨es, others, resolves⟩ := ih (List.cons_ne_nil b args) fun c member =>
        each c (List.mem_cons_of_mem a member)
      refine ⟨e :: es, fun whole rest => ?_, ?_⟩
      · rw [Ty.argText_cons]
        exact (reads whole _ (by simp [Ty.Behind])).cons (others whole rest)
      · rw [TypeExpr.resolveEach, resolved]
        simp only [resolves]

/-- An instance that is there is found under the name of its template and its arguments. -/
theorem Sound.instantiate_known {D : Ty → Prop} {r : Registry} (h : Sound D r) {t template : Ty}
    {args : List Ty} (known : r.Knows t) (member : template ∈ Ty.templates)
    (full : args.length = template.params) (named : t.name = instanceName template args) :
    r.instantiateNamed template.name args = .ok (t, r) := by
  have there : r.types.find? template.name = some template :=
    h.base template (Ty.template_mem_builtins member)
  have is : ∀ t ∈ Ty.templates, t.isTemplate = true := by decide
  have padded : padArgs template args = args := by simp [padArgs, full]
  have found : r.types.find? (instanceName template args) = some t := named ▸ known
  rw [Registry.instantiateNamed, there]
  simp only [Registry.instantiate, is template member, full, Nat.lt_irrefl, padded, Registry.derive,
    found]
  rfl

/-- The name of each type that is there can be read. -/
theorem Sound.readable {r : Registry} (h : r.Sound fun t => TypeExpr.Word t.name) {t : Ty}
    (known : r.Knows t) : r.Readable t := by
  induction h.spelled t known with
  | @word t alone _ _ =>
    have word : TypeExpr.Word t.name := by
      cases h.formed t known with
      | base built => exact Ty.builtin_word built alone
      | declared _ _ _ word => exact word
      | inst of => rw [of.1] at alone; cases alone
    refine ⟨.named t.name, fun whole rest => TypeExpr.readsAs_named word whole, ?_⟩
    rw [TypeExpr.resolve, show r.types.find? t.name = some t from known]
  | @inst t template args of member full named _ ih =>
    have params : ∀ t ∈ Ty.templates, 0 < t.params := by decide
    have some : args ≠ [] := List.ne_nil_of_length_pos (full ▸ params template member)
    obtain ⟨es, reads, resolved⟩ := Readable.args some fun a inside =>
      ih a inside (h.args t known a (of.2 ▸ inside))
    have alone : ∀ t ∈ Ty.templates, t.template = none := by
      simp [Ty.templates, Ty.seq, Ty.pair, Ty.list, Ty.table, Ty.opt, Ty.iter, Ty.templateOf]
    have word := Ty.builtin_word (Ty.template_mem_builtins member) (alone template member)
    refine ⟨.generic template.name es, fun whole rest _ => ?_, ?_⟩
    · rw [named, Ty.instanceName_text]
      exact TypeExpr.readsAs_generic word (reads whole rest)
    · rw [TypeExpr.resolve, resolved]
      simp only [h.instantiate_known known member full named]

theorem Readable.parse {r : Registry} {t : Ty} (h : r.Readable t) :
    ∃ e, TypeExpr.parse t.name = .ok e ∧ e.resolve r = (.ok t, r) := by
  obtain ⟨e, reads, resolved⟩ := h
  have whole := reads t.name [] (by simp [Ty.Behind])
  rw [List.append_nil] at whole
  obtain ⟨pos, shorter, read⟩ := whole 0
  refine ⟨e, ?_, resolved⟩
  rw [TypeExpr.parse, read]
  rfl

/-- The registries that come about by declaring types under names that can be written, and by giving
templates their arguments. What else a registry knows plays no part. -/
inductive Written : Registry → Prop
  | boot : Written Engine.bootRegistry
  | declare {r r' : Registry} {name : String} {supers : List Ty} {behavior : Behavior} {t : Ty} :
      Written r → name ≠ "" → name.toList.head? ≠ some '%' →
      (∀ c ∈ name.toList, c ≠ '<' ∧ c ≠ '>' ∧ c ≠ ',') → (∀ s ∈ supers, r.Knows s) →
      r.declareType name supers behavior = .ok (t, r') → Written r'
  | instantiate {r r' : Registry} {template t : Ty} {args : List Ty} : Written r → r.Knows template →
      (∀ a ∈ args, r.Knows a) → r.instantiate template args = .ok (t, r') → Written r'
  /-- Ids are used up, and everything but types changes. -/
  | other {r r' : Registry} : Written r → r'.types = r.types → r.nextId ≤ r'.nextId → Written r'

theorem Written.sound {r : Registry} (h : r.Written) : r.Sound fun t => TypeExpr.Word t.name := by
  induction h with
  | boot => exact .boot
  | @declare r r' name supers behavior t _ some apart plain known made ih =>
    have chars : ∀ c ∈ name.toList, TypeExpr.isNameChar c = true := by
      intro c member
      simp [TypeExpr.isNameChar, plain c member]
    have named : t.name = name := by
      unfold Registry.declareType at made
      split at made
      · cases made
      · obtain ⟨rfl, -⟩ := Prod.mk.inj (Except.ok.inj made)
        rfl
    have word : TypeExpr.Word t.name := by
      cases spelled : name.toList with
      | nil => exact absurd (String.toList_inj.1 (spelled.trans String.toList_empty.symm)) some
      | cons c cs =>
        refine ⟨c, cs, named ▸ spelled, ?_, spelled ▸ chars⟩
        rintro rfl
        exact apart (by rw [spelled]; rfl)
    exact (ih.declareType chars known made word).1
  | instantiate _ knows known made ih => exact (ih.instantiate knows known made).1
  | other _ types ids ih => exact ih.of_types types ids

/-- Types that are there have different names and different ids, and the name of each is read as an
expression that stands for that type; looking it up changes nothing. -/
theorem Written.names_read {r : Registry} (h : r.Written) :
    (∀ s t, r.Knows s → r.Knows t → s ≠ t → s.name ≠ t.name ∧ s.id ≠ t.id) ∧
    ∀ name t, r.types.find? name = some t →
      t.name = name ∧ ∃ e, TypeExpr.parse t.name = .ok e ∧ e.resolve r = (.ok t, r) := by
  have sound := h.sound
  constructor
  · intro s t known known' apart
    constructor
    · intro same
      exact apart (sound.ext known known' same)
    · intro same
      exact apart (sound.apart s t known known' same)
  · intro name t found
    exact ⟨sound.named name t found, (sound.readable (sound.knows found)).parse⟩

theorem Sound.instance_name {D : Ty → Prop} {r : Registry} (h : Sound D r) {t template : Ty}
    {args : List Ty} (known : r.Knows t) (of : t.Of template args) :
    t.name = instanceName template args := by
  cases h.spelled t known with
  | word alone => rw [of.1] at alone; cases alone
  | inst of' _ _ named =>
    obtain rfl := Option.some.inj (of'.1.symm.trans of.1)
    rw [named, ← of'.2, of.2]

theorem declareType_ok {r : Registry} {name : String} (free : r.types.contains name = false)
    (supers : List Ty) (behavior : Behavior) :
    ∃ t r', r.declareType name supers behavior = .ok (t, r') ∧ t.name = name := by
  simp [declareType, free]

theorem instantiate_ok (r : Registry) (template : Ty) (args : List Ty)
    (is : template.isTemplate = true) (few : args.length ≤ template.params) :
    ∃ t r', r.instantiate template args = .ok (t, r') := by
  rw [instantiate, if_neg (by simp [is]), if_neg (Nat.not_lt.2 few)]
  exact ⟨_, _, rfl⟩

/-- A table whose values are left out, with lists of a declared type as keys. -/
theorem Written.names_read_table : ∃ (r : Registry) (t : Ty), r.Written ∧ r.Knows t ∧
    t.name = "Table<List<Point>,Any>" ∧
    ∃ e, TypeExpr.parse t.name = .ok e ∧ e.resolve r = (.ok t, r) := by
  have base {r : Registry} (h : r.Written) {t : Ty} (built : t ∈ Ty.builtins) : r.Knows t :=
    h.sound.base t built
  have free : Engine.bootRegistry.types.contains "Point" = false := by decide +kernel
  have plain : ∀ c ∈ "Point".toList, TypeExpr.isNameChar c = true :=
    List.all_eq_true.1 (by decide +kernel)
  obtain ⟨point, r₁, made₁, named⟩ := declareType_ok free [.struct] .plain
  have struct : ∀ s ∈ [Ty.struct], Engine.bootRegistry.Knows s := by
    simpa using base .boot (t := .struct) (by simp [Ty.builtins])
  have written₁ : r₁.Written := .declare .boot (by decide) (by decide) (by simp) struct made₁
  obtain ⟨-, known₁, -⟩ := Registry.Written.boot.sound.declareType plain struct made₁
    ⟨'P', ['o', 'i', 'n', 't'], by rw [named]; rfl, by decide, by simpa using plain⟩
  obtain ⟨points, r₂, made₂⟩ := instantiate_ok r₁ .list [point] rfl (Nat.le_refl 1)
  have list := base written₁ (t := .list) (by simp [Ty.builtins])
  have written₂ : r₂.Written := .instantiate written₁ list (by simpa using known₁) made₂
  obtain ⟨-, known₂, of₂⟩ := written₁.sound.instantiate list (by simpa using known₁) made₂
  obtain ⟨t, r, made⟩ := instantiate_ok r₂ .table [points] rfl (Nat.le_succ 1)
  have table := base written₂ (t := .table) (by simp [Ty.builtins])
  have written : r.Written := .instantiate written₂ table (by simpa using known₂) made
  obtain ⟨-, known, of⟩ := written₂.sound.instantiate table (by simpa using known₂) made
  obtain ⟨-, read⟩ := written.names_read.2 t.name t known
  refine ⟨r, t, written, known, ?_, read⟩
  have inner : points.name = "List<Point>" := by
    rw [written₂.sound.instance_name known₂ of₂]
    simp [instanceName, padArgs, named, Ty.list, Ty.templateOf]
  rw [written.sound.instance_name known of]
  simp [instanceName, padArgs, inner, Ty.table, Ty.templateOf, Ty.any, Ty.simple]

end Registry

end Catena
