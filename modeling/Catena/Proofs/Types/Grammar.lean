import Catena.Proofs.Text.Decimal
import Catena.Proofs.Types.Naming
import Mathlib.Data.List.TakeWhile

/-!
# The grammar of type expressions

A text is read as a type expression exactly if the grammar derives it, and then as the expression that is
derived (`TypeExpr.parse_iff`). What is read is written so that it is read again as the same expression
(`TypeExpr.parse_grammar`): the printed form has no zeros in front of an index, and the grammar derives it
as well.
-/

namespace Catena

namespace TypeExpr

/-! ## Derivations -/

/-- The digits of an index, which may have zeros in front. -/
def Index (n : Nat) (cs : List Char) : Prop :=
  Text.Numeral n cs ∧ n < 2 ^ 64

mutual

/-- The grammar derives the text as the expression. -/
inductive Derives : List Char → TypeExpr → Prop
  | same {n : Nat} {ds : List Char} : Index n ds → Derives ('%' :: ds) (same n)
  | argOf {n k : Nat} {ds es : List Char} : Index n ds → Index k es →
      Derives ('%' :: (ds ++ '.' :: es)) (argOf n k)
  | named {name : String} : Word name → Derives name.toList (named name)
  | generic {name : String} {cs : List Char} {args : List TypeExpr} : Word name → DerivesEach cs args →
      Derives (name.toList ++ '<' :: (cs ++ ['>'])) (generic name args)

/-- The grammar derives the text as expressions with commas between them, one at least. -/
inductive DerivesEach : List Char → List TypeExpr → Prop
  | last {cs : List Char} {e : TypeExpr} : Derives cs e → DerivesEach cs [e]
  | cons {cs ds : List Char} {e : TypeExpr} {es : List TypeExpr} : Derives cs e → DerivesEach ds es →
      DerivesEach (cs ++ ',' :: ds) (e :: es)

end

variable {whole : String} {c : Cursor} {cs ds rest : List Char} {n k : Nat} {e : TypeExpr}

/-! ## What is derived is read -/

theorem index?_iff : Text.index? ds = some n ↔ Index n ds := by
  rw [Text.index?_eq_some_iff, Index, Text.maxIndex]
  refine and_congr_right fun _ => ?_
  omega

/-- An index is read up to the next character that is no digit. -/
theorem index_digits (whole : String) (is : Index n ds) (stops : ∀ c ∈ rest.head?, Text.isDigit c = false)
    (pos : Nat) :
    ∃ pos', index whole ⟨ds ++ rest, pos⟩ = .ok (n, ⟨rest, pos'⟩) := by
  obtain ⟨taken, dropped⟩ := takeWhile_word is.1.digits stops
  refine ⟨pos + Text.Utf8.size ds, ?_⟩
  rw [index]
  simp only [Cursor.skipWhile, taken, dropped, index?_iff.2 is]

theorem index_stops (behind : Ty.Behind rest) : ∀ c ∈ rest.head?, Text.isDigit c = false := by
  intro c is
  rcases behind c is with rfl | rfl <;> rfl

/-- A reference without a dot ends where no index goes on. -/
theorem reference_same (is : Index n ds) (behind : Ty.Behind rest) (pos : Nat) :
    ∃ pos' shorter, reference whole ⟨ds ++ rest, pos⟩ = .ok (same n, ⟨⟨rest, pos'⟩, shorter⟩) := by
  obtain ⟨pos', read⟩ := index_digits whole is (index_stops behind) pos
  unfold reference
  split
  next fault => rw [read] at fault; cases fault
  next m d found =>
    obtain ⟨rfl, rfl⟩ := Prod.mk.inj (Except.ok.inj (read.symm.trans found))
    dsimp only
    split
    next later =>
      rcases behind '.' rfl with wrong | wrong <;> cases wrong
    next => exact ⟨pos', Nat.le_trans (Nat.le_add_left ..) List.length_append.ge, rfl⟩

theorem reference_argOf (is : Index n ds) (is' : Index k cs) (behind : Ty.Behind rest) (pos : Nat) :
    ∃ pos' shorter,
      reference whole ⟨ds ++ '.' :: (cs ++ rest), pos⟩ = .ok (argOf n k, ⟨⟨rest, pos'⟩, shorter⟩) := by
  have dot : ∀ c ∈ ('.' :: (cs ++ rest)).head?, Text.isDigit c = false := by
    rintro c ⟨⟩
    rfl
  obtain ⟨pos', read⟩ := index_digits whole is dot pos
  obtain ⟨pos'', read'⟩ := index_digits whole is' (index_stops behind) (pos' + 1)
  unfold reference
  split
  next fault => rw [read] at fault; cases fault
  next m d found =>
    obtain ⟨rfl, rfl⟩ := Prod.mk.inj (Except.ok.inj (read.symm.trans found))
    dsimp only
    split
    next later dot =>
      obtain rfl := (List.cons.inj dot).2
      split
      next fault => rw [read'] at fault; cases fault
      next l e found' =>
        obtain ⟨rfl, rfl⟩ := Prod.mk.inj (Except.ok.inj (read'.symm.trans found'))
        exact ⟨pos'', by simp only [List.length_append, List.length_cons]; omega, rfl⟩
    next other => exact absurd rfl (other _)

/-- What follows a percent sign is read as a reference. -/
theorem readsAs_reference (read : ∀ pos, ∃ pos' shorter,
    reference whole ⟨cs, pos⟩ = .ok (e, ⟨⟨rest, pos'⟩, shorter⟩)) : ReadsAs whole ('%' :: cs) e rest := by
  intro pos
  obtain ⟨pos', shorter, found⟩ := read (pos + 1)
  rw [expr]
  simp only [if_pos, found]
  exact ⟨pos', Nat.lt_succ_of_le shorter, rfl⟩

mutual

/-- What the grammar derives is read, before a comma, a closing bracket or the end. -/
theorem Derives.reads : {cs : List Char} → {e : TypeExpr} → Derives cs e → ∀ whole {rest},
    Ty.Behind rest → ReadsAs whole (cs ++ rest) e rest
  | _, _, .same is, _, _, behind => readsAs_reference (reference_same is behind)
  | _, _, .argOf is is', whole, rest, behind => by
    rw [List.cons_append, List.append_assoc, List.cons_append]
    exact readsAs_reference (reference_argOf is is' behind)
  | _, _, .named word, whole, _, behind => readsAs_named word whole behind
  | _, _, .generic word inside, whole, rest, _ => by
    rw [List.append_assoc, List.cons_append, List.append_assoc]
    exact readsAs_generic word (inside.reads whole rest)

theorem DerivesEach.reads : {cs : List Char} → {es : List TypeExpr} → DerivesEach cs es →
    ∀ whole rest, ReadsEach whole (cs ++ '>' :: rest) es ('>' :: rest)
  | _, _, .last first, whole, _ => (first.reads whole (by simp [Ty.Behind])).last
  | _, _, .cons first others, whole, rest => by
    rw [List.append_assoc, List.cons_append]
    exact (first.reads whole (by simp [Ty.Behind])).cons (others.reads whole rest)

end

/-! ## What is read is derived -/

theorem index_ok {d : Cursor} (h : index whole c = .ok (n, d)) :
    ∃ ds, c.rest = ds ++ d.rest ∧ Index n ds := by
  unfold index at h
  dsimp only at h
  split at h
  next read =>
    obtain ⟨rfl, rfl⟩ := Prod.mk.inj (Except.ok.inj h)
    exact ⟨_, List.takeWhile_append_dropWhile.symm, index?_iff.1 read⟩
  next => cases h

theorem reference_ok {d : { d : Cursor // d.rest.length ≤ c.rest.length }}
    (h : reference whole c = .ok (e, d)) : ∃ cs, c.rest = cs ++ d.1.rest ∧ Derives ('%' :: cs) e := by
  unfold reference at h
  split at h
  next => cases h
  next n d read =>
    obtain ⟨ds, split, is⟩ := index_ok read
    dsimp only at h
    split at h
    next rest dot =>
      split at h
      next => cases h
      next k d' read' =>
        obtain ⟨es, split', is'⟩ := index_ok read'
        obtain ⟨rfl, rfl⟩ := Prod.mk.inj (Except.ok.inj h)
        have whole : c.rest = ds ++ '.' :: es ++ d'.rest := by
          rw [split, dot, show rest = es ++ d'.rest from split', List.append_assoc, List.cons_append]
        exact ⟨ds ++ '.' :: es, whole, .argOf is is'⟩
    next =>
      obtain ⟨rfl, rfl⟩ := Prod.mk.inj (Except.ok.inj h)
      exact ⟨ds, split, .same is⟩

/-- The characters of a name make up a word. -/
theorem word_taken {a : Char} (front : c.rest = a :: cs) (apart : a ≠ '%') (plain : isNameChar a = true) :
    Word (String.ofList (c.rest.takeWhile isNameChar)) := by
  refine ⟨a, cs.takeWhile isNameChar, ?_, apart, ?_⟩
  · rw [String.toList_ofList, front, List.takeWhile_cons_of_pos plain]
  · intro d is
    rw [← List.takeWhile_cons_of_pos plain] at is
    exact List.mem_takeWhile_imp is

mutual

/-- What is read is derived by the grammar. -/
theorem derives_of_expr {whole : String} {c : Cursor} {e : TypeExpr} {d : After c}
    (h : expr whole c = .ok (e, d)) : ∃ cs, c.rest = cs ++ d.1.rest ∧ Derives cs e := by
  rw [expr] at h
  split at h
  next => cases h
  next a cs front =>
    split at h
    next percent =>
      subst percent
      split at h
      next => cases h
      next e' d' shorter read =>
        obtain ⟨rfl, rfl⟩ := Prod.mk.inj (Except.ok.inj h)
        obtain ⟨ds, split, derives⟩ := reference_ok read
        have whole : c.rest = '%' :: ds ++ d'.rest := by
          rw [front, show cs = ds ++ d'.rest from split]
          rfl
        exact ⟨'%' :: ds, whole, derives⟩
    next apart =>
      split at h
      next plain =>
        have word := word_taken front apart plain
        have whole : c.rest = (String.ofList (c.rest.takeWhile isNameChar)).toList ++
            (c.skipWhile isNameChar).rest := by
          rw [String.toList_ofList]
          exact List.takeWhile_append_dropWhile.symm
        dsimp only at h
        split at h
        -- what is consumed is the name, the bracket, the arguments and the closing bracket
        next rest opened =>
          have shorter : rest.length < c.rest.length := by
            have less := skipWhile_name_lt front plain
            rw [opened, List.length_cons] at less
            omega
          split at h
          next => cases h
          next args d' _ read =>
            split at h
            next rest' closed =>
              obtain ⟨rfl, rfl⟩ := Prod.mk.inj (Except.ok.inj h)
              obtain ⟨ds, split, derives⟩ := derives_of_exprs read
              refine ⟨_, ?_, .generic word derives⟩
              rw [List.append_assoc, List.cons_append, List.append_assoc, List.singleton_append]
              rw [← closed, ← show rest = ds ++ d'.rest from split, ← opened]
              exact whole
            next => cases h
        next =>
          obtain ⟨rfl, rfl⟩ := Prod.mk.inj (Except.ok.inj h)
          exact ⟨_, whole, .named word⟩
      next => cases h
termination_by 2 * c.rest.length
decreasing_by omega

theorem derives_of_exprs {whole : String} {c : Cursor} {es : List TypeExpr} {d : After c}
    (h : exprs whole c = .ok (es, d)) : ∃ cs, c.rest = cs ++ d.1.rest ∧ DerivesEach cs es := by
  rw [exprs] at h
  split at h
  next => cases h
  next e d' shorter read =>
    obtain ⟨cs, split, first⟩ := derives_of_expr read
    split at h
    next rest comma =>
      have shorter : rest.length < c.rest.length := by
        rw [comma, List.length_cons] at shorter
        omega
      split at h
      next => cases h
      next es' d'' shorter' reads =>
        obtain ⟨rfl, rfl⟩ := Prod.mk.inj (Except.ok.inj h)
        obtain ⟨ds, split', others⟩ := derives_of_exprs reads
        have whole : c.rest = cs ++ ',' :: ds ++ d''.rest := by
          rw [split, comma, show rest = ds ++ d''.rest from split', List.append_assoc, List.cons_append]
        exact ⟨cs ++ ',' :: ds, whole, .cons first others⟩
    next =>
      obtain ⟨rfl, rfl⟩ := Prod.mk.inj (Except.ok.inj h)
      exact ⟨cs, split, .last first⟩
termination_by 2 * c.rest.length + 1
decreasing_by
  · exact Nat.lt_succ_self _
  · omega

end

theorem parse_iff {text : String} : parse text = .ok e ↔ Derives text.toList e := by
  constructor
  · intro h
    unfold parse at h
    split at h
    next => cases h
    next e' d shorter read =>
      split at h
      next none =>
        obtain rfl := Except.ok.inj h
        obtain ⟨cs, split, derives⟩ := derives_of_expr read
        rw [List.isEmpty_iff.1 none, List.append_nil] at split
        rwa [show text.toList = cs from split]
      next => cases h
  · intro derives
    have behind : Ty.Behind [] := by simp [Ty.Behind]
    have reads := derives.reads text behind
    rw [List.append_nil] at reads
    obtain ⟨pos, shorter, read⟩ := reads 0
    rw [parse, read]
    rfl

/-! ## What is read is written -/

theorem Index.decimal (h : Index n ds) : Index n (toString n).toList := by
  rw [Nat.toString_eq_repr, Nat.toList_repr]
  exact ⟨Text.numeral_decimal n, h.2⟩

theorem DerivesEach.some {es : List TypeExpr} (h : DerivesEach cs es) : es ≠ [] := by
  cases h <;> exact List.cons_ne_nil _ _

theorem texts_cons {es : List TypeExpr} (some : es ≠ []) :
    (String.intercalate "," (texts (e :: es))).toList =
      e.text.toList ++ ',' :: (String.intercalate "," (texts es)).toList := by
  obtain ⟨e', es, rfl⟩ := List.exists_cons_of_ne_nil some
  simp [texts]

mutual

/-- The printed form of what the grammar derives is derived as the same expression. -/
theorem Derives.text : {cs : List Char} → {e : TypeExpr} → Derives cs e → Derives e.text.toList e
  | _, _, @Derives.same n _ is => by
    have printed : (TypeExpr.same n).text.toList = '%' :: (toString n).toList := by
      simp [TypeExpr.text, show toString "%" = "%" from rfl]
    rw [printed]
    exact .same is.decimal
  | _, _, @Derives.argOf n k _ _ is is' => by
    have printed : (TypeExpr.argOf n k).text.toList =
        '%' :: ((toString n).toList ++ '.' :: (toString k).toList) := by
      simp [TypeExpr.text, show toString "%" = "%" from rfl, show toString "." = "." from rfl]
    rw [printed]
    exact .argOf is.decimal is'.decimal
  | _, _, .named word => .named word
  | _, _, @Derives.generic name _ args word inside => by
    have printed : (TypeExpr.generic name args).text.toList =
        name.toList ++ '<' :: ((String.intercalate "," (texts args)).toList ++ ['>']) := by
      simp [TypeExpr.text]
    rw [printed]
    exact .generic word inside.text

theorem DerivesEach.text : {cs : List Char} → {es : List TypeExpr} → DerivesEach cs es →
    DerivesEach (String.intercalate "," (texts es)).toList es
  | _, _, .last first => .last first.text
  | _, _, .cons first others => by
    rw [texts_cons others.some]
    exact .cons first.text others.text

end

/-- A text is read just when the grammar derives it, and as the expression derived; the printed form of
what was read is read as the same expression again, however deep it is. -/
theorem parse_grammar : (∀ text e, parse text = .ok e ↔ Derives text.toList e) ∧
    ∀ text e, parse text = .ok e → parse e.text = .ok e :=
  ⟨fun _ _ => parse_iff, fun _ _ read => parse_iff.2 (parse_iff.1 read).text⟩

/-- Zeros in front of an index, a blank in a name and brackets in brackets. -/
theorem parse_grammar_nested :
    let e := generic "Table" [same 7, generic "List" [named "a b"]]
    parse "Table<%007,List<a b>>" = .ok e ∧ e.text = "Table<%7,List<a b>>" ∧ parse e.text = .ok e := by
  intro e
  have index : Index 7 ['0', '0', '7'] := ⟨⟨by decide, List.all_eq_true.1 (by decide), by decide⟩, by decide⟩
  have table : Word "Table" := ⟨'T', _, rfl, by decide, List.all_eq_true.1 (by decide)⟩
  have list : Word "List" := ⟨'L', _, rfl, by decide, List.all_eq_true.1 (by decide)⟩
  have blank : Word "a b" := ⟨'a', _, rfl, by decide, List.all_eq_true.1 (by decide)⟩
  have derives : Derives "Table<%007,List<a b>>".toList e :=
    .generic table (.cons (.same index) (.last (.generic list (.last (.named blank)))))
  have read : parse "Table<%007,List<a b>>" = .ok e := (parse_grammar.1 _ _).2 derives
  exact ⟨read, by decide +kernel, parse_grammar.2 _ _ read⟩

end TypeExpr

end Catena
