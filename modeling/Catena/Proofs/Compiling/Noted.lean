import Catena.Proofs.Compiling.Settle
import Catena.Proofs.Layout.Compiled

/-!
# Comments make no difference

A comment between two tokens of a source, or between two tokens of a span that is compiled, leaves what
is compiled as it is (`source_noted`). In a span, the comment must be one that the search for the end of
the span passes over: that search does not know comments.
-/

namespace Catena

variable {α : Type} {I : Ids}

/-! ## An engine and itself -/

theorem Label.Like.eq {l l' : Label} (only : ∀ a b, I a b → a = b) (h : l.Like I l') : l' = l := by
  cases h with
  | refl => rfl
  | fresh hint is => rw [only _ _ is]
  | exit kind depth is => rw [only _ _ is]

theorem optionRel_eq {r : α → α → Prop} {a b : Option α} (only : ∀ a b, r a b → b = a)
    (h : Option.Rel r a b) : b = a := by
  cases h with
  | none => rfl
  | some is => rw [only _ _ is]

theorem forall₂_eq {r : α → α → Prop} {as bs : List α} (only : ∀ a b, r a b → b = a)
    (h : as.Forall₂ r bs) : bs = as := by
  have same : as.Forall₂ Eq bs := h.imp fun _ _ is => (only _ _ is).symm
  rw [List.forall₂_eq_eq_eq] at same
  exact same.symm

theorem Value.Like.eq {v v' : Value} (only : ∀ a b, I a b → a = b) (h : v.Like Eq I v') : v' = v := by
  cases h with
  | refl => rfl
  | type is => rw [is]
  | label is => rw [is.eq only]

theorem LambdaDef.Like.eq {b b' : LambdaDef} (only : ∀ a b, I a b → a = b) (h : b.Like I b') :
    b' = b := by
  obtain ⟨id, name, entry⟩ := b
  obtain ⟨id', name', entry'⟩ := b'
  obtain ⟨ids, rfl, rfl⟩ := h
  cases only _ _ ids
  rfl

theorem Op.Like.eq {word : String → Prop} {op op' : Op} (only : ∀ a b, I a b → a = b)
    (h : op.Like Eq word I op') : op' = op := by
  have label (l l' : Label) (is : l.Like I l') : l' = l := is.eq only
  have labels {l l' : Option Label} (h : Option.Rel (Label.Like I) l l') : l' = l :=
    optionRel_eq label h
  cases h with
  | fixed => rfl
  | push is => rw [is.eq only]
  | pushMany are => rw [forall₂_eq (fun _ _ is => is.eq only) are]
  | drop => rfl
  | check is => rw [optionRel_eq (fun _ _ is => is.symm) is]
  | deref => rfl
  | ref => rfl
  | target is => rw [label _ _ is]
  | jump name is => rw [labels is]
  | back is => rw [label _ _ is]
  | lambda kind body skip => rw [body.eq only, labels skip]
  | unlambda is => rw [only _ _ is]
  | exit is lambda => rw [label _ _ is, optionRel_eq (fun _ _ is => (only _ _ is).symm) lambda]
  | «try» is => rw [label _ _ is]
  | «for» is => rw [labels is]
  | «while» is => rw [labels is]
  | param is => rw [only _ _ is]
  | unparam is => rw [only _ _ is]

theorem Op.Like.same {ty : Ty → Ty → Prop} {word : String → Prop} (every : ∀ a, I a a)
    (known : ∀ name, word name) (types : ∀ t, ty t t) (op : Op) : op.Like ty word I op := by
  have value (v : Value) : v.Like ty I v := .refl v
  have labels (l : Option Label) : Option.Rel (Label.Like I) l l := Likeness.optionRel_refl .refl l
  cases op with
  | push v => exact .push (value v)
  | pushMany vs => exact .pushMany (List.forall₂_same.2 fun v _ => value v)
  | drop n => exact .drop n
  | check t => exact .check (Likeness.optionRel_refl types t)
  | deref name => exact .deref (known name)
  | ref name => exact .ref name
  | target l => exact .target (.refl l)
  | jump name l => exact .jump name (labels l)
  | lambda b kind l => exact .lambda kind ⟨every b.id, rfl, rfl⟩ (labels l)
  | unlambda a => exact .unlambda (every a)
  | exit l a => exact .exit (.refl l) (Likeness.optionRel_refl every a)
  | «try» l => exact .try (.refl l)
  | «for» l => exact .for (labels l)
  | «while» l => exact .while (labels l)
  | param a => exact .param (every a)
  | unparam a template => exact .unparam (every a) (known template)
  | _ => exact .fixed rfl

theorem Arg.Like.eq {a a' : Arg} (h : a.Like Eq a') : a' = a := by
  cases h with
  | refl => rfl
  | type is => rw [is]
  | isType is => rw [is]

theorem PendingFunc.Like.eq {f f' : PendingFunc} (only : ∀ a b, I a b → a = b) (h : f.Like Eq I f') :
    f' = f := by
  obtain ⟨name, args, safety, body⟩ := f
  obtain ⟨name', args', safety', body'⟩ := f'
  obtain ⟨rfl, args, rfl, body⟩ := h
  cases forall₂_eq (fun _ _ => Arg.Like.eq) args
  cases body.eq only
  rfl

theorem PendingConv.Like.eq {c c' : PendingConv} (only : ∀ a b, I a b → a = b) (h : c.Like Eq I c') :
    c' = c := by
  obtain ⟨source, target, body⟩ := c
  obtain ⟨source', target', body'⟩ := c'
  obtain ⟨rfl, rfl, body⟩ := h
  cases body.eq only
  rfl

namespace Likeness

/-- One engine on both sides: what corresponds is the same. -/
def same (macros : Dict String Macro) : Likeness where
  ty := Eq
  word _ := True
  macros := macros
  registry I r r' := (∀ a b, I a b ↔ a = b) ∧ r' = r ∧ r.macros = macros
  ty_refl _ := rfl
  ty_name h := by rw [h]
  word_plain _ := trivial
  apart h i j := by rw [(h.1 _ _).1 i, (h.1 _ _).1 j]
  forms h := ⟨h.2.2, h.2.1 ▸ h.2.2⟩
  keywords h _ := .same (fun a => (h.1 a a).2 rfl) (fun _ => trivial) (fun _ => rfl) _
  labels h := by rw [h.2.1]
  funcs h _ := by rw [h.2.1]
  types h _ := by
    rw [h.2.1]
    exact optionRel_refl (fun _ => rfl) _
  freshId := by
    rintro I r _ ⟨only, rfl, forms⟩
    refine ⟨fun a b => ?_, rfl, forms⟩
    rw [Ids.join, only]
    exact ⟨fun h => h.elim id fun ⟨l, r⟩ => l.trans r.symm, .inl⟩
  instantiateNamed := by
    rintro I r _ name args args' t s ⟨only, rfl, forms⟩ - likes made
    obtain rfl := forall₂_eq (fun _ _ => Eq.symm) likes
    exact ⟨t, s, made, rfl, only, rfl, (Registry.instantiateNamed_adds made).grown.macros.trans forms⟩
  declareType := by
    rintro I r _ name supers behavior t s ⟨only, rfl, forms⟩ - made
    exact ⟨t, s, made, rfl, only, rfl, (Registry.declareType_gains made).grown.macros.trans forms⟩
  addImp := by
    rintro I r _ args args' f f' name safety ⟨only, rfl, forms⟩ likes like
    obtain rfl := forall₂_eq (fun _ _ => Arg.Like.eq) likes
    have native : f' = f := by
      cases like with
      | refl => rfl
      | construct fields is => rw [is]
    rw [native]
    exact ⟨only, rfl, forms⟩

/-- What is the same on both sides of a compilation. -/
theorem state_same {macros : Dict String Macro} {c c' : Compiler} (h : (same macros).State I c c') :
    (∀ a b, I a b → a = b) ∧ c'.shared.registry = c.shared.registry ∧ c'.funcs = c.funcs ∧
      c'.convs = c.convs := by
  have only (a b : Nat) (is : I a b) : a = b := (h.registry.1 a b).1 is
  exact ⟨only, h.registry.2.1, forall₂_eq (fun _ _ is => is.eq only) h.funcs,
    forall₂_eq (fun _ _ is => is.eq only) h.convs⟩

end Likeness

/-! ## Where the comment stands -/

namespace Compile

open Token (Spaced Lexeme Parted Passes Closed comment Trades SameTexts scan ofChars)

/-- The second text is the first one, which begins at byte `pos` of the source, with the comment `C` put
between blanks: between two tokens, or in the text of a span whose turn it is to be compiled. Inside a
span (`inner`), the search for its end has to pass over the comment, and over what comes before it. -/
inductive Noted (forms : Token → Option Macro) (C : List Char) : (inner : Bool) → (pos : Nat) →
    List Char → List Char → Prop
  | between {inner : Bool} {pos : Nat} {A W B : List Char} {ts us : List Token} :
      Spaced (W ++ B) pos A ts → W ≠ [] → (∀ c ∈ W, Text.isBlank c = true) → Spaced [] 0 B us →
      (inner = true → Passes '{' A ∧ Passes '{' (comment C)) →
      Noted forms C inner pos (A ++ (W ++ B)) (A ++ (W ++ (comment C ++ (W ++ B))))
  | inside {inner : Bool} {pos : Nat} {A X X' B : List Char} {ts us : List Token} :
      Spaced ('{' :: (X ++ ['}']) ++ B) pos A ts → Turn forms ts → Passes '{' X → Spaced [] 0 B us →
      (inner = true → Passes '{' A) → Noted forms C true (pos + Text.Utf8.size A + 1) X X' →
      Noted forms C inner pos (A ++ ('{' :: (X ++ ['}']) ++ B)) (A ++ ('{' :: (X' ++ ['}']) ++ B))

variable {forms : Token → Option Macro} {inner : Bool} {pos : Nat} {A B C S S' W X : List Char}
  {ts us : List Token}

theorem Noted.longer (h : Noted forms C inner pos S S') : S.length ≤ S'.length := by
  induction h with
  | between =>
    simp only [List.length_append]
    omega
  | inside _ _ _ _ _ _ ih =>
    simp only [List.length_append, List.length_cons]
    omega

/-- A span ends where it did. -/
theorem Noted.trades (h : Noted forms C true pos S S') : Trades S S' := by
  generalize deep : true = inner at h
  induction h with
  | between _ some blank _ passes =>
    obtain ⟨before, past⟩ := passes deep.symm
    simpa using (Token.trades_comment before blank some past).append _
  | inside _ _ _ _ before _ ih =>
    simpa using ((ih rfl).span (before deep.symm)).append _

/-- The tokens of a text before those of the rest. -/
theorem spaced_scan {rest : List Char} (h : Spaced rest pos A ts)
    (read : scan (pos + Text.Utf8.size A) rest = .ok us) : scan pos (A ++ rest) = .ok (ts ++ us) := by
  rw [h.scan, read]
  rfl

/-- The last part of a text has the same tokens wherever it begins. -/
theorem spaced_last (h : Spaced [] 0 B us) (pos pos' : Nat) :
    ∃ vs vs', scan pos B = .ok vs ∧ scan pos' B = .ok vs' ∧ SameTexts vs vs' := by
  have read : scan 0 (B ++ []) = .ok (us ++ []) := spaced_scan h (by rw [scan])
  rw [List.append_nil] at read
  obtain ⟨vs, read, -⟩ := Token.scan_elsewhere read pos
  obtain ⟨vs', read', same⟩ := Token.scan_elsewhere read pos'
  exact ⟨vs, vs', read, read', same⟩

/-- The tokens of a text with a span in it. -/
theorem span_scan (before : Spaced ('{' :: (X ++ ['}']) ++ B) pos A ts) (passes : Passes '{' X)
    (read : scan (pos + Text.Utf8.size A + Text.Utf8.size ('{' :: (X ++ ['}']))) B = .ok us) :
    scan pos (A ++ ('{' :: (X ++ ['}']) ++ B)) =
      .ok (ts ++ ofChars ('{' :: (X ++ ['}'])) (pos + Text.Utf8.size A) :: us) := by
  have span : Lexeme B ('{' :: (X ++ ['}'])) := .span (Token.passes_iff.1 passes)
  refine spaced_scan before ?_
  rw [Token.scan_lexeme span, read]
  rfl

theorem level?_brace {t : Token} (brace : t.isBrace = true) (ts : List Token) :
    level? (t :: ts) = none := by
  refine List.find?_eq_none.2 fun s _ same => ?_
  have plain : s.name.toList.head? ≠ some '{' := by cases s <;> decide
  rw [eq_of_beq same] at plain
  exact plain (eq_of_beq brace)

/-- The tokens of both texts are compiled alike. -/
theorem Noted.reads (closed : Closed C) (h : Noted forms C inner pos S S') :
    ∃ ts ts', scan pos S = .ok ts ∧ scan pos S' = .ok ts' ∧ Alike forms ts ts' := by
  induction h with
  | @between inner pos A W B ts us spaced some blank last passes =>
    have parted : Parted (W ++ (comment C ++ (W ++ B))) := by
      cases W with
      | nil => exact absurd rfl some
      | cons c W => exact Token.parted_cons.2 (Token.isDelimiter_of_isBlank (blank c List.mem_cons_self))
    have spaced' : Spaced (W ++ (comment C ++ (W ++ B))) pos A ts :=
      spaced.before (fun none => absurd (List.append_eq_nil_iff.1 none).1 some) parted
    obtain ⟨vs, vs', read, read', same⟩ := spaced_last last
      (pos + Text.Utf8.size A + Text.Utf8.size W)
      (pos + Text.Utf8.size A + Text.Utf8.size W + Text.Utf8.size (comment C) + Text.Utf8.size W)
    refine ⟨ts ++ vs, ts ++ vs', spaced_scan spaced ?_, spaced_scan spaced' ?_,
      .same (List.rel_append (SameTexts.refl ts) same)⟩
    · rw [Token.scan_blanks blank, read]
    · rw [Token.scan_blanks blank, Token.scan_comment closed, Token.scan_blanks blank, read']
  | @inside inner pos A X X' B ts us spaced turn passes last before noted ih =>
    obtain ⟨ws, ws', inside, inside', alike⟩ := ih
    obtain ⟨vs, vs', read, read', same⟩ := spaced_last last
      (pos + Text.Utf8.size A + Text.Utf8.size ('{' :: (X ++ ['}'])))
      (pos + Text.Utf8.size A + Text.Utf8.size ('{' :: (X' ++ ['}'])))
    have spaced' : Spaced ('{' :: (X' ++ ['}']) ++ B) pos A ts :=
      spaced.before nofun (Token.parted_cons.2 (by decide))
    refine ⟨_, _, span_scan spaced passes read, span_scan spaced' (noted.trades.passes passes) read', ?_⟩
    have brace (Y : List Char) (pos : Nat) : (ofChars ('{' :: Y) pos).isBrace = true :=
      Token.isBrace_ofChars.2 rfl
    have spans (Y : List Char) (vs : List Token) : level?
        (ofChars ('{' :: Y) (pos + Text.Utf8.size A) :: vs) = none := level?_brace (brace _ _) vs
    refine turn.alike (spans _ _) (spans _ _) (.span (brace _ _) (brace _ _) ?_ ?_ alike (.same same))
    · rw [Token.inner_ofChars]
      exact inside
    · rw [Token.inner_ofChars]
      exact inside'

/-- A comment leaves what is compiled as it is, and what becomes known. -/
theorem source_noted {s : Shared} {base : Nat} {code : Code} {d : Compiler} (closed : Closed C)
    (noted : Noted (formOf s.registry.macros) C false 0 S S')
    (ok : source (String.ofList S) base { shared := s } = .ok code d) :
    ∃ d', source (String.ofList S') base { shared := s } = .ok code d' ∧
      d'.shared.registry = d.shared.registry ∧ d'.shared.store = d.shared.store := by
  let L := Likeness.same s.registry.macros
  obtain ⟨ts, ts', read, read', alike⟩ := noted.reads closed
  have reads (us : List Token) (h : scan 0 (String.ofList S).toList = .ok us) : ∃ us',
      scan 0 (String.ofList S').toList = .ok us' ∧ Alike (formOf L.macros) us us' := by
    rw [String.toList_ofList, read] at h
    obtain rfl := Except.ok.inj h
    exact ⟨ts', by rw [String.toList_ofList, read'], alike⟩
  have begun : L.State Eq { shared := s } { shared := s } :=
    ⟨⟨fun _ _ => Iff.rfl, rfl, rfl⟩, rfl, .nil, .nil, .nil⟩
  obtain ⟨ops, e, made, free⟩ := unplaced_of_source ok
  obtain ⟨d₁, placing, registry, store⟩ := source_placed made free
  obtain ⟨rfl, rfl⟩ := EStateM.Result.ok.inj (placing.symm.trans ok)
  have longer : (String.ofList S).length ≤ (String.ofList S').length := by
    simpa using noted.longer
  obtain ⟨J, ops', e', -, made', state, likes⟩ := Likeness.unplaced reads longer base base _ _ _ _
    begun made fun _ _ _ _ => trivial
  obtain ⟨only, same, funcs, convs⟩ := Likeness.state_same state
  obtain rfl := forall₂_eq (fun _ _ is => Op.Like.eq only is) likes
  obtain ⟨d', placing', registry', store'⟩ := source_placed made' (same ▸ free)
  refine ⟨d', ?_, ?_, store'.trans store.symm⟩
  · rw [placing', placed, placed, funcs, convs]
  · rw [registry', registry, labelled, labelled, same]

/-- Text that is read on its own, before something that no word goes on with. -/
theorem spaced_before {rest : List Char} (ts : List Token) (read : (scan pos A).toOption = some ts)
    (uncommented : Token.Uncommented A) (ends : A.getLast? ≠ some '\\') (parted : Parted rest) :
    Spaced rest pos A ts := by
  cases reads : scan pos A with
  | error => rw [reads] at read; cases read
  | ok us =>
    rw [reads] at read
    obtain rfl := Option.some.inj read
    exact (Token.spaced_of_scan reads uncommented).before (fun _ => ends) parted

/-- A comment in a span in a span, with a quote and braces in it. -/
theorem source_noted_nested :
    let s : Shared := (Engine.new {} .silent {}).shared
    ∃ code d d', source "\x7b1 \x7b2 3\x7d call\x7d call" 4 { shared := s } = .ok code d ∧
      source "\x7b1 \x7b2 /* it's \x7btwo\x7d */ 3\x7d call\x7d call" 4 { shared := s } = .ok code d' ∧
      code.ops.length = 10 := by
  intro s
  have innermost : Noted (formOf s.registry.macros) " it's \x7btwo\x7d ".toList true 4
      "2 3".toList "2 /* it's \x7btwo\x7d */ 3".toList :=
    .between (A := ['2']) (W := [' ']) (B := ['3'])
      (spaced_before [⟨"2", 4⟩] (by decide +kernel) (by decide) (by decide) (Token.parted_cons.2 (by decide)))
      (List.cons_ne_nil _ _) (List.forall_mem_singleton.2 (by decide))
      (spaced_before [⟨"3", 0⟩] (by decide +kernel) (by decide) (by decide) Token.parted_nil)
      fun _ => ⟨by decide +kernel, by decide +kernel⟩
  have inner : Noted (formOf s.registry.macros) " it's \x7btwo\x7d ".toList true 1
      "1 \x7b2 3\x7d call".toList "1 \x7b2 /* it's \x7btwo\x7d */ 3\x7d call".toList :=
    .inside (A := ['1', ' ']) (B := " call".toList)
      (spaced_before [⟨"1", 1⟩] (by decide +kernel) (by decide) (by decide) (Token.parted_cons.2 (by decide)))
      (.form (by decide +kernel) .nil) (by decide +kernel)
      (spaced_before [⟨"call", 1⟩] (by decide +kernel) (by decide) (by decide) Token.parted_nil)
      (fun _ => by decide +kernel) innermost
  have outer : Noted (formOf s.registry.macros) " it's \x7btwo\x7d ".toList false 0
      "\x7b1 \x7b2 3\x7d call\x7d call".toList
      "\x7b1 \x7b2 /* it's \x7btwo\x7d */ 3\x7d call\x7d call".toList :=
    .inside (A := []) (B := " call".toList) .nil .nil (by decide +kernel)
      (spaced_before [⟨"call", 1⟩] (by decide +kernel) (by decide) (by decide) Token.parted_nil)
      Bool.noConfusion inner
  obtain ⟨code, d, ok, long⟩ : ∃ code d, source (String.ofList "\x7b1 \x7b2 3\x7d call\x7d call".toList) 4
      { shared := s } = .ok code d ∧ code.ops.length = 10 :=
    answers_of (p := fun code : Code => code.ops.length = 10) (by decide +kernel)
  have closed : Closed " it's \x7btwo\x7d ".toList := by decide +kernel
  obtain ⟨d', ok', -, -⟩ := source_noted closed outer ok
  exact ⟨code, d, d', ok, ok', long⟩

end Compile

end Catena
