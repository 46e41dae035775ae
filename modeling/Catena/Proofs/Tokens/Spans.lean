import Catena.Compiler.State
import Catena.Proofs.Tokens.Spaced

/-!
# Spans between braces

The end of a span is found without reading the tokens inside it: a quote begins a string there if
the character before it could end a word. Where that agrees with the tokens (`Steady`), the text of
the tokens is read over (`Passes`), and braces around a text make one token of it.
-/

namespace Catena.Token

variable {c prev quote : Char} {cs ds rest text body : List Char} {pos depth : Nat} {ts : List Token}

/-! ## Reading over text -/

/-- Inside a span, the characters behind `prev` are read over. -/
def Passes (prev : Char) (cs : List Char) : Prop :=
  ∀ depth rest, 1 ≤ depth → spanEnd depth prev (cs ++ rest) =
    (spanEnd depth (cs.getLastD prev) rest).map fun r => (cs ++ r.1, r.2)

/-- Of the character before, only whether it could end a word is of interest, and only to a quote. -/
theorem spanEnd_behind {d : Char} (same : IsQuote c → isDelimiter prev = isDelimiter d) :
    spanEnd depth prev (c :: cs) = spanEnd depth d (c :: cs) := by
  rw [spanEnd.eq_def, spanEnd.eq_def depth d]
  dsimp only
  by_cases quoted : c = '\'' ∨ c = '"'
  · rw [startsToken, startsToken, same quoted]
  · simp only [quoted, false_and]

theorem getLastD_append (cs ds : List Char) :
    (cs ++ ds).getLastD prev = ds.getLastD (cs.getLastD prev) := by
  simp [List.getLastD_eq_getLast?]

theorem passes_nil : Passes prev [] := by
  intro depth rest _
  cases h : spanEnd depth prev rest <;> simp [h]

theorem Passes.append (h : Passes prev cs) (h' : Passes (cs.getLastD prev) ds) :
    Passes prev (cs ++ ds) := by
  intro depth rest deep
  rw [List.append_assoc, h depth _ deep, h' depth rest deep, getLastD_append, Option.map_map]
  simp only [Function.comp_def, List.append_assoc]

theorem passes_blank (blank : Text.isBlank c = true) : Passes prev [c] := by
  have plain : c ≠ '{' ∧ c ≠ '}' ∧ c ≠ '\\' ∧ ¬ IsQuote c := by
    refine ⟨?_, ?_, ?_, ?_⟩
    · rintro rfl; revert blank; decide
    · rintro rfl; revert blank; decide
    · rintro rfl; revert blank; decide
    · rintro (rfl | rfl) <;> revert blank <;> decide
  obtain ⟨opens, closes, other, unquoted⟩ := plain
  exact fun depth rest _ => spanEnd_plain opens closes other (absurd · unquoted)

/-! ## Strings and spans inside -/

/-- The last character of a string is its quote. -/
theorem stringEnd_last {r : List Char × List Char} (h : stringEnd quote cs = some r) :
    r.1.getLast? = some quote := by
  induction cs using escape_cases generalizing r with
  | nil => cases h
  | dangling => cases h
  | escape c cs ih =>
    obtain ⟨r, inner, rfl⟩ := Option.map_eq_some_iff.1 h
    simp [List.getLast?_cons, ih inner]
  | plain c cs other ih =>
    rw [stringEnd_plain other] at h
    split at h
    next here =>
      obtain rfl := Option.some.inj h
      simp [here]
    next =>
      obtain ⟨r, inner, rfl⟩ := Option.map_eq_some_iff.1 h
      simp [List.getLast?_cons, ih inner]

theorem passes_string (is : IsQuote quote) (ended : stringEnd quote body = some (body, []))
    (starts : isDelimiter prev = true) : Passes prev (quote :: body) := by
  intro depth rest _
  have last : (quote :: body).getLastD prev = quote := by
    simp [List.getLastD_eq_getLast?, List.getLast?_cons, stringEnd_last ended]
  rw [List.cons_append, spanEnd_string is starts, (stringEnd_split ended).2 rest, last]
  rfl

/-- What ends a span is a brace, and the text before it is read over but for the braces open at its
beginning. -/
theorem spanEnd_before {r : List Char × List Char} (h : spanEnd depth prev text = some r)
    (deep : 1 ≤ depth) : ∃ cs, r.1 = cs ++ ['}'] ∧ ∀ more rest, 1 ≤ more →
      spanEnd (more + (depth - 1)) prev (cs ++ rest) =
        (spanEnd more (cs.getLastD prev) rest).map fun r => (cs ++ r.1, r.2) := by
  -- one piece is read, and the text behind it is read over by the induction
  have step (cs : List Char) {ds : List Char} {before depth more : Nat} {prev : Char} {rest : List Char}
      (front : spanEnd (more + (depth - 1)) prev (cs ++ (ds ++ rest)) =
        (spanEnd (more + (before - 1)) (cs.getLastD prev) (ds ++ rest)).map
          fun r => (cs ++ r.1, r.2))
      (back : spanEnd (more + (before - 1)) (cs.getLastD prev) (ds ++ rest) =
        (spanEnd more (ds.getLastD (cs.getLastD prev)) rest).map fun r => (ds ++ r.1, r.2)) :
      spanEnd (more + (depth - 1)) prev (cs ++ ds ++ rest) =
        (spanEnd more ((cs ++ ds).getLastD prev) rest).map fun r => (cs ++ ds ++ r.1, r.2) := by
    rw [List.append_assoc, front, back, getLastD_append, Option.map_map]
    simp only [Function.comp_def, List.append_assoc]
  fun_induction spanEnd depth prev text generalizing r with
  | case1 | case5 | case7 => cases h
  | case2 depth prev text ih =>
    obtain ⟨r, inner, rfl⟩ := Option.map_eq_some_iff.1 h
    obtain ⟨cs, split, goes⟩ := ih inner (Nat.le_add_left 1 depth)
    refine ⟨'{' :: cs, by rw [split]; rfl, fun more rest deeper => ?_⟩
    have same : more + (depth - 1) + 1 = more + (depth + 1 - 1) := by omega
    refine step ['{'] ?_ (goes more rest deeper)
    rw [← same]
    exact spanEnd_open
  | case3 depth prev text one =>
    obtain rfl := Option.some.inj h
    obtain rfl : depth = 1 := Nat.le_antisymm one deep
    exact ⟨[], rfl, fun more rest _ => by
      cases h : spanEnd more prev rest <;> simp [h]⟩
  | case4 depth prev text many _ ih =>
    obtain ⟨r, inner, rfl⟩ := Option.map_eq_some_iff.1 h
    obtain ⟨cs, split, goes⟩ := ih inner (by omega)
    refine ⟨'}' :: cs, by rw [split]; rfl, fun more rest deeper => ?_⟩
    have same : more + (depth - 1) - 1 = more + (depth - 1 - 1) := by omega
    refine step ['}'] ?_ (goes more rest deeper)
    rw [← same]
    exact spanEnd_close.trans (if_neg (by omega))
  | case6 depth prev e text _ _ ih =>
    obtain ⟨r, inner, rfl⟩ := Option.map_eq_some_iff.1 h
    obtain ⟨cs, split, goes⟩ := ih inner deep
    refine ⟨'\\' :: e :: cs, by rw [split]; rfl, fun more rest deeper => ?_⟩
    exact step ['\\', e] spanEnd_escape (goes more rest deeper)
  | case8 depth prev c text _ _ _ quoted body rest' ended _ ih =>
    obtain ⟨r, inner, rfl⟩ := Option.map_eq_some_iff.1 h
    obtain ⟨cs, split, goes⟩ := ih inner deep
    obtain ⟨rfl, string⟩ := stringEnd_split ended
    have last : (c :: body).getLastD prev = c := by
      simp [List.getLastD_eq_getLast?, List.getLast?_cons, stringEnd_last ended]
    refine ⟨c :: body ++ cs, by rw [split]; simp, fun more rest deeper => ?_⟩
    refine step (c :: body) ?_ (by rw [last]; exact goes more rest deeper)
    rw [List.cons_append, spanEnd_string quoted.1 quoted.2, string, last]
    rfl
  | case9 depth prev c text opens closes other quoted ih =>
    obtain ⟨r, inner, rfl⟩ := Option.map_eq_some_iff.1 h
    obtain ⟨cs, split, goes⟩ := ih inner deep
    have plain (is : IsQuote c) : isDelimiter prev = false :=
      eq_false_of_ne_true fun starts => quoted ⟨is, starts⟩
    refine ⟨c :: cs, by rw [split]; rfl, fun more rest deeper => ?_⟩
    exact step [c] (spanEnd_plain opens closes other plain) (goes more rest deeper)

/-- Whether a text is read over shows when the brace comes behind it that ends a span. -/
theorem passes_iff : Passes prev cs ↔ spanEnd 1 prev (cs ++ ['}']) = some (cs ++ ['}'], []) := by
  constructor
  · intro h
    rw [h 1 _ (Nat.le_refl 1), spanEnd_close, if_pos (Nat.le_refl 1)]
    rfl
  · intro h
    obtain ⟨ds, split, goes⟩ := spanEnd_before h (Nat.le_refl 1)
    obtain rfl := List.append_cancel_right split
    exact fun depth rest deep => goes depth rest deep

instance (prev : Char) (cs : List Char) : Decidable (Passes prev cs) :=
  decidable_of_iff _ passes_iff.symm

/-- The text of a span is read over. -/
theorem passes_inner (ended : spanEnd 1 '{' body = some (body, [])) :
    ∃ cs, body = cs ++ ['}'] ∧ Passes '{' cs := by
  obtain ⟨cs, split, goes⟩ := spanEnd_before ended (Nat.le_refl 1)
  exact ⟨cs, split, fun depth rest deep => goes depth rest deep⟩

theorem getLastD_span (prev : Char) (cs : List Char) :
    ('{' :: (cs ++ ['}'])).getLastD prev = '}' := by
  rw [← List.cons_append, getLastD_append]
  rfl

theorem passes_span (h : Passes '{' cs) : Passes prev ('{' :: (cs ++ ['}'])) := by
  intro depth rest deep
  have closes (p : Char) : spanEnd (depth + 1) p ('}' :: rest) =
      (spanEnd depth '}' rest).map fun r => ('}' :: r.1, r.2) :=
    spanEnd_close.trans (if_neg (by omega))
  rw [List.cons_append, spanEnd_open, List.append_assoc, h (depth + 1) _ (by omega),
    List.singleton_append, closes, getLastD_span, Option.map_map, Option.map_map]
  simp [Function.comp_def]

/-! ## Tokens inside -/

/-- A span takes for strings what the text takes for strings: each word is read over to its end, and so
is each string directly behind a string, where a span sees none begin. -/
structure Steady (ts : List Token) : Prop where
  words : ∀ t ∈ ts, t.isQuoted = false → t.isBrace = false → Passes ' ' t.text.toList
  strings : ∀ s ∈ ts, ∀ t ∈ ts, s.isQuoted = true → t.isQuoted = true → t.pos = s.stop →
    Passes '\'' t.text.toList

theorem Steady.tail {t : Token} (h : Steady (t :: ts)) : Steady ts :=
  ⟨fun t is => h.words t (.tail _ is), fun s is t is' => h.strings s (.tail _ is) t (.tail _ is')⟩

theorem isQuoted_ofChars : (ofChars (c :: cs) pos).isQuoted = true ↔ IsQuote c := by
  simp [isQuoted, IsQuote]

theorem isBrace_ofChars : (ofChars (c :: cs) pos).isBrace = true ↔ c = '{' := by
  simp [isBrace]

theorem Passes.behind {d : Char} (h : Passes d (c :: cs))
    (same : IsQuote c → isDelimiter prev = isDelimiter d) : Passes prev (c :: cs) := by
  intro depth rest deep
  have last : (c :: cs).getLastD prev = (c :: cs).getLastD d := by
    simp [List.getLastD_eq_getLast?, List.getLast?_cons]
  rw [List.cons_append, spanEnd_behind same, last]
  exact h depth rest deep

/-- A token is read over, if a string among them is taken for one. -/
theorem Lexeme.passes (h : Lexeme rest text)
    (words : (ofChars text pos).isQuoted = false → (ofChars text pos).isBrace = false →
      Passes ' ' text)
    (strings : (ofChars text pos).isQuoted = true → isDelimiter prev = true ∨ Passes prev text) :
    Passes prev text := by
  have plain {c : Char} {cs : List Char} (unquoted : ¬ IsQuote c) (opens : c ≠ '{')
      (passes : (ofChars (c :: cs) pos).isQuoted = false →
        (ofChars (c :: cs) pos).isBrace = false → Passes ' ' (c :: cs)) : Passes prev (c :: cs) := by
    refine (passes ?_ ?_).behind (absurd · unquoted)
    · exact eq_false_of_ne_true fun is => unquoted (isQuoted_ofChars.1 is)
    · exact eq_false_of_ne_true fun is => opens (isBrace_ofChars.1 is)
  cases h with
  | @single c is =>
    rcases isSingle_cases is with rfl | rfl | rfl | rfl | rfl <;>
      exact plain (by decide) (by decide) words
  | string is ended =>
    rcases strings (isQuoted_ofChars.2 is) with starts | passes
    · exact passes_string is ended starts
    · exact passes
  | span ended =>
    obtain ⟨cs, rfl, passes⟩ := passes_inner ended
    exact passes_span passes
  | word goes unquoted _ _ _ _ => exact plain unquoted (isDelimiter_eq_false.1 goes).2.2.1 words

theorem IsQuote.isDelimiter (h : IsQuote c) : isDelimiter c = false := by
  rcases h with rfl | rfl <;> decide

theorem IsQuote.of_isQuoted {t : Token} (h : t.isQuoted = true) :
    ∃ c cs, t.text.toList = c :: cs ∧ IsQuote c := by
  rw [isQuoted] at h
  split at h
  next c cs text => exact ⟨c, cs, text, by simpa [IsQuote] using h⟩
  next => cases h

/-- Directly behind a token, a string is taken for one or read over all the same. -/
theorem Lexeme.behind (h : Lexeme (cs ++ rest) text) (steady : Steady (ofChars text pos :: ts))
    (spaced : Spaced rest (pos + Text.Utf8.size text) cs ts) {t : Token} (is : t ∈ ts)
    (string : t.isQuoted = true) (here : t.pos = pos + Text.Utf8.size text) :
    isDelimiter (text.getLastD prev) = true ∨ Passes (text.getLastD prev) t.text.toList := by
  cases h with
  | @single c is => exact .inl (by simp [isDelimiter, is])
  | @string quote body quoted ended =>
    right
    have last : (quote :: body).getLastD prev = quote := by
      simp [List.getLastD_eq_getLast?, List.getLast?_cons, stringEnd_last ended]
    obtain ⟨c, ds, front, -⟩ := IsQuote.of_isQuoted string
    have passes := steady.strings _ (.head _) t (.tail _ is) (isQuoted_ofChars.2 quoted) string
      (by rw [here, stop_ofChars])
    rw [front] at passes ⊢
    rw [last]
    exact passes.behind fun _ => by rw [quoted.isDelimiter]; rfl
  | span ended =>
    left
    obtain ⟨cs, rfl, -⟩ := passes_inner ended
    rw [getLastD_span]
    rfl
  | word _ _ _ _ parted _ =>
    -- a quote goes on with a word
    obtain ⟨c, ds, front, quoted⟩ := IsQuote.of_isQuoted string
    obtain ⟨after, split⟩ := spaced.front is here
    rw [← split, front] at parted
    have ends := parted_cons.1 parted
    rw [quoted.isDelimiter] at ends
    cases ends

/-- Text without comments is read over as long as its strings are taken for strings. -/
theorem Spaced.passes (h : Spaced rest pos cs ts) (steady : Steady ts)
    (first : ∀ t ∈ ts, t.isQuoted = true → t.pos = pos →
      isDelimiter prev = true ∨ Passes prev t.text.toList) : Passes prev cs := by
  induction h generalizing prev with
  | nil => exact passes_nil
  | @blank pos c cs ts is _ ih =>
    have step : Passes prev [c] := passes_blank is
    exact step.append (ih steady fun _ _ _ _ => .inl (isDelimiter_of_isBlank is))
  | @token pos text cs ts is spaced ih =>
    have words (unquoted : (ofChars text pos).isQuoted = false)
        (unopened : (ofChars text pos).isBrace = false) : Passes ' ' text := by
      simpa using steady.words _ (.head _) unquoted unopened
    have strings (string : (ofChars text pos).isQuoted = true) :
        isDelimiter prev = true ∨ Passes prev text := by
      simpa using first _ (.head _) string rfl
    exact (is.passes words strings).append (ih steady.tail fun t within string here =>
      is.behind steady spaced within string here)

/-! ## Plain words -/

/-- Inside a span, no brace counts in the characters behind `prev` and no quote begins a string. -/
def flat (prev : Char) : List Char → Bool
  | [] => true
  | ['\\'] => true
  | '\\' :: c :: cs => flat c cs
  | c :: cs => c != '{' && c != '}' && !(decide (IsQuote c) && isDelimiter prev) && flat c cs

theorem flat_plain (other : c ≠ '\\') : flat prev (c :: cs) =
    (c != '{' && c != '}' && !(decide (IsQuote c) && isDelimiter prev) && flat c cs) := by
  rw [flat] <;> simp [other]

theorem passes_flat (h : flat prev cs = true) (closed : dangles cs = false) : Passes prev cs := by
  induction cs using escape_cases generalizing prev with
  | nil => exact passes_nil
  | dangling => cases closed
  | escape c cs ih =>
    have step : Passes prev ['\\', c] := fun depth rest _ => spanEnd_escape
    exact step.append (ih h closed)
  | plain c cs other ih =>
    rw [flat_plain other] at h
    simp only [Bool.and_eq_true, bne_iff_ne, Bool.not_eq_true'] at h
    obtain ⟨⟨⟨opens, closes⟩, plain⟩, h⟩ := h
    have step : Passes prev [c] := by
      refine fun depth rest _ => spanEnd_plain opens closes other fun is => ?_
      simpa [is] using plain
    exact step.append (ih h (by rwa [dangles_plain other] at closed))

theorem Lexeme.closed (h : Lexeme rest text) (some : rest ≠ []) : dangles text = false := by
  refine eq_false_of_ne_true fun dangling => ?_
  have last := getLast?_of_dangles dangling
  cases h with
  | single is =>
    rcases isSingle_cases is with rfl | rfl | rfl | rfl | rfl <;> cases dangling
  | string is ended =>
    rw [List.getLast?_cons, stringEnd_last ended] at last
    exact is.ne (by decide) (Option.some.inj last)
  | span ended =>
    obtain ⟨cs, rfl, -⟩ := passes_inner ended
    simp [List.getLast?_cons] at last
  | word _ _ _ _ _ closed => exact some (closed dangling)

theorem Spaced.closed (h : Spaced rest pos cs ts) (some : rest ≠ []) {t : Token} (is : t ∈ ts) :
    dangles t.text.toList = false := by
  induction h with
  | nil => cases is
  | blank _ _ ih => exact ih is
  | @token _ text cs _ lexeme _ ih =>
    cases is with
    | head =>
      rw [text_ofChars]
      exact lexeme.closed (List.append_ne_nil_of_right_ne_nil cs some)
    | tail _ is => exact ih is

/-- A text whose words and touching strings are plain, and which does not end in a backslash, is
steady. -/
theorem Spaced.steady (h : Spaced [] pos cs ts) (ends : cs.getLast? ≠ some '\\')
    (words : ∀ t ∈ ts, t.isQuoted = false → t.isBrace = false → flat ' ' t.text.toList = true)
    (strings : ∀ s ∈ ts, ∀ t ∈ ts, s.isQuoted = true → t.isQuoted = true → t.pos = s.stop →
      flat '\'' t.text.toList = true) : Steady ts := by
  have before : Spaced ['}'] pos cs ts := h.before (fun _ => ends) (parted_cons.2 (by decide))
  have closed (t : Token) (is : t ∈ ts) : dangles t.text.toList = false :=
    before.closed (List.cons_ne_nil _ _) is
  constructor
  · exact fun t is unquoted unopened => passes_flat (words t is unquoted unopened) (closed t is)
  · exact fun s is t is' string string' touch =>
      passes_flat (strings s is t is' string string' touch) (closed t is')

theorem inner_ofChars (cs : List Char) (pos : Nat) :
    (ofChars ('{' :: (cs ++ ['}'])) pos).inner = cs := by
  simp [inner]

end Catena.Token

namespace Catena.Compile

open Token (scan ofChars Uncommented Steady)

variable {c : Compiler} {ts : List Token}

/-- The tokens of a text are those that are read in it. -/
theorem tokens_scan {text : List Char} {offset : Nat} (read : scan offset text = .ok ts) :
    ∃ c', tokens (String.ofList text) offset c = .ok ts c' := by
  simp only [tokens, String.toList_ofList, read]
  exact ⟨_, rfl⟩

/-- Braces around a text without comments make one token of it, and what is compiled for that token
are the tokens of the text. -/
theorem span_tokens {X : List Char} (read : scan 0 X = .ok ts) (uncommented : Uncommented X)
    (steady : Steady ts) (pos : Nat) (c : Compiler) :
    let span := ofChars ('{' :: (X ++ ['}'])) pos
    scan pos ('{' :: (X ++ ['}'])) = .ok [span] ∧ span.inner = X ∧
      ∃ c', tokens (String.ofList span.inner) (span.pos + 1) c =
        .ok (ts.map (Token.shift (pos + 1))) c' := by
  have spaced := Token.spaced_of_scan read uncommented
  have passes : Token.Passes '{' X := spaced.passes steady fun _ _ _ _ => .inl (by decide)
  have lexeme : Token.Lexeme [] ('{' :: (X ++ ['}'])) := .span (Token.passes_iff.1 passes)
  have one : scan pos ('{' :: (X ++ ['}'])) = .ok [ofChars ('{' :: (X ++ ['}'])) pos] := by
    have read := Token.scan_lexeme lexeme pos
    rwa [List.append_nil, scan] at read
  have again : scan (pos + 1) X = .ok (ts.map (Token.shift (pos + 1))) := by
    have shifted := (spaced.shift (pos + 1)).scan
    rw [List.append_nil, scan, Nat.zero_add] at shifted
    rw [shifted]
    exact congrArg Except.ok (List.append_nil _)
  exact ⟨one, Token.inner_ofChars X pos, by
    rw [Token.inner_ofChars]
    exact tokens_scan again⟩

/-- A string behind a string, a brace in a string, a quote in a word and an escaped brace. -/
theorem span_tokens_mixed :
    let X := "'a''b' \x7bc '\x7d'\x7d e'f \\\x7b".toList
    let ts := [⟨"'a'", 0⟩, ⟨"'b'", 3⟩, ⟨"\x7bc '\x7d'\x7d", 7⟩, ⟨"e'f", 15⟩, ⟨"\\\x7b", 19⟩]
    scan 0 X = .ok ts ∧ scan 4 ('{' :: (X ++ ['}'])) = .ok [ofChars ('{' :: (X ++ ['}'])) 4] ∧
      ∃ c', tokens (String.ofList X) 5 default = .ok (ts.map (Token.shift 5)) c' := by
  intro X ts
  have reads : (scan 0 X).toOption = some ts := by decide +kernel
  have read : scan 0 X = .ok ts := by
    generalize scan 0 X = x at reads
    cases x with
    | error => cases reads
    | ok us => exact congrArg Except.ok (Option.some.inj reads)
  have steady : Steady ts := ⟨by decide +kernel, by decide +kernel⟩
  have uncommented : Uncommented X := by decide +kernel
  obtain ⟨one, inner, again⟩ := span_tokens read uncommented steady 4 default
  rw [inner] at again
  exact ⟨read, one, again⟩

-- A string behind a string with a brace in it, and a quote behind an escaped blank: not steady.
example : (scan 0 "\x7b'a''\x7d'\x7d".toList).toOption = none := by decide +kernel

example : (scan 0 "\x7b\\ 'a\x7d".toList).toOption = none := by decide +kernel

end Catena.Compile
