import Catena.Literal
import Catena.Proofs.Tokens.Spaced
import Catena.Store.Render
import Mathlib.Algebra.Group.Nat.Even
import Mathlib.Data.List.DropRight

/-!
# Strings are decoded as they are scanned

Twice a string literal is read a stride at a time, a stride being one character or a backslash with the
character it takes along: where its end is sought (`Token.stringEnd_eq`) and where it is decoded
(`Literal.pieces_written`). Both make the same strides in a token, which therefore has no backslash left
over at its end, and has its quote unescaped at its two ends only (`Token.Lexed.strides_agree`).
-/

namespace Catena

namespace Literal

open Token (IsQuote)

/-- One character by itself, or a backslash with the character that it takes along. -/
inductive Stride
  | plain (c : Char) (other : c ≠ '\\')
  | escape (c : Char)
deriving DecidableEq

namespace Stride

/-- The characters of the stride. -/
def text : Stride → List Char
  | plain c _ => [c]
  | escape c => ['\\', c]

/-- A character of a variable name. -/
def isVar : Stride → Bool
  | plain c _ => isVarChar c
  | escape _ => false

end Stride

/-- The characters of the strides. -/
def written (ss : List Stride) : List Char :=
  ss.flatMap Stride.text

/-- What strides are decoded to: an escape to the character it stands for, a mark and the name behind it
to a variable, and any other character to itself. -/
def decode (plain : Bool) : List Stride → List Piece
  | [] => []
  | .escape c :: ss => .char (unescape c) :: decode plain ss
  | .plain c _ :: ss =>
    if !plain && (c == '$' || c == '@') && ss.head?.any Stride.isVar then
      .var (String.ofList (written (ss.takeWhile Stride.isVar))) (c == '@') ::
        decode plain (ss.dropWhile Stride.isVar)
    else .char c :: decode plain ss
termination_by ss => ss.length
decreasing_by
  · exact Nat.lt_succ_self _
  · exact Nat.lt_succ_of_le (List.dropWhile_sublist _).length_le
  · exact Nat.lt_succ_self _

variable {plain : Bool} {c quote : Char} {cs : List Char} {ss : List Stride}

@[simp] theorem written_nil : written [] = [] := rfl

@[simp] theorem written_plain (other : c ≠ '\\') (ss : List Stride) :
    written (.plain c other :: ss) = c :: written ss :=
  rfl

@[simp] theorem written_escape (c : Char) (ss : List Stride) :
    written (.escape c :: ss) = '\\' :: c :: written ss :=
  rfl

/-! ## Decoding -/

theorem pieces_escape (plain : Bool) (e : Char) (cs : List Char) :
    pieces plain ('\\' :: e :: cs) = (pieces plain cs).map (.char (unescape e) :: ·) := by
  rw [pieces.eq_def]
  simp only [↓reduceIte]
  cases pieces plain cs <;> rfl

theorem pieces_var (plain : Bool) (other : c ≠ '\\') (starts : startsVar plain c cs = true) :
    pieces plain (c :: cs) = (pieces plain (cs.dropWhile isVarChar)).map
      (.var (String.ofList (cs.takeWhile isVarChar)) (c == '@') :: ·) := by
  rw [pieces.eq_def]
  simp only [if_neg other, if_pos starts]
  cases pieces plain (cs.dropWhile isVarChar) <;> rfl

theorem pieces_char (plain : Bool) (other : c ≠ '\\') (none : ¬ startsVar plain c cs = true) :
    pieces plain (c :: cs) = (pieces plain cs).map (.char c :: ·) := by
  rw [pieces.eq_def]
  simp only [if_neg other, if_neg none]
  cases pieces plain cs <;> rfl

theorem isVarChar_backslash : isVarChar '\\' = false := by decide

/-- A name is read up to the same place, in characters as in strides. -/
theorem name_written (ss : List Stride) :
    (written ss).takeWhile isVarChar = written (ss.takeWhile Stride.isVar) ∧
      (written ss).dropWhile isVarChar = written (ss.dropWhile Stride.isVar) := by
  induction ss with
  | nil => exact ⟨rfl, rfl⟩
  | cons s ss ih =>
    cases s with
    | plain c other =>
      rw [written_plain]
      by_cases var : isVarChar c = true
      · simp [Stride.isVar, var, ih]
      · simp [Stride.isVar, var]
    | escape c =>
      rw [written_escape]
      simp [Stride.isVar, isVarChar_backslash]

theorem head?_written (ss : List Stride) :
    (written ss).head?.any isVarChar = ss.head?.any Stride.isVar := by
  cases ss with
  | nil => rfl
  | cons s ss =>
    cases s with
    | plain c other => rfl
    | escape c => exact isVarChar_backslash

theorem startsVar_written (plain : Bool) (c : Char) (ss : List Stride) : startsVar plain c (written ss) =
    (!plain && (c == '$' || c == '@') && ss.head?.any Stride.isVar) := by
  rw [startsVar, head?_written]

/-- The characters of strides are decoded stride by stride. -/
theorem pieces_written (plain : Bool) (ss : List Stride) :
    pieces plain (written ss) = .ok (decode plain ss) := by
  fun_induction decode plain ss with
  | case1 => rw [written, List.flatMap_nil, pieces]
  | case2 c ss ih => rw [written_escape, pieces_escape, ih]; rfl
  | case3 c other ss starts ih =>
    obtain ⟨name, behind⟩ := name_written ss
    rw [written_plain, pieces_var plain other (by rwa [startsVar_written]), name, behind, ih]
    rfl
  | case4 c other ss none ih =>
    rw [written_plain, pieces_char plain other (by rwa [startsVar_written]), ih]
    rfl

/-! ## Writing -/

/-- None of the strides is the quote by itself. -/
def Unquoted (quote : Char) (ss : List Stride) : Prop :=
  ∀ s ∈ ss, s.text ≠ [quote]

/-- The stride as which a character is written between the quotes. -/
def Stride.ofChar (quote c : Char) : Stride :=
  if c = '\n' then .escape 'n'
  else if c = '\r' then .escape 'r'
  else if c = '\t' then .escape 't'
  else if same : c = '\\' then .escape '\\'
  else if c = quote then .escape c
  else .plain c same

theorem Stride.text_ofChar (quote c : Char) : (ofChar quote c).text = Store.escapeChar quote c := by
  unfold ofChar Store.escapeChar
  split_ifs <;> rfl

theorem written_ofChar (quote : Char) (cs : List Char) :
    written (cs.map (Stride.ofChar quote)) = cs.flatMap (Store.escapeChar quote) := by
  rw [written, List.flatMap_map]
  simp only [Stride.text_ofChar]

theorem unquoted_ofChar (quote : Char) (cs : List Char) :
    Unquoted quote (cs.map (Stride.ofChar quote)) := by
  intro s member
  obtain ⟨c, -, rfl⟩ := List.mem_map.1 member
  unfold Stride.ofChar
  split_ifs with newline ret tab backslash same
  all_goals simp [Stride.text, *]

/-- Where no variables stand, what is written is decoded to the text. -/
theorem decode_ofChar (is : IsQuote quote) (cs : List Char) :
    decode true (cs.map (Stride.ofChar quote)) = cs.map .char := by
  have letters : quote ≠ 'n' ∧ quote ≠ 'r' ∧ quote ≠ 't' := by rcases is with rfl | rfl <;> decide
  induction cs with
  | nil => rw [List.map_nil, decode]; rfl
  | cons c cs ih =>
    rw [List.map_cons, List.map_cons, ← ih]
    unfold Stride.ofChar
    split_ifs with newline ret tab backslash same
    · rw [decode, newline]; rfl
    · rw [decode, ret]; rfl
    · rw [decode, tab]; rfl
    · rw [decode, backslash]; rfl
    · rw [decode, same]
      simp [unescape, letters]
    · rw [decode]
      simp

end Literal

namespace Token

open Literal (Stride Unquoted written)

variable {quote c : Char} {cs before after front : List Char} {ss : List Stride}

/-! ## Scanning -/

/-- Seeks the end of a string literal behind its opening quote. Answers the strides made up to the closing
quote, and what follows it. -/
def strides (quote : Char) : List Char → Option (List Stride × List Char)
  | [] => none
  | c :: cs =>
    if same : c = '\\' then
      match cs with
      | [] => none
      | e :: cs => (strides quote cs).map fun r => (.escape e :: r.1, r.2)
    else if c = quote then some ([], cs)
    else (strides quote cs).map fun r => (.plain c same :: r.1, r.2)

theorem strides_escape : strides quote ('\\' :: c :: cs) =
    (strides quote cs).map fun r => (.escape c :: r.1, r.2) := by
  rw [strides.eq_def]
  rfl

theorem strides_plain (other : c ≠ '\\') : strides quote (c :: cs) = if c = quote then some ([], cs)
    else (strides quote cs).map fun r => (.plain c other :: r.1, r.2) := by
  rw [strides.eq_def]
  simp only [dif_neg other]

/-- The end of a string literal is sought stride by stride. -/
theorem stringEnd_eq (quote : Char) (cs : List Char) : stringEnd quote cs =
    (strides quote cs).map fun r => (written r.1 ++ [quote], r.2) := by
  induction cs using escape_cases with
  | nil => rfl
  | dangling => rfl
  | escape c cs ih =>
    rw [strides_escape, stringEnd, ih, Option.map_map, Option.map_map]
    rfl
  | plain c cs other ih =>
    rw [strides_plain other, stringEnd_plain other]
    split
    next here => rw [here]; rfl
    next =>
      rw [ih, Option.map_map, Option.map_map]
      rfl

theorem unquoted_of_strides {rest : List Char} (h : strides quote cs = some (ss, rest)) :
    Unquoted quote ss := by
  induction cs using escape_cases generalizing ss with
  | nil => cases h
  | dangling => cases h
  | escape c cs ih =>
    rw [strides_escape] at h
    obtain ⟨r, inner, equal⟩ := Option.map_eq_some_iff.1 h
    obtain ⟨rfl, rfl⟩ := Prod.mk.inj equal
    exact List.forall_mem_cons.2 ⟨by simp [Stride.text], ih inner⟩
  | plain c cs other ih =>
    rw [strides_plain other] at h
    split at h
    next =>
      obtain ⟨rfl, -⟩ := Prod.mk.inj (Option.some.inj h)
      exact fun _ is => nomatch is
    next apart =>
      obtain ⟨r, inner, equal⟩ := Option.map_eq_some_iff.1 h
      obtain ⟨rfl, rfl⟩ := Prod.mk.inj equal
      exact List.forall_mem_cons.2 ⟨by simpa [Stride.text] using apart, ih inner⟩

/-- Strides without the quote are made again when the quote comes behind them. -/
theorem strides_written (is : quote ≠ '\\') (h : Unquoted quote ss) (rest : List Char) :
    strides quote (written ss ++ quote :: rest) = some (ss, rest) := by
  induction ss with
  | nil => exact (strides_plain is).trans (if_pos rfl)
  | cons s ss ih =>
    obtain ⟨first, others⟩ := List.forall_mem_cons.1 h
    cases s with
    | plain c other =>
      have apart : c ≠ quote := by simpa [Stride.text] using first
      rw [Literal.written_plain, List.cons_append, strides_plain other, if_neg apart, ih others]
      rfl
    | escape c =>
      rw [Literal.written_escape, List.cons_append, List.cons_append, strides_escape, ih others]
      rfl

theorem toList_quoted (quote : Char) (cs : List Char) :
    (Store.quoted quote cs).toList = quote :: (cs.flatMap (Store.escapeChar quote) ++ [quote]) := by
  simp [Store.quoted]

/-- What is written between quotes ends with the closing quote. -/
theorem stringEnd_quoted (is : IsQuote quote) (cs : List Char) :
    stringEnd quote (cs.flatMap (Store.escapeChar quote) ++ [quote]) =
      some (cs.flatMap (Store.escapeChar quote) ++ [quote], []) := by
  rw [← Literal.written_ofChar, stringEnd_eq,
    strides_written (is.ne (by decide)) (Literal.unquoted_ofChar quote cs)]
  rfl

/-- What is written between quotes is one token. -/
theorem scan_string (is : IsQuote quote) (cs : List Char) :
    scan 0 (Store.quoted quote cs).toList = .ok [⟨Store.quoted quote cs, 0⟩] := by
  have lexeme : Lexeme [] (Store.quoted quote cs).toList := by
    rw [toList_quoted]
    exact .string is (stringEnd_quoted is cs)
  have read := scan_lexeme lexeme 0
  rwa [List.append_nil, scan, ofChars, String.ofList_toList] at read

/-! ## Unescaped characters -/

/-- What comes behind these characters is not escaped: the backslashes at their end make up pairs. -/
def Unescaped (before : List Char) : Prop :=
  Even (before.rtakeWhile (· == '\\')).length

theorem unescaped_nil : Unescaped [] :=
  Even.zero

theorem unescaped_concat (other : c ≠ '\\') (before : List Char) : Unescaped (before ++ [c]) := by
  rw [Unescaped, List.rtakeWhile_concat_neg _ _ _ (by simpa using other)]
  exact Even.zero

theorem unescaped_backslash : Unescaped (before ++ ['\\']) ↔ ¬ Unescaped before := by
  rw [Unescaped, List.rtakeWhile_concat_pos _ _ _ (by simp), List.length_append, List.length_singleton,
    Nat.even_add_one]
  rfl

/-- Where a stride begins, nothing is escaped. -/
theorem Unescaped.stride (h : Unescaped front) (s : Stride) : Unescaped (front ++ s.text) := by
  cases s with
  | plain c other => exact unescaped_concat other front
  | escape c =>
    have same : front ++ (Stride.escape c).text = front ++ ['\\'] ++ [c] := by simp [Stride.text]
    rw [same]
    by_cases backslash : c = '\\'
    · rw [backslash, unescaped_backslash, unescaped_backslash, not_not]
      exact h
    · exact unescaped_concat backslash _

/-- Behind strides without the quote, the quote is unescaped for the first time. -/
theorem unescaped_last (is : quote ≠ '\\') (h : Unquoted quote ss) (even : Unescaped front)
    (split : written ss ++ [quote] = before ++ quote :: after) :
    Unescaped (front ++ before) ↔ after = [] := by
  induction ss generalizing front before with
  | nil =>
    obtain ⟨rfl, rfl⟩ : before = [] ∧ after = [] := by
      simpa [List.singleton_eq_append_iff] using split
    simpa using even
  | cons s ss ih =>
    obtain ⟨first, others⟩ := List.forall_mem_cons.1 h
    have next := even.stride s
    cases s with
    | plain c other =>
      obtain - | ⟨d, before⟩ := before
      · exact absurd (congrArg (· :: []) (List.cons.inj split).1) first
      · rw [Literal.written_plain, List.cons_append, List.cons_append, List.cons.injEq] at split
        obtain ⟨rfl, later⟩ := split
        simpa [Stride.text] using ih others next later
    | escape c =>
      obtain - | ⟨d, before⟩ := before
      · exact absurd (List.cons.inj split).1.symm is
      rw [Literal.written_escape, List.cons_append, List.cons_append, List.cons_append,
        List.cons.injEq] at split
      obtain ⟨rfl, split⟩ := split
      obtain - | ⟨e, before⟩ := before
      · -- the quote is what the backslash takes along
        have some : after ≠ [] := by
          rw [← (List.cons.inj split).2]
          simp
        simp only [some, iff_false, unescaped_backslash, not_not]
        exact even
      · rw [List.cons_append, List.cons.injEq] at split
        obtain ⟨rfl, later⟩ := split
        simpa [Stride.text] using ih others next later

/-! ## Tokens of a source -/

/-- The tokens that a source is read as, and those that the text between the braces of such a token is
read as. -/
inductive Lexed (source : String) : Token → Prop
  | outer {t : Token} {ts : List Token} : scan 0 source.toList = .ok ts → t ∈ ts → Lexed source t
  | inside {t u : Token} {ts : List Token} : Lexed source t → t.isBrace = true →
      scan (t.pos + 1) t.inner = .ok ts → u ∈ ts → Lexed source u

theorem Reads.lexeme {pos : Nat} {ts : List Token} {t : Token} (h : Reads pos cs ts) (is : t ∈ ts) :
    ∃ rest, Lexeme rest t.text.toList := by
  induction h with
  | nil => cases is
  | blank _ _ ih => exact ih is
  | line _ _ ih => exact ih is
  | block _ _ ih => exact ih is
  | @token pos text cs ts lexeme _ ih =>
    cases is with
    | head => exact ⟨cs, by rwa [text_ofChars]⟩
    | tail _ is => exact ih is

theorem Lexed.lexeme {source : String} {t : Token} (h : t.Lexed source) :
    ∃ rest, Lexeme rest t.text.toList := by
  cases h with
  | outer read is => exact (scan_iff.1 read).lexeme is
  | inside _ _ read is => exact (scan_iff.1 read).lexeme is

/-- A quoted token is a string with its quotes. -/
theorem Lexeme.quoted {rest : List Char} {t : Token} (h : Lexeme rest t.text.toList)
    (quoted : t.isQuoted = true) : ∃ quote body, t.text.toList = quote :: body ∧ IsQuote quote ∧
      stringEnd quote body = some (body, []) := by
  have front : ∀ c ∈ t.text.toList.head?, IsQuote c := by
    rw [isQuoted] at quoted
    split at quoted
    next c cs text => simpa [text, IsQuote] using quoted
    next => cases quoted
  generalize t.text.toList = text at h front
  cases h with
  | @single c is =>
    rcases isSingle_cases is with rfl | rfl | rfl | rfl | rfl <;> exact absurd (front _ rfl) (by decide)
  | @string quote body is ended => exact ⟨quote, body, rfl, is, ended⟩
  | span => exact absurd (front _ rfl) (by decide)
  | word _ unquoted => exact absurd (front _ rfl) unquoted

/-- However deep in braces it stands, a quoted token is its quote, the strides that were made in search of
its end, and the quote again, which is unescaped at these two places only. The scanner finds the end there,
and the decoder makes the same strides, and so fails at none of them. -/
theorem Lexed.strides_agree {source : String} {t : Token} (h : t.Lexed source) (quoted : t.isQuoted = true) :
    ∃ quote ss, IsQuote quote ∧ t.text.toList = quote :: (written ss ++ [quote]) ∧
      (∀ before after, t.text.toList = before ++ quote :: after →
        (Unescaped before ↔ before = [] ∨ after = [])) ∧
      stringEnd quote t.text.toList.tail = some (t.text.toList.tail, []) ∧
      strides quote t.text.toList.tail = some (ss, []) ∧
      Literal.pieces (quote == '"') t.inner = .ok (Literal.decode (quote == '"') ss) ∧
      ∃ op, Literal.string t.text = .ok op := by
  obtain ⟨rest, lexeme⟩ := h.lexeme
  obtain ⟨quote, body, text, is, ended⟩ := lexeme.quoted quoted
  have other : quote ≠ '\\' := is.ne (by decide)
  have found := ended
  rw [stringEnd_eq] at found
  obtain ⟨⟨ss, left⟩, made, equal⟩ := Option.map_eq_some_iff.1 found
  obtain ⟨rfl, rfl⟩ := Prod.mk.inj equal
  have unquoted := unquoted_of_strides made
  have inner : t.inner = written ss := by rw [Token.inner, text, List.tail_cons, List.dropLast_concat]
  have decoded := Literal.pieces_written (quote == '"') ss
  refine ⟨quote, ss, is, text, fun before after split => ?_, by rw [text]; exact ended,
    by rw [text]; exact made, by rw [inner]; exact decoded, ?_⟩
  · rw [text] at split
    obtain - | ⟨c, before⟩ := before
    · simpa using unescaped_nil
    · obtain ⟨rfl, later⟩ := List.cons.inj split
      have opened : Unescaped [quote] := unescaped_concat other []
      simpa using unescaped_last other unquoted opened later
  · have wide : (t.text.toList.head? == some '"') = (quote == '"') := by simp [text]
    rw [← inner, Token.inner] at decoded
    simp only [Literal.string, wide, decoded, Bind.bind, Except.bind]
    split
    · exact ⟨_, rfl⟩
    · split <;> exact ⟨_, rfl⟩

theorem scan_of_toOption {pos : Nat} {ts : List Token} (h : (scan pos cs).toOption = some ts) :
    scan pos cs = .ok ts := by
  cases read : scan pos cs with
  | error => rw [read] at h; cases h
  | ok us =>
    rw [read] at h
    exact congrArg Except.ok (Option.some.inj h)

/-- Two levels deep, an escaped quote and an escaped backslash before the closing quote. -/
theorem Lexed.strides_agree_nested :
    let t : Token := ⟨"'a\\'b\\\\'", 3⟩
    let ss : List Stride := [.plain 'a' (by decide), .escape '\'', .plain 'b' (by decide), .escape '\\']
    t.Lexed "\x7b \x7b'a\\'b\\\\'\x7d\x7d" ∧ t.isQuoted = true ∧
      strides '\'' t.text.toList.tail = some (ss, []) ∧
      Literal.pieces false t.inner = .ok (Literal.decode false ss) ∧
      ∃ op, Literal.string t.text = .ok op := by
  intro t ss
  have outer : Token.Lexed "\x7b \x7b'a\\'b\\\\'\x7d\x7d" ⟨"\x7b \x7b'a\\'b\\\\'\x7d\x7d", 0⟩ :=
    .outer (scan_of_toOption (by decide +kernel)) (List.mem_singleton_self _)
  have inner : Token.Lexed "\x7b \x7b'a\\'b\\\\'\x7d\x7d" ⟨"\x7b'a\\'b\\\\'\x7d", 2⟩ :=
    .inside outer (by decide) (scan_of_toOption (by decide +kernel)) (List.mem_singleton_self _)
  have lexed : t.Lexed "\x7b \x7b'a\\'b\\\\'\x7d\x7d" :=
    .inside inner (by decide) (scan_of_toOption (by decide +kernel)) (List.mem_singleton_self _)
  have quoted : t.isQuoted = true := by decide
  obtain ⟨quote, ss', is, text, -, -, made, decoded, op, done⟩ := lexed.strides_agree quoted
  have opened : t.text.toList.head? = some '\'' := by decide
  obtain rfl : quote = '\'' := by simpa [text] using opened
  have same : strides '\'' t.text.toList.tail = some (ss, []) := by decide +kernel
  obtain rfl : ss = ss' := (Prod.mk.inj (Option.some.inj (same.symm.trans made))).1
  exact ⟨lexed, quoted, same, decoded, op, done⟩

end Token

end Catena
