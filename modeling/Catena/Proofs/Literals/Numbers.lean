import Catena.Proofs.Readback
import Catena.Proofs.Text.Decimal

/-!
# Numbers and wide strings are read back

The literal form of an integer, of a ratio in lowest terms or of a wide string without lone surrogates is
one token, which a new engine compiles to a push of the same value (`Engine.rereads`). A number is a word of
digits, signs and a slash, and a wide string has no variables in it, so none of them is taken for anything
else.
-/

namespace Catena

/-! ## Units of wide strings -/

namespace Text.Utf16

variable {u v : UInt16} {units : List UInt16}

/-- Each surrogate stands in a pair with its partner. -/
inductive WellFormed : List UInt16 → Prop
  | nil : WellFormed []
  | unit {u : UInt16} {units : List UInt16} : isHigh u = false → isLow u = false → WellFormed units →
      WellFormed (u :: units)
  | pair {high low : UInt16} {units : List UInt16} : isHigh high = true → isLow low = true →
      WellFormed units → WellFormed (high :: low :: units)

theorem isHigh_iff : isHigh u = true ↔ 0xD800 ≤ u.toNat ∧ u.toNat ≤ 0xDBFF := by
  simp [isHigh, UInt16.le_iff_toNat_le]

theorem isLow_iff : isLow u = true ↔ 0xDC00 ≤ u.toNat ∧ u.toNat ≤ 0xDFFF := by
  simp [isLow, UInt16.le_iff_toNat_le]

theorem decodeLossy_unit (high : isHigh u = false) (low : isLow u = false) (units : List UInt16) :
    decodeLossy (u :: units) = Char.ofNat u.toNat :: decodeLossy units := by
  cases units <;> simp [decodeLossy, high, low]

theorem decodeLossy_pair (high : isHigh u = true) (low : isLow v = true) (units : List UInt16) :
    decodeLossy (u :: v :: units) = joinPair u v :: decodeLossy units := by
  simp [decodeLossy, high, low]

theorem toNat_ofNat {n : Nat} (valid : n.isValidChar) : (Char.ofNat n).toNat = n := by
  rw [Char.ofNat, dif_pos valid]
  rfl

theorem encodeChar_unit (high : isHigh u = false) (low : isLow u = false) :
    encodeChar (Char.ofNat u.toNat) = [u] := by
  have small := u.toNat_lt
  have outside : ¬ (0xD800 ≤ u.toNat ∧ u.toNat ≤ 0xDFFF) := by
    rintro ⟨above, below⟩
    by_cases first : u.toNat ≤ 0xDBFF
    · rw [isHigh_iff.2 ⟨above, first⟩] at high
      cases high
    · rw [isLow_iff.2 ⟨by omega, below⟩] at low
      cases low
  have valid : u.toNat.isValidChar := by
    unfold Nat.isValidChar
    omega
  rw [encodeChar, toNat_ofNat valid]
  simp only [small, if_true, UInt16.ofNat_toNat]

theorem encodeChar_pair (high : isHigh u = true) (low : isLow v = true) :
    encodeChar (joinPair u v) = [u, v] := by
  rw [isHigh_iff] at high
  rw [isLow_iff] at low
  have valid : (0x10000 + (u.toNat - 0xD800) * 0x400 + (v.toNat - 0xDC00)).isValidChar := by
    unfold Nat.isValidChar
    omega
  have first : 0xD800 + (0x10000 + (u.toNat - 0xD800) * 0x400 + (v.toNat - 0xDC00) - 0x10000) / 0x400 =
      u.toNat := by omega
  have second : 0xDC00 + (0x10000 + (u.toNat - 0xD800) * 0x400 + (v.toNat - 0xDC00) - 0x10000) % 0x400 =
      v.toNat := by omega
  rw [encodeChar, joinPair, toNat_ofNat valid]
  rw [if_neg (by omega), first, second, UInt16.ofNat_toNat, UInt16.ofNat_toNat]

/-- Units without lone surrogates are those of the text that they stand for. -/
theorem encode_decodeLossy (h : WellFormed units) : encode (decodeLossy units) = units := by
  induction h with
  | nil => rfl
  | @unit u units high low _ ih =>
    rw [decodeLossy_unit high low, encode, List.flatMap_cons, encodeChar_unit high low, ← encode, ih]
    rfl
  | @pair u v units high low _ ih =>
    rw [decodeLossy_pair high low, encode, List.flatMap_cons, encodeChar_pair high low, ← encode, ih]
    rfl

end Text.Utf16

/-! ## Literals -/

namespace Literal

open Text (signed)

/-- What is written between double quotes is a push of its units. -/
theorem string_wide (cs : List Char) :
    string (Store.quoted '"' cs) = .ok (.push (.wstr (Text.Utf16.encode cs))) := by
  have chars := Token.toList_quoted '"' cs
  have wide : ((Store.quoted '"' cs).toList.head? == some '"') = true := by simp [chars]
  have read : pieces true (Store.quoted '"' cs).toList.tail.dropLast = .ok (cs.map .char) := by
    rw [chars, List.tail_cons, List.dropLast_concat, ← written_ofChar, pieces_written,
      decode_ofChar (.inr rfl)]
  simp only [string, wide, read, Bind.bind, Except.bind, if_true, plainText_chars]
  rfl

theorem number_int (n : Int64) : number (toString n.toInt) = .ok (.int n) := by
  have chars := Text.toList_toString n.toInt
  have whole : (signed n.toInt).contains '/' = false := by
    refine eq_false_of_ne_true fun inside => ?_
    rcases Text.mem_signed (List.contains_iff_mem.1 inside) with wrong | wrong <;> cases wrong
  simp only [number, chars, whole, Text.parseInt64?_decimal]
  rfl

theorem toList_ratio (r : Ratio) : r.text.toList = signed r.num.toInt ++ '/' :: signed r.den.toInt := by
  rw [← Text.toList_toString, ← Text.toList_toString]
  simp [Ratio.text, show toString "/" = "/" from rfl]

theorem slash_signed (n : Int) : ∀ c ∈ signed n, decide (c ≠ '/') = true := by
  intro c is
  rw [decide_eq_true_eq]
  rintro rfl
  rcases Text.mem_signed is with wrong | wrong <;> cases wrong

/-- A ratio in lowest terms is made again of its parts. -/
theorem number_ratio {r : Ratio} (lowest : r.Lowest) : number r.text = .ok (.ratio r) := by
  have parts : (signed r.num.toInt ++ '/' :: signed r.den.toInt).contains '/' = true := by simp
  have num : (signed r.num.toInt ++ '/' :: signed r.den.toInt).takeWhile (· ≠ '/') = signed r.num.toInt := by
    rw [List.takeWhile_append_of_pos (slash_signed _), List.takeWhile_cons_of_neg (by simp), List.append_nil]
  have den : (signed r.num.toInt ++ '/' :: signed r.den.toInt).dropWhile (· ≠ '/') =
      '/' :: signed r.den.toInt := by
    rw [List.dropWhile_append_of_pos (slash_signed _), List.dropWhile_cons_of_neg (by simp)]
  have made : Ratio.new? r.num r.den = some r := by
    refine Ratio.new?_eq_some_iff.2 ⟨fun zero => ?_, lowest, rfl⟩
    have pos := lowest.pos
    rw [zero] at pos
    exact absurd pos (by decide)
  simp only [number, toList_ratio, parts, num, den, if_true, List.drop_succ_cons, List.drop_zero,
    Text.parseInt64?_decimal, made, Bind.bind, Except.bind]

/-- A word that is a number by its shape. -/
structure Numeric (cs : List Char) : Prop where
  front : ∃ d ds, Text.isDigit d = true ∧ (cs = d :: ds ∨ cs = '-' :: d :: ds)
  chars : ∀ c ∈ cs, c = '-' ∨ c = '/' ∨ Text.isDigit c = true

theorem numeric_signed (n : Int) : Numeric (signed n) where
  front := Text.signed_front n
  chars _ is := (Text.mem_signed is).imp_right .inr

theorem numeric_ratio (n k : Int) : Numeric (signed n ++ '/' :: signed k) where
  front := by
    obtain ⟨d, ds, digit, front⟩ := Text.signed_front n
    refine ⟨d, ds ++ '/' :: signed k, digit, front.imp ?_ ?_⟩ <;>
      exact fun h => by rw [h]; rfl
  chars c is := by
    rcases List.mem_append.1 is with num | rest
    · exact (numeric_signed n).chars c num
    · rcases List.mem_cons.1 rest with slash | den
      · exact .inr (.inl slash)
      · exact (numeric_signed k).chars c den

/-- No character of a number ends a word or says that it is something else. -/
theorem Numeric.plain {cs : List Char} (h : Numeric cs) {c : Char} (is : c ∈ cs) :
    Token.isDelimiter c = false ∧ ¬ Token.IsQuote c ∧ c ∉ ['@', '!', '&', '#', '\\'] := by
  rcases h.chars c is with rfl | rfl | digit
  · exact ⟨by decide, by unfold Token.IsQuote; decide, by decide⟩
  · exact ⟨by decide, by unfold Token.IsQuote; decide, by decide⟩
  · have all : ['0', '1', '2', '3', '4', '5', '6', '7', '8', '9'].all (fun d =>
        Token.isDelimiter d = false ∧ ¬ (d = '\'' ∨ d = '"') ∧ d ∉ ['@', '!', '&', '#', '\\']) = true := by
      decide
    exact of_decide_eq_true (List.all_eq_true.1 all c (Text.isDigit_cases digit))

theorem Numeric.starts {word : String} (h : Numeric word.toList) : startsNumber word = true := by
  obtain ⟨d, ds, digit, front | front⟩ := h.front
  · have other : d ≠ '-' := by
      rintro rfl
      cases digit
    simp [startsNumber, front, other, digit]
  · simp [startsNumber, front, digit]

end Literal

/-! ## Tokens -/

namespace Token

open Literal (Numeric)

variable {cs : List Char}

theorem word_whole (plain : ∀ c ∈ cs, isDelimiter c = false ∧ c ≠ '\\') :
    word cs = (cs, []) ∧ dangles cs = false := by
  induction cs with
  | nil => exact ⟨rfl, rfl⟩
  | cons c cs ih =>
    obtain ⟨⟨goes, other⟩, others⟩ := List.forall_mem_cons.1 plain
    obtain ⟨whole, closed⟩ := ih others
    rw [word_plain other, if_neg (by simp [goes]), whole, dangles_plain other]
    exact ⟨rfl, closed⟩

/-- A number is one token. -/
theorem scan_numeric {word : String} (h : Numeric word.toList) : scan 0 word.toList = .ok [⟨word, 0⟩] := by
  obtain ⟨whole, closed⟩ := word_whole fun c is =>
    (⟨(h.plain is).1, fun backslash => (h.plain is).2.2 (by simp [backslash])⟩ : _ ∧ _)
  obtain ⟨c, cs, chars, slash⟩ : ∃ c cs, word.toList = c :: cs ∧ c ≠ '/' := by
    obtain ⟨d, ds, digit, front | front⟩ := h.front
    · exact ⟨d, ds, front, by rintro rfl; cases digit⟩
    · exact ⟨'-', d :: ds, front, by decide⟩
  have lexeme : Lexeme [] word.toList := by
    have plain := h.plain (chars ▸ List.mem_cons_self)
    rw [chars] at whole ⊢
    exact .word plain.1 plain.2.1 (fun is => absurd is slash) whole parted_nil fun _ => rfl
  have read := scan_lexeme lexeme 0
  rwa [List.append_nil, scan, ofChars, String.ofList_toList] at read

end Token

namespace Compile

open Literal (Numeric)

/-- A number stands for its literal. -/
theorem wordOp_numeric {word : String} (h : Numeric word.toList) (pos : Nat) :
    wordOp ⟨word, pos⟩ = some ((Literal.number word).map .push) := by
  have apart (mark : Char) (is : mark ∈ ['@', '!', '&', '#', '\\']) : mark ∉ word.toList :=
    fun inside => (h.plain inside).2.2 is
  have front (mark : Char) (is : mark ∈ ['@', '!', '&', '#', '\\']) : afterMark? mark word = none :=
    afterMark?_eq_none fun first => apart mark is (List.mem_of_mem_head? first)
  have back : beforeMark? '!' word = none :=
    beforeMark?_eq_none fun last => apart '!' (by decide) (List.mem_of_getLast? last)
  have unquoted : Token.isQuoted ⟨word, pos⟩ = false := by
    rw [Token.isQuoted]
    split
    next c cs chars => simpa [Token.IsQuote] using (h.plain (chars ▸ List.mem_cons_self)).2.1
    next => rfl
  have plain : word.startsWith "\\" = false := by
    refine eq_false_of_ne_true fun starts => apart '\\' (by decide) ?_
    exact (String.startsWith_string_iff.1 starts).subset (List.mem_singleton_self _)
  simp only [wordOp, front '@' (by decide), back, front '&' (by decide), unquoted, plain,
    front '#' (by decide), h.starts]
  rfl

end Compile

/-! ## New engines -/

namespace Engine

variable {config : Config} {log : Log.Logger} {host : Host}

theorem compiles_numeric {word : String} {v : Value} (h : Literal.Numeric word.toList) (tame : v.Tame)
    (read : Literal.number word = .ok v) (rounds : 0 < config.compiler.maxPasses) :
    (new config log host).CompilesTo word [.push v] := by
  have op : Compile.wordOp ⟨word, 0⟩ = some (.ok (.push v)) := by
    rw [Compile.wordOp_numeric h, read]
    rfl
  exact compiles_literal (Token.scan_numeric h) (fun c is => (h.plain (List.mem_of_mem_head? is)).1) op
    (.push v tame) rounds

/-- In a new engine the literal form of an integer, of a ratio in lowest terms or of a wide string without
lone surrogates is compiled to one operation, which pushes the same value again. -/
theorem rereads (config : Config) (log : Log.Logger) (host : Host) (s : Store)
    (rounds : 0 < config.compiler.maxPasses) :
    (∀ n : Int64, (new config log host).CompilesTo (s.dump (.int n)) [.push (.int n)]) ∧
    (∀ r : Ratio, r.Lowest → (new config log host).CompilesTo (s.dump (.ratio r)) [.push (.ratio r)]) ∧
    (∀ units, Text.Utf16.WellFormed units →
      (new config log host).CompilesTo (s.dump (.wstr units)) [.push (.wstr units)]) := by
  refine ⟨fun n => ?_, fun r lowest => ?_, fun units formed => ?_⟩
  · have numeric : Literal.Numeric (s.dump (.int n)).toList :=
      Text.toList_toString n.toInt ▸ Literal.numeric_signed n.toInt
    exact compiles_numeric numeric (fun _ is => by cases is) (Literal.number_int n) rounds
  · have numeric : Literal.Numeric (s.dump (.ratio r)).toList :=
      Literal.toList_ratio r ▸ Literal.numeric_ratio r.num.toInt r.den.toInt
    exact compiles_numeric numeric (fun _ is => by cases is) (Literal.number_ratio lowest) rounds
  · have literal := Literal.string_wide (Text.Utf16.decodeLossy units)
    rw [Text.Utf16.encode_decodeLossy formed] at literal
    have begins : ∀ c ∈ (s.dump (.wstr units)).toList.head?, Token.isDelimiter c = false := by
      intro c is
      have quote : (s.dump (.wstr units)).toList.head? = some '"' := by
        rw [show s.dump (.wstr units) = Store.quoted '"' _ from rfl, Token.toList_quoted]
        rfl
      obtain rfl := Option.some.inj (quote.symm.trans is)
      decide
    exact compiles_literal (Token.scan_string (.inr rfl) _) begins
      ((Compile.wordOp_string (.inr rfl) _ 0).trans (congrArg some literal))
      (.push _ fun _ is => by cases is) rounds

/-- The smallest integer, a ratio of it, and a quote, a backslash and a pair of surrogates. -/
theorem rereads_extremes :
    let smallest : Int64 := -0x8000000000000000
    let ratio : Ratio := ⟨smallest, 0x7FFFFFFFFFFFFFFF⟩
    let units : List UInt16 := [0x22, 0x5C, 0xD83D, 0xDE00]
    0 < ({} : Config).compiler.maxPasses ∧ ratio.Lowest ∧ Text.Utf16.WellFormed units ∧
    (new {} .silent {}).CompilesTo "-9223372036854775808" [.push (.int smallest)] ∧
    (new {} .silent {}).CompilesTo "-9223372036854775808/9223372036854775807" [.push (.ratio ratio)] ∧
    (new {} .silent {}).CompilesTo "\"\\\"\\\\😀\"" [.push (.wstr units)] := by
  intro smallest ratio units
  have lowest : ratio.Lowest := by decide +kernel
  have formed : Text.Utf16.WellFormed units :=
    .unit (by decide) (by decide) (.unit (by decide) (by decide) (.pair (by decide) (by decide) .nil))
  obtain ⟨ints, ratios, wides⟩ := rereads {} .silent {} {} (by decide)
  have int := ints smallest
  have ratio' := ratios ratio lowest
  have wide := wides units formed
  rw [show ({} : Store).dump (.int smallest) = "-9223372036854775808" by decide +kernel] at int
  rw [show ({} : Store).dump (.ratio ratio) = "-9223372036854775808/9223372036854775807" by
    decide +kernel] at ratio'
  rw [show ({} : Store).dump (.wstr units) = "\"\\\"\\\\😀\"" by decide +kernel] at wide
  exact ⟨by decide, lowest, formed, int, ratio', wide⟩

end Engine

end Catena
