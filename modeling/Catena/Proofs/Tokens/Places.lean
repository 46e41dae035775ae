import Catena.Proofs.Tokens.Comments
import Catena.Compiler.Forms

/-!
# Places of tokens

A text that is read is its tokens with gaps between them, which hold blanks and comments only, and each
token begins where it says (`spread_of_scan`, `Spread.stands`). The tokens between braces are read from the
inside of the span with the place behind the brace as offset, so they too stand at their places in the
source, however deep they are (`Token.Of.stands`). What keeps a text from being read is a character that
stands where the fault is placed (`strays_of_scan`).
-/

namespace Catena

/-- What is made of an answer fails for want of that only. -/
theorem map_fault {α β : Type} {x : Except Fault α} {k : α → β} {f : Fault}
    (h : (do return k (← x) : Except Fault β) = .error f) : x = .error f := by
  cases x with
  | error => exact congrArg Except.error (Except.error.inj h)
  | ok => cases h

namespace Token

variable {C cs gap rest : List Char} {pos : Nat} {ts : List Token} {t : Token}

theorem size_eq (cs : List Char) : Text.Utf8.size cs = (String.ofList cs).utf8ByteSize := by
  induction cs with
  | nil => rfl
  | cons c cs ih =>
    rw [size_cons, ih, String.ofList_cons, String.utf8ByteSize_append, String.utf8ByteSize_singleton]

/-- The text of the token is found in the source where the token begins, the first byte of the source
counting as `offset`. -/
def Stands (source : String) (offset : Nat) (t : Token) : Prop :=
  ∃ before after, source = before ++ t.text ++ after ∧ t.pos = offset + before.utf8ByteSize

theorem stands_iff {offset : Nat} : t.Stands (String.ofList cs) offset ↔
    ∃ before after, cs = before ++ t.text.toList ++ after ∧ t.pos = offset + Text.Utf8.size before := by
  constructor
  · rintro ⟨before, after, whole, place⟩
    refine ⟨before.toList, after.toList, ?_, ?_⟩
    · rw [← String.toList_append, ← String.toList_append, ← whole, String.toList_ofList]
    · rw [size_eq, String.ofList_toList, place]
  · rintro ⟨before, after, rfl, place⟩
    refine ⟨String.ofList before, String.ofList after, ?_, ?_⟩
    · rw [String.ofList_append, String.ofList_append, String.ofList_toList]
    · rw [← size_eq, place]

/-! ## Gaps -/

/-- Blanks and comments, with `rest` behind them. A comment goes on to the end of its line, to the sign
that ends it, or to the end of the text. -/
inductive Gap (rest : List Char) : List Char → Prop
  | nil : Gap rest []
  | blank {c : Char} {cs : List Char} : Text.isBlank c = true → Gap rest cs → Gap rest (c :: cs)
  | line {C cs : List Char} : '\n' ∉ C → (∀ c ∈ (cs ++ rest).head?, c = '\n') → Gap rest cs →
      Gap rest ('/' :: '/' :: (C ++ cs))
  | block {C cs : List Char} : Closed C → Gap rest cs → Gap rest (comment C ++ cs)
  | unended {C : List Char} : Closed C → rest = [] → Gap rest ('/' :: '*' :: C)

/-- The characters from byte `pos` on are these tokens, each at its place, with gaps between them. -/
inductive Spread : Nat → List Char → List Token → Prop
  | nil {pos : Nat} {gap : List Char} : Gap [] gap → Spread pos gap []
  | cons {pos : Nat} {gap cs : List Char} {t : Token} {ts : List Token} : Gap (t.text.toList ++ cs) gap →
      t.text ≠ "" → t.pos = pos + Text.Utf8.size gap → Spread t.stop cs ts →
      Spread pos (gap ++ t.text.toList ++ cs) (t :: ts)

namespace Spread

/-- A blank or a comment before the text belongs to its first gap. -/
theorem behind (front : List Char)
    (goes : ∀ {rest gap}, gap ++ rest = cs → Gap rest gap → Gap rest (front ++ gap))
    (h : Spread (pos + Text.Utf8.size front) cs ts) : Spread pos (front ++ cs) ts := by
  cases h with
  | nil is => exact .nil (goes (List.append_nil _) is)
  | @cons _ gap cs t ts is some place later =>
    have place : t.pos = pos + Text.Utf8.size (front ++ gap) := by
      rw [place, size_append, Nat.add_assoc]
    rw [List.append_assoc, ← List.append_assoc, ← List.append_assoc]
    exact .cons (goes (by rw [List.append_assoc]) is) some place later

theorem stands (h : Spread pos cs ts) (is : t ∈ ts) : t.Stands (String.ofList cs) pos := by
  rw [stands_iff]
  induction h with
  | nil => cases is
  | @cons pos gap cs u ts _ _ place later ih =>
    cases is with
    | head => exact ⟨gap, cs, rfl, place⟩
    | tail _ is =>
      obtain ⟨before, after, rfl, found⟩ := ih is
      refine ⟨gap ++ u.text.toList ++ before, after, by simp, ?_⟩
      rw [found, stop, place, size_append, size_append]
      omega

theorem le (h : Spread pos cs ts) (is : t ∈ ts) : pos ≤ t.pos := by
  obtain ⟨before, after, -, place⟩ := h.stands is
  omega

/-- The tokens are in order and do not overlap. -/
theorem ordered (h : Spread pos cs ts) : ts.Pairwise fun t u => t.pos < u.pos ∧ t.stop ≤ u.pos := by
  induction h with
  | nil => exact .nil
  | @cons pos gap cs t ts _ some _ later ih =>
    refine .cons (fun u is => ?_) ih
    have long : 0 < Text.Utf8.size t.text.toList := by
      rw [size_eq, String.ofList_toList, Nat.pos_iff_ne_zero]
      exact mt String.utf8ByteSize_eq_zero_iff.1 some
    have behind : t.stop ≤ u.pos := later.le is
    have inside : t.pos < t.stop := Nat.lt_add_of_pos_right long
    exact ⟨Nat.lt_of_lt_of_le inside behind, behind⟩

end Spread

/-- A line is what stands before its end. -/
theorem afterLine_split (cs : List Char) : ∃ C, cs = C ++ afterLine cs ∧ '\n' ∉ C ∧
    ∀ c ∈ (afterLine cs).head?, c = '\n' := by
  induction cs with
  | nil => exact ⟨[], rfl, by simp, by simp [afterLine]⟩
  | cons c cs ih =>
    by_cases ends : c = '\n'
    · exact ⟨[], by simp [afterLine, ends], by simp, by simp [afterLine, ends]⟩
    · obtain ⟨C, whole, inside, last⟩ := ih
      have goes : afterLine (c :: cs) = afterLine cs := by simp [afterLine, ends]
      rw [goes]
      exact ⟨c :: C, by rw [List.cons_append, ← whole], by simpa [Ne.symm ends] using inside, last⟩

theorem Closed.cons {c : Char} (h : Closed C) (apart : c = '*' → ∀ d ∈ C.head?, d ≠ '/') :
    Closed (c :: C) := by
  intro inside
  rcases List.infix_cons_iff.1 inside with front | later
  · obtain ⟨star, next⟩ := List.cons_prefix_cons.1 front
    cases C with
    | nil => cases List.prefix_nil.1 next
    | cons d C => exact apart star.symm d rfl (List.cons_prefix_cons.1 next).1.symm
  · exact h later

/-- The content of a comment ends with the first sign that ends it, or with the text. -/
theorem afterBlock_split (cs : List Char) : (∃ C, Closed C ∧ cs = C ++ '*' :: '/' :: afterBlock cs) ∨
    (Closed cs ∧ afterBlock cs = []) := by
  fun_induction afterBlock cs with
  | case1 => exact .inr ⟨by decide, rfl⟩
  | case2 cs => exact .inl ⟨[], by decide, rfl⟩
  | case3 c cs goes ih =>
    rcases ih with ⟨C, closed, whole⟩ | ⟨closed, none⟩
    · refine .inl ⟨c :: C, closed.cons fun star d front slash => ?_, by rw [List.cons_append, ← whole]⟩
      obtain ⟨C, rfl⟩ := List.head?_eq_some_iff.1 front
      exact goes _ star (by rw [whole, slash]; rfl)
    · refine .inr ⟨closed.cons fun star d front slash => ?_, none⟩
      obtain ⟨C, rfl⟩ := List.head?_eq_some_iff.1 front
      exact goes _ star (by rw [slash])

/-- The bytes in front of the rest of a text are those of what stands there. -/
theorem size_front {whole front rest : List Char} (split : whole = front ++ rest) :
    Text.Utf8.size whole - Text.Utf8.size rest = Text.Utf8.size front := by
  rw [split, size_append, Nat.add_sub_cancel_right]

theorem spread_of_reads (h : Reads pos cs ts) : Spread pos cs ts := by
  induction h with
  | nil => exact .nil .nil
  | @blank pos c cs ts is _ ih => exact Spread.behind [c] (fun _ gap => .blank is gap) ih
  | @line pos cs ts slash _ ih =>
    obtain ⟨ds, rfl⟩ := List.head?_eq_some_iff.1 slash
    obtain ⟨C, whole, inside, last⟩ := afterLine_split ds
    have goes : afterLine ('/' :: ds) = afterLine ds := rfl
    rw [goes] at ih
    have split : '/' :: '/' :: ds = '/' :: '/' :: C ++ afterLine ds := by simp [← whole]
    rw [size_front split] at ih
    rw [split]
    exact Spread.behind _ (fun same gap => .line inside (by rwa [same]) gap) ih
  | @block pos cs ts star read ih =>
    obtain ⟨ds, rfl⟩ := List.head?_eq_some_iff.1 star
    rw [List.tail_cons] at ih read
    rcases afterBlock_split ds with ⟨C, closed, whole⟩ | ⟨closed, none⟩
    · have split : '/' :: '*' :: ds = comment C ++ afterBlock ds := by simp [comment, ← whole]
      rw [size_front split] at ih
      rw [split]
      exact Spread.behind _ (fun _ gap => .block closed gap) ih
    · rw [none] at read
      have empty := read.scan
      rw [scan] at empty
      cases empty
      exact .nil (.unended closed rfl)
  | @token pos text cs ts lexeme _ ih =>
    have some : (ofChars text pos).text ≠ "" := by
      intro empty
      have chars := congrArg String.toList empty
      rw [text_ofChars] at chars
      have long := lexeme.size_pos
      rw [chars] at long
      exact absurd long (by decide)
    have spread : Spread pos ([] ++ (ofChars text pos).text.toList ++ cs) (ofChars text pos :: ts) := by
      refine .cons .nil some rfl ?_
      rwa [stop_ofChars]
    rwa [text_ofChars] at spread

/-- A text that is read is its tokens at their places, with gaps between them. -/
theorem spread_of_scan (h : scan pos cs = .ok ts) : Spread pos cs ts :=
  spread_of_reads (scan_iff.1 h)

/-! ## Characters that cannot be read -/

/-- Why a character, with these behind it, begins no token. -/
inductive Stray (after : List Char) : Char → Fault → Prop
  | string {quote : Char} : IsQuote quote → stringEnd quote after = none →
      Stray after quote Fault.unterminatedString
  | span : spanEnd 1 '{' after = none → Stray after '{' Fault.unclosedBrace
  | brace : Stray after '}' (Fault.unmatched "\x7d")

/-- The fault is that of a character of the text, and placed where that stands. -/
def Strays (pos : Nat) (cs : List Char) (f : Fault) : Prop :=
  ∃ before c after g, cs = before ++ c :: after ∧ Stray after c g ∧
    f = g.locate (pos + Text.Utf8.size before)

theorem Strays.behind (front : List Char) {f : Fault} (h : Strays (pos + Text.Utf8.size front) cs f) :
    Strays pos (front ++ cs) f := by
  obtain ⟨before, c, after, g, rfl, stray, placed⟩ := h
  refine ⟨front ++ before, c, after, g, (List.append_assoc ..).symm, stray, ?_⟩
  rw [placed, size_append, Nat.add_assoc]

/-- What is left of a text after its first bytes begins behind them. -/
theorem Strays.later {c : Char} {f : Fault} (suffix : rest <:+ cs)
    (h : Strays (pos + (Text.Utf8.size (c :: cs) - Text.Utf8.size rest)) rest f) :
    Strays pos (c :: cs) f := by
  obtain ⟨front, rfl⟩ := suffix
  rw [size_front List.cons_append.symm] at h
  exact Strays.behind (c :: front) h

/-- A text that is not read has a character in it that begins no token, where the fault is placed. -/
theorem strays_of_scan {f : Fault} (h : scan pos cs = .error f) : Strays pos cs f := by
  fun_induction scan pos cs with
  | case1 => cases h
  | case2 pos c cs is ih => exact Strays.behind [c] (ih h)
  | case3 pos c cs _ _ _ ih => exact (ih h).later (List.dropWhile_suffix _)
  | case4 pos c cs _ _ star _ ih =>
    refine (ih h).later (List.IsSuffix.trans ?_ (List.tail_suffix cs))
    rcases afterBlock_split cs.tail with ⟨C, -, whole⟩ | ⟨-, none⟩
    · exact ⟨C ++ ['*', '/'], by rw [List.append_assoc]; exact whole.symm⟩
    · rw [none]
      exact List.nil_suffix
  | case5 pos c cs _ _ _ is ih => exact Strays.behind [c] (ih (map_fault h))
  | case6 pos c cs _ _ _ _ is none =>
    obtain rfl := Except.error.inj h
    exact ⟨[], c, cs, _, rfl, .string is none, rfl⟩
  | case7 pos c cs _ _ _ _ is body rest ended _ ih =>
    obtain ⟨rfl, -⟩ := stringEnd_split ended
    exact Strays.behind (c :: body) (ih (map_fault h))
  | case8 pos cs _ _ _ _ _ none =>
    obtain rfl := Except.error.inj h
    exact ⟨[], '{', cs, _, rfl, .span none, rfl⟩
  | case9 pos cs body rest _ _ _ _ _ ended _ ih =>
    obtain ⟨rfl, -⟩ := spanEnd_split ended
    exact Strays.behind ('{' :: body) (ih (map_fault h))
  | case10 pos c cs unblank _ _ unsingle _ unopened ends =>
    obtain rfl := Except.error.inj h
    have closes : c = '}' := by
      by_contra other
      have goes : isDelimiter c = false := isDelimiter_eq_false.2
        ⟨eq_false_of_ne_true unblank, eq_false_of_ne_true unsingle, unopened, other⟩
      rw [goes] at ends
      cases ends
    subst closes
    exact ⟨[], '}', cs, _, rfl, .brace, rfl⟩
  | case11 pos c cs _ _ _ _ _ _ _ _ ih =>
    have later := Strays.behind _ (ih (map_fault h))
    rwa [(word_split (c :: cs)).1] at later

/-! ## Tokens of a source -/

/-- The tokens that are made of a source: those it is read as, those in braces, and the types that stand
behind a colon in a token, as with the fields of a structure. -/
inductive Of (source : String) : Token → Prop
  | outer {t : Token} {ts : List Token} : scan 0 source.toList = .ok ts → t ∈ ts → Of source t
  | inside {t u : Token} {ts : List Token} : Of source t → t.isBrace = true →
      scan (t.pos + 1) t.inner = .ok ts → u ∈ ts → Of source u
  | field {t : Token} {name type : String} : Of source t →
      Compile.splitAtMark ':' t.text = (name, some type) →
      Of source ⟨type, t.pos + name.utf8ByteSize + 1⟩

/-- A token of a piece of a token stands in the source. -/
theorem Stands.within {source front piece back : String} {offset : Nat} {u : Token}
    (h : t.Stands source offset) (whole : t.text = front ++ piece ++ back)
    (inner : u.Stands piece (t.pos + front.utf8ByteSize)) : u.Stands source offset := by
  obtain ⟨before, after, rfl, place⟩ := h
  obtain ⟨before', after', rfl, place'⟩ := inner
  refine ⟨before ++ front ++ before', after' ++ back ++ after, ?_, ?_⟩
  · simp only [whole, String.append_assoc]
  · rw [place', place, String.utf8ByteSize_append, String.utf8ByteSize_append]
    omega

theorem isBrace_text (brace : t.isBrace = true) :
    ∃ back, t.text = "\x7b" ++ String.ofList t.inner ++ back := by
  obtain ⟨cs, chars⟩ := List.head?_eq_some_iff.1 (beq_iff_eq.1 brace)
  have text : t.text = String.ofList ('{' :: cs) := by rw [← chars, String.ofList_toList]
  refine ⟨String.ofList cs.getLast?.toList, ?_⟩
  have whole : cs = cs.dropLast ++ cs.getLast?.toList := by
    rcases List.eq_nil_or_concat cs with rfl | ⟨ds, d, rfl⟩ <;> simp
  have inner : t.inner = cs.dropLast := by rw [Token.inner, chars, List.tail_cons]
  rw [text, inner, String.append_assoc, ← String.ofList_append, ← whole, ← String.toList_inj]
  simp

theorem split_at {mark : Char} (inside : mark ∈ cs) :
    cs = cs.takeWhile (· ≠ mark) ++ mark :: (cs.dropWhile (· ≠ mark)).drop 1 := by
  induction cs with
  | nil => cases inside
  | cons c cs ih =>
    by_cases here : c = mark
    · simp [here]
    · have later := ih ((List.mem_cons.1 inside).resolve_left (Ne.symm here))
      simpa [here] using later

theorem splitAtMark_text {mark : Char} {text name rest : String}
    (h : Compile.splitAtMark mark text = (name, some rest)) :
    text = name ++ String.singleton mark ++ rest := by
  unfold Compile.splitAtMark at h
  dsimp only at h
  split at h
  · rename_i inside
    obtain ⟨rfl, same⟩ := Prod.mk.inj h
    obtain rfl := Option.some.inj same
    rw [← String.toList_inj]
    simpa using split_at (List.contains_iff_mem.1 inside)
  · cases h

/-- Every token of a source stands in it where it says, however deep in braces it is. -/
theorem Of.stands {source : String} (h : t.Of source) : t.Stands source 0 := by
  induction h with
  | outer read is =>
    have stands := (spread_of_scan read).stands is
    rwa [String.ofList_toList] at stands
  | inside _ brace read is ih =>
    obtain ⟨back, whole⟩ := isBrace_text brace
    exact ih.within whole ((spread_of_scan read).stands is)
  | @field t name type _ split ih =>
    have whole : t.text = (name ++ String.singleton ':') ++ type ++ "" := by
      rw [String.append_empty]
      exact splitAtMark_text split
    refine ih.within whole ⟨"", "", by simp, ?_⟩
    rw [String.utf8ByteSize_append]
    rfl

end Token

end Catena
