import Catena.Fault
import Catena.Text.Utf8
import Catena.Token

/-!
# Splitting source text into tokens

Blanks and comments separate tokens. A token is one of the five single characters, a string
literal with its quotes, a whole span between braces, or a word: a run of characters that ends at a
blank, a single character or a brace, in which a backslash takes the next character along.
-/

namespace Catena.Token

/-- A character that is a token of its own. -/
def isSingle (c : Char) : Bool :=
  c == '(' || c == ')' || c == ';' || c == '[' || c == ']'

/-- A character that ends a word. -/
def isDelimiter (c : Char) : Bool :=
  Text.isBlank c || isSingle c || c == '{' || c == '}'

/-- The longest word at the front, and the rest. -/
def word : List Char → List Char × List Char
  | [] => ([], [])
  | ['\\'] => (['\\'], [])
  | '\\' :: c :: cs => ('\\' :: c :: (word cs).1, (word cs).2)
  | c :: cs => if isDelimiter c then ([], c :: cs) else (c :: (word cs).1, (word cs).2)

/-- The rest of a string literal after its opening quote: up to and including the closing quote,
and what follows. A backslash takes the next character along. -/
def stringEnd (quote : Char) : List Char → Option (List Char × List Char)
  | [] => none
  | ['\\'] => none
  | '\\' :: c :: cs => (stringEnd quote cs).map fun r => ('\\' :: c :: r.1, r.2)
  | c :: cs =>
    if c = quote then some ([c], cs) else (stringEnd quote cs).map fun r => (c :: r.1, r.2)

/-- A quote begins a string inside a span only after a character like this. -/
def startsToken (prev : Char) : Bool :=
  isDelimiter prev

theorem stringEnd_length {quote : Char} {cs : List Char} {r : List Char × List Char}
    (h : stringEnd quote cs = some r) : r.2.length < cs.length := by
  fun_induction stringEnd quote cs generalizing r with
  | case1 => simp at h
  | case2 => simp at h
  | case3 c cs ih =>
    obtain ⟨r', hr', rfl⟩ := Option.map_eq_some_iff.1 h
    have := ih hr'
    simp only [List.length_cons]; omega
  | case4 cs _ _ => simp at h; subst h; simp
  | case5 c cs _ _ hc ih =>
    obtain ⟨r', hr', rfl⟩ := Option.map_eq_some_iff.1 h
    have := ih hr'
    simp only [List.length_cons]; omega

/-- The rest of a span after its opening brace, with `depth` braces open and `prev` just read: up to
and including the brace that closes it, and what follows. -/
def spanEnd (depth : Nat) (prev : Char) : List Char → Option (List Char × List Char)
  | [] => none
  | c :: cs =>
    if c = '{' then (spanEnd (depth + 1) c cs).map fun r => (c :: r.1, r.2)
    else if c = '}' then
      if depth ≤ 1 then some ([c], cs) else (spanEnd (depth - 1) c cs).map fun r => (c :: r.1, r.2)
    else if c = '\\' then
      match cs with
      | [] => none
      | e :: cs => (spanEnd depth e cs).map fun r => (c :: e :: r.1, r.2)
    else if (c = '\'' ∨ c = '"') ∧ startsToken prev = true then
      match h : stringEnd c cs with
      | none => none
      | some (body, rest) =>
        have : rest.length < cs.length := stringEnd_length h
        (spanEnd depth c rest).map fun r => (c :: body ++ r.1, r.2)
    else (spanEnd depth c cs).map fun r => (c :: r.1, r.2)
termination_by cs => cs.length

/-- What is left after a comment that ends with its line. -/
def afterLine (cs : List Char) : List Char :=
  cs.dropWhile (· ≠ '\n')

/-- What is left after a comment that ends with `*/`, or with the text. -/
def afterBlock : List Char → List Char
  | [] => []
  | '*' :: '/' :: cs => cs
  | _ :: cs => afterBlock cs

theorem word_length (cs : List Char) : (word cs).2.length ≤ cs.length := by
  fun_induction word cs with
  | case1 => simp
  | case2 => simp
  | case3 c cs ih => simp only [List.length_cons]; omega
  | case4 c cs _ _ h => simp
  | case5 c cs _ _ h ih => simp only [List.length_cons]; omega

theorem word_length_lt {c : Char} (cs : List Char) (h : isDelimiter c = false) :
    (word (c :: cs)).2.length < (c :: cs).length := by
  generalize hl : c :: cs = l
  fun_cases word l with
  | case1 => simp at hl
  | case2 => simp
  | case3 d ds => have := word_length ds; simp only [List.length_cons]; omega
  | case4 d ds _ _ hd => simp only [List.cons.injEq] at hl; simp [hl.1 ▸ h] at hd
  | case5 d ds => have := word_length ds; simp only [List.length_cons]; omega

theorem afterBlock_length (cs : List Char) : (afterBlock cs).length ≤ cs.length := by
  fun_induction afterBlock cs with
  | case1 => simp
  | case2 cs => simp only [List.length_cons]; omega
  | case3 c cs _ ih => simp only [List.length_cons]; omega

theorem afterLine_length (cs : List Char) : (afterLine cs).length ≤ cs.length :=
  (List.dropWhile_sublist _).length_le

theorem spanEnd_length {depth : Nat} {prev : Char} {cs : List Char} {r : List Char × List Char}
    (h : spanEnd depth prev cs = some r) : r.2.length < cs.length := by
  fun_induction spanEnd depth prev cs generalizing r with
  | case1 => simp at h
  | case2 depth prev cs ih =>
    obtain ⟨r', hr', rfl⟩ := Option.map_eq_some_iff.1 h
    have := ih hr'; simp only [List.length_cons]; omega
  | case3 => simp at h; subst h; simp
  | case4 depth prev cs _ _ ih =>
    obtain ⟨r', hr', rfl⟩ := Option.map_eq_some_iff.1 h
    have := ih hr'; simp only [List.length_cons]; omega
  | case5 => simp at h
  | case6 depth prev e cs _ _ ih =>
    obtain ⟨r', hr', rfl⟩ := Option.map_eq_some_iff.1 h
    have := ih hr'; simp only [List.length_cons]; omega
  | case7 => simp at h
  | case8 depth prev c cs _ _ _ _ body rest hs hlt ih =>
    obtain ⟨r', hr', rfl⟩ := Option.map_eq_some_iff.1 h
    have := ih hr'; simp only [List.length_cons]; omega
  | case9 depth prev c cs _ _ _ _ ih =>
    obtain ⟨r', hr', rfl⟩ := Option.map_eq_some_iff.1 h
    have := ih hr'; simp only [List.length_cons]; omega

/-- A token of the given characters. -/
def ofChars (cs : List Char) (pos : Nat) : Token :=
  ⟨String.ofList cs, pos⟩

/-- The tokens of the characters that begin at byte `pos`. -/
def scan (pos : Nat) : List Char → Except Fault (List Token)
  | [] => .ok []
  | c :: cs =>
    if Text.isBlank c then scan (pos + c.utf8Size) cs
    else if c = '/' ∧ cs.head? = some '/' then
      have : (afterLine cs).length < (c :: cs).length := Nat.lt_succ_of_le (afterLine_length cs)
      scan (pos + (Text.Utf8.size (c :: cs) - Text.Utf8.size (afterLine cs))) (afterLine cs)
    else if c = '/' ∧ cs.head? = some '*' then
      have : (afterBlock cs.tail).length < (c :: cs).length := by
        have h₁ := afterBlock_length cs.tail
        have h₂ : cs.tail.length ≤ cs.length := by simp
        simp only [List.length_cons]; omega
      scan (pos + (Text.Utf8.size (c :: cs) - Text.Utf8.size (afterBlock cs.tail)))
        (afterBlock cs.tail)
    else if isSingle c then do
      return ofChars [c] pos :: (← scan (pos + c.utf8Size) cs)
    else if c = '\'' ∨ c = '"' then
      match h : stringEnd c cs with
      | none => .error (Fault.unterminatedString.locate pos)
      | some (body, rest) =>
        have : rest.length < (c :: cs).length := Nat.lt_succ_of_lt (stringEnd_length h)
        do return ofChars (c :: body) pos :: (← scan (pos + Text.Utf8.size (c :: body)) rest)
    else if c = '{' then
      match h : spanEnd 1 c cs with
      | none => .error (Fault.unclosedBrace.locate pos)
      | some (body, rest) =>
        have : rest.length < (c :: cs).length := Nat.lt_succ_of_lt (spanEnd_length h)
        do return ofChars (c :: body) pos :: (← scan (pos + Text.Utf8.size (c :: body)) rest)
    else if h : isDelimiter c = true then
      .error ((Fault.unmatched (String.singleton c)).locate pos)
    else
      have : (word (c :: cs)).2.length < (c :: cs).length := word_length_lt cs (by simpa using h)
      do
        return ofChars (word (c :: cs)).1 pos ::
          (← scan (pos + Text.Utf8.size (word (c :: cs)).1) (word (c :: cs)).2)
termination_by cs => cs.length
decreasing_by all_goals (simp only [List.length_cons] at *; omega)

end Catena.Token
