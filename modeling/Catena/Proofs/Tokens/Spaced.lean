import Catena.Token.Scan

/-!
# Tokens and the blanks between them

A text without comments is read as tokens with blanks between them (`Spaced`). What is read does not
depend on where the text begins, nor on what comes behind it as long as no word goes on there, so a
text can be read piece by piece (`Spaced.scan`).
-/

namespace Catena

/-- The byte behind a token. -/
def Token.stop (t : Token) : Nat := t.pos + Text.Utf8.size t.text.toList

/-- The token of a text that begins `n` bytes later. -/
def Token.shift (n : Nat) (t : Token) : Token := { t with pos := t.pos + n }

namespace Token

variable {c prev quote : Char} {cs rest rest' text : List Char} {pos depth : Nat} {ts us : List Token}

theorem size_cons (c : Char) (cs : List Char) :
    Text.Utf8.size (c :: cs) = c.utf8Size + Text.Utf8.size cs := rfl

theorem size_append (cs ds : List Char) :
    Text.Utf8.size (cs ++ ds) = Text.Utf8.size cs + Text.Utf8.size ds := by
  induction cs with
  | nil => simp [Text.Utf8.size]
  | cons c cs ih =>
    rw [List.cons_append, size_cons, size_cons, ih]
    omega

@[simp] theorem text_ofChars (cs : List Char) (pos : Nat) : (ofChars cs pos).text.toList = cs :=
  String.toList_ofList

theorem stop_ofChars (cs : List Char) (pos : Nat) :
    (ofChars cs pos).stop = pos + Text.Utf8.size cs := by
  rw [stop, text_ofChars]
  rfl

/-! ## Escapes -/

/-- Characters are read one by one, but a backslash takes the next one along. -/
theorem escape_cases {P : List Char → Prop} (nil : P []) (dangling : P ['\\'])
    (escape : ∀ c cs, P cs → P ('\\' :: c :: cs)) (plain : ∀ c cs, c ≠ '\\' → P cs → P (c :: cs))
    (cs : List Char) : P cs := by
  induction h : cs.length using Nat.strongRecOn generalizing cs with
  | ind n ih =>
    subst h
    match cs with
    | [] => exact nil
    | c :: cs =>
      by_cases same : c = '\\'
      · subst same
        match cs with
        | [] => exact dangling
        | d :: cs => exact escape d cs (ih cs.length (by simp only [List.length_cons]; omega) cs rfl)
      · exact plain c cs same (ih cs.length (Nat.lt_succ_self _) cs rfl)

/-- A backslash at the end has no character to take along. -/
def dangles : List Char → Bool
  | [] => false
  | ['\\'] => true
  | '\\' :: _ :: cs => dangles cs
  | _ :: cs => dangles cs

theorem dangles_plain (other : c ≠ '\\') : dangles (c :: cs) = dangles cs := by
  rw [dangles] <;> simp [other]

theorem getLast?_of_dangles (h : dangles cs = true) : cs.getLast? = some '\\' := by
  induction cs using escape_cases with
  | nil => cases h
  | dangling => rfl
  | escape c cs ih =>
    have last := ih h
    cases cs with
    | nil => cases last
    | cons d cs => simpa using last
  | plain c cs other ih =>
    rw [dangles_plain other] at h
    have last := ih h
    cases cs with
    | nil => cases last
    | cons d cs => simpa using last

/-! ## Strings and spans -/

theorem stringEnd_plain (other : c ≠ '\\') : stringEnd quote (c :: cs) =
    if c = quote then some ([c], cs) else (stringEnd quote cs).map fun r => (c :: r.1, r.2) := by
  rw [stringEnd] <;> simp [other]

/-- A string ends where it ends, whatever comes behind it. -/
theorem stringEnd_split {r : List Char × List Char} (h : stringEnd quote cs = some r) :
    cs = r.1 ++ r.2 ∧ ∀ rest, stringEnd quote (r.1 ++ rest) = some (r.1, rest) := by
  induction cs using escape_cases generalizing r with
  | nil => cases h
  | dangling => cases h
  | escape c cs ih =>
    obtain ⟨r, inner, rfl⟩ := Option.map_eq_some_iff.1 h
    obtain ⟨rfl, same⟩ := ih inner
    exact ⟨rfl, fun rest => by simp [stringEnd, same rest]⟩
  | plain c cs other ih =>
    rw [stringEnd_plain other] at h
    split at h
    next here =>
      obtain rfl := Option.some.inj h
      exact ⟨rfl, fun rest => by rw [List.singleton_append, stringEnd_plain other, if_pos here]⟩
    next apart =>
      obtain ⟨r, inner, rfl⟩ := Option.map_eq_some_iff.1 h
      obtain ⟨rfl, same⟩ := ih inner
      exact ⟨rfl, fun rest => by simp [stringEnd_plain other, apart, same rest]⟩

theorem spanEnd_open : spanEnd depth prev ('{' :: cs) =
    (spanEnd (depth + 1) '{' cs).map fun r => ('{' :: r.1, r.2) := by
  rw [spanEnd.eq_def]
  rfl

theorem spanEnd_close : spanEnd depth prev ('}' :: cs) =
    if depth ≤ 1 then some (['}'], cs)
    else (spanEnd (depth - 1) '}' cs).map fun r => ('}' :: r.1, r.2) := by
  rw [spanEnd.eq_def]
  rfl

theorem spanEnd_escape : spanEnd depth prev ('\\' :: c :: cs) =
    (spanEnd depth c cs).map fun r => ('\\' :: c :: r.1, r.2) := by
  rw [spanEnd.eq_def]
  rfl

/-- A quote. -/
def IsQuote (c : Char) : Prop := c = '\'' ∨ c = '"'

instance : DecidablePred IsQuote := fun c => inferInstanceAs (Decidable (c = '\'' ∨ c = '"'))

theorem IsQuote.ne (h : IsQuote c) {d : Char} (other : ¬ IsQuote d) : c ≠ d := by
  rintro rfl
  exact other h

theorem spanEnd_string (is : IsQuote c) (starts : isDelimiter prev = true) :
    spanEnd depth prev (c :: cs) = (stringEnd c cs).bind fun s =>
      (spanEnd depth c s.2).map fun r => (c :: s.1 ++ r.1, r.2) := by
  rw [spanEnd.eq_def]
  dsimp only
  rw [if_neg (is.ne (by decide)), if_neg (is.ne (by decide)), if_neg (is.ne (by decide)),
    if_pos ⟨is, starts⟩]
  split
  next none => rw [none]; rfl
  next ended => rw [ended]; rfl

theorem spanEnd_plain (opens : c ≠ '{') (closes : c ≠ '}') (other : c ≠ '\\')
    (plain : IsQuote c → isDelimiter prev = false) :
    spanEnd depth prev (c :: cs) = (spanEnd depth c cs).map fun r => (c :: r.1, r.2) := by
  rw [spanEnd.eq_def]
  dsimp only
  rw [if_neg opens, if_neg closes, if_neg other, if_neg]
  rintro ⟨is, starts⟩
  rw [startsToken, plain is] at starts
  cases starts

/-- A span ends where it ends, whatever comes behind it. -/
theorem spanEnd_split {r : List Char × List Char} (h : spanEnd depth prev cs = some r) :
    cs = r.1 ++ r.2 ∧ ∀ rest, spanEnd depth prev (r.1 ++ rest) = some (r.1, rest) := by
  fun_induction spanEnd depth prev cs generalizing r with
  | case1 => cases h
  | case2 depth prev cs ih =>
    obtain ⟨r, inner, rfl⟩ := Option.map_eq_some_iff.1 h
    obtain ⟨rfl, same⟩ := ih inner
    exact ⟨rfl, fun rest => by rw [List.cons_append, spanEnd_open, same]; rfl⟩
  | case3 depth prev cs one _ =>
    obtain rfl := Option.some.inj h
    exact ⟨rfl, fun rest => by rw [List.singleton_append, spanEnd_close, if_pos one]⟩
  | case4 depth prev cs more _ ih =>
    obtain ⟨r, inner, rfl⟩ := Option.map_eq_some_iff.1 h
    obtain ⟨rfl, same⟩ := ih inner
    exact ⟨rfl, fun rest => by rw [List.cons_append, spanEnd_close, if_neg more, same]; rfl⟩
  | case5 => cases h
  | case6 depth prev e cs _ _ ih =>
    obtain ⟨r, inner, rfl⟩ := Option.map_eq_some_iff.1 h
    obtain ⟨rfl, same⟩ := ih inner
    exact ⟨rfl, fun rest => by
      rw [List.cons_append, List.cons_append, spanEnd_escape, same]
      rfl⟩
  | case7 => cases h
  | case8 depth prev c cs _ _ _ quoted body rest' ended _ ih =>
    obtain ⟨r, inner, rfl⟩ := Option.map_eq_some_iff.1 h
    obtain ⟨rfl, same⟩ := ih inner
    obtain ⟨rfl, string⟩ := stringEnd_split ended
    refine ⟨by simp, fun rest => ?_⟩
    rw [List.cons_append, List.cons_append, List.append_assoc, spanEnd_string quoted.1 quoted.2,
      string, Option.bind_some, same]
    rfl
  | case9 depth prev c cs opens closes other quoted ih =>
    obtain ⟨r, inner, rfl⟩ := Option.map_eq_some_iff.1 h
    obtain ⟨rfl, same⟩ := ih inner
    have plain (is : IsQuote c) : isDelimiter prev = false :=
      eq_false_of_ne_true fun starts => quoted ⟨is, starts⟩
    exact ⟨rfl, fun rest => by
      rw [List.cons_append, spanEnd_plain opens closes other plain, same]
      rfl⟩

/-! ## Words -/

/-- No word goes on here. -/
def Parted (rest : List Char) : Prop := ∀ c ∈ rest.head?, isDelimiter c = true

theorem parted_nil : Parted [] := by simp [Parted]

theorem parted_cons : Parted (c :: cs) ↔ isDelimiter c = true := by simp [Parted]

theorem Parted.append (h : Parted cs) (h' : Parted rest) : Parted (cs ++ rest) := by
  cases cs with
  | nil => exact h'
  | cons c cs => exact parted_cons.2 (parted_cons.1 h)

theorem Parted.before (h : Parted (cs ++ rest)) (h' : Parted rest') : Parted (cs ++ rest') := by
  cases cs with
  | nil => exact h'
  | cons c cs => exact parted_cons.2 (parted_cons.1 h)

theorem isDelimiter_of_isBlank (blank : Text.isBlank c = true) : isDelimiter c = true := by
  simp [isDelimiter, blank]

theorem word_plain (other : c ≠ '\\') : word (c :: cs) =
    if isDelimiter c then ([], c :: cs) else (c :: (word cs).1, (word cs).2) := by
  rw [word] <;> simp [other]

/-- A word is read up to the next delimiter, and is a word by itself. -/
theorem word_split (cs : List Char) : (word cs).1 ++ (word cs).2 = cs ∧ Parted (word cs).2 ∧
    word (word cs).1 = ((word cs).1, []) ∧ (dangles (word cs).1 = true → (word cs).2 = []) := by
  induction cs using escape_cases with
  | nil => exact ⟨rfl, parted_nil, rfl, fun _ => rfl⟩
  | dangling => exact ⟨rfl, parted_nil, rfl, fun _ => rfl⟩
  | escape c cs ih =>
    obtain ⟨whole, parted, alone, closed⟩ := ih
    exact ⟨by simp [word, whole], parted, by simp [word, alone], closed⟩
  | plain c cs other ih =>
    rw [word_plain other]
    split
    next ends => exact ⟨rfl, parted_cons.2 ends, rfl, nofun⟩
    next goes =>
      obtain ⟨whole, parted, alone, closed⟩ := ih
      refine ⟨by simp [whole], parted, ?_, fun h => closed ?_⟩
      · rw [word_plain other, if_neg goes, alone]
      · rwa [dangles_plain other] at h

/-- A word by itself is read before whatever does not go on with it. -/
theorem word_append (alone : word cs = (cs, [])) (parted : Parted rest)
    (closed : dangles cs = true → rest = []) : word (cs ++ rest) = (cs, rest) := by
  induction cs using escape_cases with
  | nil =>
    cases rest with
    | nil => rfl
    | cons c rest =>
      have ends := parted_cons.1 parted
      have other : c ≠ '\\' := by rintro rfl; revert ends; decide
      rw [List.nil_append, word_plain other, if_pos ends]
  | dangling => rw [closed rfl]; rfl
  | escape c cs ih =>
    have inner : word cs = (cs, []) := by simpa [word, Prod.ext_iff] using alone
    simp [word, ih inner closed]
  | plain c cs other ih =>
    rw [word_plain other] at alone
    split at alone
    next => cases alone
    next goes =>
      have inner : word cs = (cs, []) := by simpa [Prod.ext_iff] using alone
      rw [dangles_plain other] at closed
      rw [List.cons_append, word_plain other, if_neg goes, ih inner closed]

/-- A word keeps the character it begins with. -/
theorem word_cons (goes : isDelimiter c = false) (cs : List Char) :
    ∃ ds, (word (c :: cs)).1 = c :: ds ∧ ds ++ (word (c :: cs)).2 = cs := by
  have whole := (word_split (c :: cs)).1
  by_cases other : c = '\\'
  · subst other
    cases cs with
    | nil => exact ⟨[], rfl, rfl⟩
    | cons e cs => exact ⟨e :: (word cs).1, rfl, (List.cons.inj whole).2⟩
  · rw [word_plain other, if_neg (by simp [goes])] at whole ⊢
    exact ⟨_, rfl, (List.cons.inj whole).2⟩

/-! ## Single tokens -/

/-- The text of one token, with what comes behind it. -/
inductive Lexeme (rest : List Char) : List Char → Prop
  | single {c : Char} : isSingle c = true → Lexeme rest [c]
  | string {quote : Char} {body : List Char} : IsQuote quote →
      stringEnd quote body = some (body, []) → Lexeme rest (quote :: body)
  | span {body : List Char} : spanEnd 1 '{' body = some (body, []) → Lexeme rest ('{' :: body)
  /-- No string and no comment begins at the front of a word. -/
  | word {c : Char} {cs : List Char} : isDelimiter c = false → ¬ IsQuote c →
      (c = '/' → ∀ d ∈ cs.head?, d ≠ '/' ∧ d ≠ '*') → word (c :: cs) = (c :: cs, []) →
      Parted rest → (dangles (c :: cs) = true → rest = []) → Lexeme rest (c :: cs)

/-- A token is the same before something else, unless a word would go on there. -/
theorem Lexeme.before (h : Lexeme rest text) (ends : rest = [] → text.getLast? ≠ some '\\')
    (parted : Parted rest → Parted rest') : Lexeme rest' text := by
  cases h with
  | single is => exact .single is
  | string is ended => exact .string is ended
  | span ended => exact .span ended
  | word goes unquoted uncommented alone here closed =>
    refine .word goes unquoted uncommented alone (parted here) fun dangling => ?_
    exact absurd (getLast?_of_dangles dangling) (ends (closed dangling))

theorem Lexeme.size_pos (h : Lexeme rest text) : 0 < Text.Utf8.size text := by
  cases h <;> exact Nat.lt_of_lt_of_le (Char.utf8Size_pos _) (Nat.le_add_right _ _)

theorem scan_bind {x : Except Fault (List Token)} {t : Token}
    (h : (do return t :: (← x) : Except Fault (List Token)) = .ok ts) :
    ∃ us, x = .ok us ∧ ts = t :: us := by
  cases x with
  | error => cases h
  | ok us => exact ⟨us, rfl, (Except.ok.inj h).symm⟩

theorem scan_blank (blank : Text.isBlank c = true) :
    scan pos (c :: cs) = scan (pos + c.utf8Size) cs := by
  rw [scan.eq_def]
  dsimp only
  rw [if_pos blank]

theorem isDelimiter_eq_false : isDelimiter c = false ↔
    Text.isBlank c = false ∧ isSingle c = false ∧ c ≠ '{' ∧ c ≠ '}' := by
  simp [isDelimiter, and_assoc]

theorem isSingle_cases (h : isSingle c = true) : c = '(' ∨ c = ')' ∨ c = ';' ∨ c = '[' ∨ c = ']' := by
  simpa [isSingle, or_assoc] using h

/-- One token is read off the front. -/
theorem scan_lexeme (h : Lexeme rest text) (pos : Nat) : scan pos (text ++ rest) =
    (scan (pos + Text.Utf8.size text) rest).map (ofChars text pos :: ·) := by
  have bound {x : Except Fault (List Token)} {t : Token} :
      (do return t :: (← x) : Except Fault (List Token)) = x.map (t :: ·) := by
    cases x <;> rfl
  cases h with
  | @single c is =>
    have plain : Text.isBlank c = false ∧ c ≠ '/' := by
      rcases isSingle_cases is with rfl | rfl | rfl | rfl | rfl <;> decide
    rw [List.singleton_append, scan.eq_def]
    dsimp only
    rw [if_neg (by simp [plain.1]), if_neg (by simp [plain.2]), if_neg (by simp [plain.2]), if_pos is,
      bound]
    rfl
  | @string quote body is ended =>
    have plain : Text.isBlank quote = false ∧ quote ≠ '/' ∧ isSingle quote = false := by
      rcases is with rfl | rfl <;> decide
    have ended : stringEnd quote (body ++ rest) = some (body, rest) := (stringEnd_split ended).2 rest
    rw [List.cons_append, scan.eq_def]
    dsimp only
    rw [if_neg (by simp [plain.1]), if_neg (by simp [plain.2.1]), if_neg (by simp [plain.2.1]),
      if_neg (by simp [plain.2.2]), if_pos (show quote = '\'' ∨ quote = '"' from is)]
    split
    next none => rw [ended] at none; cases none
    next found =>
      rw [ended] at found
      obtain ⟨rfl, rfl⟩ := Prod.mk.inj (Option.some.inj found)
      exact bound
  | @span body ended =>
    have ended : spanEnd 1 '{' (body ++ rest) = some (body, rest) := (spanEnd_split ended).2 rest
    rw [List.cons_append, scan.eq_def]
    dsimp only
    rw [if_neg (by decide), if_neg (by simp), if_neg (by simp), if_neg (by decide),
      if_neg (by decide), if_pos rfl]
    split
    next none => rw [ended] at none; cases none
    next found =>
      rw [ended] at found
      obtain ⟨rfl, rfl⟩ := Prod.mk.inj (Option.some.inj found)
      exact bound
  | @word c cs goes unquoted uncommented alone parted closed =>
    obtain ⟨unblank, unsingle, unopened, -⟩ := isDelimiter_eq_false.1 goes
    have read : word (c :: (cs ++ rest)) = (c :: cs, rest) := word_append alone parted closed
    have apart (d : Char) (mark : d = '/' ∨ d = '*') : ¬ (c = '/' ∧ (cs ++ rest).head? = some d) := by
      rintro ⟨slash, next⟩
      cases cs with
      | nil =>
        have ends := parted d next
        rcases mark with rfl | rfl <;> revert ends <;> decide
      | cons e cs =>
        obtain rfl : e = d := by simpa using next
        have none := uncommented slash e rfl
        rcases mark with rfl | rfl
        · exact none.1 rfl
        · exact none.2 rfl
    rw [List.cons_append, scan.eq_def]
    dsimp only
    rw [if_neg (by simp [unblank]), if_neg (apart '/' (.inl rfl)), if_neg (apart '*' (.inr rfl)),
      if_neg (by simp [unsingle]),
      if_neg (show ¬ (c = '\'' ∨ c = '"') from unquoted), if_neg unopened, dif_neg (by simp [goes]), read]
    exact bound

/-! ## Whole texts -/

/-- The characters from byte `pos` on are blanks, comments and these tokens. -/
inductive Reads : Nat → List Char → List Token → Prop
  | nil {pos : Nat} : Reads pos [] []
  | blank {pos : Nat} {c : Char} {cs : List Char} {ts : List Token} : Text.isBlank c = true →
      Reads (pos + c.utf8Size) cs ts → Reads pos (c :: cs) ts
  | line {pos : Nat} {cs : List Char} {ts : List Token} : cs.head? = some '/' →
      Reads (pos + (Text.Utf8.size ('/' :: cs) - Text.Utf8.size (afterLine cs))) (afterLine cs) ts →
      Reads pos ('/' :: cs) ts
  | block {pos : Nat} {cs : List Char} {ts : List Token} : cs.head? = some '*' →
      Reads (pos + (Text.Utf8.size ('/' :: cs) - Text.Utf8.size (afterBlock cs.tail)))
        (afterBlock cs.tail) ts → Reads pos ('/' :: cs) ts
  | token {pos : Nat} {text cs : List Char} {ts : List Token} : Lexeme cs text →
      Reads (pos + Text.Utf8.size text) cs ts → Reads pos (text ++ cs) (ofChars text pos :: ts)

theorem reads_of_scan (h : Token.scan pos cs = .ok ts) : Reads pos cs ts := by
  fun_induction Token.scan pos cs generalizing ts with
  | case1 => cases h; exact .nil
  | case2 pos c cs is ih => exact .blank is (ih h)
  | case3 pos c cs _ slash _ ih =>
    obtain ⟨rfl, slash⟩ := slash
    exact .line slash (ih h)
  | case4 pos c cs _ _ star _ ih =>
    obtain ⟨rfl, star⟩ := star
    exact .block star (ih h)
  | case5 pos c cs _ _ _ is ih =>
    obtain ⟨us, read, rfl⟩ := scan_bind h
    exact .token (.single is) (ih read)
  | case6 => cases h
  | case7 pos c cs _ _ _ _ is body rest ended _ ih =>
    obtain ⟨us, read, rfl⟩ := scan_bind h
    obtain ⟨rfl, string⟩ := stringEnd_split ended
    have alone : stringEnd c body = some (body, []) := by simpa using string []
    exact .token (.string is alone) (ih read)
  | case8 => cases h
  | case9 pos cs body rest _ _ _ _ _ ended _ ih =>
    obtain ⟨us, read, rfl⟩ := scan_bind h
    obtain ⟨rfl, span⟩ := spanEnd_split ended
    have alone : spanEnd 1 '{' body = some (body, []) := by simpa using span []
    exact .token (.span alone) (ih read)
  | case10 => cases h
  | case11 pos c cs _ unslashed unstarred _ unquoted _ goes _ ih =>
    obtain ⟨us, read, rfl⟩ := scan_bind h
    have goes : isDelimiter c = false := eq_false_of_ne_true goes
    obtain ⟨whole, parted, alone, closed⟩ := word_split (c :: cs)
    obtain ⟨ds, front, split⟩ := word_cons goes cs
    have lexeme : Lexeme (word (c :: cs)).2 (word (c :: cs)).1 := by
      rw [front] at alone closed ⊢
      refine .word goes unquoted (fun slash d here => ?_) alone parted closed
      have next : cs.head? = some d := by
        rw [← split, List.head?_append, Option.mem_def.1 here]
        rfl
      constructor
      · rintro rfl
        exact unslashed ⟨slash, next⟩
      · rintro rfl
        exact unstarred ⟨slash, next⟩
    simpa only [whole] using Reads.token lexeme (ih read)

theorem Reads.scan (h : Reads pos cs ts) : Token.scan pos cs = .ok ts := by
  induction h with
  | nil => rw [Token.scan]
  | blank is _ ih => rw [scan_blank is, ih]
  | line slash _ ih =>
    rw [scan.eq_def]
    dsimp only
    rw [if_neg (by decide), if_pos ⟨rfl, slash⟩, ih]
  | block star _ ih =>
    rw [scan.eq_def]
    dsimp only
    rw [if_neg (by decide), if_neg (by simp [star]), if_pos ⟨rfl, star⟩, ih]
  | token lexeme _ ih =>
    rw [scan_lexeme lexeme, ih]
    rfl

/-- Reading is what the tokens of a text are found by. -/
theorem scan_iff : Token.scan pos cs = .ok ts ↔ Reads pos cs ts :=
  ⟨reads_of_scan, Reads.scan⟩

/-! ## Texts without comments -/

/-- The characters from byte `pos` on, with `rest` behind them, are these tokens with blanks between
them and no comments. -/
inductive Spaced (rest : List Char) : Nat → List Char → List Token → Prop
  | nil {pos : Nat} : Spaced rest pos [] []
  | blank {pos : Nat} {c : Char} {cs : List Char} {ts : List Token} : Text.isBlank c = true →
      Spaced rest (pos + c.utf8Size) cs ts → Spaced rest pos (c :: cs) ts
  | token {pos : Nat} {text cs : List Char} {ts : List Token} : Lexeme (cs ++ rest) text →
      Spaced rest (pos + Text.Utf8.size text) cs ts →
      Spaced rest pos (text ++ cs) (ofChars text pos :: ts)

namespace Spaced

/-- The tokens are those that are read, before those of the rest. -/
theorem scan (h : Spaced rest pos cs ts) : Token.scan pos (cs ++ rest) =
    (Token.scan (pos + Text.Utf8.size cs) rest).map (ts ++ ·) := by
  induction h with
  | nil =>
    simp only [List.nil_append]
    exact (Except.map_id (ε := Fault) |> congrFun <| _).symm
  | blank is _ ih =>
    rw [List.cons_append, scan_blank is, ih, size_cons, Nat.add_assoc]
  | token is _ ih =>
    rw [List.append_assoc, scan_lexeme is, ih, size_append, Nat.add_assoc]
    cases Token.scan _ rest <;> rfl

theorem shift (h : Spaced rest pos cs ts) (n : Nat) :
    Spaced rest (pos + n) cs (ts.map (Token.shift n)) := by
  induction h with
  | nil => exact .nil
  | @blank pos c cs ts is _ ih =>
    refine .blank is ?_
    rwa [Nat.add_right_comm]
  | @token pos text cs ts is _ ih =>
    refine .token is ?_
    rwa [Nat.add_right_comm]

/-- The tokens are the same before something else, unless a word would go on there. -/
theorem before (h : Spaced rest pos cs ts) (ends : rest = [] → cs.getLast? ≠ some '\\')
    (parted : Parted rest') : Spaced rest' pos cs ts := by
  induction h with
  | nil => exact .nil
  | @blank pos c cs ts is _ ih =>
    refine .blank is (ih fun none last => ends none ?_)
    rw [List.getLast?_cons, last]
    rfl
  | @token pos text cs ts is _ ih =>
    have last (none : cs ++ rest = []) : text.getLast? ≠ some '\\' := by
      obtain ⟨rfl, none⟩ := List.append_eq_nil_iff.1 none
      simpa using ends none
    refine .token (is.before last fun h => h.before parted) (ih fun none last => ends none ?_)
    rw [List.getLast?_append, last]
    rfl

theorem le (h : Spaced rest pos cs ts) {t : Token} (is : t ∈ ts) : pos ≤ t.pos := by
  induction h with
  | nil => cases is
  | blank _ _ ih => exact Nat.le_of_add_right_le (ih is)
  | token _ _ ih =>
    cases is with
    | head => exact Nat.le_refl _
    | tail _ is => exact Nat.le_of_add_right_le (ih is)

/-- A token that begins where the text begins is at its front. -/
theorem front (h : Spaced rest pos cs ts) {t : Token} (is : t ∈ ts) (here : t.pos = pos) :
    t.text.toList <+: cs := by
  cases h with
  | nil => cases is
  | @blank _ c cs _ _ h =>
    have later := h.le is
    have := c.utf8Size_pos
    omega
  | @token _ text cs ts lexeme h =>
    cases is with
    | head => exact ⟨cs, by rw [text_ofChars]⟩
    | tail _ is =>
      have later := h.le is
      have := lexeme.size_pos
      omega

end Spaced

/-- Nothing in a text looks like the beginning of a comment. -/
def Uncommented (cs : List Char) : Prop := ¬ ['/', '/'] <:+: cs ∧ ¬ ['/', '*'] <:+: cs

instance (cs : List Char) : Decidable (Uncommented cs) :=
  inferInstanceAs (Decidable (_ ∧ _))

theorem Uncommented.of_append (h : Uncommented (cs ++ rest)) : Uncommented rest :=
  ⟨fun inner => h.1 (inner.trans (List.suffix_append cs rest).isInfix),
    fun inner => h.2 (inner.trans (List.suffix_append cs rest).isInfix)⟩

theorem Uncommented.head? (h : Uncommented ('/' :: cs)) : ∀ d ∈ cs.head?, d ≠ '/' ∧ d ≠ '*' := by
  cases cs with
  | nil => nofun
  | cons d cs =>
    rintro _ ⟨⟩
    constructor
    · rintro rfl
      exact h.1 ⟨[], cs, rfl⟩
    · rintro rfl
      exact h.2 ⟨[], cs, rfl⟩

/-- A text that is read and has no comments is its tokens with blanks between them. -/
theorem spaced_of_scan (h : Token.scan pos cs = .ok ts) (none : Uncommented cs) :
    Spaced [] pos cs ts := by
  replace h := scan_iff.1 h
  induction h with
  | nil => exact .nil
  | @blank pos c cs ts is _ ih =>
    have none : Uncommented ([c] ++ cs) := none
    exact .blank is (ih none.of_append)
  | line slash => exact absurd rfl (none.head? _ slash).1
  | block star => exact absurd rfl (none.head? _ star).2
  | token lexeme _ ih =>
    refine .token ?_ (ih none.of_append)
    rwa [List.append_nil]

end Token

end Catena
