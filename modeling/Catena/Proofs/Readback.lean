import Catena.Proofs.Compiling.Failed
import Catena.Proofs.Control.Histories
import Catena.Proofs.Literals.Strides

/-!
# Reading back what is shown

The literal form of a text or a character is a token of its own, which a new engine compiles to one
operation (`Engine.reads_back`). A text comes back as long as no variable would begin in it: the marks
`$` and `@` are written as they are. A character comes back unless it is an exclamation mark, behind
which a word is a jump.
-/

namespace Catena

namespace Literal

variable {c : Char} {cs : List Char}

/-- A variable begins somewhere in the text when it stands between single quotes as it is. -/
def Interpolates (cs : List Char) : Prop :=
  ∃ mark c, (mark = '$' ∨ mark = '@') ∧ isVarChar c = true ∧ [mark, c] <:+: cs

/-- The text as it is written between single quotes. -/
def escaped (cs : List Char) : List Char :=
  cs.flatMap (Store.escapeChar '\'')

theorem startsVar_iff : startsVar false c cs = true ↔
    ∃ d, (c = '$' ∨ c = '@') ∧ isVarChar d = true ∧ [c, d] <+: c :: cs := by
  cases cs <;> simp [startsVar, List.cons_prefix_cons]

theorem not_interpolates_nil : ¬ Interpolates [] := by
  rintro ⟨mark, c, -, -, inner⟩
  cases List.infix_nil.1 inner

/-- A variable begins at the front or further on. -/
theorem interpolates_cons : Interpolates (c :: cs) ↔ startsVar false c cs = true ∨ Interpolates cs := by
  rw [startsVar_iff]
  constructor
  · rintro ⟨mark, d, sign, var, inner⟩
    rcases List.infix_cons_iff.1 inner with front | later
    · obtain ⟨rfl, -⟩ := List.cons_prefix_cons.1 front
      exact .inl ⟨d, sign, var, front⟩
    · exact .inr ⟨mark, d, sign, var, later⟩
  · rintro (⟨d, sign, var, front⟩ | ⟨mark, d, sign, var, later⟩)
    · exact ⟨c, d, sign, var, front.isInfix⟩
    · exact ⟨mark, d, sign, var, List.infix_cons_iff.2 (.inr later)⟩

instance decidableInterpolates : DecidablePred Interpolates
  | [] => .isFalse not_interpolates_nil
  | _ :: cs =>
    have := decidableInterpolates cs
    decidable_of_iff _ interpolates_cons.symm

/-! ## Escapes -/

/-- A character is written with a backslash, or stands for itself. -/
theorem escapeChar_cases (c : Char) :
    (∃ e, Store.escapeChar '\'' c = ['\\', e] ∧ unescape e = c ∧ isVarChar c = false ∧
      (c == '$' || c == '@') = false) ∨
    (Store.escapeChar '\'' c = [c] ∧ c ≠ '\\' ∧ c ≠ '\'') := by
  by_cases special : c ∈ ['\n', '\r', '\t', '\\', '\'']
  · left
    simp only [List.mem_cons, List.not_mem_nil, or_false] at special
    rcases special with rfl | rfl | rfl | rfl | rfl
    · exact ⟨'n', by decide⟩
    · exact ⟨'r', by decide⟩
    · exact ⟨'t', by decide⟩
    · exact ⟨'\\', by decide⟩
    · exact ⟨'\'', by decide⟩
  · right
    simp only [List.mem_cons, List.not_mem_nil, or_false, not_or] at special
    obtain ⟨newline, ret, tab, backslash, quote⟩ := special
    exact ⟨by simp [Store.escapeChar, newline, ret, tab, backslash, quote], backslash, quote⟩

theorem escaped_cons (c : Char) (cs : List Char) :
    escaped (c :: cs) = Store.escapeChar '\'' c ++ escaped cs := rfl

/-- A character of a name begins the written text just when it begins the text. -/
theorem head?_escaped (cs : List Char) :
    (escaped cs).head?.any isVarChar = cs.head?.any isVarChar := by
  cases cs with
  | nil => rfl
  | cons c cs =>
    rw [escaped_cons]
    rcases escapeChar_cases c with ⟨e, written, -, var, -⟩ | ⟨written, -, -⟩
    · rw [written]
      simpa [var] using (by decide : isVarChar '\\' = false)
    · rw [written]
      rfl

theorem startsVar_escaped (c : Char) (cs : List Char) :
    startsVar false c (escaped cs) = startsVar false c cs := by
  simp only [startsVar, head?_escaped]

theorem dropWhile_escaped (cs : List Char) :
    (escaped cs).dropWhile isVarChar = escaped (cs.dropWhile isVarChar) := by
  induction cs with
  | nil => rfl
  | cons c cs ih =>
    rcases escapeChar_cases c with ⟨e, written, -, var, -⟩ | ⟨written, -, -⟩
    · have stays : isVarChar '\\' = false := by decide
      simp [escaped_cons, written, var, stays]
    · by_cases var : isVarChar c = true
      · simpa [escaped_cons, written, var] using ih
      · simp [escaped_cons, written, var]

/-- A written text is read as its characters, or has a variable in it. -/
theorem pieces_escaped (cs : List Char) : ∃ ps, pieces false (escaped cs) = .ok ps ∧
    (¬ Interpolates cs → ps = cs.map .char) ∧
    (Interpolates cs → ∃ name literal, .var name literal ∈ ps) := by
  induction h : cs.length using Nat.strongRecOn generalizing cs with
  | ind n ih =>
    subst h
    cases cs with
    | nil =>
      exact ⟨[], by rw [escaped, List.flatMap_nil, pieces], fun _ => rfl,
        fun inner => absurd inner not_interpolates_nil⟩
    | cons c cs =>
      rw [escaped_cons, interpolates_cons]
      rcases escapeChar_cases c with ⟨e, written, read, -, unmarked⟩ | ⟨written, other, -⟩
      · -- what is escaped begins no variable
        obtain ⟨ps, same, plain, marked⟩ := ih cs.length (Nat.lt_succ_self _) cs rfl
        have none : startsVar false c cs = false := by simp [startsVar, unmarked]
        refine ⟨.char c :: ps, ?_, fun inner => ?_, fun inner => ?_⟩
        · rw [written, List.cons_append, List.singleton_append, pieces_escape, same, read]
          rfl
        · rw [plain fun later => inner (.inr later), List.map_cons]
        · obtain ⟨name, literal, is⟩ := marked (inner.resolve_left (by simp [none]))
          exact ⟨name, literal, List.mem_cons_of_mem _ is⟩
      rw [written, List.singleton_append]
      by_cases starts : startsVar false c cs = true
      · have shorter : (cs.dropWhile isVarChar).length < (c :: cs).length :=
          Nat.lt_succ_of_le (List.dropWhile_sublist _).length_le
        obtain ⟨ps, same, -, -⟩ := ih _ shorter _ rfl
        refine ⟨.var (String.ofList ((escaped cs).takeWhile isVarChar)) (c == '@') :: ps, ?_,
          fun inner => absurd (.inl starts) inner, fun _ => ⟨_, _, List.mem_cons_self⟩⟩
        rw [pieces_var false other (by rwa [startsVar_escaped]), dropWhile_escaped, same]
        rfl
      · obtain ⟨ps, same, plain, marked⟩ := ih cs.length (Nat.lt_succ_self _) cs rfl
        refine ⟨.char c :: ps, ?_, fun inner => ?_, fun inner => ?_⟩
        · rw [pieces_char false other (by rwa [startsVar_escaped]), same]
          rfl
        · rw [plain fun later => inner (.inr later), List.map_cons]
        · obtain ⟨name, literal, is⟩ := marked (inner.resolve_left starts)
          exact ⟨name, literal, List.mem_cons_of_mem _ is⟩

theorem plainText_chars (cs : List Char) : plainText (cs.map .char) = cs := by
  rw [plainText, List.filterMap_map]
  exact List.filterMap_some

/-- The written text as a literal. -/
theorem string_quoted (cs : List Char) :
    (¬ Interpolates cs → string (Store.quoted '\'' cs) = .ok (.push (.str (String.ofList cs)))) ∧
    (Interpolates cs → ∃ parts, string (Store.quoted '\'' cs) = .ok (.fmt parts)) := by
  obtain ⟨ps, read, plain, marked⟩ := pieces_escaped cs
  have chars : (Store.quoted '\'' cs).toList = '\'' :: (escaped cs ++ ['\'']) := by
    simp [Store.quoted, escaped]
  have narrow : ((Store.quoted '\'' cs).toList.head? == some '"') = false := by simp [chars]
  have inner : pieces false (Store.quoted '\'' cs).toList.tail.dropLast = .ok ps := by
    rw [chars, List.tail_cons, List.dropLast_concat, read]
  constructor
  · intro none
    obtain rfl := plain none
    simp only [string, narrow, inner, Bind.bind, Except.bind, Bool.false_eq_true, if_false]
    rw [if_pos (by simp), plainText_chars]
    rfl
  · intro some
    obtain ⟨name, literal, is⟩ := marked some
    refine ⟨gather [] ps, ?_⟩
    simp only [string, narrow, inner, Bind.bind, Except.bind, Bool.false_eq_true, if_false]
    rw [if_neg]
    · rfl
    · intro all
      cases List.all_eq_true.1 all _ is

end Literal

/-! ## Tokens -/

namespace Token

/-- A text is written as one token. -/
theorem scan_quoted (cs : List Char) :
    scan 0 (Store.quoted '\'' cs).toList = .ok [⟨Store.quoted '\'' cs, 0⟩] :=
  scan_string (.inl rfl) cs

/-- A character is written as one token. -/
theorem scan_character (c : Char) : scan 0 ['\\', c] = .ok [ofChars ['\\', c] 0] := by
  have lexeme : Lexeme [] ['\\', c] :=
    .word (by decide) (by decide) (fun slash => absurd slash (by decide)) rfl parted_nil nofun
  have read := scan_lexeme lexeme 0
  rwa [List.append_nil, scan] at read

end Token

namespace Compile

theorem afterMark?_eq_none {mark : Char} {word : String} (front : word.toList.head? ≠ some mark) :
    afterMark? mark word = none := by
  rw [afterMark?]
  split
  next c d cs chars => exact if_neg fun same => front (by simp [chars, same])
  next => rfl

theorem beforeMark?_eq_none {mark : Char} {word : String} (back : word.toList.getLast? ≠ some mark) :
    beforeMark? mark word = none := by
  rw [beforeMark?]
  split
  next c d cs turned =>
    refine if_neg fun same => back ?_
    rw [← List.head?_reverse, turned, same]
    rfl
  next => rfl

/-- A quoted word stands for its literal. -/
theorem wordOp_string {quote : Char} (is : Token.IsQuote quote) (cs : List Char) (pos : Nat) :
    wordOp ⟨Store.quoted quote cs, pos⟩ = some (Literal.string (Store.quoted quote cs)) := by
  have written := Token.toList_quoted quote cs
  generalize Store.quoted quote cs = text at written ⊢
  have front (mark : Char) (other : quote ≠ mark) : afterMark? mark text = none :=
    afterMark?_eq_none (by simp [written, other])
  have other : quote ≠ '!' := is.ne (by decide)
  have back : beforeMark? '!' text = none := beforeMark?_eq_none (by simp [written, List.getLast?_cons, other])
  have quoted : Token.isQuoted ⟨text, pos⟩ = true := by
    simpa [Token.isQuoted, written, Token.IsQuote] using is
  simp [wordOp, front '@' (is.ne (by decide)), front '&' (is.ne (by decide)), back, quoted]

theorem wordOp_quoted (cs : List Char) (pos : Nat) :
    wordOp ⟨Store.quoted '\'' cs, pos⟩ = some (Literal.string (Store.quoted '\'' cs)) :=
  wordOp_string (.inl rfl) cs pos

/-- A backslash and a character stand for the character, unless that makes a jump of the word. -/
theorem wordOp_character (c : Char) (pos : Nat) : wordOp (Token.ofChars ['\\', c] pos) =
    some (.ok (if c = '!' then .jump "\\" none else .push (.char c))) := by
  have front (mark : Char) (other : '\\' ≠ mark) :
      afterMark? mark (Token.ofChars ['\\', c] pos).text = none :=
    afterMark?_eq_none (by simp [Token.text_ofChars, other])
  have quoted : (Token.ofChars ['\\', c] pos).isQuoted = false := by
    simp [Token.isQuoted, Token.ofChars]
  have starts : (Token.ofChars ['\\', c] pos).text.startsWith "\\" = true := by
    simp [Token.ofChars]
  have literal : Literal.character (Token.ofChars ['\\', c] pos).text = .ok (.char c) := by
    simp [Literal.character, Literal.charNamed?]
  have back : beforeMark? '!' (Token.ofChars ['\\', c] pos).text =
      if c = '!' then some "\\" else none := by
    rw [beforeMark?, Token.text_ofChars]
    rfl
  simp only [wordOp, front _ (by decide : '\\' ≠ '@'), front _ (by decide : '\\' ≠ '&'), back, quoted,
    starts, literal]
  split <;> rfl

/-! ## Whole texts -/

variable {c : Compiler} {t : Token} {op : Op}

/-- Operations of single tokens that stay as they are when no label is known. -/
inductive Lone : Op → Prop
  | push (v : Value) (tame : v.Tame) : Lone (.push v)
  | fmt (parts : List FmtPart) : Lone (.fmt parts)
  | jump (name : String) : Lone (.jump name none)

/-- A word or a string that is a literal by its shape is compiled to its operation. -/
theorem upTo_word (fuel : Nat) (begins : ∀ c ∈ t.text.toList.head?, Token.isDelimiter c = false)
    (word : wordOp t = some (.ok op)) : ∃ d, upTo (fuel + 2) none [t] c = .ok [] d ∧
      d.shared.registry = c.shared.registry ∧ d.shared.config = c.shared.config ∧
      d.ops = c.ops.push op ∧ d.funcs = c.funcs ∧ d.convs = c.convs := by
  have unbraced : t.isBrace = false := by
    refine eq_false_of_ne_true fun brace => ?_
    cases begins _ (beq_iff_eq.1 brace)
  have apart (c : Char) (sign : String) (front : sign.toList.head? = some c)
      (ends : Token.isDelimiter c = true) : t.text ≠ sign := by
    rintro rfl
    cases ends.symm.trans (begins c front)
  have emits : token (upTo (fuel + 1)) t [] = do emit op; return [] := by
    unfold token
    rw [if_neg (by simp [unbraced]), if_neg (apart '(' "(" rfl rfl), if_neg (apart '[' "[" rfl rfl),
      if_neg, if_neg (apart ';' ";" rfl rfl), word]
    · rfl
    · simpa using ⟨apart ')' ")" rfl rfl, apart ']' "]" rfl rfl⟩
  obtain ⟨d, emitted, registry, config, ops, funcs, convs⟩ : ∃ d, emit op c = .ok () d ∧
      d.shared.registry = c.shared.registry ∧ d.shared.config = c.shared.config ∧
      d.ops = c.ops.push op ∧ d.funcs = c.funcs ∧ d.convs = c.convs :=
    ⟨_, rfl, Run.note_registry _ _ _ _ _, (note_gains _ _ _ _ _).config, rfl, rfl, rfl⟩
  refine ⟨d, ?_, registry, config, ops, funcs, convs⟩
  rw [upTo, if_neg (by simp), emits]
  simp only [Bind.bind, EStateM.bind, located, emitted]
  rfl

/-- One round goes by without a change. -/
theorem settle_lone (lone : Lone op) (unlabelled : c.shared.registry.labels = ∅)
    (rounds : 0 < c.shared.config.compiler.maxPasses) : ∃ d, settle [op] c = .ok [op] d ∧
      d.shared.registry = c.shared.registry ∧ d.funcs = c.funcs ∧ d.convs = c.convs := by
  obtain ⟨left, passes⟩ := Nat.exists_eq_succ_of_ne_zero (Nat.ne_of_gt rounds)
  obtain ⟨n, named, labels⟩ : ∃ n, names [op] c = .ok n c ∧ ∀ name, n.label? name = none := by
    refine ⟨_, rfl, fun name => ?_⟩
    have own : namedLabels [op] = [] := by cases lone <;> rfl
    simp [own, unlabelled]
  have skips : addSkips [] [op] = .ok [op] := by cases lone <;> rfl
  have refreshed : n.refresh [] [op] = ([op], false) := by
    cases lone with
    | jump name => simp [Names.refresh, Names.refresh?, labels]
    | _ => rfl
  have rewritten (fold : Bool) : rewrite fold false [] [op] c = .ok ([op], false) c := by
    cases lone <;> cases fold <;> rfl
  simp only [settle, ask, skips, Compile.ofExcept, Bind.bind, EStateM.bind, Pure.pure, EStateM.pure, passes,
    Compile.rounds, named, refreshed, rewritten]
  exact ⟨_, rfl, Run.note_registry _ _ _ _ _, rfl, rfl⟩

/-- A text of one such word is a unit of one operation. -/
theorem source_word {text : String} (base : Nat) (scanned : Token.scan 0 text.toList = .ok [t])
    (begins : ∀ c ∈ t.text.toList.head?, Token.isDelimiter c = false)
    (word : wordOp t = some (.ok op)) (lone : Lone op) (fresh : c.ops = #[] ∧ c.funcs = [] ∧ c.convs = [])
    (unlabelled : c.shared.registry.labels = ∅) (rounds : 0 < c.shared.config.compiler.maxPasses) :
    ∃ d, source text base c = .ok ⟨[op], [], []⟩ d := by
  obtain ⟨c₁, read, registry₁, config₁, ops₁, funcs₁, convs₁⟩ : ∃ c₁, tokens text 0 c = .ok [t] c₁ ∧
      c₁.shared.registry = c.shared.registry ∧ c₁.shared.config = c.shared.config ∧
      c₁.ops = c.ops ∧ c₁.funcs = c.funcs ∧ c₁.convs = c.convs := by
    simp only [tokens, scanned, Compile.ofExcept, Bind.bind, EStateM.bind, Pure.pure, EStateM.pure, note,
      alter]
    exact ⟨_, rfl, (Run.note_registry _ _ _ _ _).trans (Run.note_registry _ _ _ _ _),
      ((note_gains _ _ _ _ _).trans (note_gains _ _ _ _ _)).config, rfl, rfl, rfl⟩
  obtain ⟨c₂, noted, registry₂, config₂, ops₂, funcs₂, convs₂⟩ : ∃ c₂,
      note .compiler .debug (fun _ => s!"compiling {[t].length} tokens at base {base}") c₁ = .ok () c₂ ∧
      c₂.shared.registry = c₁.shared.registry ∧ c₂.shared.config = c₁.shared.config ∧
      c₂.ops = c₁.ops ∧ c₂.funcs = c₁.funcs ∧ c₂.convs = c₁.convs :=
    ⟨_, rfl, Run.note_registry _ _ _ _ _, (note_gains _ _ _ _ _).config, rfl, rfl, rfl⟩
  obtain ⟨c₃, compiled, registry₃, config₃, ops₃, funcs₃, convs₃⟩ :=
    upTo_word (c := c₂) (2 * text.length) begins word
  have same : c₃.shared.registry = c.shared.registry := registry₃.trans (registry₂.trans registry₁)
  obtain ⟨c₄, settled, registry₄, funcs₄, convs₄⟩ := settle_lone (c := c₃) lone (by rw [same, unlabelled])
    (by rwa [config₃, config₂, config₁])
  have one : c₃.ops.toList = [op] := by rw [ops₃, ops₂, ops₁, fresh.1]; rfl
  have state : (get : Compile Compiler) c₃ = .ok c₃ c₃ := rfl
  have made : unplaced text base c = .ok [op] c₄ := by
    simp only [unplaced, Bind.bind, EStateM.bind, read, noted, compiled, state, one, settled]
  have free : c₄.shared.registry.checkLabels (namedLabels [op]) = .ok () := by cases lone <;> rfl
  obtain ⟨d, placing, -, -⟩ := source_placed made free
  have stays : (({} : Placement).ofOps base [op]).op op = op := by
    cases lone with
    | push v tame =>
      obtain ⟨ty, payload⟩ := v
      cases payload with
      | label l => exact absurd rfl (tame l)
      | _ => rfl
    | _ => rfl
  refine ⟨d, placing.trans ?_⟩
  simp only [placed, List.map_cons, List.map_nil, stays, funcs₄, convs₄, funcs₃, convs₃, funcs₂, convs₂,
    funcs₁, convs₁, fresh]

end Compile

/-! ## New engines -/

/-- The text compiles, and these are its operations. -/
def Machine.CompilesTo (m : Machine) (text : String) (ops : List Op) : Prop :=
  ∃ n, Run.compile text m = .ok m.thread.ops.size n ∧ n.thread.ops = m.thread.ops ++ ops.toArray

namespace Engine

variable {config : Config} {log : Log.Logger} {host : Host} {t : Token} {op : Op} {text : String}

/-- A text of one literal is compiled to its operation. -/
theorem compiles_literal (scanned : Token.scan 0 text.toList = .ok [t])
    (begins : ∀ c ∈ t.text.toList.head?, Token.isDelimiter c = false)
    (word : Compile.wordOp t = some (.ok op)) (lone : Compile.Lone op)
    (rounds : 0 < config.compiler.maxPasses) : (new config log host).CompilesTo text [op] := by
  have boot : bootRegistry.labels = ∅ := by rfl
  have unlabelled : (new config log host).shared.registry.labels = ∅ :=
    (new_gains config log host).registry.labels.trans boot
  have rounds : 0 < (new config log host).shared.config.compiler.maxPasses := by
    rwa [(new_gains config log host).config]
  generalize new config log host = m at unlabelled rounds ⊢
  obtain ⟨d, made⟩ := Compile.source_word (c := { shared := m.shared }) m.thread.ops.size scanned begins
    word lone ⟨rfl, rfl, rfl⟩ unlabelled rounds
  unfold Machine.CompilesTo
  rw [Run.compile_eq, made]
  exact ⟨_, rfl, rfl⟩

theorem compiles_word (scanned : Token.scan 0 text.toList = .ok [t])
    (begins : t.text.toList.head? = some '\'' ∨ t.text.toList.head? = some '\\')
    (word : Compile.wordOp t = some (.ok op)) (lone : Compile.Lone op)
    (rounds : 0 < config.compiler.maxPasses) : (new config log host).CompilesTo text [op] := by
  refine compiles_literal scanned ?_ word lone rounds
  rcases begins with front | front <;> simp [front] <;> rfl

/-- In a new engine the literal form of a text is compiled to one operation, which pushes the same text
again unless a variable would begin in it: then it is an interpolation. The literal form of a character
is compiled to a push of it, except that of an exclamation mark, which is a jump. -/
theorem reads_back (config : Config) (log : Log.Logger) (host : Host) (s : Store)
    (rounds : 0 < config.compiler.maxPasses) :
    (∀ t : String, ¬ Literal.Interpolates t.toList →
      (new config log host).CompilesTo (s.dump (.str t)) [.push (.str t)]) ∧
    (∀ t : String, Literal.Interpolates t.toList → ∃ parts,
      (new config log host).CompilesTo (s.dump (.str t)) [.fmt parts]) ∧
    (∀ c : Char, c ≠ '!' → (new config log host).CompilesTo (s.dump (.char c)) [.push (.char c)]) ∧
    (new config log host).CompilesTo (s.dump (.char '!')) [.jump "\\" none] := by
  have quote (t : String) : (Store.quoted '\'' t.toList).toList.head? = some '\'' := by simp [Store.quoted]
  have quoted (t : String) {op : Op} (literal : Literal.string (Store.quoted '\'' t.toList) = .ok op)
      (lone : Compile.Lone op) : (new config log host).CompilesTo (s.dump (.str t)) [op] :=
    compiles_word (Token.scan_quoted t.toList) (.inl (quote t))
      ((Compile.wordOp_quoted _ 0).trans (congrArg some literal)) lone rounds
  have character (c : Char) {op : Op}
      (same : op = if c = '!' then .jump "\\" none else .push (.char c)) :
      (new config log host).CompilesTo (s.dump (.char c)) [op] := by
    have chars : (s.dump (.char c)).toList = ['\\', c] := String.toList_ofList
    refine compiles_word (t := Token.ofChars ['\\', c] 0) ?_ (.inr ?_)
      ((Compile.wordOp_character c 0).trans (by rw [same])) ?_ rounds
    · rw [chars]
      exact Token.scan_character c
    · rw [Token.text_ofChars]
      rfl
    · rw [same]
      split
      · exact .jump _
      · exact .push _ fun _ is => by cases is
  refine ⟨fun t none => ?_, fun t some => ?_, fun c other => ?_, ?_⟩
  · have literal := (Literal.string_quoted t.toList).1 none
    rw [String.ofList_toList] at literal
    exact quoted t literal (.push _ fun _ is => by cases is)
  · obtain ⟨parts, literal⟩ := (Literal.string_quoted t.toList).2 some
    exact ⟨parts, quoted t literal (.fmt parts)⟩
  · exact character c (by rw [if_neg other])
  · exact character '!' rfl

theorem reads_back_marks : 0 < ({} : Config).compiler.maxPasses ∧
    (new {} .silent {}).CompilesTo "'it\\'s 5$\\n'" [.push (.str "it's 5$\n")] ∧
    (∃ parts, (new {} .silent {}).CompilesTo "'5$n'" [.fmt parts]) ∧
    (new {} .silent {}).CompilesTo "\\'" [.push (.char '\'')] ∧
    (new {} .silent {}).CompilesTo "\\!" [.jump "\\" none] := by
  obtain ⟨plain, marked, character, bang⟩ := reads_back {} .silent {} {} (by decide)
  exact ⟨by decide, plain "it's 5$\n" (by decide), marked "5$n" (by decide), character '\'' (by decide), bang⟩

end Engine

end Catena
