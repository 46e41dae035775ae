import Catena.Proofs.Compiling.Types
import Catena.Proofs.Tokens.Places

/-!
# What can be wrong with a token

The faults that compiling a token gives rise to, and what each of them says about the token
(`Token.Wrong`). None of them knows a place yet: each gets that of the token it is about
(`Token.Wrong.unplaced`).
-/

namespace Catena

/-- A fault of the compiler that has no place, and does not complain of the number of rounds. -/
structure Fault.Unplaced (f : Fault) : Prop where
  pos : f.pos = none
  kind : f.kind ≠ .passLimit

theorem Fault.locate_same {f : Fault} {pos : Nat} (h : f.pos ≠ none) : f.locate pos = f := by
  obtain ⟨kind, message, place⟩ := f
  cases place with
  | none => exact absurd rfl h
  | some => rfl

/-! ## Literals -/

namespace Literal

variable {f : Fault} {plain : Bool} {cs : List Char} {text : String}

theorem pieces_fault (h : pieces plain cs = .error f) : f = Fault.danglingEscape := by
  fun_induction pieces plain cs with
  | case1 => cases h
  | case2 => exact (Except.error.inj h).symm
  | case3 e cs ih => exact ih (map_fault h)
  | case4 c cs _ _ ih => exact ih (map_fault h)
  | case5 c cs _ _ ih => exact ih (map_fault h)

theorem string_fault (h : string text = .error f) : f = Fault.danglingEscape := by
  unfold string at h
  cases read : pieces (text.toList.head? == some '"') text.toList.tail.dropLast with
  | error g =>
    simp only [read] at h
    obtain rfl := Except.error.inj h
    exact pieces_fault read
  | ok ps =>
    simp only [read, Bind.bind, Except.bind] at h
    split at h
    · cases h
    split at h <;> cases h

theorem character_fault (h : character text = .error f) : f = Fault.badCharacter text := by
  unfold character at h
  dsimp only at h
  split at h
  · split at h
    · cases h
    · exact (Except.error.inj h).symm
  · split at h
    · cases h
    · exact (Except.error.inj h).symm

theorem number_fault (h : number text = .error f) : f = Fault.badNumber text ∨ f = Fault.badRatio text := by
  unfold number at h
  dsimp only at h
  split at h
  · split at h
    next num _ =>
      split at h
      next den _ =>
        simp only [Bind.bind, Except.bind] at h
        split at h
        · cases h
        · exact .inr (Except.error.inj h).symm
      next => exact .inl (Except.error.inj h).symm
    next => exact .inl (Except.error.inj h).symm
  · split at h
    · cases h
    · exact .inl (Except.error.inj h).symm

end Literal

/-- What a word that is no literal is refused with. -/
theorem Compile.wordOp_fault {t : Token} {f : Fault} (h : wordOp t = some (.error f)) : f.Unplaced := by
  have marked {make : String → Op} {read : Option String}
      (h : (read.map fun name => .ok (make name)) = some (Except.error (α := Op) f)) : f.Unplaced := by
    obtain ⟨name, -, made⟩ := Option.map_eq_some_iff.1 h
    cases made
  have pushed {x : Except Fault Value} (h : x.map Op.push = .error f) : x = .error f := by
    cases x with
    | error => exact congrArg Except.error (Except.error.inj h)
    | ok => cases h
  unfold wordOp at h
  rcases orElse_some h with h | h
  · exact marked h
  rcases orElse_some h with h | h
  · exact marked h
  rcases orElse_some h with h | h
  · exact marked h
  rcases orElse_some h with h | h
  · split at h
    · obtain rfl := Literal.string_fault (Option.some.inj h)
      exact ⟨rfl, nofun⟩
    · cases h
  rcases orElse_some h with h | h
  · split at h
    · obtain rfl := Literal.character_fault (pushed (Option.some.inj h))
      exact ⟨rfl, nofun⟩
    · cases h
  rcases orElse_some h with h | h
  · exact marked h
  rcases orElse_some h with h | h
  · split at h
    · obtain rfl | rfl := Literal.number_fault (pushed (Option.some.inj h)) <;> exact ⟨rfl, nofun⟩
    · cases h
  · exact marked h

/-! ## Types as they are written -/

namespace TypeExpr

variable {whole : String} {c : Cursor} {f : Fault}

/-- A fault of the reader of type expressions. -/
def Misread (whole : String) (f : Fault) : Prop :=
  ∃ what pos, f = Fault.badTypeExpr whole what pos

theorem index_fault (h : index whole c = .error f) : Misread whole f := by
  unfold index at h
  dsimp only at h
  split at h
  · cases h
  · exact ⟨_, _, (Except.error.inj h).symm⟩

theorem reference_fault (h : reference whole c = .error f) : Misread whole f := by
  unfold reference at h
  split at h
  next read =>
    obtain rfl := Except.error.inj h
    exact index_fault read
  next =>
    dsimp only at h
    split at h
    next =>
      split at h
      next read =>
        obtain rfl := Except.error.inj h
        exact index_fault read
      next => cases h
    next => cases h

theorem expr_fault {n : Nat} (each : ∀ c : Cursor, c.rest.length < n → ∀ f, exprs whole c = .error f →
      Misread whole f) (short : c.rest.length ≤ n) (h : expr whole c = .error f) : Misread whole f := by
  rw [expr.eq_def] at h
  split at h
  next => exact ⟨_, _, (Except.error.inj h).symm⟩
  next a cs front =>
  split at h
  next =>
    split at h
    next read =>
      obtain rfl := Except.error.inj h
      exact reference_fault read
    next => cases h
  next =>
  split at h
  next is =>
    have shorter := skipWhile_name_lt front is
    dsimp only at h
    split at h
    next rest behind =>
      rw [behind, List.length_cons] at shorter
      split at h
      next read =>
        obtain rfl := Except.error.inj h
        exact each _ (by simp only; omega) _ read
      next =>
        split at h
        next => cases h
        next => exact ⟨_, _, (Except.error.inj h).symm⟩
    next => cases h
  next => exact ⟨_, _, (Except.error.inj h).symm⟩

theorem exprs_fault (n : Nat) (c : Cursor) (short : c.rest.length < n) (f : Fault)
    (h : exprs whole c = .error f) : Misread whole f := by
  induction n generalizing c f with
  | zero => omega
  | succ n ih =>
    rw [exprs.eq_def] at h
    split at h
    next read =>
      obtain rfl := Except.error.inj h
      exact expr_fault ih (Nat.le_of_lt_succ short) read
    next d closer read =>
      split at h
      next rest behind =>
        split at h
        next read' =>
          obtain rfl := Except.error.inj h
          rw [behind, List.length_cons] at closer
          exact ih _ (by simp only; omega) _ read'
        next => cases h
      next => cases h

/-- A type expression is refused as a whole. -/
theorem parse_fault (h : parse whole = .error f) : Misread whole f := by
  unfold parse at h
  split at h
  next read =>
    obtain rfl := Except.error.inj h
    exact expr_fault (exprs_fault _) (Nat.le_refl _) read
  next =>
    split at h
    next => cases h
    next => exact ⟨_, _, (Except.error.inj h).symm⟩

end TypeExpr

theorem Registry.instantiateNamed_fault {r : Registry} {name : String} {args : List Ty} {f : Fault}
    (h : r.instantiateNamed name args = .error f) : f.Unplaced := by
  unfold instantiateNamed at h
  split at h
  · obtain rfl := Except.error.inj h
    exact ⟨rfl, nofun⟩
  unfold instantiate at h
  split at h
  · obtain rfl := Except.error.inj h
    exact ⟨rfl, nofun⟩
  split at h
  · obtain rfl := Except.error.inj h
    exact ⟨rfl, nofun⟩
  · cases h

namespace TypeExpr

mutual

theorem resolve_fault (r : Registry) {f : Fault} : (e : TypeExpr) → (e.resolve r).1 = .error f → f.Unplaced
  | .named name, h => by
    rw [resolve] at h
    split at h
    · cases h
    · obtain rfl := Except.error.inj h
      exact ⟨rfl, nofun⟩
  | .generic name args, h => by
    rw [resolve] at h
    split at h
    · rename_i each
      obtain rfl := Except.error.inj h
      exact resolveEach_fault r args (congrArg Prod.fst each)
    · split at h
      · cases h
      · rename_i failed
        obtain rfl := Except.error.inj h
        exact Registry.instantiateNamed_fault failed
  | .same n, h => by
    rw [resolve] at h
    obtain rfl := Except.error.inj h
    exact ⟨rfl, nofun⟩
  | .argOf n k, h => by
    rw [resolve] at h
    obtain rfl := Except.error.inj h
    exact ⟨rfl, nofun⟩

theorem resolveEach_fault (r : Registry) {f : Fault} : (es : List TypeExpr) →
    (resolveEach r es).1 = .error f → f.Unplaced
  | [], h => by rw [resolveEach] at h; cases h
  | e :: es, h => by
    rw [resolveEach] at h
    split at h
    · rename_i one
      obtain rfl := Except.error.inj h
      exact resolve_fault r e (congrArg Prod.fst one)
    · split at h
      · rename_i each
        obtain rfl := Except.error.inj h
        exact resolveEach_fault _ es (congrArg Prod.fst each)
      · cases h

end

/-- What an argument asks for is refused as the type it names. -/
theorem toArg_fault {r : Registry} {e : TypeExpr} {f : Fault} (h : (e.toArg r).1 = .error f) :
    (e.resolve r).1 = .error f := by
  unfold toArg at h
  split at h
  · cases h
  · cases h
  · split at h
    · cases h
    · rename_i failed
      rw [failed]
      exact congrArg Except.error (Except.error.inj h)

/-- The first expression is the second, or a part of it. -/
inductive Part (part : TypeExpr) : TypeExpr → Prop
  | whole : Part part part
  | arg {name : String} {args : List TypeExpr} {e : TypeExpr} : e ∈ args → Part part e →
      Part part (.generic name args)

theorem Part.trans {a b e : TypeExpr} (h : Part a b) (k : Part b e) : Part a e := by
  induction k with
  | whole => exact h
  | arg member _ ih => exact .arg member ih

end TypeExpr

/-! ## Tokens -/

/-- The forms whose body goes on to a semicolon. -/
def Macro.hasBody : Macro → Bool
  | func | binding | conv | test | attempt | unrestricted | defer => true
  | struct | word _ | exit _ | host _ => false

/-- The fault is about the token: what it complains of is what the token says, or what is missing
behind the token that begins a block or a form. -/
inductive Token.Wrong (t : Token) : Fault → Prop
  | unmatched : t.text = ")" ∨ t.text = "]" → Wrong t (Fault.unmatched t.text)
  | semicolon : t.text = ";" → Wrong t Fault.unexpectedSemicolon
  | unclosed {closing : String} : (t.text = "(" ∧ closing = ")") ∨ (t.text = "[" ∧ closing = "]") →
      Wrong t (Fault.missingClosing closing)
  | unended {m : Macro} : (t.text, m) ∈ Macro.builtins → m.hasBody = true →
      Wrong t Fault.missingSemicolon
  | expects {what : String} : Wrong t (Fault.expects t.text what)
  | literal {f : Fault} : Compile.wordOp t = some (.error f) → Wrong t f
  | misread {f : Fault} : TypeExpr.parse t.text = .error f → Wrong t f
  | type {e : TypeExpr} {r : Registry} {f : Fault} : TypeExpr.parse t.text = .ok e →
      (e.resolve r).1 = .error f → Wrong t f
  | signatureOnly {e part : TypeExpr} : TypeExpr.parse t.text = .ok e → TypeExpr.Part part e →
      Wrong t (Fault.signatureOnly part.text)
  | reference {e : TypeExpr} {arity : Nat} : TypeExpr.parse t.text = .ok e →
      Wrong t (Fault.malformed s!"'{e.text}' refers past the {arity} declared argument(s)")
  | opening {name : String} : t.text ≠ "(" →
      Wrong t (Fault.malformed s!"'func: {name}' expects '(' before its arguments")
  | binding : (t.text = ";" || t.isQuoted || t.isBrace) = true →
      Wrong t (Fault.malformed s!"'{t.text}' is not a valid binding name")
  | message : t.isQuoted = false → Wrong t (Fault.expects "test:" "a quoted message")
  | field : Wrong t (Fault.malformed s!"bad or duplicate field '{t.text}'")
  | taken : Wrong t (Fault.typeTaken t.text)

theorem Token.Wrong.unplaced {t : Token} {f : Fault} (h : t.Wrong f) : f.Unplaced := by
  cases h with
  | literal word => exact Compile.wordOp_fault word
  | misread read =>
    obtain ⟨what, pos, rfl⟩ := TypeExpr.parse_fault read
    exact ⟨rfl, nofun⟩
  | type _ resolved => exact TypeExpr.resolve_fault _ _ resolved
  | _ => exact ⟨rfl, nofun⟩

end Catena
