import Catena.Compiler.Forms
import Catena.Proofs.Tokens.Comments

/-!
# Which tokens are compiled

Tokens are compiled one after the other, except that a form takes some of those behind its keyword as
words: a name, a signature, the fields of a structure. Two sources are compiled alike if their tokens
have the same texts, but for spans whose turn it is to be compiled: those are alike inside (`Alike`).
-/

namespace Catena.Compile

open Token (SameTexts scan)

/-- The form of a keyword, which may carry a depth. -/
def keyword (macros : Dict String Macro) (word : String) : Option Macro :=
  match macros.find? word with
  | some m => some m
  | none => (splitDepth word).bind fun (base, _) => (macros.find? base).filter Macro.takesDepth

/-- The form that a token begins when it is its turn. -/
def formOf (macros : Dict String Macro) (t : Token) : Option Macro :=
  if t.isBrace || ["(", "[", ")", "]", ";"].contains t.text || (wordOp t).isSome ||
      TypeExpr.looksGeneric t.text then none
  else keyword macros t.text

/-- A part of what a form takes as it is written. -/
inductive Part
  | word
  /-- Everything up to a closing word. -/
  | upTo (closing : String)
  /-- A safety level, which may be left out. -/
  | level

/-- What a form takes as it is written. -/
def header : Option Macro → List Part
  | some .func => [.word, .word, .upTo ")", .level]
  | some .binding | some .test => [.word]
  | some .struct => [.word, .upTo ";"]
  | some .conv => [.word, .word]
  | some (.host take) => List.replicate take .word
  | _ => []

/-- The safety level written at the front. -/
def level? (ts : List Token) : Option Safety :=
  ts.head?.bind fun t => Safety.ofName? t.text

/-! ## What is taken on both sides -/

section

variable (R : List Token → List Token → Prop)

/-- The same word on both sides, and `R` behind it. -/
inductive Next : List Token → List Token → Prop
  | nil : Next [] []
  | cons {t t' : Token} {ts ts' : List Token} : t.text = t'.text → R ts ts' →
      Next (t :: ts) (t' :: ts')

/-- The same words up to the closing one. -/
inductive Until (closing : String) : List Token → List Token → Prop
  | nil : Until closing [] []
  | close {t t' : Token} {ts ts' : List Token} : t.text = t'.text → t.text = closing → R ts ts' →
      Until closing (t :: ts) (t' :: ts')
  | more {t t' : Token} {ts ts' : List Token} : t.text = t'.text → t.text ≠ closing →
      Until closing ts ts' → Until closing (t :: ts) (t' :: ts')

/-- The same safety level, if one is written. -/
inductive Level : List Token → List Token → Prop
  | none {ts ts' : List Token} : level? ts = none → level? ts' = none → R ts ts' → Level ts ts'
  | some {t t' : Token} {ts ts' : List Token} : t.text = t'.text →
      (Safety.ofName? t.text).isSome → R ts ts' → Level (t :: ts) (t' :: ts')

end

/-- The same words as far as they are taken, and `R` behind those. -/
def Heads (R : List Token → List Token → Prop) : List Part → List Token → List Token → Prop
  | [] => R
  | .word :: parts => Next (Heads R parts)
  | .upTo closing :: parts => Until (Heads R parts) closing
  | .level :: parts => Level (Heads R parts)

variable {R : List Token → List Token → Prop} {parts : List Part} {t : Token}
  {ts ts' us vs vs' : List Token}

/-- What is the same is so as far as a form takes it and behind that. -/
theorem heads_same (parts : List Part) (h : SameTexts ts ts') : Heads SameTexts parts ts ts' := by
  induction parts generalizing ts ts' with
  | nil => exact h
  | cons part parts ih =>
    cases part with
    | word =>
      cases h with
      | nil => exact .nil
      | cons text rest => exact .cons text (ih rest)
    | upTo closing =>
      induction h with
      | nil => exact .nil
      | @cons t _ _ _ text rest ihs =>
        by_cases closes : t.text = closing
        · exact .close text closes (ih rest)
        · exact .more text closes ihs
    | level =>
      cases h with
      | nil => exact .none rfl rfl (ih .nil)
      | @cons t t' _ _ text rest =>
        cases written : Safety.ofName? t.text with
        | none => exact .none written (by rw [← written, text]; rfl) (ih (.cons text rest))
        | some => exact .some text (by rw [written]; rfl) (ih rest)

/-! ## Whose turn it is -/

/-- What is left behind the closing word. -/
def behind? (closing : String) : List Token → Option (List Token)
  | [] => none
  | t :: ts => if t.text = closing then some ts else behind? closing ts

/-- What is left behind the words that are taken. -/
def past? : List Part → List Token → Option (List Token)
  | [], ts => some ts
  | .word :: _, [] => none
  | .word :: parts, _ :: ts => past? parts ts
  | .upTo closing :: parts, ts => (behind? closing ts).bind (past? parts)
  | .level :: parts, ts => past? parts (if (level? ts).isSome then ts.drop 1 else ts)

/-- Behind these tokens it is the next one's turn: no form among them still takes words. -/
inductive Turn (forms : Token → Option Macro) : List Token → Prop
  | nil : Turn forms []
  | form {t : Token} {ts us : List Token} : past? (header (forms t)) ts = some us → Turn forms us →
      Turn forms (t :: ts)

theorem until_behind {closing : String} (h : behind? closing ts = some us)
    (rest : R (us ++ vs) (us ++ vs')) : Until R closing (ts ++ vs) (ts ++ vs') := by
  induction ts with
  | nil => cases h
  | cons t ts ih =>
    rw [behind?] at h
    split at h
    next closes =>
      obtain rfl := Option.some.inj h
      exact .close rfl closes rest
    next goes => exact .more rfl goes (ih h)

/-- Two sources that go on differently behind the words taken have the same words there. -/
theorem heads_past (h : past? parts ts = some us) (plain : level? vs = none)
    (plain' : level? vs' = none) (rest : R (us ++ vs) (us ++ vs')) :
    Heads R parts (ts ++ vs) (ts ++ vs') := by
  induction parts generalizing ts with
  | nil =>
    obtain rfl := Option.some.inj h
    exact rest
  | cons part parts ih =>
    cases part with
    | word =>
      cases ts with
      | nil => cases h
      | cons t ts => exact .cons rfl (ih h)
    | upTo closing =>
      obtain ⟨ws, behind, h⟩ := Option.bind_eq_some_iff.1 h
      exact until_behind behind (ih h)
    | level =>
      cases ts with
      | nil => exact .none plain plain' (ih h)
      | cons t ts =>
        rw [past?] at h
        split at h
        next written => exact .some rfl written (ih h)
        next unwritten =>
          have none : level? (t :: ts) = none := Option.not_isSome_iff_eq_none.1 unwritten
          exact .none none none (ih h)

/-! ## Sources that are compiled alike -/

/-- Tokens that are compiled alike: they have the same texts, but that spans whose turn it is have
tokens in them that are compiled alike. -/
inductive Alike (forms : Token → Option Macro) : List Token → List Token → Prop
  | same {ts ts' : List Token} : SameTexts ts ts' → Alike forms ts ts'
  | span {s s' : Token} {ts ts' us us' : List Token} : s.isBrace = true → s'.isBrace = true →
      scan (s.pos + 1) s.inner = .ok us → scan (s'.pos + 1) s'.inner = .ok us' →
      Alike forms us us' → Alike forms ts ts' → Alike forms (s :: ts) (s' :: ts')
  | form {t t' : Token} {ts ts' : List Token} (R : List Token → List Token → Prop) :
      t.text = t'.text → Heads R (header (forms t)) ts ts' →
      (∀ us us', R us us' → Alike forms us us') → Alike forms (t :: ts) (t' :: ts')

/-- Behind tokens that leave the next one its turn, sources may go on alike. -/
theorem Turn.alike {forms : Token → Option Macro} (h : Turn forms ts) (plain : level? vs = none)
    (plain' : level? vs' = none) (rest : Alike forms vs vs') :
    Alike forms (ts ++ vs) (ts ++ vs') := by
  induction h with
  | nil => exact rest
  | form past _ ih => exact .form _ rfl (heads_past past plain plain' ih) fun _ _ => id

end Catena.Compile
