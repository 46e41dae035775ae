import Catena.Fault
import Catena.Registry
import Catena.Text.Letter
import Catena.Text.Number
import Catena.Text.Utf8

/-!
# Type expressions

The notation for types: a name, a name with arguments between angle brackets, or, in the signature
of a function, a reference to the type of an argument (`%0`) or to one of its type arguments
(`%0.1`).
-/

namespace Catena

/-- A type as written. -/
inductive TypeExpr
  | named (name : String)
  | generic (name : String) (args : List TypeExpr)
  /-- The type of argument `n`. -/
  | same (n : Nat)
  /-- The `k`-th type argument of the type of argument `n`. -/
  | argOf (n k : Nat)
deriving Repr, Inhabited

namespace TypeExpr

mutual

/-- The expression as text. -/
def text : TypeExpr → String
  | named name => name
  | generic name args => name ++ "<" ++ String.intercalate "," (texts args) ++ ">"
  | same n => s!"%{n}"
  | argOf n k => s!"%{n}.{k}"

/-- Each of the expressions as text. -/
def texts : List TypeExpr → List String
  | [] => []
  | e :: es => text e :: texts es

end

/-- Whether a word looks like a name with arguments. -/
def looksGeneric (word : String) : Bool :=
  match word.toList with
  | [] => false
  | c :: cs =>
    Text.isAlphabetic c && (c :: cs).contains '<' && (c :: cs).getLast? == some '>'

/-! ## Reading -/

/-- A place in the text that is being read. -/
structure Cursor where
  rest : List Char
  pos : Nat

/-- A character that is part of a name. -/
def isNameChar (c : Char) : Bool :=
  !(c == '<' || c == '>' || c == ',')

/-- Moves the cursor past the characters at the front that satisfy `p`. -/
def Cursor.skipWhile (p : Char → Bool) (c : Cursor) : Cursor :=
  ⟨c.rest.dropWhile p, c.pos + Text.Utf8.size (c.rest.takeWhile p)⟩

/-- A cursor that has fewer characters before it. -/
abbrev After (c : Cursor) := { d : Cursor // d.rest.length < c.rest.length }

/-- Reads an index, which `whole` is the complete text around. -/
def index (whole : String) (c : Cursor) : Except Fault (Nat × Cursor) :=
  let next := c.skipWhile Text.isDigit
  match Text.index? (c.rest.takeWhile Text.isDigit) with
  | some n => .ok (n, next)
  | none => .error (Fault.badTypeExpr whole "expected an argument index" next.pos)

theorem length_skipWhile (p : Char → Bool) (c : Cursor) :
    (c.skipWhile p).rest.length ≤ c.rest.length :=
  (List.dropWhile_sublist _).length_le

theorem index_length {whole : String} {c d : Cursor} {n : Nat} (h : index whole c = .ok (n, d)) :
    d.rest.length ≤ c.rest.length := by
  unfold index at h
  simp only at h
  split at h
  · injection h with h; injection h with _ h; subst h; exact length_skipWhile _ c
  · contradiction

theorem skipWhile_name_lt {c : Cursor} {a : Char} {cs : List Char} (hc : c.rest = a :: cs)
    (ha : isNameChar a = true) : (c.skipWhile isNameChar).rest.length < c.rest.length := by
  have h : (c.skipWhile isNameChar).rest = cs.dropWhile isNameChar := by
    simp [Cursor.skipWhile, hc, ha]
  have : (cs.dropWhile isNameChar).length ≤ cs.length := (List.dropWhile_sublist _).length_le
  rw [h, hc, List.length_cons]; omega

/-- Reads a reference to an argument, after the percent sign. -/
def reference (whole : String) (c : Cursor) :
    Except Fault (TypeExpr × { d : Cursor // d.rest.length ≤ c.rest.length }) :=
  match h : index whole c with
  | .error f => .error f
  | .ok (n, d) =>
    have hd : d.rest.length ≤ c.rest.length := index_length h
    match hr : d.rest with
    | '.' :: rest =>
      match h' : index whole ⟨rest, d.pos + 1⟩ with
      | .error f => .error f
      | .ok (k, e) =>
        have he : e.rest.length ≤ c.rest.length := by
          have := index_length h'
          rw [hr] at hd
          simp only [List.length_cons] at hd
          simp only at this
          omega
        .ok (argOf n k, ⟨e, he⟩)
    | _ => .ok (same n, ⟨d, hd⟩)

mutual

/-- Reads one expression. -/
def expr (whole : String) (c : Cursor) : Except Fault (TypeExpr × After c) :=
  match hr : c.rest with
  | [] => .error (Fault.badTypeExpr whole "expected a type name" c.pos)
  | a :: cs =>
    if a = '%' then
      match reference whole ⟨cs, c.pos + 1⟩ with
      | .error f => .error f
      | .ok (e, ⟨d, hd⟩) => .ok (e, ⟨d, by rw [hr]; simp only [List.length_cons] at *; omega⟩)
    else if ha : isNameChar a = true then
      let next := c.skipWhile isNameChar
      have hn : next.rest.length < c.rest.length := skipWhile_name_lt hr ha
      let name := String.ofList (c.rest.takeWhile isNameChar)
      match hn' : next.rest with
      | '<' :: rest =>
        have hrest : rest.length + 1 < c.rest.length := by
          rw [hn'] at hn; simpa using hn
        match exprs whole ⟨rest, next.pos + 1⟩ with
        | .error f => .error f
        | .ok (args, ⟨d, hd⟩) =>
          match hd' : d.rest with
          | '>' :: rest' =>
            .ok (generic name args,
              ⟨⟨rest', d.pos + 1⟩, by
                rw [hd'] at hd; simp only [List.length_cons] at *; omega⟩)
          | _ => .error (Fault.badTypeExpr whole "expected '>'" d.pos)
      | _ => .ok (named name, ⟨next, hn⟩)
    else .error (Fault.badTypeExpr whole "expected a type name" c.pos)
termination_by 2 * c.rest.length

/-- Reads expressions with commas between them. -/
def exprs (whole : String) (c : Cursor) : Except Fault (List TypeExpr × After c) :=
  match expr whole c with
  | .error f => .error f
  | .ok (e, ⟨d, hd⟩) =>
    match hr : d.rest with
    | ',' :: rest =>
      match exprs whole ⟨rest, d.pos + 1⟩ with
      | .error f => .error f
      | .ok (es, ⟨d', hd'⟩) =>
        .ok (e :: es, ⟨d', by rw [hr] at hd; simp only [List.length_cons] at *; omega⟩)
    | _ => .ok ([e], ⟨d, hd⟩)
termination_by 2 * c.rest.length + 1
decreasing_by
  · omega
  · rw [hr] at hd; simp only [List.length_cons] at *; omega

end

/-- Reads a whole text as one expression. -/
def parse (whole : String) : Except Fault TypeExpr :=
  match expr whole ⟨whole.toList, 0⟩ with
  | .error f => .error f
  | .ok (e, ⟨d, _⟩) =>
    if d.rest.isEmpty then .ok e
    else .error (Fault.badTypeExpr whole "trailing characters" d.pos)

/-! ## Meaning -/

mutual

/-- The type an expression stands for; instances are made as needed. -/
def resolve (r : Registry) : TypeExpr → Except Fault Ty × Registry
  | named name =>
    match r.types.find? name with
    | some t => (.ok t, r)
    | none => (.error (Fault.unknownType name), r)
  | generic name args =>
    match resolveEach r args with
    | (.error f, r) => (.error f, r)
    | (.ok ts, r) =>
      match r.instantiateNamed name ts with
      | .ok (t, r) => (.ok t, r)
      | .error f => (.error f, r)
  | same n => (.error (Fault.signatureOnly (same n).text), r)
  | argOf n k => (.error (Fault.signatureOnly (argOf n k).text), r)

/-- The types of several expressions, from the left. -/
def resolveEach (r : Registry) : List TypeExpr → Except Fault (List Ty) × Registry
  | [] => (.ok [], r)
  | e :: es =>
    match resolve r e with
    | (.error f, r) => (.error f, r)
    | (.ok t, r) =>
      match resolveEach r es with
      | (.error f, r) => (.error f, r)
      | (.ok ts, r) => (.ok (t :: ts), r)

end

/-- What an expression asks of an argument. -/
def toArg (r : Registry) (e : TypeExpr) : Except Fault Arg × Registry :=
  match e with
  | same n => (.ok (.same n), r)
  | argOf n k => (.ok (.typeArg n k), r)
  | e =>
    match resolve r e with
    | (.ok t, r) => (.ok (.type t), r)
    | (.error f, r) => (.error f, r)

end TypeExpr

end Catena
