import Catena.Fault
import Catena.Op
import Catena.Text.Letter
import Catena.Text.Utf16

/-!
# Literals

Numbers, characters and strings as they stand in source text.
-/

namespace Catena.Literal

/-- A word that is read as a number: it begins with a digit, or with a minus sign and a digit. -/
def startsNumber (word : String) : Bool :=
  match word.toList with
  | '-' :: c :: _ => Text.isDigit c
  | c :: _ => Text.isDigit c
  | [] => false

/-- An integer, or two integers with a slash between them. -/
def number (word : String) : Except Fault Value := do
  let cs := word.toList
  let int (digits : List Char) : Except Fault Int64 :=
    match Text.parseInt64? digits with
    | some n => .ok n
    | none => .error (Fault.badNumber word)
  if cs.contains '/' then
    let num ← int (cs.takeWhile (· ≠ '/'))
    let den ← int ((cs.dropWhile (· ≠ '/')).drop 1)
    match Ratio.new? num den with
    | some r => .ok (.ratio r)
    | none => .error (Fault.badRatio word)
  else .ok (.int (← int cs))

/-- The character with a given name; each single character is its own name. -/
def charNamed? (name : List Char) : Option Char :=
  match name with
  | [c] => some c
  | _ =>
    if name = "space".toList then some ' '
    else if name = "tab".toList then some '\t'
    else if name = "newline".toList then some '\n'
    else none

/-- A character literal: a backslash and a name, or two backslashes and the name of a character of
one UTF-16 unit. -/
def character (word : String) : Except Fault Value :=
  let bad := .error (Fault.badCharacter word)
  match word.toList.drop 1 with
  | '\\' :: c :: cs =>
    match (charNamed? (c :: cs)).map Text.Utf16.encodeChar with
    | some [u] => .ok (.wchar u)
    | _ => bad
  | name =>
    match charNamed? name with
    | some c => .ok (.char c)
    | none => bad

/-! ## Strings -/

/-- A character of a variable name inside a string. -/
def isVarChar (c : Char) : Bool :=
  Text.isAlphanumeric c || c == '-' || c == '_'

/-- What a backslash and a character stand for. -/
def unescape (c : Char) : Char :=
  if c = 'n' then '\n' else if c = 'r' then '\r' else if c = 't' then '\t' else c

/-- A piece of a string literal. -/
inductive Piece
  | char (c : Char)
  | var (name : String) (literal : Bool)
deriving DecidableEq, Repr

/-- Whether a variable begins here. -/
def startsVar (plain : Bool) (c : Char) (cs : List Char) : Bool :=
  !plain && (c == '$' || c == '@') && cs.head?.any isVarChar

/-- The pieces of the characters between the quotes. A plain string has no variables. -/
def pieces (plain : Bool) : List Char → Except Fault (List Piece)
  | [] => .ok []
  | c :: cs =>
    if c = '\\' then
      match cs with
      | [] => .error Fault.danglingEscape
      | e :: cs => do return .char (unescape e) :: (← pieces plain cs)
    else if startsVar plain c cs then do
      let rest ← pieces plain (cs.dropWhile isVarChar)
      return .var (String.ofList (cs.takeWhile isVarChar)) (c == '@') :: rest
    else do return .char c :: (← pieces plain cs)
termination_by cs => cs.length
decreasing_by
  · simp only [List.length_cons]; omega
  · exact Nat.lt_succ_of_le (List.dropWhile_sublist _).length_le
  · simp

/-- Gathers neighbouring characters; `text` is the text being gathered, newest character first. -/
def gather (text : List Char) : List Piece → List FmtPart
  | [] => flush []
  | .char c :: rest => gather (c :: text) rest
  | .var name literal :: rest => flush (.var name literal :: gather [] rest)
where
  flush (after : List FmtPart) : List FmtPart :=
    if text.isEmpty then after else .text (String.ofList text.reverse) :: after

/-- The characters of pieces without variables. -/
def plainText (ps : List Piece) : List Char :=
  ps.filterMap fun p =>
    match p with
    | .char c => some c
    | .var .. => none

/-- A string literal: between double quotes a wide string, between single quotes a string in which
variables may stand. -/
def string (token : String) : Except Fault Op := do
  let cs := token.toList
  let wide := cs.head? == some '"'
  let ps ← pieces wide cs.tail.dropLast
  if wide then return .push (.wstr (Text.Utf16.encode (plainText ps)))
  if ps.all (· matches .char _) then return .push (.str (String.ofList (plainText ps)))
  return .fmt (gather [] ps)

end Catena.Literal
