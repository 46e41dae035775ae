import Catena.Text.Lines

/-!
# Tokens

A token is a piece of source text together with the byte offset where it begins.
-/

namespace Catena

/-- A piece of source text and where it begins. -/
structure Token where
  text : String
  pos : Nat
deriving DecidableEq, Repr

namespace Token

/-- A string literal of either kind. -/
def isQuoted (t : Token) : Bool :=
  match t.text.toList with
  | c :: _ => c == '\'' || c == '"'
  | [] => false

/-- A span between braces, braces included. -/
def isBrace (t : Token) : Bool :=
  t.text.toList.head? == some '{'

/-- The characters between the first and the last. -/
def inner (t : Token) : List Char :=
  t.text.toList.tail.dropLast

/-- Where the token begins in `source`. -/
def place (t : Token) (source : String) : Text.Place :=
  Text.position source t.pos

end Token

end Catena
