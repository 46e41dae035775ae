import Catena.Text.Blank

/-!
# Lines of a text

Where a byte offset lies (`position`), the lines of a text, and the groups of lines that blank
lines separate, which an interactive session runs one after the other.
-/

namespace Catena.Text

/-- A place in a text, both numbers counted from 1, columns in characters. -/
structure Place where
  line : Nat
  column : Nat
deriving DecidableEq, Repr

/-- The place after reading one more character. -/
def Place.advance (p : Place) (c : Char) : Place :=
  if c = '\n' then ⟨p.line + 1, 1⟩ else ⟨p.line, p.column + 1⟩

/-- Walks over the characters that begin before byte `target`, from byte `pos` on. -/
def walkTo (target : Nat) : (pos : Nat) → Place → List Char → Place
  | _, at', [] => at'
  | pos, at', c :: cs =>
    if pos < target then walkTo target (pos + c.utf8Size) (at'.advance c) cs else at'

/-- The place of the byte offset `target`; an offset past the end gives the end. -/
def position (text : String) (target : Nat) : Place :=
  walkTo target 0 ⟨1, 1⟩ text.toList

/-- Drops one carriage return from the end of a line. -/
def dropReturn (line : List Char) : List Char :=
  if line.getLast? = some '\r' then line.dropLast else line

/-- Splits at line feeds; the line being read is `current`, newest character first. A line ended by
a line feed loses a carriage return before it. -/
def linesFrom (current : List Char) : List Char → List (List Char)
  | [] => if current.isEmpty then [] else [current.reverse]
  | c :: cs =>
    if c = '\n' then dropReturn current.reverse :: linesFrom [] cs else linesFrom (c :: current) cs

/-- The lines of a text, without their ends. A line feed at the very end starts no further line. -/
def lines (text : String) : List String :=
  (linesFrom [] text.toList).map String.ofList

/-- A line of blanks only. -/
def isBlankLine (line : String) : Bool :=
  line.toList.all isBlank

/-- Gathers lines into groups; `current` is the group being read, newest line first. -/
def groupsFrom (current : List String) : List String → List (List String)
  | [] => if current.isEmpty then [] else [current.reverse]
  | line :: rest =>
    if isBlankLine line then
      if current.isEmpty then groupsFrom [] rest else current.reverse :: groupsFrom [] rest
    else groupsFrom (line :: current) rest

/-- The groups of lines between blank lines, each as one text. -/
def groups (text : String) : List String :=
  (groupsFrom [] (lines text)).map (String.intercalate "\n")

end Catena.Text
