import Catena.Dict
import Catena.Text.Number
import Catena.Text.Utf16

/-!
# JSON

Reading JSON texts and writing strings as JSON. Numbers are kept as written, members of an object in
their order with all their repetitions, and strings as UTF-16 units that need not make up a text,
so that whoever looks at a value decides what to accept.
-/

namespace Catena

/-- A JSON value. -/
inductive Json
  | null
  | bool (b : Bool)
  | number (text : List Char)
  | string (units : List UInt16)
  | array (items : List Json)
  | object (members : List (List UInt16 × Json))
deriving Inhabited

namespace Json

/-! ## Writing -/

/-- A character of a JSON string: quotes, backslashes and control characters are escaped. -/
def escapeChar (c : Char) : String :=
  if c = '"' then "\\\""
  else if c = '\\' then "\\\\"
  else if c = '\n' then "\\n"
  else if c = '\r' then "\\r"
  else if c = '\t' then "\\t"
  else if c = '\x08' then "\\b"
  else if c = '\x0c' then "\\f"
  else if c.toNat < 32 then
    "\\u00" ++ String.ofList [Nat.digitChar (c.toNat / 16), Nat.digitChar (c.toNat % 16)]
  else String.singleton c

/-- A text as a JSON string. -/
def quote (text : String) : String :=
  "\"" ++ String.join (text.toList.map escapeChar) ++ "\""

/-! ## Reading -/

/-- What JSON counts as blank. -/
def isBlank (c : Char) : Bool :=
  c == ' ' || c == '\n' || c == '\r' || c == '\t'

/-- Skips blanks. -/
def skip (cs : List Char) : List Char :=
  cs.dropWhile isBlank

/-- The value of a hexadecimal digit. -/
def hexDigit? (c : Char) : Option Nat :=
  if '0' ≤ c && c ≤ '9' then some (c.toNat - '0'.toNat)
  else if 'a' ≤ c && c ≤ 'f' then some (c.toNat - 'a'.toNat + 10)
  else if 'A' ≤ c && c ≤ 'F' then some (c.toNat - 'A'.toNat + 10)
  else none

/-- The unit that four hexadecimal digits stand for. -/
def unit? (a b c d : Char) : Option UInt16 := do
  return (((← hexDigit? a) * 16 + (← hexDigit? b)) * 16 + (← hexDigit? c)) * 16 + (← hexDigit? d)
    |>.toUInt16

/-- What a backslash and a character stand for. -/
def unescape? (c : Char) : Option Char :=
  if c = '"' || c = '\\' || c = '/' then some c
  else if c = 'b' then some '\x08'
  else if c = 'f' then some '\x0c'
  else if c = 'n' then some '\n'
  else if c = 'r' then some '\r'
  else if c = 't' then some '\t'
  else none

/-- The rest of a string after its opening quote, and what follows. -/
def stringRest : List Char → Option (List UInt16 × List Char)
  | [] => none
  | '"' :: cs => some ([], cs)
  | '\\' :: 'u' :: a :: b :: c :: d :: cs => do
    let u ← unit? a b c d
    let (us, rest) ← stringRest cs
    return (u :: us, rest)
  | '\\' :: e :: cs => do
    let c ← unescape? e
    let (us, rest) ← stringRest cs
    return (Text.Utf16.encodeChar c ++ us, rest)
  | c :: cs =>
    if c.toNat < 32 then none
    else do
      let (us, rest) ← stringRest cs
      return (Text.Utf16.encodeChar c ++ us, rest)

/-- A run of digits, of which there must be one at least, and what follows. -/
def digitRun? (cs : List Char) : Option (List Char × List Char) :=
  let digits := cs.takeWhile Text.isDigit
  if digits.isEmpty then none else some (digits, cs.dropWhile Text.isDigit)

/-- The digits before the point: a zero stands alone. -/
def wholePart? (cs : List Char) : Option (List Char × List Char) :=
  match cs with
  | '0' :: c :: rest => if Text.isDigit c then none else some (['0'], c :: rest)
  | cs => digitRun? cs

/-- The point and the digits behind it, if there is one. -/
def fraction? (cs : List Char) : Option (List Char × List Char) :=
  match cs with
  | '.' :: cs => (digitRun? cs).map fun r => ('.' :: r.1, r.2)
  | cs => some ([], cs)

/-- The exponent, if there is one. -/
def exponent? (cs : List Char) : Option (List Char × List Char) :=
  match cs with
  | e :: cs =>
    if e = 'e' || e = 'E' then
      match cs with
      | s :: ds =>
        if s = '+' || s = '-' then (digitRun? ds).map fun r => (e :: s :: r.1, r.2)
        else (digitRun? cs).map fun r => (e :: r.1, r.2)
      | [] => none
    else some ([], e :: cs)
  | [] => some ([], [])

/-- A number and what follows. -/
def number? (cs : List Char) : Option (List Char × List Char) := do
  let (sign, cs) :=
    match cs with
    | '-' :: cs => (['-'], cs)
    | cs => ([], cs)
  let (whole, cs) ← wholePart? cs
  let (fraction, cs) ← fraction? cs
  let (exponent, cs) ← exponent? cs
  return (sign ++ whole ++ fraction ++ exponent, cs)

/-- What follows a word. -/
def afterWord? (word : String) (cs : List Char) : Option (List Char) :=
  if word.toList.isPrefixOf cs then some (cs.drop word.length) else none

mutual

/-- One value and what follows. -/
def value : (fuel : Nat) → List Char → Option (Json × List Char)
  | 0, _ => none
  | fuel + 1, cs =>
    match skip cs with
    | '"' :: cs => (stringRest cs).map fun r => (string r.1, r.2)
    | '[' :: cs =>
      match skip cs with
      | ']' :: cs => some (array [], cs)
      | cs => (items fuel cs).map fun r => (array r.1, r.2)
    | '{' :: cs =>
      match skip cs with
      | '}' :: cs => some (object [], cs)
      | cs => (members fuel cs).map fun r => (object r.1, r.2)
    | 'n' :: cs => (afterWord? "ull" cs).map fun r => (null, r)
    | 't' :: cs => (afterWord? "rue" cs).map fun r => (bool true, r)
    | 'f' :: cs => (afterWord? "alse" cs).map fun r => (bool false, r)
    | cs => (number? cs).map fun r => (number r.1, r.2)

/-- The items of an array, of which there is one at least, through its closing bracket. -/
def items : (fuel : Nat) → List Char → Option (List Json × List Char)
  | 0, _ => none
  | fuel + 1, cs => do
    let (v, cs) ← value fuel cs
    match skip cs with
    | ',' :: cs => do
      let (vs, cs) ← items fuel cs
      return (v :: vs, cs)
    | ']' :: cs => return ([v], cs)
    | _ => none

/-- The members of an object, of which there is one at least, through its closing brace. -/
def members : (fuel : Nat) → List Char → Option (List (List UInt16 × Json) × List Char)
  | 0, _ => none
  | fuel + 1, cs => do
    match skip cs with
    | '"' :: cs => do
      let (key, cs) ← stringRest cs
      match skip cs with
      | ':' :: cs => do
        let (v, cs) ← value fuel cs
        match skip cs with
        | ',' :: cs => do
          let (ms, cs) ← members fuel cs
          return ((key, v) :: ms, cs)
        | '}' :: cs => return ([(key, v)], cs)
        | _ => none
      | _ => none
    | _ => none

end

/-- Reads a whole text as one value. -/
def parse? (text : String) : Option Json := do
  let (v, rest) ← value (2 * text.length + 2) text.toList
  if (skip rest).isEmpty then return v else none

/-! ## Looking into values -/

/-- The units as a text, unless one of them stands alone where there must be two. -/
def textOf? (units : List UInt16) : Option String :=
  let cs := Text.Utf16.decodeLossy units
  if Text.Utf16.encode cs = units then some (String.ofList cs) else none

end Json

end Catena
