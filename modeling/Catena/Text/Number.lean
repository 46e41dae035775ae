/-!
# Numbers in text

Decimal numbers as the language reads and writes them: digits `0` to `9` only, an optional sign
where the caller allows one, and no number outside the range of its type.
-/

namespace Catena.Text

/-- An ASCII digit. -/
def isDigit (c : Char) : Bool :=
  '0' ≤ c && c ≤ '9'

/-- The value of a non-empty run of digits. -/
def digits? (cs : List Char) : Option Nat :=
  if cs.isEmpty || !cs.all isDigit then none
  else some (cs.foldl (fun n c => n * 10 + (c.toNat - '0'.toNat)) 0)

/-- The 64-bit integer equal to `n`, if there is one. -/
def int64? (n : Int) : Option Int64 :=
  if -9223372036854775808 ≤ n && n ≤ 9223372036854775807 then some (Int64.ofInt n) else none

/-- A decimal with an optional sign, in the range of 64-bit integers. -/
def parseInt64? : List Char → Option Int64
  | '-' :: cs => (digits? cs).bind fun n => int64? (-(n : Int))
  | '+' :: cs => (digits? cs).bind fun n => int64? n
  | cs => (digits? cs).bind fun n => int64? n

/-- The largest index. -/
def maxIndex : Nat := 18446744073709551615

/-- A run of digits that is no larger than the largest index. -/
def index? (cs : List Char) : Option Nat :=
  (digits? cs).filter (· ≤ maxIndex)

/-- The number `n` with zeros in front up to `width` characters. -/
def zeroPadded (width n : Nat) : String :=
  let text := toString n
  String.ofList (List.replicate (width - text.length) '0') ++ text

/-- The text moved to the right end of a field of `width` characters. -/
def padLeft (width : Nat) (text : String) : String :=
  String.ofList (List.replicate (width - text.length) ' ') ++ text

end Catena.Text
