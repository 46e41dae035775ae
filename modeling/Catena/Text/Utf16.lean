/-!
# UTF-16 units

Wide strings hold UTF-16 units. A character of the basic plane is one unit and any other a pair of
surrogates; reading replaces each surrogate without its partner by U+FFFD.
-/

namespace Catena.Text.Utf16

/-- The units of one character. -/
def encodeChar (c : Char) : List UInt16 :=
  let n := c.toNat
  if n < 0x10000 then [UInt16.ofNat n]
  else
    [UInt16.ofNat (0xD800 + (n - 0x10000) / 0x400), UInt16.ofNat (0xDC00 + (n - 0x10000) % 0x400)]

/-- The units of a text. -/
def encode (cs : List Char) : List UInt16 :=
  cs.flatMap encodeChar

/-- The first half of a surrogate pair. -/
def isHigh (u : UInt16) : Bool :=
  0xD800 ≤ u && u ≤ 0xDBFF

/-- The second half of a surrogate pair. -/
def isLow (u : UInt16) : Bool :=
  0xDC00 ≤ u && u ≤ 0xDFFF

/-- The character a surrogate pair stands for. -/
def joinPair (high low : UInt16) : Char :=
  Char.ofNat (0x10000 + (high.toNat - 0xD800) * 0x400 + (low.toNat - 0xDC00))

/-- The characters of the units, each lone surrogate replaced by U+FFFD. -/
def decodeLossy : List UInt16 → List Char
  | [] => []
  | [u] => [if isHigh u || isLow u then '\uFFFD' else Char.ofNat u.toNat]
  | u :: v :: rest =>
    if isHigh u then
      if isLow v then joinPair u v :: decodeLossy rest else '\uFFFD' :: decodeLossy (v :: rest)
    else if isLow u then '\uFFFD' :: decodeLossy (v :: rest)
    else Char.ofNat u.toNat :: decodeLossy (v :: rest)

end Catena.Text.Utf16
