import Catena.Text.Number

/-!
# Rational numbers

Quotients of 64-bit integers in lowest terms with a positive denominator. Each operation computes
the exact result and answers `none` when there is none or when it does not fit.
-/

namespace Catena

/-- A rational number. -/
structure Ratio where
  num : Int64
  den : Int64
deriving DecidableEq, Repr

namespace Ratio

/-- The quotient `num / den` in lowest terms, if `den` is not zero and both parts fit. -/
def ofInts? (num den : Int) : Option Ratio :=
  if den = 0 then none
  else
    let g : Int := Int.gcd num den
    let sign : Int := if den < 0 then -1 else 1
    match Text.int64? (sign * (num.tdiv g)), Text.int64? (sign * (den.tdiv g)) with
    | some n, some d => some ⟨n, d⟩
    | _, _ => none

/-- The quotient of two 64-bit integers. -/
def new? (num den : Int64) : Option Ratio :=
  ofInts? num.toInt den.toInt

/-- A whole number. -/
def ofInt64 (n : Int64) : Ratio := ⟨n, 1⟩

def add? (a b : Ratio) : Option Ratio :=
  ofInts? (a.num.toInt * b.den.toInt + b.num.toInt * a.den.toInt) (a.den.toInt * b.den.toInt)

def sub? (a b : Ratio) : Option Ratio :=
  ofInts? (a.num.toInt * b.den.toInt - b.num.toInt * a.den.toInt) (a.den.toInt * b.den.toInt)

def mul? (a b : Ratio) : Option Ratio :=
  ofInts? (a.num.toInt * b.num.toInt) (a.den.toInt * b.den.toInt)

def div? (a b : Ratio) : Option Ratio :=
  ofInts? (a.num.toInt * b.den.toInt) (a.den.toInt * b.num.toInt)

/-- The order of the rational numbers, by cross multiplication. -/
def cmp (a b : Ratio) : Ordering :=
  compare (a.num.toInt * b.den.toInt) (b.num.toInt * a.den.toInt)

/-- Numerator, slash, denominator. -/
def text (r : Ratio) : String :=
  s!"{r.num.toInt}/{r.den.toInt}"

end Ratio

end Catena
