import Catena.Library.Basics
import Mathlib.Algebra.Order.Ring.Rat
import Mathlib.Data.Rat.Lemmas
import Mathlib.Order.Compare
import Mathlib.Tactic.FieldSimp
import Mathlib.Tactic.Ring

/-!
# Rational arithmetic is exact

A ratio that the operations made is in lowest terms, and each of them answers the exact result of its
operands if there is one and both of its parts, in lowest terms, fit in 64 bits. In no other case does it
fail (`Ratio.arithmetic_exact`). The reason is that a rational number has one form in lowest terms: what
is left when the greatest common divisor has been taken out is that form, whatever one started with.

The operations compute with numbers that 64 bits do not hold. That 128 bits do is said by a second form of
each, which checks every number on the way (`RatioOp.wide`): it never finds one too large.
-/

namespace Catena

namespace Text

theorem int64?_eq_some_iff {n : Int} {x : Int64} : int64? n = some x ↔ x.toInt = n := by
  rw [int64?]
  constructor
  · intro found
    split at found
    · rename_i fits
      simp only [Bool.and_eq_true, decide_eq_true_eq] at fits
      rw [← Option.some.inj found, Int64.toInt_ofInt_of_le (by omega) (by omega)]
    · cases found
  · rintro rfl
    have low := x.le_toInt
    have high := x.toInt_lt
    rw [if_pos, Int64.ofInt_toInt]
    simp only [Bool.and_eq_true, decide_eq_true_eq]
    omega

theorem isSome_int64? {n : Int} : (int64? n).isSome = true ↔ -2 ^ 63 ≤ n ∧ n < 2 ^ 63 := by
  rw [int64?]
  split <;> simp_all <;> omega

end Text

namespace Ratio

/-- The number that a ratio stands for. -/
def value (r : Ratio) : ℚ := r.num.toInt / r.den.toInt

/-- The denominator is positive and has no divisor in common with the numerator. -/
structure Lowest (r : Ratio) : Prop where
  pos : 0 < r.den.toInt
  coprime : Int.gcd r.num.toInt r.den.toInt = 1

instance (r : Ratio) : Decidable r.Lowest :=
  decidable_of_iff (0 < r.den.toInt ∧ Int.gcd r.num.toInt r.den.toInt = 1)
    ⟨fun h => ⟨h.1, h.2⟩, fun h => ⟨h.pos, h.coprime⟩⟩

/-- The ratio came out of the operations. -/
inductive Made : Ratio → Prop
  | new {num den : Int64} {r : Ratio} : new? num den = some r → Made r
  | ofInt64 (n : Int64) : Made (ofInt64 n)
  | compute {a b r : Ratio} (op : RatioOp) : Made a → Made b → op.compute? a b = some r → Made r

/-- Both parts of a rational number in lowest terms fit in 64 bits. -/
def InRange (q : ℚ) : Prop :=
  -2 ^ 63 ≤ q.num ∧ q.num < 2 ^ 63 ∧ (q.den : Int) < 2 ^ 63

/-- The ratio with the given parts, if they fit. -/
def narrow? (num den : Int) : Option Ratio :=
  match Text.int64? num, Text.int64? den with
  | some n, some d => some ⟨n, d⟩
  | _, _ => none

/-- The ratio that stands for a number, if there is one. -/
def ofRat? (q : ℚ) : Option Ratio := narrow? q.num q.den

variable {a b r : Ratio} {num den : Int} {q : ℚ}

/-! ## Lowest terms -/

theorem narrow?_eq_some_iff : narrow? num den = some r ↔ r.num.toInt = num ∧ r.den.toInt = den := by
  rw [← Text.int64?_eq_some_iff, ← Text.int64?_eq_some_iff, narrow?]
  constructor
  · intro found
    split at found
    · rename_i n d hn hd
      cases found
      exact ⟨hn, hd⟩
    · cases found
  · rintro ⟨hn, hd⟩
    simp only [hn, hd]

namespace Lowest

theorem coprime_natAbs (h : r.Lowest) : r.num.toInt.natAbs.Coprime r.den.toInt.natAbs := h.coprime

theorem value_num (h : r.Lowest) : r.value.num = r.num.toInt :=
  Rat.num_div_eq_of_coprime h.pos h.coprime_natAbs

theorem value_den (h : r.Lowest) : (r.value.den : Int) = r.den.toInt :=
  Rat.den_div_eq_of_coprime h.pos h.coprime_natAbs

theorem den_ne_zero (h : r.Lowest) : (r.den.toInt : ℚ) ≠ 0 :=
  Int.cast_ne_zero.2 h.pos.ne'

/-- A number has one ratio in lowest terms. -/
theorem eq_of_value (ha : a.Lowest) (hb : b.Lowest) (same : a.value = b.value) : a = b := by
  obtain ⟨n, d⟩ := a
  obtain ⟨n', d'⟩ := b
  have num := ha.value_num.symm.trans (same ▸ hb.value_num)
  have den := ha.value_den.symm.trans (same ▸ hb.value_den)
  rw [show n = n' from Int64.toInt_inj.1 num, show d = d' from Int64.toInt_inj.1 den]

end Lowest

theorem ofRat?_eq_some_iff : ofRat? q = some r ↔ r.Lowest ∧ r.value = q := by
  rw [ofRat?, narrow?_eq_some_iff]
  constructor
  · rintro ⟨num, den⟩
    have pos : 0 < r.den.toInt := den ▸ Int.natCast_pos.2 q.pos
    refine ⟨⟨pos, ?_⟩, ?_⟩
    · rw [num, den]
      exact q.reduced
    · rw [value, num, den, Int.cast_natCast]
      exact q.num_div_den
  · rintro ⟨lowest, rfl⟩
    exact ⟨lowest.value_num.symm, lowest.value_den.symm⟩

theorem isSome_ofRat? : (ofRat? q).isSome = true ↔ InRange q := by
  have parts : (ofRat? q).isSome = ((Text.int64? q.num).isSome && (Text.int64? q.den).isSome) := by
    rw [ofRat?, narrow?]
    cases Text.int64? q.num <;> cases Text.int64? q.den <;> rfl
  have pos := q.pos
  rw [parts, Bool.and_eq_true, Text.isSome_int64?, Text.isSome_int64?, InRange]
  omega

/-- The quotient of two numbers in lowest terms is what is left without their greatest common divisor. -/
theorem ofInts?_eq (h : den ≠ 0) : ofInts? num den = ofRat? (num / den) := by
  have sign : den.sign = if den < 0 then -1 else 1 := by
    split
    · exact Int.sign_eq_neg_one_of_neg ‹_›
    · exact Int.sign_eq_one_of_pos (by omega)
  have numerator : ((num / den : ℚ)).num = den.sign * num.tdiv (Int.gcd num den) := by
    rw [← Rat.divInt_eq_div, Rat.num_divInt, Int.gcd_comm,
      Int.tdiv_eq_ediv_of_dvd (Int.gcd_dvd_left ..), Int.mul_ediv_assoc _ (Int.gcd_dvd_left ..)]
  have denominator : (((num / den : ℚ)).den : Int) = den.sign * den.tdiv (Int.gcd num den) := by
    rw [← Rat.divInt_eq_div, Rat.den_divInt, if_neg h, Int.gcd_comm, Int.natCast_ediv,
      Int.tdiv_eq_ediv_of_dvd (Int.gcd_dvd_right ..), ← Int.mul_ediv_assoc _ (Int.gcd_dvd_right ..),
      Int.sign_mul_self_eq_natAbs]
  rw [ofInts?, if_neg h, ofRat?, numerator, denominator, sign]
  rfl

theorem ofInts?_zero (num : Int) : ofInts? num 0 = none := rfl

end Ratio

/-! ## The operations -/

namespace RatioOp

open Ratio (InRange Lowest ofInts?_eq ofRat?_eq_some_iff)

/-- The result of an operation on rational numbers, if there is one. -/
def outcome? : RatioOp → ℚ → ℚ → Option ℚ
  | add, x, y => some (x + y)
  | sub, x, y => some (x - y)
  | mul, x, y => some (x * y)
  | div, x, y => if y = 0 then none else some (x / y)

variable {a b r : Ratio}

theorem compute?_eq (op : RatioOp) (ha : a.Lowest) (hb : b.Lowest) :
    op.compute? a b = (op.outcome? a.value b.value).bind Ratio.ofRat? := by
  have da := ha.den_ne_zero
  have db := hb.den_ne_zero
  have dens : a.den.toInt * b.den.toInt ≠ 0 := mul_ne_zero ha.pos.ne' hb.pos.ne'
  cases op with
  | add =>
    rw [outcome?, Option.bind_some, compute?, Ratio.add?, ofInts?_eq dens, Ratio.value, Ratio.value]
    congr 1
    push_cast
    field_simp
  | sub =>
    rw [outcome?, Option.bind_some, compute?, Ratio.sub?, ofInts?_eq dens, Ratio.value, Ratio.value]
    congr 1
    push_cast
    field_simp
  | mul =>
    rw [outcome?, Option.bind_some, compute?, Ratio.mul?, ofInts?_eq dens, Ratio.value, Ratio.value]
    congr 1
    push_cast
    field_simp
  | div =>
    rw [outcome?, compute?, Ratio.div?]
    by_cases zero : b.num.toInt = 0
    · have none : b.value = 0 := by rw [Ratio.value, zero, Int.cast_zero, zero_div]
      rw [if_pos none, zero, mul_zero]
      rfl
    · have nb : (b.num.toInt : ℚ) ≠ 0 := Int.cast_ne_zero.2 zero
      have some : b.value ≠ 0 := div_ne_zero nb db
      rw [if_neg some, Option.bind_some, ofInts?_eq (mul_ne_zero ha.pos.ne' zero), Ratio.value, Ratio.value]
      congr 1
      push_cast
      field_simp

/-- An operation answers the exact result in lowest terms, if there is one. -/
theorem compute?_eq_some_iff (op : RatioOp) (ha : a.Lowest) (hb : b.Lowest) :
    op.compute? a b = some r ↔ r.Lowest ∧ op.outcome? a.value b.value = some r.value := by
  rw [op.compute?_eq ha hb, Option.bind_eq_some_iff]
  simp only [ofRat?_eq_some_iff]
  constructor
  · rintro ⟨q, result, lowest, rfl⟩
    exact ⟨lowest, result⟩
  · rintro ⟨lowest, result⟩
    exact ⟨_, result, lowest, rfl⟩

/-- An operation fails only if there is no result or one of its parts does not fit. -/
theorem isSome_compute? (op : RatioOp) (ha : a.Lowest) (hb : b.Lowest) :
    (op.compute? a b).isSome = true ↔ ∃ q, op.outcome? a.value b.value = some q ∧ InRange q := by
  rw [op.compute?_eq ha hb, Option.isSome_bind, Option.any_eq_true]
  simp only [Ratio.isSome_ofRat?]

end RatioOp

namespace Ratio

variable {a b r : Ratio}

theorem toInt_eq_zero_iff {n : Int64} : n.toInt = 0 ↔ n = 0 :=
  Int64.toInt_inj (y := 0)

theorem new?_eq {num den : Int64} :
    new? num den = if den = 0 then none else ofRat? (num.toInt / den.toInt) := by
  split
  · rename_i zero
    rw [new?, zero]
    exact ofInts?_zero _
  · rename_i nonzero
    exact ofInts?_eq (toInt_eq_zero_iff.not.2 nonzero)

theorem new?_eq_some_iff {num den : Int64} :
    new? num den = some r ↔ den ≠ 0 ∧ r.Lowest ∧ r.value = num.toInt / den.toInt := by
  rw [new?_eq]
  split <;> simp [ofRat?_eq_some_iff, *]

theorem isSome_new? {num den : Int64} :
    (new? num den).isSome = true ↔ den ≠ 0 ∧ InRange (num.toInt / den.toInt) := by
  rw [new?_eq]
  split <;> simp [isSome_ofRat?, *]

theorem lowest_ofInt64 (n : Int64) : (ofInt64 n).Lowest :=
  ⟨show (0 : Int) < (1 : Int64).toInt by decide, Int.gcd_one_right _⟩

theorem value_ofInt64 (n : Int64) : (ofInt64 n).value = n.toInt := by
  rw [value, show (ofInt64 n).den.toInt = 1 from rfl, Int.cast_one, div_one]
  rfl

theorem Made.lowest (h : Made r) : r.Lowest := by
  induction h with
  | new made => exact (new?_eq_some_iff.1 made).2.1
  | ofInt64 n => exact lowest_ofInt64 n
  | compute op _ _ made ha hb => exact ((op.compute?_eq_some_iff ha hb).1 made).1

theorem compare_congr {α β : Type} [LinearOrder α] [LinearOrder β] {x y : α} {z w : β}
    (less : x < y ↔ z < w) (same : x = y ↔ z = w) : compare x y = compare z w := by
  rw [LinearOrder.compare_eq_compareOfLessAndEq, LinearOrder.compare_eq_compareOfLessAndEq]
  simp only [compareOfLessAndEq, less, same]

/-- Cross multiplication tells which of two numbers is the smaller. -/
theorem cmp_eq (ha : a.Lowest) (hb : b.Lowest) : a.cmp b = compare a.value b.value := by
  have da : (0 : ℚ) < a.den.toInt := Int.cast_pos.2 ha.pos
  have db : (0 : ℚ) < b.den.toInt := Int.cast_pos.2 hb.pos
  refine compare_congr ?_ ?_
  · rw [value, value, div_lt_div_iff₀ da db, ← Int.cast_mul, ← Int.cast_mul, Int.cast_lt]
  · rw [value, value, div_eq_div_iff da.ne' db.ne', ← Int.cast_mul, ← Int.cast_mul, Int.cast_inj]

/-! ## In words of 128 bits -/

/-- The number, if 128 bits hold it. -/
def wide? (n : Int) : Option Int :=
  if -2 ^ 127 ≤ n ∧ n < 2 ^ 127 then some n else none

/-- The greatest common divisor, by remainders. -/
def euclid (a b : Nat) : Nat :=
  if b = 0 then a else euclid b (a % b)
termination_by b
decreasing_by exact Nat.mod_lt _ (Nat.pos_of_ne_zero ‹_›)

/-- The quotient in lowest terms; no answer at all if a number on the way is too large. -/
def quotientWide (num den : Int) : Option (Option Ratio) := do
  if den = 0 then return none
  let g := max (← wide? (euclid num.natAbs den.natAbs)) 1
  let n ← wide? (num.tdiv g)
  let d ← wide? (den.tdiv g)
  if d < 0 then return narrow? (← wide? (-n)) (← wide? (-d)) else return narrow? n d

/-- Both sides of a comparison or a sum, over the common denominator. -/
def crossWide (a b : Ratio) : Option (Int × Int) := do
  return (← wide? (a.num.toInt * b.den.toInt), ← wide? (b.num.toInt * a.den.toInt))

/-- The order of two ratios; no answer if a number on the way is too large. -/
def cmpWide (a b : Ratio) : Option Ordering := do
  let (x, y) ← crossWide a b
  return compare x y

theorem euclid_eq_gcd (a b : Nat) : euclid a b = Nat.gcd a b := by
  induction b using Nat.strong_induction_on generalizing a with
  | _ b ih =>
    rw [euclid]
    split
    · rename_i zero
      rw [zero, Nat.gcd_zero_right]
    · rename_i nonzero
      rw [ih _ (Nat.mod_lt _ (Nat.pos_of_ne_zero nonzero)), Nat.gcd_comm a b, Nat.gcd_rec b a, Nat.gcd_comm]

theorem wide?_eq_some {n : Int} (h : n.natAbs < 2 ^ 127) : wide? n = some n := by
  rw [wide?, if_pos]
  omega

theorem natAbs_tdiv_lt {n g : Int} (h : n.natAbs < 2 ^ 127) : (n.tdiv g).natAbs < 2 ^ 127 := by
  rw [Int.natAbs_tdiv]
  exact Nat.lt_of_le_of_lt (Nat.div_le_self ..) h

theorem quotientWide_eq {num den : Int} (hn : num.natAbs < 2 ^ 127) (hd : den.natAbs < 2 ^ 127) :
    quotientWide num den = some (ofInts? num den) := by
  by_cases zero : den = 0
  · rw [zero, ofInts?_zero]
    rfl
  have positive : 0 < Int.gcd num den := Int.gcd_pos_of_ne_zero_right _ zero
  have small : Int.gcd num den ≤ den.natAbs := Nat.gcd_le_right _ (Int.natAbs_pos.2 zero)
  have divisor : wide? (euclid num.natAbs den.natAbs) = some (Int.gcd num den : Int) := by
    rw [euclid_eq_gcd]
    exact wide?_eq_some (Nat.lt_of_le_of_lt small hd)
  have most : max (Int.gcd num den : Int) 1 = Int.gcd num den := by omega
  have numerator := natAbs_tdiv_lt (g := Int.gcd num den) hn
  have denominator := natAbs_tdiv_lt (g := Int.gcd num den) hd
  have sign : den.tdiv (Int.gcd num den) < 0 ↔ den < 0 := by
    conv_rhs => rw [← Int.tdiv_mul_cancel (Int.gcd_dvd_right num den)]
    rw [Int.mul_neg_iff]
    omega
  simp only [quotientWide, if_neg zero, divisor, most, wide?_eq_some numerator, wide?_eq_some denominator,
    sign, Option.pure_def, Option.bind_eq_bind, Option.bind_some]
  rw [ofInts?, if_neg zero]
  split
  · rw [wide?_eq_some (by rwa [Int.natAbs_neg]), wide?_eq_some (by rwa [Int.natAbs_neg])]
    simp only [neg_mul, one_mul]
    rfl
  · simp only [one_mul]
    rfl

theorem natAbs_toInt_le (n : Int64) : n.toInt.natAbs ≤ 2 ^ 63 := by
  have := n.le_toInt
  have := n.toInt_lt
  omega

theorem natAbs_toInt_lt (n : Int64) : n.toInt.natAbs < 2 ^ 127 :=
  Nat.lt_of_le_of_lt (natAbs_toInt_le n) (by decide)

theorem Lowest.natAbs_den_lt {r : Ratio} (h : r.Lowest) : r.den.toInt.natAbs < 2 ^ 63 := by
  have := h.pos
  have := r.den.toInt_lt
  omega

/-- A product with a denominator takes 126 bits and a sign. -/
theorem natAbs_mul_den_lt (n : Int64) (h : r.Lowest) : (n.toInt * r.den.toInt).natAbs < 2 ^ 126 := by
  rw [Int.natAbs_mul]
  calc n.toInt.natAbs * r.den.toInt.natAbs < 2 ^ 63 * 2 ^ 63 :=
        Nat.mul_lt_mul_of_le_of_lt (natAbs_toInt_le n) h.natAbs_den_lt (by decide)
    _ = 2 ^ 126 := rfl

theorem crossWide_eq (ha : a.Lowest) (hb : b.Lowest) :
    crossWide a b = some (a.num.toInt * b.den.toInt, b.num.toInt * a.den.toInt) := by
  have first := natAbs_mul_den_lt a.num hb
  have second := natAbs_mul_den_lt b.num ha
  rw [crossWide, wide?_eq_some (by omega), wide?_eq_some (by omega)]
  rfl

theorem cmpWide_eq (ha : a.Lowest) (hb : b.Lowest) : a.cmpWide b = some (a.cmp b) := by
  rw [cmpWide, crossWide_eq ha hb]
  rfl

end Ratio

namespace RatioOp

open Ratio

variable {a b : Ratio}

/-- The operation with every number on the way checked; no answer at all if one is too large. -/
def wide (op : RatioOp) (a b : Ratio) : Option (Option Ratio) := do
  match op with
  | add =>
    let (x, y) ← crossWide a b
    quotientWide (← wide? (x + y)) (← wide? (a.den.toInt * b.den.toInt))
  | sub =>
    let (x, y) ← crossWide a b
    quotientWide (← wide? (x - y)) (← wide? (a.den.toInt * b.den.toInt))
  | mul => quotientWide (← wide? (a.num.toInt * b.num.toInt)) (← wide? (a.den.toInt * b.den.toInt))
  | div =>
    if b.num = 0 then return none
    quotientWide (← wide? (a.num.toInt * b.den.toInt)) (← wide? (a.den.toInt * b.num.toInt))

theorem wide_eq (op : RatioOp) (ha : a.Lowest) (hb : b.Lowest) : op.wide a b = some (op.compute? a b) := by
  have first := natAbs_mul_den_lt a.num hb
  have second := natAbs_mul_den_lt b.num ha
  have dens := natAbs_mul_den_lt a.den hb
  have nums : (a.num.toInt * b.num.toInt).natAbs < 2 ^ 127 := by
    rw [Int.natAbs_mul]
    exact Nat.lt_of_le_of_lt (Nat.mul_le_mul (natAbs_toInt_le _) (natAbs_toInt_le _)) (by decide)
  have den := wide?_eq_some (Nat.lt_trans dens (by decide))
  cases op with
  | add =>
    have sum := wide?_eq_some (show (a.num.toInt * b.den.toInt + b.num.toInt * a.den.toInt).natAbs < 2 ^ 127
      by omega)
    rw [wide, crossWide_eq ha hb]
    simp only [Option.bind_eq_bind, Option.bind_some, sum, den]
    exact quotientWide_eq (by omega) (by omega)
  | sub =>
    have difference := wide?_eq_some
      (show (a.num.toInt * b.den.toInt - b.num.toInt * a.den.toInt).natAbs < 2 ^ 127 by omega)
    rw [wide, crossWide_eq ha hb]
    simp only [Option.bind_eq_bind, Option.bind_some, difference, den]
    exact quotientWide_eq (by omega) (by omega)
  | mul =>
    rw [wide]
    simp only [Option.bind_eq_bind, Option.bind_some, wide?_eq_some nums, den]
    exact quotientWide_eq nums (by omega)
  | div =>
    rw [mul_comm] at second
    have num := wide?_eq_some (Nat.lt_trans first (by decide))
    have den' := wide?_eq_some (Nat.lt_trans second (by decide))
    rw [wide]
    split
    · rename_i zero
      simp [compute?, div?, zero, ofInts?]
    · simp only [Option.bind_eq_bind, Option.bind_some, num, den']
      exact quotientWide_eq (by omega) (by omega)

end RatioOp

namespace Ratio

/-- The ratios that the operations make are in lowest terms. On them each operation answers the exact result
if there is one and its parts fit in 64 bits, and nothing otherwise; the order is that of the rational
numbers; and 128 bits hold every number on the way. -/
theorem arithmetic_exact :
    (∀ r, Made r → 0 < r.den.toInt ∧ Int.gcd r.num.toInt r.den.toInt = 1) ∧
    (∀ num den : Int64, (∀ r, new? num den = some r ↔
        den ≠ 0 ∧ r.Lowest ∧ r.value = num.toInt / den.toInt) ∧
      ((new? num den).isSome = true ↔ den ≠ 0 ∧ InRange (num.toInt / den.toInt)) ∧
      quotientWide num.toInt den.toInt = some (new? num den)) ∧
    ∀ a b, Made a → Made b →
      (∀ op : RatioOp,
        (∀ r, op.compute? a b = some r ↔ r.Lowest ∧ op.outcome? a.value b.value = some r.value) ∧
        ((op.compute? a b).isSome = true ↔ ∃ q, op.outcome? a.value b.value = some q ∧ InRange q) ∧
        op.wide a b = some (op.compute? a b)) ∧
      a.cmp b = compare a.value b.value ∧ a.cmpWide b = some (a.cmp b) := by
  refine ⟨fun r made => ⟨made.lowest.pos, made.lowest.coprime⟩, fun num den => ?_, fun a b ha hb => ?_⟩
  · exact ⟨fun r => new?_eq_some_iff, isSome_new?, quotientWide_eq (natAbs_toInt_lt _) (natAbs_toInt_lt _)⟩
  · have la := ha.lowest
    have lb := hb.lowest
    refine ⟨fun op => ⟨fun r => op.compute?_eq_some_iff la lb, op.isSome_compute? la lb, op.wide_eq la lb⟩, ?_⟩
    exact ⟨cmp_eq la lb, cmpWide_eq la lb⟩

/-- The least whole number has no negative, so its quotient by minus one does not fit. Taking minus one half
from the quotient of the least and the largest number leaves parts that do not fit either, though 128 bits
hold them. -/
theorem arithmetic_exact_extremes :
    let least := ofInt64 Int64.minValue
    let quotient : Ratio := ⟨Int64.minValue, Int64.maxValue⟩
    Made least ∧ Made quotient ∧
      RatioOp.div.compute? least (ofInt64 (-1)) = none ∧
      (¬∃ q, RatioOp.div.outcome? least.value (ofInt64 (-1)).value = some q ∧ InRange q) ∧
      RatioOp.sub.wide quotient ⟨-1, 2⟩ = some none ∧
      compare least.value quotient.value = .lt := by
  intro least quotient
  have whole : Made least := .ofInt64 _
  have half : Made ⟨-1, 2⟩ := .new (show new? (-1) 2 = _ by decide)
  have made : Made quotient := .new (show new? Int64.minValue Int64.maxValue = _ by decide +kernel)
  obtain ⟨-, -, exact⟩ := arithmetic_exact
  obtain ⟨divided, -⟩ := exact least (ofInt64 (-1)) whole (.ofInt64 _)
  obtain ⟨taken, -⟩ := exact quotient ⟨-1, 2⟩ made half
  obtain ⟨-, order, -⟩ := exact least quotient whole made
  have fails : RatioOp.div.compute? least (ofInt64 (-1)) = none := by decide +kernel
  refine ⟨whole, made, fails, ?_, ?_, ?_⟩
  · rw [← (divided .div).2.1, fails]
    decide
  · rw [(taken .sub).2.2]
    decide +kernel
  · rw [← order]
    decide +kernel

end Ratio

end Catena
