import Catena.Proofs.Values.Rational

/-!
# Decimal numbers are read back

A run of digits is read as its value (`Text.digits?_eq_some_iff`), so that the decimal form of a number,
with a minus sign in front where it is negative, is read as that number again (`Text.parseInt64?_decimal`).
-/

namespace Catena.Text

variable {c : Char} {cs : List Char} {n : Nat}

/-- The number is written in digits, with or without zeros in front. -/
structure Numeral (n : Nat) (cs : List Char) : Prop where
  some : cs ≠ []
  digits : ∀ c ∈ cs, isDigit c = true
  value : Nat.ofDigitChars 10 cs 0 = n

theorem isDigit_eq (c : Char) : isDigit c = c.isDigit := by
  simp [isDigit, Char.isDigit, Char.le_def]

theorem isDigit_cases (h : isDigit c = true) : c ∈ ['0', '1', '2', '3', '4', '5', '6', '7', '8', '9'] := by
  have bounds : 48 ≤ c.toNat ∧ c.toNat ≤ 57 := by
    simpa [isDigit, Char.le_def, UInt32.le_iff_toNat_le] using h
  have all : ∀ n < 58, 48 ≤ n → Char.ofNat n ∈ ['0', '1', '2', '3', '4', '5', '6', '7', '8', '9'] := by decide
  have digit := all c.toNat (by omega) bounds.1
  rwa [Char.ofNat_toNat] at digit

theorem digits?_eq_some_iff : digits? cs = some n ↔ Numeral n cs := by
  have value : cs.foldl (fun n c => n * 10 + (c.toNat - '0'.toNat)) 0 = Nat.ofDigitChars 10 cs 0 := by
    simp only [Nat.ofDigitChars, Nat.mul_comm]
  rw [digits?, value]
  constructor
  · intro read
    split at read
    · cases read
    · rename_i shape
      simp only [Bool.or_eq_true, List.isEmpty_iff, Bool.not_eq_true', not_or, Bool.not_eq_false,
        List.all_eq_true] at shape
      exact ⟨shape.1, shape.2, Option.some.inj read⟩
  · rintro ⟨some, digits, rfl⟩
    rw [if_neg]
    simpa [some] using digits

/-- A number is written in decimal digits. -/
theorem numeral_decimal (n : Nat) : Numeral n (Nat.toDigits 10 n) where
  some := Nat.toDigits_ne_nil
  digits c is := by
    rw [isDigit_eq]
    exact Nat.isDigit_of_mem_toDigits (by decide) (by decide) is
  value := Nat.ofDigitChars_toDigits (by decide) (by decide)

theorem index?_eq_some_iff : index? cs = some n ↔ Numeral n cs ∧ n ≤ maxIndex := by
  rw [index?, Option.filter_eq_some_iff, digits?_eq_some_iff, decide_eq_true_eq]

/-! ## Signed numbers -/

/-- The digits of the magnitude, behind a minus sign if the number is negative. -/
def signed (n : Int) : List Char :=
  (if n < 0 then ['-'] else []) ++ Nat.toDigits 10 n.natAbs

theorem toList_toString (n : Int) : (toString n).toList = signed n := by
  rw [Int.toString_eq_repr]
  cases n with
  | ofNat n => simp [Int.repr, signed]
  | negSucc n => simp [Int.repr, signed, Int.negSucc_lt_zero]

theorem parseInt64?_digits (digits : ∀ c ∈ cs, isDigit c = true) :
    parseInt64? cs = (digits? cs).bind fun n => int64? n := by
  rw [parseInt64?]
  · rintro ds rfl
    exact absurd (digits '-' List.mem_cons_self) (by decide)
  · rintro ds rfl
    exact absurd (digits '+' List.mem_cons_self) (by decide)

theorem parseInt64?_signed (n : Int) : parseInt64? (signed n) = int64? n := by
  have written := numeral_decimal n.natAbs
  have read := digits?_eq_some_iff.2 written
  by_cases negative : n < 0
  · rw [signed, if_pos negative, List.singleton_append, parseInt64?, read, Option.bind_some]
    congr 1
    omega
  · rw [signed, if_neg negative, List.nil_append, parseInt64?_digits written.digits, read, Option.bind_some]
    congr 1
    omega

/-- The decimal form of a 64-bit number is read as that number. -/
theorem parseInt64?_decimal (n : Int64) : parseInt64? (signed n.toInt) = some n := by
  rw [parseInt64?_signed, int64?_eq_some_iff]

/-- Digits stand in a signed number, and a minus sign at most. -/
theorem mem_signed {n : Int} (is : c ∈ signed n) : c = '-' ∨ isDigit c = true := by
  rcases List.mem_append.1 is with sign | digit
  · split at sign
    · exact .inl (List.mem_singleton.1 sign)
    · cases sign
  · exact .inr ((numeral_decimal _).digits c digit)

/-- A signed number begins with a digit, or with a minus sign and a digit. -/
theorem signed_front (n : Int) : ∃ d ds, isDigit d = true ∧
    (signed n = d :: ds ∨ signed n = '-' :: d :: ds) := by
  obtain ⟨some, digits, -⟩ := numeral_decimal n.natAbs
  obtain ⟨d, ds, split⟩ := List.exists_cons_of_ne_nil some
  refine ⟨d, ds, digits d (by simp [split]), ?_⟩
  rw [signed, split]
  split
  · exact .inr rfl
  · exact .inl rfl

end Catena.Text
