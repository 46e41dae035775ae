/-!
# UTF-8 bytes

How text becomes bytes and bytes become text. Reading is done in two ways: `decode?` accepts only
well-formed input, `decodeLossy` replaces each ill-formed piece, taken as long as it is the start
of a well-formed sequence, by one U+FFFD.
-/

namespace Catena.Text.Utf8

/-- The number of bytes a list of characters takes. -/
def size (cs : List Char) : Nat :=
  cs.foldr (fun c n => c.utf8Size + n) 0

/-- The bytes of a text. -/
def encode (s : String) : Array UInt8 :=
  s.toUTF8.data

/-- A continuation byte `10xxxxxx`. -/
def isTail (b : UInt8) : Bool :=
  0x80 ≤ b && b ≤ 0xBF

/-- What a leading byte asks for: how many bytes follow, the bounds of the first of them, and the
bits the leading byte itself contributes. -/
structure Lead where
  follow : Nat
  low : UInt8
  high : UInt8
  bits : Nat

/-- The reading of a leading byte that is not ASCII; `none` for a byte that starts nothing. -/
def lead? (b : UInt8) : Option Lead :=
  if 0xC2 ≤ b && b ≤ 0xDF then some ⟨1, 0x80, 0xBF, b.toNat % 0x20⟩
  else if b == 0xE0 then some ⟨2, 0xA0, 0xBF, 0⟩
  else if b == 0xED then some ⟨2, 0x80, 0x9F, 0xD⟩
  else if 0xE1 ≤ b && b ≤ 0xEF then some ⟨2, 0x80, 0xBF, b.toNat % 0x10⟩
  else if b == 0xF0 then some ⟨3, 0x90, 0xBF, 0⟩
  else if b == 0xF4 then some ⟨3, 0x80, 0x8F, 4⟩
  else if 0xF1 ≤ b && b ≤ 0xF3 then some ⟨3, 0x80, 0xBF, b.toNat % 8⟩
  else none

/-- Reads `n` continuation bytes onto the bits gathered so far. Answers the bits, or `none` where
a byte is missing or wrong, and what is left. -/
def tails (n : Nat) (bits : Nat) : List UInt8 → Option Nat × List UInt8
  | bs =>
    match n, bs with
    | 0, bs => (some bits, bs)
    | _ + 1, [] => (none, [])
    | n + 1, b :: bs =>
      if isTail b then tails n (bits * 0x40 + b.toNat % 0x40) bs else (none, b :: bs)

theorem tails_length (n bits : Nat) (bs : List UInt8) : (tails n bits bs).2.length ≤ bs.length := by
  induction n generalizing bits bs with
  | zero => simp [tails]
  | succ n ih =>
    cases bs with
    | nil => simp [tails]
    | cons b bs =>
      rw [tails]
      split
      · exact Nat.le_succ_of_le (ih _ _)
      · simp

/-- Reads one sequence after its leading byte. -/
def sequence (l : Lead) : List UInt8 → Option Nat × List UInt8
  | [] => (none, [])
  | b :: bs =>
    if l.low ≤ b && b ≤ l.high then tails (l.follow - 1) (l.bits * 0x40 + b.toNat % 0x40) bs
    else (none, b :: bs)

theorem sequence_length (l : Lead) (bs : List UInt8) : (sequence l bs).2.length ≤ bs.length := by
  cases bs with
  | nil => simp [sequence]
  | cons b bs =>
    rw [sequence]
    split
    · exact Nat.le_succ_of_le (tails_length _ _ _)
    · simp

/-- The characters of a list of bytes; `none` stands for one ill-formed piece. -/
def pieces : List UInt8 → List (Option Char)
  | [] => []
  | b :: bs =>
    if b < 0x80 then some (Char.ofNat b.toNat) :: pieces bs
    else
      match lead? b with
      | none => none :: pieces bs
      | some l =>
        have : (sequence l bs).2.length < (b :: bs).length :=
          Nat.lt_succ_of_le (sequence_length l bs)
        (sequence l bs).1.map Char.ofNat :: pieces (sequence l bs).2
termination_by bs => bs.length
decreasing_by all_goals (simp only [List.length_cons] at *; omega)

/-- The text of the bytes, each ill-formed piece replaced by U+FFFD. -/
def decodeLossy (bytes : Array UInt8) : String :=
  String.ofList ((pieces bytes.toList).map fun p => p.getD '\uFFFD')

/-- The text of the bytes, if they are well formed. -/
def decode? (bytes : Array UInt8) : Option String :=
  ((pieces bytes.toList).mapM id).map String.ofList

end Catena.Text.Utf8
