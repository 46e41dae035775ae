import Catena.Proofs.Tokens.Spans
import Mathlib.Data.List.Forall2

/-!
# Comments between tokens

A comment is read over where tokens are read, whatever it says (`scan_comment`), so that it changes
nothing but the places of the tokens behind it. The search for the end of a span knows no comments: it
goes on behind a comment as before it if braces around the comment make one token.
-/

namespace Catena.Token

variable {prev : Char} {A B C W cs rest : List Char} {pos : Nat} {ts us : List Token}

/-- The comment with the given content. -/
def comment (C : List Char) : List Char :=
  '/' :: '*' :: (C ++ ['*', '/'])

/-- The content does not end the comment. -/
def Closed (C : List Char) : Prop := ¬ ['*', '/'] <:+: C

instance (C : List Char) : Decidable (Closed C) :=
  inferInstanceAs (Decidable (¬ _))

theorem afterBlock_closed (h : Closed C) : afterBlock (C ++ '*' :: '/' :: rest) = rest := by
  induction C with
  | nil => rfl
  | cons c C ih =>
    have inner : Closed C := fun inside => h (inside.trans (List.suffix_cons c C).isInfix)
    have early : ∀ ds, c = '*' → C ++ '*' :: '/' :: rest = '/' :: ds → False := by
      rintro ds rfl same
      cases C with
      | nil => cases same
      | cons d C =>
        obtain rfl : d = '/' := (List.cons.inj same).1
        exact h ⟨[], C, rfl⟩
    rw [List.cons_append, afterBlock.eq_3 _ _ early, ih inner]

/-- A comment is read over. -/
theorem scan_comment (h : Closed C) :
    scan pos (comment C ++ rest) = scan (pos + Text.Utf8.size (comment C)) rest := by
  have after : afterBlock (C ++ ['*', '/'] ++ rest) = rest := by
    rw [List.append_assoc]
    exact afterBlock_closed h
  have size : Text.Utf8.size (comment C ++ rest) - Text.Utf8.size rest =
      Text.Utf8.size (comment C) := by
    rw [size_append]
    omega
  have begins : comment C ++ rest = '/' :: '*' :: (C ++ ['*', '/'] ++ rest) := rfl
  rw [begins] at size ⊢
  rw [scan.eq_def]
  dsimp only [List.tail_cons]
  rw [after, size]
  rfl

theorem scan_blanks (blank : ∀ c ∈ W, Text.isBlank c = true) :
    scan pos (W ++ rest) = scan (pos + Text.Utf8.size W) rest := by
  induction W generalizing pos with
  | nil => rfl
  | cons c W ih =>
    obtain ⟨first, rest⟩ := List.forall_mem_cons.1 blank
    rw [List.cons_append, scan_blank first, ih rest, size_cons, Nat.add_assoc]

theorem passes_blanks (blank : ∀ c ∈ W, Text.isBlank c = true) : Passes prev W := by
  induction W generalizing prev with
  | nil => exact passes_nil
  | cons c W ih =>
    obtain ⟨first, rest⟩ := List.forall_mem_cons.1 blank
    have step : Passes prev [c] := passes_blank first
    exact step.append (ih rest)

/-! ## Inside a span -/

/-- In a span, the second text may stand where the first one stands. -/
def Trades (X X' : List Char) : Prop :=
  ∀ depth rest b r, 1 ≤ depth → spanEnd depth '{' (X ++ rest) = some (X ++ b, r) →
    spanEnd depth '{' (X' ++ rest) = some (X' ++ b, r)

/-- What is read over may stand for something else that is, if the same character comes last. -/
theorem trades_passes (h : Passes '{' A) (h' : Passes '{' B)
    (same : A.getLastD '{' = B.getLastD '{') : Trades A B := by
  intro depth rest b r deep ended
  rw [h depth rest deep] at ended
  obtain ⟨s, inner, equal⟩ := Option.map_eq_some_iff.1 ended
  obtain ⟨front, rfl⟩ := Prod.mk.inj equal
  obtain rfl := List.append_cancel_left front
  rw [h' depth rest deep, ← same, inner]
  rfl

theorem Trades.append (h : Trades A B) (C : List Char) : Trades (A ++ C) (B ++ C) := by
  intro depth rest b r deep ended
  rw [List.append_assoc, List.append_assoc] at *
  exact h depth (C ++ rest) (C ++ b) r deep ended

/-- The text of a span inside may be traded. -/
theorem Trades.span (h : Trades A B) (passes : Passes '{' C) :
    Trades (C ++ '{' :: A) (C ++ '{' :: B) := by
  have goes (depth : Nat) (X rest : List Char) (deep : 1 ≤ depth) :
      spanEnd depth '{' (C ++ '{' :: X ++ rest) =
        (spanEnd (depth + 1) '{' (X ++ rest)).map fun r => (C ++ '{' :: r.1, r.2) := by
    rw [List.append_assoc, passes depth _ deep, List.cons_append, spanEnd_open, Option.map_map]
    rfl
  intro depth rest b r deep ended
  rw [goes depth A rest deep] at ended
  obtain ⟨s, inner, equal⟩ := Option.map_eq_some_iff.1 ended
  obtain ⟨front, rfl⟩ := Prod.mk.inj equal
  rw [List.append_assoc, List.append_cancel_left_eq, List.cons_append, List.cons.injEq] at front
  obtain ⟨-, same⟩ := front
  have inner : spanEnd (depth + 1) '{' (A ++ rest) = some (A ++ b, s.2) := by rw [inner, ← same]
  rw [goes depth B rest deep, h _ _ _ _ (Nat.le_add_left 1 depth) inner]
  simp

theorem Trades.passes (h : Trades A B) (passes : Passes '{' A) : Passes '{' B :=
  passes_iff.2 (h 1 _ _ _ (Nat.le_refl 1) (passes_iff.1 passes))

/-- A comment that is read over may be put between blanks. -/
theorem trades_comment (passes : Passes '{' A) (blank : ∀ c ∈ W, Text.isBlank c = true)
    (some : W ≠ []) (past : Passes '{' (comment C)) :
    Trades (A ++ W) (A ++ W ++ comment C ++ W) := by
  have blanks (prev : Char) : Passes prev W := passes_blanks blank
  have before : Passes '{' (A ++ W) := passes.append (blanks _)
  have note : Passes '{' (A ++ W ++ comment C) :=
    before.append (past.behind fun slash => absurd slash (by decide))
  refine trades_passes before (note.append (blanks _)) ?_
  simp [List.getLastD_eq_getLast?, List.getLast?_eq_some_getLast some]

/-! ## Places -/

/-- The same texts, whatever their places. -/
abbrev SameTexts : List Token → List Token → Prop :=
  List.Forall₂ fun t t' => t.text = t'.text

theorem SameTexts.refl (ts : List Token) : SameTexts ts ts :=
  List.forall₂_same.2 fun _ _ => rfl

theorem Reads.elsewhere (h : Reads pos cs ts) (pos' : Nat) :
    ∃ us, Reads pos' cs us ∧ SameTexts ts us := by
  induction h generalizing pos' with
  | nil => exact ⟨[], .nil, .nil⟩
  | blank is _ ih =>
    obtain ⟨us, read, same⟩ := ih _
    exact ⟨us, .blank is read, same⟩
  | line slash _ ih =>
    obtain ⟨us, read, same⟩ := ih _
    exact ⟨us, .line slash read, same⟩
  | block star _ ih =>
    obtain ⟨us, read, same⟩ := ih _
    exact ⟨us, .block star read, same⟩
  | @token _ text _ _ lexeme _ ih =>
    obtain ⟨us, read, same⟩ := ih (pos' + Text.Utf8.size text)
    exact ⟨_, .token lexeme read, .cons rfl same⟩

/-- Where a text begins makes no difference but to the places of its tokens. -/
theorem scan_elsewhere (h : scan pos cs = .ok ts) (pos' : Nat) :
    ∃ us, scan pos' cs = .ok us ∧ SameTexts ts us := by
  obtain ⟨us, read, same⟩ := (scan_iff.1 h).elsewhere pos'
  exact ⟨us, read.scan, same⟩

end Catena.Token
