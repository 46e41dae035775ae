/-!
# Safety levels

Every implementation declares how much it may do, and every scope how much it allows. The levels
are linearly ordered; a call is allowed when the implementation's level is not above the scope's.
-/

namespace Catena

/-- How much an implementation does, or a scope allows. -/
inductive Safety
  | pure
  | const
  | safe
  | unrestricted
deriving DecidableEq, Repr, Inhabited

namespace Safety

/-- The place of the level in the order. -/
def rank : Safety → Nat
  | pure => 0
  | const => 1
  | safe => 2
  | unrestricted => 3

instance : LE Safety := ⟨fun a b => a.rank ≤ b.rank⟩

instance (a b : Safety) : Decidable (a ≤ b) := inferInstanceAs (Decidable (a.rank ≤ b.rank))

/-- The word for the level. -/
def name : Safety → String
  | pure => "pure"
  | const => "const"
  | safe => "safe"
  | unrestricted => "unsafe"

/-- The level a word stands for. -/
def ofName? (text : String) : Option Safety :=
  [pure, const, safe, unrestricted].find? fun s => s.name == text

theorem le_refl (s : Safety) : s ≤ s := Nat.le_refl _

theorem le_trans {a b c : Safety} (h₁ : a ≤ b) (h₂ : b ≤ c) : a ≤ c := Nat.le_trans h₁ h₂

theorem le_total (a b : Safety) : a ≤ b ∨ b ≤ a := Nat.le_total _ _

end Safety

end Catena
