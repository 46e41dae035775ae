/-!
# Labels and lambda bodies

Both name places in a sequence of operations. Their program counters are unknown (`none`) while a
source is being compiled and are filled in once its operations have their final order.
-/

namespace Catena

/-- The structured exits. -/
inductive ExitKind
  | return
  | recall
  | yield
  | break
deriving DecidableEq, Repr

namespace ExitKind

/-- The keyword of the exit. -/
def name : ExitKind → String
  | .return => "return"
  | .recall => "recall"
  | .yield => "yield"
  | .break => "break"

end ExitKind

/-- A place to jump to, or a structured exit. An anonymous label is made by the compiler and never
found by name. -/
structure Label where
  name : String
  anon : Bool
  /-- The exit and its depth, for a label that stands for one. -/
  role : Option (ExitKind × Nat) := none
  pc : Option Nat := none
deriving DecidableEq, Repr

namespace Label

/-- A label that a program wrote. -/
def named (name : String) : Label := ⟨name, false, none, none⟩

/-- A label made by the compiler. -/
def fresh (hint : String) (id : Nat) : Label := ⟨s!"{hint}#{id}", true, none, none⟩

/-- The label of a structured exit. -/
def exit (kind : ExitKind) (depth id : Nat) : Label :=
  ⟨s!"{kind.name}{depth}#{id}", true, some (kind, depth), none⟩

/-- The program counter in decimal, or a question mark. -/
def pcText (l : Label) : String :=
  match l.pc with
  | some pc => toString pc
  | none => "?"

end Label

/-- The body of a lambda: its id, the name of the function or conversion it belongs to, and its
first program counter. -/
structure LambdaDef where
  id : Nat
  name : Option String
  entry : Option Nat := none
deriving DecidableEq, Repr

end Catena
