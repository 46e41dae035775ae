/-!
# Settings

What can be set for an engine, and the names of its parts under which it logs.
-/

namespace Catena

/-- Settings of the compiler. -/
structure CompilerConfig where
  /-- How many rounds of rewriting are tried before giving up. -/
  maxPasses : Nat := 64
  /-- Whether neighbouring operations are merged. -/
  foldConstants : Bool := true
deriving DecidableEq, Repr, Inhabited

/-- Limits on running programs. -/
structure Limits where
  /-- The most values on one stack. -/
  maxStackSize : Nat := 65536
  /-- The most scopes of one thread. -/
  maxScopeDepth : Nat := 1024
  /-- The most sources in one poll set. -/
  pollSetSize : Nat := 64
  /-- The first pause, in milliseconds, when nothing is ready. -/
  backoffMin : Nat := 1
  /-- The longest pause, in milliseconds. -/
  backoffMax : Nat := 100
deriving DecidableEq, Repr, Inhabited

/-- Settings of an engine. -/
structure Config where
  compiler : CompilerConfig := {}
  limits : Limits := {}
deriving DecidableEq, Repr, Inhabited

/-- The parts of an engine. -/
inductive Phase
  | lexer
  | compiler
  | vm
  | thread
deriving DecidableEq, Repr

namespace Phase

/-- The word for the part. -/
def name : Phase → String
  | lexer => "lexer"
  | compiler => "compiler"
  | vm => "vm"
  | thread => "thread"

/-- The target of the part's log records. -/
def target (p : Phase) : String :=
  "tarn::" ++ p.name

/-- The parts in the order in which source text passes through them. -/
def all : List Phase := [lexer, compiler, vm, thread]

/-- The part with a given name. -/
def ofName? (text : String) : Option Phase :=
  all.find? fun p => p.name == text

end Phase

end Catena
