/-!
# Faults

What can go wrong while text is read, compiled or run. A fault is also a value of the language: a
program can catch it, ask for its kind and message, and raise it again, so a `Fault` carries both.
Every wording stands here; the rest of the library names causes.
-/

namespace Catena

/-- The kinds of fault. -/
inductive Fault.Kind
  | unknownId
  | unknownLabel
  | unsafeCall
  | stackUnderflow
  | stackOverflow
  | notApplicable
  | notCallable
  | typeMismatch
  | malformedMacro
  | badLiteral
  | unbalancedBraces
  | unterminatedString
  | genericArity
  | unknownTemplate
  | arithmetic
  | indexOutOfBounds
  | io
  | duplicateRegistration
  | testFailed
  | user
  | thread
  | passLimit
deriving DecidableEq, Repr, Inhabited

namespace Fault.Kind

/-- The symbol by which programs know the kind. -/
def name : Kind → String
  | unknownId => "unknown-id"
  | unknownLabel => "unknown-label"
  | unsafeCall => "unsafe-call"
  | stackUnderflow => "stack-underflow"
  | stackOverflow => "stack-overflow"
  | notApplicable => "not-applicable"
  | notCallable => "not-callable"
  | typeMismatch => "type-mismatch"
  | malformedMacro => "malformed-macro"
  | badLiteral => "bad-literal"
  | unbalancedBraces => "unbalanced-braces"
  | unterminatedString => "unterminated-string"
  | genericArity => "generic-arity"
  | unknownTemplate => "unknown-template"
  | arithmetic => "arithmetic"
  | indexOutOfBounds => "index-out-of-bounds"
  | io => "io"
  | duplicateRegistration => "duplicate-registration"
  | testFailed => "test-failed"
  | user => "user"
  | thread => "thread"
  | passLimit => "pass-limit"

/-- Every kind, once. -/
def all : List Kind :=
  [unknownId, unknownLabel, unsafeCall, stackUnderflow, stackOverflow, notApplicable, notCallable,
   typeMismatch, malformedMacro, badLiteral, unbalancedBraces, unterminatedString, genericArity,
   unknownTemplate, arithmetic, indexOutOfBounds, io, duplicateRegistration, testFailed, user,
   thread, passLimit]

/-- The kind with a given symbol. -/
def ofName? (text : String) : Option Kind :=
  all.find? fun k => k.name == text

/-- Kinds that only reading and compiling give rise to. -/
def isCompileTime : Kind → Bool
  | unbalancedBraces | unterminatedString | malformedMacro | badLiteral | passLimit => true
  | _ => false

theorem mem_all (k : Kind) : k ∈ all := by cases k <;> decide

theorem ofName?_name (k : Kind) : ofName? k.name = some k := by cases k <;> decide

end Fault.Kind

/-- A fault: its kind, what it says, and the byte offset in the source where that is known. -/
structure Fault where
  kind : Fault.Kind
  message : String
  pos : Option Nat := none
deriving DecidableEq, Repr, Inhabited

namespace Fault

/-- The fault at byte `pos`, unless it already knows a more precise place. -/
def locate (f : Fault) (pos : Nat) : Fault :=
  { f with pos := f.pos.or (some pos) }

/-- The kind and the message. -/
def text (f : Fault) : String :=
  s!"{f.kind.name}: {f.message}"

/-! ## Reading and compiling -/

def unterminatedString : Fault := ⟨.unterminatedString, "unterminated string literal", none⟩

def unclosedBrace : Fault := ⟨.unbalancedBraces, "unclosed '\x7b'", none⟩

def unmatched (what : String) : Fault := ⟨.unbalancedBraces, s!"unmatched '{what}'", none⟩

def missingClosing (what : String) : Fault :=
  ⟨.unbalancedBraces, s!"missing closing '{what}'", none⟩

def malformed (message : String) : Fault := ⟨.malformedMacro, message, none⟩

def missingSemicolon : Fault := malformed "missing terminating ';'"

def unexpectedSemicolon : Fault := malformed "unexpected ';'"

def expects (macroName what : String) : Fault := malformed s!"'{macroName}' expects {what}"

def signatureOnly (expr : String) : Fault :=
  malformed s!"'{expr}' is only valid in a function signature"

def badNumber (text : String) : Fault := ⟨.badLiteral, s!"bad number literal '{text}'", none⟩

def badRatio (text : String) : Fault :=
  ⟨.arithmetic, s!"zero denominator or overflow in '{text}'", none⟩

def badCharacter (text : String) : Fault :=
  ⟨.badLiteral, s!"bad character literal '{text}'", none⟩

def danglingEscape : Fault := ⟨.badLiteral, "dangling escape in string", none⟩

def badTypeExpr (text what : String) (pos : Nat) : Fault :=
  ⟨.badLiteral, s!"bad type expression '{text}': {what} at {pos}", none⟩

def unknownType (name : String) : Fault := ⟨.unknownId, s!"unknown type '{name}'", none⟩

def passLimit (limit : Nat) : Fault :=
  ⟨.passLimit, s!"compilation did not settle within {limit} passes", none⟩

def labelTwice (name : String) : Fault :=
  ⟨.duplicateRegistration, s!"label '{name}' defined twice", none⟩

def labelTaken (name : String) : Fault :=
  ⟨.duplicateRegistration, s!"label '{name}' already defined", none⟩

/-! ## Types and names -/

def typeTaken (name : String) : Fault :=
  ⟨.duplicateRegistration, s!"type '{name}' already registered", none⟩

def notTemplate (name : String) : Fault :=
  ⟨.unknownTemplate, s!"'{name}' is not a generic template", none⟩

def unknownTemplate (name : String) : Fault :=
  ⟨.unknownTemplate, s!"unknown generic template '{name}'", none⟩

def genericArity (name : String) (params got : Nat) : Fault :=
  ⟨.genericArity, s!"{name} takes {params} type argument(s), got {got}", none⟩

def unknownId (name : String) : Fault := ⟨.unknownId, s!"unknown identifier '{name}'", none⟩

def unknownKind (name : String) : Fault := ⟨.unknownId, s!"unknown error kind '{name}'", none⟩

def alreadyBound (name : String) : Fault :=
  ⟨.duplicateRegistration, s!"'{name}' is already bound in this scope", none⟩

def mismatch (expected found : String) : Fault :=
  ⟨.typeMismatch, s!"expected {expected}, found {found}", none⟩

def noOrder (left right : String) : Fault :=
  ⟨.typeMismatch, s!"cannot order {left} and {right}", none⟩

def noLength (type : String) : Fault := ⟨.typeMismatch, s!"{type} has no length", none⟩

def notIterable (type : String) : Fault := ⟨.typeMismatch, s!"{type} is not iterable", none⟩

/-! ## Calls -/

def notCallable (value : String) : Fault := ⟨.notCallable, s!"{value} is not callable", none⟩

def notAllowed (name level : String) : Fault :=
  ⟨.unsafeCall, s!"'{name}' is not allowed at safety level {level}", none⟩

def notApplicable (name window : String) : Fault :=
  ⟨.notApplicable, s!"'{name}' is not applicable to {window}", none⟩

def underflow (what : String) : Fault := ⟨.stackUnderflow, s!"stack underflow in {what}", none⟩

def rootScope : Fault := ⟨.stackUnderflow, "cannot close the root scope", none⟩

def stackLimit (limit : Nat) : Fault := ⟨.stackOverflow, s!"value stack exceeds {limit}", none⟩

def scopeLimit (limit : Nat) : Fault := ⟨.stackOverflow, s!"scope depth exceeds {limit}", none⟩

/-! ## Jumps and exits -/

def unknownLabel (name : String) : Fault := ⟨.unknownLabel, s!"unknown label '{name}'", none⟩

def unresolvedLabel (name : String) : Fault :=
  ⟨.unknownLabel, s!"label '{name}' is unresolved", none⟩

def noEndLabel (what : String) : Fault := ⟨.unknownLabel, s!"{what} has no end label", none⟩

def notExitLabel (name : String) : Fault :=
  ⟨.unknownLabel, s!"'{name}' is not an exit label", none⟩

def noEntry (lambda : Nat) : Fault :=
  ⟨.unknownLabel, s!"lambda#{lambda} has no resolved entry", none⟩

def noRecallEntry : Fault := ⟨.unknownLabel, "recalled lambda has no resolved entry", none⟩

def noLambda (depth : Nat) : Fault :=
  ⟨.unknownLabel, s!"no enclosing lambda at depth {depth}", none⟩

def noLoop (depth : Nat) : Fault := ⟨.unknownLabel, s!"no enclosing loop at depth {depth}", none⟩

def exitCrosses : Fault := ⟨.thread, "non-local exit crosses a native call boundary", none⟩

def yieldCrosses : Fault := ⟨.thread, "yield crosses a native call boundary", none⟩

def recallCrosses : Fault := ⟨.thread, "recall crosses a native call boundary", none⟩

def yieldOutside : Fault := ⟨.thread, "yield outside of a lambda", none⟩

def recallOutside : Fault := ⟨.thread, "recall outside of a lambda", none⟩

def noTryFrame : Fault := ⟨.thread, "end of try without a frame", none⟩

def corruptLoop : Fault := ⟨.thread, "corrupt loop state", none⟩

/-! ## Library functions -/

def overflow (op : String) : Fault := ⟨.arithmetic, s!"'{op}' overflows or divides by zero", none⟩

def notByte (n : Int64) : Fault := ⟨.arithmetic, s!"{n.toInt} is not a byte", none⟩

def randomBound (bound : Int64) : Fault :=
  ⟨.arithmetic, s!"rand needs a positive bound, got {bound.toInt}", none⟩

def outOfBounds (index : Int64) (length : Nat) : Fault :=
  ⟨.indexOutOfBounds, s!"index {index.toInt} out of bounds for length {length}", none⟩

def pollSetFull (capacity : Nat) : Fault :=
  ⟨.indexOutOfBounds, s!"poll set is full ({capacity} entries)", none⟩

def user (message : String) : Fault := ⟨.user, message, none⟩

def testFailed (message got : String) : Fault := ⟨.testFailed, s!"{message} (got {got})", none⟩

def busyIterator : Fault := ⟨.thread, "iterator is already being advanced", none⟩

def busyFiber (id : Nat) : Fault := ⟨.thread, s!"fiber#{id} is already running", none⟩

def joinedThread (id : Nat) : Fault := ⟨.thread, s!"thread {id} was already joined", none⟩

def fileMode (mode : String) : Fault := ⟨.badLiteral, s!"unknown file mode '{mode}'", none⟩

def io (message : String) : Fault := ⟨.io, message, none⟩

def notDirectory (path : String) : Fault := io s!"{path}: not a directory"

end Fault

end Catena
