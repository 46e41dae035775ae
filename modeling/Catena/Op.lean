import Catena.Safety
import Catena.Value

/-!
# Operations

What source text is compiled to and what a thread executes. A label or a lambda body inside an
operation knows its program counter once the compiler has fixed the order of the operations.
-/

namespace Catena

/-- A lambda either becomes a closure where it stands, or is the body of a function or conversion
and is only skipped. -/
inductive LambdaKind
  | closure
  | body
deriving DecidableEq, Repr

namespace LambdaKind

def name : LambdaKind → String
  | closure => "Closure"
  | body => "Body"

end LambdaKind

/-- A piece of an interpolated string: text, or a variable shown plainly or in its literal form. -/
inductive FmtPart
  | text (s : String)
  | var (name : String) (literal : Bool)
deriving DecidableEq, Repr

/-- One operation. -/
inductive Op
  | push (v : Value)
  | pushMany (vs : List Value)
  | drop (n : Nat)
  /-- Checks the type of the top value; without a type, the type is taken from the stack first. -/
  | check (ty : Option Ty)
  /-- A name to be looked up when it is met: a function first, then a type. -/
  | deref (name : String)
  | call (name : String)
  /-- A reference to a function or a label. -/
  | ref (name : String)
  | get (name : String)
  | bind (name : String)
  | fmt (parts : List FmtPart)
  | target (l : Label)
  | jump (name : String) (label : Option Label)
  | lambda (body : LambdaDef) (kind : LambdaKind) (skip : Option Label)
  | unlambda (id : Nat)
  /-- A structured exit, with the innermost lambda it belongs to. -/
  | exit (label : Label) (lambda : Option Nat)
  | begin (ownStack : Bool) (safety : Option Safety)
  | close
  | closeList
  | try (done : Label)
  | closeTry
  | closeTest (message : String)
  | for (done : Option Label)
  | while (done : Option Label)
  /-- Opens the brackets of a generic type. -/
  | param (id : Nat)
  | unparam (id : Nat) (template : String)
deriving Inhabited

namespace Op

/-- The word for the operation. -/
def name : Op → String
  | push _ => "push"
  | pushMany _ => "push-many"
  | drop _ => "drop"
  | check _ => "check"
  | deref _ => "deref"
  | call _ => "call"
  | ref _ => "ref"
  | get _ => "get"
  | bind _ => "bind"
  | fmt _ => "fmt"
  | target _ => "target"
  | jump .. => "jump"
  | lambda .. => "lambda"
  | unlambda _ => "unlambda"
  | exit .. => "exit"
  | begin .. => "begin"
  | close => "end"
  | closeList => "end-list"
  | .try _ => "try"
  | closeTry => "end-try"
  | closeTest _ => "end-test"
  | .for _ => "for"
  | .while _ => "while"
  | param _ => "param"
  | unparam .. => "unparam"

end Op

end Catena
