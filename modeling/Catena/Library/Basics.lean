import Catena.Run.Reentry
import Catena.Store.Equality

/-!
# Stack, numbers, types and errors

The library functions that need nothing but the stack and the store.
-/

namespace Catena

namespace IntOp

/-- The name of the operation. -/
def name : IntOp → String
  | add => "+"
  | sub => "-"
  | mul => "*"
  | div => "/"
  | mod => "mod"

/-- The exact result, if there is one and it fits. Division goes toward zero; the remainder of `mod`
is never negative, and the one case in which the quotient does not fit has no remainder either. -/
def compute? (op : IntOp) (a b : Int64) : Option Int64 :=
  let (x, y) := (a.toInt, b.toInt)
  match op with
  | add => Text.int64? (x + y)
  | sub => Text.int64? (x - y)
  | mul => Text.int64? (x * y)
  | div => if y = 0 then none else Text.int64? (x.tdiv y)
  | mod => if y = 0 then none else (Text.int64? (x.tdiv y)).bind fun _ => Text.int64? (x.emod y)

end IntOp

namespace RatioOp

/-- The name of the operation. -/
def name : RatioOp → String
  | add => "+"
  | sub => "-"
  | mul => "*"
  | div => "/"

/-- The exact result, if there is one and it fits. -/
def compute? : RatioOp → Ratio → Ratio → Option Ratio
  | add => Ratio.add?
  | sub => Ratio.sub?
  | mul => Ratio.mul?
  | div => Ratio.div?

end RatioOp

namespace OrderTest

/-- Whether an order passes the test. -/
def holds : OrderTest → Ordering → Bool
  | lt, o => o == .lt
  | gt, o => o == .gt
  | le, o => o != .gt
  | ge, o => o != .lt

end OrderTest

namespace Run

def popRatio : Run Ratio := popAs "Rat" Value.ratio?

/-- Takes an error value. -/
def popError : Run Fault := do
  let v ← pop
  match v.payload with
  | .error e => askStore (·.errorAt e)
  | _ => fail (Fault.mismatch "Error" v.ty.name)

/-! ## The stack -/

def dup : Run Reply := do
  let v ← pop
  pushEach [v, v]
  return .next

def swap : Run Reply := do
  let values ← popN 2
  pushEach values.toList.reverse
  return .next

/-- The third value from the top comes to the top. -/
def rot : Run Reply := do
  let values ← popN 3
  pushEach (values.toList.drop 1 ++ values.toList.take 1)
  return .next

def reset : Run Reply := do
  alter (·.modifyStack fun _ => #[])
  return .next

/-- The whole stack becomes a list. -/
def stash : Run Reply := do
  let values ← ask Thread.stack
  alter (·.modifyStack fun _ => #[])
  push (← listFrom values)
  return .next

def depth : Run Reply := do
  push (.nat (← ask (·.stack.size)))
  return .next

/-! ## Numbers and order -/

def intOp (op : IntOp) : Run Reply := do
  let b ← popInt
  let a ← popInt
  push (.int (← orFail (Fault.overflow op.name) (op.compute? a b)))
  return .next

def ratioOp (op : RatioOp) : Run Reply := do
  let b ← popRatio
  let a ← popRatio
  push (.ratio (← orFail (Fault.overflow op.name) (op.compute? a b)))
  return .next

def makeRatio : Run Reply := do
  let den ← popInt
  let num ← popInt
  push (.ratio (← orFail (Fault.overflow "rat") (Ratio.new? num den)))
  return .next

def equal : Run Reply := do
  let b ← pop
  let a ← pop
  push (.bool (← askStore fun s => s.equals a b))
  return .next

def same : Run Reply := do
  let b ← pop
  let a ← pop
  push (.bool (a.same b))
  return .next

def order (test : OrderTest) : Run Reply := do
  let b ← pop
  let a ← pop
  let o ← orFail (Fault.noOrder a.ty.name b.ty.name) (← askStore fun s => s.compare? a b)
  push (.bool (test.holds o))
  return .next

def not : Run Reply := do
  let v ← pop
  push (.bool !v.truthy)
  return .next

/-! ## Types -/

def typeOf : Run Reply := do
  push (.type (← pop).ty)
  return .next

/-- Whether the first type lies below the second. -/
def isa : Run Reply := do
  let parent ← popType
  let child ← popType
  push (.bool (child.isa parent))
  return .next

/-- Whether a value's type lies below a type. -/
def is : Run Reply := do
  let t ← popType
  let v ← pop
  push (.bool (v.isa t))
  return .next

/-! ## Errors -/

def raise : Run Reply := do
  fail (Fault.user (← popStr))

def reraise : Run Reply := do
  fail (← popError)

/-- A list of error values. -/
def errorList (faults : List Fault) : Run Value := do
  listOf (← faults.toArray.mapM newError) .error

/-- The faults caught so far by the innermost `try:` form. -/
def errors : Run Reply := do
  let faults ← ask fun t => t.tries.back?.elim [] (·.faults)
  push (← errorList faults)
  return .next

def errorKind : Run Reply := do
  push (.sym (← popError).kind.name)
  return .next

def errorMessage : Run Reply := do
  push (.str (← popError).message)
  return .next

/-- Forgets the faults of a kind and counts them. -/
def clearErrors : Run Reply := do
  let name ← popSym
  let kind ← orFail (Fault.unknownKind name) (Fault.Kind.ofName? name)
  let faults ← ask fun t => t.tries.back?.elim [] (·.faults)
  let kept := faults.filter fun f => f.kind ≠ kind
  alter fun t =>
    { t with tries := t.tries.modify (t.tries.size - 1) fun f => { f with faults := kept } }
  push (.nat (faults.length - kept.length))
  return .next

end Run

end Catena
