import Catena.Iterator
import Catena.Safety

/-!
# Overloads

A function name stands for a set of implementations, each with a safety level and one predicate
per argument. Arguments are numbered from the left; the last one is on top of the stack.
-/

namespace Catena

/-- A test on a value that is not a matter of subtyping. -/
inductive Predicate
  /-- Values that can be read from and written to. -/
  | stream
  /-- The given type itself, as a value. -/
  | isType (id : Nat)
  /-- The given integer. -/
  | isInt (n : Int64)
deriving DecidableEq, Repr

namespace Predicate

/-- Whether the value passes the test. -/
def holds (p : Predicate) (v : Value) : Bool :=
  match p with
  | stream => v.ty.behavior.isStream
  | isType id =>
    match v.payload with
    | .type t => t.id == id
    | _ => false
  | isInt n => v.int? == some n

end Predicate

/-- What an implementation asks of one argument. -/
inductive Arg
  | type (t : Ty)
  /-- The very type of argument `n`. -/
  | same (n : Nat)
  /-- A subtype of the `k`-th type argument of the type of argument `n`. -/
  | typeArg (n k : Nat)
  | pred (p : Predicate)

/-- How an argument fits: it does, it does not, or it would after a conversion to a type. -/
inductive ArgMatch
  | yes
  | no
  | convert (target : Ty)

namespace Arg

/-- How value `v` fits as an argument of a call with the given window. -/
def check (window : Array Value) (v : Value) : Arg → ArgMatch
  | type t => if v.isa t then .yes else .convert t
  | same n =>
    match window[n]? with
    | some other => if other.ty.id == v.ty.id then .yes else .no
    | none => .no
  | typeArg n k =>
    match window[n]?.bind fun o => o.ty.args[k]? with
    | some t => if v.isa t then .yes else .convert t
    | none => .no
  | pred p => if p.holds v then .yes else .no

/-- The argument as written in a signature. -/
def text : Arg → String
  | type t => t.name
  | same n => s!"%{n}"
  | typeArg n k => s!"%{n}.{k}"
  | pred _ => "<pred>"

end Arg

/-- The checked operations on integers. -/
inductive IntOp
  | add
  | sub
  | mul
  | div
  | mod
deriving DecidableEq, Repr

/-- The checked operations on rationals. -/
inductive RatioOp
  | add
  | sub
  | mul
  | div
deriving DecidableEq, Repr

/-- The tests on the order of two values. -/
inductive OrderTest
  | lt
  | gt
  | le
  | ge
deriving DecidableEq, Repr

/-- What a function that the embedding program supplies does: takes `pops` values, pushes the given
ones, and then fails, jumps, unwinds or goes on. A function that sets the program counter or runs the
thread itself is none of these. -/
structure HostCall where
  pops : Nat
  push : List Value
  raise : Option String
  jump : Option Nat
  unwind : Option Nat

/-- The functions that are not written in the language itself. -/
inductive Native
  | dup
  | swap
  | rot
  | reset
  | stash
  | depth
  | intOp (op : IntOp)
  | ratioOp (op : RatioOp)
  | makeRatio
  | equal
  | same
  | order (test : OrderTest)
  | not
  | typeOf
  | isa
  | is
  | call
  | choose
  | defer
  | len
  | push
  | pop
  | listGet
  | tableGet
  | listPut
  | tablePut
  | pair
  | left
  | right
  | list
  | table
  | bin
  | strBin
  | str
  | binStr
  | iter
  | next
  | range
  | filter
  | map
  | zip
  | rand
  | openFile
  | readIter
  | write
  | say
  | dir (recursive : Bool)
  | listen
  | acceptIter
  | connectIter
  | poll
  | fiber
  | fiberDone
  | thread
  | join
  | raise
  | reraise
  | errors
  | errorKind
  | errorMessage
  | clearErrors
  /-- Makes a value of a declared structure type with that many fields. -/
  | construct (ty : Ty) (fields : Nat)
  | field (index : Nat)
  | setField (index : Nat)
  /-- A function of the embedding program. -/
  | host (f : HostCall)
  /-- A function of the embedding program that makes an iterator of its own. -/
  | hostIter (answers : Nat → Except Fault Pulled) (item : Ty)
  /-- A function of the embedding program that makes an iterator which keeps its caller waiting. -/
  | hostPend

/-- The body of an implementation. -/
inductive Body
  | native (f : Native)
  | lambda (body : LambdaDef)

/-- One implementation of a function. -/
structure Imp where
  id : Nat
  name : String
  args : List Arg
  safety : Safety
  body : Body

namespace Imp

/-- Name, arguments and safety level. -/
def text (imp : Imp) : String :=
  let args := String.intercalate ", " (imp.args.map Arg.text)
  s!"{imp.name}[{args}]:{imp.safety.name}"

end Imp

end Catena
