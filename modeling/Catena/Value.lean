import Catena.Dict
import Catena.Label
import Catena.Ratio
import Catena.Ty.Builtin

/-!
# Values

A value is a type together with a payload. Scalars are in the payload itself; everything that has
an identity of its own (lists, tables, closures, iterators, …) is a reference into the store, and
two such payloads are the same when the references are.
-/

namespace Catena

/-- A place in one of the arrays of the store. -/
abbrev Ref := Nat

/-- What a value holds. -/
inductive Payload
  | nil
  | bool (b : Bool)
  | int (n : Int64)
  | ratio (r : Ratio)
  | char (c : Char)
  | wchar (u : UInt16)
  | str (s : String)
  | wstr (units : List UInt16)
  | sym (name : String)
  | func (name : String)
  | type (t : Ty)
  | label (l : Label)
  | lambda (ref : Ref)
  | bin (ref : Ref)
  | list (ref : Ref)
  | table (ref : Ref)
  | pair (ref : Ref)
  | struct (ref : Ref)
  | iter (ref : Ref)
  | file (ref : Ref)
  | socket (ref : Ref)
  | fiber (ref : Ref)
  | thread (ref : Ref)
  | error (ref : Ref)
deriving Inhabited

namespace Payload

/-- Scalars with the same content, or the same object of the store. -/
def identical : Payload → Payload → Bool
  | nil, nil => true
  | bool a, bool b => a == b
  | int a, int b => a == b
  | ratio a, ratio b => a == b
  | char a, char b => a == b
  | wchar a, wchar b => a == b
  | str a, str b => a == b
  | wstr a, wstr b => a == b
  | sym a, sym b => a == b
  | func a, func b => a == b
  | type a, type b => a.id == b.id
  | label a, label b => a.name == b.name && a.anon == b.anon
  | lambda a, lambda b => a == b
  | bin a, bin b => a == b
  | list a, list b => a == b
  | table a, table b => a == b
  | pair a, pair b => a == b
  | struct a, struct b => a == b
  | iter a, iter b => a == b
  | file a, file b => a == b
  | socket a, socket b => a == b
  | fiber a, fiber b => a == b
  | thread a, thread b => a == b
  | error a, error b => a == b
  | _, _ => false

end Payload

/-- A value: its type and what it holds. -/
structure Value where
  ty : Ty
  payload : Payload
deriving Inhabited

/-- The variables in force. -/
abbrev Env := Dict String Value

namespace Value

def nil : Value := ⟨.nil, .nil⟩
def bool (b : Bool) : Value := ⟨.bool, .bool b⟩
def int (n : Int64) : Value := ⟨.int, .int n⟩
def nat (n : Nat) : Value := int (Int64.ofNat n)
def ratio (r : Ratio) : Value := ⟨.ratio, .ratio r⟩
def char (c : Char) : Value := ⟨.char, .char c⟩
def wchar (u : UInt16) : Value := ⟨.wchar, .wchar u⟩
def str (s : String) : Value := ⟨.str, .str s⟩
def wstr (units : List UInt16) : Value := ⟨.wstr, .wstr units⟩
def sym (name : String) : Value := ⟨.sym, .sym name⟩
def func (name : String) : Value := ⟨.func, .func name⟩
def type (t : Ty) : Value := ⟨.type, .type t⟩
def label (l : Label) : Value := ⟨.label, .label l⟩

/-- Whether the value's type lies below `t`. -/
def isa (v : Value) (t : Ty) : Bool := v.ty.isa t

/-- Everything counts as true except `nil` and `false`. -/
def truthy (v : Value) : Bool :=
  match v.payload with
  | .nil | .bool false => false
  | _ => true

def int? (v : Value) : Option Int64 :=
  match v.payload with
  | .int n => some n
  | _ => none

def ratio? (v : Value) : Option Ratio :=
  match v.payload with
  | .ratio r => some r
  | _ => none

def str? (v : Value) : Option String :=
  match v.payload with
  | .str s => some s
  | _ => none

def sym? (v : Value) : Option String :=
  match v.payload with
  | .sym s => some s
  | _ => none

def type? (v : Value) : Option Ty :=
  match v.payload with
  | .type t => some t
  | _ => none

/-- Scalars with the same content, or the same object of the store. -/
def same (a b : Value) : Bool := a.payload.identical b.payload

end Value

end Catena
