import Catena.Op
import Catena.Store
import Catena.Text.Utf16

/-!
# Values as text

Each value has two forms: the literal form (`dump`), which for scalars reads back as the same
value, and the plain form (`display`), which is what a program prints. Values inside containers
are always shown in their literal form.

As with equality, the recursion is bounded by the number of objects that can hold values.
-/

namespace Catena.Store

/-- One character of a string literal with the given quote. -/
def escapeChar (quote c : Char) : List Char :=
  if c = '\n' then ['\\', 'n']
  else if c = '\r' then ['\\', 'r']
  else if c = '\t' then ['\\', 't']
  else if c = '\\' then ['\\', '\\']
  else if c = quote then ['\\', c]
  else [c]

/-- A string literal. -/
def quoted (quote : Char) (cs : List Char) : String :=
  String.ofList (quote :: cs.flatMap (escapeChar quote) ++ [quote])

/-- The texts with a separator between them. -/
def joined (sep : String) (texts : List String) : String :=
  String.intercalate sep texts

/-- What is shown for a payload, given how to show the values inside it. -/
def showPayload (s : Store) (inner : Value → String) (literal : Bool) : Payload → String
  | .nil => "nil"
  | .bool b => if b then "true" else "false"
  | .int n => toString n.toInt
  | .ratio r => r.text
  | .char c => if literal then String.ofList ['\\', c] else String.singleton c
  | .wchar u =>
    let text := String.ofList (Text.Utf16.decodeLossy [u])
    if literal then "\\\\" ++ text else text
  | .str t => if literal then quoted '\'' t.toList else t
  | .wstr units =>
    let cs := Text.Utf16.decodeLossy units
    if literal then quoted '"' cs else String.ofList cs
  | .sym t => if literal then "#" ++ t else t
  | .func name => if literal then "&" ++ name else name
  | .type t => t.name
  | .label l => "@" ++ l.name
  | .lambda r =>
    let id := s.closures[r]?.elim 0 fun c => c.body.id
    "\x7blambda#" ++ toString id ++ "\x7d"
  | .bin r => "bin[" ++ joined " " ((s.binAt r).toList.map fun b => toString b.toNat) ++ "]"
  | .list r => "[" ++ joined " " ((s.listAt r).toList.map inner) ++ "]"
  | .table r =>
    "\x7b" ++ joined ", " ((s.tableAt r).map fun e => inner e.1 ++ ": " ++ inner e.2) ++ "\x7d"
  | .pair r =>
    match s.pairs[r]? with
    | some p => "pair(" ++ inner p.1 ++ " " ++ inner p.2 ++ ")"
    | none => "pair()"
  | .struct r => "struct(" ++ joined " " ((s.structAt r).toList.map inner) ++ ")"
  | .iter _ => "<iter>"
  | .file r => "<file " ++ s.files[r]?.elim "" (·.name) ++ ">"
  | .socket r => "<socket " ++ s.sockets[r]?.elim "" (·.addr) ++ ">"
  | .fiber r => "<fiber#" ++ toString (s.fibers[r]?.elim 0 (·.id)) ++ ">"
  | .thread r => "<thread#" ++ toString (s.threads[r]?.elim 0 (·.id)) ++ ">"
  | .error r => "error(" ++ (s.errorAt r).text ++ ")"

/-- What is shown for a value: a declared structure with its name and, in the literal form, the
names of its fields. -/
def showValue (s : Store) (inner : Value → String) (literal : Bool) (v : Value) : String :=
  match v.ty.behavior, v.payload with
  | .record name fields, .struct r =>
    let parts := (fields.zip (s.structAt r).toList).map fun p =>
      if literal then p.1 ++ ": " ++ inner p.2 else inner p.2
    name ++ "(" ++ joined " " parts ++ ")"
  | _, p => s.showPayload inner literal p

/-- The literal form of a value nested at most `fuel` deep. -/
def dumpWithin (s : Store) : (fuel : Nat) → Value → String
  | 0, _ => ""
  | fuel + 1, v => s.showValue (dumpWithin s fuel) true v

/-- The literal form of a value. -/
def dump (s : Store) (v : Value) : String :=
  s.dumpWithin (s.nesting + 1) v

/-- The plain form of a value. -/
def display (s : Store) (v : Value) : String :=
  s.showValue (s.dumpWithin s.nesting) false v

/-- The literal form with the type behind it. -/
def dumpTyped (s : Store) (v : Value) : String :=
  s.dump v ++ ": " ++ v.ty.name

/-- The program counter of a label that may not be known yet. -/
def labelText : Option Label → String
  | some l => l.pcText
  | none => "?"

/-- One operation as a line of a listing. -/
def opText (s : Store) (op : Op) : String :=
  match op with
  | .push v => "push " ++ s.dump v
  | .pushMany vs => "push" ++ String.join (vs.map fun v => " " ++ s.dump v)
  | .drop n => s!"drop {n}"
  | .check (some t) => s!"check {t.name}"
  | .check none => "check"
  | .deref name => s!"deref {name}"
  | .call name => s!"call {name}"
  | .ref name => s!"ref {name}"
  | .get name => s!"get ${name}"
  | .bind name => s!"bind {name}"
  | .fmt parts => s!"fmt ({parts.length} parts)"
  | .target l => s!"@{l.name} ({l.pcText})"
  | .jump name label => s!"jump {name} -> {labelText label}"
  | .lambda body kind skip => s!"lambda#{body.id} {kind.name} skip {labelText skip}"
  | .unlambda id => s!"unlambda#{id}"
  | .exit label _ =>
    match label.role with
    | some (kind, depth) => s!"{kind.name} {depth}"
    | none => s!"exit {label.name}"
  | .begin ownStack safety =>
    "begin" ++ (if ownStack then " own-stack" else "") ++ safety.elim "" (fun l => " " ++ l.name)
  | .try done => s!"try -> {done.pcText}"
  | .closeTest message => s!"end-test '{message}'"
  | .for (some l) => s!"for -> {l.pcText}"
  | .while (some l) => s!"while -> {l.pcText}"
  | .param id => s!"param#{id}"
  | .unparam id template => s!"unparam#{id} {template}"
  | .close | .closeList | .closeTry | .for none | .while none => op.name

end Catena.Store
