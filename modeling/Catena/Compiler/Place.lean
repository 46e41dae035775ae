import Catena.Compiler.Forms
import Catena.Compiler.Settle

/-!
# Placing operations

Once the operations have their final order, every label and lambda body gets its program counter,
wherever it is mentioned. `compile` is the whole way from source text to a unit that can be added
to a thread.
-/

namespace Catena

/-- The program counters of the labels and the lambda bodies of a unit. -/
structure Placement where
  labels : Dict (String × Bool) Nat := ∅
  entries : Dict Nat Nat := ∅

namespace Placement

/-- Where the operations put labels and lambda bodies, the first of them at `pc`. -/
def ofOps (p : Placement) (pc : Nat) : List Op → Placement
  | [] => p
  | .target l :: ops => ofOps { p with labels := p.labels.insert (l.name, l.anon) pc } (pc + 1) ops
  | .lambda body _ _ :: ops =>
    ofOps { p with entries := p.entries.insert body.id (pc + 1) } (pc + 1) ops
  | _ :: ops => ofOps p (pc + 1) ops

/-- The label with its place, if the unit has it and it has none yet. -/
def label (p : Placement) (l : Label) : Label :=
  { l with pc := l.pc.or (p.labels.find? (l.name, l.anon)) }

/-- The lambda body with its first program counter. -/
def body (p : Placement) (b : LambdaDef) : LambdaDef :=
  { b with entry := b.entry.or (p.entries.find? b.id) }

/-- A label as a value, with its place. -/
def value (p : Placement) (v : Value) : Value :=
  match v.payload with
  | .label l => { v with payload := .label (p.label l) }
  | _ => v

/-- The operation with every label and lambda body at its place. -/
def op (p : Placement) : Op → Op
  | .push v => .push (p.value v)
  | .pushMany vs => .pushMany (vs.map p.value)
  | .target l => .target (p.label l)
  | .jump name label => .jump name (label.map p.label)
  | .lambda body kind skip => .lambda (p.body body) kind (skip.map p.label)
  | .try done => .try (p.label done)
  | .for done => .for (done.map p.label)
  | .while done => .while (done.map p.label)
  | other => other

end Placement

/-- The outcome of a compilation: operations, and what becomes known with them. -/
structure Code where
  ops : List Op
  funcs : List PendingFunc
  convs : List PendingConv

namespace Compile

/-- Gives the operations their places from `base` on and makes the labels of the unit known. -/
def place (base : Nat) (ops : List Op) : Compile Code := do
  let labels := namedLabels ops
  ofExcept (← ask fun s => s.registry.checkLabels labels)
  let p := ({} : Placement).ofOps base ops
  note .compiler .debug fun _ =>
    s!"finalized {ops.length} ops at base {base}, {labels.length} named label(s)"
  alter fun s => { s with registry := s.registry.addLabels (labels.map p.label) }
  fun c => .ok
    { ops := ops.map p.op
      funcs := c.funcs.map fun f => { f with body := p.body f.body }
      convs := c.convs.map fun f => { f with body := p.body f.body } } c

/-- Compiles source text to operations from `base` on. -/
def source (text : String) (base : Nat) : Compile Code := do
  let ts ← tokens text 0
  note .compiler .debug fun _ => s!"compiling {ts.length} tokens at base {base}"
  let _ ← upTo (2 * text.length + 2) none ts
  let ops := (← get).ops.toList
  let code ← place base (← settle ops)
  note .compiler .debug fun _ => s!"compiled {code.ops.length} ops"
  return code

end Compile

end Catena
