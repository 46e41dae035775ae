import Catena.Compiler.State

/-!
# Settling operations

Rounds of two steps over the whole sequence until neither changes anything. The first looks up
names (`refresh`), the second merges neighbours and puts loops into their final shape (`rewrite`).
Labels stay without program counters throughout.
-/

namespace Catena

/-! ## Before the first round -/

/-- Names every label of the unit once, and gives each lambda the label behind its end. `named` are
the names so far. -/
def addSkips (named : List String) : List Op → Except Fault (List Op)
  | [] => .ok []
  | .lambda body kind none :: ops => do
    return .lambda body kind (some (.fresh "skip" body.id)) :: (← addSkips named ops)
  | .unlambda id :: ops => do
    return .unlambda id :: .target (.fresh "skip" id) :: (← addSkips named ops)
  | .target l :: ops =>
    if l.anon then do return .target l :: (← addSkips named ops)
    else if named.contains l.name then .error (Fault.labelTwice l.name)
    else do return .target l :: (← addSkips (l.name :: named) ops)
  | op :: ops => do return op :: (← addSkips named ops)

/-! ## Looking up names -/

/-- The names that operations can refer to. -/
structure Names where
  isFunc : String → Bool
  type? : String → Option Ty
  label? : String → Option Label

/-- The labels that a program wrote into the operations. -/
def namedLabels (ops : List Op) : List Label :=
  ops.filterMap fun op =>
    match op with
    | .target l => if l.anon then none else some l
    | _ => none

namespace Names

/-- Looks up the name in one operation; `inside` are the lambdas around it, innermost first. `none`
if there is nothing to look up or nothing to be found. -/
def refresh? (n : Names) (inside : List Nat) : Op → Option Op
  | .jump name none => (n.label? name).map fun l => .jump name (some l)
  | .deref name =>
    if n.isFunc name then some (.call name) else (n.type? name).map fun t => .push (.type t)
  | .ref name =>
    if n.isFunc name then some (.push (.func name))
    else (n.label? name).map fun l => .push (.label l)
  | .exit label none =>
    match label.role with
    | some (.break, _) | none => none
    | some (_, depth) => inside[depth]?.map fun id => .exit label (some id)
  | _ => none

/-- The lambdas around the operations that follow. -/
def enclosing (inside : List Nat) : Op → List Nat
  | .lambda body _ _ => body.id :: inside
  | .unlambda _ => inside.tail
  | _ => inside

/-- Looks up names in operations. Answers whether that changed anything. -/
def refresh (n : Names) (inside : List Nat) : List Op → List Op × Bool
  | [] => ([], false)
  | op :: ops =>
    let (rest, changed) := refresh n (enclosing inside op) ops
    match n.refresh? inside op with
    | some op => (op :: rest, true)
    | none => (op :: rest, changed)

end Names

/-! ## Merging neighbours

The operations already rewritten are kept newest first. -/

/-- Pushes more values behind the last operation, in one operation if that pushes already. Answers
whether operations were merged. -/
def mergePush (op : Op) (vs : List Value) : List Op → List Op × Bool
  | .push prev :: done => (.pushMany (prev :: vs) :: done, true)
  | .pushMany prev :: done => (.pushMany (prev ++ vs) :: done, true)
  | done => (op :: done, false)

/-- Takes up to `n` values away from the last operations, as far as those push. An operation that
drops values itself drops the rest too. Answers how many values are left to drop. -/
def absorbDrop (n : Nat) (done : List Op) : Nat × List Op :=
  if n = 0 then (0, done)
  else
    match done with
    | .push _ :: done => absorbDrop (n - 1) done
    | .pushMany vs :: done =>
      if vs.length ≤ n then absorbDrop (n - vs.length) done
      else (0, .pushMany (vs.take (vs.length - n)) :: done)
    | .drop m :: done => (0, .drop (m + n) :: done)
    | done => (n, done)
termination_by structural done

/-- A drop behind the last operation. Answers whether anything was merged. -/
def mergeDrop (n : Nat) (done : List Op) : List Op × Bool :=
  let (left, kept) := absorbDrop n done
  let after := if left = 0 then kept else .drop left :: kept
  (after, left ≠ n || after.length ≠ done.length + 1)

/-- The type pushed last, and the operations without that. -/
def takeType? : List Op → Option (Ty × List Op)
  | .push v :: done => v.type?.map (·, done)
  | .pushMany vs :: done => do
    let t ← (← vs.getLast?).type?
    let vs := vs.dropLast
    return (t, if vs.isEmpty then done else .pushMany vs :: done)
  | _ => none

/-- The types pushed since the bracket `id` was opened, and the operations before it. `none` if
anything else happened since. -/
def bracketTypes? (id : Nat) (args : List Ty) : List Op → Option (List Ty × List Op)
  | .param p :: done => if p = id then some (args, done) else none
  | .push v :: done => do bracketTypes? id ((← v.type?) :: args) done
  | .pushMany vs :: done => do bracketTypes? id ((← vs.mapM Value.type?) ++ args) done
  | _ => none

/-- A loop in its final shape: it jumps back after each round. -/
def loopOps (id : Nat) (op : Label → Op) : List Op :=
  let start := Label.fresh "loop" id
  let done := Label.fresh "done" id
  [.target start, op done, .jump start.name (some start), .target done]

namespace Compile

/-- Rewrites one operation behind the operations `done`. Answers whether that changed anything. -/
def rewriteOp (fold : Bool) (done : List Op) : Op → Compile (List Op × Bool)
  | .for none => do
    return ((loopOps (← freshId) fun l => .for (some l)).reverse ++ done, true)
  | .while none => do
    return ((loopOps (← freshId) fun l => .while (some l)).reverse ++ done, true)
  | .push v => return if fold then mergePush (.push v) [v] done else (.push v :: done, false)
  | .pushMany vs =>
    return if fold then mergePush (.pushMany vs) vs done else (.pushMany vs :: done, false)
  | .drop n => return if fold then mergeDrop n done else (.drop n :: done, false)
  | .check none =>
    match if fold then takeType? done else none with
    | some (t, done) => return (.check (some t) :: done, true)
    | none => return (.check none :: done, false)
  | .unparam id template =>
    match if fold then bracketTypes? id [] done else none with
    | some (args, done) => do
      let (t, registry) ← ofExcept (← ask fun s => s.registry.instantiateNamed template args)
      alter fun s => { s with registry }
      return (.push (.type t) :: done, true)
    | none => return (.unparam id template :: done, false)
  | op => return (op :: done, false)

/-- Rewrites operations behind the operations `done`. -/
def rewrite (fold changed : Bool) (done : List Op) : List Op → Compile (List Op × Bool)
  | [] => return (done.reverse, changed)
  | op :: ops => do
    let (done, merged) ← rewriteOp fold done op
    rewrite fold (changed || merged) done ops

/-- The names that the operations of the unit can refer to: its own first. -/
def names (ops : List Op) : Compile Names := fun c =>
  let registry := c.shared.registry
  let own := namedLabels ops
  .ok
    { isFunc := fun name => c.funcs.any (·.name == name) || registry.funcs.contains name
      type? := registry.types.find?
      label? := fun name => (own.find? fun l => l.name == name).or (registry.labels.find? name) } c

/-- Rounds of looking up and rewriting until nothing changes, `left` of them at most. -/
def rounds (config : CompilerConfig) : (left : Nat) → List Op → Compile (List Op)
  | 0, _ => fail (Fault.passLimit config.maxPasses)
  | left + 1, ops => do
    let (ops, refreshed) := (← names ops).refresh [] ops
    let (ops, rewritten) ← rewrite config.foldConstants false [] ops
    note .compiler .trace fun _ =>
      s!"pass {config.maxPasses - (left + 1)}: {ops.length} ops (refresh {refreshed}, rewrite {rewritten})"
    if refreshed || rewritten then rounds config left ops else return ops

/-- Brings operations into their final shape. -/
def settle (ops : List Op) : Compile (List Op) := do
  let config ← ask (·.config.compiler)
  rounds config config.maxPasses (← ofExcept (addSkips [] ops))

end Compile

end Catena
