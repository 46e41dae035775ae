import Catena.Proofs.Run.Change
import Catena.Run.Coroutine

/-!
# All values of a machine

What holds of every value that a machine has anywhere: on the stacks of its thread, in variables, in
scopes and what was cut out of them, in operations, and in the objects of the store. Opening, closing,
cutting and putting back scopes only move values about.
-/

namespace Catena

variable {κ α : Type} {P Q : Value → Prop}

/-! ## Maps and arrays -/

/-- All values of a map. -/
def Dict.All (A : α → Prop) (d : Dict κ α) : Prop :=
  ∀ e ∈ d.entries, A e.2

namespace Dict.All

variable {A B : α → Prop} {d : Dict κ α}

theorem empty : (∅ : Dict κ α).All A := nofun

theorem mono (h : ∀ a, A a → B a) (all : d.All A) : d.All B :=
  fun e member => h _ (all e member)

theorem filterKeys (p : κ → Bool) (all : d.All A) : (d.filterKeys p).All A :=
  fun e member => all e (List.mem_filter.1 member).1

variable [DecidableEq κ]

theorem lookup_mem {k : κ} {a : α} {es : List (κ × α)} (h : lookup k es = some a) : (k, a) ∈ es := by
  induction es with
  | nil => cases h
  | cons e es ih =>
    rw [lookup] at h
    split at h
    · rename_i same
      obtain rfl := Option.some.inj h
      exact same ▸ List.mem_cons_self
    · exact List.mem_cons_of_mem _ (ih h)

theorem find? (all : d.All A) {k : κ} {a : α} (h : d.find? k = some a) : A a :=
  all (k, a) (lookup_mem h)

theorem put_mem {k : κ} {a : α} {es : List (κ × α)} {e : κ × α} (h : e ∈ put k a es) :
    e = (k, a) ∨ e ∈ es := by
  induction es with
  | nil => exact .inl (List.mem_singleton.1 h)
  | cons e' es ih =>
    rw [put] at h
    split at h
    · rcases List.mem_cons.1 h with same | member
      · exact .inl same
      · exact .inr (List.mem_cons_of_mem _ member)
    · rcases List.mem_cons.1 h with rfl | member
      · exact .inr List.mem_cons_self
      · exact (ih member).imp_right (List.mem_cons_of_mem _)

theorem insert (all : d.All A) {k : κ} {a : α} (h : A a) : (d.insert k a).All A := by
  intro e member
  rcases put_mem member with rfl | old
  · exact h
  · exact all e old

theorem erase (all : d.All A) (k : κ) : (d.erase k).All A :=
  fun e member => all e (List.mem_filter.1 member).1

end Dict.All

namespace Values

/-- What holds of all objects of an array still does when one of them is changed with care. -/
theorem modify {A : α → Prop} {xs : Array α} {i : Nat} {f : α → α} (h : ∀ x ∈ xs, A x)
    (keep : ∀ x, A x → A (f x)) : ∀ x ∈ xs.modify i f, A x := by
  intro x member
  obtain ⟨j, bound, rfl⟩ := Array.mem_iff_getElem.1 member
  have inside : j < xs.size := by simpa using bound
  have old := h xs[j] (Array.getElem_mem inside)
  rw [Array.getElem_modify]
  split
  · exact keep _ old
  · exact old

theorem set {A : α → Prop} {xs : Array α} {i : Nat} {a : α} (h : ∀ x ∈ xs, A x) (ha : A a) :
    ∀ x ∈ xs.setIfInBounds i a, A x := by
  intro x member
  rcases Array.mem_or_eq_of_mem_setIfInBounds member with old | rfl
  · exact h x old
  · exact ha

theorem pushed {A : α → Prop} {xs : Array α} {a : α} (h : ∀ x ∈ xs, A x) (ha : A a) :
    ∀ x ∈ xs.push a, A x := by
  intro x member
  rcases Array.mem_push.1 member with old | rfl
  · exact h x old
  · exact ha

theorem popped {A : α → Prop} {xs : Array α} (h : ∀ x ∈ xs, A x) : ∀ x ∈ xs.pop, A x := by
  intro x member
  rw [← Array.mem_toList_iff, Array.toList_pop] at member
  exact h x (Array.mem_toList_iff.1 (List.dropLast_subset _ member))

theorem mapped {β : Type} {A : β → Prop} {xs : Array α} {f : α → β} (h : ∀ x ∈ xs, A (f x)) :
    ∀ y ∈ xs.map f, A y := by
  intro y member
  obtain ⟨x, inside, rfl⟩ := Array.mem_map.1 member
  exact h x inside

theorem extracted {A : α → Prop} {xs : Array α} (i j : Nat) (h : ∀ x ∈ xs, A x) :
    ∀ x ∈ xs.extract i j, A x := by
  intro x member
  obtain ⟨k, -, -, inside, rfl⟩ := Array.mem_extract_iff_getElem.1 member
  exact h _ (Array.getElem_mem _)

end Values

/-! ## Where values are -/

/-- What a loop calls in every round. -/
def LoopKind.body : LoopKind → Value
  | .for _ body => body
  | .while body => body

/-- All values of a scope. -/
structure Scope.All (P : Value → Prop) (s : Scope) : Prop where
  bound : ∀ b ∈ s.bound, ∀ v, b.2 = some v → P v
  caller : ∀ env, s.callerEnv = some env → env.All P
  callee : ∀ c, s.callee = some c → c.env.All P
  loops : s.loops.All fun l => P l.kind.body
  defers : ∀ v ∈ s.defers, P v

/-- All values of a coroutine. -/
structure Coroutine.All (P : Value → Prop) (c : Coroutine) : Prop where
  scopes : ∀ s ∈ c.scopes, s.All P
  valueStacks : ∀ s ∈ c.valueStacks, ∀ v ∈ s, P v
  env : c.env.All P

/-- All values of an operation. -/
def Op.All (P : Value → Prop) : Op → Prop
  | .push v => P v
  | .pushMany vs => ∀ v ∈ vs, P v
  | _ => True

/-- All values of a thread. -/
structure Thread.All (P : Value → Prop) (t : Thread) : Prop where
  valueStacks : ∀ s ∈ t.valueStacks, ∀ v ∈ s, P v
  env : t.env.All P
  scopes : ∀ s ∈ t.scopes, s.All P
  coros : t.coros.All (·.All P)
  ops : ∀ op ∈ t.ops, op.All P

/-- All values of an iterator. -/
def Iterator.All (P : Value → Prop) : Iterator → Prop
  | .filter _ test => P test
  | .map _ f => P f
  | .zip _ _ held => ∀ v, held = some v → P v
  | .host answers _ => ∀ k v, answers k = .ok (.item v) → P v
  | _ => True

/-- All values of the place of an iterator. -/
def IterCell.All (P : Value → Prop) : IterCell → Prop
  | .ready it => it.All P
  | _ => True

/-- All values of a fiber. -/
structure Fiber.All (P : Value → Prop) (f : Fiber) : Prop where
  target : P f.target
  state : ∀ c, f.state = .suspended c → c.All P

/-- All values in the objects of a store. -/
structure Store.All (P : Value → Prop) (s : Store) : Prop where
  lists : ∀ items ∈ s.lists, ∀ v ∈ items, P v
  structs : ∀ fields ∈ s.structs, ∀ v ∈ fields, P v
  tables : ∀ entries ∈ s.tables, ∀ e ∈ entries, P e.1 ∧ P e.2
  pairs : ∀ p ∈ s.pairs, P p.1 ∧ P p.2
  closures : ∀ c ∈ s.closures, c.env.All P
  iters : ∀ cell ∈ s.iters, cell.All P
  fibers : ∀ f ∈ s.fibers, f.All P
  threads : ∀ h ∈ s.threads, ∀ vs, h.outcome = some (.ok vs) → ∀ v ∈ vs, P v

/-- All values of a machine. -/
structure Machine.All (P : Value → Prop) (m : Machine) : Prop where
  thread : m.thread.All P
  store : m.shared.store.All P
  convs : m.shared.registry.convs.All P

/-! ## Properties that imply others -/

theorem Scope.All.mono {s : Scope} (h : ∀ v, P v → Q v) (all : s.All P) : s.All Q where
  bound b member v found := h v (all.bound b member v found)
  caller env found := (all.caller env found).mono h
  callee c found := (all.callee c found).mono h
  loops := all.loops.mono fun _ => h _
  defers v member := h v (all.defers v member)

theorem Coroutine.All.mono {c : Coroutine} (h : ∀ v, P v → Q v) (all : c.All P) : c.All Q where
  scopes s member := (all.scopes s member).mono h
  valueStacks s member v inside := h v (all.valueStacks s member v inside)
  env := all.env.mono h

theorem Op.All.mono {op : Op} (h : ∀ v, P v → Q v) (all : op.All P) : op.All Q := by
  cases op with
  | push v => exact h v all
  | pushMany vs => exact fun v member => h v (all v member)
  | _ => trivial

theorem Thread.All.mono {t : Thread} (h : ∀ v, P v → Q v) (all : t.All P) : t.All Q where
  valueStacks s member v inside := h v (all.valueStacks s member v inside)
  env := all.env.mono h
  scopes s member := (all.scopes s member).mono h
  coros := all.coros.mono fun _ c => c.mono h
  ops op member := (all.ops op member).mono h

theorem Iterator.All.mono {it : Iterator} (h : ∀ v, P v → Q v) (all : it.All P) : it.All Q := by
  cases it with
  | filter source test => exact h test all
  | map source f => exact h f all
  | zip left right held => exact fun v found => h v (all v found)
  | host answers pulls => exact fun k v given => h v (all k v given)
  | _ => trivial

theorem IterCell.All.mono {cell : IterCell} (h : ∀ v, P v → Q v) (all : cell.All P) : cell.All Q := by
  cases cell with
  | ready it => exact Iterator.All.mono h all
  | _ => trivial

theorem Fiber.All.mono {f : Fiber} (h : ∀ v, P v → Q v) (all : f.All P) : f.All Q :=
  ⟨h _ all.target, fun c found => (all.state c found).mono h⟩

theorem Store.All.mono {s : Store} (h : ∀ v, P v → Q v) (all : s.All P) : s.All Q where
  lists items member v inside := h v (all.lists items member v inside)
  structs fields member v inside := h v (all.structs fields member v inside)
  tables entries member e inside := (all.tables entries member e inside).imp (h _) (h _)
  pairs p member := (all.pairs p member).imp (h _) (h _)
  closures c member := (all.closures c member).mono h
  iters cell member := (all.iters cell member).mono h
  fibers f member := (all.fibers f member).mono h
  threads t member vs found v inside := h v (all.threads t member vs found v inside)

theorem Machine.All.mono {m : Machine} (h : ∀ v, P v → Q v) (all : m.All P) : m.All Q :=
  ⟨all.thread.mono h, all.store.mono h, Dict.All.mono h all.convs⟩

/-! ## Scopes -/

namespace Scope.All

theorem root (safety : Safety) : (Scope.root safety).All P :=
  ⟨nofun, nofun, nofun, .empty, nofun⟩

theorem block (safety : Safety) (stack : Nat) (ownsStack : Bool) :
    (Scope.block safety stack ownsStack).All P :=
  ⟨nofun, nofun, nofun, .empty, nofun⟩

theorem default : (Inhabited.default : Scope).All P :=
  ⟨nofun, nofun, nofun, .empty, nofun⟩

theorem unbind {s : Scope} {env : Env} (all : s.All P) (h : env.All P) : (s.unbind env).All P := by
  have bound := all.bound
  unfold Scope.unbind
  generalize s.bound = bs at bound
  induction bs generalizing env with
  | nil => exact h
  | cons b bs ih =>
    refine ih ?_ fun b' member => bound b' (List.mem_cons_of_mem _ member)
    dsimp only
    cases hidden : b.2 with
    | none => exact h.erase b.1
    | some v => exact h.insert (bound b List.mem_cons_self v hidden)

end Scope.All

/-! ## Threads -/

namespace Thread.All

variable {t : Thread}

theorem stack (all : t.All P) : ∀ v ∈ t.stack, P v := by
  intro v member
  rw [Thread.stack] at member
  cases found : t.valueStacks.back? with
  | none => simp [found] at member
  | some s =>
    rw [found] at member
    exact all.valueStacks s (Array.mem_of_back? found) v member

theorem top? (all : t.All P) {v : Value} (h : t.top? = some v) : P v :=
  all.stack v (Array.mem_of_back? h)

theorem scope (all : t.All P) : t.scope.All P := by
  unfold Thread.scope
  cases found : t.scopes.back? with
  | none => exact .default
  | some s => exact all.scopes s (Array.mem_of_back? found)

theorem modifyStack {f : Array Value → Array Value} (all : t.All P)
    (h : ∀ s, (∀ v ∈ s, P v) → ∀ v ∈ f s, P v) : (t.modifyStack f).All P := by
  unfold Thread.modifyStack
  split
  · refine { all with valueStacks := fun s member => ?_ }
    obtain rfl := by simpa using member
    exact h #[] nofun
  · exact { all with valueStacks := Values.modify all.valueStacks h }

theorem push {v : Value} (all : t.All P) (h : P v) : (t.push v).All P :=
  all.modifyStack fun _ old => Values.pushed old h

theorem pushAll {vs : Array Value} (all : t.All P) (h : ∀ v ∈ vs, P v) : (t.pushAll vs).All P := by
  refine all.modifyStack fun s old v member => ?_
  rcases Array.mem_append.1 member with member | member
  · exact old v member
  · exact h v member

theorem alterScope {f : Scope → Scope} (i : Nat) (all : t.All P) (h : ∀ s, s.All P → (f s).All P) :
    Thread.All P { t with scopes := t.scopes.modify i f } :=
  { all with scopes := Values.modify all.scopes h }

theorem modifyScope {f : Scope → Scope} (all : t.All P) (h : ∀ s, s.All P → (f s).All P) :
    (t.modifyScope f).All P :=
  all.alterScope _ h

theorem setRootSafety (safety : Safety) (all : t.All P) : (t.setRootSafety safety).All P :=
  all.alterScope 0 fun _ old => { old with }

theorem bind {name : String} {v : Value} (all : t.All P) (h : P v) : (t.bind name v).All P := by
  have env : Thread.All P { t with env := t.env.insert name v } := { all with env := all.env.insert h }
  refine env.modifyScope fun s old => { old with bound := fun b member w found => ?_ }
  rcases List.mem_cons.1 member with rfl | member
  · exact all.env.find? found
  · exact old.bound b member w found

theorem openBlock (ownStack : Bool) (safety : Safety) (all : t.All P) :
    (t.openBlock ownStack safety).All P := by
  have valueStacks : ∀ s ∈ (if ownStack then t.valueStacks.push #[] else t.valueStacks), ∀ v ∈ s, P v := by
    split
    · exact Values.pushed all.valueStacks nofun
    · exact all.valueStacks
  exact { all with
    valueStacks := valueStacks
    scopes := Values.pushed all.scopes (.block ..) }

theorem openLambda {c : Closure} (safety : Safety) (retPc : Nat) (all : t.All P) (h : c.env.All P) :
    (t.openLambda c safety retPc).All P := by
  have scope : (Scope.lambda c safety (t.valueStacks.size - 1) retPc t.env).All P :=
    ⟨nofun, fun _ same => Option.some.inj same ▸ all.env, fun _ same => Option.some.inj same ▸ h,
      .empty, nofun⟩
  exact { all with
    env := h
    scopes := Values.pushed all.scopes scope }

theorem fork (id : Nat) (all : t.All P) : (t.fork id).All P where
  valueStacks s member := by
    obtain rfl := by simpa [Thread.fork] using member
    exact all.stack
  env := all.env
  scopes s member := by
    obtain rfl := by simpa [Thread.fork] using member
    exact .root _
  coros := .empty
  ops := all.ops

theorem stacksLeft (keepTop : Bool) (all : t.All P) :
    ∀ s ∈ t.stacksLeft keepTop, ∀ v ∈ s, P v := by
  have below := Values.popped all.valueStacks
  unfold Thread.stacksLeft
  split
  · dsimp only
    cases kept : (if keepTop = true then t.top? else none) with
    | none => exact below
    | some v =>
      have top : P v := by
        split at kept
        · exact all.top? kept
        · cases kept
      dsimp only
      split
      · intro s member
        obtain rfl := by simpa using member
        simpa using top
      · exact Values.modify below fun _ old => Values.pushed old top
  · exact all.valueStacks

theorem closeScope (keepTop : Bool) (all : t.All P) : (t.closeScope keepTop).2.All P := by
  rw [Thread.closeScope_eq]
  refine { all with
    valueStacks := all.stacksLeft keepTop
    scopes := Values.popped all.scopes
    env := ?_ }
  cases found : t.scope.callerEnv with
  | none => exact all.scope.unbind all.env
  | some env => exact all.scope.caller env found

/-- A scope that is cut off keeps its values, save for those of its caller. -/
theorem keptEnv {env : Env} {head : Scope} {scopes : Array Scope} (h : env.All P)
    (all : ∀ s ∈ scopes, s.All P) : (Thread.keptEnv env head scopes).All P := by
  have list : ∀ s ∈ scopes.toList.reverse, s.All P := fun s member => all s (by simpa using member)
  unfold Thread.keptEnv
  generalize scopes.toList.reverse = ss at list
  induction ss generalizing env with
  | nil => exact h
  | cons s ss ih =>
    refine ih ?_ fun s' member => list s' (List.mem_cons_of_mem _ member)
    dsimp only
    split
    · exact h
    · exact (list s List.mem_cons_self).unbind h

theorem cut {i : Nat} {head : Scope} (lambda : Nat) (all : t.All P) (h : head.All P) :
    (t.cut i head lambda).1.All P ∧ (t.cut i head lambda).2.All P := by
  have scopes := Values.extracted i t.scopes.size all.scopes
  have free : ∀ s : Scope, s.All P → Scope.All P { s with callerEnv := none, fiber := none } :=
    fun _ old => { old with caller := nofun }
  constructor
  · refine ⟨Values.mapped fun s member => ?_, Values.extracted _ _ all.valueStacks, keptEnv all.env scopes⟩
    have old := Values.modify scopes free s member
    exact { old with }
  · refine { all with
      valueStacks := Values.extracted _ _ all.valueStacks
      scopes := Values.extracted _ _ all.scopes
      env := ?_ }
    cases found : head.callerEnv with
    | none => simpa [Thread.cut, found] using Dict.All.empty
    | some env => simpa [Thread.cut, found] using h.caller env found

theorem graft {c : Coroutine} (retPc : Nat) (fiber : Option Ref) (all : t.All P) (h : c.All P) :
    (t.graft c retPc fiber).All P := by
  have put : ∀ s ∈ c.scopes.map fun s => { s with stack := s.stack + (t.valueStacks.size - 1) },
      s.All P := by
    refine Values.mapped fun s member => ?_
    have old := h.scopes s member
    exact { old with }
  have back : ∀ s : Scope, s.All P →
      Scope.All P { s with callerEnv := some t.env, retPc := retPc, fiber := fiber } :=
    fun _ old => { old with caller := fun _ same => Option.some.inj same ▸ all.env }
  refine { all with
    valueStacks := fun s member => ?_
    scopes := fun s member => ?_
    env := h.env }
  · rcases Array.mem_append.1 member with member | member
    · exact all.valueStacks s member
    · exact h.valueStacks s member
  · rcases Array.mem_append.1 member with member | member
    · exact all.scopes s member
    · exact Values.modify put back s member

end Thread.All

end Catena
