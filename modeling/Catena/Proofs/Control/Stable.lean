import Catena.Proofs.Control.Keeps
import Catena.Proofs.Control.Units
import Catena.Proofs.Run.Makes

/-!
# Computations that stay at one level

A machine is orderly if it runs operations that no label gets in the way of: no value is a label, all
lambdas come from these operations, and what has been left in the middle was left at a place where it
is right. Most of what a program does takes orderly machines to orderly ones, stays at one level of
nesting and at one place, and keeps what is below (`Stable`).
-/

namespace Catena

variable {α β : Type} {ops : List Op}

/-! ## Orderly machines -/

/-- A function of the library, or one of the embedding program that leaves the flow of control alone: it
takes values, pushes some, none of them a label, and fails or goes on, or makes an iterator that gives no
label. What an embedding program can do beside that is left out: to answer with a jump or an unwinding, to
set the program counter, and to run the thread itself. -/
def Native.Plain : Native → Prop
  | .host f => (f.raise = none → f.jump = none) ∧ ∀ v ∈ f.push, v.Tame
  | .hostIter answers _ => ∀ k v, answers k = .ok (.item v) → v.Tame
  | _ => True

theorem Native.Plain.of_own {f : Native} (own : f.isHost = false) : f.Plain := by
  cases f <;> trivial

/-- The implementation is a plain function, or a lambda among the operations. -/
def Imp.Plain (ops : List Op) (imp : Imp) : Prop :=
  match imp.body with
  | .native f => f.Plain
  | .lambda body => body ∈ bodies ops

/-- The scopes of a coroutine, the topmost first. -/
def Coroutine.seats (c : Coroutine) : List Seat := (c.scopes.toList.map Scope.seat).reverse

/-- The `try:` forms of a coroutine, the innermost first. -/
def Coroutine.frames (c : Coroutine) : List TryFrame := (c.tries.toList.map TryFrame.bare).reverse

structure Coroutine.Orderly (ops : List Op) (c : Coroutine) : Prop where
  linked : c.Linked
  seated : Seated ops .cut c.pc c.seats c.frames

structure Thread.Orderly (ops : List Op) (t : Thread) : Prop where
  linked : t.Linked
  rooted : t.scopes.size ≠ 0
  all : t.All Value.Tame
  cache : ∀ pc imp, t.cache.find? pc = some imp → imp.Plain ops
  coros : ∀ id c, t.coros.find? id = some c → c.Orderly ops
  ops : t.ops.toList = ops

structure Store.Orderly (ops : List Op) (s : Store) : Prop where
  all : s.All Value.Tame
  closures : ∀ c ∈ s.closures, c.body ∈ bodies ops
  fibers : ∀ f ∈ s.fibers, ∀ c, f.state = .suspended c → c.Orderly ops

structure Registry.Orderly (ops : List Op) (r : Registry) : Prop where
  labels : r.Unlabelled
  imps : ∀ imp, r.Registered imp → imp.Plain ops
  convs : r.convs.All Value.Tame

/-- No label gets in the way of the operations. -/
structure Machine.Orderly (ops : List Op) (m : Machine) : Prop where
  paved : Paved ops
  store : m.shared.store.Orderly ops
  registry : m.shared.registry.Orderly ops
  thread : m.thread.Orderly ops

theorem bodies_place {body : LambdaDef} (known : body ∈ bodies ops) :
    ∃ (p : Nat) (kind : LambdaKind) (skip : Option Label), ops[p]? = some (.lambda body kind skip) := by
  obtain ⟨op, member, is⟩ := List.mem_filterMap.1 known
  obtain ⟨p, found⟩ := List.mem_iff_getElem?.1 member
  cases op <;> cases is
  exact ⟨p, _, _, found⟩

theorem Registry.Orderly.adds {r r' : Registry} (h : r.Orderly ops) (adds : r.Adds r') :
    r'.Orderly ops := by
  constructor
  · intro name
    rw [adds.labels]
    exact h.labels name
  · intro imp known
    rw [Registered, adds.funcs] at known
    exact h.imps imp known
  · rw [adds.convs]
    exact h.convs

theorem Registry.Orderly.freshId {r : Registry} (h : r.Orderly ops) : r.freshId.2.Orderly ops :=
  ⟨h.labels, h.imps, h.convs⟩

namespace Thread.Orderly

variable {t t' : Thread}

theorem tidy {f : Thread → Thread} (h : t.Orderly ops) (tidy : Tidy f) (all : (f t).All Value.Tame) :
    (f t).Orderly ops := by
  have drift := tidy.drift t
  have rest := tidy.rest t
  constructor
  · exact h.linked.drift drift
  · have size := congrArg Array.size drift.scopes
    rw [Array.size_map, Array.size_map] at size
    rw [size]
    exact h.rooted
  · exact all
  · exact fun pc imp found => h.cache pc imp (drift.cache pc imp found)
  · exact fun id c found => h.coros id c (drift.coros id c found)
  · rw [tidy.ops t]
    exact h.ops

/-- A thread that starts has nothing but values and operations of the one that starts it. -/
theorem fork (h : t.Orderly ops) (id : Nat) : (t.fork id).Orderly ops where
  linked := .root ..
  rooted := Nat.one_ne_zero
  all := h.all.fork id
  cache := nofun
  coros := nofun
  ops := h.ops

end Thread.Orderly

/-- What is come to from a machine at one level. -/
structure Machine.Remains (ops : List Op) (m n : Machine) : Prop where
  orderly : n.Orderly ops
  still : m.thread.Still n.thread

theorem Machine.Remains.trans {m n p : Machine} (h : m.Remains ops n) (k : n.Remains ops p) :
    m.Remains ops p :=
  ⟨k.orderly, h.still.trans k.still⟩

namespace Run

/-! ## What comes of a computation -/

/-- The answer of the computation and the machine it leaves are as told, and so is the machine it leaves
if it ends with a fault. If it runs out of fuel, or is stopped, it leaves an orderly machine. -/
def Meets (ops : List Op) (m : Machine) (x : Run α) (Q : α → Machine → Prop) (E : Machine → Prop) : Prop :=
  match x m with
  | .ok a n => Q a n
  | .error (.fault _) n => E n
  | .error .outOfFuel n => n.Orderly ops

namespace Meets

variable {m n : Machine} {x : Run α} {P Q : α → Machine → Prop} {R : β → Machine → Prop}
  {E E' : Machine → Prop}

theorem of_ok {a : α} (run : x m = .ok a n) (h : Q a n) : Meets ops m x Q E := by
  rw [Meets, run]
  exact h

theorem of_fault {f : Fault} (run : x m = .error (.fault f) n) (h : E n) : Meets ops m x Q E := by
  rw [Meets, run]
  exact h

theorem ok {a : α} (h : Meets ops m x Q E) (run : x m = .ok a n) : Q a n := by
  rwa [Meets, run] at h

theorem fault {f : Fault} (h : Meets ops m x Q E) (run : x m = .error (.fault f) n) : E n := by
  rwa [Meets, run] at h

theorem mono (h : Meets ops m x P E) (answers : ∀ a n, x m = .ok a n → P a n → Q a n)
    (faults : ∀ n, E n → E' n) : Meets ops m x Q E' := by
  rw [Meets] at h ⊢
  cases run : x m with
  | ok a n =>
    rw [run] at h
    exact answers a n run h
  | error e n =>
    rw [run] at h
    cases e with
    | fault f => exact faults n h
    | outOfFuel => exact h

theorem bind {k : α → Run β} (h : Meets ops m x P E)
    (rest : ∀ a n, x m = .ok a n → P a n → Meets ops n (k a) R E) : Meets ops m (x >>= k) R E := by
  rw [Meets] at h
  rw [Meets, bind_apply]
  cases run : x m with
  | ok a n =>
    rw [run] at h
    exact rest a n run h
  | error e n =>
    rw [run] at h
    cases e with
    | fault f => exact h
    | outOfFuel => exact h

/-- The first part ends well on this machine. -/
theorem next {k : α → Run β} {a : α} (run : x m = .ok a n) (rest : Meets ops n (k a) R E) :
    Meets ops m (x >>= k) R E := by
  rw [Meets, bind_apply, run]
  exact rest

theorem attempt (h : Meets ops m x Q E) :
    Meets ops m x.attempt (fun result n => (∃ a, result = .ok a ∧ Q a n) ∨
      ∃ f, result = .error f ∧ E n) E' := by
  rw [Meets] at h
  rw [Meets, Run.attempt]
  cases run : x m with
  | ok a n =>
    rw [run] at h
    exact .inl ⟨a, rfl, h⟩
  | error e n =>
    rw [run] at h
    cases e with
    | fault f => exact .inr ⟨f, rfl, h⟩
    | outOfFuel => exact h

theorem and {P : α → Machine → Prop} (h : Meets ops m x P E) (k : Meets ops m x Q E') :
    Meets ops m x (fun a n => P a n ∧ Q a n) fun n => E n ∧ E' n := by
  rw [Meets] at h k ⊢
  cases run : x m with
  | ok a n =>
    rw [run] at h k
    exact ⟨h, k⟩
  | error e n =>
    rw [run] at h k
    cases e with
    | fault f => exact ⟨h, k⟩
    | outOfFuel => exact h

theorem stopped (h : Meets ops m x Q E) (run : x m = .error .outOfFuel n) : n.Orderly ops := by
  rwa [Meets, run] at h

theorem exhausted (orderly : m.Orderly ops) : Meets ops m (Run.exhausted : Run α) Q E := orderly

end Meets

/-! ## Stable computations -/

/-- From every orderly machine the computation remains at one level, and its answer is as told. -/
def Stable (ops : List Op) (x : Run α) (P : α → Prop) : Prop :=
  ∀ m, m.Orderly ops → Meets ops m x (fun a n => m.Remains ops n ∧ P a) (m.Remains ops)

/-- Nothing is told of the answer. -/
abbrev Untold (_ : α) : Prop := True

namespace Stable

variable {P : α → Prop} {Q : β → Prop}

theorem bind {x : Run α} {k : α → Run β} (hx : Stable ops x P) (hk : ∀ a, P a → Stable ops (k a) Q) :
    Stable ops (x >>= k) Q := by
  intro m orderly
  apply (hx m orderly).bind
  intro a n _ ⟨remains, told⟩
  apply (hk a told n remains.orderly).mono
  · intro b p _ ⟨later, holds⟩
    exact ⟨remains.trans later, holds⟩
  · intro p later
    exact remains.trans later

/-- What comes after does not depend on what the first part answers. -/
theorem seq {x : Run α} {k : α → Run β} (hx : Stable ops x P) (hk : ∀ a, Stable ops (k a) Q) :
    Stable ops (x >>= k) Q :=
  hx.bind fun a _ => hk a

theorem mono {P' : α → Prop} {x : Run α} (h : Stable ops x P) (told : ∀ a, P a → P' a) :
    Stable ops x P' := by
  intro m orderly
  apply (h m orderly).mono
  · intro a n _ ⟨remains, holds⟩
    exact ⟨remains, told a holds⟩
  · exact fun n remains => remains

theorem forget {x : Run α} (h : Stable ops x P) : Stable ops x Untold :=
  h.mono fun _ _ => trivial

theorem pure {a : α} (h : P a) : Stable ops (Pure.pure a) P :=
  fun m orderly => .of_ok (n := m) rfl ⟨⟨orderly, .refl _⟩, h⟩

theorem done (a : α) : Stable ops (Pure.pure a) Untold := .pure trivial

theorem fail (f : Fault) : Stable ops (Run.fail f) P :=
  fun m orderly => .of_fault (n := m) rfl ⟨orderly, .refl _⟩

theorem exhausted : Stable ops (Run.exhausted : Run α) P := fun _ => .exhausted

/-- A test that the rest comes after. -/
theorem refuse {refused : Prop} [Decidable refused] {f : Fault} {k : Unit → Run α}
    (hk : ¬ refused → Stable ops (k ()) P) :
    Stable ops (if refused then Run.fail f >>= k else k ()) P := by
  split
  · exact Stable.bind (P := fun _ => False) (.fail f) fun _ no => no.elim
  · exact hk ‹_›

theorem ofExcept {x : Except Fault α} (h : ∀ a, x = .ok a → P a) : Stable ops (Run.ofExcept x) P := by
  cases x with
  | ok a => exact .pure (h a rfl)
  | error f => exact .fail f

theorem orFail {f : Fault} {x : Option α} (h : ∀ a, x = some a → P a) :
    Stable ops (Run.orFail f x) P := by
  cases x with
  | some a => exact .pure (h a rfl)
  | none => exact .fail f

theorem attempt {x : Run α} (h : Stable ops x P) :
    Stable ops x.attempt fun result => ∀ a, result = .ok a → P a := by
  intro m orderly
  apply (h m orderly).attempt.mono
  · intro result n _ outcome
    rcases outcome with ⟨a, rfl, remains, holds⟩ | ⟨f, rfl, remains⟩
    · exact ⟨remains, fun b same => Except.ok.inj same ▸ holds⟩
    · exact ⟨remains, nofun⟩
  · exact fun n remains => remains

theorem ask {f : Thread → α} (h : ∀ t : Thread, t.Orderly ops → P (f t)) : Stable ops (Run.ask f) P :=
  fun m orderly => .of_ok (n := m) rfl ⟨⟨orderly, .refl _⟩, h m.thread orderly.thread⟩

theorem askShared {f : Shared → α}
    (h : ∀ s : Shared, s.store.Orderly ops → s.registry.Orderly ops → P (f s)) :
    Stable ops (Run.askShared f) P :=
  fun m orderly => .of_ok (n := m) rfl ⟨⟨orderly, .refl _⟩, h m.shared orderly.store orderly.registry⟩

theorem askStore {f : Store → α} (h : ∀ s : Store, s.Orderly ops → P (f s)) :
    Stable ops (Run.askStore f) P :=
  .askShared fun s store _ => h s.store store

theorem asked (f : Thread → α) : Stable ops (Run.ask f) Untold := .ask fun _ _ => trivial

theorem askedShared (f : Shared → α) : Stable ops (Run.askShared f) Untold :=
  .askShared fun _ _ _ => trivial

theorem askedStore (f : Store → α) : Stable ops (Run.askStore f) Untold :=
  .askStore fun _ _ => trivial

theorem alter {f : Thread → Thread} (tidy : Thread.Tidy f)
    (all : ∀ t, t.All Value.Tame → (f t).All Value.Tame) : Stable ops (Run.alter f) Untold := by
  intro m orderly
  have thread := orderly.thread
  have still := Thread.Still.of_tidy tidy thread.linked thread.rooted
  have orderly' : Machine.Orderly ops { m with thread := f m.thread } :=
    { orderly with thread := thread.tidy tidy (all _ thread.all) }
  exact .of_ok rfl ⟨⟨orderly', still⟩, trivial⟩

theorem alterShared {f : Shared → Shared} (store : ∀ s, (f s).store = s.store)
    (registry : ∀ s, (f s).registry = s.registry) : Stable ops (Run.alterShared f) Untold := by
  intro m orderly
  have orderly' : Machine.Orderly ops { m with shared := f m.shared } := by
    constructor
    · exact orderly.paved
    · rw [store]
      exact orderly.store
    · rw [registry]
      exact orderly.registry
    · exact orderly.thread
  exact .of_ok rfl ⟨⟨orderly', .refl _⟩, trivial⟩

theorem alterStore {f : Store → Store} (h : ∀ s, s.Orderly ops → (f s).Orderly ops) :
    Stable ops (Run.alterStore f) Untold := by
  intro m orderly
  have orderly' : Machine.Orderly ops
      { m with shared := { m.shared with store := f m.shared.store } } :=
    { orderly with store := h _ orderly.store }
  exact .of_ok rfl ⟨⟨orderly', .refl _⟩, trivial⟩

theorem alloc {size : Store → Nat} {add : Store → Store} (h : ∀ s, s.Orderly ops → (add s).Orderly ops) :
    Stable ops (Run.alloc size add) Untold :=
  (askedStore size).seq fun a => (alterStore h).seq fun _ => .done a

theorem mapM {A : α → Prop} {B : β → Prop} {f : α → Run β} {xs : List α} (all : ∀ a ∈ xs, A a)
    (h : ∀ a, A a → Stable ops (f a) B) : Stable ops (xs.mapM f) fun bs => ∀ b ∈ bs, B b := by
  induction xs with
  | nil =>
    rw [List.mapM_nil]
    exact .pure nofun
  | cons x xs ih =>
    rw [List.mapM_cons]
    apply (h x (all x List.mem_cons_self)).bind
    intro b hb
    apply (ih fun a member => all a (List.mem_cons_of_mem x member)).bind
    intro bs hbs
    exact .pure (List.forall_mem_cons.2 ⟨hb, hbs⟩)

theorem arrayMapM {A : α → Prop} {B : β → Prop} {f : α → Run β} {xs : Array α} (all : ∀ a ∈ xs, A a)
    (h : ∀ a, A a → Stable ops (f a) B) : Stable ops (xs.mapM f) fun bs => ∀ b ∈ bs, B b := by
  rw [Array.mapM_eq_mapM_toList]
  have list : Stable ops (xs.toList.mapM f) fun bs => ∀ b ∈ bs, B b :=
    .mapM (fun a member => all a (Array.mem_toList_iff.1 member)) h
  apply list.bind
  intro bs hbs
  exact .pure fun b member => hbs b (List.mem_toArray.1 member)

end Stable

variable {P : α → Prop}

/-! ## What is outside, messages, ids and types -/

theorem stable_alterHost (f : Shared → Host) :
    Stable ops (alterShared fun s => { s with host := f s }) Untold :=
  .alterShared (fun _ => rfl) fun _ => rfl

theorem stable_note (level : Log.Level) (message : Unit → String) :
    Stable ops (note level message) Untold :=
  .alterShared (fun s => note_store s level _ message none)
    fun s => note_registry s level _ message none

theorem stable_noteThread (level : Log.Level) (thread : Nat) (message : String) :
    Stable ops (noteThread level thread message) Untold :=
  .alterShared (fun s => note_store s level _ _ (some thread))
    fun s => note_registry s level _ _ (some thread)

theorem stable_freshId : Stable ops freshId Untold := by
  intro m orderly
  have orderly' : Machine.Orderly ops { m with shared := m.shared.freshId.2 } :=
    { orderly with registry := orderly.registry.freshId }
  exact .of_ok rfl ⟨⟨orderly', .refl _⟩, trivial⟩

theorem stable_register {make : Registry → Except Fault (Ty × Registry)}
    (adds : ∀ r t r', make r = .ok (t, r') → r.Adds r') :
    Stable ops (do
      let (t, registry) ← Run.ofExcept (← Run.askShared fun s => make s.registry)
      Run.alterShared fun s => { s with registry }
      return t) Untold := by
  intro m orderly
  cases made : make m.shared.registry with
  | error f =>
    have run : (do
        let (t, registry) ← Run.ofExcept (← Run.askShared fun s => make s.registry)
        Run.alterShared fun s => { s with registry }
        return t : Run Ty) m = .error (.fault f) m := by
      rw [bind_apply, Run.askShared, made]
      rfl
    exact .of_fault run ⟨orderly, .refl _⟩
  | ok both =>
    obtain ⟨t, registry⟩ := both
    have run : (do
        let (t, registry) ← Run.ofExcept (← Run.askShared fun s => make s.registry)
        Run.alterShared fun s => { s with registry }
        return t : Run Ty) m = .ok t { m with shared := { m.shared with registry } } := by
      rw [bind_apply, Run.askShared, made]
      rfl
    have orderly' : Machine.Orderly ops { m with shared := { m.shared with registry } } :=
      { orderly with registry := orderly.registry.adds (adds _ _ _ made) }
    exact .of_ok run ⟨⟨orderly', .refl _⟩, trivial⟩

theorem stable_instantiate (template : Ty) (args : List Ty) :
    Stable ops (instantiate template args) Untold :=
  stable_register fun _ _ _ made => Registry.instantiate_adds made

theorem stable_instantiateNamed (name : String) (args : List Ty) :
    Stable ops (instantiateNamed name args) Untold :=
  stable_register fun _ _ _ made => Registry.instantiateNamed_adds made

/-! ## The value stack -/

theorem stable_alterStack {f : Array Value → Array Value}
    (h : ∀ s, (∀ v ∈ s, v.Tame) → ∀ v ∈ f s, v.Tame) :
    Stable ops (Run.alter (·.modifyStack f)) Untold :=
  .alter (.modifyStack f) fun _ all => all.modifyStack h

theorem stable_emptied : Stable ops (Run.alter (·.modifyStack fun _ => #[])) Untold :=
  stable_alterStack fun _ _ => nofun

theorem stable_push {v : Value} (tame : v.Tame) : Stable ops (push v) Untold :=
  stable_alterStack fun _ old => Values.pushed old tame

theorem stable_pushEach {values : List Value} (tame : ∀ v ∈ values, v.Tame) :
    Stable ops (pushEach values) Untold := by
  apply stable_alterStack
  intro s old v member
  rcases Array.mem_append.1 member with inside | inside
  · exact old v inside
  · exact tame v (List.mem_toArray.1 inside)

theorem stable_pop : Stable ops pop Value.Tame := by
  apply Stable.bind (P := fun v? => ∀ v, v? = some v → Value.Tame v)
  · exact .ask fun t orderly v => orderly.all.top?
  · intro v? told
    cases v? with
    | none => exact .fail _
    | some v =>
      apply (stable_alterStack fun _ old => Values.popped old).seq
      intro _
      exact .pure (told v rfl)

theorem stable_popN (n : Nat) : Stable ops (popN n) fun vs => ∀ v ∈ vs, v.Tame := by
  apply (Stable.asked _).seq
  intro size
  apply Stable.refuse
  intro _
  apply Stable.bind (P := fun vs : Array Value => ∀ v ∈ vs, v.Tame)
  · exact .ask fun t orderly => Values.extracted _ _ orderly.all.stack
  · intro vs told
    apply (stable_alterStack fun _ old => Values.extracted _ _ old).seq
    intro _
    exact .pure told

theorem stable_peek (what : String) : Stable ops (peek what) Value.Tame := by
  apply Stable.bind (P := fun v? => ∀ v, v? = some v → Value.Tame v)
  · exact .ask fun t orderly v => orderly.all.top?
  · exact fun v? told => .orFail told

theorem stable_popAs (expected : String) (f : Value → Option α) :
    Stable ops (popAs expected f) Untold :=
  stable_pop.seq fun _ => .orFail fun _ _ => trivial

theorem stable_popInt : Stable ops popInt Untold := stable_popAs _ _

theorem stable_popStr : Stable ops popStr Untold := stable_popAs _ _

theorem stable_popSym : Stable ops popSym Untold := stable_popAs _ _

theorem stable_popType : Stable ops popType Untold := stable_popAs _ _

/-- A value is made and pushed. -/
theorem Stable.thenPush {x : Run α} {f : α → Value} (hx : Stable ops x P)
    (tame : ∀ a, P a → (f a).Tame) : Stable ops (do push (f (← x)); return .next : Run Reply) Untold := by
  apply hx.bind
  intro a told
  apply (stable_push (tame a told)).seq
  exact fun _ => .done _

end Run

end Catena
