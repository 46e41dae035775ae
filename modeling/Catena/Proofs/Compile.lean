import Catena.Engine
import Catena.Proofs.Run.Makes

/-!
# What compiling changes

Compiling, whether it succeeds or not, lets the registry grow and leaves the rest of what threads
share as it was (`makes_compile`).
-/

namespace Catena

variable {careful : Prop} {α β : Type}

namespace TypeExpr

mutual

/-- The types of expressions are made as they are needed. -/
theorem resolve_adds (r : Registry) : (e : TypeExpr) → r.Adds (e.resolve r).2
  | named name => by
    rw [resolve]
    split <;> exact .refl r
  | generic name args => by
    have each := resolveEach_adds r args
    rw [resolve]
    split
    · rename_i h
      rwa [h] at each
    · rename_i h
      rw [h] at each
      split
      · rename_i made
        exact each.trans (Registry.instantiateNamed_adds made)
      · exact each
  | same n => .refl r
  | argOf n k => .refl r

theorem resolveEach_adds (r : Registry) : (es : List TypeExpr) → r.Adds (resolveEach r es).2
  | [] => .refl r
  | e :: es => by
    have first := resolve_adds r e
    rw [resolveEach]
    split
    · rename_i h
      rwa [h] at first
    · rename_i r' h
      rw [h] at first
      have rest := resolveEach_adds r' es
      split <;>
      · rename_i h'
        rw [h'] at rest
        exact first.trans rest

end

theorem toArg_adds (r : Registry) (e : TypeExpr) : r.Adds (e.toArg r).2 := by
  unfold toArg
  split
  · exact .refl r
  · exact .refl r
  · have resolved := resolve_adds r e
    split <;>
    · rename_i h
      rwa [h] at resolved

end TypeExpr

theorem addImp_drift (s : Shared) (name : String) (args : List Arg) (safety : Safety) (body : Body) :
    s.Drift (s.addImp name args safety body).2 := by
  have added : s.Drift { s with registry := (s.registry.addImp name args safety body).2 } :=
    ⟨rfl, Registry.addImp_grown _ _ _ _ _, rfl⟩
  exact added.trans (Run.note_drift _ .debug Phase.vm.target
    (fun _ => s!"registered {(s.registry.addImp name args safety body).1.text}") none)

theorem addImp_threads (s : Shared) (name : String) (args : List Arg) (safety : Safety) (body : Body) :
    s.store.SameThreads (s.addImp name args safety body).2.store :=
  Run.note_threads { s with registry := (s.registry.addImp name args safety body).2 } .debug
    Phase.vm.target (fun _ => s!"registered {(s.registry.addImp name args safety body).1.text}") none

/-- While a text is compiled, types and library functions become known, and nothing happens to the
objects of the store. -/
structure Shared.Gains (s s' : Shared) : Prop where
  config : s'.config = s.config
  registry : s.registry.Gains s'.registry
  store : s'.store = s.store

theorem Shared.Gains.refl (s : Shared) : s.Gains s := ⟨rfl, .refl _, rfl⟩

theorem Shared.Gains.trans {a b c : Shared} (h : a.Gains b) (k : b.Gains c) : a.Gains c :=
  ⟨k.config.trans h.config, h.registry.trans k.registry, k.store.trans h.store⟩

theorem Shared.Gains.drift {s s' : Shared} (h : s.Gains s') : s.Drift s' :=
  ⟨h.config, h.registry.grown, congrArg Store.fibers h.store⟩

theorem note_gains (s : Shared) (level : Log.Level) (target : String) (message : Unit → String)
    (thread : Option Nat) : s.Gains (s.note level target message thread) := by
  unfold Shared.note
  split
  · exact ⟨rfl, .refl _, rfl⟩
  · exact .refl s

theorem addImp_gains (s : Shared) (name : String) (args : List Arg) (safety : Safety) {f : Native}
    (own : f.isHost = false) : s.Gains (s.addImp name args safety (.native f)).2 := by
  have added : s.Gains { s with registry := (s.registry.addImp name args safety (.native f)).2 } :=
    ⟨rfl, Registry.addImp_gains _ _ _ _ own, rfl⟩
  exact added.trans (note_gains _ .debug Phase.vm.target
    (fun _ => s!"registered {(s.registry.addImp name args safety (.native f)).1.text}") none)

theorem declareType_gains {s s' : Shared} {name : String} {supers : List Ty} {behavior : Behavior}
    {t : Ty} (h : s.declareType name supers behavior = .ok (t, s')) : s.Gains s' := by
  unfold Shared.declareType at h
  split at h
  · cases h
  · rename_i registry made
    obtain ⟨-, rfl⟩ := Prod.mk.inj (Except.ok.inj h)
    have declared : s.Gains { s with registry } := ⟨rfl, Registry.declareType_gains made, rfl⟩
    exact declared.trans (note_gains _ .debug _ _ none)

namespace Compile

/-- The state that a step of a compilation leaves, however it ends. -/
def after (x : Compile α) (c : Compiler) : Compiler :=
  match x c with
  | .ok _ d => d
  | .error _ d => d

theorem after_bind (x : Compile α) (k : α → Compile β) (c : Compiler) :
    after (x >>= k) c = match x c with
      | .ok a d => after (k a) d
      | .error _ d => d := by
  simp only [after, Bind.bind, EStateM.bind]
  cases x c <;> rfl

theorem after_located (pos : Nat) (x : Compile α) (c : Compiler) : after (located pos x) c = after x c := by
  unfold after
  rw [Compile.located]
  rcases x c with ⟨a, d⟩ | ⟨_ | _, d⟩ <;> rfl

/-- What is shared stays in the relation from before the step. -/
def Leaves (R : Shared → Shared → Prop) (x : Compile α) : Prop :=
  ∀ c : Compiler, R c.shared (after x c).shared

theorem Leaves.bind {R : Shared → Shared → Prop} {x : Compile α} {k : α → Compile β}
    (trans : ∀ {a b c}, R a b → R b c → R a c) (hx : Leaves R x) (hk : ∀ a, Leaves R (k a)) :
    Leaves R (x >>= k) := by
  intro c
  have first := hx c
  rw [after] at first
  rw [after_bind]
  cases h : x c with
  | ok a d =>
    rw [h] at first
    exact trans first (hk a d)
  | error e d =>
    rw [h] at first
    exact first

theorem Leaves.located {R : Shared → Shared → Prop} {x : Compile α} (pos : Nat) (hx : Leaves R x) :
    Leaves R (located pos x) := by
  intro c
  rw [after_located]
  exact hx c

/-- The step makes no label known, and leaves the rest of what is shared as it is but for types and
library functions. -/
def Keeps (x : Compile α) : Prop := Leaves Shared.Gains x

theorem Keeps.pure (a : α) : Keeps (Pure.pure a) := fun c => .refl c.shared

theorem Keeps.bind {x : Compile α} {k : α → Compile β} (hx : Keeps x) (hk : ∀ a, Keeps (k a)) :
    Keeps (x >>= k) :=
  Leaves.bind Shared.Gains.trans hx hk

theorem Keeps.fail (f : Fault) : Keeps (fail f : Compile α) := fun c => .refl c.shared

theorem Keeps.exhausted : Keeps (exhausted : Compile α) := fun c => .refl c.shared

/-- A test that the rest comes after. -/
theorem Keeps.refuse {refused : Prop} [Decidable refused] {f : Fault} {k : Unit → Compile α}
    (hk : Keeps (k ())) : Keeps (if refused then Compile.fail f >>= k else k ()) := by
  split
  · exact (Keeps.fail f).bind fun _ => hk
  · exact hk

theorem Keeps.ofExcept (x : Except Fault α) : Keeps (ofExcept x) := by
  cases x with
  | ok a => exact .pure a
  | error f => exact .fail f

theorem Keeps.located {x : Compile α} (pos : Nat) (hx : Keeps x) : Keeps (located pos x) :=
  Leaves.located pos hx

theorem Keeps.ask (f : Shared → α) : Keeps (ask f) := fun c => .refl c.shared

theorem Keeps.alter {f : Shared → Shared} (h : ∀ s : Shared, s.Gains (f s)) : Keeps (alter f) :=
  fun c => h c.shared

theorem Keeps.mapM {f : α → Compile β} (h : ∀ a, Keeps (f a)) (xs : List α) :
    Keeps (xs.mapM f) := by
  induction xs with
  | nil => rw [List.mapM_nil]; exact .pure []
  | cons x xs ih =>
    rw [List.mapM_cons]
    exact (h x).bind fun _ => ih.bind fun _ => .pure _

theorem Keeps.forIn {f : α → β → Compile (ForInStep β)} (h : ∀ a b, Keeps (f a b)) (xs : List α)
    (b : β) : Keeps (forIn xs b f) := by
  induction xs generalizing b with
  | nil => rw [List.forIn_nil]; exact .pure b
  | cons x xs ih =>
    rw [List.forIn_cons]
    refine (h x b).bind fun step => ?_
    cases step with
    | done b => exact .pure b
    | yield b => exact ih b

theorem Keeps.of_same {x : Compile α} (h : ∀ c : Compiler, (after x c).shared = c.shared) :
    Keeps x := fun c => by
  rw [h]
  exact .refl _

theorem keeps_freshId : Keeps freshId := fun _ => ⟨rfl, Registry.freshId_gains _, rfl⟩

theorem keeps_note (phase : Phase) (level : Log.Level) (message : Unit → String) :
    Keeps (note phase level message) :=
  .alter fun s => note_gains s level _ message none

theorem keeps_emit (op : Op) : Keeps (emit op) :=
  (Keeps.ask _).bind fun _ => (keeps_note _ _ _).bind fun _ => .of_same fun _ => rfl

/-- The registry that something else made takes the place of the present one. -/
theorem keeps_registry {make : Registry → β × Registry} (h : ∀ r : Registry, r.Gains (make r).2)
    {k : β → Compile α} (hk : ∀ b, Keeps (k b)) : Keeps (do
      let (b, registry) ← ask fun s => make s.registry
      alter fun s => { s with registry }
      k b) := by
  intro c
  let made := make c.shared.registry
  have more : c.shared.Gains { c.shared with registry := made.2 } := ⟨rfl, h _, rfl⟩
  exact more.trans (hk made.1 { c with shared := { c.shared with registry := made.2 } })

/-- What was made out of the present state takes its place, if it could be made. -/
theorem keeps_made {γ : Type} (make : Shared → Except Fault (β × γ)) (put : γ → Shared → Shared)
    {x : Compile (β × γ)}
    (hx : ∀ c : Compiler, (∃ e, x c = .error e c) ∨ ∃ p, make c.shared = .ok p ∧ x c = .ok p c)
    (h : ∀ (s : Shared) (b : β) (g : γ), make s = .ok (b, g) → s.Gains (put g s))
    {k : β → Compile α} (hk : ∀ b, Keeps (k b)) : Keeps (do
      let (b, g) ← x
      alter (put g)
      k b) := by
  intro c
  rcases hx c with ⟨e, failed⟩ | ⟨⟨b, g⟩, made, done⟩
  · simp only [after, Bind.bind, EStateM.bind, failed]
    exact .refl _
  · simp only [after, Bind.bind, EStateM.bind, done]
    exact (h _ b g made).trans (hk b { c with shared := put g c.shared })

theorem ofExcept_ask (make : Shared → Except Fault β) (c : Compiler) :
    (∃ e, (do ofExcept (← ask make) : Compile β) c = .error e c) ∨
      ∃ b, make c.shared = .ok b ∧ (do ofExcept (← ask make) : Compile β) c = .ok b c := by
  cases h : make c.shared with
  | error f =>
    refine .inl ⟨.fault f, ?_⟩
    simp only [Bind.bind, EStateM.bind, ask, h]
    rfl
  | ok b =>
    refine .inr ⟨b, rfl, ?_⟩
    simp only [Bind.bind, EStateM.bind, ask, h]
    rfl

theorem keeps_resolve (e : TypeExpr) : Keeps (resolve e) :=
  keeps_registry (fun r => (e.resolve_adds r).gains) Keeps.ofExcept

theorem keeps_argOf (e : TypeExpr) : Keeps (argOf e) :=
  keeps_registry (fun r => (e.toArg_adds r).gains) Keeps.ofExcept

theorem keeps_tokens (text : String) (offset : Nat) : Keeps (tokens text offset) :=
  (keeps_note _ _ _).bind fun _ => (Keeps.ofExcept _).bind fun _ =>
    (keeps_note _ _ _).bind fun _ => .pure _

/-! ## Forms -/

theorem keeps_expect (first : Token) (what : String) (ts : List Token) :
    Keeps (expect first what ts) := by
  cases ts with
  | nil => exact .fail _
  | cons t ts => exact .pure _

theorem keeps_typeAt (text : String) (pos : Nat) : Keeps (typeAt text pos) :=
  .located pos ((Keeps.ofExcept _).bind keeps_resolve)

variable {block : Block}

theorem keeps_ownBlock (hb : ∀ closing ts, Keeps (block closing ts)) (closing : String) (op : Op)
    (ts : List Token) : Keeps (ownBlock block closing op ts) :=
  (keeps_emit _).bind fun _ => (hb _ _).bind fun _ => (keeps_emit _).bind fun _ => .pure _

theorem keeps_lambda (hb : ∀ closing ts, Keeps (block closing ts)) (name : Option String)
    (kind : LambdaKind) (closing : Option String) (ts : List Token) :
    Keeps (lambda block name kind closing ts) :=
  keeps_freshId.bind fun _ => (keeps_emit _).bind fun _ => (hb _ _).bind fun _ =>
    (keeps_emit _).bind fun _ => .pure _

theorem keeps_braces (hb : ∀ closing ts, Keeps (block closing ts)) (t : Token) :
    Keeps (braces block t) :=
  (keeps_tokens _ _).bind fun _ => (keeps_lambda hb _ _ _ _).bind fun _ => .pure _

mutual

theorem keeps_typeOps : (e : TypeExpr) → Keeps (typeOps e)
  | .named name => by rw [typeOps]; exact keeps_emit _
  | .generic name args => by
    rw [typeOps]
    exact keeps_freshId.bind fun _ => (keeps_emit _).bind fun _ => (keeps_typeOpsEach args).bind
      fun _ => keeps_emit _
  | .same n => Keeps.fail _
  | .argOf n k => Keeps.fail _

theorem keeps_typeOpsEach : (es : List TypeExpr) → Keeps (typeOpsEach es)
  | [] => by rw [typeOpsEach]; exact .pure ()
  | e :: es => by
    rw [typeOpsEach]
    exact (keeps_typeOps e).bind fun _ => keeps_typeOpsEach es

end

theorem keeps_signature (first : Token) (ts : List Token) : Keeps (signature first ts) := by
  induction ts with
  | nil => exact .fail _
  | cons t ts ih =>
    rw [signature]
    dsimp only
    split
    · exact .pure _
    · exact (Keeps.located _ (.ofExcept _)).bind fun _ => ih.bind fun _ => .pure _

theorem keeps_checkReference (arity : Nat) (e : TypeExpr) : Keeps (checkReference arity e) := by
  unfold checkReference
  split
  · split
    · exact .fail _
    · exact .pure _
  · split
    · exact .fail _
    · exact .pure _
  · exact .pure _

theorem keeps_argAt (arity : Nat) (e : TypeExpr) (pos : Nat) : Keeps (argAt arity e pos) :=
  .located pos ((keeps_checkReference _ _).bind fun _ => keeps_argOf _)

theorem keeps_funcBody (hb : ∀ closing ts, Keeps (block closing ts)) (first name : Token)
    (ts : List Token) : Keeps (funcBody block first name ts) :=
  (keeps_signature _ _).bind fun _ =>
    (Keeps.mapM (fun (e, pos) => keeps_argAt _ e pos) _).bind fun _ =>
      (keeps_lambda hb _ _ _ _).bind fun _ => .of_same fun _ => rfl

theorem keeps_funcForm (hb : ∀ closing ts, Keeps (block closing ts)) (first : Token)
    (ts : List Token) : Keeps (funcForm block first ts) :=
  (keeps_expect _ _ _).bind fun _ => (keeps_expect _ _ _).bind fun _ =>
    Keeps.refuse (keeps_funcBody hb _ _ _)

theorem keeps_bindingForm (hb : ∀ closing ts, Keeps (block closing ts)) (first : Token)
    (ts : List Token) : Keeps (bindingForm block first ts) := by
  refine (keeps_expect _ _ _).bind fun (name, ts) => Keeps.refuse ?_
  exact (keeps_ownBlock hb _ _ _).bind fun _ => (keeps_emit _).bind fun _ => .pure _

theorem keeps_fieldType (pos : Nat) (text? : Option String) : Keeps (fieldType pos text?) := by
  cases text? with
  | some text => exact keeps_typeAt text pos
  | none => exact .pure Ty.any

theorem keeps_fields (first : Token) (seen : List String) (ts : List Token) :
    Keeps (fields first seen ts) := by
  induction ts generalizing seen with
  | nil => exact .fail _
  | cons t ts ih =>
    rw [fields]
    dsimp only
    split
    · exact .pure _
    · exact (keeps_fieldType _ _).bind fun _ => Keeps.refuse ((ih _).bind fun _ => .pure _)

theorem keeps_addStructFuncs {fs : List (String × List Arg × Safety × Native)}
    (own : ∀ f ∈ fs, f.2.2.2.isHost = false) : Keeps (addStructFuncs fs) := by
  induction fs with
  | nil => exact .pure ()
  | cons f fs ih =>
    obtain ⟨first, rest⟩ := List.forall_mem_cons.1 own
    exact Keeps.bind (.alter fun s => addImp_gains s _ _ _ first) fun _ => ih rest

theorem structFuncs_own (t : Ty) (fs : List (String × Ty)) :
    ∀ f ∈ structFuncs t fs, f.2.2.2.isHost = false := by
  intro f member
  rcases List.mem_cons.1 member with rfl | member
  · rfl
  · obtain ⟨field, -, member⟩ := List.mem_flatMap.1 member
    simp only [List.mem_cons, List.not_mem_nil, or_false] at member
    rcases member with rfl | rfl <;> rfl

theorem keeps_declare (name : Token) (fs : List (String × Ty)) (ts : List Token) : Keeps (do
    let (t, shared) ← located name.pos do
      ofExcept (← ask fun s => s.declareType name.text [.struct] (.record name.text (fs.map (·.1))))
    alter fun _ => shared
    addStructFuncs (structFuncs t fs)
    return ts) := by
  let make (s : Shared) := s.declareType name.text [.struct] (.record name.text (fs.map (·.1)))
  refine keeps_made make (fun shared _ => shared) (fun c => ?_) (fun _ _ _ => declareType_gains)
    fun t => (keeps_addStructFuncs (structFuncs_own t fs)).bind fun _ => .pure ts
  rcases ofExcept_ask make c with ⟨e, failed⟩ | ⟨p, made, done⟩
  · left
    rw [Compile.located]
    rw [show _ = _ from failed]
    cases e <;> exact ⟨_, rfl⟩
  · refine .inr ⟨p, made, ?_⟩
    rw [Compile.located]
    rw [show _ = _ from done]

theorem keeps_structForm (first : Token) (ts : List Token) : Keeps (structForm first ts) :=
  (keeps_expect _ _ _).bind fun (name, _) => (keeps_fields _ _ _).bind fun (fs, ts) =>
    keeps_declare name fs ts

theorem keeps_convForm (hb : ∀ closing ts, Keeps (block closing ts)) (first : Token)
    (ts : List Token) : Keeps (convForm block first ts) :=
  (keeps_expect _ _ _).bind fun _ => (keeps_expect _ _ _).bind fun _ => (keeps_typeAt _ _).bind
    fun _ => (keeps_typeAt _ _).bind fun _ => (keeps_lambda hb _ _ _ _).bind fun _ =>
      .of_same fun _ => rfl

theorem keeps_testForm (hb : ∀ closing ts, Keeps (block closing ts)) (first : Token)
    (ts : List Token) : Keeps (testForm block first ts) := by
  refine (keeps_expect _ _ _).bind fun (message, ts) => Keeps.refuse ?_
  exact (keeps_ownBlock hb _ _ _).bind fun _ => (keeps_emit _).bind fun _ => .pure _

theorem keeps_tryForm (hb : ∀ closing ts, Keeps (block closing ts)) (ts : List Token) :
    Keeps (tryForm block ts) :=
  keeps_freshId.bind fun _ => (keeps_emit _).bind fun _ => (hb _ _).bind fun _ =>
    (keeps_emit _).bind fun _ => (keeps_emit _).bind fun _ => .pure _

theorem keeps_hostForm (first : Token) (take : Nat) (ts : List Token) :
    Keeps (hostForm first take ts) := by
  induction take generalizing ts with
  | zero => exact .pure ts
  | succ take ih =>
    exact (keeps_expect _ _ _).bind fun _ => (keeps_emit _).bind fun _ => ih _

theorem keeps_exitForm (kind : ExitKind) (word : String) : Keeps (exitForm kind word) :=
  keeps_freshId.bind fun _ => keeps_emit _

theorem keeps_form (hb : ∀ closing ts, Keeps (block closing ts)) (first : Token) (ts : List Token)
    (m : Macro) : Keeps (form block first ts m) := by
  cases m with
  | func => exact keeps_funcForm hb first ts
  | binding => exact keeps_bindingForm hb first ts
  | struct => exact keeps_structForm first ts
  | conv => exact keeps_convForm hb first ts
  | test => exact keeps_testForm hb first ts
  | attempt => exact keeps_tryForm hb ts
  | unrestricted =>
    exact (keeps_emit _).bind fun _ => (hb _ _).bind fun _ => (keeps_emit _).bind fun _ => .pure _
  | defer => exact (keeps_lambda hb _ _ _ _).bind fun _ => (keeps_emit _).bind fun _ => .pure _
  | word op => exact (keeps_emit op).bind fun _ => .pure ts
  | exit kind => exact (keeps_exitForm _ _).bind fun _ => .pure ts
  | host take => exact keeps_hostForm first take ts

theorem keeps_token (hb : ∀ closing ts, Keeps (block closing ts)) (t : Token) (ts : List Token) :
    Keeps (token block t ts) := by
  unfold token
  split
  · exact (keeps_braces hb t).bind fun _ => .pure _
  split
  · exact keeps_ownBlock hb _ _ _
  split
  · exact keeps_ownBlock hb _ _ _
  split
  · exact .fail _
  split
  · exact .fail _
  split
  · exact (Keeps.ofExcept _).bind fun _ => (keeps_emit _).bind fun _ => .pure _
  split
  · exact (Keeps.ofExcept _).bind fun _ => (keeps_typeOps _).bind fun _ => .pure _
  · refine (Keeps.ask _).bind fun m? => ?_
    cases m? with
    | some m => exact keeps_form hb t ts m
    | none => exact (keeps_emit _).bind fun _ => .pure _

theorem keeps_upTo (fuel : Nat) (closing : Option String) (ts : List Token) :
    Keeps (upTo fuel closing ts) := by
  induction fuel generalizing closing ts with
  | zero => exact .exhausted
  | succ fuel ih =>
    cases ts with
    | nil =>
      cases closing with
      | none => exact .pure _
      | some closing => exact .fail _
    | cons t ts =>
      rw [upTo]
      split
      · exact .pure _
      · exact (Keeps.located _ (keeps_token ih t ts)).bind fun _ => ih _ _

/-! ## Settling and placing -/

theorem keeps_rewriteOp (fold : Bool) (done : List Op) (op : Op) :
    Keeps (rewriteOp fold done op) := by
  unfold rewriteOp
  split
  · exact keeps_freshId.bind fun _ => .pure _
  · exact keeps_freshId.bind fun _ => .pure _
  · exact .pure _
  · exact .pure _
  · exact .pure _
  · split <;> exact .pure _
  · split
    · rename_i template _ args done _
      let make (s : Shared) := s.registry.instantiateNamed template args
      rw [← bind_assoc]
      refine keeps_made make (fun registry s => { s with registry }) (ofExcept_ask make) ?_ fun t =>
        .pure ((.push (.type t) :: done, true) : List Op × Bool)
      exact fun _ _ _ made => ⟨rfl, (Registry.instantiateNamed_adds made).gains, rfl⟩
    · exact .pure _
  · exact .pure _

theorem keeps_rewrite (fold changed : Bool) (done ops : List Op) :
    Keeps (rewrite fold changed done ops) := by
  induction ops generalizing changed done with
  | nil => exact .pure _
  | cons op ops ih => exact (keeps_rewriteOp _ _ _).bind fun _ => ih _ _

theorem keeps_names (ops : List Op) : Keeps (names ops) := .of_same fun _ => rfl

theorem keeps_rounds (config : CompilerConfig) (left : Nat) (ops : List Op) :
    Keeps (rounds config left ops) := by
  induction left generalizing ops with
  | zero => exact .fail _
  | succ left ih =>
    refine (keeps_names _).bind fun _ => (keeps_rewrite _ _ _ _).bind fun _ =>
      (keeps_note _ _ _).bind fun _ => ?_
    split
    · exact ih _
    · exact .pure _

theorem keeps_settle (ops : List Op) : Keeps (settle ops) :=
  (Keeps.ask _).bind fun _ => (Keeps.ofExcept _).bind fun _ => keeps_rounds _ _ _

theorem anon_of_mem_namedLabels {ops : List Op} {l : Label} (h : l ∈ namedLabels ops) :
    l.anon = false := by
  obtain ⟨op, -, found⟩ := List.mem_filterMap.1 h
  split at found
  · split at found
    · cases found
    · rename_i anon
      obtain rfl := Option.some.inj found
      exact eq_false_of_ne_true anon
  · cases found

/-- The step lets what is shared drift, but leaves the store as it is. -/
def Drifts (x : Compile α) : Prop := Leaves (fun s s' => s.Drift s' ∧ s'.store = s.store) x

theorem Keeps.drifts {x : Compile α} (h : Keeps x) : Drifts x := fun c => ⟨(h c).drift, (h c).store⟩

theorem Drifts.bind {x : Compile α} {k : α → Compile β} (hx : Drifts x) (hk : ∀ a, Drifts (k a)) :
    Drifts (x >>= k) :=
  Leaves.bind (fun h k => ⟨h.1.trans k.1, k.2.trans h.2⟩) hx hk

theorem Drifts.located {x : Compile α} (pos : Nat) (hx : Drifts x) : Drifts (located pos x) :=
  Leaves.located pos hx

/-- The labels with a name come to be known. -/
theorem drifts_addLabels (p : Placement) (ops : List Op) :
    Drifts (alter fun s => { s with registry := s.registry.addLabels ((namedLabels ops).map p.label) }) := by
  intro c
  refine ⟨⟨rfl, Registry.addLabels_grown c.shared.registry _ fun l member => ?_, rfl⟩, rfl⟩
  obtain ⟨l', named, rfl⟩ := List.mem_map.1 member
  have anon : l'.anon = false := anon_of_mem_namedLabels named
  exact anon

theorem drifts_place (base : Nat) (ops : List Op) : Drifts (place base ops) :=
  (Keeps.ask _).drifts.bind fun _ => (Keeps.ofExcept _).drifts.bind fun _ =>
    (keeps_note _ _ _).drifts.bind fun _ => (drifts_addLabels _ ops).bind fun _ =>
      fun _ => ⟨.refl _, rfl⟩

theorem drifts_source (text : String) (base : Nat) : Drifts (source text base) := by
  refine (keeps_tokens _ _).drifts.bind fun _ => (keeps_note _ _ _).drifts.bind fun _ =>
    (keeps_upTo _ _ _).drifts.bind fun _ => ?_
  have rest (ops : List Op) : Drifts (do
      let code ← place base (← settle ops)
      note .compiler .debug fun _ => s!"compiled {code.ops.length} ops"
      return code) :=
    (keeps_settle _).drifts.bind fun _ => (drifts_place _ _).bind fun _ =>
      ((keeps_note _ _ _).bind fun _ => .pure _).drifts
  exact fun c => rest c.ops.toList c

end Compile

namespace Run

theorem makes_compileAt (text : String) (base : Nat) : Makes (Deeds careful) (compileAt text base) := by
  intro m
  have keeps := Compile.drifts_source text base { shared := m.shared }
  unfold after Compile.after at *
  rw [compileAt]
  cases h : Compile.source text base { shared := m.shared } <;> rw [h] at keeps <;>
    exact (Deed.shared _ keeps.1 (.of_eq (congrArg Store.threads keeps.2))).deeds

theorem makes_defineFuncs (funcs : List PendingFunc) : Makes (Deeds careful) (defineFuncs funcs) := by
  induction funcs with
  | nil => exact .pure ()
  | cons f fs ih =>
    exact Makes.bind (.alterShared (fun s => addImp_drift s _ _ _ _) fun s => addImp_threads s _ _ _ _)
      fun _ => ih

theorem makes_defineConvs (convs : List PendingConv) : Makes (Deeds careful) (defineConvs convs) := by
  induction convs with
  | nil => exact .pure ()
  | cons c cs ih =>
    refine (makes_newClosure _).bind fun f => Makes.bind (.alterShared (fun s => ?_) fun s => ?_) fun _ => ih
    · have noted := note_drift s .debug Phase.vm.target
        (fun _ => s!"registered conversion {c.source.name} -> {c.target.name}") none
      exact noted.trans ⟨rfl, Registry.addConv_grown _ _ _ _, rfl⟩
    · exact note_threads s .debug Phase.vm.target _ none

/-- Compiling puts a unit behind the operations there are, if it succeeds; what it does before and
after that leaves the operations alone. -/
theorem compile_deeds (text : String) (m : Machine) :
    Deeds careful m ((compile text).after m) ∨
    ∃ code c, Compile.source text m.thread.ops.size { shared := m.shared } = .ok code c ∧
      Deeds careful m { m with shared := c.shared } ∧
      Deeds careful
        { shared := c.shared
          thread := { m.thread with ops := m.thread.ops ++ code.ops.toArray } }
        ((compile text).after m) := by
  have compiled : Deeds careful m ((compileAt text m.thread.ops.size).after m) :=
    makes_compileAt text m.thread.ops.size m
  unfold compile
  rw [after_bind, ask]
  dsimp only
  rw [after_bind]
  cases made : Compile.source text m.thread.ops.size { shared := m.shared } with
  | error h c =>
    have failed : compileAt text m.thread.ops.size m = .error h { m with shared := c.shared } := by
      rw [compileAt, made]
    rw [after_error failed] at compiled
    rw [failed]
    exact .inl compiled
  | ok code c =>
    have done : compileAt text m.thread.ops.size m = .ok code { m with shared := c.shared } := by
      rw [compileAt, made]
    rw [after_ok done] at compiled
    rw [done]
    refine .inr ⟨code, c, rfl, compiled, ?_⟩
    exact ((makes_defineFuncs _).bind fun _ => (makes_defineConvs _).bind fun _ =>
      (Makes.ask _).bind fun _ => (makes_note _ _).bind fun _ => .pure _) _

/-- Compiling makes changes. -/
theorem makes_compile (text : String) : Makes (Changes careful) (compile text) := by
  intro m
  obtain deeds | ⟨code, c, -, before, after⟩ := compile_deeds text m
  · exact Deeds.changes deeds
  · have longer : m.thread.Drift { m.thread with ops := m.thread.ops ++ code.ops.toArray } :=
      .aside rfl rfl rfl rfl rfl
    exact (before.changes.next (.thread _ longer)).trans after.changes

end Run

end Catena
