import Catena.Proofs.Layout.Emit
import Mathlib.Data.List.Forall2
import Mathlib.Data.Option.Basic
import Mathlib.Order.Basic

/-!
# Engines that compile alike

Two engines may give different ids to what they compile, and different types to the same names, without
a compilation telling them apart. A `Likeness` says what types and registries correspond so. Then each
step of a compilation that succeeds on one side does so on the other (`Agrees`), and what it makes
corresponds, up to the ids taken on the way.
-/

namespace Catena

/-- The ids of the one side that correspond to ids of the other. -/
abbrev Ids := Nat → Nat → Prop

variable {I J : Ids} {ty : Ty → Ty → Prop} {word : String → Prop}

/-! ## What is compiled alike -/

/-- The same label, or one made for corresponding ids. -/
inductive Label.Like (I : Ids) : Label → Label → Prop
  | refl (l : Label) : Label.Like I l l
  | fresh (hint : String) {a b : Nat} : I a b → Label.Like I (.fresh hint a) (.fresh hint b)
  | exit (kind : ExitKind) (depth : Nat) {a b : Nat} : I a b →
      Label.Like I (.exit kind depth a) (.exit kind depth b)

/-- The same value, or corresponding types or labels. -/
inductive Value.Like (ty : Ty → Ty → Prop) (I : Ids) : Value → Value → Prop
  | refl (v : Value) : Value.Like ty I v v
  | type {t t' : Ty} : ty t t' → Value.Like ty I (.type t) (.type t')
  | label {l l' : Label} : l.Like I l' → Value.Like ty I (.label l) (.label l')

structure LambdaDef.Like (I : Ids) (b b' : LambdaDef) : Prop where
  id : I b.id b'.id
  name : b'.name = b.name
  entry : b'.entry = b.entry

/-- Operations in which no id and no type stands, and which the compiler leaves as they are. -/
def Op.isFixed : Op → Bool
  | call _ | get _ | bind _ | fmt _ | begin .. | close | closeList | closeTry | closeTest _ => true
  | _ => false

/-- Corresponding operations. A name that is looked up has to be one under which types correspond. -/
inductive Op.Like (ty : Ty → Ty → Prop) (word : String → Prop) (I : Ids) : Op → Op → Prop
  | fixed {op : Op} : op.isFixed = true → Op.Like ty word I op op
  | push {v v' : Value} : v.Like ty I v' → Op.Like ty word I (.push v) (.push v')
  | pushMany {vs vs' : List Value} : vs.Forall₂ (Value.Like ty I) vs' →
      Op.Like ty word I (.pushMany vs) (.pushMany vs')
  | drop (n : Nat) : Op.Like ty word I (.drop n) (.drop n)
  | check {t t' : Option Ty} : Option.Rel ty t t' → Op.Like ty word I (.check t) (.check t')
  | deref {name : String} : word name → Op.Like ty word I (.deref name) (.deref name)
  | ref (name : String) : Op.Like ty word I (.ref name) (.ref name)
  | target {l l' : Label} : l.Like I l' → Op.Like ty word I (.target l) (.target l')
  | jump (name : String) {l l' : Option Label} : Option.Rel (Label.Like I) l l' →
      Op.Like ty word I (.jump name l) (.jump name l')
  | back {l l' : Label} : l.Like I l' →
      Op.Like ty word I (.jump l.name (some l)) (.jump l'.name (some l'))
  | lambda {b b' : LambdaDef} (kind : LambdaKind) {l l' : Option Label} : b.Like I b' →
      Option.Rel (Label.Like I) l l' → Op.Like ty word I (.lambda b kind l) (.lambda b' kind l')
  | unlambda {a b : Nat} : I a b → Op.Like ty word I (.unlambda a) (.unlambda b)
  | exit {l l' : Label} {a b : Option Nat} : l.Like I l' → Option.Rel I a b →
      Op.Like ty word I (.exit l a) (.exit l' b)
  | try {l l' : Label} : l.Like I l' → Op.Like ty word I (.try l) (.try l')
  | for {l l' : Option Label} : Option.Rel (Label.Like I) l l' →
      Op.Like ty word I (.for l) (.for l')
  | while {l l' : Option Label} : Option.Rel (Label.Like I) l l' →
      Op.Like ty word I (.while l) (.while l')
  | param {a b : Nat} : I a b → Op.Like ty word I (.param a) (.param b)
  | unparam {a b : Nat} {template : String} : I a b → word template →
      Op.Like ty word I (.unparam a template) (.unparam b template)

/-- The same demand, or corresponding types. -/
inductive Arg.Like (ty : Ty → Ty → Prop) : Arg → Arg → Prop
  | refl (a : Arg) : Arg.Like ty a a
  | type {t t' : Ty} : ty t t' → Arg.Like ty (.type t) (.type t')
  | isType {t t' : Ty} : ty t t' → Arg.Like ty (.pred (.isType t.id)) (.pred (.isType t'.id))

/-- The same library function, or those that make values of corresponding types. -/
inductive Native.Like (ty : Ty → Ty → Prop) : Native → Native → Prop
  | refl (f : Native) : Native.Like ty f f
  | construct {t t' : Ty} (fields : Nat) : ty t t' →
      Native.Like ty (.construct t fields) (.construct t' fields)

structure PendingFunc.Like (ty : Ty → Ty → Prop) (I : Ids) (f f' : PendingFunc) : Prop where
  name : f'.name = f.name
  args : f.args.Forall₂ (Arg.Like ty) f'.args
  safety : f'.safety = f.safety
  body : f.body.Like I f'.body

structure PendingConv.Like (ty : Ty → Ty → Prop) (I : Ids) (c c' : PendingConv) : Prop where
  source : ty c.source c'.source
  target : ty c.target c'.target
  body : c.body.Like I c'.body

/-! ## More ids -/

theorem Label.Like.mono {l l' : Label} (h : l.Like I l') (more : I ≤ J) : l.Like J l' := by
  cases h with
  | refl => exact .refl l
  | fresh hint is => exact .fresh hint (more _ _ is)
  | exit kind depth is => exact .exit kind depth (more _ _ is)

theorem optionRel_mono {α : Type} {r s : α → α → Prop} {a b : Option α} (h : Option.Rel r a b)
    (more : ∀ a b, r a b → s a b) : Option.Rel s a b := by
  cases h with
  | none => exact .none
  | some is => exact .some (more _ _ is)

theorem Value.Like.mono {v v' : Value} (h : v.Like ty I v') (more : I ≤ J) : v.Like ty J v' := by
  cases h with
  | refl => exact .refl v
  | type is => exact .type is
  | label is => exact .label (is.mono more)

theorem LambdaDef.Like.mono {b b' : LambdaDef} (h : b.Like I b') (more : I ≤ J) : b.Like J b' :=
  ⟨more _ _ h.id, h.name, h.entry⟩

theorem Op.Like.mono {op op' : Op} (h : op.Like ty word I op') (more : I ≤ J) :
    op.Like ty word J op' := by
  have labels {l l' : Option Label} (h : Option.Rel (Label.Like I) l l') :
      Option.Rel (Label.Like J) l l' := optionRel_mono h fun _ _ is => is.mono more
  cases h with
  | fixed is => exact .fixed is
  | push is => exact .push (is.mono more)
  | pushMany are => exact .pushMany (are.imp fun _ _ is => is.mono more)
  | drop n => exact .drop n
  | check is => exact .check is
  | deref is => exact .deref is
  | ref name => exact .ref name
  | target is => exact .target (is.mono more)
  | jump name is => exact .jump name (labels is)
  | back is => exact .back (is.mono more)
  | lambda kind body skip => exact .lambda kind (body.mono more) (labels skip)
  | unlambda is => exact .unlambda (more _ _ is)
  | exit label lambda => exact .exit (label.mono more) (optionRel_mono lambda more)
  | «try» is => exact .try (is.mono more)
  | «for» is => exact .for (labels is)
  | «while» is => exact .while (labels is)
  | param is => exact .param (more _ _ is)
  | unparam is named => exact .unparam (more _ _ is) named

theorem PendingFunc.Like.mono {f f' : PendingFunc} (h : f.Like ty I f') (more : I ≤ J) :
    f.Like ty J f' :=
  ⟨h.name, h.args, h.safety, h.body.mono more⟩

theorem PendingConv.Like.mono {c c' : PendingConv} (h : c.Like ty I c') (more : I ≤ J) :
    c.Like ty J c' :=
  ⟨h.source, h.target, h.body.mono more⟩

/-! ## Likenesses -/

/-- The ids taken on both sides correspond from now on. -/
def Ids.join (I : Ids) (a b : Nat) : Ids := fun x y => I x y ∨ (x = a ∧ y = b)

theorem Ids.le_join (I : Ids) (a b : Nat) : I ≤ I.join a b := fun _ _ => .inl

/-- Which types, names and registries of two engines correspond. What one registry knows, the other
one knows too, as far as a compilation asks; and what is done to both leaves corresponding ones. -/
structure Likeness where
  ty : Ty → Ty → Prop
  /-- The names under which types correspond. -/
  word : String → Prop
  /-- The forms of both engines. -/
  macros : Dict String Macro
  registry : Ids → Registry → Registry → Prop
  ty_refl : ∀ t, ty t t
  ty_name : ∀ {t t'}, ty t t' → t'.name = t.name
  word_plain : ∀ {name}, TypeExpr.looksGeneric name = false → word name
  apart : ∀ {I r r' a a' b b'}, registry I r r' → I a a' → I b b' → (a = b ↔ a' = b')
  forms : ∀ {I r r'}, registry I r r' → r.macros = macros ∧ r'.macros = macros
  keywords : ∀ {I r r' name op}, registry I r r' → macros.find? name = some (.word op) →
    op.Like ty word I op
  labels : ∀ {I r r'}, registry I r r' → r'.labels = r.labels
  funcs : ∀ {I r r'}, registry I r r' → ∀ name, r'.funcs.contains name = r.funcs.contains name
  types : ∀ {I r r' name}, registry I r r' → word name →
    Option.Rel ty (r.types.find? name) (r'.types.find? name)
  freshId : ∀ {I r r'}, registry I r r' →
    registry (I.join r.nextId r'.nextId) r.freshId.2 r'.freshId.2
  instantiateNamed : ∀ {I r r' name args args' t s}, registry I r r' → word name →
    args.Forall₂ ty args' → r.instantiateNamed name args = .ok (t, s) →
    ∃ t' s', r'.instantiateNamed name args' = .ok (t', s') ∧ ty t t' ∧ registry I s s'
  declareType : ∀ {I r r' name supers behavior t s}, registry I r r' → word name →
    r.declareType name supers behavior = .ok (t, s) →
    ∃ t' s', r'.declareType name supers behavior = .ok (t', s') ∧ ty t t' ∧ registry I s s'
  addImp : ∀ {I r r' args args' f f'} (name : String) (safety : Safety), registry I r r' →
    args.Forall₂ (Arg.Like ty) args' → f.Like ty f' →
    registry I (r.addImp name args safety (.native f)).2 (r'.addImp name args' safety (.native f')).2

namespace Likeness

variable {α β γ δ : Type} (L : Likeness)

/-- Corresponding states of a compilation. -/
structure State (I : Ids) (c c' : Compiler) : Prop where
  registry : L.registry I c.shared.registry c'.shared.registry
  config : c'.shared.config = c.shared.config
  ops : c.ops.toList.Forall₂ (Op.Like L.ty L.word I) c'.ops.toList
  funcs : c.funcs.Forall₂ (PendingFunc.Like L.ty I) c'.funcs
  convs : c.convs.Forall₂ (PendingConv.Like L.ty I) c'.convs

/-- No type is declared under a name under which types need not correspond. -/
def Plain (r : Registry) : Prop :=
  ∀ name t, r.types.find? name = some t → t.template = none → L.word name

/-- If the first step succeeds and leaves a `good` registry, the second one succeeds too. Its answer
and the state it leaves correspond, up to ids taken on the way. -/
def Agrees (good : Registry → Prop) (I : Ids) (R : Ids → α → β → Prop) (x : Compile α)
    (y : Compile β) : Prop :=
  ∀ c c' a d, L.State I c c' → x c = .ok a d → good d.shared.registry →
    ∃ J b d', I ≤ J ∧ y c' = .ok b d' ∧ L.State J d d' ∧ R J a b

/-- The steps agree, whatever the first one does to the registry. -/
abbrev Steps (I : Ids) (R : Ids → α → β → Prop) (x : Compile α) (y : Compile β) : Prop :=
  L.Agrees (fun _ => True) I R x y

/-- The steps agree, if the first one declares no type under a name of the kind that instances have. -/
abbrev Follows (I : Ids) (R : Ids → α → β → Prop) (x : Compile α) (y : Compile β) : Prop :=
  L.Agrees L.Plain I R x y

/-! ## Rules -/

variable {L} {good : Registry → Prop} {R : Ids → α → β → Prop} {S : Ids → γ → δ → Prop}
  {x : Compile α} {y : Compile β} {k : α → Compile γ} {k' : β → Compile δ}

theorem Plain.before {r r' : Registry} (h : L.Plain r') (gains : r.Gains r') : L.Plain r :=
  fun name t found bare => h name t (gains.grown.types name t found) bare

namespace Agrees

theorem pure {a : α} {b : β} (h : R I a b) : L.Agrees good I R (Pure.pure a) (Pure.pure b) := by
  rintro c c' _ _ state ⟨⟩ -
  exact ⟨I, b, c', le_refl I, rfl, state, h⟩

theorem fail {f : Fault} : L.Agrees good I R (Compile.fail f) y := by
  rintro _ _ _ _ _ ⟨⟩

theorem exhausted : L.Agrees good I R Compile.exhausted y := by
  rintro _ _ _ _ _ ⟨⟩

/-- What is asked of the registry behind the first step has to follow from what is asked of it in the
end. -/
theorem bind {good' : Registry → Prop} (hx : L.Agrees good' I R x y)
    (before : ∀ a d b e, k a d = .ok b e → good e.shared.registry → good' d.shared.registry)
    (hk : ∀ J a b, I ≤ J → R J a b → L.Agrees good J S (k a) (k' b)) :
    L.Agrees good I S (x >>= k) (y >>= k') := by
  intro c c' b e state ok nice
  simp only [Bind.bind, EStateM.bind] at ok
  cases first : x c with
  | error => rw [first] at ok; cases ok
  | ok a d =>
    rw [first] at ok
    obtain ⟨J, a', d', more, first', state', related⟩ :=
      hx c c' a d state first (before a d b e ok nice)
    obtain ⟨K, b', e', more', second', state'', related'⟩ :=
      hk J a a' more related d d' b e state' ok nice
    refine ⟨K, b', e', le_trans more more', ?_, state'', related'⟩
    simp only [Bind.bind, EStateM.bind, first', second']

theorem located (pos pos' : Nat) (h : L.Agrees good I R x y) :
    L.Agrees good I R (Compile.located pos x) (Compile.located pos' y) := by
  intro c c' a d state ok nice
  cases first : x c with
  | error e =>
    simp only [Compile.located, first] at ok
    cases e <;> cases ok
  | ok b e =>
    simp only [Compile.located, first] at ok
    obtain ⟨rfl, rfl⟩ := EStateM.Result.ok.inj ok
    obtain ⟨J, b, d', more, second, state', related⟩ := h c c' _ _ state first nice
    exact ⟨J, b, d', more, by simp only [Compile.located, second], state', related⟩

/-- Answers may be related in a weaker way. -/
theorem imp {R' : Ids → α → β → Prop} (h : L.Agrees good I R x y)
    (weaker : ∀ J a b, I ≤ J → R J a b → R' J a b) : L.Agrees good I R' x y := by
  intro c c' a d state ok nice
  obtain ⟨J, b, d', more, second, state', related⟩ := h c c' a d state ok nice
  exact ⟨J, b, d', more, second, state', weaker J a b more related⟩

theorem refuse {refused refused' : Prop} [Decidable refused] [Decidable refused'] {f f' : Fault}
    {l : Unit → Compile α} {l' : Unit → Compile β} (same : refused' → refused)
    (h : L.Agrees good I R (l ()) (l' ())) :
    L.Agrees good I R (if refused then Compile.fail f >>= l else l ())
      (if refused' then Compile.fail f' >>= l' else l' ()) := by
  by_cases bad : refused
  · rw [if_pos bad]
    rintro _ _ _ _ _ ⟨⟩
  · rw [if_neg bad, if_neg (mt same bad)]
    exact h

end Agrees

/-- A step that does not care about the registry comes first. -/
theorem Steps.bind (hx : L.Steps I R x y)
    (hk : ∀ J a b, I ≤ J → R J a b → L.Agrees good J S (k a) (k' b)) :
    L.Agrees good I S (x >>= k) (y >>= k') :=
  Agrees.bind hx (fun _ _ _ _ _ _ => trivial) hk

/-- What comes behind the first step only adds to the registry. -/
theorem Follows.bind (hx : L.Follows I R x y) (keeps : ∀ a, Compile.Keeps (k a))
    (hk : ∀ J a b, I ≤ J → R J a b → L.Follows J S (k a) (k' b)) :
    L.Follows I S (x >>= k) (y >>= k') := by
  refine Agrees.bind hx (fun a d b e ok plain => plain.before ?_) hk
  have kept := keeps a d
  rw [Compile.after, ok] at kept
  exact kept.registry

theorem Steps.follows (h : L.Steps I R x y) : L.Agrees good I R x y :=
  fun c c' a d state ok _ => h c c' a d state ok trivial

/-! ## Single steps -/

namespace Steps

/-- Nothing changes but the registry, if that. -/
theorem of_registry (h : ∀ c c' a d, L.State I c c' → x c = .ok a d →
    ∃ J b r, I ≤ J ∧ y c' = .ok b { c' with shared := { c'.shared with registry := r } } ∧
      d = { c with shared := { c.shared with registry := d.shared.registry } } ∧
      L.registry J d.shared.registry r ∧ R J a b) : L.Steps I R x y := by
  intro c c' a d state ok _
  obtain ⟨J, b, r, more, second, same, registry, related⟩ := h c c' a d state ok
  refine ⟨J, b, _, more, second, ?_, related⟩
  rw [same]
  constructor
  · exact registry
  · exact state.config
  · exact state.ops.imp fun _ _ is => is.mono more
  · exact state.funcs.imp fun _ _ is => is.mono more
  · exact state.convs.imp fun _ _ is => is.mono more

theorem freshId : L.Steps I (fun J a b => J a b) Compile.freshId Compile.freshId := by
  refine of_registry fun c c' a d state ok => ?_
  cases ok
  exact ⟨_, _, _, I.le_join _ _, rfl, rfl, L.freshId state.registry, .inr ⟨rfl, rfl⟩⟩

theorem ofExcept {x y : Except Fault α} {R : α → α → Prop}
    (h : ∀ a, x = .ok a → ∃ b, y = .ok b ∧ R a b) :
    L.Steps I (fun _ => R) (Compile.ofExcept x) (Compile.ofExcept y) := by
  rintro c c' a d state ok -
  cases x with
  | error => cases ok
  | ok a =>
    cases ok
    obtain ⟨b, rfl, related⟩ := h _ rfl
    exact ⟨I, b, c', le_refl I, rfl, state, related⟩

theorem ofExcept_same (x : Except Fault α) :
    L.Steps I (fun _ => Eq) (Compile.ofExcept x) (Compile.ofExcept x) :=
  ofExcept fun a ok => ⟨a, ok, rfl⟩

theorem ask {f : Shared → α} {g : Shared → β}
    (h : ∀ c c', L.State I c c' → R I (f c.shared) (g c'.shared)) :
    L.Steps I R (Compile.ask f) (Compile.ask g) := by
  rintro c c' _ _ state ⟨⟩ -
  exact ⟨I, _, c', le_refl I, rfl, state, h c c' state⟩

/-- What is shared changes in corresponding ways. -/
theorem alter {f g : Shared → Shared}
    (h : ∀ s s', L.registry I s.registry s'.registry → s'.config = s.config →
      L.registry I (f s).registry (g s').registry ∧ (g s').config = (f s).config) :
    L.Steps I (fun _ _ _ => True) (Compile.alter f) (Compile.alter g) := by
  rintro c c' _ _ state ⟨⟩ -
  obtain ⟨registry, config⟩ := h c.shared c'.shared state.registry state.config
  exact ⟨I, (), _, le_refl I, rfl, ⟨registry, config, state.ops, state.funcs, state.convs⟩, trivial⟩

theorem note (phase : Phase) (level : Log.Level) (message message' : Unit → String) :
    L.Steps I (fun _ _ _ => True) (Compile.note phase level message)
      (Compile.note phase level message') := by
  refine alter fun s s' alike same => ?_
  rw [Run.note_registry, Run.note_registry, (note_gains s level phase.target message none).config,
    (note_gains s' level phase.target message' none).config]
  exact ⟨alike, same⟩

theorem emit {op op' : Op} (h : op.Like L.ty L.word I op') :
    L.Steps I (fun _ _ _ => True) (Compile.emit op) (Compile.emit op') := by
  refine (ask (R := fun _ _ _ => True) fun _ _ _ => trivial).bind fun J _ _ more _ => ?_
  refine (note _ _ _ _).bind fun K _ _ more' _ => ?_
  rintro c c' _ _ state ⟨⟩ -
  refine ⟨K, (), _, le_refl K, rfl, ⟨state.registry, state.config, ?_, state.funcs, state.convs⟩, trivial⟩
  have last : List.Forall₂ (Op.Like L.ty L.word K) [op] [op'] :=
    .cons (h.mono (le_trans more more')) .nil
  simpa using List.rel_append state.ops last

end Steps

end Likeness

end Catena
