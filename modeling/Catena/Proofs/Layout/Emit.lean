import Catena.Proofs.Compile
import Catena.Proofs.Layout.Fragment

/-!
# What tokens are compiled to

Compiling tokens adds a `Fragment`, once each lambda in it has got its skip label (`nests_upTo`). The
ids in it are those that were taken in between.
-/

namespace Catena

variable {α β : Type}

/-! ## Steps of a compilation -/

/-- The operation as it stands in the unit once each lambda has got its skip label. -/
def Op.withSkip : Op → List Op
  | .lambda body kind none => [.lambda body kind (some (.fresh "skip" body.id))]
  | .unlambda id => [.unlambda id, .target (.fresh "skip" id)]
  | op => [op]

theorem Op.withSkip_plain {op : Op} (h : op.isPlain = true) : op.withSkip = [op] := by
  cases op <;> first | rfl | cases h

/-- Whether the operation pushes values. -/
def Op.isPush : Op → Bool
  | push _ | pushMany _ => true
  | _ => false

/-- The registry knows no forms but the built-in ones and those of the embedding program. -/
def Registry.Standard (r : Registry) : Prop :=
  ∀ word m, r.macros.find? word = some m → (word, m) ∈ Macro.builtins ∨ ∃ take, m = .host take

theorem Registry.Grown.standard {r r' : Registry} (h : r.Grown r') (standard : r.Standard) :
    r'.Standard := by
  intro word m found
  rw [h.macros] at found
  exact standard word m found

/-- The bodies of the functions and conversions defined so far. -/
def Compiler.pending (c : Compiler) : List LambdaDef :=
  c.funcs.map (·.body) ++ c.convs.map (·.body)

/-- A compilation comes from one state to another and adds operations on the way. -/
structure Adds (c d : Compiler) (ops : List Op) : Prop where
  grown : c.shared.registry.Grown d.shared.registry
  added : d.ops.toList = c.ops.toList ++ ops
  fragment : Fragment c.shared.registry.nextId d.shared.registry.nextId (ops.flatMap Op.withSkip)
  pending : ∀ b ∈ d.pending, b ∈ c.pending ∨ b ∈ bodies (ops.flatMap Op.withSkip)

/-- Exactly these operations are added, and nothing else counts. -/
structure Emits (c d : Compiler) (ops : List Op) : Prop where
  registry : d.shared.registry = c.shared.registry
  added : d.ops.toList = c.ops.toList ++ ops
  pending : d.pending = c.pending

theorem Emits.append {c d e : Compiler} {ops ops' : List Op} (h : Emits c d ops)
    (h' : Emits d e ops') : Emits c e (ops ++ ops') where
  registry := h'.registry.trans h.registry
  added := by rw [h'.added, h.added, List.append_assoc]
  pending := h'.pending.trans h.pending

namespace Adds

variable {c d e : Compiler} {ops ops' : List Op}

theorem silent (grown : c.shared.registry.Grown d.shared.registry) (same : d.ops = c.ops)
    (pending : d.pending = c.pending) : Adds c d [] where
  grown := grown
  added := by rw [same, List.append_nil]
  fragment := .nil _ _
  pending b member := .inl (pending ▸ member)

theorem append (h : Adds c d ops) (h' : Adds d e ops') : Adds c e (ops ++ ops') where
  grown := h.grown.trans h'.grown
  added := by rw [h'.added, h.added, List.append_assoc]
  fragment := by
    rw [List.flatMap_append]
    exact h.fragment.append h'.fragment h.grown.ids h'.grown.ids
  pending b member := by
    rw [List.flatMap_append, bodies_append]
    rcases h'.pending b member with before | inside
    · exact (h.pending b before).imp_right (List.mem_append_left _)
    · exact .inr (List.mem_append_right _ inside)

/-- A stretch between operations that belong together. -/
theorem around {c c₁ c₂ d : Compiler} {first ops last : List Op}
    (grown : c.shared.registry.Grown c₁.shared.registry)
    (opened : c₁.ops.toList = c.ops.toList ++ first) (pending : c₁.pending = c.pending)
    (inner : Adds c₁ c₂ ops) (closed : Emits c₂ d last)
    (fragment : Fragment c.shared.registry.nextId c₂.shared.registry.nextId
      (first.flatMap Op.withSkip ++ ops.flatMap Op.withSkip ++ last.flatMap Op.withSkip)) :
    Adds c d (first ++ ops ++ last) where
  grown := closed.registry ▸ grown.trans inner.grown
  added := by rw [closed.added, inner.added, opened, List.append_assoc, List.append_assoc,
    List.append_assoc]
  fragment := by
    rw [List.flatMap_append, List.flatMap_append, closed.registry]
    exact fragment
  pending b member := by
    rw [List.flatMap_append, List.flatMap_append, bodies_append, bodies_append]
    rcases inner.pending b (closed.pending ▸ member) with before | inside
    · exact .inl (pending ▸ before)
    · exact .inr (List.mem_append_left _ (List.mem_append_right _ inside))

end Adds

/-- The values that a word stands for by itself. -/
inductive Value.IsLiteral : Value → Prop
  | int (n : Int64) : IsLiteral (.int n)
  | ratio (q : Ratio) : IsLiteral (.ratio q)
  | char (c : Char) : IsLiteral (.char c)
  | wchar (u : UInt16) : IsLiteral (.wchar u)
  | str (s : String) : IsLiteral (.str s)
  | wstr (us : List UInt16) : IsLiteral (.wstr us)
  | sym (name : String) : IsLiteral (.sym name)

namespace Compile

variable {c d : Compiler} {x : Compile α}

/-- The step adds a stretch of operations whenever it succeeds. -/
def Nests (x : Compile α) : Prop :=
  ∀ c a d, c.shared.registry.Standard → x c = .ok a d → ∃ ops, Adds c d ops

theorem bind_ok {k : α → Compile β} {b : β} (h : (x >>= k) c = .ok b d) :
    ∃ a e, x c = .ok a e ∧ k a e = .ok b d := by
  simp only [Bind.bind, EStateM.bind] at h
  cases first : x c with
  | ok a e =>
    rw [first] at h
    exact ⟨a, e, rfl, h⟩
  | error f e => rw [first] at h; cases h

theorem Keeps.grown (h : Keeps x) {a : α} (ok : x c = .ok a d) :
    c.shared.registry.Grown d.shared.registry := by
  have gains := (h c).registry.grown
  rwa [after, ok] at gains

theorem Nests.bind {k : α → Compile β} (hx : Nests x) (hk : ∀ a, Nests (k a)) :
    Nests (x >>= k) := by
  intro c b d standard ok
  obtain ⟨a, e, first, second⟩ := bind_ok ok
  obtain ⟨ops, adds⟩ := hx c a e standard first
  obtain ⟨ops', adds'⟩ := hk a e b d (adds.grown.standard standard) second
  exact ⟨ops ++ ops', adds.append adds'⟩

/-- A step that adds no operations and defines nothing. -/
theorem Nests.silent (keeps : Keeps x) (same : ∀ c a d, x c = .ok a d →
    d.ops = c.ops ∧ d.pending = c.pending) : Nests x := by
  intro c a d _ ok
  obtain ⟨ops, pending⟩ := same c a d ok
  exact ⟨[], .silent (keeps.grown ok) ops pending⟩

theorem Nests.pure (a : α) : Nests (Pure.pure a) :=
  .silent (.pure a) fun _ _ _ ok => by cases ok; exact ⟨rfl, rfl⟩

theorem Nests.fail (f : Fault) : Nests (fail f : Compile α) :=
  .silent (.fail f) fun _ _ _ ok => by cases ok

theorem Nests.exhausted : Nests (exhausted : Compile α) :=
  .silent .exhausted fun _ _ _ ok => by cases ok

theorem Nests.refuse {refused : Prop} [Decidable refused] {f : Fault} {k : Unit → Compile α}
    (hk : Nests (k ())) : Nests (if refused then Compile.fail f >>= k else k ()) := by
  split
  · exact (Nests.fail f).bind fun _ => hk
  · exact hk

theorem Nests.ofExcept (e : Except Fault α) : Nests (Compile.ofExcept e) := by
  cases e with
  | ok a => exact .pure a
  | error f => exact .fail f

theorem located_ok {pos : Nat} {a : α} (h : located pos x c = .ok a d) : x c = .ok a d := by
  unfold located at h
  cases inner : x c with
  | ok a d => rwa [inner] at h
  | error e d => rw [inner] at h; cases e <;> cases h

theorem Nests.located (pos : Nat) (hx : Nests x) : Nests (Compile.located pos x) :=
  fun c a d standard ok => hx c a d standard (located_ok ok)

theorem Nests.ask (f : Shared → α) : Nests (Compile.ask f) :=
  .silent (.ask f) fun _ _ _ ok => by cases ok; exact ⟨rfl, rfl⟩

theorem Nests.alter {f : Shared → Shared} (h : ∀ s : Shared, s.Gains (f s)) :
    Nests (Compile.alter f) :=
  .silent (.alter h) fun _ _ _ ok => by cases ok; exact ⟨rfl, rfl⟩

theorem Nests.mapM {f : α → Compile β} (h : ∀ a, Nests (f a)) (xs : List α) :
    Nests (xs.mapM f) := by
  induction xs with
  | nil => rw [List.mapM_nil]; exact .pure []
  | cons x xs ih =>
    rw [List.mapM_cons]
    exact (h x).bind fun _ => ih.bind fun _ => .pure _

theorem nests_freshId : Nests freshId :=
  .silent keeps_freshId fun _ _ _ ok => by cases ok; exact ⟨rfl, rfl⟩

theorem nests_note (phase : Phase) (level : Log.Level) (message : Unit → String) :
    Nests (note phase level message) :=
  .alter fun s => note_gains s level _ message none

/-! ## Single operations -/

theorem emit_ok {op : Op} {u : Unit} (h : emit op c = .ok u d) : Emits c d [op] := by
  cases h
  exact ⟨Run.note_registry _ _ _ _ _, by simp, rfl⟩

theorem nests_emit {op : Op} (fragment : ∀ lo hi, Fragment lo hi op.withSkip) : Nests (emit op) := by
  intro c _ d _ ok
  obtain ⟨registry, added, pending⟩ := emit_ok ok
  refine ⟨[op], ⟨registry ▸ .refl _, added, ?_, fun b member => .inl (pending ▸ member)⟩⟩
  simpa using fragment _ _

theorem nests_emit_plain {op : Op} (plain : op.isPlain = true) : Nests (emit op) := by
  refine nests_emit fun lo hi => ?_
  rw [Op.withSkip_plain plain]
  exact .plain lo hi plain

/-! ## Forms -/

theorem nests_expect (first : Token) (what : String) (ts : List Token) :
    Nests (expect first what ts) := by
  cases ts with
  | nil => exact .fail _
  | cons t ts => exact .pure _

theorem nests_tokens (text : String) (offset : Nat) : Nests (tokens text offset) :=
  (nests_note _ _ _).bind fun _ => (Nests.ofExcept _).bind fun _ =>
    (nests_note _ _ _).bind fun _ => .pure _

theorem tokens_ok {text : String} {offset : Nat} {ts : List Token}
    (ok : tokens text offset c = .ok ts d) :
    Token.scan offset text.toList = .ok ts ∧ d.shared.registry = c.shared.registry ∧ d.ops = c.ops := by
  obtain ⟨_, c₁, said, ok⟩ := bind_ok ok
  cases said
  obtain ⟨ts', c₂, made, ok⟩ := bind_ok ok
  cases scanned : Token.scan offset text.toList with
  | error f => rw [scanned] at made; cases made
  | ok ts =>
    rw [scanned] at made
    cases made
    obtain ⟨_, c₃, said, ok⟩ := bind_ok ok
    cases said
    cases ok
    exact ⟨rfl, (Run.note_registry _ _ _ _ _).trans (Run.note_registry _ _ _ _ _), rfl⟩

/-- The registry that something else made takes the place of the present one. -/
theorem nests_registry {make : Registry → Except Fault β × Registry}
    (h : ∀ r : Registry, r.Gains (make r).2) : Nests (do
      let (b, registry) ← ask fun s => make s.registry
      alter fun s => { s with registry }
      ofExcept b) := by
  refine .silent (keeps_registry h Keeps.ofExcept) fun c b d ok => ?_
  change Compile.ofExcept (make c.shared.registry).1
    { c with shared := { c.shared with registry := (make c.shared.registry).2 } } = .ok b d at ok
  cases made : (make c.shared.registry).1 with
  | ok b => rw [made] at ok; cases ok; exact ⟨rfl, rfl⟩
  | error f => rw [made] at ok; cases ok

theorem nests_typeAt (text : String) (pos : Nat) : Nests (typeAt text pos) :=
  .located pos ((Nests.ofExcept _).bind fun e => nests_registry fun r => (e.resolve_adds r).gains)

variable {block : Block}

theorem nests_ownBlock (hb : ∀ closing ts, Nests (block closing ts)) (closing : String) {op : Op}
    (close : op = .close ∨ op = .closeList) (ts : List Token) :
    Nests (ownBlock block closing op ts) := by
  intro c rest d standard ok
  obtain ⟨_, c₁, opened, ok⟩ := bind_ok ok
  obtain ⟨_, c₂, inside, ok⟩ := bind_ok ok
  obtain ⟨_, c₃, closed, ok⟩ := bind_ok ok
  cases ok
  have opened := emit_ok opened
  obtain ⟨ops, inner⟩ := hb _ _ _ _ _ (opened.registry ▸ standard) inside
  have fragment := inner.fragment.block inner.grown.ids true none close
  rw [opened.registry] at fragment
  refine ⟨_, .around (opened.registry ▸ .refl _) opened.added opened.pending inner (emit_ok closed) ?_⟩
  rcases close with rfl | rfl <;> simpa [Op.withSkip] using fragment

/-- The lambda whose body is compiled is among those that begin in the operations added. -/
theorem lambda_adds (hb : ∀ closing ts, Nests (block closing ts)) {name : Option String}
    {kind : LambdaKind} {closing : Option String} {ts rest : List Token} {body : LambdaDef}
    (standard : c.shared.registry.Standard)
    (ok : lambda block name kind closing ts c = .ok (body, rest) d) :
    ∃ ops, Adds c d ops ∧ body ∈ bodies (ops.flatMap Op.withSkip) := by
  obtain ⟨id, c₁, taken, ok⟩ := bind_ok ok
  cases taken
  obtain ⟨_, c₂, opened, ok⟩ := bind_ok ok
  obtain ⟨_, c₃, inside, ok⟩ := bind_ok ok
  obtain ⟨_, c₄, closed, ok⟩ := bind_ok ok
  cases ok
  have opened := emit_ok opened
  have fresh : c.shared.registry.Grown _ := keeps_freshId.grown rfl
  have grown := opened.registry ▸ fresh
  obtain ⟨ops, inner⟩ := hb _ _ _ _ _ (grown.standard standard) inside
  have ids := inner.grown.ids
  rw [opened.registry] at ids
  have fragment := inner.fragment
  rw [opened.registry] at fragment
  let body : LambdaDef := { id := c.shared.registry.nextId, name }
  refine ⟨_, .around grown opened.added opened.pending inner (emit_ok closed) ?_, ?_⟩
  · simpa [Op.withSkip] using fragment.lambda body ids kind rfl
  · simp [Op.withSkip, bodies, Op.body?]

theorem nests_lambda (hb : ∀ closing ts, Nests (block closing ts)) (name : Option String)
    (kind : LambdaKind) (closing : Option String) (ts : List Token) :
    Nests (lambda block name kind closing ts) := by
  intro c (body, rest) d standard ok
  obtain ⟨ops, adds, -⟩ := lambda_adds hb standard ok
  exact ⟨ops, adds⟩

theorem nests_braces (hb : ∀ closing ts, Nests (block closing ts)) (t : Token) :
    Nests (braces block t) :=
  (nests_tokens _ _).bind fun _ => (nests_lambda hb _ _ _ _).bind fun _ => .pure _

/-- A lambda whose body becomes that of a function or a conversion. -/
theorem nests_define (hb : ∀ closing ts, Nests (block closing ts)) (name : Option String)
    (kind : LambdaKind) (closing : Option String) (ts : List Token)
    (define : LambdaDef → Compiler → Compiler)
    (ops : ∀ body c, (define body c).ops = c.ops) (shared : ∀ body c, (define body c).shared = c.shared)
    (pending : ∀ body c, ∀ b ∈ (define body c).pending, b ∈ c.pending ∨ b = body) :
    Nests (do
      let (body, ts) ← lambda block name kind closing ts
      fun c => .ok ts (define body c)) := by
  intro c _ d standard ok
  obtain ⟨⟨body, rest⟩, e, inside, ok⟩ := bind_ok ok
  cases ok
  obtain ⟨new, adds, known⟩ := lambda_adds hb standard inside
  refine ⟨new, ?_, ?_, ?_, fun b member => ?_⟩
  · rw [shared]
    exact adds.grown
  · rw [ops]
    exact adds.added
  · rw [shared]
    exact adds.fragment
  · rcases pending body e b member with before | rfl
    · exact adds.pending b before
    · exact .inr known

mutual

theorem nests_typeOps : (e : TypeExpr) → Nests (typeOps e)
  | .named name => by rw [typeOps]; exact nests_emit_plain rfl
  | .generic name args => by
    rw [typeOps]
    intro c _ d standard ok
    obtain ⟨id, c₁, taken, ok⟩ := bind_ok ok
    have fresh := keeps_freshId.grown taken
    cases taken
    obtain ⟨_, c₂, opened, ok⟩ := bind_ok ok
    obtain ⟨_, c₃, inside, closed⟩ := bind_ok ok
    have opened := emit_ok opened
    have grown := opened.registry ▸ fresh
    obtain ⟨ops, inner⟩ := nests_typeOpsEach args _ _ _ (grown.standard standard) inside
    refine ⟨_, .around grown opened.added opened.pending inner (emit_ok closed) ?_⟩
    have fragment := (inner.fragment.widen grown.ids).param c.shared.registry.nextId
      (Nat.le_trans grown.ids inner.grown.ids) name
    simpa [Op.withSkip] using fragment
  | .same n => Nests.fail _
  | .argOf n k => Nests.fail _

theorem nests_typeOpsEach : (es : List TypeExpr) → Nests (typeOpsEach es)
  | [] => by rw [typeOpsEach]; exact .pure ()
  | e :: es => by
    rw [typeOpsEach]
    exact (nests_typeOps e).bind fun _ => nests_typeOpsEach es

end

theorem nests_signature (first : Token) (ts : List Token) : Nests (signature first ts) := by
  induction ts with
  | nil => exact .fail _
  | cons t ts ih =>
    rw [signature]
    dsimp only
    split
    · exact .pure _
    · exact (Nests.located _ (.ofExcept _)).bind fun _ => ih.bind fun _ => .pure _

theorem nests_checkReference (arity : Nat) (e : TypeExpr) : Nests (checkReference arity e) := by
  unfold checkReference
  split
  · split
    · exact .fail _
    · exact .pure _
  · split
    · exact .fail _
    · exact .pure _
  · exact .pure _

theorem nests_argAt (arity : Nat) (e : TypeExpr) (pos : Nat) : Nests (argAt arity e pos) :=
  .located pos ((nests_checkReference _ _).bind fun _ =>
    nests_registry fun r => (e.toArg_adds r).gains)

theorem nests_funcBody (hb : ∀ closing ts, Nests (block closing ts)) (first name : Token)
    (ts : List Token) : Nests (funcBody block first name ts) := by
  refine (nests_signature _ _).bind fun (exprs, ts) =>
    (Nests.mapM (fun (e, pos) => nests_argAt _ e pos) _).bind fun args => ?_
  refine nests_define hb _ _ _ _ (fun body c =>
    { c with funcs := c.funcs ++ [⟨name.text, args, _, body⟩] }) (fun _ _ => rfl) (fun _ _ => rfl) ?_
  intro body c b member
  simp only [Compiler.pending, List.map_append, List.mem_append, List.map_cons, List.map_nil,
    List.mem_singleton] at member ⊢
  rcases member with (old | rfl) | conv
  · exact .inl (.inl old)
  · exact .inr rfl
  · exact .inl (.inr conv)

theorem nests_funcForm (hb : ∀ closing ts, Nests (block closing ts)) (first : Token)
    (ts : List Token) : Nests (funcForm block first ts) :=
  (nests_expect _ _ _).bind fun _ => (nests_expect _ _ _).bind fun _ =>
    Nests.refuse (nests_funcBody hb _ _ _)

theorem nests_convForm (hb : ∀ closing ts, Nests (block closing ts)) (first : Token)
    (ts : List Token) : Nests (convForm block first ts) := by
  refine (nests_expect _ _ _).bind fun (sourceName, ts) => (nests_expect _ _ _).bind
    fun (targetName, ts) => (nests_typeAt _ _).bind fun source => (nests_typeAt _ _).bind
      fun target => ?_
  refine nests_define hb _ _ _ _ (fun body c =>
    { c with convs := c.convs ++ [⟨source, target, body⟩] }) (fun _ _ => rfl) (fun _ _ => rfl) ?_
  intro body c b member
  simp only [Compiler.pending, List.map_append, List.mem_append, List.map_cons, List.map_nil,
    List.mem_singleton] at member ⊢
  rcases member with func | old | rfl
  · exact .inl (.inl func)
  · exact .inl (.inr old)
  · exact .inr rfl

theorem nests_bindingForm (hb : ∀ closing ts, Nests (block closing ts)) (first : Token)
    (ts : List Token) : Nests (bindingForm block first ts) := by
  refine (nests_expect _ _ _).bind fun (name, ts) => Nests.refuse ?_
  exact (nests_ownBlock hb _ (.inl rfl) _).bind fun _ => (nests_emit_plain rfl).bind fun _ => .pure _

theorem nests_fieldType (pos : Nat) (text? : Option String) : Nests (fieldType pos text?) := by
  cases text? with
  | some text => exact nests_typeAt text pos
  | none => exact .pure Ty.any

theorem nests_fields (first : Token) (seen : List String) (ts : List Token) :
    Nests (fields first seen ts) := by
  induction ts generalizing seen with
  | nil => exact .fail _
  | cons t ts ih =>
    rw [fields]
    dsimp only
    split
    · exact .pure _
    · exact (nests_fieldType _ _).bind fun _ => Nests.refuse ((ih _).bind fun _ => .pure _)

theorem addStructFuncs_ok {fs : List (String × List Arg × Safety × Native)} {u : Unit}
    (h : addStructFuncs fs c = .ok u d) : d.ops = c.ops ∧ d.pending = c.pending := by
  induction fs generalizing c with
  | nil => cases h; exact ⟨rfl, rfl⟩
  | cons f fs ih =>
    obtain ⟨_, e, altered, h⟩ := bind_ok h
    cases altered
    have rest := ih h
    exact rest

theorem nests_structForm (first : Token) (ts : List Token) : Nests (structForm first ts) := by
  refine (nests_expect _ _ _).bind fun (name, ts) => (nests_fields _ _ _).bind fun (fs, ts) => ?_
  intro c rest d standard ok
  let make (s : Shared) := s.declareType name.text [.struct] (.record name.text (fs.map (·.1)))
  obtain ⟨⟨t, shared⟩, c₁, declared, ok⟩ := bind_ok ok
  have asked : (do ofExcept (← ask make)) c = .ok (t, shared) c₁ := located_ok declared
  obtain ⟨_, c₂, altered, ok⟩ := bind_ok ok
  cases altered
  obtain ⟨_, c₃, added, ok⟩ := bind_ok ok
  cases ok
  rcases ofExcept_ask make c with ⟨e, failed⟩ | ⟨p, made, done⟩
  · rw [failed] at asked
    cases asked
  · rw [done] at asked
    cases asked
    have grown := (declareType_gains made).registry.grown.trans
      ((keeps_addStructFuncs (structFuncs_own t fs)).grown added)
    obtain ⟨ops, pending⟩ := addStructFuncs_ok added
    exact ⟨[], .silent grown ops pending⟩

theorem nests_testForm (hb : ∀ closing ts, Nests (block closing ts)) (first : Token)
    (ts : List Token) : Nests (testForm block first ts) := by
  refine (nests_expect _ _ _).bind fun (message, ts) => Nests.refuse ?_
  exact (nests_ownBlock hb _ (.inl rfl) _).bind fun _ => (nests_emit_plain rfl).bind fun _ => .pure _

theorem nests_tryForm (hb : ∀ closing ts, Nests (block closing ts)) (ts : List Token) :
    Nests (tryForm block ts) := by
  intro c rest d standard ok
  obtain ⟨id, c₁, taken, ok⟩ := bind_ok ok
  have fresh := keeps_freshId.grown taken
  cases taken
  obtain ⟨_, c₂, opened, ok⟩ := bind_ok ok
  obtain ⟨_, c₃, inside, ok⟩ := bind_ok ok
  obtain ⟨_, c₄, put, ok⟩ := bind_ok ok
  obtain ⟨_, c₅, closed, ok⟩ := bind_ok ok
  cases ok
  have opened := emit_ok opened
  have grown := opened.registry ▸ fresh
  obtain ⟨ops, inner⟩ := hb _ _ _ _ _ (grown.standard standard) inside
  have ids := inner.grown.ids
  have fragment := inner.fragment
  rw [opened.registry] at ids fragment
  refine ⟨_, .around grown opened.added opened.pending inner ((emit_ok put).append (emit_ok closed)) ?_⟩
  simpa [Op.withSkip] using fragment.attempt c.shared.registry.nextId ids

theorem nests_unrestrictedForm (hb : ∀ closing ts, Nests (block closing ts)) (ts : List Token) :
    Nests (unrestrictedForm block ts) := by
  intro c rest d standard ok
  obtain ⟨_, c₁, opened, ok⟩ := bind_ok ok
  obtain ⟨_, c₂, inside, ok⟩ := bind_ok ok
  obtain ⟨_, c₃, closed, ok⟩ := bind_ok ok
  cases ok
  have opened := emit_ok opened
  obtain ⟨ops, inner⟩ := hb _ _ _ _ _ (opened.registry ▸ standard) inside
  have fragment := inner.fragment.block inner.grown.ids false (some .unrestricted) (.inl rfl)
  rw [opened.registry] at fragment
  refine ⟨_, .around (opened.registry ▸ .refl _) opened.added opened.pending inner (emit_ok closed) ?_⟩
  simpa [Op.withSkip] using fragment

theorem nests_hostForm (first : Token) (take : Nat) (ts : List Token) :
    Nests (hostForm first take ts) := by
  induction take generalizing ts with
  | zero => exact .pure ts
  | succ take ih =>
    exact (nests_expect _ _ _).bind fun _ => (nests_emit_plain rfl).bind fun _ => ih _

theorem nests_exitForm (kind : ExitKind) (word : String) : Nests (exitForm kind word) :=
  nests_freshId.bind fun _ => nests_emit_plain rfl

/-- The operations that the built-in keywords stand for may stand anywhere. -/
theorem plain_of_builtin {word : String} {op : Op} (h : (word, .word op) ∈ Macro.builtins) :
    op.isPlain = true := by
  simp only [Macro.builtins, List.mem_cons, Prod.mk.injEq, List.not_mem_nil, or_false, reduceCtorEq,
    and_false, false_or, Macro.word.injEq] at h
  rcases h with ⟨-, rfl⟩ | ⟨-, rfl⟩ | ⟨-, rfl⟩ | ⟨-, rfl⟩ | ⟨-, rfl⟩ | ⟨-, rfl⟩ | ⟨-, rfl⟩ <;> rfl

/-- A form that the registry may know. -/
theorem nests_form (hb : ∀ closing ts, Nests (block closing ts)) (first : Token) (ts : List Token)
    {m : Macro} (plain : ∀ op, m = .word op → op.isPlain = true) : Nests (form block first ts m) := by
  cases m with
  | func => exact nests_funcForm hb first ts
  | binding => exact nests_bindingForm hb first ts
  | struct => exact nests_structForm first ts
  | conv => exact nests_convForm hb first ts
  | test => exact nests_testForm hb first ts
  | attempt => exact nests_tryForm hb ts
  | unrestricted => exact nests_unrestrictedForm hb ts
  | defer =>
    exact (nests_lambda hb _ _ _ _).bind fun _ => (nests_emit_plain rfl).bind fun _ => .pure _
  | word op => exact (nests_emit_plain (plain op rfl)).bind fun _ => .pure ts
  | exit kind => exact (nests_exitForm _ _).bind fun _ => .pure ts
  | host take => exact nests_hostForm first take ts

/-! ## Tokens -/

theorem except_bind_ok {γ : Type} {x : Except Fault γ} {k : γ → Except Fault β} {b : β}
    (h : (x >>= k) = .ok b) : ∃ a, x = .ok a ∧ k a = .ok b := by
  cases x with
  | ok a => exact ⟨a, rfl, h⟩
  | error f => cases h

theorem number_literal {word : String} {v : Value} (h : Literal.number word = .ok v) :
    v.IsLiteral := by
  unfold Literal.number at h
  dsimp only at h
  split at h
  · obtain ⟨num, -, h⟩ := except_bind_ok h
    obtain ⟨den, -, h⟩ := except_bind_ok h
    split at h
    · cases h; exact .ratio _
    · cases h
  · obtain ⟨n, -, h⟩ := except_bind_ok h
    cases h
    exact .int n

theorem character_literal {word : String} {v : Value} (h : Literal.character word = .ok v) :
    v.IsLiteral := by
  unfold Literal.character at h
  split at h
  · split at h
    · cases h; exact .wchar _
    · cases h
  · split at h
    · cases h; exact .char _
    · cases h

theorem string_cases {A : Op → Prop} {text : String} {op : Op} (h : Literal.string text = .ok op)
    (push : ∀ v : Value, v.IsLiteral → A (.push v)) (fmt : ∀ parts, A (.fmt parts)) : A op := by
  unfold Literal.string at h
  obtain ⟨ps, -, h⟩ := except_bind_ok h
  split at h
  · cases h; exact push _ (.wstr _)
  split at h
  · cases h; exact push _ (.str _)
  · cases h; exact fmt _

theorem push_cases {A : Op → Prop} {made : Except Fault Value} {op : Op}
    (h : made.map .push = .ok op) (push : ∀ v : Value, made = .ok v → A (.push v)) : A op := by
  cases made with
  | ok v => cases h; exact push v rfl
  | error f => cases h

theorem orElse_some {x y : Option α} {a : α} (h : (x <|> y) = some a) : x = some a ∨ y = some a := by
  cases x with
  | none => exact .inr h
  | some b => exact .inl h

/-- A word that is read by its shape alone stands for one operation. -/
theorem wordOp_cases {A : Op → Prop} {t : Token} {op : Op} (h : wordOp t = some (.ok op))
    (target : ∀ name, afterMark? '@' t.text = some name → A (.target (.named name)))
    (jump : ∀ name, A (.jump name none)) (ref : ∀ name, A (.ref name)) (get : ∀ name, A (.get name))
    (fmt : ∀ parts, A (.fmt parts)) (push : ∀ v : Value, v.IsLiteral → A (.push v)) : A op := by
  have marked {make : String → Op} {read : Option String}
      (each : ∀ name, read = some name → A (make name))
      (h : (read.map fun name => .ok (make name)) = some (Except.ok (ε := Fault) op)) : A op := by
    obtain ⟨name, found, made⟩ := Option.map_eq_some_iff.1 h
    exact Except.ok.inj made ▸ each name found
  unfold wordOp at h
  rcases orElse_some h with h | h
  · exact marked target h
  rcases orElse_some h with h | h
  · exact marked (fun name _ => jump name) h
  rcases orElse_some h with h | h
  · exact marked (fun name _ => ref name) h
  rcases orElse_some h with h | h
  · split at h
    · exact string_cases (Option.some.inj h) push fmt
    · cases h
  rcases orElse_some h with h | h
  · split at h
    · exact push_cases (Option.some.inj h) fun v read => push v (character_literal read)
    · cases h
  rcases orElse_some h with h | h
  · exact marked (fun name _ => push _ (.sym name)) h
  rcases orElse_some h with h | h
  · split at h
    · exact push_cases (Option.some.inj h) fun v read => push v (number_literal read)
    · cases h
  · exact marked (fun name _ => get name) h

/-- Such an operation may stand anywhere, or it is a label. -/
theorem wordOp_shape {t : Token} {op : Op} (h : wordOp t = some (.ok op)) :
    op.isPlain = true ∨ ∃ name, afterMark? '@' t.text = some name ∧ op = .target (.named name) := by
  let Shape (op : Op) : Prop :=
    op.isPlain = true ∨ ∃ name, afterMark? '@' t.text = some name ∧ op = .target (.named name)
  have labelled (name : String) (marked : afterMark? '@' t.text = some name) :
      Shape (.target (.named name)) :=
    .inr ⟨name, marked, rfl⟩
  exact wordOp_cases h labelled (fun _ => .inl rfl) (fun _ => .inl rfl) (fun _ => .inl rfl)
    (fun _ => .inl rfl) fun _ _ => .inl rfl

theorem wordOp_fragment {t : Token} {op : Op} (h : wordOp t = some (.ok op)) (lo hi : Nat) :
    Fragment lo hi op.withSkip := by
  rcases wordOp_shape h with plain | ⟨name, -, rfl⟩
  · rw [Op.withSkip_plain plain]
    exact .plain lo hi plain
  · exact .named lo hi name

/-- A form that a word begins has the word as its name, or takes a depth behind its name, or is one of the
embedding program. -/
theorem findForm_known {word : String} {m : Macro} (standard : c.shared.registry.Standard)
    (h : findForm word c = .ok (some m) d) :
    (∃ name, (name, m) ∈ Macro.builtins ∧ (name = word ∨ m.takesDepth = true)) ∨
      ∃ take, m = .host take := by
  cases found : c.shared.registry.macros.find? word with
  | some m' =>
    simp only [findForm, ask, found] at h
    cases h
    exact (standard word m found).imp_left fun builtin => ⟨word, builtin, .inl rfl⟩
  | none =>
    simp only [findForm, ask, found] at h
    obtain ⟨h, -⟩ := EStateM.Result.ok.inj h
    obtain ⟨⟨base, depth⟩, -, h⟩ := Option.bind_eq_some_iff.1 h
    obtain ⟨known, takes⟩ := Option.filter_eq_some_iff.1 h
    exact (standard base m known).imp_left fun builtin => ⟨base, builtin, .inr takes⟩

theorem findForm_op {word : String} {op : Op} (standard : c.shared.registry.Standard)
    (h : findForm word c = .ok (some (.word op)) d) : ∃ name, (name, .word op) ∈ Macro.builtins := by
  rcases findForm_known standard h with ⟨name, builtin, -⟩ | ⟨take, host⟩
  · exact ⟨name, builtin⟩
  · cases host

theorem nests_token (hb : ∀ closing ts, Nests (block closing ts)) (t : Token) (ts : List Token) :
    Nests (token block t ts) := by
  unfold token
  split
  · exact (nests_braces hb t).bind fun _ => .pure _
  split
  · exact nests_ownBlock hb _ (.inl rfl) _
  split
  · exact nests_ownBlock hb _ (.inr rfl) _
  split
  · exact .fail _
  split
  · exact .fail _
  split
  · rename_i op word
    cases op with
    | error f => exact fun _ _ _ _ ok => by cases ok
    | ok op => exact (nests_emit (wordOp_fragment word)).bind fun _ => .pure _
  split
  · exact (Nests.ofExcept _).bind fun _ => (nests_typeOps _).bind fun _ => .pure _
  · intro c rest d standard ok
    obtain ⟨m?, c₁, found, ok⟩ := bind_ok ok
    obtain rfl : c = c₁ := (EStateM.Result.ok.inj found).2
    cases m? with
    | some m =>
      have plain (op : Op) (same : m = .word op) : op.isPlain = true := by
        subst same
        obtain ⟨name, builtin⟩ := findForm_op standard found
        exact plain_of_builtin builtin
      exact nests_form hb t ts plain _ _ _ standard ok
    | none =>
      have plain : Nests (do emit (.deref t.text); return ts) :=
        (nests_emit_plain rfl).bind fun _ => .pure ts
      exact plain _ _ _ standard ok

/-- Compiling tokens adds a stretch of operations. -/
theorem nests_upTo (fuel : Nat) (closing : Option String) (ts : List Token) :
    Nests (upTo fuel closing ts) := by
  induction fuel generalizing closing ts with
  | zero => exact .exhausted
  | succ fuel ih =>
    cases ts with
    | nil =>
      cases closing with
      | none => exact .pure _
      | some closing => exact .fail _
    | cons t ts =>
      rw [upTo]
      split
      · exact .pure _
      · exact (Nests.located _ (nests_token ih t ts)).bind fun _ => ih _ _

end Compile

end Catena
