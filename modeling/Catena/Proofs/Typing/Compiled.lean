import Catena.Proofs.Layout.Emit
import Catena.Proofs.Typing.Runs

/-!
# Units respect the types of values

Compiling makes types as they are written, declares structures, and puts literals and types into
operations. If it defines no conversion, and no structure whose name could be taken for that of an
instance, the values in the operations of a unit are what their types say, and the functions of a
structure ask for arguments of its fields' types.
-/

namespace Catena

variable {W W' : World}

/-- There are no conversions, and no structure has the name of an instance. -/
structure Registry.Plain (r : Registry) : Prop where
  convs : r.convs = ∅
  names : ∀ t, r.Knows t → t.IsRecord → ∀ c ∈ t.name.toList, TypeExpr.isNameChar c = true

theorem Registry.Plain.of_grown {r r' : Registry} (h : r'.Plain) (grown : r.Grown r') : r.Plain :=
  ⟨grown.convs h.convs, fun t known => h.names t (grown.knows known)⟩

theorem Op.All.of_bare {A : Value → Prop} {op : Op} (h : op.isPush = false) : op.All A := by
  cases op <;> trivial

/-- The values of operations are what their types say. -/
abbrev OpsTyped (W : World) (ops : List Op) : Prop := ∀ op ∈ ops, op.All (·.Typed W)

/-- The state of a compilation is in step with a world. -/
structure Compiler.Typed (W : World) (c : Compiler) : Prop where
  registry : c.shared.registry.Typed W
  store : c.shared.store.Typed W
  ops : OpsTyped W c.ops.toList
  standard : c.shared.registry.Standard

theorem OpsTyped.mono {ops : List Op} (le : W ≤ W') (h : OpsTyped W ops) : OpsTyped W' ops :=
  fun op member => (h op member).mono fun _ v => v.mono le

theorem OpsTyped.cons {op : Op} {ops : List Op} (h : OpsTyped W ops) (typed : op.All (·.Typed W)) :
    OpsTyped W (op :: ops) := by
  intro other member
  rcases List.mem_cons.1 member with rfl | member
  · exact typed
  · exact h other member

theorem OpsTyped.append {ops ops' : List Op} (h : OpsTyped W ops) (h' : OpsTyped W ops') :
    OpsTyped W (ops ++ ops') :=
  fun op member => (List.mem_append.1 member).elim (h op) (h' op)

theorem OpsTyped.head {op : Op} {ops : List Op} (h : OpsTyped W (op :: ops)) : op.All (·.Typed W) :=
  h op List.mem_cons_self

theorem OpsTyped.tail {op : Op} {ops : List Op} (h : OpsTyped W (op :: ops)) : OpsTyped W ops :=
  fun other member => h other (List.mem_cons_of_mem _ member)

theorem Value.IsLiteral.typed {v : Value} (h : v.IsLiteral) : v.Typed W := by
  cases h with
  | int n => exact Run.typed_int n
  | ratio q => exact Run.typed_ratio q
  | char c => exact Run.typed_char c
  | wchar u => exact Run.typed_wchar u
  | str s => exact Run.typed_str s
  | wstr us => exact Run.typed_wstr us
  | sym name => exact Run.typed_sym name

namespace Compile

variable {α β : Type} {pre : World → Prop} {P Q : World → α → Prop} {x : Compile α}

/-- In worlds as said, the step keeps the values typed, and what it answers is as told, as long as
nothing is defined that is not plain. -/
structure Respects (pre : World → Prop) (x : Compile α) (Q : World → α → Prop) : Prop where
  keeps : Drifts x
  typed : ∀ W c, pre W → c.Typed W → (after x c).shared.registry.Plain →
    ∃ W', W ≤ W' ∧ (after x c).Typed W' ∧ ∀ a d, x c = .ok a d → Q W' a

/-- Nothing is told of the answer. -/
abbrev Anything (_ : World) (_ : α) : Prop := True

/-- What is known in a world that came before, and what has been told since. -/
def Since (pre told : World → Prop) (W : World) : Prop := (∃ W₀, W₀ ≤ W ∧ pre W₀) ∧ told W

theorem Respects.bind {k : α → Compile β} {R : World → β → Prop} (hx : Respects pre x P)
    (hk : ∀ a, Respects (Since pre (P · a)) (k a) R) : Respects pre (x >>= k) R where
  keeps := hx.keeps.bind fun a => (hk a).keeps
  typed := by
    intro W c holds typed plain
    have first := hx.typed W c holds typed
    unfold after at first plain ⊢
    simp only [Bind.bind, EStateM.bind] at plain ⊢
    cases done : x c with
    | error e d =>
      rw [done] at first plain
      obtain ⟨W', le, typed', -⟩ := first plain
      exact ⟨W', le, typed', nofun⟩
    | ok a d =>
      rw [done] at first plain
      have grown := ((hk a).keeps d).1.registry
      obtain ⟨W', le, typed', told⟩ := first (plain.of_grown grown)
      obtain ⟨W'', le', typed'', told'⟩ := (hk a).typed W' d ⟨⟨W, le, holds⟩, told a d rfl⟩ typed' plain
      exact ⟨W'', World.le_trans le le', typed'', told'⟩

/-- What the answer of the first part is does not matter to the second. -/
theorem Respects.seq {k : α → Compile β} {R : World → β → Prop} (hx : Respects pre x P)
    (hk : ∀ a, Respects (fun _ => True) (k a) R) : Respects pre (x >>= k) R :=
  hx.bind fun a => ⟨(hk a).keeps, fun W c _ typed => (hk a).typed W c trivial typed⟩

theorem Respects.mono (hx : Respects pre x P) (weaker : ∀ W a, P W a → Q W a) : Respects pre x Q where
  keeps := hx.keeps
  typed W c holds typed plain := by
    obtain ⟨W', le, typed', told⟩ := hx.typed W c holds typed plain
    exact ⟨W', le, typed', fun a d ok => weaker W' a (told a d ok)⟩

theorem Respects.of {pre' : World → Prop} (hx : Respects pre' x Q) (h : ∀ W, pre W → pre' W) :
    Respects pre x Q :=
  ⟨hx.keeps, fun W c holds => hx.typed W c (h W holds)⟩

/-- What has just been told is all that matters. -/
theorem Respects.told {told : World → Prop} (hx : Respects told x Q) : Respects (Since pre told) x Q :=
  hx.of fun _ holds => holds.2

/-- A step that changes nothing that counts. -/
theorem Respects.still (keeps : Keeps x)
    (same : ∀ c : Compiler, (after x c).shared.registry = c.shared.registry ∧
      (after x c).shared.store = c.shared.store ∧ (after x c).ops = c.ops)
    (told : ∀ W c a d, pre W → c.Typed W → x c = .ok a d → Q W a) : Respects pre x Q where
  keeps := keeps.drifts
  typed W c holds typed _ := by
    obtain ⟨registry, store, ops⟩ := same c
    refine ⟨W, W.le_refl, ⟨?_, ?_, ?_, ?_⟩, fun a d ok => told W c a d holds typed ok⟩
    · exact registry.symm ▸ typed.registry
    · exact store.symm ▸ typed.store
    · exact ops.symm ▸ typed.ops
    · exact registry.symm ▸ typed.standard

theorem Respects.pure {a : α} (h : ∀ W, pre W → Q W a) : Respects pre (Pure.pure a) Q :=
  .still (.pure a) (fun _ => ⟨rfl, rfl, rfl⟩) fun W _ _ _ holds _ ok => by cases ok; exact h W holds

theorem Respects.done (a : α) : Respects pre (Pure.pure a) Anything := .pure fun _ _ => trivial

theorem Respects.fail (f : Fault) : Respects pre (fail f : Compile α) Q :=
  .still (.fail f) (fun _ => ⟨rfl, rfl, rfl⟩) fun _ _ _ _ _ _ ok => by cases ok

theorem Respects.exhausted : Respects pre (exhausted : Compile α) Q :=
  .still .exhausted (fun _ => ⟨rfl, rfl, rfl⟩) fun _ _ _ _ _ _ ok => by cases ok

theorem Respects.refuse {refused : Prop} [Decidable refused] {f : Fault} {k : Unit → Compile α}
    (hk : Respects pre (k ()) Q) :
    Respects pre (if refused then Compile.fail f >>= k else k ()) Q := by
  split
  · refine ⟨(Keeps.fail f).drifts.bind fun _ => hk.keeps, fun W c _ typed _ => ?_⟩
    exact ⟨W, W.le_refl, typed, nofun⟩
  · exact hk

theorem Respects.ofExcept {e : Except Fault α} (h : ∀ W a, pre W → e = .ok a → Q W a) :
    Respects pre (Compile.ofExcept e) Q := by
  cases e with
  | ok a => exact .pure fun W holds => h W a holds rfl
  | error f => exact .fail f

theorem Respects.located (pos : Nat) (hx : Respects pre x Q) :
    Respects pre (Compile.located pos x) Q where
  keeps := hx.keeps.located pos
  typed W c holds typed plain := by
    have inner := hx.typed W c holds typed
    unfold after Compile.located at *
    cases ran : x c with
    | ok a d =>
      rw [ran] at inner plain
      exact inner plain
    | error e d =>
      rw [ran] at inner plain
      cases e <;>
      · obtain ⟨W', le, typed', -⟩ := inner plain
        exact ⟨W', le, typed', nofun⟩

theorem Respects.ask {f : Shared → α} (h : ∀ W (s : Shared), pre W → s.registry.Typed W → Q W (f s)) :
    Respects pre (Compile.ask f) Q :=
  .still (.ask f) (fun _ => ⟨rfl, rfl, rfl⟩) fun W c _ _ holds typed ok => by
    cases ok
    exact h W c.shared holds typed.registry

theorem respects_note (phase : Phase) (level : Log.Level) (message : Unit → String) :
    Respects pre (note phase level message) Anything :=
  .still (keeps_note phase level message)
    (fun c => ⟨Run.note_registry c.shared level phase.target message none,
      Run.note_store c.shared level phase.target message none, rfl⟩)
    fun _ _ _ _ _ _ _ => trivial

theorem respects_freshId : Respects pre freshId Anything where
  keeps := keeps_freshId.drifts
  typed W _ _ typed _ := ⟨W, W.le_refl, { typed with registry := typed.registry.freshId },
    fun _ _ _ => trivial⟩

theorem respects_emit {op : Op} (h : ∀ W, pre W → op.All (·.Typed W)) :
    Respects pre (emit op) Anything := by
  refine (Respects.ask (Q := Anything) fun _ _ _ _ => trivial).bind fun store =>
    (respects_note _ _ _).bind fun _ =>
      ⟨(Keeps.of_same fun _ => rfl).drifts, fun W c holds typed _ => ?_⟩
  obtain ⟨⟨W₁, le, ⟨W₀, le', holds⟩, -⟩, -⟩ := holds
  have typed' : op.All (·.Typed W) := (h W₀ holds).mono fun _ v => v.mono (World.le_trans le' le)
  refine ⟨W, W.le_refl, { typed with ops := ?_ }, fun _ _ _ => trivial⟩
  change OpsTyped W (c.ops.push op).toList
  rw [Array.toList_push]
  exact typed.ops.append fun other member => List.mem_singleton.1 member ▸ typed'

/-- An operation without values. -/
theorem respects_emit_bare {op : Op} (h : op.isPush = false) : Respects pre (emit op) Anything :=
  respects_emit fun _ _ => Op.All.of_bare h

theorem respects_emit_push {v : Value} (h : ∀ W, pre W → v.Typed W) :
    Respects pre (emit (.push v)) Anything :=
  respects_emit h

theorem Respects.mapM {γ : Type} {f : γ → Compile β} (h : ∀ a, Respects (fun _ => True) (f a) Anything)
    (xs : List γ) : Respects pre (xs.mapM f) Anything := by
  induction xs generalizing pre with
  | nil => rw [List.mapM_nil]; exact .done []
  | cons x xs ih =>
    rw [List.mapM_cons]
    exact ((h x).of fun _ _ => trivial).seq fun _ => ih.seq fun _ => .done _

/-- A registry to which only types are added takes the place of the present one. -/
theorem respects_registry {make : Registry → Except Fault β × Registry}
    (h : ∀ r : Registry, r.Adds (make r).2)
    (sound : ∀ r : Registry, r.Sound Ty.IsRecord → (make r).2.Sound Ty.IsRecord) :
    Respects pre (do
      let (b, registry) ← ask fun s => make s.registry
      alter fun s => { s with registry }
      Compile.ofExcept b) Anything where
  keeps := (keeps_registry (fun r => (h r).gains) Keeps.ofExcept).drifts
  typed W c _ typed _ := by
    have registry := typed.registry.adds (h c.shared.registry) (sound _ typed.registry.sound)
    let d : Compiler := { c with shared := { c.shared with registry := (make c.shared.registry).2 } }
    have typed' : d.Typed (W.withTypes (sound _ typed.registry.sound)) :=
      ⟨registry.2, typed.store.withTypes registry.1, typed.ops.mono registry.1,
        (h c.shared.registry).grown.standard typed.standard⟩
    refine ⟨_, registry.1, ?_, fun _ _ _ => trivial⟩
    change (after (Compile.ofExcept (make c.shared.registry).1) d).Typed _
    cases (make c.shared.registry).1 <;> exact typed'

theorem respects_resolve (e : TypeExpr) : Respects pre (resolve e) Anything :=
  respects_registry (fun r => e.resolve_adds r) fun r sound => (sound.resolve r e).1

theorem respects_argOf (e : TypeExpr) : Respects pre (argOf e) Anything := by
  refine respects_registry (fun r => e.toArg_adds r) fun r sound => ?_
  have resolved := (sound.resolve r e).1
  unfold TypeExpr.toArg
  split
  · exact sound
  · exact sound
  · split <;>
    · rename_i made
      rwa [made] at resolved

theorem respects_tokens (text : String) (offset : Nat) : Respects pre (tokens text offset) Anything :=
  (respects_note _ _ _).seq fun _ =>
    (Respects.ofExcept (Q := Anything) fun _ _ _ _ => trivial).seq fun _ =>
      (respects_note _ _ _).seq fun _ => .done _

/-! ## Forms -/

theorem respects_expect (first : Token) (what : String) (ts : List Token) :
    Respects pre (expect first what ts) Anything := by
  cases ts with
  | nil => exact .fail _
  | cons t ts => exact .done _

theorem respects_typeAt (text : String) (pos : Nat) : Respects pre (typeAt text pos) Anything :=
  .located pos ((Respects.ofExcept (Q := Anything) fun _ _ _ _ => trivial).seq respects_resolve)

/-- A block keeps the values typed. -/
def Block.Typed (block : Block) : Prop :=
  ∀ closing ts, Compile.Respects (fun _ => True) (block closing ts) Anything

variable {block : Block} (hb : Block.Typed block)

include hb

theorem respects_block (closing : Option String) (ts : List Token) :
    Respects pre (block closing ts) Anything :=
  (hb closing ts).of fun _ _ => trivial

theorem respects_ownBlock (closing : String) {op : Op} (h : op.isPush = false)
    (ts : List Token) : Respects pre (ownBlock block closing op ts) Anything :=
  (respects_emit_bare rfl).seq fun _ => (respects_block hb _ _).seq fun _ =>
    (respects_emit_bare h).seq fun _ => .done _

theorem respects_lambda (name : Option String) (kind : LambdaKind) (closing : Option String)
    (ts : List Token) : Respects pre (lambda block name kind closing ts) Anything :=
  respects_freshId.seq fun _ => (respects_emit_bare rfl).seq fun _ =>
    (respects_block hb _ _).seq fun _ => (respects_emit_bare rfl).seq fun _ => .done _

theorem respects_braces (t : Token) : Respects pre (braces block t) Anything :=
  (respects_tokens _ _).seq fun _ => (respects_lambda hb _ _ _ _).seq fun _ => .done _

omit hb

mutual

theorem respects_typeOps : (e : TypeExpr) → Respects (fun _ => True) (typeOps e) Anything
  | .named name => by rw [typeOps]; exact respects_emit_bare rfl
  | .generic name args => by
    rw [typeOps]
    exact respects_freshId.seq fun _ => (respects_emit_bare rfl).seq fun _ =>
      (respects_typeOpsEach args).seq fun _ => respects_emit_bare rfl
  | .same n => Respects.fail _
  | .argOf n k => Respects.fail _

theorem respects_typeOpsEach : (es : List TypeExpr) →
    Respects (fun _ => True) (typeOpsEach es) Anything
  | [] => by rw [typeOpsEach]; exact .done ()
  | e :: es => by
    rw [typeOpsEach]
    exact (respects_typeOps e).seq fun _ => respects_typeOpsEach es

end

theorem respects_signature (first : Token) (ts : List Token) :
    Respects pre (signature first ts) Anything := by
  induction ts generalizing pre with
  | nil => exact .fail _
  | cons t ts ih =>
    rw [signature]
    dsimp only
    split
    · exact .done _
    · exact (Respects.located _ (.ofExcept (Q := Anything) fun _ _ _ _ => trivial)).seq fun _ =>
        ih.seq fun _ => .done _

theorem respects_checkReference (arity : Nat) (e : TypeExpr) :
    Respects pre (checkReference arity e) Anything := by
  unfold checkReference
  split
  · split
    · exact .fail _
    · exact .done _
  · split
    · exact .fail _
    · exact .done _
  · exact .done _

theorem respects_argAt (arity : Nat) (e : TypeExpr) (pos : Nat) :
    Respects pre (argAt arity e pos) Anything :=
  .located pos ((respects_checkReference _ _).seq fun _ => respects_argOf _)

theorem respects_fieldType (pos : Nat) (text? : Option String) :
    Respects pre (fieldType pos text?) Anything := by
  cases text? with
  | some text => exact respects_typeAt text pos
  | none => exact .done _

theorem respects_fields (first : Token) (seen : List String) (ts : List Token) :
    Respects pre (fields first seen ts) Anything := by
  induction ts generalizing pre seen with
  | nil => exact .fail _
  | cons t ts ih =>
    rw [fields]
    dsimp only
    split
    · exact .done _
    · exact (respects_fieldType _ _).seq fun _ => Respects.refuse ((ih _).seq fun _ => .done _)

/-! ## Structures -/

/-- The functions are added to those that there are. -/
structure AddsFuncs (fs : List (String × List Arg × Safety × Native)) (c d : Compiler) : Prop where
  ops : d.ops = c.ops
  store : d.shared.store = c.shared.store
  types : d.shared.registry.types = c.shared.registry.types
  grown : c.shared.registry.Grown d.shared.registry
  imps : ∀ imp, d.shared.registry.Registered imp → c.shared.registry.Registered imp ∨
    ∃ f ∈ fs, imp.args = f.2.1 ∧ imp.body = .native f.2.2.2
  made : ∀ f ∈ fs, ∃ imp, d.shared.registry.Registered imp ∧ imp.args = f.2.1 ∧
    imp.body = .native f.2.2.2

theorem addStructFuncs_adds (fs : List (String × List Arg × Safety × Native)) (c : Compiler) :
    ∃ d, addStructFuncs fs c = .ok () d ∧ AddsFuncs fs c d := by
  induction fs generalizing c with
  | nil => exact ⟨c, rfl, rfl, rfl, rfl, .refl _, fun _ known => .inl known, nofun⟩
  | cons f fs ih =>
    obtain ⟨name, args, safety, native⟩ := f
    let s := (c.shared.addImp name args safety (.native native)).2
    let r := (c.shared.registry.addImp name args safety (.native native)).2
    have registry : s.registry = r := Run.note_registry _ .debug Phase.vm.target _ none
    have store : s.store = c.shared.store := Run.note_store _ .debug Phase.vm.target _ none
    obtain ⟨d, ran, adds⟩ := ih { c with shared := s }
    have added := Registry.registered_addImp c.shared.registry name args safety (.native native)
    refine ⟨d, ran, adds.ops, adds.store.trans store, ?_, ?_, fun imp known => ?_, fun f member => ?_⟩
    · have types : s.registry.types = r.types := by rw [registry]
      exact adds.types.trans types
    · exact (addImp_drift c.shared name args safety (.native native)).registry.trans adds.grown
    · rcases adds.imps imp known with old | ⟨f, member, same⟩
      · rw [registry] at old
        rcases (added imp).1 old with rfl | old
        · exact .inr ⟨_, List.mem_cons_self, rfl, rfl⟩
        · exact .inl old
      · exact .inr ⟨f, List.mem_cons_of_mem _ member, same⟩
    · rcases List.mem_cons.1 member with rfl | member
      · have here : s.registry.Registered
            (c.shared.registry.addImp name args safety (.native native)).1 := by
          rw [registry]
          exact (added _).2 (.inl rfl)
        exact ⟨_, adds.grown.registered _ here, rfl, rfl⟩
      · exact adds.made f member

/-- What comes after the fields of a structure have been read: the type is declared, and its functions
are made known. -/
theorem declare_cases (name : Token) (fs : List (String × Ty)) (ts : List Token) (c : Compiler) :
    let x : Compile (List Token) := do
      let (t, shared) ← located name.pos do
        ofExcept (← ask fun s => s.declareType name.text [.struct] (.record name.text (fs.map (·.1))))
      alter fun _ => shared
      addStructFuncs (structFuncs t fs)
      return ts
    (∃ e, x c = .error e c) ∨ ∃ t shared d,
      c.shared.declareType name.text [.struct] (.record name.text (fs.map (·.1))) = .ok (t, shared) ∧
      AddsFuncs (structFuncs t fs) { c with shared } d ∧ x c = .ok ts d := by
  intro x
  cases made : c.shared.declareType name.text [.struct] (.record name.text (fs.map (·.1))) with
  | error f =>
    refine .inl ⟨.fault (f.locate name.pos), ?_⟩
    simp only [x, Bind.bind, EStateM.bind, located, ask, made]
    rfl
  | ok both =>
    obtain ⟨t, shared⟩ := both
    obtain ⟨d, ran, adds⟩ := addStructFuncs_adds (structFuncs t fs) { c with shared }
    refine .inr ⟨t, shared, d, rfl, adds, ?_⟩
    simp only [x, Bind.bind, EStateM.bind, located, ask, made, Compile.ofExcept, alter, Pure.pure,
      EStateM.pure, ran]

/-- The structure types of a world, one more among them. -/
def withRecord (W : World) (id : Nat) (ts : List Ty) : World :=
  { W with records := fun i => if i = id then some ts else W.records i }

theorem le_withRecord {id : Nat} (fresh : W.records id = none) (ts : List Ty) :
    W ≤ withRecord W id ts := by
  refine { W.le_refl with records := fun i us found => ?_ }
  have other : i ≠ id := by
    rintro rfl
    rw [fresh] at found
    cases found
  simpa [withRecord, other] using found

/-- What the functions of a structure ask for is what they need. -/
theorem takes_structFuncs {t : Ty} {fs : List (String × Ty)} (record : W.Record t)
    (found : W.records t.id = some (fs.map (·.2))) :
    ∀ f ∈ structFuncs t fs, f.2.2.2.Takes W f.2.1 := by
  intro f member
  rcases List.mem_cons.1 member with rfl | member
  · exact ⟨fs.map (·.2), record, found, by simp, by simp [Function.comp_def]⟩
  · obtain ⟨⟨g, i⟩, there, member⟩ := List.mem_flatMap.1 member
    have field : (fs.map (·.2))[i]? = some g.2 := by
      rw [List.getElem?_map, List.mem_zipIdx_iff_getElem?.1 there]
      rfl
    simp only [List.mem_cons, List.not_mem_nil, or_false] at member
    rcases member with rfl | rfl
    · trivial
    · exact ⟨t, fs.map (·.2), g.2, record, found, field, rfl⟩

/-- The shape of a structure type that has been declared. -/
theorem declareType_shape {s s' : Shared} {name word : String} {fields : List String} {t : Ty}
    (h : s.declareType name [.struct] (.record word fields) = .ok (t, s')) :
    ∃ r, s.registry.declareType name [.struct] (.record word fields) = .ok (t, r) ∧
      s'.registry = r ∧ s'.store = s.store ∧ t.name = name ∧ t.id = s.registry.nextId ∧ t.IsRecord ∧
      t.args = [] ∧ r.Knows t ∧ r.funcs = s.registry.funcs := by
  unfold Shared.declareType at h
  split at h
  · cases h
  rename_i r made
  obtain ⟨rfl, rfl⟩ := Prod.mk.inj (Except.ok.inj h)
  let said (_ : Unit) := s!"registered type {name}"
  have registry := Run.note_registry { s with registry := r } .debug Phase.vm.target said none
  have store := Run.note_store { s with registry := r } .debug Phase.vm.target said none
  have declared := made
  unfold Registry.declareType at made
  split at made
  · cases made
  obtain ⟨rfl, rfl⟩ := Prod.mk.inj (Except.ok.inj made)
  refine ⟨_, declared, registry, store, rfl, rfl, ⟨rfl, word, fields, rfl⟩, rfl, ?_, rfl⟩
  rw [Registry.Knows, Registry.addType, Dict.find?_insert, if_pos rfl]

/-- What is known of a structure that has just been declared. -/
theorem typed_declared {c d : Compiler} {name : String} {fs : List (String × Ty)} {t : Ty}
    {shared : Shared} (typed : c.Typed W) (plain : d.shared.registry.Plain)
    (declared : c.shared.declareType name [.struct] (.record name (fs.map (·.1))) = .ok (t, shared))
    (adds : AddsFuncs (structFuncs t fs) { c with shared } d) : ∃ W', W ≤ W' ∧ d.Typed W' := by
  obtain ⟨r, made, registry, store, named, id, record, args, known, funcs⟩ :=
    declareType_shape declared
  have first : c.shared.registry.Grown r := registry ▸ (declareType_gains declared).registry.grown
  have rest : r.Grown d.shared.registry := registry ▸ adds.grown
  have grown := first.trans rest
  obtain ⟨sound, -, -, template, behavior⟩ :=
    typed.registry.sound.declareRecord (named ▸ plain.names t (rest.knows known) record) made
  have sound : d.shared.registry.Sound Ty.IsRecord :=
    sound.of_types (adds.types.trans (congrArg Registry.types registry)) rest.ids
  let ts := fs.map (·.2)
  have fresh : W.records t.id = none := by
    cases found : W.records t.id with
    | none => rfl
    | some us => exact absurd (typed.registry.records _ us found) (id ▸ Nat.lt_irrefl _)
  have types : W ≤ W.withTypes sound :=
    { W.le_refl with knows := fun t known => grown.knows ((typed.registry.knows t).1 known) }
  have le : W ≤ withRecord (W.withTypes sound) t.id ts :=
    World.le_trans types (le_withRecord (W := W.withTypes sound) fresh ts)
  have here : (withRecord (W.withTypes sound) t.id ts).records t.id = some ts := if_pos rfl
  have elsewhere {i : Nat} {us : List Ty} (other : i ≠ t.id)
      (found : (withRecord (W.withTypes sound) t.id ts).records i = some us) :
      W.records i = some us :=
    (if_neg other).symm.trans found
  have isRecord : (withRecord (W.withTypes sound) t.id ts).Record t := by
    refine ⟨⟨rest.knows known, .mk (by simp [template]) ?_ ?_⟩, template, _, _, behavior⟩
    · intro s member
      rw [record.supers, List.mem_singleton] at member
      exact member ▸ (W.valued_builtin (by simp [Ty.builtins])).2
    · simp [args]
  refine ⟨_, le, ⟨⟨sound, fun _ => Iff.rfl, fun imp there => ?_, plain.convs, ?_, ?_⟩, ?_, ?_, ?_⟩⟩
  · rcases adds.imps imp there with old | ⟨f, member, args, body⟩
    · rw [show ({ c with shared } : Compiler).shared.registry = r from registry] at old
      rw [Registry.Registered, funcs] at old
      exact (typed.registry.imps imp old).mono le
    · intro native is
      obtain rfl := Body.native.inj (is.symm.trans body)
      exact args ▸ takes_structFuncs isRecord here f member
  · intro i us found
    by_cases same : i = t.id
    · exact same ▸ sound.below t (rest.knows known)
    · exact Nat.lt_of_lt_of_le (typed.registry.records i us (elsewhere same found)) grown.ids
  · intro i us found
    by_cases same : i = t.id
    · subst same
      obtain rfl := Option.some.inj (found.symm.trans here)
      obtain ⟨imp, there, args, body⟩ := adds.made _ List.mem_cons_self
      exact ⟨imp, t, there, rfl, by simpa [ts] using body, by simpa [ts, Function.comp_def] using args⟩
    · obtain ⟨imp, t', there, rest⟩ := typed.registry.makers i us (elsewhere same found)
      exact ⟨imp, t', grown.registered imp there, rest⟩
  · rw [adds.store, show ({ c with shared } : Compiler).shared.store = _ from store]
    exact typed.store.later le rfl rfl rfl rfl rfl
  · rw [adds.ops]
    exact typed.ops.mono le
  · exact grown.standard typed.standard

theorem respects_declare (name : Token) (fs : List (String × Ty)) (ts : List Token) :
    Respects pre (do
      let (t, shared) ← located name.pos do
        ofExcept (← ask fun s => s.declareType name.text [.struct] (.record name.text (fs.map (·.1))))
      alter fun _ => shared
      addStructFuncs (structFuncs t fs)
      return ts) Anything := by
  refine ⟨(keeps_declare name fs ts).drifts, fun W c _ typed plain => ?_⟩
  unfold after at plain ⊢
  rcases declare_cases name fs ts c with ⟨e, failed⟩ | ⟨t, shared, d, declared, adds, done⟩
  · rw [show _ = _ from failed]
    exact ⟨W, W.le_refl, typed, nofun⟩
  · rw [show _ = _ from done] at plain ⊢
    obtain ⟨W', le, typed'⟩ := typed_declared typed plain declared adds
    exact ⟨W', le, typed', fun _ _ _ => trivial⟩

theorem respects_structForm (first : Token) (ts : List Token) :
    Respects pre (structForm first ts) Anything :=
  (respects_expect _ _ _).seq fun (name, _) => (respects_fields _ _ _).seq fun (fs, ts) =>
    respects_declare name fs ts

/-! ## Forms with a body -/

/-- A lambda whose body becomes that of a function or a conversion. -/
theorem respects_define {γ : Type} {f : γ → Compiler → Compiler} {y : Compile γ}
    (hy : Respects pre y Anything) (same : ∀ a c, (f a c).shared = c.shared ∧ (f a c).ops = c.ops)
    (ts : γ → List Token) :
    Respects pre (y >>= fun a c => .ok (ts a) (f a c)) Anything := by
  refine hy.seq fun a => .still (.of_same fun c => (same a c).1) (fun c => ?_) fun _ _ _ _ _ _ _ => trivial
  obtain ⟨shared, ops⟩ := same a c
  exact ⟨congrArg Shared.registry shared, congrArg Shared.store shared, ops⟩

variable (hb : Block.Typed block)

include hb

theorem respects_funcBody (first name : Token) (ts : List Token) :
    Respects pre (funcBody block first name ts) Anything := by
  refine (respects_signature _ _).seq fun (exprs, ts) =>
    (Respects.mapM (fun (e, pos) => respects_argAt _ e pos) _).seq fun args => ?_
  exact respects_define (f := fun p c => { c with
    funcs := c.funcs ++ [⟨name.text, args, ((ts.head?).bind fun t => Safety.ofName? t.text).getD .safe,
      p.1⟩] }) (respects_lambda hb _ _ _ _) (fun _ _ => ⟨rfl, rfl⟩) fun p => p.2

theorem respects_convForm (first : Token) (ts : List Token) :
    Respects pre (convForm block first ts) Anything := by
  refine (respects_expect _ _ _).seq fun _ => (respects_expect _ _ _).seq fun _ =>
    (respects_typeAt _ _).seq fun source => (respects_typeAt _ _).seq fun target => ?_
  exact respects_define (f := fun p c => { c with convs := c.convs ++ [⟨source, target, p.1⟩] })
    (respects_lambda hb _ _ _ _) (fun _ _ => ⟨rfl, rfl⟩) fun p => p.2

omit hb

theorem respects_hostForm (first : Token) (take : Nat) (ts : List Token) :
    Respects pre (hostForm first take ts) Anything := by
  induction take generalizing pre ts with
  | zero => exact .done ts
  | succ take ih =>
    exact (respects_expect _ _ _).seq fun _ => (respects_emit_push fun _ _ =>
      Run.typed_str _).seq fun _ => ih _

include hb

theorem respects_form (first : Token) (ts : List Token) {m : Macro}
    (word : ∀ W, pre W → ∀ op, m = .word op → op.All (·.Typed W)) :
    Respects pre (form block first ts m) Anything := by
  cases m with
  | func =>
    exact (respects_expect _ _ _).seq fun _ => (respects_expect _ _ _).seq fun _ =>
      Respects.refuse (respects_funcBody hb _ _ _)
  | binding =>
    exact (respects_expect _ _ _).seq fun _ => Respects.refuse
      ((respects_ownBlock hb _ rfl _).seq fun _ => (respects_emit_bare rfl).seq fun _ => .done _)
  | struct => exact respects_structForm first ts
  | conv => exact respects_convForm hb first ts
  | test =>
    exact (respects_expect _ _ _).seq fun _ => Respects.refuse
      ((respects_ownBlock hb _ rfl _).seq fun _ => (respects_emit_bare rfl).seq fun _ => .done _)
  | attempt =>
    exact respects_freshId.seq fun _ => (respects_emit_bare rfl).seq fun _ =>
      (respects_block hb _ _).seq fun _ => (respects_emit_bare rfl).seq fun _ =>
        (respects_emit_bare rfl).seq fun _ => .done _
  | unrestricted =>
    exact (respects_emit_bare rfl).seq fun _ => (respects_block hb _ _).seq fun _ =>
      (respects_emit_bare rfl).seq fun _ => .done _
  | defer =>
    exact (respects_lambda hb _ _ _ _).seq fun _ => (respects_emit_bare rfl).seq fun _ => .done _
  | word op => exact (respects_emit fun W holds => word W holds op rfl).seq fun _ => .done ts
  | exit kind =>
    exact (respects_freshId.seq fun _ => respects_emit_bare rfl).seq fun _ => .done ts
  | host take => exact respects_hostForm first take ts

omit hb

/-! ## Tokens -/

theorem typed_builtin {word : String} {op : Op} (h : (word, .word op) ∈ Macro.builtins) :
    op.All (Value.Typed W) := by
  simp only [Macro.builtins, List.mem_cons, Prod.mk.injEq, Macro.word.injEq, reduceCtorEq, and_false,
    List.not_mem_nil, or_false, false_or] at h
  rcases h with ⟨-, rfl⟩ | ⟨-, rfl⟩ | ⟨-, rfl⟩ | ⟨-, rfl⟩ | ⟨-, rfl⟩ | ⟨-, rfl⟩ | ⟨-, rfl⟩
  · exact Run.typed_bool true
  · exact Run.typed_bool false
  · exact Run.typed_nil
  all_goals trivial

theorem typed_wordOp {t : Token} {op : Op} (h : wordOp t = some (.ok op)) :
    op.All (Value.Typed W) :=
  wordOp_cases (A := fun op => op.All (Value.Typed W)) h (fun _ _ => trivial) (fun _ => trivial)
    (fun _ => trivial) (fun _ => trivial) (fun _ => trivial) fun _ literal => literal.typed

/-- A form that begins with a word is one that the registry knows. -/
theorem respects_findForm (word : String) : Respects pre (findForm word) fun W m? =>
    ∀ m, m? = some m → ∀ op, m = .word op → op.All (·.Typed W) := by
  refine .still (.of_same fun _ => rfl) (fun _ => ⟨rfl, rfl, rfl⟩) ?_
  rintro W c m? d - typed ok m rfl op rfl
  obtain ⟨name, builtin⟩ := findForm_op typed.standard ok
  exact typed_builtin builtin

include hb

theorem respects_token (t : Token) (ts : List Token) :
    Respects (fun _ => True) (token block t ts) Anything := by
  unfold token
  split
  · exact (respects_braces hb t).seq fun _ => .done _
  split
  · exact respects_ownBlock hb _ rfl _
  split
  · exact respects_ownBlock hb _ rfl _
  split
  · exact .fail _
  split
  · exact .fail _
  split
  · rename_i read word
    have reads : Respects (fun _ => True) (Compile.ofExcept read) fun W op => op.All (·.Typed W) :=
      .ofExcept fun _ _ _ same => typed_wordOp (same ▸ word)
    exact reads.bind fun _ => (respects_emit fun _ holds => holds.2).seq fun _ => .done _
  split
  · exact (Respects.ofExcept (Q := Anything) fun _ _ _ _ => trivial).seq fun e =>
      (respects_typeOps e).seq fun _ => .done _
  · refine (respects_findForm t.text).bind fun m? => ?_
    cases m? with
    | some m => exact respects_form hb t ts fun _ holds => holds.2 m rfl
    | none => exact (respects_emit_bare rfl).seq fun _ => .done _

omit hb

theorem respects_upTo (fuel : Nat) : Block.Typed (upTo fuel) := by
  induction fuel with
  | zero => exact fun _ _ => .exhausted
  | succ fuel ih =>
    intro closing ts
    cases ts with
    | nil =>
      cases closing with
      | none => exact .done _
      | some closing => exact .fail _
    | cons t ts =>
      rw [upTo]
      split
      · exact .done _
      · exact (Respects.located _ (respects_token ih t ts)).seq fun _ => ih _ _

end Compile

end Catena
