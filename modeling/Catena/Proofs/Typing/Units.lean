import Catena.Proofs.Layout.Pushed
import Catena.Proofs.Typing.Compiled

/-!
# Folding and placing respect the types of values

What the rounds over the operations of a unit put in their place are values that were there before and
types that the registry knows. So a text that is compiled leaves a machine whose values are what their
types say, if it defines nothing that is not plain.
-/

namespace Catena

variable {W W' : World} {ops done done' : List Op}

/-! ## Names and skips -/

theorem typed_refresh? {n : Names} (known : ∀ name t, n.type? name = some t → W.knows t)
    {inside : List Nat} {op op' : Op} (h : n.refresh? inside op = some op') :
    op'.All (·.Typed W) := by
  unfold Names.refresh? at h
  split at h
  · obtain ⟨l, -, rfl⟩ := Option.map_eq_some_iff.1 h
    trivial
  · split at h
    · cases h
      trivial
    · obtain ⟨t, found, rfl⟩ := Option.map_eq_some_iff.1 h
      exact Run.typed_type (known _ t found)
  · split at h
    · cases h
      exact Run.typed_func _
    · obtain ⟨l, -, rfl⟩ := Option.map_eq_some_iff.1 h
      exact Run.typed_label l
  · split at h
    · cases h
    · cases h
    · obtain ⟨id, -, rfl⟩ := Option.map_eq_some_iff.1 h
      trivial
  · cases h

theorem OpsTyped.refresh {n : Names} (known : ∀ name t, n.type? name = some t → W.knows t)
    (inside : List Nat) (h : OpsTyped W ops) : OpsTyped W (n.refresh inside ops).1 := by
  induction ops generalizing inside with
  | nil => exact h
  | cons op ops ih =>
    have rest := ih (Names.enclosing inside op) h.tail
    rw [Names.refresh]
    cases found : n.refresh? inside op with
    | none => exact rest.cons h.head
    | some op' => exact rest.cons (typed_refresh? known found)

/-! ## Merging neighbours -/

theorem types_known {vs : List Value} {ts : List Ty} (h : vs.mapM Value.type? = some ts)
    (typed : ∀ v ∈ vs, v.Typed W) : ∀ t ∈ ts, W.knows t := by
  induction vs generalizing ts with
  | nil => rw [List.mapM_nil] at h; cases h; exact List.forall_mem_nil _
  | cons v vs ih =>
    rw [List.mapM_cons] at h
    obtain ⟨t, type, h⟩ := Option.bind_eq_some_iff.1 h
    obtain ⟨us, rest, h⟩ := Option.bind_eq_some_iff.1 h
    cases h
    intro s member
    rcases List.mem_cons.1 member with rfl | member
    · exact Run.type_known (typed v List.mem_cons_self) type
    · exact ih rest (fun w inside => typed w (List.mem_cons_of_mem _ inside)) s member

/-- The types pushed between two brackets are known. -/
theorem OpsTyped.bracketTypes? {id : Nat} {args args' : List Ty} (h : OpsTyped W done)
    (known : ∀ t ∈ args, W.knows t) (found : bracketTypes? id args done = some (args', done')) :
    OpsTyped W done' ∧ ∀ t ∈ args', W.knows t := by
  induction done generalizing args with
  | nil => cases found
  | cons op done ih =>
    cases op with
    | param p =>
      rw [Catena.bracketTypes?] at found
      split at found
      · cases found
        exact ⟨h.tail, known⟩
      · cases found
    | push v =>
      obtain ⟨t, type, found⟩ := Option.bind_eq_some_iff.1 found
      refine ih h.tail (fun s member => ?_) found
      rcases List.mem_cons.1 member with rfl | member
      · exact Run.type_known h.head type
      · exact known s member
    | pushMany vs =>
      obtain ⟨ts, types, found⟩ := Option.bind_eq_some_iff.1 found
      refine ih h.tail (fun s member => ?_) found
      rcases List.mem_append.1 member with member | member
      · exact types_known types h.head s member
      · exact known s member
    | _ => cases found

/-- Labels may be made known. -/
theorem Registry.Typed.addLabels {r : Registry} (h : r.Typed W) (labels : List Label) :
    (r.addLabels labels).Typed W where
  sound := h.sound.of_types rfl (Nat.le_refl _)
  knows := h.knows
  imps := h.imps
  convs := h.convs
  records := h.records
  makers := h.makers

namespace Compile

variable {pre : World → Prop}

/-! ## Rounds -/

/-- What operations come to, in a compilation that adds none to the unit. -/
abbrev OpsOf {α : Type} (f : α → List Op) (W : World) (a : α) : Prop := OpsTyped W (f a)

/-- The brackets of a generic type whose arguments have been pushed stand for the type. -/
theorem respects_foldBracket (template : String) {args : List Ty} {done : List Op}
    (typed : ∀ W, pre W → OpsTyped W done ∧ ∀ t ∈ args, W.knows t) :
    Respects pre (do
      let (t, registry) ← ofExcept (← ask fun s => s.registry.instantiateNamed template args)
      alter fun s => { s with registry }
      return (.push (.type t) :: done, true)) (OpsOf Prod.fst) where
  keeps := by
    let make (s : Shared) := s.registry.instantiateNamed template args
    rw [← bind_assoc]
    refine (keeps_made make (fun registry s => { s with registry }) (ofExcept_ask make) ?_ fun t =>
      .pure ((.push (.type t) :: done, true) : List Op × Bool)).drifts
    exact fun _ _ _ made => ⟨rfl, (Registry.instantiateNamed_adds made).gains, rfl⟩
  typed W c holds typed' plain := by
    obtain ⟨before, known⟩ := typed W holds
    unfold after
    simp only [Bind.bind, EStateM.bind, ask, alter, Pure.pure, EStateM.pure]
    cases made : c.shared.registry.instantiateNamed template args with
    | error f => exact ⟨W, W.le_refl, typed', fun _ _ same => by cases same⟩
    | ok both =>
      obtain ⟨t, r⟩ := both
      have knows : ∀ a ∈ args, c.shared.registry.Knows a := fun a member =>
        (typed'.registry.knows a).1 (known a member)
      obtain ⟨sound, there⟩ := typed'.registry.sound.instantiateNamed knows made
      have adds := Registry.instantiateNamed_adds made
      obtain ⟨le, registry⟩ := typed'.registry.adds adds sound
      refine ⟨W.withTypes sound, le, ⟨registry, typed'.store.withTypes le, typed'.ops.mono le,
        adds.grown.standard typed'.standard⟩, fun a d ok => ?_⟩
      cases ok
      exact (before.mono le).cons (Run.typed_type there)

theorem respects_rewriteOp (fold : Bool) {done : List Op} {op : Op}
    (typed : ∀ W, pre W → OpsTyped W done ∧ op.All (·.Typed W)) :
    Respects pre (rewriteOp fold done op) (OpsOf Prod.fst) := by
  have loops (make : Label → Op) (bare : ∀ l, (make l).isPlain = false) : Respects pre (do
      return ((loopOps (← freshId) make).reverse ++ done, true)) (OpsOf Prod.fst) := by
    refine respects_freshId.bind fun id => .pure fun W holds => ?_
    obtain ⟨⟨W₀, le, holds⟩, -⟩ := holds
    exact Pushed.loopOps id ((typed W₀ holds).1.mono le) bare
  have before (W : World) (holds : pre W) : OpsTyped W done := (typed W holds).1
  have keep : Respects pre (Pure.pure (op :: done, false) : Compile (List Op × Bool)) (OpsOf Prod.fst) :=
    .pure fun W holds => (before W holds).cons (typed W holds).2
  unfold rewriteOp
  split
  · exact loops (fun l => .for (some l)) fun _ => rfl
  · exact loops (fun l => .while (some l)) fun _ => rfl
  · rename_i v
    split
    · exact .pure fun W holds => Pushed.mergePush (before W holds) (typed W holds).2 fun w member =>
        List.mem_singleton.1 member ▸ (typed W holds).2
    · exact keep
  · rename_i vs
    split
    · exact .pure fun W holds => Pushed.mergePush (before W holds) (typed W holds).2 (typed W holds).2
    · exact keep
  · split
    · exact .pure fun W holds => Pushed.mergeDrop _ (before W holds)
    · exact keep
  · generalize found : (if fold = true then takeType? done else none) = taken
    cases taken with
    | some taken =>
      split at found
      · exact .pure fun W holds => Pushed.cons (Pushed.takeType? (before W holds) found) trivial
      · cases found
    | none => exact keep
  · generalize found : (if fold = true then bracketTypes? _ [] done else none) = taken
    cases taken with
    | some taken =>
      obtain ⟨args, rest⟩ := taken
      split at found
      · exact respects_foldBracket _ fun W holds => (before W holds).bracketTypes? (List.forall_mem_nil _)
          found
      · cases found
    | none => exact keep
  · exact keep

theorem respects_rewrite (fold changed : Bool) {done ops : List Op}
    (typed : ∀ W, pre W → OpsTyped W done ∧ OpsTyped W ops) :
    Respects pre (rewrite fold changed done ops) (OpsOf Prod.fst) := by
  induction ops generalizing pre changed done with
  | nil =>
    exact .pure fun W holds op member => (typed W holds).1 op (List.mem_reverse.1 member)
  | cons op ops ih =>
    have first : Respects pre (rewriteOp fold done op) (OpsOf Prod.fst) :=
      respects_rewriteOp fold fun W holds => ⟨(typed W holds).1, (typed W holds).2.head⟩
    refine first.bind fun p => ih _ fun W holds => ?_
    obtain ⟨⟨W₀, le, holds⟩, now⟩ := holds
    exact ⟨now, (typed W₀ holds).2.tail.mono le⟩

theorem respects_names (ops : List Op) :
    Respects pre (names ops) fun W n => ∀ name t, n.type? name = some t → W.knows t := by
  refine .still (keeps_names ops) (fun _ => ⟨rfl, rfl, rfl⟩) ?_
  rintro W c n d - typed ok name t found
  cases ok
  exact (typed.registry.knows t).2 (typed.registry.sound.knows found)

theorem respects_rounds (config : CompilerConfig) (left : Nat) {ops : List Op}
    (typed : ∀ W, pre W → OpsTyped W ops) : Respects pre (rounds config left ops) (OpsOf id) := by
  induction left generalizing pre ops with
  | zero => exact .fail _
  | succ left ih =>
    refine (respects_names ops).bind fun n => ?_
    have refreshed (W : World) (holds : Since pre (fun W => ∀ name t, n.type? name = some t →
        W.knows t) W) : OpsTyped W (n.refresh [] ops).1 := by
      obtain ⟨⟨W₀, le, holds⟩, known⟩ := holds
      exact ((typed W₀ holds).mono le).refresh known []
    refine (respects_rewrite config.foldConstants false fun W holds =>
      ⟨List.forall_mem_nil _, refreshed W holds⟩).bind fun p => ?_
    refine Respects.told ((respects_note _ _ _).bind fun _ => ?_)
    have rewritten (W : World) (holds : Since (OpsOf Prod.fst · p) (fun _ => True) W) :
        OpsTyped W p.1 := by
      obtain ⟨⟨W₀, le, now⟩, -⟩ := holds
      exact OpsTyped.mono le now
    split
    · exact ih rewritten
    · exact .pure rewritten

theorem respects_settle {ops : List Op} (typed : ∀ W, pre W → OpsTyped W ops) :
    Respects pre (settle ops) (OpsOf id) := by
  refine (Respects.ask (Q := Anything) fun _ _ _ _ => trivial).bind fun config => ?_
  have skips : Respects (Since pre fun _ => True) (Compile.ofExcept (addSkips [] ops)) (OpsOf id) := by
    refine .ofExcept fun W ops' holds made => ?_
    obtain ⟨⟨W₀, le, holds⟩, -⟩ := holds
    obtain ⟨rfl, -⟩ := addSkips_ok made
    exact Pushed.withSkip ((typed W₀ holds).mono le)
  exact skips.bind fun ops' => respects_rounds _ _ fun W holds => holds.2

/-! ## Places -/

theorem typed_place (p : Placement) {op : Op} (h : op.All (·.Typed W)) : (p.op op).All (·.Typed W) := by
  have value (v : Value) (typed : v.Typed W) : (p.value v).Typed W := by
    unfold Placement.value
    split
    · rename_i l is
      have fits := typed.fits
      rw [is] at fits
      exact ⟨typed.valued, fits⟩
    · exact typed
  cases op with
  | push v => exact value v h
  | pushMany vs =>
    intro v member
    obtain ⟨w, inside, rfl⟩ := List.mem_map.1 member
    exact value w (h w inside)
  | _ => trivial

theorem respects_place (base : Nat) {ops : List Op} (typed : ∀ W, pre W → OpsTyped W ops) :
    Respects pre (place base ops) (OpsOf Code.ops) := by
  let p : Placement := ({} : Placement).ofOps base ops
  have labels {pre : World → Prop} : Respects pre (alter fun s =>
      { s with registry := s.registry.addLabels ((namedLabels ops).map p.label) }) Anything := by
    constructor
    · exact drifts_addLabels p ops
    · intro W c _ typed _
      exact ⟨W, W.le_refl, { typed with registry := typed.registry.addLabels _ }, fun _ _ _ => trivial⟩
  refine (Respects.ask (Q := Anything) fun _ _ _ _ => trivial).bind fun _ =>
    (Respects.ofExcept (Q := Anything) fun _ _ _ _ => trivial).bind fun _ =>
    (respects_note _ _ _).bind fun _ => labels.bind fun _ =>
      .still (.of_same fun _ => rfl) (fun _ => ⟨rfl, rfl, rfl⟩) ?_
  rintro W c code d ⟨⟨W₃, le₃, ⟨W₂, le₂, ⟨W₁, le₁, ⟨W₀, le₀, holds⟩, -⟩, -⟩, -⟩, -⟩ - ok op member
  cases ok
  obtain ⟨op, before, rfl⟩ := List.mem_map.1 member
  have le : W₀ ≤ W := World.le_trans le₀ (World.le_trans le₁ (World.le_trans le₂ le₃))
  exact typed_place p ((typed W₀ holds).mono le op before)

theorem respects_source (text : String) (base : Nat) :
    Respects (fun _ => True) (source text base) (OpsOf Code.ops) := by
  refine (respects_tokens _ _).seq fun ts => (respects_note _ _ _).seq fun _ =>
    ((respects_upTo _ none ts).of fun _ _ => trivial).seq fun _ => ?_
  have gathered : Respects (fun _ => True) (get : Compile Compiler) fun W c => OpsTyped W c.ops.toList :=
    .still (.of_same fun _ => rfl) (fun _ => ⟨rfl, rfl, rfl⟩) fun W c a d _ typed ok => by
      cases ok
      exact typed.ops
  refine gathered.bind fun c => (respects_settle fun W holds => holds.2).bind fun ops => ?_
  refine (respects_place base fun W holds => holds.2).bind fun code => (respects_note _ _ _).bind
    fun _ => .pure fun W holds => ?_
  obtain ⟨⟨W₀, le, -, typed⟩, -⟩ := holds
  exact OpsTyped.mono le typed

end Compile

/-! ## Functions of a unit -/

/-- An implementation is added that asks what its body needs. -/
theorem Registry.Typed.addImp {r : Registry} (h : r.Typed W) (name : String) {args : List Arg}
    (safety : Safety) {body : Body} (takes : ∀ f, body = .native f → f.Takes W args) :
    (r.addImp name args safety body).2.Typed W where
  sound := h.sound.of_types rfl (Nat.le_succ _)
  knows := h.knows
  imps imp known := by
    rcases (registered_addImp r name args safety body imp).1 known with rfl | old
    · exact takes
    · exact h.imps imp old
  convs := h.convs
  records id ts found := Nat.lt_succ_of_lt (h.records id ts found)
  makers id ts found := by
    obtain ⟨imp, t, known, rest⟩ := h.makers id ts found
    exact ⟨imp, t, (addImp_grown r name args safety body).registered imp known, rest⟩

theorem typed_addImp {s : Shared} (h : s.registry.Typed W) (name : String) {args : List Arg}
    (safety : Safety) {body : Body} (takes : ∀ f, body = .native f → f.Takes W args) :
    (s.addImp name args safety body).2.registry.Typed W ∧
      (s.addImp name args safety body).2.store = s.store := by
  let s' := { s with registry := (s.registry.addImp name args safety body).2 }
  let said (_ : Unit) := s!"registered {(s.registry.addImp name args safety body).1.text}"
  exact ⟨Run.note_registry s' .debug Phase.vm.target said none ▸ h.addImp name safety takes,
    Run.note_store s' .debug Phase.vm.target said none⟩

namespace Run

theorem respects_defineFuncs (funcs : List PendingFunc) : Respects W (defineFuncs funcs) Anything := by
  induction funcs with
  | nil => exact .done ()
  | cons f fs ih =>
    refine Respects.seq (P := Anything) (fun W₁ m _ typed => ?_) fun _ => ih
    have takes : ∀ g, Body.lambda f.body = .native g → g.Takes W₁ f.args := nofun
    obtain ⟨registry, store⟩ := typed_addImp typed.registry f.name f.safety takes
    exact .of_ok rfl W₁.le_refl ⟨registry, store ▸ typed.store, typed.thread⟩ trivial

theorem defineFuncs_ok (funcs : List PendingFunc) (m : Machine) :
    ∃ n, defineFuncs funcs m = .ok () n := by
  induction funcs generalizing m with
  | nil => exact ⟨m, rfl⟩
  | cons f fs ih => exact ih _

/-- Conversions that are defined are known from then on. -/
theorem convs_defineConvs {c : PendingConv} {cs : List PendingConv} {k : Unit → Run Nat} {m : Machine}
    (makes : ∀ u, Makes (Deeds True) (k u)) :
    ((defineConvs (c :: cs) >>= k).after m).shared.registry.convs ≠ ∅ := by
  intro none
  let f : Value := ⟨.lambda, .lambda m.shared.store.closures.size⟩
  let store := { m.shared.store with closures := m.shared.store.closures.push ⟨c.body, ∅⟩ }
  let n : Machine :=
    { m with shared := { m.shared with store }.addConv c.source c.target f }
  have same : (defineConvs (c :: cs) >>= k).after m = (defineConvs cs >>= k).after n := rfl
  have grown := (((makes_defineConvs cs).bind makes) n).changes.grown
  have empty : n.shared.registry.convs = ∅ := grown.convs (same ▸ none)
  have found : n.shared.registry.convs.find? (c.source.id, c.target.id) = some f := by
    rw [show n.shared.registry.convs = Dict.insert _ (c.source.id, c.target.id) f from rfl,
      Dict.find?_insert, if_pos rfl]
  rw [empty] at found
  cases found

/-- After its functions have been defined, a unit that defines no conversion leaves the values typed. -/
theorem typed_defines {code : Code} {k : Unit → Run Nat} {m : Machine} (typed : m.Typed W)
    (rest : ∀ u, Respects W (k u) Anything) (makes : ∀ u, Makes (Deeds True) (k u))
    (plain : ((defineFuncs code.funcs >>= fun _ => defineConvs code.convs >>= k).after
      m).shared.registry.convs = ∅) :
    ∃ W', W ≤ W' ∧ ((defineFuncs code.funcs >>= fun _ => defineConvs code.convs >>= k).after m).Typed
      W' := by
  cases convs : code.convs with
  | nil =>
    have respects : Respects W (defineFuncs code.funcs >>= fun _ => defineConvs [] >>= k) Anything :=
      (respects_defineFuncs _).seq fun _ => Respects.seq (.done ()) rest
    obtain ⟨W', le, typed', -⟩ := respects.at typed
    exact ⟨W', le, typed'⟩
  | cons c cs =>
    rw [convs] at plain
    obtain ⟨n, ran⟩ := defineFuncs_ok code.funcs m
    rw [after_bind, ran] at plain
    exact absurd plain (convs_defineConvs makes)

/-- Compiling a text leaves the values of a machine typed if it defines nothing that is not plain. -/
theorem typed_compile {text : String} {m : Machine} (typed : m.Typed W)
    (standard : m.shared.registry.Standard)
    (plain : ((compile text).after m).shared.registry.Plain) :
    ∃ W', W ≤ W' ∧ ((compile text).after m).Typed W' := by
  have source := (Compile.respects_source text m.thread.ops.size).typed W { shared := m.shared }
    trivial ⟨typed.registry, typed.store, List.forall_mem_nil _, standard⟩
  unfold Compile.after at source
  unfold compile at plain ⊢
  rw [after_bind, ask] at plain ⊢
  dsimp only at plain ⊢
  rw [after_bind] at plain ⊢
  cases made : Compile.source text m.thread.ops.size { shared := m.shared } with
  | error e c =>
    have failed : compileAt text m.thread.ops.size m = .error e { m with shared := c.shared } := by
      rw [compileAt, made]
    rw [made] at source
    rw [failed] at plain ⊢
    obtain ⟨W', le, typed', -⟩ := source plain
    exact ⟨W', le, typed'.registry, typed'.store, typed.thread.mono le⟩
  | ok code c =>
    have done : compileAt text m.thread.ops.size m = .ok code { m with shared := c.shared } := by
      rw [compileAt, made]
    rw [made] at source
    rw [done] at plain ⊢
    dsimp only at plain ⊢
    rw [after_bind, alter] at plain ⊢
    dsimp only at plain ⊢
    have makes (u : Unit) : Makes (Deeds True) (do
        let now ← ask fun t => (t.id, t.ops.size)
        note .debug fun _ => s!"thread {now.1} now has {now.2} ops"
        return m.thread.ops.size) :=
      (Makes.ask _).bind fun _ => (makes_note _ _).bind fun _ => .pure _
    have grown : c.shared.registry.Grown _ := (((makes_defineFuncs code.funcs).bind fun _ =>
      (makes_defineConvs code.convs).bind makes)
        ⟨c.shared, { m.thread with ops := m.thread.ops ++ code.ops.toArray }⟩).changes.grown
    obtain ⟨W', le, typed', ops⟩ := source (plain.of_grown grown)
    have longer : Machine.Typed W'
        ⟨c.shared, { m.thread with ops := m.thread.ops ++ code.ops.toArray }⟩ := by
      have before := typed.thread.mono le
      refine ⟨typed'.registry, typed'.store, { before.all with ops := fun op member => ?_ }, before.cache⟩
      rcases Array.mem_append.1 member with old | new
      · exact before.all.ops op old
      · exact ops code c rfl op (List.mem_toArray.1 new)
    have rest (u : Unit) : Respects W' (do
        let now ← ask fun t => (t.id, t.ops.size)
        note .debug fun _ => s!"thread {now.1} now has {now.2} ops"
        return m.thread.ops.size) Anything :=
      (Respects.ask (P := Anything) fun _ _ _ _ => trivial).seq fun _ =>
        (respects_note _ _).seq fun _ => .done _
    obtain ⟨W'', le', typed''⟩ := typed_defines longer rest makes plain.convs
    exact ⟨W'', World.le_trans le le', typed''⟩

end Run

/-! ## New engines -/

/-- What is shared is in step with a world, and there are no objects. -/
structure Shared.Fresh (W : World) (s : Shared) : Prop where
  registry : s.registry.Typed W
  store : s.store = {}

theorem Shared.Fresh.note {s : Shared} (h : s.Fresh W) (level : Log.Level) (message : Unit → String) :
    (s.note level Phase.vm.target message).Fresh W := by
  exact ⟨Run.note_registry s level Phase.vm.target message none ▸ h.registry,
    (Run.note_store s level Phase.vm.target message none).trans h.store⟩

theorem Shared.Fresh.signatures {fs : List Signature} {s : Shared} (h : s.Fresh W)
    (takes : ∀ f ∈ fs, f.native.Takes W f.args) :
    (fs.foldl (fun s f => (s.addImp f.name f.args f.safety (.native f.native)).2) s).Fresh W := by
  induction fs generalizing s with
  | nil => exact h
  | cons f fs ih =>
    have first : ∀ g, Body.native f.native = .native g → g.Takes W f.args := fun g same =>
      Body.native.inj same ▸ takes f List.mem_cons_self
    obtain ⟨registry, store⟩ := typed_addImp h.registry f.name f.safety first
    exact ih ⟨registry, store.trans h.store⟩ fun g member => takes g (List.mem_cons_of_mem _ member)

/-- The functions of the library ask what they need. -/
theorem takes_library : ∀ f ∈ Signature.library, f.native.Takes W f.args := by
  simp [Signature.library, Signature.stack, Signature.numbers, Signature.typing, Signature.control,
    Signature.collections, Signature.iterators, Signature.inputOutput, Signature.concurrency,
    Signature.errors, Native.Takes]

/-- The world of a new engine: only the built-in types are known, and there are no objects. -/
def World.start : World where
  knows := Engine.bootRegistry.Knows
  isUniverse := (Registry.Sound.boot (D := Ty.IsRecord)).toUniverse
  records _ := none
  lists := #[]
  tables := #[]
  pairs := #[]
  structs := #[]
  iters := #[]

theorem convs_addTypes (ts : List Ty) (r : Registry) : (ts.foldl Registry.addType r).convs = r.convs := by
  induction ts generalizing r with
  | nil => rfl
  | cons t ts ih => exact ih _

theorem typed_bootRegistry : Engine.bootRegistry.Typed World.start where
  sound := .boot
  knows _ := Iff.rfl
  imps := by
    rintro imp ⟨name, imps, found, -⟩
    cases found
  convs := convs_addTypes Ty.builtins {}
  records _ _ found := by cases found
  makers _ _ found := by cases found

theorem Tallies.empty {γ α : Type} {R : γ → α → Prop} : Tallies R #[] #[] where
  size := rfl
  each i g x known _ := by simp at known

theorem typed_emptyStore : ({} : Store).Typed World.start where
  all := by constructor <;> intro x member <;> simp at member
  lists := .empty
  tables := .empty
  pairs := .empty
  structs := .empty
  iters := .empty

theorem fresh_boot (config : Config) (log : Log.Logger) (host : Host) :
    (Engine.boot config log host).Fresh World.start := by
  unfold Engine.boot
  have first := typed_bootRegistry
  generalize Engine.bootRegistry = r at first ⊢
  have takes := takes_library (W := World.start)
  generalize Signature.library = fs at takes ⊢
  have bare : Shared.Fresh World.start { config, log, host, registry := r } := ⟨first, rfl⟩
  exact ((bare.note _ _).signatures takes).note _ _

/-- A new engine has no values. -/
theorem typed_new (config : Config) (log : Log.Logger) (host : Host) :
    (Engine.new config log host).Typed World.start := by
  have boot := fresh_boot config log host
  unfold Engine.new
  generalize Engine.boot config log host = s at boot ⊢
  have next : s.freshId.2.Fresh World.start := ⟨boot.registry.freshId, boot.store⟩
  have shared := next.note .trace fun _ => s!"creating thread {s.freshId.1}"
  refine ⟨shared.registry, shared.store ▸ typed_emptyStore, ⟨?_, .empty⟩⟩
  refine ⟨fun stack member => ?_, .empty, fun scope member => ?_, .empty, by simp⟩
  · simp [Array.mem_singleton.1 member]
  · exact Array.mem_singleton.1 member ▸ Scope.All.root _

end Catena
