import Catena.Proofs.Compiling.Forms

/-!
# Settling on two engines

The rounds that bring operations into their final shape go the same way for corresponding operations:
each lemma is about one function of the compiler and says that it makes corresponding results.
-/

namespace Catena.Likeness

open Compile (Keeps)

variable {L : Likeness} {I J : Ids} {op op' : Op} {ops ops' done done' : List Op} {named : List String}

/-- Corresponding operations, one by one. -/
abbrev Ops (L : Likeness) (I : Ids) : List Op → List Op → Prop :=
  List.Forall₂ (Op.Like L.ty L.word I)

theorem Ops.mono (h : L.Ops I ops ops') (more : I ≤ J) : L.Ops J ops ops' :=
  h.imp fun _ _ is => is.mono more

theorem anon_eq {l l' : Label} (h : l.Like I l') : l'.anon = l.anon := by
  cases h <;> rfl

theorem role_eq {l l' : Label} (h : l.Like I l') : l'.role = l.role := by
  cases h <;> rfl

/-- A label that a program wrote corresponds to itself only. -/
theorem named_eq {l l' : Label} (h : l.Like I l') (named : l.anon = false) : l' = l := by
  cases h with
  | refl => rfl
  | fresh => cases named
  | exit => cases named

/-! ## Before the first round -/

theorem addSkips (h : L.Ops I ops ops') {rs : List Op} (ok : Catena.addSkips named ops = .ok rs) :
    ∃ rs', Catena.addSkips named ops' = .ok rs' ∧ L.Ops I rs rs' := by
  induction h generalizing named rs with
  | nil =>
    cases ok
    exact ⟨[], rfl, .nil⟩
  | @cons op op' ops ops' like rest ih =>
    -- one operation goes over into one or two
    have step (front front' : List Op) {named : List String} (likes : L.Ops I front front')
        (ok : (do return front ++ (← Catena.addSkips named ops) : Except Fault (List Op)) = .ok rs) :
        ∃ rs', (do return front' ++ (← Catena.addSkips named ops') : Except Fault (List Op)) =
          .ok rs' ∧ L.Ops I rs rs' := by
      cases skipped : Catena.addSkips named ops with
      | error f => rw [skipped] at ok; cases ok
      | ok us =>
        rw [skipped] at ok
        cases ok
        obtain ⟨us', skipped', related⟩ := ih skipped
        rw [skipped']
        exact ⟨_, rfl, List.rel_append likes related⟩
    have one {named : List String} (like : op.Like L.ty L.word I op')
        (ok : (do return op :: (← Catena.addSkips named ops) : Except Fault (List Op)) = .ok rs) :
        ∃ rs', (do return op' :: (← Catena.addSkips named ops') : Except Fault (List Op)) =
          .ok rs' ∧ L.Ops I rs rs' := step [op] [op'] (.cons like .nil) ok
    cases like with
    | fixed is => cases op <;> first | exact one (.fixed is) ok | cases is
    | lambda kind body skip =>
      cases skip with
      | none =>
        have skip : Option.Rel (Label.Like I) (some (.fresh "skip" _)) (some (.fresh "skip" _)) :=
          .some (.fresh "skip" body.id)
        exact step [_] [_] (.cons (.lambda kind body skip) .nil) ok
      | some skip => exact one (.lambda kind body (.some skip)) ok
    | unlambda ids =>
      have skip : Op.Like L.ty L.word I (.target (.fresh "skip" _)) (.target (.fresh "skip" _)) :=
        .target (.fresh "skip" ids)
      exact step [_, _] [_, _] (.cons (.unlambda ids) (.cons skip .nil)) ok
    | @target l l' is =>
      have anon := anon_eq is
      rw [Catena.addSkips] at ok ⊢
      rw [anon]
      split at ok
      next hidden =>
        rw [if_pos hidden]
        exact one (.target is) ok
      next shown =>
        obtain rfl := named_eq is (eq_false_of_ne_true shown)
        rw [if_neg shown]
        split at ok
        next => cases ok
        next fresh =>
          rw [if_neg fresh]
          exact one (.target is) ok
    | push is => exact one (.push is) ok
    | pushMany are => exact one (.pushMany are) ok
    | drop n => exact one (.drop n) ok
    | check is => exact one (.check is) ok
    | deref is => exact one (.deref is) ok
    | ref name => exact one (.ref name) ok
    | jump name is => exact one (.jump name is) ok
    | back is => exact one (.back is) ok
    | exit label lambda => exact one (.exit label lambda) ok
    | «try» is => exact one (.try is) ok
    | «for» is => exact one (.for is) ok
    | «while» is => exact one (.while is) ok
    | param ids => exact one (.param ids) ok
    | unparam ids is => exact one (.unparam ids is) ok

/-! ## Looking up names -/

theorem namedLabels_eq (h : L.Ops I ops ops') : namedLabels ops' = namedLabels ops := by
  have single {op op' : Op} (like : op.Like L.ty L.word I op') :
      namedLabels [op'] = namedLabels [op] := by
    cases like with
    | @target l l' is =>
      cases shown : l.anon with
      | true => simp [namedLabels, anon_eq is, shown]
      | false => rw [named_eq is shown]
    | _ => rfl
  have cons (op : Op) (ops : List Op) :
      namedLabels (op :: ops) = namedLabels [op] ++ namedLabels ops := by
    rw [namedLabels, ← List.singleton_append, List.filterMap_append]
    rfl
  induction h with
  | nil => rfl
  | @cons op op' ops ops' like _ ih => rw [cons op' ops', cons op ops, single like, ih]

/-- The names of two units under which the same functions and labels, and corresponding types, are
found. -/
structure SameNames (L : Likeness) (n n' : Names) : Prop where
  funcs : n'.isFunc = n.isFunc
  labels : n'.label? = n.label?
  types : ∀ {name}, L.word name → Option.Rel L.ty (n.type? name) (n'.type? name)

variable {n n' : Names} {inside inside' : List Nat}

/-- Lambdas around the operations that follow. -/
theorem enclosing (like : op.Like L.ty L.word I op') (h : inside.Forall₂ I inside') :
    (Names.enclosing inside op).Forall₂ I (Names.enclosing inside' op') := by
  cases like with
  | lambda kind body skip => exact .cons body.id h
  | unlambda =>
    cases h with
    | nil => exact .nil
    | cons _ rest => exact rest
  | fixed is => cases op <;> first | exact h | cases is
  | _ => exact h

theorem getElem?_rel {α : Type} {r : α → α → Prop} {xs ys : List α} (h : xs.Forall₂ r ys) (i : Nat) :
    Option.Rel r xs[i]? ys[i]? := by
  induction h generalizing i with
  | nil => exact .none
  | cons head _ ih =>
    cases i with
    | zero => exact .some head
    | succ i => exact ih i

theorem optionRel_map {α β : Type} {r : α → α → Prop} {s : β → β → Prop} {f g : α → β} {a b : Option α}
    (h : Option.Rel r a b) (each : ∀ a b, r a b → s (f a) (g b)) :
    Option.Rel s (a.map f) (b.map g) := by
  cases h with
  | none => exact .none
  | some is => exact .some (each _ _ is)

theorem optionRel_refl {α : Type} {r : α → α → Prop} (refl : ∀ a, r a a) (a : Option α) :
    Option.Rel r a a := by
  cases a with
  | none => exact .none
  | some a => exact .some (refl a)

theorem refresh? (names : SameNames L n n') (like : op.Like L.ty L.word I op')
    (h : inside.Forall₂ I inside') :
    Option.Rel (Op.Like L.ty L.word I) (n.refresh? inside op) (n'.refresh? inside' op') := by
  cases like with
  | jump name is =>
    cases is with
    | none =>
      simp only [Names.refresh?]
      rw [names.labels]
      exact optionRel_map (optionRel_refl Label.Like.refl _) fun _ _ is => .jump name (.some is)
    | some => exact .none
  | @deref name is =>
    simp only [Names.refresh?]
    rw [names.funcs]
    split
    next => exact .some (.fixed rfl)
    next => exact optionRel_map (names.types is) fun _ _ is => .push (.type is)
  | ref name =>
    simp only [Names.refresh?]
    rw [names.funcs, names.labels]
    split
    next => exact .some (.push (.refl _))
    next =>
      exact optionRel_map (optionRel_refl Label.Like.refl _) fun _ _ is => .push (.label is)
  | @exit l l' a b label lambda =>
    cases lambda with
    | none =>
      simp only [Names.refresh?]
      rw [role_eq label]
      split
      · exact .none
      · exact .none
      · exact optionRel_map (getElem?_rel h _) fun _ _ is => .exit label (.some is)
    | some => exact .none
  | fixed is => cases op <;> first | exact .none | cases is
  | _ => exact .none

theorem refresh (names : SameNames L n n') (likes : L.Ops I ops ops') (h : inside.Forall₂ I inside') :
    L.Ops I (n.refresh inside ops).1 (n'.refresh inside' ops').1 ∧
      (n'.refresh inside' ops').2 = (n.refresh inside ops).2 := by
  induction likes generalizing inside inside' with
  | nil => exact ⟨.nil, rfl⟩
  | @cons op op' ops ops' like _ ih =>
    obtain ⟨rest, changed⟩ := ih (enclosing like h)
    have found := refresh? names like h
    simp only [Names.refresh]
    generalize n.refresh? inside op = a at found
    generalize n'.refresh? inside' op' = b at found
    cases found with
    | none => exact ⟨.cons like rest, changed⟩
    | some is => exact ⟨.cons is rest, rfl⟩

/-! ## Merging neighbours -/

theorem mergePush {vs vs' : List Value} (like : op.Like L.ty L.word I op')
    (values : vs.Forall₂ (Value.Like L.ty I) vs') (h : L.Ops I done done') :
    L.Ops I (Catena.mergePush op vs done).1 (Catena.mergePush op' vs' done').1 ∧
      (Catena.mergePush op' vs' done').2 = (Catena.mergePush op vs done).2 := by
  cases h with
  | nil => exact ⟨.cons like .nil, rfl⟩
  | @cons last last' done done' is rest =>
    have kept : L.Ops I (op :: last :: done) (op' :: last' :: done') := .cons like (.cons is rest)
    cases is with
    | push is => exact ⟨.cons (.pushMany (.cons is values)) rest, rfl⟩
    | pushMany are => exact ⟨.cons (.pushMany (List.rel_append are values)) rest, rfl⟩
    | fixed is => cases last <;> first | exact ⟨kept, rfl⟩ | cases is
    | _ => exact ⟨kept, rfl⟩

theorem absorbDrop (n : Nat) (h : L.Ops I done done') :
    (Catena.absorbDrop n done').1 = (Catena.absorbDrop n done).1 ∧
      L.Ops I (Catena.absorbDrop n done).2 (Catena.absorbDrop n done').2 := by
  induction h generalizing n with
  | nil => cases n <;> exact ⟨rfl, .nil⟩
  | @cons last last' done done' is rest ih =>
    have kept : L.Ops I (last :: done) (last' :: done') := .cons is rest
    cases n with
    | zero =>
      rw [Catena.absorbDrop.eq_def, Catena.absorbDrop.eq_def, if_pos rfl, if_pos rfl]
      exact ⟨rfl, kept⟩
    | succ n =>
      cases is with
      | push => exact ih n
      | @pushMany vs vs' are =>
        have length : vs'.length = vs.length := are.length_eq.symm
        simp only [Catena.absorbDrop, if_neg (Nat.succ_ne_zero n), length]
        split
        next => exact ih _
        next => exact ⟨rfl, .cons (.pushMany (List.forall₂_take _ are)) rest⟩
      | drop m => exact ⟨rfl, .cons (.drop _) rest⟩
      | fixed is => cases last <;> first | exact ⟨rfl, kept⟩ | cases is
      | _ => exact ⟨rfl, kept⟩

theorem mergeDrop (n : Nat) (h : L.Ops I done done') :
    L.Ops I (Catena.mergeDrop n done).1 (Catena.mergeDrop n done').1 ∧
      (Catena.mergeDrop n done').2 = (Catena.mergeDrop n done).2 := by
  obtain ⟨left, kept⟩ := absorbDrop n h
  have after : L.Ops I
      (if (Catena.absorbDrop n done).1 = 0 then (Catena.absorbDrop n done).2
        else .drop (Catena.absorbDrop n done).1 :: (Catena.absorbDrop n done).2)
      (if (Catena.absorbDrop n done).1 = 0 then (Catena.absorbDrop n done').2
        else .drop (Catena.absorbDrop n done).1 :: (Catena.absorbDrop n done').2) := by
    split
    · exact kept
    · exact .cons (.drop _) kept
  simp only [Catena.mergeDrop, left]
  rw [← after.length_eq, ← h.length_eq]
  exact ⟨after, rfl⟩

/-- The types of corresponding values. -/
theorem type?_rel {v v' : Value} (h : v.Like L.ty I v') : Option.Rel L.ty v.type? v'.type? := by
  cases h with
  | refl => exact optionRel_refl L.ty_refl _
  | type is => exact .some is
  | label => exact .none

/-- The last of corresponding values, and those before it. -/
theorem getLast?_rel {vs vs' : List Value} (h : vs.Forall₂ (Value.Like L.ty I) vs') :
    Option.Rel (Value.Like L.ty I) vs.getLast? vs'.getLast? := by
  have last := getElem?_rel h (vs.length - 1)
  rwa [← List.getLast?_eq_getElem?, h.length_eq, ← List.getLast?_eq_getElem?] at last

theorem dropLast_rel {vs vs' : List Value} (h : vs.Forall₂ (Value.Like L.ty I) vs') :
    vs.dropLast.Forall₂ (Value.Like L.ty I) vs'.dropLast := by
  rw [List.dropLast_eq_take, List.dropLast_eq_take, ← h.length_eq]
  exact List.forall₂_take _ h

theorem optionRel_bind {α β γ δ : Type} {r : α → γ → Prop} {s : β → δ → Prop} {f : α → Option β}
    {g : γ → Option δ} {a : Option α} {b : Option γ} (h : Option.Rel r a b)
    (each : ∀ a b, r a b → Option.Rel s (f a) (g b)) : Option.Rel s (a.bind f) (b.bind g) := by
  cases h with
  | none => exact .none
  | some is => exact each _ _ is

theorem takeType? (h : L.Ops I done done') :
    Option.Rel (fun p q => L.ty p.1 q.1 ∧ L.Ops I p.2 q.2) (Catena.takeType? done)
      (Catena.takeType? done') := by
  cases h with
  | nil => exact .none
  | @cons last last' done done' is rest =>
    cases is with
    | push is => exact optionRel_map (type?_rel is) fun _ _ like => ⟨like, rest⟩
    | @pushMany vs vs' are =>
      refine optionRel_bind (getLast?_rel are) fun v v' is => ?_
      refine optionRel_bind (type?_rel is) fun t t' like => .some ⟨like, ?_⟩
      have front := dropLast_rel are
      cases short : vs.dropLast <;> cases short' : vs'.dropLast <;> rw [short, short'] at front
      · exact rest
      · cases front
      · cases front
      · exact .cons (.pushMany front) rest
    | fixed is => cases last <;> first | exact .none | cases is
    | _ => exact .none

theorem types?_rel {vs vs' : List Value} (h : vs.Forall₂ (Value.Like L.ty I) vs') :
    Option.Rel (List.Forall₂ L.ty) (vs.mapM Value.type?) (vs'.mapM Value.type?) := by
  induction h with
  | nil => exact .some .nil
  | cons is _ ih =>
    rw [List.mapM_cons, List.mapM_cons]
    refine optionRel_bind (type?_rel is) fun t t' like => ?_
    exact optionRel_bind ih fun ts ts' likes => .some (.cons like likes)

theorem bracketTypes? {r r' : Registry} (alike : L.registry I r r') {id id' : Nat}
    (ids : I id id') {args args' : List Ty} (likes : args.Forall₂ L.ty args')
    (h : L.Ops I done done') :
    Option.Rel (fun p q => p.1.Forall₂ L.ty q.1 ∧ L.Ops I p.2 q.2)
      (Catena.bracketTypes? id args done) (Catena.bracketTypes? id' args' done') := by
  induction h generalizing args args' with
  | nil => exact .none
  | @cons last last' done done' is rest ih =>
    cases is with
    | push is => exact optionRel_bind (type?_rel is) fun t t' like => ih (.cons like likes)
    | pushMany are =>
      exact optionRel_bind (types?_rel are) fun ts ts' like => ih (List.rel_append like likes)
    | @param p p' opened =>
      have same := L.apart alike opened ids
      by_cases here : p = id
      · simp only [Catena.bracketTypes?, if_pos here, if_pos (same.1 here)]
        exact .some ⟨likes, rest⟩
      · simp only [Catena.bracketTypes?, if_neg here, if_neg (mt same.2 here)]
        exact .none
    | fixed is => cases last <;> first | exact .none | cases is
    | _ => exact .none

/-! ## Rounds -/

/-- Corresponding operations, and whether anything changed. -/
abbrev SamePass (L : Likeness) (I : Ids) (p q : List Op × Bool) : Prop :=
  L.Ops I p.1 q.1 ∧ q.2 = p.2

theorem loopOps {id id' : Nat} (ids : I id id') {op op' : Label → Op}
    (h : ∀ l l', l.Like I l' → (op l).Like L.ty L.word I (op' l')) :
    L.Ops I (Catena.loopOps id op) (Catena.loopOps id' op') := by
  have start : (Label.fresh "loop" id).Like I (.fresh "loop" id') := .fresh "loop" ids
  have done : (Label.fresh "done" id).Like I (.fresh "done" id') := .fresh "done" ids
  exact .cons (.target start) (.cons (h _ _ done) (.cons (.back start) (.cons (.target done) .nil)))

/-- A loop gets its final shape. -/
theorem Steps.loop {op op' : Label → Op} (h : L.Ops I done done')
    (each : ∀ J l l', l.Like J l' → (op l).Like L.ty L.word J (op' l')) :
    L.Steps I (L.SamePass)
      (do return ((Catena.loopOps (← Compile.freshId) op).reverse ++ done, true))
      (do return ((Catena.loopOps (← Compile.freshId) op').reverse ++ done', true)) := by
  refine freshId.bind fun J a b more ids => Agrees.pure ⟨?_, rfl⟩
  exact List.rel_append (List.forall₂_reverse_iff.2 (loopOps ids (each J))) (h.mono more)

/-- An instance is made on both sides. -/
theorem Steps.instantiate {template : String} (word : L.word template) {args args' : List Ty}
    (likes : args.Forall₂ L.ty args') (h : L.Ops I done done') :
    L.Steps I (L.SamePass)
      (do
        let (t, registry) ← Compile.ofExcept
          (← Compile.ask fun s => s.registry.instantiateNamed template args)
        Compile.alter fun s => { s with registry }
        return (.push (.type t) :: done, true))
      (do
        let (t, registry) ← Compile.ofExcept
          (← Compile.ask fun s => s.registry.instantiateNamed template args')
        Compile.alter fun s => { s with registry }
        return (.push (.type t) :: done', true)) := by
  refine of_registry fun c c' p d state ok => ?_
  simp only [Bind.bind, EStateM.bind, Compile.ask] at ok ⊢
  cases made : c.shared.registry.instantiateNamed template args with
  | error f => rw [made] at ok; cases ok
  | ok both =>
    obtain ⟨t, r⟩ := both
    obtain ⟨t', r', made', like, alike⟩ := L.instantiateNamed state.registry word likes made
    rw [made] at ok
    cases ok
    rw [made']
    exact ⟨I, _, r', le_refl I, rfl, rfl, alike, .cons (.push (.type like)) h, rfl⟩

theorem Steps.rewriteOp (fold : Bool) (like : op.Like L.ty L.word I op') (h : L.Ops I done done') :
    L.Steps I (L.SamePass) (Compile.rewriteOp fold done op) (Compile.rewriteOp fold done' op') := by
  have kept : L.Steps I (L.SamePass) (pure (op :: done, false)) (pure (op' :: done', false)) :=
    Agrees.pure ⟨.cons like h, rfl⟩
  have folded {p q : List Op × Bool} (same : L.SamePass I p q) :
      L.Steps I (L.SamePass) (pure (if fold then p else (op :: done, false)))
        (pure (if fold then q else (op' :: done', false))) := by
    cases fold with
    | false => exact kept
    | true => exact Agrees.pure same
  cases like with
  | «for» is =>
    cases is with
    | none => exact loop h fun J l l' is => .for (.some is)
    | some => exact kept
  | «while» is =>
    cases is with
    | none => exact loop h fun J l l' is => .while (.some is)
    | some => exact kept
  | push is => exact folded (mergePush (.push is) (.cons is .nil) h)
  | pushMany are => exact folded (mergePush (.pushMany are) are h)
  | drop n => exact folded (mergeDrop n h)
  | check is =>
    cases is with
    | some => exact kept
    | none =>
      have taken : Option.Rel (fun p q => L.ty p.1 q.1 ∧ L.Ops I p.2 q.2)
          (if fold then Catena.takeType? done else none)
          (if fold then Catena.takeType? done' else none) := by
        cases fold with
        | false => exact .none
        | true => exact takeType? h
      simp only [Compile.rewriteOp]
      generalize (if fold then Catena.takeType? done else none) = a at taken
      generalize (if fold then Catena.takeType? done' else none) = b at taken
      cases taken with
      | none => exact kept
      | some is => exact Agrees.pure ⟨.cons (.check (.some is.1)) is.2, rfl⟩
  | @unparam a b template ids word =>
    intro c c' p d state ok _
    have taken : Option.Rel (fun p q => p.1.Forall₂ L.ty q.1 ∧ L.Ops I p.2 q.2)
        (if fold then Catena.bracketTypes? a [] done else none)
        (if fold then Catena.bracketTypes? b [] done' else none) := by
      cases fold with
      | false => exact .none
      | true => exact bracketTypes? state.registry ids .nil h
    simp only [Compile.rewriteOp] at ok ⊢
    generalize (if fold then Catena.bracketTypes? a [] done else none) = x at taken ok
    generalize (if fold then Catena.bracketTypes? b [] done' else none) = y at taken
    cases taken with
    | none => exact kept c c' p d state ok trivial
    | some is => exact instantiate word is.1 is.2 c c' p d state ok trivial
  | fixed is => cases op <;> first | exact kept | cases is
  | _ => exact kept

theorem Steps.rewrite (fold changed : Bool) (likes : L.Ops I ops ops') (h : L.Ops I done done') :
    L.Steps I (L.SamePass) (Compile.rewrite fold changed done ops)
      (Compile.rewrite fold changed done' ops') := by
  induction ops generalizing I changed done done' ops' with
  | nil =>
    cases likes
    exact Agrees.pure ⟨List.forall₂_reverse_iff.2 h, rfl⟩
  | cons op ops ih =>
    cases likes with
    | cons like likes =>
      rw [Compile.rewrite, Compile.rewrite]
      refine (rewriteOp fold like h).bind fun J (done, merged) (done', merged') more ⟨h, same⟩ => ?_
      dsimp only at h same ⊢
      rw [same]
      exact ih _ (Ops.mono likes more) h

theorem Steps.names (h : L.Ops I ops ops') :
    L.Steps I (fun _ => SameNames L) (Compile.names ops) (Compile.names ops') := by
  rintro c c' _ _ state ⟨⟩ -
  refine ⟨I, _, c', le_refl I, rfl, state, ?_, ?_, fun word => L.types state.registry word⟩
  · have own {fs fs' : List PendingFunc} (h : fs.Forall₂ (PendingFunc.Like L.ty I) fs')
        (name : String) : (fs'.any fun f => f.name == name) = fs.any fun f => f.name == name := by
      induction h with
      | nil => rfl
      | cons head _ ih => rw [List.any_cons, List.any_cons, head.name, ih]
    funext name
    simp only [own state.funcs, L.funcs state.registry name]
  · simp only [namedLabels_eq h, L.labels state.registry]

theorem Steps.rounds (config : CompilerConfig) (left : Nat) (h : L.Ops I ops ops') :
    L.Steps I (L.Ops) (Compile.rounds config left ops) (Compile.rounds config left ops') := by
  induction left generalizing I ops ops' with
  | zero => exact Agrees.fail
  | succ left ih =>
    refine (names h).bind fun J n n' more same => ?_
    obtain ⟨likes, refreshed⟩ := refresh same (h.mono more) .nil
    generalize n.refresh [] ops = p at likes refreshed
    generalize n'.refresh [] ops' = q at likes refreshed
    obtain ⟨ops, changed⟩ := p
    obtain ⟨ops', changed'⟩ := q
    dsimp only at likes refreshed ⊢
    subst refreshed
    refine (rewrite _ _ likes .nil).bind fun K (ops, rewritten) (ops', rewritten') _ ⟨likes, same⟩ => ?_
    dsimp only at likes same ⊢
    subst same
    refine (note _ _ _ _).bind fun M _ _ more _ => ?_
    split
    · exact ih (likes.mono more)
    · exact Agrees.pure (likes.mono more)

/-- Settling corresponding operations makes corresponding operations. -/
theorem Steps.settle (h : L.Ops I ops ops') :
    L.Steps I (L.Ops) (Compile.settle ops) (Compile.settle ops') := by
  have config : L.Steps I (fun _ a b => b = a) (Compile.ask (·.config.compiler))
      (Compile.ask (·.config.compiler)) :=
    ask fun c c' state => congrArg _ state.config
  refine config.bind fun J options options' more same => ?_
  subst same
  refine (ofExcept fun rs ok => addSkips (Ops.mono h more) ok).bind fun K rs rs' more likes => ?_
  exact rounds _ _ (Ops.mono likes more)

end Catena.Likeness

/-! ## Whole texts -/

namespace Catena.Compile

/-- The operations of a text, before they have places. -/
def unplaced (text : String) (base : Nat) : Compile (List Op) := do
  let ts ← tokens text 0
  note .compiler .debug fun _ => s!"compiling {ts.length} tokens at base {base}"
  let _ ← upTo (2 * text.length + 2) none ts
  settle (← get).ops.toList

theorem source_eq (text : String) (base : Nat) : source text base = (do
    let code ← place base (← unplaced text base)
    note .compiler .debug fun _ => s!"compiled {code.ops.length} ops"
    return code) := by
  simp only [source, unplaced, bind_assoc]

theorem keeps_unplaced (text : String) (base : Nat) : Keeps (unplaced text base) := by
  refine (keeps_tokens _ _).bind fun _ => (keeps_note _ _ _).bind fun _ =>
    (keeps_upTo _ _ _).bind fun _ => ?_
  exact fun c => keeps_settle c.ops.toList c

/-- The unit that operations make from `base` on. -/
def placed (base : Nat) (ops : List Op) (c : Compiler) : Code :=
  let p := ({} : Placement).ofOps base ops
  { ops := ops.map p.op
    funcs := c.funcs.map fun f => { f with body := p.body f.body }
    convs := c.convs.map fun f => { f with body := p.body f.body } }

variable {text : String} {base : Nat} {ops : List Op} {c d e : Compiler} {code : Code}

/-- The registry once the labels of the operations are known. -/
def labelled (base : Nat) (ops : List Op) (c : Compiler) : Registry :=
  c.shared.registry.addLabels ((namedLabels ops).map (({} : Placement).ofOps base ops).label)

/-- A text whose operations are made compiles if the names of its labels are free. -/
theorem source_placed (made : unplaced text base c = .ok ops d)
    (free : d.shared.registry.checkLabels (namedLabels ops) = .ok ()) :
    ∃ e, source text base c = .ok (placed base ops d) e ∧
      e.shared.registry = labelled base ops d ∧ e.shared.store = c.shared.store := by
  have kept := keeps_unplaced text base c
  rw [after, made] at kept
  simp only [source_eq, place, Bind.bind, EStateM.bind, made, ask, free]
  refine ⟨_, rfl, ?_, ?_⟩
  · have noted (s : Shared) (level : Log.Level) (target : String) (message : Unit → String) :
        (s.note level target message).registry = s.registry :=
      Run.note_registry s level target message none
    exact (noted _ _ _ _).trans (congrArg (Registry.addLabels · _) (noted _ _ _ _))
  · have noted (s : Shared) (level : Log.Level) (target : String) (message : Unit → String) :
        (s.note level target message).store = s.store := (note_gains s level target message none).store
    exact (noted _ _ _ _).trans ((noted _ _ _ _).trans kept.store)

theorem unplaced_of_source (ok : source text base c = .ok code e) :
    ∃ ops d, unplaced text base c = .ok ops d ∧
      d.shared.registry.checkLabels (namedLabels ops) = .ok () := by
  simp only [source_eq, place, Bind.bind, EStateM.bind, ask] at ok
  cases made : unplaced text base c with
  | error => rw [made] at ok; cases ok
  | ok ops d =>
    rw [made] at ok
    dsimp only at ok
    cases free : d.shared.registry.checkLabels (namedLabels ops) with
    | error => rw [free] at ok; cases ok
    | ok => exact ⟨ops, d, rfl, free⟩

end Catena.Compile

namespace Catena.Likeness

variable {L : Likeness} {I : Ids} {text text' : String}

/-- Texts whose tokens are compiled alike make corresponding operations. -/
theorem unplaced (read : ∀ ts, Token.scan 0 text.toList = .ok ts → ∃ ts',
      Token.scan 0 text'.toList = .ok ts' ∧ Compile.Alike (Compile.formOf L.macros) ts ts')
    (longer : text.length ≤ text'.length) (base base' : Nat) :
    L.Follows I (L.Ops) (Compile.unplaced text base) (Compile.unplaced text' base') := by
  refine (Steps.tokens read).bind fun J ts ts' _ alike => (Steps.note _ _ _ _).bind fun K _ _ _ _ => ?_
  have blocks : Blocks L (Compile.formOf L.macros) (Compile.upTo (2 * text.length + 2))
      (Compile.upTo (2 * text'.length + 2)) := upTo (by omega)
  refine (blocks.follows K none ts ts' (by decide) alike).bind
    (fun _ c => Compile.keeps_settle c.ops.toList c) fun M _ _ _ _ => ?_
  exact fun c c' ops d state ok plain => (Steps.settle state.ops).follows c c' ops d state ok plain

end Catena.Likeness
