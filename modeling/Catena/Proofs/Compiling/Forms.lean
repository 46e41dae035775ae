import Catena.Proofs.Compiling.Turns
import Catena.Proofs.Compiling.Types

/-!
# Forms on two engines

Compiling corresponding tokens on engines that are alike makes corresponding operations (`upTo`). There
is one lemma for each form, on the words that it takes and the tokens that it leaves to be compiled.
-/

namespace Catena.Likeness

open Compile (Alike Next Until Level Heads header level? Block Keeps)

variable {L : Likeness} {I : Ids} {α β γ δ : Type} {forms : Token → Option Macro}
  {block block' : Block} {first first' t t' : Token} {ts ts' : List Token}
  {R : List Token → List Token → Prop}

theorem isQuoted_text (same : t.text = t'.text) : t.isQuoted = t'.isQuoted := by
  rw [Token.isQuoted, Token.isQuoted, same]

theorem isBrace_text (same : t.text = t'.text) : t.isBrace = t'.isBrace := by
  rw [Token.isBrace, Token.isBrace, same]

theorem inner_text (same : t.text = t'.text) : t.inner = t'.inner := by
  rw [Token.inner, Token.inner, same]

/-! ## Taking words -/

/-- The same expressions, wherever they are written. -/
def SameExprs (L : Likeness) : List (TypeExpr × Nat) → List (TypeExpr × Nat) → Prop :=
  List.Forall₂ fun p q => q.1 = p.1 ∧ p.1.Worded L.word

namespace Steps

theorem expect (what : String) (h : Next R ts ts') :
    L.Steps I (fun _ p q => p.1.text = q.1.text ∧ R p.2 q.2)
      (Compile.expect first what ts) (Compile.expect first' what ts') := by
  cases h with
  | nil => exact Agrees.fail
  | cons text rest => exact Agrees.pure ⟨text, rest⟩

/-- The tokens of corresponding texts. -/
theorem tokens {text text' : String} {pos pos' : Nat}
    (h : ∀ us, Token.scan pos text.toList = .ok us →
      ∃ us', Token.scan pos' text'.toList = .ok us' ∧ R us us') :
    L.Steps I (fun _ => R) (Compile.tokens text pos) (Compile.tokens text' pos') := by
  refine (note _ _ _ _).bind fun J _ _ _ _ => (ofExcept h).bind fun K us us' _ related => ?_
  exact (note _ _ _ _).bind fun _ _ _ _ _ => Agrees.pure related

theorem mapM {P : α → β → Prop} {Q : γ → δ → Prop} {f : α → Compile γ} {g : β → Compile δ}
    {xs : List α} {ys : List β} (related : xs.Forall₂ P ys)
    (h : ∀ J a b, P a b → L.Steps J (fun _ => Q) (f a) (g b)) :
    L.Steps I (fun _ => List.Forall₂ Q) (xs.mapM f) (ys.mapM g) := by
  induction related generalizing I with
  | nil => exact Agrees.pure .nil
  | cons head _ ih =>
    rw [List.mapM_cons, List.mapM_cons]
    refine (h I _ _ head).bind fun J c d _ like => ih.bind fun K cs ds _ likes => ?_
    exact Agrees.pure (.cons like likes)

theorem signature (h : Until R ")" ts ts') :
    L.Steps I (fun _ p q => SameExprs L p.1 q.1 ∧ R p.2 q.2)
      (Compile.signature first ts) (Compile.signature first' ts') := by
  induction h generalizing I with
  | nil => exact Agrees.fail
  | close text closes rest =>
    rw [Compile.signature, Compile.signature, if_pos closes, if_pos (text ▸ closes)]
    exact Agrees.pure ⟨.nil, rest⟩
  | @more t t' ts ts' text goes _ ih =>
    rw [Compile.signature, Compile.signature, if_neg goes, if_neg (text ▸ goes)]
    have parsed : L.Steps I (fun _ e e' => e' = e ∧ e.Worded L.word)
        (Compile.located t.pos (Compile.ofExcept (TypeExpr.parse t.text)))
        (Compile.located t'.pos (Compile.ofExcept (TypeExpr.parse t'.text))) := by
      rw [← text]
      exact Agrees.located _ _ (ofExcept fun e read =>
        ⟨e, read, rfl, TypeExpr.parse_worded (fun _ => L.word_plain) read⟩)
    refine parsed.bind fun J e e' _ like => ih.bind fun K p q _ rest => ?_
    exact Agrees.pure ⟨.cons like rest.1, rest.2⟩

theorem argAt (arity : Nat) {e : TypeExpr} (worded : e.Worded L.word) (pos pos' : Nat) :
    L.Steps I (fun _ => Arg.Like L.ty) (Compile.argAt arity e pos) (Compile.argAt arity e pos') := by
  have checked : L.Steps I (fun _ _ _ => True) (Compile.checkReference arity e)
      (Compile.checkReference arity e) := by
    unfold Compile.checkReference
    split
    · split
      · exact Agrees.fail
      · exact Agrees.pure trivial
    · split
      · exact Agrees.fail
      · exact Agrees.pure trivial
    · exact Agrees.pure trivial
  exact Agrees.located _ _ (checked.bind fun _ _ _ _ _ => argOf worded)

mutual

/-- The operations that make a type. -/
theorem typeOps (I : Ids) : (e : TypeExpr) → e.Worded L.word →
    L.Steps I (fun _ _ _ => True) (Compile.typeOps e) (Compile.typeOps e)
  | .named name, .named is => by
    rw [Compile.typeOps]
    exact emit (.deref is)
  | .generic name args, .generic is inside => by
    rw [Compile.typeOps]
    refine freshId.bind fun J a b _ ids => (emit (.param ids)).bind fun K _ _ more _ => ?_
    refine (typeOpsEach K args inside).bind fun M _ _ more' _ => ?_
    exact emit (.unparam (more' _ _ (more _ _ ids)) is)
  | .same n, _ => Agrees.fail
  | .argOf n k, _ => Agrees.fail

theorem typeOpsEach (I : Ids) : (es : List TypeExpr) → (∀ e ∈ es, e.Worded L.word) →
    L.Steps I (fun _ _ _ => True) (Compile.typeOpsEach es) (Compile.typeOpsEach es)
  | [], _ => by
    rw [Compile.typeOpsEach]
    exact Agrees.pure trivial
  | e :: es, worded => by
    obtain ⟨first, rest⟩ := List.forall_mem_cons.1 worded
    rw [Compile.typeOpsEach]
    exact (typeOps I e first).bind fun J _ _ _ _ => typeOpsEach J es rest

end

end Steps

/-! ## Blocks and lambdas -/

/-- Where a run of tokens can end: with the source, or with a closing word. -/
def closings : List (Option String) := [none, some ")", some "]", some ";"]

/-- What the two blocks make of tokens that are compiled alike corresponds. -/
structure Blocks (L : Likeness) (forms : Token → Option Macro) (block block' : Block) : Prop where
  keeps : ∀ closing ts, Keeps (block closing ts)
  follows : ∀ I closing ts ts', closing ∈ closings → Alike forms ts ts' →
    L.Follows I (fun _ => Alike forms) (block closing ts) (block' closing ts')

/-- The answers are tokens left over that are compiled alike. -/
abbrev Leaves (L : Likeness) (forms : Token → Option Macro) (I : Ids)
    (x y : Compile (List Token)) : Prop :=
  L.Follows I (fun _ => Alike forms) x y

variable (hb : Blocks L forms block block')
include hb

theorem ownBlock {closing : String} (ends : some closing ∈ closings) {op : Op}
    (fixed : op.isFixed = true) (h : Alike forms ts ts') : L.Leaves forms I (Compile.ownBlock block closing op ts)
      (Compile.ownBlock block' closing op ts') := by
  refine (Steps.emit (.fixed rfl)).bind fun J _ _ _ _ => ?_
  refine (hb.follows J _ _ _ ends h).bind
    (fun _ => (Compile.keeps_emit _).bind fun _ => .pure _) fun K us us' _ left => ?_
  exact (Steps.emit (.fixed fixed)).bind fun _ _ _ _ _ => Agrees.pure left

theorem lambda (name : Option String) (kind : LambdaKind) {closing : Option String}
    (ends : closing ∈ closings) (h : Alike forms ts ts') :
    L.Follows I (fun J p q => p.1.Like J q.1 ∧ Alike forms p.2 q.2)
      (Compile.lambda block name kind closing ts) (Compile.lambda block' name kind closing ts') := by
  refine Steps.freshId.bind fun J a b _ ids => ?_
  have body : LambdaDef.Like J { id := a, name } { id := b, name } := ⟨ids, rfl, rfl⟩
  refine (Steps.emit (.lambda kind body .none)).bind fun K _ _ more _ => ?_
  refine (hb.follows K _ _ _ ends h).bind
    (fun _ => (Compile.keeps_emit _).bind fun _ => .pure _) fun M us us' more' left => ?_
  have body : LambdaDef.Like M { id := a, name } { id := b, name } :=
    body.mono (le_trans more more')
  refine (Steps.emit (.unlambda body.id)).bind fun N _ _ more'' _ => ?_
  exact Agrees.pure ⟨body.mono more'', left⟩

theorem braces (h : ∀ us, Token.scan (t.pos + 1) t.inner = .ok us →
      ∃ us', Token.scan (t'.pos + 1) t'.inner = .ok us' ∧ Alike forms us us') :
    L.Follows I (fun _ _ _ => True) (Compile.braces block t) (Compile.braces block' t') := by
  have read : ∀ us, Token.scan (t.pos + 1) (String.ofList t.inner).toList = .ok us →
      ∃ us', Token.scan (t'.pos + 1) (String.ofList t'.inner).toList = .ok us' ∧
        Alike forms us us' := by
    simpa only [String.toList_ofList] using h
  refine (Steps.tokens read).bind fun J us us' _ alike => ?_
  exact (lambda hb none .closure (by decide) alike).bind (fun _ => .pure _)
    fun _ _ _ _ _ => Agrees.pure trivial

/-! ## Definitions -/

omit hb in
/-- Functions and conversions that become known are gathered on both sides. -/
theorem Steps.gather {f g : Compiler → Compiler} {us us' : List Token} {P : Ids → List Token → List Token → Prop}
    (related : P I us us') (h : ∀ c c', L.State I c c' → L.State I (f c) (g c')) :
    L.Steps I P (fun c => .ok us (f c)) (fun c => .ok us' (g c)) := by
  rintro c c' _ _ state ⟨⟩ -
  exact ⟨I, us', _, le_refl I, rfl, h c c' state, related⟩

variable (sub : ∀ us us', R us us' → Alike forms us us')
include sub

theorem funcBody {name name' : Token} (same : name.text = name'.text)
    (h : Until (Level R) ")" ts ts') : L.Leaves forms I
      (Compile.funcBody block first name ts) (Compile.funcBody block' first' name' ts') := by
  refine (Steps.signature h).bind ?_
  rintro J ⟨exprs, ts⟩ ⟨exprs', ts'⟩ - ⟨likes, rest⟩
  have args : L.Steps J (fun _ => List.Forall₂ (Arg.Like L.ty))
      (exprs.mapM fun e => Compile.argAt exprs.length e.1 e.2)
      (exprs'.mapM fun e => Compile.argAt exprs'.length e.1 e.2) := by
    rw [← likes.length_eq]
    refine Steps.mapM likes ?_
    rintro K ⟨e, pos⟩ ⟨e', pos'⟩ ⟨rfl, worded⟩
    exact Steps.argAt _ worded pos pos'
  have levels : level? ts' = level? ts ∧ Alike forms
      (if (level? ts).isSome then ts.drop 1 else ts)
      (if (level? ts).isSome then ts'.drop 1 else ts') := by
    cases rest with
    | none plain plain' rest =>
      rw [plain, plain']
      exact ⟨rfl, sub _ _ rest⟩
    | @some t t' ts ts' text written rest =>
      have level : level? (t :: ts) = Safety.ofName? t.text := rfl
      rw [level, if_pos written, if_pos written]
      exact ⟨by rw [text]; rfl, sub _ _ rest⟩
  obtain ⟨level, left⟩ := levels
  refine args.bind fun K args args' _ related => ?_
  change L.Agrees L.Plain K _ (Compile.lambda block (some name.text) .body (some ";")
    (if (level? ts).isSome then ts.drop 1 else ts) >>= _)
    (Compile.lambda block' (some name'.text) .body (some ";")
      (if (level? ts').isSome then ts'.drop 1 else ts') >>= _)
  rw [level, ← same]
  refine (lambda hb _ _ (by decide) left).bind (fun _ => .of_same fun _ => rfl) ?_
  rintro M ⟨body, us⟩ ⟨body', us'⟩ - ⟨like, left⟩
  have func : PendingFunc.Like L.ty M ⟨name.text, args, (level? ts).getD .safe, body⟩
      ⟨name.text, args', (level? ts').getD .safe, body'⟩ :=
    ⟨rfl, related, congrArg (·.getD .safe) level, like⟩
  refine (Steps.gather left fun c c' state => ?_).follows
  exact ⟨state.registry, state.config, state.ops, List.rel_append state.funcs (.cons func .nil),
    state.convs⟩

theorem funcForm (h : Heads R (header (some .func)) ts ts') : L.Leaves forms I
    (Compile.funcForm block first ts) (Compile.funcForm block' first' ts') := by
  refine (Steps.expect _ h).bind fun J (name, ts) (name', ts') _ ⟨named, h⟩ => ?_
  refine (Steps.expect _ h).bind fun K (opening, ts) (opening', ts') _ ⟨opens, h⟩ => ?_
  refine Agrees.refuse (fun other => ?_) (funcBody hb sub named h)
  rwa [opens]

theorem bindingForm (h : Heads R (header (some .binding)) ts ts') : L.Leaves forms I
    (Compile.bindingForm block first ts) (Compile.bindingForm block' first' ts') := by
  refine (Steps.expect _ h).bind fun J (name, ts) (name', ts') _ ⟨named, h⟩ => ?_
  refine Agrees.refuse (fun other => ?_) ?_
  · rwa [named, isQuoted_text named, isBrace_text named]
  refine (ownBlock hb (by decide) rfl (sub _ _ h)).bind
    (fun _ => (Compile.keeps_emit _).bind fun _ => .pure _) fun K us us' _ left => ?_
  have bound : Op.Like L.ty L.word K (.bind name.text) (.bind name'.text) := named ▸ .fixed rfl
  exact (Steps.emit bound).bind fun _ _ _ _ _ => Agrees.pure left

theorem convForm (h : Heads R (header (some .conv)) ts ts') : L.Leaves forms I
    (Compile.convForm block first ts) (Compile.convForm block' first' ts') := by
  refine (Steps.expect _ h).bind fun J (source, ts) (source', ts') _ ⟨named, h⟩ => ?_
  refine (Steps.expect _ h).bind fun K (target, ts) (target', ts') _ ⟨named', h⟩ => ?_
  dsimp only at named named' ⊢
  rw [← named, ← named']
  refine (Steps.typeAt _ _ _).bind fun M s s' _ below => ?_
  refine (Steps.typeAt _ _ _).bind fun N t t' _ above => ?_
  rw [L.ty_name below, L.ty_name above]
  refine (lambda hb _ _ (by decide) (sub _ _ h)).bind (fun _ => .of_same fun _ => rfl)
    fun O (body, us) (body', us') _ ⟨like, left⟩ => ?_
  have conv : PendingConv.Like L.ty O ⟨s, t, body⟩ ⟨s', t', body'⟩ := ⟨below, above, like⟩
  refine (Steps.gather left fun c c' state => ?_).follows
  exact ⟨state.registry, state.config, state.ops, state.funcs,
    List.rel_append state.convs (.cons conv .nil)⟩

/-! ## Other forms -/

theorem testForm (h : Heads R (header (some .test)) ts ts') : L.Leaves forms I
    (Compile.testForm block first ts) (Compile.testForm block' first' ts') := by
  refine (Steps.expect _ h).bind fun J (message, ts) (message', ts') _ ⟨named, h⟩ => ?_
  refine Agrees.refuse (fun other => ?_) ?_
  · rwa [isQuoted_text named]
  refine (ownBlock hb (by decide) rfl (sub _ _ h)).bind
    (fun _ => (Compile.keeps_emit _).bind fun _ => .pure _) fun K us us' _ left => ?_
  have closed : Op.Like L.ty L.word K (.closeTest (String.ofList message.inner))
      (.closeTest (String.ofList message'.inner)) := by
    rw [inner_text named]
    exact .fixed rfl
  exact (Steps.emit closed).bind fun _ _ _ _ _ => Agrees.pure left

omit sub in
theorem tryForm (h : Alike forms ts ts') : L.Leaves forms I
    (Compile.tryForm block ts) (Compile.tryForm block' ts') := by
  refine Steps.freshId.bind fun J a b _ ids => ?_
  have done : (Label.fresh "try" a).Like J (Label.fresh "try" b) := .fresh "try" ids
  refine (Steps.emit (.try done)).bind fun K _ _ more _ => ?_
  refine (hb.follows K _ _ _ (by decide) h).bind
    (fun _ => (Compile.keeps_emit _).bind fun _ => (Compile.keeps_emit _).bind fun _ => .pure _)
    fun M us us' more' left => ?_
  refine (Steps.emit (.target (done.mono (le_trans more more')))).bind fun _ _ _ _ _ => ?_
  exact (Steps.emit (.fixed rfl)).bind fun _ _ _ _ _ => Agrees.pure left

omit sub in
theorem unrestrictedForm (h : Alike forms ts ts') : L.Leaves forms I
    (Compile.unrestrictedForm block ts) (Compile.unrestrictedForm block' ts') := by
  refine (Steps.emit (.fixed rfl)).bind fun J _ _ _ _ => ?_
  refine (hb.follows J _ _ _ (by decide) h).bind
    (fun _ => (Compile.keeps_emit _).bind fun _ => .pure _) fun K us us' _ left => ?_
  exact (Steps.emit (.fixed rfl)).bind fun _ _ _ _ _ => Agrees.pure left

omit sub in
theorem deferForm (h : Alike forms ts ts') : L.Leaves forms I
    (Compile.deferForm block ts) (Compile.deferForm block' ts') := by
  refine (lambda hb none .closure (by decide) h).bind
    (fun _ => (Compile.keeps_emit _).bind fun _ => .pure _) fun J (_, us) (_, us') _ ⟨_, left⟩ => ?_
  exact (Steps.emit (.fixed rfl)).bind fun _ _ _ _ _ => Agrees.pure left

omit hb sub in
theorem Steps.exitForm (kind : ExitKind) (word : String) : L.Steps I (fun _ _ _ => True)
    (Compile.exitForm kind word) (Compile.exitForm kind word) :=
  Steps.freshId.bind fun _ _ _ _ ids => Steps.emit (.exit (.exit _ _ ids) .none)

omit hb in
theorem Steps.hostForm (take : Nat) (h : Heads R (List.replicate take .word) ts ts') :
    L.Steps I (fun _ => Alike forms) (Compile.hostForm first take ts)
      (Compile.hostForm first' take ts') := by
  induction take generalizing I ts ts' with
  | zero => exact Agrees.pure (sub _ _ h)
  | succ take ih =>
    refine (Steps.expect _ h).bind fun J (t, ts) (t', ts') _ ⟨named, h⟩ => ?_
    have pushed : Op.Like L.ty L.word J (.push (.str t.text)) (.push (.str t'.text)) :=
      .push (named ▸ .refl _)
    exact (Steps.emit pushed).bind fun _ _ _ _ _ => ih h

/-! ## Structures -/

omit hb sub

/-- Fields of the same names with corresponding types. -/
def SameFields (L : Likeness) : List (String × Ty) → List (String × Ty) → Prop :=
  List.Forall₂ fun f g => g.1 = f.1 ∧ L.ty f.2 g.2

theorem SameFields.names {fs gs : List (String × Ty)} (h : SameFields L fs gs) :
    gs.map (·.1) = fs.map (·.1) := by
  induction h with
  | nil => rfl
  | cons field _ ih => rw [List.map_cons, List.map_cons, ih, field.1]

theorem Steps.fieldType (pos pos' : Nat) (text? : Option String) :
    L.Steps I (fun _ => L.ty) (Compile.fieldType pos text?) (Compile.fieldType pos' text?) := by
  cases text? with
  | none => exact Agrees.pure (L.ty_refl _)
  | some text => exact typeAt text pos pos'

theorem Steps.fields (seen : List String) (h : Until R ";" ts ts') :
    L.Steps I (fun _ p q => SameFields L p.1 q.1 ∧ R p.2 q.2)
      (Compile.fields first seen ts) (Compile.fields first' seen ts') := by
  induction h generalizing I seen with
  | nil => exact Agrees.fail
  | close text closes rest =>
    rw [Compile.fields, Compile.fields, if_pos closes, if_pos (text ▸ closes)]
    exact Agrees.pure ⟨.nil, rest⟩
  | @more t t' ts ts' text goes _ ih =>
    rw [Compile.fields, Compile.fields, if_neg goes, if_neg (text ▸ goes), ← text]
    refine (fieldType _ _ _).bind fun J type type' _ like => ?_
    refine Agrees.refuse id ((ih _).bind ?_)
    rintro K ⟨rest, us⟩ ⟨rest', us'⟩ - ⟨likes, left⟩
    exact Agrees.pure ⟨.cons ⟨rfl, like⟩ likes, left⟩

/-- Functions that the library supplies, of the same names for corresponding types. -/
def SameFuncs (L : Likeness) : (funcs funcs' : List (String × List Arg × Safety × Native)) → Prop :=
  List.Forall₂ fun f g => g.1 = f.1 ∧ f.2.1.Forall₂ (Arg.Like L.ty) g.2.1 ∧ g.2.2.1 = f.2.2.1 ∧
    f.2.2.2.Like L.ty g.2.2.2

theorem sameFuncs {s s' : Ty} {fs gs : List (String × Ty)} (like : L.ty s s')
    (likes : SameFields L fs gs) :
    SameFuncs L (Compile.structFuncs s fs) (Compile.structFuncs s' gs) := by
  have args : (fs.map fun f => Arg.type f.2).Forall₂ (Arg.Like L.ty)
      (gs.map fun f => Arg.type f.2) := by
    rw [List.forall₂_map_left_iff, List.forall₂_map_right_iff]
    exact likes.imp fun _ _ h => .type h.2
  have access (n : Nat) : SameFuncs L
      ((fs.zipIdx n).flatMap fun f => [("." ++ f.1.1, [.type s], .pure, .field f.2),
        ("." ++ f.1.1 ++ "=", [.type s, .type f.1.2], .const, .setField f.2)])
      ((gs.zipIdx n).flatMap fun f => [("." ++ f.1.1, [.type s'], .pure, .field f.2),
        ("." ++ f.1.1 ++ "=", [.type s', .type f.1.2], .const, .setField f.2)]) := by
    clear args
    induction likes generalizing n with
    | nil => exact .nil
    | cons h _ ih =>
      obtain ⟨named, type⟩ := h
      rw [List.zipIdx_cons, List.zipIdx_cons, List.flatMap_cons, List.flatMap_cons]
      refine List.rel_append (.cons ?_ (.cons ?_ .nil)) (ih (n + 1))
      · exact ⟨by rw [named], .cons (.type like) .nil, rfl, .refl _⟩
      · exact ⟨by rw [named], .cons (.type like) (.cons (.type type) .nil), rfl, .refl _⟩
  refine .cons ⟨rfl, ?_, rfl, ?_⟩ (access 0)
  · exact List.rel_append args (.cons (.isType like) .nil)
  · rw [likes.length_eq]
    exact .construct _ like

theorem Steps.addImp (name : String) (safety : Safety) {args args' : List Arg} {f g : Native}
    (related : args.Forall₂ (Arg.Like L.ty) args') (like : f.Like L.ty g) :
    L.Steps I (fun _ _ _ => True)
      (Compile.alter fun s => (s.addImp name args safety (.native f)).2)
      (Compile.alter fun s => (s.addImp name args' safety (.native g)).2) := by
  refine alter fun s s' alike same => ?_
  have added := L.addImp name safety alike related like
  simp only [Shared.addImp, Run.note_registry, (note_gains _ _ _ _ _).config]
  exact ⟨added, same⟩

theorem Steps.addStructFuncs {fs gs : List (String × List Arg × Safety × Native)}
    (h : SameFuncs L fs gs) :
    L.Steps I (fun _ _ _ => True) (Compile.addStructFuncs fs) (Compile.addStructFuncs gs) := by
  induction h generalizing I with
  | nil => exact Agrees.pure trivial
  | @cons f g _ _ h _ ih =>
    obtain ⟨name, args, safety, native⟩ := f
    obtain ⟨_, args', _, native'⟩ := g
    obtain ⟨rfl, related, rfl, like⟩ := h
    exact (addImp _ _ related like).bind fun J _ _ _ _ => ih

/-- A declared type is known under its name, and stands on its own. -/
theorem declareType_known {s s' : Shared} {name : String} {supers : List Ty} {behavior : Behavior}
    {t : Ty} (ok : s.declareType name supers behavior = .ok (t, s')) :
    s.registry.declareType name supers behavior = .ok (t, s'.registry) ∧ s'.config = s.config ∧
      s'.registry.types.find? name = some t ∧ t.template = none := by
  unfold Shared.declareType at ok
  split at ok
  · cases ok
  · rename_i made
    cases ok
    rw [Run.note_registry, (note_gains _ _ _ _ _).config]
    refine ⟨made, rfl, ?_⟩
    unfold Registry.declareType at made
    split at made
    · cases made
    · obtain ⟨rfl, rfl⟩ := Prod.mk.inj (Except.ok.inj made)
      exact ⟨(Dict.find?_insert ..).trans (if_pos rfl), rfl⟩

/-- Declaring a structure type and its functions. -/
def declaring (name : Token) (fs : List (String × Ty)) (ts : List Token) : Compile (List Token) := do
  let (t, shared) ← Compile.located name.pos do
    Compile.ofExcept (← Compile.ask fun s =>
      s.declareType name.text [.struct] (.record name.text (fs.map (·.1))))
  Compile.alter fun _ => shared
  Compile.addStructFuncs (Compile.structFuncs t fs)
  return ts

theorem declaring_ok {name : Token} {fs : List (String × Ty)} {c : Compiler} {s : Ty}
    {shared : Shared}
    (made : c.shared.declareType name.text [.struct] (.record name.text (fs.map (·.1))) =
      .ok (s, shared)) :
    declaring name fs ts c =
      (Compile.addStructFuncs (Compile.structFuncs s fs) >>= fun _ => pure ts)
        { c with shared } := by
  simp only [declaring, Compile.located, Bind.bind, EStateM.bind, Compile.ask, made]
  rfl

theorem declaring_ok_of {name : Token} {fs : List (String × Ty)} {c d : Compiler} {us : List Token}
    (ok : declaring name fs ts c = .ok us d) :
    ∃ s shared, c.shared.declareType name.text [.struct] (.record name.text (fs.map (·.1))) =
      .ok (s, shared) := by
  cases made : c.shared.declareType name.text [.struct] (.record name.text (fs.map (·.1))) with
  | ok both => exact ⟨both.1, both.2, rfl⟩
  | error f =>
    simp only [declaring, Compile.located, Bind.bind, EStateM.bind, Compile.ask, made] at ok
    cases ok

/-- A type is declared on both sides, if not under a name under which types need not correspond. -/
theorem declare {name name' : Token} (named : name.text = name'.text) {fs fs' : List (String × Ty)}
    (fields : SameFields L fs fs') (h : Alike forms ts ts') :
    L.Leaves forms I (declaring name fs ts) (declaring name' fs' ts') := by
  intro c c' us d state ok plain
  obtain ⟨s, shared, made⟩ := declaring_ok_of ok
  rw [declaring_ok made] at ok
  obtain ⟨made', config, found, bare⟩ := declareType_known made
  have word : L.word name.text := by
    have keeps : Keeps (Compile.addStructFuncs (Compile.structFuncs s fs) >>= fun _ => pure ts) :=
      (Compile.keeps_addStructFuncs (Compile.structFuncs_own s fs)).bind fun _ => .pure ts
    have gains := keeps { c with shared }
    rw [Compile.after, ok] at gains
    exact plain.before gains.registry _ _ found bare
  obtain ⟨s', r', made'', like, alike⟩ := L.declareType state.registry word made'
  obtain ⟨shared', made', registry, config'⟩ : ∃ shared', c'.shared.declareType name'.text [.struct]
      (.record name'.text (fs'.map (·.1))) = .ok (s', shared') ∧ shared'.registry = r' ∧
        shared'.config = c'.shared.config := by
    rw [← named, fields.names, Shared.declareType, made'']
    exact ⟨_, rfl, Run.note_registry _ _ _ _ _, (note_gains _ _ _ _ _).config⟩
  have rest : L.Steps I (fun _ => Alike forms)
      (Compile.addStructFuncs (Compile.structFuncs s fs) >>= fun _ => pure ts)
      (Compile.addStructFuncs (Compile.structFuncs s' fs') >>= fun _ => pure ts') :=
    (Steps.addStructFuncs (sameFuncs like fields)).bind fun _ _ _ _ _ => Agrees.pure h
  have state' : L.State I { c with shared } { c' with shared := shared' } :=
    ⟨by rwa [registry], by rw [config', config, state.config], state.ops, state.funcs, state.convs⟩
  rw [declaring_ok made']
  exact rest _ _ _ _ state' ok trivial

theorem structForm (sub : ∀ us us', R us us' → Alike forms us us')
    (h : Heads R (header (some .struct)) ts ts') : L.Leaves forms I
      (Compile.structForm first ts) (Compile.structForm first' ts') := by
  refine (Steps.expect _ h).bind fun J (name, ts) (name', ts') _ ⟨named, h⟩ => ?_
  refine (Steps.fields [] h).bind fun K (fs, us) (fs', us') _ ⟨fields, left⟩ => ?_
  exact declare named fields (sub _ _ left)

/-! ## Tokens -/

theorem Steps.findForm (word : String) :
    L.Steps I (fun J m m' => m = Compile.keyword L.macros word ∧ m' = m ∧
        ∀ op, m = some (.word op) → op.Like L.ty L.word J op)
      (Compile.findForm word) (Compile.findForm word) := by
  refine ask fun c c' state => ?_
  obtain ⟨forms, forms'⟩ := L.forms state.registry
  rw [forms, forms']
  refine ⟨rfl, rfl, fun op is => ?_⟩
  have known : L.macros.find? word = some (.word op) := by
    split at is
    · rename_i found
      rw [found, is]
    · obtain ⟨_, _, taken⟩ := Option.bind_eq_some_iff.1 is
      cases (Option.filter_eq_some_iff.1 taken).2
  exact L.keywords state.registry known

/-- A form on both sides. -/
theorem form (hb : Blocks L (Compile.formOf L.macros) block block')
    (sub : ∀ us us', R us us' → Alike (Compile.formOf L.macros) us us') {m : Macro}
    (text : t.text = t'.text) (h : Heads R (header (some m)) ts ts')
    (keyword : ∀ op, m = .word op → op.Like L.ty L.word I op) :
    L.Leaves (Compile.formOf L.macros) I (Compile.form block t ts m)
      (Compile.form block' t' ts' m) := by
  cases m with
  | func => exact funcForm hb sub h
  | binding => exact bindingForm hb sub h
  | struct => exact structForm sub h
  | conv => exact convForm hb sub h
  | test => exact testForm hb sub h
  | attempt => exact tryForm hb (sub _ _ h)
  | unrestricted => exact unrestrictedForm hb (sub _ _ h)
  | defer => exact deferForm hb (sub _ _ h)
  | word op => exact (Steps.emit (keyword op rfl)).bind fun _ _ _ _ _ => Agrees.pure (sub _ _ h)
  | exit kind =>
    rw [Compile.form, Compile.form, text]
    exact (Steps.exitForm kind _).bind fun _ _ _ _ _ => Agrees.pure (sub _ _ h)
  | host take => exact (Steps.hostForm sub take h).follows

theorem wordOp_like {op : Op} (h : Compile.wordOp t = some (.ok op)) :
    op.Like L.ty L.word I op :=
  Compile.wordOp_cases (A := fun op => op.Like L.ty L.word I op) h (fun _ _ => .target (.refl _)) (fun name => .jump name .none) .ref
    (fun _ => .fixed rfl) (fun _ => .fixed rfl) fun v _ => .push (.refl v)

theorem wordOp_text (same : t.text = t'.text) : Compile.wordOp t = Compile.wordOp t' := by
  rw [Compile.wordOp, Compile.wordOp, isQuoted_text same, same]

/-- Tokens with the same text, whatever they are. -/
theorem token_text (hb : Blocks L (Compile.formOf L.macros) block block')
    (sub : ∀ us us', R us us' → Alike (Compile.formOf L.macros) us us') (text : t.text = t'.text)
    (h : Heads R (header (Compile.formOf L.macros t)) ts ts') :
    L.Leaves (Compile.formOf L.macros) I (Compile.token block t ts)
      (Compile.token block' t' ts') := by
  have brace := isBrace_text text
  have inner := inner_text text
  have words := wordOp_text text
  unfold Compile.token
  rw [← brace, ← words, ← text]
  rw [Compile.formOf] at h
  split
  next is =>
    have h : R ts ts' := by simpa [is, header, Heads] using h
    refine (braces hb fun us read => ?_).bind (fun _ => .pure _)
      fun _ _ _ _ _ => Agrees.pure (sub _ _ h)
    rw [← inner]
    obtain ⟨us', read', same⟩ := Token.scan_elsewhere read (t'.pos + 1)
    exact ⟨us', read', .same same⟩
  next unbraced =>
  split
  next single =>
    have h : R ts ts' := by simpa [single, header, Heads] using h
    exact ownBlock hb (by decide) rfl (sub _ _ h)
  next round =>
  split
  next single =>
    have h : R ts ts' := by simpa [single, header, Heads] using h
    exact ownBlock hb (by decide) rfl (sub _ _ h)
  next square =>
  split
  next => exact Agrees.fail
  next closing =>
  split
  next => exact Agrees.fail
  next semicolon =>
  split
  next op word =>
    have h : R ts ts' := by simpa [word, header, Heads] using h
    cases op with
    | error => exact Agrees.fail
    | ok op => exact (Steps.emit (wordOp_like word)).bind fun _ _ _ _ _ => Agrees.pure (sub _ _ h)
  next wordless =>
  split
  next generic =>
    have h : R ts ts' := by simpa [generic, header, Heads] using h
    cases read : TypeExpr.parse t.text with
    | error => exact Agrees.fail
    | ok e =>
      have worded : e.Worded L.word := TypeExpr.parse_worded (fun _ => L.word_plain) read
      exact (Steps.typeOps I e worded).bind fun _ _ _ _ _ => Agrees.pure (sub _ _ h)
  next plain =>
    have h : Heads R (header (Compile.keyword L.macros t.text)) ts ts' := by
      rw [if_neg ?_] at h
      · exact h
      · simp only [Bool.or_eq_true, decide_eq_true_eq, not_or] at closing
        simp [unbraced, round, square, closing, semicolon, wordless, plain]
    refine (Steps.findForm t.text).bind fun J m m' _ ⟨found, same, keyword⟩ => ?_
    subst same
    rw [← found] at h
    cases m' with
    | some m => exact form hb sub text h fun op is => keyword op (congrArg some is)
    | none =>
      have name : L.word t.text := L.word_plain (eq_false_of_ne_true plain)
      exact (Steps.emit (.deref name)).bind fun _ _ _ _ _ => Agrees.pure (sub _ _ h)

/-- A token and those behind it, and tokens that are compiled alike. -/
theorem token (hb : Blocks L (Compile.formOf L.macros) block block') {us : List Token}
    (h : Alike (Compile.formOf L.macros) (t :: ts) us) :
    ∃ t' ts', us = t' :: ts' ∧ ∀ I, L.Leaves (Compile.formOf L.macros) I (Compile.token block t ts)
        (Compile.token block' t' ts') := by
  cases h with
  | same same =>
    cases same with
    | cons text rest =>
      exact ⟨_, _, rfl, fun I => token_text hb (fun _ _ => .same) text (Compile.heads_same _ rest)⟩
  | form R text heads sub => exact ⟨_, _, rfl, fun I => token_text hb sub text heads⟩
  | @span s s' ts ts' us us' is is' read read' inside left =>
    refine ⟨_, _, rfl, fun I => ?_⟩
    unfold Compile.token
    rw [if_pos is, if_pos is']
    refine (braces hb fun vs reads => ?_).bind (fun _ => .pure _)
      fun _ _ _ _ _ => Agrees.pure left
    obtain rfl : us = vs := Except.ok.inj (read.symm.trans reads)
    exact ⟨us', read', inside⟩

/-- Where tokens that are compiled alike end, they end on both sides. -/
theorem ends_alike {macros : Dict String Macro} {closing : Option String} (ends : closing ∈ closings)
    (h : Alike (Compile.formOf macros) (t :: ts) (t' :: ts')) :
    (closing = some t.text ↔ closing = some t'.text) ∧
      (closing = some t.text → Alike (Compile.formOf macros) ts ts') := by
  have plain {s : Token} (here : closing = some s.text) : s.isBrace = false ∧
      Compile.formOf macros s = none := by
    simp only [closings, List.mem_cons, List.not_mem_nil, or_false] at ends
    rcases ends with rfl | rfl | rfl | rfl
    · cases here
    all_goals
      have text := Option.some.inj here
      constructor
      · rw [Token.isBrace, ← text]
        rfl
      · simp [Compile.formOf, ← text]
  cases h with
  | same same =>
    cases same with
    | cons text rest => exact ⟨by rw [text], fun _ => .same rest⟩
  | form R text heads sub =>
    refine ⟨by rw [text], fun here => sub _ _ ?_⟩
    rwa [(plain here).2] at heads
  | span is is' _ _ _ left =>
    refine ⟨⟨fun here => ?_, fun here => ?_⟩, fun _ => left⟩
    · rw [(plain here).1] at is
      cases is
    · rw [(plain here).1] at is'
      cases is'

/-- Compiling tokens that are alike makes corresponding operations. More fuel makes no difference. -/
theorem upTo {fuel fuel' : Nat} (more : fuel ≤ fuel') :
    Blocks L (Compile.formOf L.macros) (Compile.upTo fuel) (Compile.upTo fuel') := by
  induction fuel generalizing fuel' with
  | zero => exact ⟨Compile.keeps_upTo 0, fun _ _ _ _ _ _ => Agrees.exhausted⟩
  | succ fuel ih =>
    obtain ⟨fuel', rfl⟩ := Nat.exists_eq_add_of_lt more
    have hb : Blocks L (Compile.formOf L.macros) (Compile.upTo fuel) (Compile.upTo (fuel + fuel')) :=
      ih (Nat.le_add_right fuel fuel')
    refine ⟨Compile.keeps_upTo (fuel + 1), fun I closing ts us ends alike => ?_⟩
    cases ts with
    | nil =>
      cases alike with
      | same same =>
        cases same with
        | nil =>
          cases closing with
          | none => exact Agrees.pure (.same .nil)
          | some closing => exact Agrees.fail
    | cons t ts =>
      obtain ⟨t', ts', rfl, agrees⟩ := token hb alike
      obtain ⟨same, behind⟩ := ends_alike ends alike
      rw [Compile.upTo, Compile.upTo]
      by_cases here : closing = some t.text
      · rw [if_pos here, if_pos (same.1 here)]
        exact Agrees.pure (behind here)
      · rw [if_neg here, if_neg (mt same.2 here)]
        refine Follows.bind (Agrees.located _ _ (agrees I)) (fun _ => Compile.keeps_upTo fuel _ _)
          fun J us us' _ left => hb.follows J closing us us' ends left

end Catena.Likeness
