import Catena.Proofs.Compiling.Likeness
import Mathlib.Data.List.TakeWhile

/-!
# Types as they are written

A type expression that was read has no names of the kind that instances have (`parse_worded`). So what
it stands for corresponds in engines that are alike, and making it leaves them alike.
-/

namespace Catena.TypeExpr

/-- Every name in the expression is one of the given kind. -/
inductive Worded (word : String → Prop) : TypeExpr → Prop
  | named {name : String} : word name → Worded word (.named name)
  | generic {name : String} {args : List TypeExpr} : word name → (∀ e ∈ args, Worded word e) →
      Worded word (.generic name args)
  | same (n : Nat) : Worded word (.same n)
  | argOf (n k : Nat) : Worded word (.argOf n k)

/-- A name that is read up to a bracket or comma does not look generic. -/
theorem looksGeneric_name (cs : List Char) :
    looksGeneric (String.ofList (cs.takeWhile isNameChar)) = false := by
  rw [looksGeneric, String.toList_ofList]
  split
  next => rfl
  next c ds front =>
    have none : '<' ∉ c :: ds := by
      rw [← front]
      intro inside
      have is : isNameChar '<' = true := List.mem_takeWhile_imp inside
      revert is
      decide
    simp only [List.contains_eq_mem, none, decide_false, Bool.and_false, Bool.false_and]

theorem reference_worded {word : String → Prop} {whole : String} {c : Cursor} {e : TypeExpr} {d}
    (h : reference whole c = .ok (e, d)) : e.Worded word := by
  unfold reference at h
  split at h
  · cases h
  · dsimp only at h
    split at h
    · split at h
      · cases h
      · cases h; exact .argOf _ _
    · cases h; exact .same _

variable {word : String → Prop} {whole : String}

theorem expr_worded (plain : ∀ name, looksGeneric name = false → word name) {n : Nat}
    (each : ∀ c : Cursor, c.rest.length < n → ∀ es d, exprs whole c = .ok (es, d) →
      ∀ e ∈ es, e.Worded word) (c : Cursor) (short : c.rest.length ≤ n) (e : TypeExpr) (d : After c)
    (h : expr whole c = .ok (e, d)) : e.Worded word := by
  rw [expr.eq_def] at h
  split at h
  next => cases h
  next a cs front =>
  split at h
  next =>
    split at h
    next => cases h
    next read => cases h; exact reference_worded read
  next =>
  split at h
  next is =>
    have shorter := skipWhile_name_lt front is
    have name := plain _ (looksGeneric_name c.rest)
    dsimp only at h
    split at h
    next rest behind =>
      rw [behind, List.length_cons] at shorter
      split at h
      next => cases h
      next args d' _ read =>
        have inside := each _ (by simp only; omega) _ _ read
        split at h
        next => cases h; exact .generic name inside
        next => cases h
    next => cases h; exact .named name
  next => cases h

theorem read_worded (plain : ∀ name, looksGeneric name = false → word name) (n : Nat) (c : Cursor)
    (short : c.rest.length < n) (es : List TypeExpr) (d : After c)
    (h : exprs whole c = .ok (es, d)) : ∀ e ∈ es, e.Worded word := by
  induction n generalizing c es d with
  | zero => omega
  | succ n ih =>
    rw [exprs.eq_def] at h
    split at h
    next => cases h
    next e d' closer read =>
    have first := expr_worded plain ih c (Nat.le_of_lt_succ short) _ _ read
    split at h
    next rest behind =>
      split at h
      next => cases h
      next es' _ _ read' =>
        cases h
        rw [behind, List.length_cons] at closer
        have others := ih _ (by simp only; omega) _ _ read'
        exact List.forall_mem_cons.2 ⟨first, others⟩
    next =>
      cases h
      exact List.forall_mem_singleton.2 first

/-- The names in an expression that was read do not look generic. -/
theorem parse_worded (plain : ∀ name, looksGeneric name = false → word name) {e : TypeExpr}
    (h : parse whole = .ok e) : e.Worded word := by
  unfold parse at h
  split at h
  next => cases h
  next read =>
    split at h
    next =>
      cases h
      exact expr_worded plain (fun c short es d => read_worded plain _ c short es d) _ (Nat.le_refl _) _ _ read
    next => cases h

end Catena.TypeExpr

namespace Catena.Likeness

variable {L : Likeness} {I : Ids} {r r' s : Registry}

open TypeExpr (Worded)

/-- A type that is known on one side has one that corresponds on the other. -/
theorem known (h : L.registry I r r') {name : String} (is : L.word name) {t : Ty}
    (found : r.types.find? name = some t) : ∃ t', r'.types.find? name = some t' ∧ L.ty t t' := by
  have like := L.types h is
  rw [found] at like
  generalize r'.types.find? name = found' at like
  cases like with
  | some like => exact ⟨_, rfl, like⟩

mutual

/-- If an expression stands for a type, it stands for a corresponding one on the other side. -/
theorem resolves (r r' s : Registry) (t : Ty) : (e : TypeExpr) → e.Worded L.word →
    L.registry I r r' → e.resolve r = (.ok t, s) →
    ∃ t' s', e.resolve r' = (.ok t', s') ∧ L.ty t t' ∧ L.registry I s s'
  | .named name, .named is, h, ok => by
    rw [TypeExpr.resolve] at ok ⊢
    split at ok
    · rename_i found
      obtain ⟨t', found', like⟩ := known h is found
      obtain ⟨⟨⟩, ⟨⟩⟩ := ok
      rw [found']
      exact ⟨t', r', rfl, like, h⟩
    · cases ok
  | .generic name args, .generic is inside, h, ok => by
    rw [TypeExpr.resolve] at ok ⊢
    split at ok
    · cases ok
    · rename_i ts s₁ each
      obtain ⟨ts', s₁', each', likes, h₁⟩ := resolvesEach r r' s₁ ts args inside h each
      split at ok
      · rename_i made
        obtain ⟨⟨⟩, ⟨⟩⟩ := ok
        obtain ⟨t', s', made', like, h'⟩ := L.instantiateNamed h₁ is likes made
        rw [each']
        dsimp only
        rw [made']
        exact ⟨t', s', rfl, like, h'⟩
      · cases ok
  | .same n, _, _, ok => by rw [TypeExpr.resolve] at ok; cases ok
  | .argOf n k, _, _, ok => by rw [TypeExpr.resolve] at ok; cases ok

theorem resolvesEach (r r' s : Registry) (ts : List Ty) : (es : List TypeExpr) →
    (∀ e ∈ es, e.Worded L.word) → L.registry I r r' → TypeExpr.resolveEach r es = (.ok ts, s) →
    ∃ ts' s', TypeExpr.resolveEach r' es = (.ok ts', s') ∧ ts.Forall₂ L.ty ts' ∧
      L.registry I s s'
  | [], _, h, ok => by
    rw [TypeExpr.resolveEach] at ok ⊢
    obtain ⟨⟨⟩, ⟨⟩⟩ := ok
    exact ⟨[], r', rfl, .nil, h⟩
  | e :: es, worded, h, ok => by
    obtain ⟨first, rest⟩ := List.forall_mem_cons.1 worded
    rw [TypeExpr.resolveEach] at ok ⊢
    split at ok
    · cases ok
    · rename_i t s₁ one
      obtain ⟨t', s₁', one', like, h₁⟩ := resolves r r' s₁ t e first h one
      split at ok
      · cases ok
      · rename_i ts s₂ each
        obtain ⟨⟨⟩, ⟨⟩⟩ := ok
        obtain ⟨ts', s', each', likes, h₂⟩ := resolvesEach s₁ s₁' _ ts es rest h₁ each
        rw [one']
        dsimp only
        rw [each']
        exact ⟨t' :: ts', s', rfl, .cons like likes, h₂⟩

end

namespace Steps

/-- What something makes out of the registry takes its place, and its answer comes next. -/
theorem registry {α : Type} {R : α → α → Prop} {make : Registry → Except Fault α × Registry}
    (h : ∀ r r' s a, L.registry I r r' → make r = (.ok a, s) →
      ∃ b s', make r' = (.ok b, s') ∧ R a b ∧ L.registry I s s') :
    let step : Compile α := do
      let (a, registry) ← Compile.ask fun s => make s.registry
      Compile.alter fun s => { s with registry }
      Compile.ofExcept a
    L.Steps I (fun _ => R) step step := by
  refine of_registry fun c c' a d state ok => ?_
  cases made : make c.shared.registry with
  | mk answer s =>
    simp only [Bind.bind, EStateM.bind, Compile.ask, Compile.alter, made] at ok
    cases answer with
    | error => cases ok
    | ok a =>
      cases ok
      obtain ⟨b, s', made', related, alike⟩ := h _ _ _ _ state.registry made
      refine ⟨I, b, s', le_refl I, ?_, rfl, alike, related⟩
      simp only [Bind.bind, EStateM.bind, Compile.ask, Compile.alter, made']
      rfl

theorem resolve {e : TypeExpr} (worded : e.Worded L.word) :
    L.Steps I (fun _ => L.ty) (Compile.resolve e) (Compile.resolve e) :=
  registry fun r r' s t h ok => resolves r r' s t e worded h ok

theorem toArg {e : TypeExpr} (worded : e.Worded L.word) {a : Arg} (h : L.registry I r r')
    (ok : e.toArg r = (.ok a, s)) :
    ∃ b s', e.toArg r' = (.ok b, s') ∧ a.Like L.ty b ∧ L.registry I s s' := by
  unfold TypeExpr.toArg at ok ⊢
  split at ok
  · cases ok
    exact ⟨_, r', rfl, .refl _, h⟩
  · cases ok
    exact ⟨_, r', rfl, .refl _, h⟩
  · split at ok
    · rename_i made
      cases ok
      obtain ⟨t', s', made', like, h'⟩ := resolves _ _ _ _ e worded h made
      rw [made']
      exact ⟨_, s', rfl, .type like, h'⟩
    · cases ok

theorem argOf {e : TypeExpr} (worded : e.Worded L.word) :
    L.Steps I (fun _ => Arg.Like L.ty) (Compile.argOf e) (Compile.argOf e) :=
  registry fun _ _ _ _ h ok => toArg worded h ok

theorem typeAt (text : String) (pos pos' : Nat) :
    L.Steps I (fun _ => L.ty) (Compile.typeAt text pos) (Compile.typeAt text pos') := by
  refine Agrees.located _ _ ?_
  cases read : TypeExpr.parse text with
  | error f => exact Agrees.fail
  | ok e =>
    exact resolve (TypeExpr.parse_worded (fun _ => L.word_plain) read)

end Steps

end Catena.Likeness
