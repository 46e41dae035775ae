import Catena.Proofs.Layout.Settle

/-!
# What merging neighbours leaves

Behind operations that have been rewritten, newest first, an operation rests if it is put there as it
is. Once a sequence has been rewritten all its operations rest, save that a value may come right behind
another one (`rewrite_loose`), since a bracket that is folded makes one. Rewriting it again merges those
values and nothing else (`rewrite_firm`), and after that nothing is rewritten any more (`rewrite_still`).
-/

namespace Catena

/-! ## Operations that rest -/

/-- Whether a drop that comes right behind the operation is merged with it. -/
def Op.isDropped : Op → Bool
  | .push _ | .pushMany _ | .drop _ => true
  | _ => false

/-- The operation pushes these values. -/
inductive Op.Pushes : Op → List Value → Prop
  | one (v : Value) : Pushes (.push v) [v]
  | many (vs : List Value) : Pushes (.pushMany vs) vs

/-- The operation is not one that pushes no values at all. -/
def Op.Full (op : Op) : Prop := op ≠ .pushMany []

/-- Behind these operations, newest first, the operation is put as it is. -/
def Op.Rests (fold : Bool) (done : List Op) : Op → Prop
  | .for none | .while none => False
  | .push _ | .pushMany _ => fold = true → done.head?.any Op.isPush = false
  | .drop n => fold = true → n ≠ 0 ∧ done.head?.any Op.isDropped = false
  | .check none => fold = true → takeType? done = none
  | .unparam id _ => fold = true → bracketTypes? id [] done = none
  | _ => True

/-- Each operation stands to those before it as told; newest first. -/
def Along (P : List Op → Op → Prop) : List Op → Prop
  | [] => True
  | op :: done => P done op ∧ Along P done

/-- All operations rest. -/
abbrev Firm (fold : Bool) : List Op → Prop :=
  Along fun done op => op.Rests fold done

/-- All operations rest, but for those that push. -/
abbrev Loose (fold : Bool) : List Op → Prop :=
  Along fun done op => op.Full ∧ (op.isPush = false → op.Rests fold done)

variable {P : List Op → Op → Prop} {fold : Bool} {op : Op} {done done' ops ops' rest : List Op}

theorem Along.behind (h : Along P (ops ++ done)) : Along P done := by
  induction ops with
  | nil => exact h
  | cons op ops ih => exact ih h.2

theorem Loose.full (h : Loose fold done) : ∀ op ∈ done, op.Full := by
  induction done with
  | nil => nofun
  | cons op done ih => exact List.forall_mem_cons.2 ⟨h.1.1, ih h.2⟩

/-! ## Merging -/

theorem mergePush_rests (vs : List Value) (apart : done.head?.any Op.isPush = false) :
    mergePush op vs done = (op :: done, false) := by
  unfold mergePush
  split
  · cases apart
  · cases apart
  · rfl

theorem absorbDrop_rests {n : Nat} (apart : done.head?.any Op.isDropped = false) :
    absorbDrop n done = (n, done) := by
  cases done with
  | nil => unfold absorbDrop; split <;> simp_all
  | cons op done =>
    unfold absorbDrop
    split
    next none => rw [none]
    split
    next same => cases same; cases apart
    next same => cases same; cases apart
    next same => cases same; cases apart
    next => rfl

theorem mergeDrop_rests {n : Nat} (some : n ≠ 0) (apart : done.head?.any Op.isDropped = false) :
    mergeDrop n done = (.drop n :: done, false) := by
  simp [mergeDrop, absorbDrop_rests apart, some]

theorem absorbDrop_le (n : Nat) (done : List Op) :
    (absorbDrop n done).1 ≤ n ∧ (absorbDrop n done).2.length ≤ done.length := by
  induction done generalizing n with
  | nil => unfold absorbDrop; split <;> simp
  | cons op done ih =>
    have behind {m : Nat} (less : m ≤ n) : (absorbDrop m done).1 ≤ n ∧
        (absorbDrop m done).2.length ≤ done.length + 1 :=
      ⟨Nat.le_trans (ih m).1 less, Nat.le_succ_of_le (ih m).2⟩
    unfold absorbDrop
    split
    next => exact ⟨Nat.zero_le _, Nat.le_refl _⟩
    split
    next same => cases same; exact behind (Nat.sub_le _ _)
    next same =>
      cases same
      split
      · exact behind (Nat.sub_le _ _)
      · exact ⟨Nat.zero_le _, Nat.le_refl _⟩
    next same => cases same; exact ⟨Nat.zero_le _, Nat.le_refl _⟩
    next => exact ⟨Nat.le_refl _, Nat.le_refl _⟩

/-- A push that is not merged has no push before it. -/
theorem mergePush_alone {vs : List Value} (h : (mergePush op vs done).2 = false) :
    done.head?.any Op.isPush = false := by
  unfold mergePush at h
  split at h
  next => cases h
  next => cases h
  next notPush notMany =>
    cases done with
    | nil => rfl
    | cons last done =>
      cases last with
      | push => exact absurd rfl (notPush _ _)
      | pushMany => exact absurd rfl (notMany _ _)
      | _ => rfl

/-- A drop that is not merged has nothing before it that it is merged with. -/
theorem mergeDrop_alone {n : Nat} (h : (mergeDrop n done).2 = false) :
    n ≠ 0 ∧ done.head?.any Op.isDropped = false := by
  have parts : (absorbDrop n done).1 = n ∧
      (if (absorbDrop n done).1 = 0 then (absorbDrop n done).2
        else .drop (absorbDrop n done).1 :: (absorbDrop n done).2).length = done.length + 1 := by
    simpa [mergeDrop] using h
  obtain ⟨left, length⟩ := parts
  have some : n ≠ 0 := by
    rintro rfl
    rw [if_pos left] at length
    have := (absorbDrop_le 0 done).2
    omega
  rw [left, if_neg some, List.length_cons] at length
  refine ⟨some, ?_⟩
  cases done with
  | nil => rfl
  | cons last done =>
    -- what is absorbed takes from the number, or from the operations
    unfold absorbDrop at left length
    rw [if_neg some] at left length
    cases last with
    | push v =>
      have := (absorbDrop_le (n - 1) done).1
      dsimp only at left
      omega
    | pushMany vs =>
      dsimp only at left length
      split at left
      next fits =>
        rw [if_pos fits] at length
        have := (absorbDrop_le (n - vs.length) done).2
        rw [List.length_cons] at length
        omega
      next => exact absurd left.symm some
    | drop m => exact absurd left.symm some
    | _ => rfl

/-! ## After the first rewriting -/

theorem mergePush_loose {vs : List Value} (loose : Loose fold done) (push : op.isPush = true)
    (full : op.Full) : Loose fold (mergePush op vs done).1 := by
  unfold mergePush
  split
  next => exact ⟨⟨nofun, nofun⟩, loose.2⟩
  next prev _ =>
    have some : prev ≠ [] := fun none => loose.1.1 (congrArg _ none)
    exact ⟨⟨by simp [Op.Full, some], nofun⟩, loose.2⟩
  next => exact ⟨⟨full, fun other => absurd push (by simp [other])⟩, loose⟩

theorem absorbDrop_loose (n : Nat) (loose : Loose fold done) : Loose fold (absorbDrop n done).2 ∧
    ((absorbDrop n done).1 ≠ 0 → (absorbDrop n done).2.head?.any Op.isDropped = false) := by
  induction done generalizing n with
  | nil => unfold absorbDrop; split <;> exact ⟨trivial, fun _ => rfl⟩
  | cons op done ih =>
    unfold absorbDrop
    split
    next => exact ⟨loose, fun some => absurd rfl some⟩
    next some =>
      split
      next same => cases same; exact ih _ loose.2
      next same =>
        cases same
        split
        next => exact ih _ loose.2
        next vs more =>
          have kept : vs.take (vs.length - n) ≠ [] := by
            rw [← List.length_pos_iff, List.length_take]
            omega
          exact ⟨⟨⟨by simpa [Op.Full] using kept, nofun⟩, loose.2⟩, fun some => absurd rfl some⟩
      next m same =>
        cases same
        have rests (folds : fold = true) := (loose.1.2 rfl folds).2
        refine ⟨⟨⟨nofun, fun _ folds => ⟨?_, rests folds⟩⟩, loose.2⟩, fun some => absurd rfl some⟩
        omega
      next notPush notMany notDrop =>
        refine ⟨loose, fun _ => ?_⟩
        cases op with
        | push => exact absurd rfl (notPush _ _)
        | pushMany => exact absurd rfl (notMany _ _)
        | drop => exact absurd rfl (notDrop _ _)
        | _ => rfl

theorem mergeDrop_loose (n : Nat) (loose : Loose fold done) : Loose fold (mergeDrop n done).1 := by
  obtain ⟨kept, apart⟩ := absorbDrop_loose n loose
  unfold mergeDrop
  dsimp only
  split
  next => exact kept
  next some => exact ⟨⟨nofun, fun _ _ => ⟨some, apart some⟩⟩, kept⟩

theorem takeType?_loose {t : Ty} (loose : Loose fold done) (h : takeType? done = some (t, rest)) :
    Loose fold rest := by
  unfold takeType? at h
  split at h
  next =>
    obtain ⟨_, -, same⟩ := Option.map_eq_some_iff.1 h
    obtain ⟨-, rfl⟩ := Prod.mk.inj same
    exact loose.2
  next =>
    simp only [Option.bind_eq_bind, Option.bind_eq_some_iff] at h
    obtain ⟨_, -, _, -, same⟩ := h
    obtain ⟨-, rfl⟩ := Prod.mk.inj (Option.some.inj same)
    split
    next => exact loose.2
    next some => exact ⟨⟨by simpa [Op.Full] using some, nofun⟩, loose.2⟩
  next => cases h

namespace Compile

variable {c d : Compiler} {merged changed changed' : Bool}

/-- What rewriting an operation does: it rests, or it is merged with what stands before it, or gets its
final shape. -/
inductive Rewrites (fold : Bool) (c : Compiler) (done : List Op) : Op → List Op → Bool → Compiler → Prop
  | keep {op : Op} : op.Rests fold done → Rewrites fold c done op (op :: done) false c
  | loop {op : Op} {make : Label → Op} :
      (op = .for none ∧ make = fun l => .for (some l)) ∨
        (op = .while none ∧ make = fun l => .while (some l)) →
      Rewrites fold c done op ((loopOps c.shared.registry.nextId make).reverse ++ done) true
        { c with shared := { c.shared with registry := c.shared.registry.freshId.2 } }
  | push {op : Op} {vs : List Value} : op.Pushes vs → fold = true →
      (mergePush op vs done).2 = true → Rewrites fold c done op (mergePush op vs done).1 true c
  | drop {n : Nat} : fold = true → (mergeDrop n done).2 = true →
      Rewrites fold c done (.drop n) (mergeDrop n done).1 true c
  | check {t : Ty} {rest : List Op} : fold = true → takeType? done = some (t, rest) →
      Rewrites fold c done (.check none) (.check (some t) :: rest) true c
  | unparam {id : Nat} {template : String} {args : List Ty} {rest : List Op} {t : Ty} {r : Registry} :
      fold = true → bracketTypes? id [] done = some (args, rest) →
      c.shared.registry.instantiateNamed template args = .ok (t, r) →
      Rewrites fold c done (.unparam id template) (.push (.type t) :: rest) true
        { c with shared := { c.shared with registry := r } }

theorem Rewrites.of_push {vs : List Value} (push : op.Pushes vs)
    (same : (if fold then mergePush op vs done else (op :: done, false)) = (done', merged)) :
    Rewrites fold c done op done' merged c := by
  have rests (apart : fold = true → done.head?.any Op.isPush = false) : op.Rests fold done := by
    cases push <;> exact apart
  split at same
  next folds =>
    cases flag : (mergePush op vs done).2 with
    | true =>
      obtain rfl : (mergePush op vs done).1 = done' := congrArg Prod.fst same
      obtain rfl : true = merged := flag.symm.trans (congrArg Prod.snd same)
      exact .push push folds flag
    | false =>
      have apart := mergePush_alone flag
      rw [mergePush_rests vs apart] at same
      cases same
      exact .keep (rests fun _ => apart)
  next plain =>
    cases same
    exact .keep (rests fun folds => absurd folds plain)

theorem Rewrites.of_drop {n : Nat}
    (same : (if fold then mergeDrop n done else (.drop n :: done, false)) = (done', merged)) :
    Rewrites fold c done (.drop n) done' merged c := by
  split at same
  next folds =>
    cases flag : (mergeDrop n done).2 with
    | true =>
      obtain rfl : (mergeDrop n done).1 = done' := congrArg Prod.fst same
      obtain rfl : true = merged := flag.symm.trans (congrArg Prod.snd same)
      exact .drop folds flag
    | false =>
      obtain ⟨some, apart⟩ := mergeDrop_alone flag
      rw [mergeDrop_rests some apart] at same
      cases same
      exact .keep fun _ => ⟨some, apart⟩
  next plain =>
    cases same
    exact .keep fun folds => absurd folds plain

theorem rewriteOp_cases (ok : rewriteOp fold done op c = .ok (done', merged) d) :
    Rewrites fold c done op done' merged d := by
  unfold rewriteOp at ok
  split at ok
  · cases ok
    exact .loop (.inl ⟨rfl, rfl⟩)
  · cases ok
    exact .loop (.inr ⟨rfl, rfl⟩)
  · obtain ⟨same, rfl⟩ := EStateM.Result.ok.inj ok
    exact .of_push (.one _) same
  · obtain ⟨same, rfl⟩ := EStateM.Result.ok.inj ok
    exact .of_push (.many _) same
  · obtain ⟨same, rfl⟩ := EStateM.Result.ok.inj ok
    exact .of_drop same
  · generalize found : (if fold = true then takeType? done else none) = taken at ok
    cases taken with
    | none =>
      cases ok
      exact .keep fun folds => by rwa [if_pos folds] at found
    | some both =>
      cases ok
      split at found
      next folds => exact .check folds found
      next => cases found
  · rename_i id template
    generalize found : (if fold = true then bracketTypes? id [] done else none) = taken at ok
    cases taken with
    | none =>
      cases ok
      exact .keep fun folds => by rwa [if_pos folds] at found
    | some both =>
      obtain ⟨args, rest⟩ := both
      split at found
      next folds =>
        simp only [Bind.bind, EStateM.bind, ask] at ok
        cases made : c.shared.registry.instantiateNamed template args with
        | error => rw [made] at ok; cases ok
        | ok both =>
          rw [made] at ok
          cases ok
          exact .unparam folds found made
      next => cases found
  · rename_i notFor notWhile notPush notMany notDrop notCheck notUnparam
    cases ok
    refine .keep ?_
    unfold Op.Rests
    split
    · exact notFor rfl
    · exact notWhile rfl
    · exact (notPush _ rfl).elim
    · exact (notMany _ rfl).elim
    · exact (notDrop _ rfl).elim
    · exact (notCheck rfl).elim
    · exact (notUnparam _ _ rfl).elim
    · trivial

/-- An operation that rests is put as it is. -/
theorem rewriteOp_rests (h : op.Rests fold done) (c : Compiler) :
    rewriteOp fold done op c = .ok (op :: done, false) c := by
  have plain {p : List Op × Bool} (folded : fold = true → p = (op :: done, false)) :
      (if fold = true then p else (op :: done, false)) = (op :: done, false) := by
    split
    next folds => exact folded folds
    next => rfl
  cases op with
  | push v => exact congrArg (EStateM.Result.ok · c) (plain fun folds => mergePush_rests [v] (h folds))
  | pushMany vs => exact congrArg (EStateM.Result.ok · c) (plain fun folds => mergePush_rests vs (h folds))
  | drop n =>
    exact congrArg (EStateM.Result.ok · c) (plain fun folds => mergeDrop_rests (h folds).1 (h folds).2)
  | check t? =>
    cases t? with
    | some => rfl
    | none =>
      have none : (if fold = true then takeType? done else none) = none := by
        split
        next folds => exact h folds
        next => rfl
      simp only [rewriteOp, none]
      rfl
  | unparam id template =>
    have none : (if fold = true then bracketTypes? id [] done else none) = none := by
      split
      next folds => exact h folds
      next => rfl
    simp only [rewriteOp, none]
    rfl
  | «for» l? => cases l? <;> first | rfl | exact h.elim
  | «while» l? => cases l? <;> first | rfl | exact h.elim
  | _ => rfl

theorem rewriteOp_loose (loose : Loose fold done) (full : op.Full)
    (ok : rewriteOp fold done op c = .ok (done', merged) d) : Loose fold done' := by
  cases rewriteOp_cases ok with
  | keep rests => exact ⟨⟨full, fun _ => rests⟩, loose⟩
  | loop bare =>
    obtain ⟨-, rfl⟩ | ⟨-, rfl⟩ := bare <;>
      exact ⟨⟨nofun, fun _ => trivial⟩, ⟨nofun, fun _ => trivial⟩, ⟨nofun, fun _ => trivial⟩,
        ⟨nofun, fun _ => trivial⟩, loose⟩
  | push push folds =>
    refine mergePush_loose loose ?_ full
    cases push <;> rfl
  | drop => exact mergeDrop_loose _ loose
  | check folds taken => exact ⟨⟨nofun, fun _ => trivial⟩, takeType?_loose loose taken⟩
  | unparam folds taken made =>
    obtain ⟨old, rfl, -⟩ := bracketTypes?_ok taken
    exact ⟨⟨nofun, nofun⟩, (Along.behind loose).2⟩

theorem rewrite_cons_ok (ok : rewrite fold changed done (op :: ops) c = .ok (ops', changed') d) :
    ∃ done' merged e, rewriteOp fold done op c = .ok (done', merged) e ∧
      rewrite fold (changed || merged) done' ops e = .ok (ops', changed') d := by
  obtain ⟨⟨done', merged⟩, e, first, rest⟩ := bind_ok ok
  exact ⟨done', merged, e, first, rest⟩

/-- Once operations are rewritten, those that do not push rest. -/
theorem rewrite_loose (loose : Loose fold done) (full : ∀ op ∈ ops, op.Full)
    (ok : rewrite fold changed done ops c = .ok (ops', changed') d) : Loose fold ops'.reverse := by
  induction ops generalizing c done changed with
  | nil =>
    cases ok
    rwa [List.reverse_reverse]
  | cons op ops ih =>
    obtain ⟨first, rest⟩ := List.forall_mem_cons.1 full
    obtain ⟨done', merged, e, rewritten, ok⟩ := rewrite_cons_ok ok
    exact ih (rewriteOp_loose loose first rewritten) rest ok

end Compile

/-! ## Values one by one -/

/-- The operations with each value pushed by one of its own; newest first. -/
def flat : List Op → List Op
  | [] => []
  | .pushMany vs :: done => (vs.map .push).reverse ++ flat done
  | op :: done => op :: flat done

theorem flat_cons (other : op.isPush = false) : flat (op :: done) = op :: flat done := by
  cases op <;> first | rfl | cases other

theorem flat_pushed (v : Value) (done : List Op) : flat (.push v :: done) = .push v :: flat done := rfl

theorem flat_mergePush {vs : List Value} (push : op.Pushes vs) :
    flat (mergePush op vs done).1 = flat (op :: done) := by
  have flattened (done : List Op) : flat (op :: done) = (vs.map .push).reverse ++ flat done := by
    cases push <;> rfl
  unfold mergePush
  split
  next prev done => simp [flattened, flat]
  next prev done => simp [flattened, flat]
  next => rfl

/-- Whether the last operation is of a kind can be told when values are pushed one by one. -/
theorem any_flat {p : Op → Bool} (pushes : ∀ v vs, p (.push v) = p (.pushMany vs))
    (full : ∀ op ∈ done, op.Full) : (flat done).head?.any p = done.head?.any p := by
  cases done with
  | nil => rfl
  | cons op done =>
    cases op with
    | pushMany vs =>
      have some : vs ≠ [] := fun none => full _ List.mem_cons_self (congrArg _ none)
      obtain ⟨vs, v, rfl⟩ := List.eq_nil_or_concat vs |>.resolve_left some
      simp [flat, pushes v (vs ++ [v])]
    | _ => rfl

theorem takeType?_flat (full : ∀ op ∈ done, op.Full) :
    takeType? (flat done) = none ↔ takeType? done = none := by
  cases done with
  | nil => rfl
  | cons op done =>
    cases op with
    | pushMany vs =>
      have some : vs ≠ [] := fun none => full _ List.mem_cons_self (congrArg _ none)
      obtain ⟨vs, v, rfl⟩ := List.eq_nil_or_concat vs |>.resolve_left some
      cases type : v.type? <;> simp [flat, takeType?, type]
    | push v => simp [flat, takeType?]
    | _ => rfl

theorem bracketTypes?_values (id : Nat) (args : List Ty) (vs : List Value) (done : List Op) :
    bracketTypes? id args ((vs.map .push).reverse ++ done) =
      (vs.mapM Value.type?).bind fun ts => bracketTypes? id (ts ++ args) done := by
  induction vs generalizing done with
  | nil => rfl
  | cons v vs ih =>
    rw [List.map_cons, List.reverse_cons, List.append_assoc, List.singleton_append, ih, List.mapM_cons]
    cases type : v.type? <;> cases vs.mapM Value.type? <;> simp [bracketTypes?, type]

theorem bracketTypes?_flat (id : Nat) (args : List Ty) (done : List Op) :
    bracketTypes? id args (flat done) = none ↔ bracketTypes? id args done = none := by
  induction done generalizing args with
  | nil => rfl
  | cons op done ih =>
    cases op with
    | pushMany vs =>
      rw [flat, bracketTypes?_values, bracketTypes?]
      cases vs.mapM Value.type? with
      | none => simp
      | some ts => exact ih (ts ++ args)
    | push v =>
      rw [flat_pushed, bracketTypes?, bracketTypes?]
      cases v.type? with
      | none => simp
      | some t => exact ih (t :: args)
    | param p => simp [flat, bracketTypes?]
    | _ => rfl

/-- Whether an operation that pushes nothing rests does not depend on how the values before it are
pushed. -/
theorem Op.Rests.congr (rests : op.Rests fold done) (other : op.isPush = false)
    (same : flat done = flat done') (full : ∀ op ∈ done, op.Full) (full' : ∀ op ∈ done', op.Full) :
    op.Rests fold done' := by
  unfold Op.Rests at rests ⊢
  split
  · exact rests
  · exact rests
  · cases other
  · cases other
  · intro folds
    obtain ⟨some, apart⟩ := rests folds
    refine ⟨some, ?_⟩
    rw [← any_flat (fun _ _ => rfl) full', ← same, any_flat (fun _ _ => rfl) full, apart]
  · intro folds
    rw [← takeType?_flat full', ← same, takeType?_flat full]
    exact rests folds
  · intro folds
    rw [← bracketTypes?_flat, ← same, bracketTypes?_flat]
    exact rests folds
  · trivial

/-! ## After the second rewriting -/

theorem mergePush_full (vs : List Value) (full : ∀ op ∈ done, op.Full) (first : op.Full) :
    ∀ o ∈ (mergePush op vs done).1, o.Full := by
  unfold mergePush
  split
  next => exact List.forall_mem_cons.2 ⟨nofun, (List.forall_mem_cons.1 full).2⟩
  next prev _ =>
    obtain ⟨last, rest⟩ := List.forall_mem_cons.1 full
    have some : prev ≠ [] := fun none => last (congrArg _ none)
    exact List.forall_mem_cons.2 ⟨by simp [Op.Full, some], rest⟩
  next => exact List.forall_mem_cons.2 ⟨first, full⟩

/-- The operation that values are merged into rests where the first of them did. -/
theorem mergePush_firm {vs : List Value} (push : op.Pushes vs)
    (firm : Firm fold done) : Firm fold (mergePush op vs done).1 := by
  cases flag : (mergePush op vs done).2 with
  | false =>
    have apart := mergePush_alone flag
    rw [mergePush_rests vs apart]
    cases push <;> exact ⟨fun _ => apart, firm⟩
  | true =>
    cases done with
    | nil => cases flag
    | cons last done => cases last <;> first | exact firm | cases flag

namespace Compile

variable {c d : Compiler} {merged changed changed' : Bool}

/-- Rewriting again merges values that come right behind one another, after which all operations rest.
Nothing else is rewritten, so the state is as before. -/
theorem rewrite_firm {before : List Op} (loose : Loose fold (ops.reverse ++ before)) (firm : Firm fold done)
    (full : ∀ op ∈ done, op.Full) (same : flat before = flat done) (changed : Bool) (c : Compiler) :
    ∃ ops' changed', rewrite fold changed done ops c = .ok (ops', changed') c ∧ Firm fold ops'.reverse := by
  induction ops generalizing before done changed with
  | nil => exact ⟨_, _, rfl, by rwa [List.reverse_reverse]⟩
  | cons op ops ih =>
    rw [List.reverse_cons, List.append_assoc, List.singleton_append] at loose
    obtain ⟨⟨first, rests⟩, rest⟩ := loose.behind
    have kept (rests : op.Rests fold done) (flattened : flat (op :: before) = flat (op :: done)) :
        ∃ ops' changed', rewrite fold changed done (op :: ops) c = .ok (ops', changed') c ∧
          Firm fold ops'.reverse := by
      simp only [rewrite, Bind.bind, EStateM.bind, rewriteOp_rests rests]
      have firm : Firm fold (op :: done) := ⟨rests, firm⟩
      exact ih loose firm (List.forall_mem_cons.2 ⟨first, full⟩) flattened _
    have pushed {vs : List Value} (push : op.Pushes vs)
        (flattened : flat (op :: before) = flat (op :: done)) :
        ∃ ops' changed', rewrite fold changed done (op :: ops) c = .ok (ops', changed') c ∧
          Firm fold ops'.reverse := by
      have merges (folds : fold = true) : rewriteOp fold done op c = .ok (mergePush op vs done) c := by
        cases push <;> rw [folds] <;> rfl
      by_cases folds : fold = true
      · simp only [rewrite, Bind.bind, EStateM.bind, merges folds]
        exact ih loose (mergePush_firm push firm) (mergePush_full vs full first)
          (flattened.trans (flat_mergePush push).symm) _
      · refine kept ?_ flattened
        cases push <;> exact fun fold => absurd fold folds
    cases push : op.isPush with
    | false =>
      refine kept ((rests push).congr push same (Loose.full rest) full) ?_
      rw [flat_cons push, flat_cons push, same]
    | true =>
      cases op with
      | push v => exact pushed (.one v) (congrArg (Op.push v :: ·) same)
      | pushMany vs => exact pushed (.many vs) (congrArg ((vs.map Op.push).reverse ++ ·) same)
      | _ => cases push

/-- Where all operations rest, nothing is rewritten. -/
theorem rewrite_still (firm : Firm fold (ops.reverse ++ done)) (changed : Bool) (c : Compiler) :
    rewrite fold changed done ops c = .ok (done.reverse ++ ops, changed) c := by
  induction ops generalizing done changed with
  | nil => rw [List.append_nil]; rfl
  | cons op ops ih =>
    rw [List.reverse_cons, List.append_assoc, List.singleton_append] at firm
    simp only [rewrite, Bind.bind, EStateM.bind, rewriteOp_rests firm.behind.1]
    rw [ih firm, Bool.or_false, List.reverse_cons, List.append_assoc, List.singleton_append]

theorem rewrite_changed (ok : rewrite fold true done ops c = .ok (ops', changed') d) : changed' = true := by
  induction ops generalizing c done with
  | nil => cases ok; rfl
  | cons op ops ih =>
    obtain ⟨_, _, _, -, ok⟩ := rewrite_cons_ok ok
    exact ih ok

/-- If nothing has been rewritten, all operations rest. -/
theorem firm_of_unchanged (firm : Firm fold done)
    (ok : rewrite fold changed done ops c = .ok (ops', false) d) :
    Firm fold (ops.reverse ++ done) := by
  induction ops generalizing c done changed with
  | nil => exact firm
  | cons op ops ih =>
    obtain ⟨done', merged, e, first, ok⟩ := rewrite_cons_ok ok
    rw [List.reverse_cons, List.append_assoc, List.singleton_append]
    cases rewriteOp_cases first with
    | keep rests =>
      have firm : Firm fold (op :: done) := ⟨rests, firm⟩
      exact ih firm ok
    | _ =>
      rw [Bool.or_true] at ok
      cases rewrite_changed ok

end Compile

end Catena
