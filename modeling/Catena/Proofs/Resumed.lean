import Catena.Proofs.Hygiene
import Catena.Proofs.Resume

/-!
# The variables of a lambda that goes on

A lambda that is left in the middle takes its variables along, but for those that scopes of another
safety level bound: what these scopes hid comes back. What they hid is undone on the variables in force,
by name. If the scopes of other levels are the innermost ones and blocks, that is as if they were closed.
If there is a scope of the lambda's own level, or a call, further in, it is not: a variable bound there
under one of these names is lost, and a call that returns brings the variables of its caller back as
they were, those of other levels with them (`Reached.resumed_variables`).
-/

namespace Catena

namespace Scope

/-- What a name stood for when the scope first bound it, if it did. -/
def hid? (s : Scope) (name : String) : Option (Option Value) :=
  s.bound.reverse.findSome? fun b => if b.1 = name then some b.2 else none

theorem find?_unbind (s : Scope) (env : Env) (name : String) :
    (s.unbind env).find? name = (s.hid? name).getD (env.find? name) := by
  unfold unbind hid?
  generalize s.bound = bound
  induction bound generalizing env with
  | nil => rfl
  | cons entry older ih =>
    rw [List.foldl_cons, ih, List.reverse_cons, List.findSome?_append]
    cases older.reverse.findSome? fun b => if b.1 = name then some b.2 else none with
    | some first => rfl
    | none =>
      obtain ⟨bound, hidden⟩ := entry
      by_cases same : bound = name <;> cases hidden <;>
        simp [same, Dict.find?_insert, Dict.find?_erase]

/-- Of several scopes it is the outermost that tells what a name stood for before them. -/
theorem find?_foldr_unbind (scopes : List Scope) (env : Env) (name : String) :
    (scopes.foldr unbind env).find? name = (scopes.findSome? (·.hid? name)).getD (env.find? name) := by
  induction scopes with
  | nil => rfl
  | cons s inner ih =>
    rw [List.foldr_cons, find?_unbind, List.findSome?_cons]
    cases s.hid? name with
    | some first => rfl
    | none => exact ih

/-- Bindings that are undone twice are undone. -/
theorem foldr_unbind_twice (scopes : List Scope) (env : Env) :
    Env.Same (scopes.foldr unbind (scopes.foldr unbind env)) (scopes.foldr unbind env) := by
  intro name
  simp only [find?_foldr_unbind]
  cases scopes.findSome? (·.hid? name) with
  | some first => rfl
  | none => rfl

/-- Blocks leave what is left when their bindings are undone. -/
theorem foldr_leave_blocks {scopes : List Scope} (blocks : ∀ s ∈ scopes, s.callerEnv = none) (env : Env) :
    scopes.foldr leave env = scopes.foldr unbind env := by
  induction scopes with
  | nil => rfl
  | cons s inner ih =>
    have block := blocks s List.mem_cons_self
    rw [List.foldr_cons, List.foldr_cons, ih fun s member => blocks s (List.mem_cons_of_mem _ member),
      leave, block]

end Scope

namespace Thread

variable {t u : Thread} {i k : Nat} {head : Scope}

theorem drop_parts (scopes : List Scope) (le : i ≤ k) :
    scopes.drop i = (scopes.take k).drop i ++ scopes.drop k := by
  obtain ⟨n, rfl⟩ := Nat.exists_eq_add_of_le le
  rw [List.drop_take, Nat.add_sub_cancel_left, ← List.drop_drop, List.take_append_drop]

theorem keptEnv_eq_foldr (env : Env) (head : Scope) (scopes : Array Scope) :
    keptEnv env head scopes =
      (scopes.toList.filter fun s => s.safety ≠ head.safety).foldr Scope.unbind env := by
  rw [keptEnv, List.foldl_reverse]
  induction scopes.toList with
  | nil => rfl
  | cons s inner ih =>
    rw [List.foldr_cons, List.filter_cons, ih]
    by_cases same : s.safety = head.safety <;> simp [same]

/-- From scope `i`, which is `head`, to scope `k` all have the level of `head`, and from there on they
are blocks of other levels. -/
structure Layered (t : Thread) (i k : Nat) (head : Scope) : Prop where
  le : i ≤ k
  lower : ∀ s ∈ (t.scopes.toList.take k).drop i, s.safety = head.safety
  upper : ∀ s ∈ t.scopes.toList.drop k, s.safety ≠ head.safety ∧ s.callerEnv = none

theorem Layered.filter (layered : t.Layered i k head) :
    ((t.scopes.toList.drop i).filter fun s => s.safety ≠ head.safety) = t.scopes.toList.drop k := by
  rw [drop_parts _ layered.le, List.filter_append]
  have none : (((t.scopes.toList.take k).drop i).filter fun s => s.safety ≠ head.safety) = [] := by
    simpa [List.filter_eq_nil_iff] using layered.lower
  have all : ((t.scopes.toList.drop k).filter fun s => s.safety ≠ head.safety) = t.scopes.toList.drop k := by
    simpa [List.filter_eq_self] using fun s member => (layered.upper s member).1
  rw [none, all, List.nil_append]

theorem Layered.keptEnv_eq_under (layered : t.Layered i k head) :
    keptEnv t.env head (t.scopes.extract i t.scopes.size) = t.under k := by
  rw [keptEnv_eq_foldr, extract_upper, layered.filter, under,
    Scope.foldr_leave_blocks fun s member => (layered.upper s member).2]

/-- The variables of thread `v`, which has, on top of `base` scopes, what thread `t` had from scope `i`
on, which is `head`. -/
structure Resumes (t : Thread) (i : Nat) (head : Scope) (base : Nat) (v : Thread) : Prop where
  /-- A variable is again what it was when a scope of another level first bound it. If none did, it is
  what it was. -/
  inForce : ∀ name, v.env.find? name =
    (((t.scopes.toList.drop i).filter fun s => s.safety ≠ head.safety).findSome? (·.hid? name)).getD
      (t.env.find? name)
  /-- If the scopes of other levels are the innermost ones and blocks, it is as if they had been closed,
  and stays so when they and others are closed. -/
  closing : ∀ k, t.Layered i k head → v.env = t.under k ∧
    ∀ j, i < j → j ≤ k → Env.Same (v.under (base + (j - i))) (t.under j)
  /-- When a call that is further in has returned, all variables are as if there had been nothing. -/
  returning : ∀ j k s, i < k → k ≤ j → t.scopes[j]? = some s → s.callerEnv.isSome →
    v.under (base + (k - i)) = t.under k

/-- What closing scopes further in leaves of the variables that were taken along. -/
theorem graft_cut_under (found : t.scopes[i]? = some head) (lambda retPc : Nat) (fiber : Option Ref)
    (above : i < k) : (u.graft (t.cut i head lambda).1 retPc fiber).under (u.scopes.size + (k - i)) =
      (t.scopes.toList.drop k).foldr Scope.leave
        (keptEnv t.env head (t.scopes.extract i t.scopes.size)) := by
  rw [under, graft_upper u _ retPc fiber (by omega), cut_upper found lambda above]
  rfl

theorem foldr_leave_called {j : Nat} {s : Scope} (le : k ≤ j) (found : t.scopes[j]? = some s)
    (called : s.callerEnv.isSome) (a b : Env) :
    (t.scopes.toList.drop k).foldr Scope.leave a = (t.scopes.toList.drop k).foldr Scope.leave b := by
  obtain ⟨env, caller⟩ := Option.isSome_iff_exists.1 called
  have same (a : Env) := ({ t with env := a } : Thread).under_parts le
  have left (a : Env) := under_caller (t := { t with env := a }) found caller
  have lhs := same a
  have rhs := same b
  rw [left] at lhs rhs
  exact lhs.trans rhs.symm

theorem graft_resumes (found : t.scopes[i]? = some head) (lambda retPc : Nat) (fiber : Option Ref) :
    t.Resumes i head u.scopes.size (u.graft (t.cut i head lambda).1 retPc fiber) where
  inForce := fun name => by
    have env : (u.graft (t.cut i head lambda).1 retPc fiber).env =
      keptEnv t.env head (t.scopes.extract i t.scopes.size) := rfl
    rw [env, keptEnv_eq_foldr, extract_upper, Scope.find?_foldr_unbind]
  closing := fun k layered => by
    refine ⟨layered.keptEnv_eq_under, fun j above le => ?_⟩
    rw [graft_cut_under found lambda retPc fiber above, layered.keptEnv_eq_under, t.under_parts le]
    have blocks := fun s member => (layered.upper s member).2
    rw [drop_parts t.scopes.toList le, List.foldr_append]
    apply foldr_leave_same
    rw [under, Scope.foldr_leave_blocks blocks, Scope.foldr_leave_blocks blocks]
    exact Scope.foldr_unbind_twice _ _
  returning := fun j k s above le inside called => by
    rw [graft_cut_under found lambda retPc fiber above]
    exact foldr_leave_called le inside called _ _

end Thread

/-- When a lambda that was left in the middle goes on, its variables are those it had, with what scopes of
other levels hid brought back by name. -/
theorem Reached.resumed_variables {kind : Watch → Prop} {m n : Machine} (h : Reached kind m) {depth : Nat}
    {c : Control} (left : Run.suspend depth m = .ok c n) :
    ∃ i head callee, m.thread.lambdaScope? depth = some i ∧ m.thread.scopes[i]? = some head ∧
      head.callee = some callee ∧
      (head.fiber = none → ∀ (p : Machine) (d : Closure) safety retPc,
        d.body.id = callee.body.id →
        p.thread.coros.find? d.body.id = n.thread.coros.find? d.body.id →
        p.Takes (m.thread.scopes.size - i) →
        ∃ q, Run.enterLambda d safety retPc p = .ok (.jump (m.thread.pc + 1)) q ∧
          m.thread.Resumes i head p.thread.scopes.size q.thread) ∧
      (∀ f, head.fiber = some f → ∀ (p : Machine) retPc,
        p.shared.store.fibers[f]? = n.shared.store.fibers[f]? →
        p.Takes (m.thread.scopes.size - i) →
        ∃ q, Run.enterFiber f retPc p = .ok (.control (.jump (m.thread.pc + 1))) q ∧
          m.thread.Resumes i head p.thread.scopes.size q.thread) := by
  rcases Run.suspend_cases depth m with ⟨f, failed⟩ |
    ⟨i, head, callee, s, at_, -, found, called, drift, -, done⟩
  · rw [failed] at left
    cases left
  rw [done] at left
  have size : (m.thread.cut i head callee.body.id).1.scopes.size = m.thread.scopes.size - i := by
    simp [Thread.cut]
  refine ⟨i, head, callee, at_, found, called, fun alone p d safety retPc same kept takes => ?_,
    fun f runs p retPc kept takes => ?_⟩
  · rw [alone] at left
    cases left
    have stored : p.thread.coros.find? d.body.id = some (m.thread.cut i head callee.body.id).1 := by
      rw [kept, same, Dict.find?_insert]
      exact if_pos rfl
    obtain ⟨s, goesOn⟩ := Run.enterLambda_ok safety retPc stored (size.symm ▸ takes)
    exact ⟨_, goesOn, Thread.graft_resumes
      (u := { p.thread with coros := p.thread.coros.erase d.body.id }) found _ retPc none⟩
  · rw [runs] at left
    cases left
    have there : f < s.store.fibers.size := by
      rw [drift.fibers]
      exact h.fibered.thread head (Array.mem_of_getElem? found) f runs
    have stored : p.shared.store.fibers[f]? = some
        { s.store.fibers[f] with state := .suspended (m.thread.cut i head callee.body.id).1 } := by
      rw [kept]
      simp only [Machine.alterFibers, Array.getElem?_modify, if_true,
        Array.getElem?_eq_getElem there, Option.map_some]
    obtain ⟨s, -, goesOn⟩ := Run.enterFiber_ok retPc stored rfl (size.symm ▸ takes)
    exact ⟨_, goesOn, Thread.graft_resumes found _ retPc (some f)⟩

/-- A lambda that is about to be left from inside a function. It has called the function from a block of
another level, and all three have bound one name. -/
def Machine.shaded : Machine :=
  let text := "func: f (I64) drop let: x 5 ; yield1 $x ; " ++
    "let: g \x7b let: x 1 ; unsafe: let: x 7 ; 0 f ; \x7d ; $g call"
  (Watch.idle.runUntil 6).after ((Run.compile text).after (Engine.new {} .silent {}))

/-- The function loses its variable, and when it returns that of the block is there again. -/
theorem Reached.resumed_variables_shaded : ∃ head callee q,
    Machine.shaded.thread.scopes[1]? = some head ∧ head.callee = some callee ∧
      Run.enterLambda callee .safe 0 ((Run.suspend 1).after .shaded) =
        .ok (.jump (Machine.shaded.thread.pc + 1)) q ∧
      Machine.shaded.thread.Resumes 1 head 1 q.thread ∧
      (Machine.shaded.thread.env.find? "x").bind Value.int? = some 5 ∧
      (q.thread.env.find? "x").bind Value.int? = some 1 ∧
      ((q.thread.under 3).find? "x").bind Value.int? = some 7 := by
  have reached : Reached anyWatch .shaded := .run .idle 6 trivial (.compile _ (.new ..))
  have facts : ((Run.suspend 1).answer? .shaded).isSome = true ∧
      Machine.shaded.thread.lambdaScope? 1 = some 1 ∧
      Machine.shaded.thread.scopes[1]?.map (fun s => (s.fiber.isNone, s.safety)) = some (true, .safe) ∧
      (Machine.shaded.thread.env.find? "x").bind Value.int? = some 5 ∧
      ((((Machine.shaded.thread.scopes.toList.drop 1).filter fun s => s.safety ≠ .safe).findSome?
        (·.hid? "x")).getD (Machine.shaded.thread.env.find? "x")).bind Value.int? = some 1 ∧
      (Machine.shaded.thread.scopes[3]?.bind (·.callerEnv)).isSome = true ∧
      ((Machine.shaded.thread.under 3).find? "x").bind Value.int? = some 7 ∧
      ((Run.suspend 1).after .shaded).thread.scopes.size = 1 ∧
      ((Run.suspend 1).after .shaded).thread.scopes.size + (Machine.shaded.thread.scopes.size - 1) ≤
        ((Run.suspend 1).after .shaded).shared.config.limits.maxScopeDepth ∧
      ((Run.suspend 1).after .shaded).thread.valueStacks.size ≠ 0 := by decide +kernel
  obtain ⟨answers, first, head', before, hidden, inner, under, base, room, stack⟩ := facts
  obtain ⟨c, left⟩ := Option.isSome_iff_exists.1 answers
  obtain ⟨i, head, callee, at_, found, called, goesOn, -⟩ :=
    reached.resumed_variables (Run.answer?_eq_some left)
  obtain rfl := Option.some.inj (first.symm.trans at_)
  obtain ⟨head_, found_, same⟩ := Option.map_eq_some_iff.1 head'
  obtain rfl := Option.some.inj (found_.symm.trans found)
  obtain ⟨plain, safe⟩ := Prod.mk.inj same
  obtain ⟨q, done, resumes⟩ :=
    goesOn (Option.isNone_iff_eq_none.1 plain) _ callee .safe 0 rfl rfl ⟨room, stack⟩
  rw [base] at resumes
  refine ⟨head_, callee, q, found, called, done, resumes, before, ?_, ?_⟩
  · rw [resumes.inForce "x", safe]
    exact hidden
  · obtain ⟨env, caller⟩ := Option.isSome_iff_exists.1 inner
    obtain ⟨s, function, caller⟩ := Option.bind_eq_some_iff.1 caller
    rw [resumes.returning 3 3 s (by decide) (by decide) function (Option.isSome_of_eq_some caller)]
    exact under

end Catena
