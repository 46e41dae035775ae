import Catena.Proofs.Resume

/-!
# What a scope leaves behind

The variables that come back when scopes are closed can be read off the thread at any time
(`Thread.under`). No act of a run changes what is to come back below a scope that is open, and a scope
that opens sets aside the variables in force (`Act.keeps_under`). So a scope that is closed, or left in
the middle with all that is above it, leaves the variables as it found them.
-/

namespace Catena

/-- The same names stand for the same values. -/
def Env.Same (env env' : Env) : Prop := ∀ name, env.find? name = env'.find? name

namespace Env.Same

variable {a b c : Env}

theorem trans (h : Same a b) (k : Same b c) : Same a c := fun name => (h name).trans (k name)

theorem insert (h : Same a b) (name : String) (v : Value) : Same (a.insert name v) (b.insert name v) :=
  fun other => by rw [Dict.find?_insert, Dict.find?_insert, h other]

theorem erase (h : Same a b) (name : String) : Same (a.erase name) (b.erase name) :=
  fun other => by rw [Dict.find?_erase, Dict.find?_erase, h other]

end Env.Same

namespace Scope

/-- The variables that the closing of the scope leaves. -/
def leave (s : Scope) (env : Env) : Env :=
  match s.callerEnv with
  | some env => env
  | none => s.unbind env

theorem unbind_same (s : Scope) {a b : Env} (h : Env.Same a b) : Env.Same (s.unbind a) (s.unbind b) := by
  unfold unbind
  generalize s.bound = bound
  induction bound generalizing a b with
  | nil => exact h
  | cons entry rest ih =>
    obtain ⟨name, hidden | v⟩ := entry
    · exact ih (h.erase name)
    · exact ih (h.insert name v)

theorem leave_same (s : Scope) {a b : Env} (h : Env.Same a b) : Env.Same (s.leave a) (s.leave b) := by
  unfold leave
  cases s.callerEnv with
  | some env => exact fun _ => rfl
  | none => exact s.unbind_same h

/-- What a scope leaves does not depend on where it works, nor on its loops and deferred calls. -/
theorem leave_congr {s s' : Scope} (caller : s'.callerEnv = s.callerEnv) (bound : s'.bound = s.bound) :
    s'.leave = s.leave := by
  unfold leave unbind
  rw [caller, bound]

theorem leave_calm (s : Scope) : s.calm.leave = s.leave := leave_congr rfl rfl

/-- A variable that was bound last is gone first. -/
theorem leave_bound (s : Scope) (env : Env) (name : String) (v : Value) :
    Env.Same ({ s with bound := (name, env.find? name) :: s.bound }.leave (env.insert name v))
      (s.leave env) := by
  unfold leave
  cases s.callerEnv with
  | some caller => exact fun _ => rfl
  | none =>
    refine s.unbind_same fun other => ?_
    dsimp only
    cases hidden : env.find? name with
    | some w =>
      rw [Dict.find?_insert, Dict.find?_insert]
      split
      · rename_i same; rw [← same, hidden]
      · rfl
    | none =>
      rw [Dict.find?_erase, Dict.find?_insert]
      split
      · rename_i same; rw [← same, hidden]
      · rfl

end Scope

namespace Thread

/-- The variables that will be in force once scope `i` and all above it are closed. -/
def under (t : Thread) (i : Nat) : Env :=
  (t.scopes.toList.drop i).foldr Scope.leave t.env

variable {t t' : Thread} {i k : Nat}

theorem under_size (t : Thread) : t.under t.scopes.size = t.env := by
  rw [under, List.drop_of_length_le (by rw [Array.length_toList])]
  rfl

/-- Scopes that are opened set the variables in force aside. -/
theorem under_append {upper : List Scope} (scopes : t'.scopes.toList = t.scopes.toList ++ upper)
    (env : upper.foldr Scope.leave t'.env = t.env) (le : i ≤ t.scopes.size) :
    t'.under i = t.under i := by
  rw [under, scopes, List.drop_append_of_le_length (by rwa [Array.length_toList]), List.foldr_append,
    env, under]

/-- A scope that opens sets the variables in force aside. -/
theorem under_push {s : Scope} (scopes : t'.scopes = t.scopes.push s) (env : s.leave t'.env = t.env)
    (le : i ≤ t.scopes.size) : t'.under i = t.under i := by
  have appended : t'.scopes.toList = t.scopes.toList ++ [s] := by rw [scopes, Array.toList_push]
  exact under_append appended env le

/-- The closing of scopes down to `i` comes past `k`. -/
theorem under_parts (t : Thread) (le : i ≤ k) :
    t.under i = ((t.scopes.toList.take k).drop i).foldr Scope.leave (t.under k) := by
  have upper : t.scopes.toList.drop k = (t.scopes.toList.drop i).drop (k - i) := by
    rw [List.drop_drop, Nat.add_sub_cancel' le]
  rw [under, under, ← List.foldr_append, upper, List.drop_take, List.take_append_drop]

/-- Scopes that are closed give back what they set aside. -/
theorem under_take (scopes : t'.scopes.toList = t.scopes.toList.take k) (env : t'.env = t.under k)
    (le : i ≤ k) : t'.under i = t.under i := by
  rw [t.under_parts le, under, scopes, env]

theorem foldr_leave_same (scopes : List Scope) {a b : Env} (h : Env.Same a b) :
    Env.Same (scopes.foldr Scope.leave a) (scopes.foldr Scope.leave b) := by
  induction scopes with
  | nil => exact h
  | cons s rest ih => exact s.leave_same ih

theorem Calm.under (h : t.Calm t') (i : Nat) : t'.under i = t.under i := by
  have calm (t : Thread) :
      t.under i = ((t.scopes.map Scope.calm).toList.drop i).foldr Scope.leave t.env := by
    rw [Thread.under, Array.toList_map, ← List.map_drop, List.foldr_map]
    exact congrArg (fun f => List.foldr f t.env _) (funext fun s => (Scope.leave_calm s).symm)
  rw [calm, calm t, h.scopes, h.env]

/-- The topmost scope is changed, and the variables along with it. -/
theorem under_top {lower : Array Scope} {s s' : Scope} (scopes : t.scopes = lower.push s)
    (scopes' : t'.scopes = lower.push s') (leaves : Env.Same (s'.leave t'.env) (s.leave t.env))
    (inside : i ≤ lower.size) : Env.Same (t'.under i) (t.under i) := by
  have parts {u : Thread} {top : Scope} (h : u.scopes = lower.push top) :
      u.under i = (lower.toList.drop i).foldr Scope.leave (top.leave u.env) := by
    rw [under, h, Array.toList_push, List.drop_append_of_le_length (by rwa [Array.length_toList]),
      List.foldr_append]
    rfl
  rw [parts scopes, parts scopes']
  exact foldr_leave_same _ leaves

theorem bind_under (t : Thread) (name : String) (v : Value) (inside : i < t.scopes.size) :
    Env.Same ((t.bind name v).under i) (t.under i) := by
  obtain ⟨lower, top, scopes⟩ := Array.exists_push_of_size_pos (Nat.zero_lt_of_lt inside)
  have size : t.scopes.size = lower.size + 1 := by rw [scopes, Array.size_push]
  refine under_top scopes ?_ (top.leave_bound t.env name v) (by omega)
  rw [bind, modifyScope]
  dsimp only
  rw [scopes, Array.size_push, Nat.add_sub_cancel, Run.modify_push]

/-- The scope of a lambda gives its caller's variables back, whatever is above it. -/
theorem under_caller {head : Scope} {env : Env} (found : t.scopes[k]? = some head)
    (caller : head.callerEnv = some env) : t.under k = env := by
  rw [← Array.getElem?_toList] at found
  rw [under, parted found, List.foldr_cons, Scope.leave, caller]

theorem closeScope_under (t : Thread) (keepTop : Bool) (inside : i < t.scopes.size) :
    (t.closeScope keepTop).2.under i = t.under i := by
  obtain ⟨lower, top, scopes⟩ := Array.exists_push_of_size_pos (Nat.zero_lt_of_lt inside)
  have size : t.scopes.size = lower.size + 1 := by rw [scopes, Array.size_push]
  have innermost : t.scope = top := by rw [scope, scopes, Array.back?_push]; rfl
  rw [closeScope_eq, innermost]
  refine under_take (k := lower.size) ?_ ?_ (by omega)
  · rw [scopes, Array.pop_push, Array.toList_push, List.take_left']
    rw [Array.length_toList]
  · rw [under, scopes, Array.toList_push, List.drop_left']
    · rfl
    · rw [Array.length_toList]

theorem cut_keeps (t : Thread) (k : Nat) (head : Scope) (lambda : Nat) :
    (t.cut k head lambda).2.scopes.size ≤ k := by
  simp only [cut, Array.size_extract]
  omega

/-- What is cut off goes back to the caller of its lambda. -/
theorem cut_under (linked : t.Linked) {head : Scope} {callee : Closure}
    (found : t.scopes[k]? = some head) (called : head.callee = some callee) (lambda : Nat)
    (le : i ≤ k) : (t.cut k head lambda).2.under i = t.under i := by
  have caller := linked.called head (List.mem_of_getElem? (Array.getElem?_toList.trans found))
  rw [called_isLambda called] at caller
  obtain ⟨env, caller⟩ := Option.isSome_iff_exists.1 caller
  refine under_take (k := k) (extract_lower _ _) ?_ le
  rw [under_caller found caller, cut, caller]
  rfl

/-- Above the scope of the lambda, what is cut off leaves the same behind. -/
theorem cut_upper {head : Scope} (found : t.scopes[k]? = some head) (lambda : Nat) (above : k < i)
    (env : Env) : ((t.cut k head lambda).1.scopes.toList.drop (i - k)).foldr Scope.leave env =
      (t.scopes.toList.drop i).foldr Scope.leave env := by
  obtain ⟨j, rfl⟩ := Nat.exists_eq_add_of_lt above
  rw [cut_scopes found, show k + j + 1 - k = j + 1 by omega, List.drop_succ_cons, ← List.map_drop,
    List.drop_drop, List.foldr_map, show k + 1 + j = k + j + 1 by omega]
  exact congrArg (fun f => List.foldr f env _) (funext fun s => Scope.leave_congr rfl rfl)

/-- Above the scope of the lambda, what is put on top of a thread leaves the same behind. -/
theorem graft_upper (t : Thread) (coro : Coroutine) (retPc : Nat) (fiber : Option Ref) (pos : 0 < i)
    (env : Env) : ((t.graft coro retPc fiber).scopes.toList.drop (t.scopes.size + i)).foldr
      Scope.leave env = (coro.scopes.toList.drop i).foldr Scope.leave env := by
  obtain ⟨j, rfl⟩ := Nat.exists_eq_succ_of_ne_zero (Nat.ne_of_gt pos)
  cases all : coro.scopes.toList with
  | nil =>
    have none : coro.scopes = #[] := by simpa using all
    have gone : t.scopes.toList.drop (t.scopes.size + j.succ) = [] :=
      List.drop_of_length_le (by rw [Array.length_toList]; omega)
    simpa [graft, none] using congrArg (List.foldr Scope.leave env) gone
  | cons head rest =>
    rw [graft_scopes all, List.drop_append, Array.length_toList, List.drop_of_length_le (by simp),
      List.nil_append, Nat.add_sub_cancel_left, Nat.succ_eq_add_one, List.drop_succ_cons,
      List.drop_succ_cons, ← List.map_drop, List.foldr_map]
    exact congrArg (fun f => List.foldr f env _) (funext fun s => Scope.leave_congr rfl rfl)

/-- What is put on top of a thread sets the variables in force aside. -/
theorem graft_under {coro : Coroutine} (linked : coro.Linked) (retPc : Nat) (fiber : Option Ref)
    (le : i ≤ t.scopes.size) : (t.graft coro retPc fiber).under i = t.under i := by
  obtain ⟨head, rest, all, -⟩ := linked.parts
  exact under_append (graft_scopes all retPc fiber) rfl le

/-- The scope of a lambda that starts anew still gives its caller's variables back. -/
theorem restart_under (linked : t.Linked) {c : Closure} (innermost : t.scopes.size = k + 1)
    (called : t.scopes[k]?.bind (·.callee) = some c) (le : i ≤ k) :
    Env.Same ((t.restart k c).under i) (t.under i) := by
  obtain ⟨head, found, called⟩ := Option.bind_eq_some_iff.1 called
  have caller := linked.called head (List.mem_of_getElem? (Array.getElem?_toList.trans found))
  rw [called_isLambda called] at caller
  obtain ⟨env, caller⟩ := Option.isSome_iff_exists.1 caller
  obtain ⟨lower, top, scopes⟩ := Array.exists_push_of_size_pos (innermost ▸ Nat.succ_pos k : 0 < t.scopes.size)
  have size : t.scopes.size = lower.size + 1 := by rw [scopes, Array.size_push]
  obtain rfl : lower.size = k := by omega
  rw [scopes, Array.getElem?_push_size] at found
  obtain rfl := Option.some.inj found
  have modified : (t.restart lower.size c).scopes =
      lower.push { top with bound := [], loops := ∅ } := by
    rw [restart]
    dsimp only
    rw [scopes, Run.modify_push]
  refine under_top scopes modified ?_ le
  rw [Scope.leave, Scope.leave]
  dsimp only
  rw [caller]
  exact fun _ => rfl

end Thread

/-! ## Acts -/

variable {careful : Prop} {level : Safety} {m n : Machine}

/-- What is to come back below scope `i` stays while the scope is open; it is what was in force as the
scope was opened, and is in force as it is closed. -/
theorem Act.keeps_under (act : Act careful level m n) (linked : m.Linked) {i : Nat}
    (before : i ≤ m.thread.scopes.size) (after : i ≤ n.thread.scopes.size)
    (open_ : i < max m.thread.scopes.size n.thread.scopes.size) :
    Env.Same (n.thread.under i) (m.thread.under i) := by
  cases act with
  | shared | newFiber | markFiber | remember => exact fun _ => rfl
  | thread t h => rw [h.under]; exact fun _ => rfl
  | bind name v =>
    refine m.thread.bind_under name v ?_
    have size : (m.thread.bind name v).scopes.size = m.thread.scopes.size := by
      simp [Thread.bind, Thread.modifyScope]
    simpa [size] using open_
  | openBlock ownStack safety =>
    rw [Thread.under_push rfl rfl before]
    exact fun _ => rfl
  | openTry frame =>
    rw [Thread.under_push rfl rfl before]
    exact fun _ => rfl
  | openLambda c safety retPc fiber =>
    rw [Thread.under_push rfl rfl before]
    exact fun _ => rfl
  | close keepTop =>
    have inside : i < m.thread.scopes.size := by
      have fewer : (m.thread.closeScope keepTop).2.scopes.size ≤ m.thread.scopes.size := by
        rw [Thread.closeScope_eq]
        simp
      exact Nat.max_eq_left fewer ▸ open_
    rw [m.thread.closeScope_under keepTop inside]
    exact fun _ => rfl
  | restart k c innermost called =>
    have size : (m.thread.restart k c).scopes.size = m.thread.scopes.size := by
      simp [Thread.restart]
    refine Thread.restart_under linked.thread innermost called ?_
    rw [size, Nat.max_self] at open_
    omega
  | suspendLambda k head callee found called =>
    show Env.Same ((m.thread.cut k head callee.body.id).2.under i) _
    rw [Thread.cut_under linked.thread found called callee.body.id
      (after.trans (m.thread.cut_keeps k head callee.body.id))]
    exact fun _ => rfl
  | suspendFiber k head callee f found called =>
    show Env.Same ((m.thread.cut k head callee.body.id).2.under i) _
    rw [Thread.cut_under linked.thread found called callee.body.id
      (after.trans (m.thread.cut_keeps k head callee.body.id))]
    exact fun _ => rfl
  | resumeLambda id coro retPc found =>
    show Env.Same ((m.thread.graft coro retPc none).under i) _
    rw [Thread.graft_under (linked.coros id coro found) retPc none before]
    exact fun _ => rfl
  | resumeFiber f fiber coro retPc found left =>
    have sound := linked.fibers fiber (Array.mem_of_getElem? found) coro left
    show Env.Same ((m.thread.graft coro retPc (some f)).under i) _
    rw [Thread.graft_under sound retPc (some f) before]
    exact fun _ => rfl

/-! ## The life of a scope -/

/-- The machines that a run comes past which begins in `m`, in the threads it starts, too. -/
inductive Passes (m : Machine) : Machine → Prop
  | start : Passes m m
  | acts {n p : Machine} : Passes m n → Acts False n p → Passes m p
  | fork {n : Machine} (id : Nat) : Passes m n → Passes m { n with thread := n.thread.fork id }

/-- A machine goes on with a coroutine, for a fiber or not. -/
structure Act.Resumes (coro : Coroutine) (m n : Machine) : Prop where
  act : Act False m.thread.safety m n
  grafted : ∃ retPc fiber, n.thread.scopes = (m.thread.graft coro retPc fiber).scopes ∧
    n.thread.env = coro.env

/-- Where a scope is: scope `i` of a machine's thread, or the `k`-th of a coroutine. -/
inductive Spot
  | on (n : Machine) (i : Nat)
  | off (coro : Coroutine) (k : Nat)

/-- Where the scope comes that an act opens in machine `a`, in a run that begins in `m`. The lambda of
a coroutine is opened anew when the coroutine goes on; the scopes above it live on if all of them had
its safety level when it was left. -/
inductive Lives (m a : Machine) : Spot → Prop
  | opened {b : Machine} {level : Safety} : Passes m a → Act False level a b →
      a.thread.scopes.size < b.thread.scopes.size → Lives m a (.on b a.thread.scopes.size)
  | stays {c d : Machine} {i : Nat} {level : Safety} : Lives m a (.on c i) → Act False level c d →
      i < d.thread.scopes.size → Lives m a (.on d i)
  /-- Another thread runs in between. -/
  | aside {c p : Machine} {i : Nat} (id : Nat) : Lives m a (.on c i) →
      Acts False { c with thread := c.thread.fork id } p →
      Lives m a (.on { p with thread := c.thread } i)
  | suspended {c : Machine} {i k : Nat} {head : Scope} {callee : Closure} : Lives m a (.on c i) →
      k < i → c.thread.scopes[k]? = some head → head.callee = some callee →
      (∀ s ∈ (c.thread.scopes.extract k c.thread.scopes.size).toList, s.safety = head.safety) →
      Lives m a (.off (c.thread.cut k head callee.body.id).1 (i - k))
  | resumed {coro : Coroutine} {c d : Machine} {k : Nat} : Lives m a (.off coro k) → Passes m c →
      Act.Resumes coro c d → Lives m a (.on d (c.thread.scopes.size + k))

/-- The variables in force where the scope was opened are those that will be in force once the scope
is closed, wherever it is. -/
def Spot.Keeps (env : Env) : Spot → Prop
  | .on n i => n.Linked ∧ i < n.thread.scopes.size ∧ Env.Same (n.thread.under i) env
  | .off coro k => 0 < k ∧ k < coro.scopes.size ∧
    Env.Same ((coro.scopes.toList.drop k).foldr Scope.leave coro.env) env

theorem Passes.linked (h : Passes m n) (linked : m.Linked) : n.Linked := by
  induction h with
  | start => exact linked
  | acts _ acts ih => exact acts.changes.linked ih
  | fork id _ ih => exact ih.fork id

theorem Lives.keeps {a : Machine} {spot : Spot} (lives : Lives m a spot) (linked : m.Linked) :
    spot.Keeps a.thread.env := by
  induction lives with
  | @opened b level passes act more =>
    have sound := passes.linked linked
    refine ⟨act.change.changes.linked sound, more, ?_⟩
    have under := act.keeps_under sound (Nat.le_refl _) (Nat.le_of_lt more) (by omega)
    rwa [Thread.under_size] at under
  | @stays c d i level _ act inside ih =>
    obtain ⟨sound, there, same⟩ := ih
    refine ⟨act.change.changes.linked sound, inside, ?_⟩
    exact (act.keeps_under sound (by omega) (by omega) (by omega)).trans same
  | aside id _ acts ih =>
    obtain ⟨sound, there, same⟩ := ih
    exact ⟨(Changes.fork id (.refl _) acts.changes).linked sound, there, same⟩
  | @suspended c i k head callee _ above found called even ih =>
    obtain ⟨sound, there, same⟩ := ih
    refine ⟨by omega, ?_, ?_⟩
    · simp only [Thread.cut, Array.size_map, Array.size_modify, Array.size_extract]
      omega
    · rw [Thread.cut_upper found callee.body.id above]
      simp only [Thread.cut, Thread.keptEnv_eq _ even]
      exact same
  | @resumed coro c d k _ passes resumes ih =>
    obtain ⟨pos, there, same⟩ := ih
    obtain ⟨retPc, fiber, scopes, env⟩ := resumes.grafted
    refine ⟨resumes.act.change.changes.linked (passes.linked linked), ?_, ?_⟩
    · rw [scopes, Thread.graft_size]
      omega
    · rw [Thread.under, scopes, env, c.thread.graft_upper coro retPc fiber pos]
      exact same

/-! ## Runs -/

/-- Whatever a run does, an operation or what comes of a fault, it does in acts one after the other, by
which scopes are opened and closed, left and gone on with. The act that closes a scope, or leaves its
lambda in the middle, puts the variables back in force that were in force as the scope was opened. -/
theorem Reached.hygiene {kind : Watch → Prop} (h : Reached kind m) :
    (∀ (w : Watch) stop, Acts False m ((w.runUntil stop).after m)) ∧
    (∀ (w : Watch) depth target, Acts False m (((w.reentry depth).runThread target).after m)) ∧
    (∀ (w : Watch) depth base op, op ∈ m.thread.ops →
      Acts False m ((Run.step (w.reentry depth) base op).after m)) ∧
    (∀ (w : Watch) depth base f, Acts False m ((Run.recover (w.reentry depth) base f).after m)) ∧
    ∀ (a c d : Machine) (i : Nat) (level : Safety), Lives m a (.on c i) → Act False level c d →
      d.thread.scopes.size = i → Env.Same d.thread.env a.thread.env := by
  have makes (w : Watch) (depth : Nat) : (w.reentry depth).Makes False :=
    w.makes_reentry False.elim depth
  refine ⟨fun w stop => ?_, fun w depth target => ?_, fun w depth base op there => ?_,
    fun w depth base f => ?_, fun a c d i level lives act closed => ?_⟩
  · exact (Watch.makes_runUntil False.elim stop m).acts
  · exact ((makes w depth).runThread target m).acts
  · exact (Run.step_deeds (makes w depth) base there).acts
  · exact (Run.makes_recover (makes w depth) base f m).acts
  · obtain ⟨sound, there, same⟩ := lives.keeps h.linked
    have under := act.keeps_under sound (Nat.le_of_lt there) (Nat.le_of_eq closed.symm) (by omega)
    rw [← closed, Thread.under_size, closed] at under
    exact under.trans same

/-- A thread has bound a variable, and a block of it has bound the variable once more. -/
def Thread.rebinding (t : Thread) : Thread :=
  ((t.bind "x" (.str "outer")).openBlock false .safe).bind "x" (.str "inner")

theorem Reached.hygiene_block :
    ((Engine.new {} .silent {}).thread.rebinding.env.find? "x").bind Value.str? = some "inner" ∧
    (((Engine.new {} .silent {}).thread.rebinding.closeScope true).2.env.find? "x").bind Value.str? =
      some "outer" := by
  have reached : Reached anyWatch (Engine.new {} .silent {}) := .new ..
  obtain ⟨id, fresh⟩ : ∃ id, (Engine.new {} .silent {}).thread = { id } := ⟨_, rfl⟩
  have limit : (Engine.new {} .silent {}).shared.config.limits.maxScopeDepth = 1024 := by
    rw [(new_drift ..).config]
  generalize Engine.new {} .silent {} = m at reached fresh limit
  obtain ⟨s, t⟩ := m
  obtain rfl : t = { id } := fresh
  let on (t : Thread) : Machine := ⟨s, t⟩
  let t : Thread := Thread.bind { id } "x" (.str "outer")
  have room : (on t).hasRoom := by
    rw [Machine.hasRoom, show (on t).shared = s from rfl, limit]
    exact of_decide_eq_true rfl
  have bound : Act False .safe (on { id }) (on t) := .bind "x" (.str "outer")
  have block : Act False .safe (on t) (on (t.openBlock false .safe)) :=
    .openBlock false .safe room (fun _ => of_decide_eq_true rfl) (.inl rfl)
  have rebound : Act False .safe (on (t.openBlock false .safe)) (on (Thread.rebinding { id })) :=
    .bind "x" (.str "inner")
  have lives : Lives (on { id }) (on t) (.on (on (Thread.rebinding { id })) 1) :=
    (Lives.opened (Passes.start.acts bound.acts) block (of_decide_eq_true rfl)).stays rebound
      (of_decide_eq_true rfl)
  have closed : Act False .safe (on (Thread.rebinding { id }))
      (on ((Thread.rebinding { id }).closeScope true).2) := .close true False.elim
  have same := reached.hygiene.2.2.2.2 _ _ _ 1 .safe lives closed rfl "x"
  exact ⟨rfl, (congrArg (Option.bind · Value.str?) same).trans rfl⟩

end Catena
