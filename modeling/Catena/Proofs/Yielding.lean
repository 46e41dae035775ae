import Catena.Proofs.Folding

/-!
# A lambda gives the thread back

A lambda that is left in the middle gives the thread back to its caller, and the next call of it goes on
with all it had (`Run.suspend_resume`). What the caller gets back are its scopes, stacks and variables, and
the `try:` forms that have not ended meanwhile. Where no text puts a label, all of them are still there
(`Thread.Restored`), and no more than the faults that the innermost has collected may be others: a jump can
leave the lambda for the end of a form of the caller, and a test reports to the innermost form of the thread
(`Run.suspend_resume_not_hopping`).
-/

namespace Catena

/-! ## While a scope stays open -/

namespace Run

/-- A run goes on for some turns, and scope `i` is open all the time. -/
inductive Dwells (r : Reentry) (base stop i : Nat) : Machine → Machine → Prop
  | here {m : Machine} (inside : i < m.thread.scopes.size) : Dwells r base stop i m m
  | turn {m n p : Machine} {op : Op} (inside : i < m.thread.scopes.size) :
      Turn r base stop m op n → Dwells r base stop i n p → Dwells r base stop i m p

namespace Dwells

variable {ops : List Op} {G : Ground} {r : Reentry} {base stop i depth : Nat} {m n : Machine}

theorem inside (h : Dwells r base stop i m n) : i < m.thread.scopes.size := by
  cases h with
  | here inside => exact inside
  | turn inside _ _ => exact inside

theorem amid (h : Dwells (reentry depth) base stop i m n) (begins : Amid depth stop base m) :
    Amid depth stop base n := by
  induction h with
  | here => exact begins
  | turn _ goes _ ih => exact ih (begins.turn goes)

/-- Everything below a scope that stays open is kept. -/
theorem holds (h : Dwells r G.floor stop i m n) (hr : r.Sound ops) (pos : 1 ≤ G.base)
    (free : ∀ x, G.Runs ops x) (here : m.At ops G) (low : G.base ≤ i) :
    n.At ops G ∧ m.thread.Holds i n.thread := by
  induction h with
  | here => exact ⟨here, .refl i _⟩
  | turn inside goes rest ih =>
    obtain ⟨there, first⟩ := goes.holds hr pos free here low inside rest.inside
    obtain ⟨after, others⟩ := ih there
    exact ⟨after, first.trans others⟩

end Dwells

/-- A turn is made up of changes. -/
theorem Turn.changes {r : Reentry} {base stop : Nat} {m n : Machine} {op : Op}
    (h : Turn r base stop m op n) (hr : r.Makes False) : Changes False m n := by
  have stepped := (step_deeds hr base (Array.mem_of_getElem? h.found)).changes
  rcases turn_cases h.done with done | ⟨f, p, failed, recovered⟩
  · rwa [after, done] at stepped
  · rw [after, failed] at stepped
    have caught := (makes_recover hr base f p).changes
    rw [after, recovered] at caught
    exact stepped.trans caught

theorem Dwells.changes {r : Reentry} {base stop i : Nat} {m n : Machine} (h : Dwells r base stop i m n)
    (hr : r.Makes False) : Changes False m n := by
  induction h with
  | here => exact .refl _
  | turn _ goes _ ih => exact (goes.changes hr).trans ih

end Run

namespace Thread

variable {t u : Thread}

/-- Thread `u` is thread `t` come back to: with the scopes, value stacks and variables it had, the stacks
below the one in use untouched, and all its `try:` forms. Loops that a refused `break` let go of are not in
the scopes any more, and the innermost form may have collected faults and forgotten others. -/
structure Restored (t u : Thread) : Prop where
  scopes : List.Forall₂ Scope.Kept t.scopes.toList u.scopes.toList
  height : u.valueStacks.size = t.valueStacks.size
  lower : ∀ k, k + 1 < t.valueStacks.size → u.valueStacks[k]? = t.valueStacks[k]?
  tries : Recorded t.tries.toList u.tries.toList
  env : Env.Same u.env t.env

theorem Restored.withCoros (h : t.Restored u) (coros : Dict Nat Coroutine) : t.Restored { u with coros } :=
  ⟨h.scopes, h.height, h.lower, h.tries, h.env⟩

/-- Cutting off a scope that has stayed open comes back to where it was entered from. -/
theorem Entered.restored {b : Thread} {s head : Scope} (entered : t.Entered b s)
    (enters : b.scopes[t.scopes.size]? = some s) (called : s.isLambda = true)
    (holds : b.Holds t.scopes.size u) (linked : u.Linked)
    (found : u.scopes[t.scopes.size]? = some head) (lambda : Nat) :
    t.Restored (u.cut t.scopes.size head lambda).2 := by
  have place : head.place = s.place := by
    have same := holds.place
    rw [found, enters] at same
    exact Option.some.inj same
  have stack : head.stack = s.stack := congrArg Scope.Place.stack place
  have keeps := holds.keeps s enters
  have height := entered.stack
  have lt := linked.stack_lt found
  constructor
  · have scopes := keeps.scopes
    rw [entered.scopes] at scopes
    rwa [cut, extract_lower]
  · rw [cut, Array.size_extract]
    omega
  · intro k inside
    rw [cut, Array.getElem?_extract, if_pos (by omega), Nat.zero_add, keeps.valueStacks k (by omega)]
    exact entered.valueStacks k (by omega)
  · have tries := keeps.tries
    rw [entered.tries] at tries
    rwa [cut, extract_lower, Linked.take_findIdx linked.linked.order]
  · have saved := linked.called head (List.mem_of_getElem? (Array.getElem?_toList.trans found))
    have isLambda : head.isLambda = s.isLambda := congrArg Scope.Place.isLambda place
    rw [isLambda, called, Option.isSome_iff_exists] at saved
    obtain ⟨env, saved⟩ := saved
    have under := keeps.env
    rw [under_caller found saved, under_caller enters entered.env] at under
    rwa [cut, saved]

end Thread

/-! ## The caller come back to -/

section

variable {a b m : Machine} {i depth base stop pc : Nat} {head : Scope} {callee : Closure}

/-- Whatever happens while the scope of the lambda is open. -/
theorem Stays.back (stays : Stays False a.thread.scopes.size b m) (linked : a.Linked)
    (change : Change False a b) (found : m.thread.scopes[a.thread.scopes.size]? = some head)
    (called : head.callee = some callee) :
    a.thread.Back (m.thread.cut a.thread.scopes.size head callee.body.id).2 := by
  have linked_b := change.linked linked
  have found_b := Array.getElem?_eq_getElem stays.inside
  have below := stays.keeps_below linked_b found_b
  obtain ⟨head', found', same⟩ := below.scope found_b
  obtain rfl := Option.some.inj (found.symm.trans found')
  have callee_b : head.callee = _ := (congrArg Scope.callee same : head.bare.callee = _)
  have entered := change.entered linked found_b (Thread.called_isLambda (callee_b.symm.trans called))
  have linked_m := stays.changes.linked linked_b
  exact entered.back linked_m.thread below found same _

/-- In a run of a text that puts no label. -/
theorem Amid.restored (begins : Amid depth stop base ((b.goTo pc).withBase base)) (linked : a.Linked)
    (change : Change False a b)
    (dwells : Run.Dwells (Run.reentry depth) base stop a.thread.scopes.size ((b.goTo pc).withBase base) m)
    (found : m.thread.scopes[a.thread.scopes.size]? = some head) (called : head.callee = some callee)
    (above : m.thread.loopBase ≤ a.thread.scopes.size) :
    a.thread.Restored (m.thread.cut a.thread.scopes.size head callee.body.id).2 := by
  -- The scope of the lambda is none of those that the run began in.
  obtain ⟨-, -, loopBase, -⟩ := (dwells.amid begins).adrift
  obtain ⟨ops, orderly, loopBase', low, few, pos, seated⟩ := begins.adrift
  have here : ((b.goTo pc).withBase base).At ops (.adrift low base few) := ⟨orderly, seated, loopBase'⟩
  have inside : low ≤ a.thread.scopes.size := few.trans (loopBase ▸ above)
  obtain ⟨there, holds⟩ := dwells.holds (Run.sound_reentry ops depth) pos
    (fun x => .inr (.inr ⟨low, base, few, rfl⟩)) here inside
  obtain ⟨s, enters, place⟩ : ∃ s, b.thread.scopes[a.thread.scopes.size]? = some s ∧
      head.place = s.place := by
    have same := holds.place
    rw [found] at same
    obtain ⟨s, enters, place⟩ := Option.map_eq_some_iff.1 same.symm
    exact ⟨s, enters, place.symm⟩
  have isLambda : s.isLambda = true := by
    have same := congrArg Scope.Place.isLambda place
    exact same.symm.trans (Thread.called_isLambda called)
  obtain ⟨scopes, valueStacks, tries, stack, env⟩ := change.entered linked enters isLambda
  have entered : a.thread.Entered ((b.goTo pc).withBase base).thread s :=
    ⟨scopes, valueStacks, tries, stack, env⟩
  exact entered.restored enters isLambda holds there.orderly.thread.linked found _

end

/-! ## The thread given back -/

/-- A lambda that is left in the middle gives the thread back to its caller, and the next call of it,
or of the fiber it runs in, goes on with all it had. -/
theorem Run.suspend_resume {m n : Machine} {depth : Nat} {c : Control}
    (left : Run.suspend depth m = .ok c n) :
    ∃ i head callee, m.thread.lambdaScope? depth = some i ∧ m.thread.scopes[i]? = some head ∧
      head.callee = some callee ∧ c = .jump head.retPc ∧
      -- the caller the lambda was entered from, however long ago
      (∀ a b, a.Linked → a.thread.scopes.size = i → Change False a b → Stays False i b m →
        a.thread.Back n.thread) ∧
      -- the same in a run of a text that puts no label
      (∀ a b pc nested base stop, a.Linked → a.thread.scopes.size = i → Change False a b →
        Amid nested stop base ((b.goTo pc).withBase base) →
        Run.Dwells (Run.reentry nested) base stop i ((b.goTo pc).withBase base) m →
        a.thread.Restored n.thread) ∧
      (∀ kind, Reached kind m → m.thread.Even i head →
        m.thread.Leaves i head n.thread ∧
        (head.fiber = none → ∀ (p : Machine) (d : Closure) safety retPc,
          d.body.id = callee.body.id →
          p.thread.coros.find? d.body.id = n.thread.coros.find? d.body.id →
          p.Takes (m.thread.scopes.size - i) →
          ∃ q, Run.enterLambda d safety retPc p = .ok (.jump (m.thread.pc + 1)) q ∧
            m.thread.Continues i head p.thread retPc none q.thread) ∧
        (∀ f, head.fiber = some f → ∀ (p : Machine) retPc,
          p.shared.store.fibers[f]? = n.shared.store.fibers[f]? →
          p.Takes (m.thread.scopes.size - i) →
          ∃ q, Run.enterFiber f retPc p = .ok (.control (.jump (m.thread.pc + 1))) q ∧
            m.thread.Continues i head p.thread retPc (some f) q.thread)) := by
  rcases Run.suspend_cases depth m with ⟨f, failed⟩ |
    ⟨i, head, callee, s, at_, above, found, called, drift, -, done⟩
  · rw [failed] at left
    cases left
  rw [done] at left
  have back (a b : Machine) (linked : a.Linked) (top : a.thread.scopes.size = i)
      (change : Change False a b) (stays : Stays False i b m) :
      a.thread.Back (m.thread.cut i head callee.body.id).2 := by
    subst top
    exact stays.back linked change found called
  have restored (a b : Machine) (pc nested base stop : Nat) (linked : a.Linked)
      (top : a.thread.scopes.size = i) (change : Change False a b)
      (begins : Amid nested stop base ((b.goTo pc).withBase base))
      (dwells : Run.Dwells (Run.reentry nested) base stop i ((b.goTo pc).withBase base) m) :
      a.thread.Restored (m.thread.cut i head callee.body.id).2 := by
    subst top
    exact begins.restored linked change dwells found called above
  cases fiber : head.fiber with
  | none =>
    rw [fiber] at left
    cases left
    refine ⟨i, head, callee, at_, found, called, rfl, fun a b linked top change stays => ?_,
      fun a b pc nested base stop linked top change begins dwells => ?_, ?_⟩
    · exact (back a b linked top change stays).withCoros _
    · exact (restored a b pc nested base stop linked top change begins dwells).withCoros _
    intro kind reached even
    have linked := reached.linked.thread
    refine ⟨(linked.cut_leaves found called even callee.body.id).withCoros _,
      fun _ p d safety retPc same kept takes => ?_, fun f other => ?_⟩
    · have stored : p.thread.coros.find? d.body.id =
          some (m.thread.cut i head callee.body.id).1 := by
        rw [kept, same]
        dsimp only
        rw [Dict.find?_insert]
        exact if_pos rfl
      exact Run.enterLambda_continues linked found even stored takes safety retPc
    · rw [fiber] at other
      cases other
  | some f =>
    rw [fiber] at left
    cases left
    refine ⟨i, head, callee, at_, found, called, rfl, back, restored, ?_⟩
    intro kind reached even
    have linked := reached.linked.thread
    refine ⟨linked.cut_leaves found called even callee.body.id, fun other => ?_,
      fun g same p retPc kept takes => ?_⟩
    · rw [fiber] at other
      cases other
    · rw [fiber] at same
      obtain rfl := Option.some.inj same
      have there : f < m.shared.store.fibers.size :=
        reached.fibered.thread head (Array.mem_of_getElem? found) f fiber
      rw [← drift.fibers] at there
      have stored : p.shared.store.fibers[f]? = some
          { s.store.fibers[f] with state := .suspended (m.thread.cut i head callee.body.id).1 } := by
        rw [kept]
        simp only [Machine.alterFibers, Array.getElem?_modify, if_true,
          Array.getElem?_eq_getElem there, Option.map_some]
      exact Run.enterFiber_continues linked found even stored rfl takes retPc

/-! ## Runs that leave a lambda -/

/-- The machine with its innermost scope closed. -/
def Machine.caller (m : Machine) : Machine :=
  { m with thread := (m.thread.closeScope false).2 }

/-- A lambda that was made without any variables has just been entered in the innermost scope. -/
def Machine.JustEntered (m : Machine) : Prop :=
  let t := m.thread
  let s := t.scope
  (t.scopes.size ≠ 0 ∧ t.scopes.size ≤ m.shared.config.limits.maxScopeDepth) ∧
    (t.tries.all (·.scope < t.scopes.size - 1) ∧ t.params.isEmpty) ∧
    (t.valueStacks.size = s.stack + 1 ∧ s.ownsStack = false) ∧ t.env.entries.isEmpty ∧
    s.callee.any (·.env.entries.isEmpty) ∧ s.callerEnv.isSome ∧
    (s.bound.isEmpty ∧ s.loops.entries.isEmpty ∧ s.defers.isEmpty ∧ s.fiber.isNone)

instance (m : Machine) : Decidable m.JustEntered := by
  unfold Machine.JustEntered
  infer_instance

theorem Machine.Linked.caller {m : Machine} (h : m.Linked) : m.caller.Linked := by
  have closes : Change False m m.caller := .close false False.elim
  exact closes.linked h

theorem Change.of_justEntered {careful : Prop} {m : Machine} (h : m.JustEntered) :
    Change careful m.caller m := by
  obtain ⟨shared, t⟩ := m
  obtain ⟨⟨some_, room⟩, ⟨forms, brackets⟩, ⟨height, stack⟩, own, called, caller, bound, loops, defers,
    fiber⟩ := h
  obtain ⟨lower, s, scopes⟩ := Array.exists_push_of_size_pos (Nat.pos_of_ne_zero some_)
  have top : t.scope = s := by
    rw [Thread.scope, scopes, Array.back?_push]
    rfl
  dsimp only at scopes height own called caller stack bound loops defers fiber room forms brackets
  rw [top] at height called caller stack bound loops defers fiber
  obtain ⟨c, callee, without⟩ := (Option.any_eq_true ..).1 called
  obtain ⟨env, callerEnv⟩ := Option.isSome_iff_exists.1 caller
  have before : Machine.caller ⟨shared, t⟩ = ⟨shared, { t with scopes := lower, env := env }⟩ := by
    have below : t.tries.filter (fun f => f.scope < lower.size) = t.tries := by
      rw [scopes, Array.size_push, Nat.add_sub_cancel] at forms
      exact Array.filter_eq_self.2 (Array.all_eq_true_iff_forall_mem.1 forms)
    rw [Machine.caller, Thread.closeScope]
    dsimp only
    rw [top, stack, scopes, Array.pop_push, callerEnv]
    simp [below, List.isEmpty_iff.1 brackets]
  have left : Machine.hasRoom ⟨shared, { t with scopes := lower, env := env }⟩ := by
    rw [scopes, Array.size_push] at room
    exact room
  have scope : s = { Scope.lambda c s.safety (t.valueStacks.size - 1) s.retPc env with fiber := none } := by
    obtain ⟨safety, _, place, index, _, _, _, ⟨records⟩, _, _⟩ := s
    dsimp only at height callee callerEnv stack bound loops defers fiber
    rw [height, Nat.add_sub_cancel, callee, callerEnv, stack, List.isEmpty_iff.1 bound,
      List.isEmpty_iff.1 loops, List.isEmpty_iff.1 defers, Option.isNone_iff_eq_none.1 fiber]
    rfl
  have none_bound : t.env = c.env :=
    congrArg Dict.mk ((List.isEmpty_iff.1 own).trans (List.isEmpty_iff.1 without).symm)
  have after : t = { t with scopes := lower.push s, env := c.env } := by
    rw [← scopes, ← none_bound]
  have some_stack : t.valueStacks.size ≠ 0 := by omega
  rw [before, after, scope]
  exact .openLambda c s.safety s.retPc none left some_stack fun _ same => by cases same

namespace Run

/-- So many turns of a run, while scope `i` is open. -/
def dwells? (r : Reentry) (base stop i : Nat) : Nat → Machine → Option Machine
  | 0, m => if i < m.thread.scopes.size then some m else none
  | k + 1, m =>
    if i < m.thread.scopes.size then
      (next? r base stop m).bind fun (_, n) => dwells? r base stop i k n
    else none

theorem dwells_of_dwells? {r : Reentry} {base stop i k : Nat} {m n : Machine}
    (h : dwells? r base stop i k m = some n) : Dwells r base stop i m n := by
  induction k generalizing m with
  | zero =>
    obtain ⟨inside, same⟩ := Option.ite_none_right_eq_some.1 h
    cases same
    exact .here inside
  | succ k ih =>
    obtain ⟨inside, rest⟩ := Option.ite_none_right_eq_some.1 h
    obtain ⟨⟨op, p⟩, next, rest⟩ := Option.bind_eq_some_iff.1 rest
    exact .turn inside (turn_of_next? next) (ih rest)

/-- In the run of a text, a lambda is entered from `a` at `b`, and left in the middle from `m` to `n`. -/
structure Leaving (text : String) (a b m n : Machine) : Prop where
  runs : Dwells (reentry 2) 1 100 0 (((compile text).after (Engine.new {} .silent {})).withBase 1) b
  linked : a.Linked
  enters : Change False a b
  dwells : Dwells (reentry 2) 1 100 a.thread.scopes.size b m
  lambda : m.thread.lambdaScope? 0 = some a.thread.scopes.size
  even : ∃ head, m.thread.scopes[a.thread.scopes.size]? = some head ∧
    m.thread.Even a.thread.scopes.size head
  left : ∃ c, suspend 0 m = .ok c n

/-- A lambda that is entered after `k` turns of the run of a text, and left after `l` more. -/
def leaving? (text : String) (k l : Nat) : Option (Machine × Machine) :=
  (dwells? (reentry 2) 1 100 0 k
    (((compile text).after (Engine.new {} .silent {})).withBase 1)).bind fun b =>
  (dwells? (reentry 2) 1 100 b.caller.thread.scopes.size l b).bind fun m =>
    if b.JustEntered ∧ m.thread.lambdaScope? 0 = some b.caller.thread.scopes.size ∧
        (m.thread.scopes.toList.all (·.safety = .safe) ∧ m.thread.params.isEmpty) ∧
        ((suspend 0).answer? m).isSome then
      some (b, m)
    else none

theorem leaving_of_leaving? {text : String} {k l : Nat} {b m : Machine}
    (h : leaving? text k l = some (b, m)) : Leaving text b.caller b m ((suspend 0).after m) := by
  obtain ⟨b, entering, h⟩ := Option.bind_eq_some_iff.1 h
  obtain ⟨m, leaving, h⟩ := Option.bind_eq_some_iff.1 h
  obtain ⟨⟨entered, lambda, ⟨safe, closed⟩, answers⟩, same⟩ := Option.ite_none_right_eq_some.1 h
  cases same
  have runs := dwells_of_dwells? entering
  have dwells := dwells_of_dwells? leaving
  have start : Reached anyWatch ((compile text).after (Engine.new {} .silent {})) := .compile _ (.new ..)
  have based : Change False ((compile text).after (Engine.new {} .silent {})) (Machine.withBase 1 _) :=
    .thread { ((compile text).after (Engine.new {} .silent {})).thread with loopBase := 1 }
      (.aside rfl rfl rfl rfl rfl)
  have linked := (runs.changes (makes_reentry 2)).linked (based.linked start.linked)
  obtain ⟨c, left⟩ := Option.isSome_iff_exists.1 answers
  refine ⟨runs, linked.caller, .of_justEntered entered, dwells, lambda, ?_, c, answer?_eq_some left⟩
  rcases suspend_cases 0 m with ⟨f, failed⟩ | ⟨i, head, -, -, at_, -, found, -⟩
  · rw [answer?, failed] at left
    cases left
  obtain rfl := Option.some.inj (lambda.symm.trans at_)
  have level (s : Scope) (member : s ∈ m.thread.scopes.toList) : s.safety = .safe :=
    of_decide_eq_true (List.all_eq_true.1 safe s member)
  refine ⟨head, found, fun s member => ?_, ?_⟩
  · rw [level s (List.mem_of_mem_drop member)]
    exact (level head (List.mem_of_getElem? (Array.getElem?_toList.trans found))).symm
  · rw [List.isEmpty_iff.1 closed]
    intro p member
    cases member

end Run

/-- A lambda about to be left from inside a block in it. -/
def Machine.yielding : Machine :=
  (Watch.runUntil ⟨fun _ m => decide (3 ≤ m.thread.scopes.size), fun _ _ => false⟩ 100).after
    ((Run.compile "\x7b ( yield ) \x7d call").after (Engine.new {} .silent {}))

/-- In the run of a text that puts no label, and in a run that is stopped where a lambda is to be left. -/
theorem Run.suspend_resume_yielding :
    (∃ a b m n, Run.Leaving "try: \x7b ( yield ) \x7d call ;" a b m n ∧ a.thread.tries.size = 1 ∧
      a.thread.Restored n.thread) ∧
    ∃ i head callee, Machine.yielding.thread.scopes[i]? = some head ∧ head.callee = some callee ∧
      Machine.yielding.thread.Leaves i head ((Run.suspend 0).after .yielding).thread ∧
      ∃ q, Run.enterLambda callee .safe 0 ((Run.suspend 0).after .yielding) =
          .ok (.jump (Machine.yielding.thread.pc + 1)) q ∧
        Machine.yielding.thread.Continues i head ((Run.suspend 0).after .yielding).thread 0 none
          q.thread := by
  constructor
  · have computed : ((Run.leaving? "try: \x7b ( yield ) \x7d call ;" 4 1).any fun (b, _) =>
        b.caller.thread.tries.size = 1) = true := by
      decide +kernel
    obtain ⟨⟨b, m⟩, leaving, forms⟩ := (Option.any_eq_true ..).1 computed
    have leaves := Run.leaving_of_leaving? leaving
    refine ⟨b.caller, b, m, _, leaves, of_decide_eq_true forms, ?_⟩
    have started : UnderWay ((Run.compile "try: \x7b ( yield ) \x7d call ;").after (Engine.new {} .silent {})) :=
      .compile _ (.of_not_mem (by decide)) (.new ..)
    have one : ((Run.compile "try: \x7b ( yield ) \x7d call ;").after
        (Engine.new {} .silent {})).thread.scopes.size = 1 := by
      decide +kernel
    have begins : Amid 2 100 _ _ := .run started
    rw [one] at begins
    have entered := leaves.runs.amid begins
    obtain ⟨-, -, loopBase, -⟩ := entered.adrift
    have same : (b.goTo b.thread.pc).withBase 1 = b := by
      rw [← loopBase]
      rfl
    obtain ⟨c, left⟩ := leaves.left
    obtain ⟨i, head, callee, at_, -, -, -, -, restores, -⟩ := Run.suspend_resume left
    obtain rfl := Option.some.inj (leaves.lambda.symm.trans at_)
    apply restores b.caller b b.thread.pc 2 1 100 leaves.linked rfl leaves.enters
    · rw [same]
      exact entered
    · rw [same]
      exact leaves.dwells
  · have reached : Reached anyWatch .yielding := .run _ 100 trivial (.compile _ (.new ..))
    obtain ⟨answers, first, safe, plain, params⟩ :
        ((Run.suspend 0).answer? .yielding).isSome = true ∧
          Machine.yielding.thread.lambdaScope? 0 = some 1 ∧
          (Machine.yielding.thread.scopes.toList.drop 1).all (·.safety = .safe) = true ∧
          Machine.yielding.thread.scopes[1]?.map (·.fiber.isNone) = some true ∧
          Machine.yielding.thread.params = [] := by
      decide +kernel
    obtain ⟨c, left⟩ := Option.isSome_iff_exists.1 answers
    obtain ⟨i, head, callee, at_, found, called, -, -, -, rest⟩ :=
      Run.suspend_resume (Run.answer?_eq_some left)
    obtain rfl := Option.some.inj (first.symm.trans at_)
    have safe (s : Scope) (member : s ∈ Machine.yielding.thread.scopes.toList.drop 1) :
        s.safety = .safe := of_decide_eq_true (List.all_eq_true.1 safe s member)
    have even : Machine.yielding.thread.Even 1 head := by
      refine ⟨fun s member => ?_, by simp [params]⟩
      rw [safe s member]
      refine (safe head ?_).symm
      rw [← Array.getElem?_toList] at found
      have inside : (Machine.yielding.thread.scopes.toList.drop 1)[0]? = some head := by
        rw [List.getElem?_drop, found]
      exact List.mem_of_getElem? inside
    rw [found] at plain
    obtain ⟨leaves, goesOn, -⟩ := rest anyWatch reached even
    refine ⟨1, head, callee, found, called, leaves, ?_⟩
    refine goesOn (Option.isNone_iff_eq_none.1 (Option.some.inj plain)) _ callee .safe 0 rfl rfl ?_
    constructor
    · decide +kernel
    · decide +kernel

/-- A label lets a form of the caller end while the lambda is open, and what a test reports in the lambda is
collected by a form of the caller. -/
theorem Run.suspend_resume_not_hopping :
    (∃ a b m n, Run.Leaving "try: \x7b ( out! ) \x7d call @out ; yield" a b m n ∧
      a.thread.tries.size = 1 ∧ n.thread.tries.size = 0) ∧
    ∃ a b m n, Run.Leaving "try: \x7b test: 'failed' false ; yield \x7d call ;" a b m n ∧
      a.thread.tries.map (·.faults.length) = #[0] ∧ n.thread.tries.map (·.faults.length) = #[1] := by
  have label : ((Run.leaving? "try: \x7b ( out! ) \x7d call @out ; yield" 4 5).any fun (b, m) =>
      b.caller.thread.tries.size = 1 ∧ ((Run.suspend 0).after m).thread.tries.size = 0) = true := by
    decide +kernel
  have test : ((Run.leaving? "try: \x7b test: 'failed' false ; yield \x7d call ;" 4 4).any fun (b, m) =>
      b.caller.thread.tries.map (·.faults.length) = #[0] ∧
        ((Run.suspend 0).after m).thread.tries.map (·.faults.length) = #[1]) = true := by
    decide +kernel
  obtain ⟨⟨b, m⟩, leaving, forms⟩ := (Option.any_eq_true ..).1 label
  obtain ⟨⟨b', m'⟩, leaving', faults⟩ := (Option.any_eq_true ..).1 test
  have forms := of_decide_eq_true forms
  have faults := of_decide_eq_true faults
  exact ⟨⟨_, _, _, _, Run.leaving_of_leaving? leaving, forms⟩,
    _, _, _, _, Run.leaving_of_leaving? leaving', faults⟩

end Catena
