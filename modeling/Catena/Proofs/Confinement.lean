import Catena.Proofs.Hygiene
import Catena.Proofs.Layout.Words
import Catena.Proofs.Run.Detour

/-!
# Confinement

A program that never says `unsafe:` stays at the level of its root scope: so do the scopes of every
thread, those that are put away in coroutines, and whatever is called. No act of a run opens a scope
above the level that was in force, unless the operation that opens it says so (`Act.confined`).
-/

namespace Catena

variable {s level : Safety} {m n p : Machine}

/-- None of the scopes allows more than `s`. -/
def Confined (s : Safety) (scopes : Array Scope) : Prop :=
  ∀ k ∈ scopes, k.safety ≤ s

namespace Confined

variable {xs ys : Array Scope}

/-- Scopes may come to differ in anything but their levels. -/
theorem of_map {α : Type} {f : Scope → α} (levels : ∀ a b, f a = f b → a.safety = b.safety)
    (h : Confined s xs) (same : ys.map f = xs.map f) : Confined s ys := by
  intro k member
  have there : f k ∈ xs.map f := same ▸ Array.mem_map_of_mem member
  obtain ⟨k', member', eq⟩ := Array.mem_map.1 there
  exact levels k' k eq ▸ h k' member'

theorem modify (h : Confined s xs) (i : Nat) {f : Scope → Scope}
    (levels : ∀ k, (f k).safety = k.safety) : Confined s (xs.modify i f) :=
  h.of_map (f := Scope.safety) (fun _ _ => id) (Thread.Drift.map_modify xs i f _ levels)

theorem map (h : Confined s xs) {f : Scope → Scope} (levels : ∀ k, (f k).safety = k.safety) :
    Confined s (xs.map f) := by
  intro k member
  obtain ⟨k', member', rfl⟩ := Array.mem_map.1 member
  rw [levels]
  exact h k' member'

theorem push (h : Confined s xs) {k : Scope} (low : k.safety ≤ s) : Confined s (xs.push k) := by
  intro k' member
  rcases Array.mem_push.1 member with old | rfl
  · exact h k' old
  · exact low

theorem append (h : Confined s xs) (k : Confined s ys) : Confined s (xs ++ ys) := by
  intro a member
  exact (Array.mem_append.1 member).elim (h a) (k a)

theorem extract (h : Confined s xs) (i j : Nat) : Confined s (xs.extract i j) := by
  intro k member
  obtain ⟨a, bound, rfl⟩ := Array.mem_iff_getElem.1 member
  rw [Array.getElem_extract]
  exact h _ (Array.getElem_mem _)

end Confined

/-- Nothing in the machine allows more than `s`, now or when it goes on. -/
structure Machine.Confined (s : Safety) (m : Machine) : Prop where
  scopes : Catena.Confined s m.thread.scopes
  coros : ∀ id c, m.thread.coros.find? id = some c → Catena.Confined s c.scopes
  fibers : ∀ f ∈ m.shared.store.fibers, ∀ c, f.state = .suspended c → Catena.Confined s c.scopes
  ops : ∀ ownStack l, .begin ownStack (some l) ∈ m.thread.ops → l ≤ s

theorem Thread.safety_le {t : Thread} (h : Confined s t.scopes) : t.safety ≤ s := by
  rw [Thread.safety, Thread.scope]
  cases last : t.scopes.back? with
  | none => exact Nat.zero_le _
  | some k => exact h k (Array.mem_of_back? last)

namespace Machine.Confined

/-- Another thread, with the same operations. -/
theorem thread (h : m.Confined s) {t : Thread} (scopes : Catena.Confined s t.scopes)
    (coros : ∀ id c, t.coros.find? id = some c → Catena.Confined s c.scopes)
    (ops : t.ops = m.thread.ops) : Machine.Confined s { m with thread := t } :=
  ⟨scopes, coros, h.fibers, by rw [ops]; exact h.ops⟩

/-- Other scopes. -/
theorem withScopes (h : m.Confined s) {t : Thread} (scopes : Catena.Confined s t.scopes)
    (coros : t.coros = m.thread.coros) (ops : t.ops = m.thread.ops) :
    Machine.Confined s { m with thread := t } :=
  h.thread scopes (by rw [coros]; exact h.coros) ops

/-- Other fibers. -/
theorem alterFibers (h : m.Confined s) {f : Array Fiber → Array Fiber}
    (kept : ∀ a ∈ f m.shared.store.fibers, a ∈ m.shared.store.fibers ∨
      ∀ c, a.state = .suspended c → Catena.Confined s c.scopes) : (m.alterFibers f).Confined s := by
  refine ⟨h.scopes, h.coros, fun a member c left => ?_, h.ops⟩
  rcases kept a member with old | new
  · exact h.fibers a old c left
  · exact new c left

/-- One fiber in another state. -/
theorem setFiber (h : m.Confined s) (i : Ref) {state : FiberState}
    (new : ∀ c, state = .suspended c → Catena.Confined s c.scopes) :
    (m.alterFibers (·.modify i fun f => { f with state })).Confined s := by
  refine h.alterFibers fun a member => ?_
  obtain ⟨j, bound, rfl⟩ := Array.mem_iff_getElem.1 member
  rw [Array.getElem_modify]
  split
  · exact .inr new
  · exact .inl (Array.getElem_mem _)

theorem cut (h : m.Confined s) (i : Nat) (head : Scope) (id : Nat) :
    Catena.Confined s (m.thread.cut i head id).1.scopes ∧
      Catena.Confined s (m.thread.cut i head id).2.scopes := by
  let lowered (k : Scope) : Scope := { k with stack := k.stack - head.stack }
  let bare (k : Scope) : Scope := { k with callerEnv := none, fiber := none }
  refine ⟨?_, h.scopes.extract _ _⟩
  exact ((h.scopes.extract _ _).modify 0 (f := bare) fun _ => rfl).map (f := lowered) fun _ => rfl

theorem graft (h : m.Confined s) {coro : Coroutine} (low : Catena.Confined s coro.scopes)
    (retPc : Nat) (fiber : Option Ref) :
    Catena.Confined s (m.thread.graft coro retPc fiber).scopes := by
  let raised (k : Scope) : Scope := { k with stack := k.stack + (m.thread.valueStacks.size - 1) }
  let called (k : Scope) : Scope := { k with callerEnv := some m.thread.env, retPc, fiber }
  exact h.scopes.append ((low.map (f := raised) fun _ => rfl).modify 0 (f := called) fun _ => rfl)

theorem fork (h : m.Confined s) (id : Nat) :
    Machine.Confined s { m with thread := m.thread.fork id } := by
  refine ⟨fun k member => ?_, nofun, h.fibers, h.ops⟩
  rw [Array.mem_singleton.1 member]
  exact m.thread.safety_le h.scopes

end Machine.Confined

/-- What a machine does that is confined leaves it confined, if its lambdas are called where it is. -/
theorem Act.confined (act : Act False level m n) (low : level ≤ s) (h : m.Confined s) :
    n.Confined s := by
  cases act with
  | shared t drift => exact ⟨h.scopes, h.coros, by rw [drift.fibers]; exact h.fibers, h.ops⟩
  | thread t calm =>
    refine h.thread (h.scopes.of_map (f := Scope.calm) ?_ calm.scopes) ?_ calm.ops
    · exact fun a b same => congrArg (fun k => k.safety) same
    · exact fun id c found => h.coros id c (calm.drift.coros id c found)
  | newFiber id target =>
    refine h.alterFibers fun a member => ?_
    rcases Array.mem_push.1 member with old | rfl
    · exact .inl old
    · exact .inr nofun
  | markFiber f state other => exact h.setFiber f fun c same => absurd same (other c)
  | remember => exact h.withScopes h.scopes rfl rfl
  | bind name v =>
    let hides (k : Scope) : Scope := { k with bound := (name, m.thread.env.find? name) :: k.bound }
    exact h.withScopes (h.scopes.modify (m.thread.scopes.size - 1) (f := hides) fun _ => rfl) rfl rfl
  | openBlock ownStack safety _ _ given =>
    refine h.withScopes (h.scopes.push ?_) rfl rfl
    rcases given with rfl | said
    · exact m.thread.safety_le h.scopes
    · exact h.ops ownStack safety said
  | openTry frame =>
    exact h.withScopes (h.scopes.push (m.thread.safety_le h.scopes)) rfl rfl
  | openLambda c safety retPc fiber _ _ _ below =>
    exact h.withScopes (h.scopes.push (Safety.le_trans below low)) rfl rfl
  | close keepTop =>
    rw [Thread.closeScope_eq]
    refine h.withScopes (fun k member => h.scopes k ?_) rfl rfl
    have inside : k ∈ m.thread.scopes.toList.dropLast := by simpa using Array.mem_def.1 member
    exact Array.mem_def.2 (List.dropLast_subset _ inside)
  | restart i c =>
    let fresh (k : Scope) : Scope := { k with bound := [], loops := ∅ }
    exact h.withScopes (h.scopes.modify i (f := fresh) fun _ => rfl) rfl rfl
  | suspendLambda i head callee =>
    obtain ⟨left, kept⟩ := h.cut i head callee.body.id
    refine h.thread kept (fun id c found => ?_) rfl
    rw [Dict.find?_insert] at found
    split at found
    · exact Option.some.inj found ▸ left
    · exact h.coros id c found
  | suspendFiber i head callee f =>
    obtain ⟨left, kept⟩ := h.cut i head callee.body.id
    refine Machine.Confined.setFiber (h.withScopes kept rfl rfl) f fun c same => ?_
    cases same
    exact left
  | resumeLambda id coro retPc found =>
    refine h.thread (h.graft (h.coros id coro found) retPc none) (fun other c known => ?_) rfl
    change (m.thread.coros.erase id).find? other = some c at known
    rw [Dict.find?_erase] at known
    split at known
    · cases known
    · exact h.coros other c known
  | resumeFiber f fiber coro retPc found left =>
    have low := h.fibers fiber (Array.mem_of_getElem? found) coro left
    exact Machine.Confined.setFiber (h.withScopes (h.graft low retPc (some f)) rfl rfl) f nofun

/-- Acts one after the other, other threads in between, leave the machine confined. -/
theorem Acts.confined (acts : Acts False m n) (h : m.Confined s) : n.Confined s := by
  induction acts with
  | refl => exact h
  | next _ _ act first second =>
    have start := first h
    exact act.confined (Thread.safety_le start.scopes) (second start)
  | fork id _ _ ih child =>
    have start := ih h
    exact ⟨start.scopes, start.coros, (child (start.fork id)).fibers, start.ops⟩

theorem Passes.confined (passes : Passes m n) (h : m.Confined s) : n.Confined s := by
  induction passes with
  | start => exact h
  | acts _ acts ih => exact acts.confined ih
  | fork id _ ih => exact ih.fork id

theorem Machine.Confined.kept (s : Safety) : Kept (Machine.Confined s) where
  acts _ _ acts h := acts.confined h
  fork _ id h := h.fork id

/-! ## Programs that never say `unsafe:` -/

/-- The machines that an engine comes to whose root scope is put at level `s`, when no text that it
compiles says `unsafe:` and the root is not put higher. Runs may have been stopped anywhere. -/
inductive Sandboxed (s : Safety) : Machine → Prop
  | new (config : Config) (log : Log.Logger) (host : Host) :
      Sandboxed s
        { Engine.new config log host with
          thread := (Engine.new config log host).thread.setRootSafety s }
  | compile {m : Machine} (text : String) : ¬ Says text "unsafe:" → Sandboxed s m →
      Sandboxed s ((Run.compile text).after m)
  | define {m : Machine} (name : String) (args : List Arg) (safety : Safety) (f : Native) :
      Sandboxed s m →
      Sandboxed s { m with shared := (m.shared.addImp name args safety (.native f)).2 }
  | allow {m : Machine} (safety : Safety) : safety ≤ s → Sandboxed s m →
      Sandboxed s { m with thread := m.thread.setRootSafety safety }
  | push {m : Machine} (v : Value) : Sandboxed s m →
      Sandboxed s { m with thread := m.thread.push v }
  | goTo {m : Machine} (pc : Nat) : Sandboxed s m →
      Sandboxed s { m with thread := { m.thread with pc } }
  | run {m : Machine} (w : Watch) (stop : Nat) : Sandboxed s m →
      Sandboxed s ((w.runUntil stop).after m)
  | fork {m : Machine} (id : Nat) : Sandboxed s m →
      Sandboxed s { m with thread := m.thread.fork id }
  | call {m : Machine} (w : Watch) (depth : Nat) (target : Value) : Sandboxed s m →
      Sandboxed s (((w.reentry depth).runThread target).after m)

/-- A block with a level of its own is compiled from the word. -/
theorem Reached.compiled_levels {kind : Watch → Prop} (h : Reached kind m) {text : String}
    {base : Nat} {code : Code} {c : Compiler}
    (ok : Compile.source text base { shared := m.shared } = .ok code c)
    (unsaid : ¬ Says text "unsafe:") (ownStack : Bool) (l : Safety) :
    .begin ownStack (some l) ∉ code.ops := by
  intro member
  apply unsaid
  apply h.compiled_words ok
  exact List.mem_filterMap.2 ⟨_, member, rfl⟩

namespace Machine.Confined

/-- The root scope may be put lower. -/
theorem setRootSafety (h : m.Confined s) {l : Safety} (low : l ≤ s) :
    Machine.Confined s { m with thread := m.thread.setRootSafety l } := by
  refine h.withScopes (fun k member => ?_) rfl rfl
  obtain ⟨i, bound, rfl⟩ := Array.mem_iff_getElem.1 member
  simp only [Thread.setRootSafety, Array.getElem_modify]
  split
  · exact low
  · exact h.scopes _ (Array.getElem_mem _)

/-- More operations, none of which opens a block with a level of its own. -/
theorem extend (h : m.Confined s) {ops : List Op}
    (plain : ∀ ownStack l, .begin ownStack (some l) ∉ ops) :
    Machine.Confined s
      { m with thread := { m.thread with ops := m.thread.ops ++ ops.toArray } } := by
  refine ⟨h.scopes, h.coros, h.fibers, fun ownStack l member => ?_⟩
  rcases Array.mem_append.1 member with old | new
  · exact h.ops ownStack l old
  · exact absurd (List.mem_toArray.1 new) (plain ownStack l)

theorem compile (h : m.Confined s) {kind : Watch → Prop} (reached : Reached kind m) {text : String}
    (unsaid : ¬ Says text "unsafe:") : ((Run.compile text).after m).Confined s := by
  rcases Run.compile_deeds text m with deeds | ⟨code, c, made, before, after⟩
  · exact Acts.confined (Deeds.acts deeds) h
  · apply after.acts.confined
    exact (before.acts.confined h).extend (reached.compiled_levels made unsaid)

/-- A new engine has its root scope only, and no operations. -/
theorem new (s : Safety) (config : Config) (log : Log.Logger) (host : Host) :
    Machine.Confined s
      { Engine.new config log host with
        thread := (Engine.new config log host).thread.setRootSafety s } := by
  refine ⟨fun k member => ?_, nofun, ?_, nofun⟩
  · obtain rfl : k = Scope.root s := Array.mem_singleton.1 member
    exact Safety.le_refl s
  · rw [(new_drift config log host).fibers]
    nofun

end Machine.Confined

namespace Sandboxed

theorem reached (h : Sandboxed s m) : Reached anyWatch m := by
  induction h with
  | new config log host => exact .allow s (.new config log host)
  | compile text _ _ ih => exact .compile text ih
  | define name args safety f _ ih => exact .define name args safety f ih
  | allow safety _ _ ih => exact .allow safety ih
  | push v _ ih => exact .push v ih
  | goTo pc _ ih => exact .goTo pc ih
  | run w stop _ ih => exact .run w stop trivial ih
  | fork id _ ih => exact .fork id ih
  | call w depth target _ ih => exact .call w depth target trivial ih

/-- What an engine comes to stays at the level of its root scope. -/
theorem confined (h : Sandboxed s m) : m.Confined s := by
  induction h with
  | new config log host => exact .new s config log host
  | compile text unsaid before ih => exact ih.compile before.reached unsaid
  | define name args safety f _ ih => exact (Act.shared _ (addImp_drift ..)).acts.confined ih
  | allow safety low _ ih => exact ih.setRootSafety low
  | @push m v _ ih =>
    have calm := (Thread.Tidy.modifyStack (·.push v)).calm m.thread
    exact (Act.thread _ calm).acts.confined ih
  | goTo pc _ ih => exact ih.withScopes ih.scopes rfl rfl
  | run w stop _ ih => exact (Watch.makes_runUntil False.elim stop _).acts.confined ih
  | fork id _ ih => exact ih.fork id
  | call w depth target _ ih =>
    have makes : (w.reentry depth).Makes False := w.makes_reentry False.elim depth
    exact (makes.runThread target _).acts.confined ih

/-- A program that never says `unsafe:` stays at the level of its root scope. A run of it does acts one
after the other; none of them, in any of its threads, puts a scope on the stack or away that allows
more; and implementations that need more are never run, for anything could be done in their place. -/
theorem confinement (h : Sandboxed s m) :
    (∀ (w : Watch) stop, Passes m ((w.runUntil stop).after m)) ∧
    (∀ (w : Watch) depth target, Passes m (((w.reentry depth).runThread target).after m)) ∧
    (∀ n, Passes m n → n.Confined s) ∧
    ∀ d : Detour, d.level = s → ∀ n, Passes m n →
      (∀ stop, d.runUntil stop n = Run.runUntil stop n) ∧
      ∀ depth target,
        (d.reentry depth).runThread target n = (Run.reentry depth).runThread target n ∧
        ∀ args, (d.reentry depth).call target args n = (Run.reentry depth).call target args n := by
  refine ⟨fun w stop => ?_, fun w depth target => ?_, fun n passes => passes.confined h.confined,
    fun d level n passes => ?_⟩
  · exact Passes.start.acts (Watch.makes_runUntil False.elim stop m).acts
  · have makes : (w.reentry depth).Makes False := w.makes_reentry False.elim depth
    exact Passes.start.acts (makes.runThread target m).acts
  · have low (p : Machine) (confined : p.Confined s) : p.thread.safety ≤ d.level :=
      level ▸ Thread.safety_le confined.scopes
    have confined := passes.confined h.confined
    have same (depth : Nat) := d.agree_reentry (Machine.Confined.kept s) low depth
    exact ⟨fun stop => d.agree_runUntil (Machine.Confined.kept s) low stop n confined,
      fun depth target => ⟨(same depth).runThread target n confined, fun args =>
        (same depth).call target args n confined⟩⟩

end Sandboxed

/-- A machine that is about to look into a directory, which is more than its root scope allows. -/
def Machine.sandbox : Machine :=
  (Run.compile "\"..\" dir").after
    { Engine.new {} .silent {} with
      thread := (Engine.new {} .silent {}).thread.setRootSafety .safe }

theorem Sandboxed.confinement_safe :
    ¬ Says "\"..\" dir" "unsafe:" ∧
    ((Watch.idle.runUntil 100).after .sandbox).Confined .safe ∧
    Detour.runUntil ⟨.safe, fun _ => Run.exhausted⟩ 100 .sandbox = Run.runUntil 100 .sandbox := by
  have plain : (match Token.scan 0 "\"..\" dir".toList with
      | .ok ts => ts.all fun t => t.text != "unsafe:" && !t.isBrace
      | .error _ => true) = true := by
    decide +kernel
  have unsaid : ¬ Says "\"..\" dir" "unsafe:" := by
    rintro ⟨ts, scanned, t, member, said⟩
    rw [scanned] at plain
    have other := List.all_eq_true.1 plain t member
    cases said with
    | itself same => simp [same] at other
    | inside brace => simp [brace] at other
  have sandboxed : Sandboxed .safe .sandbox := .compile _ unsaid (.new {} .silent {})
  obtain ⟨runs, -, confined, detour⟩ := sandboxed.confinement
  exact ⟨unsaid, confined _ (runs .idle 100), (detour _ rfl _ .start).1 100⟩

end Catena
