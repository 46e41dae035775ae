import Catena.Proofs.Frame

/-!
# Deferred calls

A scope keeps its deferred calls until it closes, however it is closed, and makes each of them once then,
the newest first, before anything of it is undone. A lambda that is left in the middle takes those of its
scopes along. But a call needs room for a scope of its own. Where the scopes are as many as there may be,
none of the deferred calls is made, and they are gone (`UnderWay.deferred_calls`).
-/

namespace Catena

/-- The deferred calls of the scopes, those of the bottom scope first. -/
def Thread.pending (t : Thread) : List (List Value) :=
  t.scopes.toList.map Scope.defers

/-- The deferred calls of the scopes that were cut off. -/
def Coroutine.pending (c : Coroutine) : List (List Value) :=
  c.scopes.toList.map Scope.defers

/-- The machine with the deferred calls of its innermost scope taken out. -/
def Machine.taking (m : Machine) : Machine :=
  { m with thread := m.thread.modifyScope fun s => { s with defers := [] } }

/-- What a deferred call of a scope of machine `m` finds: the thread is where it was, with the scope open
and its variables in force, and the other scopes have all their deferred calls. -/
structure Machine.Hosts (m n : Machine) : Prop where
  framed : m.thread.Framed n.thread
  pending : n.thread.pending = m.thread.pending
  config : n.shared.config = m.shared.config

namespace Run

/-- The values are called in this order, each of them once, on machines with property `P`. The first fault
of a call is kept. -/
inductive CallsEach (r : Reentry) (P : Machine → Prop) :
    List Value → Machine → Option Fault → Machine → Prop
  | done {m : Machine} (within : P m) : CallsEach r P [] m none m
  | back {f : Value} {rest : List Value} {m n p : Machine} {answer : Option Value} {first : Option Fault}
      (within : P m) (called : r.call f [] m = .ok answer n) (later : CallsEach r P rest n first p) :
      CallsEach r P (f :: rest) m first p
  | failed {f : Value} {rest : List Value} {m n p : Machine} {e : Fault} {first : Option Fault}
      (within : P m) (called : r.call f [] m = .error (.fault e) n)
      (later : CallsEach r P rest
        { n with shared := n.shared.note .warn Phase.vm.target fun _ => s!"deferred call failed: {e.text}" }
        first p) :
      CallsEach r P (f :: rest) m (some e) p

/-- An end with a fault if there is one. -/
def outcome (first : Option Fault) (n : Machine) : EStateM.Result Halt Machine Unit :=
  match first with
  | none => .ok () n
  | some f => .error (.fault f) n

end Run

/-- The innermost scope of machine `m` has been closed, which led to machine `n`. -/
structure Machine.Retires (depth : Nat) (keepTop : Bool) (m n : Machine) : Prop where
  /-- All deferred calls were made, and only then was the scope closed. -/
  calls : ∃ first p,
    Run.CallsEach (Run.reentry depth) m.taking.Hosts m.thread.scope.defers m.taking first p ∧
      n.thread = (p.thread.closeScope keepTop).2 ∧
      Run.closeScope (Run.reentry depth) keepTop m = Run.outcome first n
  /-- Without room for one scope more, each call is refused, and what it calls is not run. -/
  refused : ¬ m.hasRoom → m.thread.scope.defers ≠ [] →
    n.thread = (m.taking.thread.closeScope keepTop).2 ∧
      Run.closeScope (Run.reentry depth) keepTop m =
        Run.outcome (some (Fault.scopeLimit m.shared.config.limits.maxScopeDepth)) n

variable {ops : List Op} {m n q : Machine} {depth : Nat}

theorem Thread.Aside.pending {t t' : Thread} (h : t.Aside t') : t'.pending = t.pending := by
  have kept := h.keeps.scopes
  have all : t.scopes.toList.take t.scopes.size = t.scopes.toList := by
    rw [← Array.length_toList, List.take_length]
  have all' : t'.scopes.toList.take t.scopes.size = t'.scopes.toList := by
    rw [← h.size, ← Array.length_toList, List.take_length]
  rw [all, all'] at kept
  have same : List.Forall₂ (· = ·) (t.scopes.toList.map Scope.defers) (t'.scopes.toList.map Scope.defers) := by
    rw [List.forall₂_map_left_iff, List.forall₂_map_right_iff]
    apply kept.imp
    intro s s' kept
    have defers := congrArg Scope.defers kept.same
    exact defers.symm
  exact (List.forall₂_eq_eq_eq ▸ same).symm

namespace Machine.Hosts

theorem refl (m : Machine) : m.Hosts m := ⟨(Thread.Aside.refl m.thread).framed, rfl, rfl⟩

theorem after (h : m.Hosts n) (aside : n.thread.Aside q.thread)
    (config : q.shared.config = n.shared.config) : m.Hosts q where
  framed := by
    have framed := aside.framed
    exact ⟨framed.pc.trans h.framed.pc, framed.retPc.trans h.framed.retPc, framed.loopBase.trans h.framed.loopBase,
      framed.depth.trans h.framed.depth, framed.env.trans h.framed.env,
      framed.tries.trans h.framed.tries, framed.valueStacks.trans h.framed.valueStacks⟩
  pending := aside.pending.trans h.pending
  config := config.trans h.config

theorem room (h : m.Hosts n) : n.hasRoom ↔ m.hasRoom := by
  rw [Machine.hasRoom, Machine.hasRoom, h.framed.depth, h.config]

end Machine.Hosts

namespace Run

theorem call_config (depth : Nat) (f : Value) (args : List Value) (m : Machine) :
    (((reentry depth).call f args).after m).shared.config = m.shared.config :=
  ((makes_reentry depth).call f args m).changes.config

/-! ## Closing -/

theorem meets_callsEach (depth : Nat) {calls : List Value} (tame : ∀ v ∈ calls, v.Tame)
    (orderly : n.Orderly ops) (hosts : m.Hosts n) (first : Option Fault) :
    Meets ops n (makeDeferred (reentry depth) calls first)
      (fun all p => ∃ own, all = first.or own ∧ CallsEach (reentry depth) m.Hosts calls n own p)
      fun _ => False := by
  induction calls generalizing n first with
  | nil => exact .of_ok rfl ⟨none, (Option.or_none).symm, .done hosts⟩
  | cons f rest ih =>
    have later := fun v member => tame v (List.mem_cons_of_mem f member)
    have called := (sound_reentry ops depth).call f [] (tame f List.mem_cons_self) nofun n orderly
    have config := call_config depth f [] n
    apply called.attempt.bind
    intro result p ended _
    rcases attempt_cases ended with ⟨a, rfl, run⟩ | ⟨e, rfl, run⟩
    · obtain ⟨orderly', aside⟩ := (called.ok run).1
      rw [after_ok run] at config
      apply (ih later orderly' (hosts.after aside config) first).mono
      · rintro all q - ⟨own, rfl, calls⟩
        exact ⟨own, rfl, .back hosts run calls⟩
      · exact fun _ never => never
    · obtain ⟨orderly', aside⟩ := called.fault run
      rw [after_error run] at config
      have noted := (stable_note .warn (fun _ => s!"deferred call failed: {e.text}") p orderly').ok rfl
      have drift := note_drift p.shared .warn Phase.vm.target (fun _ => s!"deferred call failed: {e.text}")
      apply Meets.next rfl
      apply (ih later noted.1.orderly (hosts.after aside ((drift none).config.trans config)) _).mono
      · rintro all q - ⟨own, rfl, calls⟩
        refine ⟨some e, ?_, .failed hosts run calls⟩
        cases first <;> rfl
      · exact fun _ never => never

/-- Without room each call is refused where it would be made. -/
theorem call_refused {f : Value} {args : List Value} (full : ¬ m.hasRoom) :
    (reentry (depth + 1)).call f args m =
      .error (.fault (Fault.scopeLimit m.shared.config.limits.maxScopeDepth)) m := by
  have limit : m.shared.config.limits.maxScopeDepth ≤ m.thread.scopes.size := Nat.le_of_not_lt full
  have check : checkRoom m = .error (.fault (Fault.scopeLimit m.shared.config.limits.maxScopeDepth)) m := by
    simp only [checkRoom, maxScopes, bind_apply, askShared, ask]
    rw [if_pos limit]
    rfl
  have block : openBlock true m.thread.safety m =
      .error (.fault (Fault.scopeLimit m.shared.config.limits.maxScopeDepth)) m := by
    rw [openBlock, bind_apply, check]
  have ask : ask (fun t => (t.pc, t.retPc, t.scopes.size)) m =
      .ok (m.thread.pc, m.thread.retPc, m.thread.scopes.size) m := rfl
  have safety : Run.ask Thread.safety m = .ok m.thread.safety m := rfl
  rw [reentry]
  dsimp only
  rw [callNested, bind_apply, ask]
  dsimp only
  rw [bind_apply, safety]
  dsimp only
  rw [bind_apply, block]

/-- Without room nothing but the log changes as deferred calls are made. -/
theorem CallsEach.refused {P : Machine → Prop} {calls : List Value} {first : Option Fault}
    (h : CallsEach (reentry depth) P calls m first n) (full : ¬ m.hasRoom) :
    n.thread = m.thread ∧ (calls ≠ [] → first = some (Fault.scopeLimit m.shared.config.limits.maxScopeDepth)) := by
  induction h with
  | done _ => exact ⟨rfl, fun some => absurd rfl some⟩
  | back _ called _ _ =>
    cases depth with
    | zero => cases called
    | succ depth =>
      rw [call_refused full] at called
      cases called
  | @failed f rest m n p e first _ called _ ih =>
    cases depth with
    | zero => cases called
    | succ depth =>
      rw [call_refused full] at called
      cases called
      have drift := note_drift m.shared .warn Phase.vm.target
        (fun _ => s!"deferred call failed: {(Fault.scopeLimit m.shared.config.limits.maxScopeDepth).text}") none
      have still : ¬ Machine.hasRoom { m with shared := m.shared.note .warn Phase.vm.target fun _ =>
          s!"deferred call failed: {(Fault.scopeLimit m.shared.config.limits.maxScopeDepth).text}" } := by
        rw [Machine.hasRoom, drift.config]
        exact full
      exact ⟨(ih still).1, fun _ => rfl⟩

theorem closeScope_made {r : Reentry} {first : Option Fault} (keepTop : Bool)
    (more : 2 ≤ m.thread.scopes.size) (made : makeDeferred r m.thread.scope.defers none m.taking = .ok first q) :
    ∃ n, closeScope r keepTop m = outcome first n ∧ n.thread = (q.thread.closeScope keepTop).2 := by
  have few : ¬ m.thread.scopes.size ≤ 1 := by omega
  have takes : alter (·.modifyScope fun s => { s with defers := [] }) m = .ok () m.taking := rfl
  rw [closeScope, bind_apply, ask]
  dsimp only
  rw [if_neg few]
  simp only [bind_apply, ask, takes, made]
  cases q.thread.scope.fiber with
  | none => cases first <;> exact ⟨_, rfl, rfl⟩
  | some f => cases first <;> exact ⟨_, rfl, rfl⟩

theorem closeScope_stopped {r : Reentry} {e : Halt} (keepTop : Bool)
    (more : 2 ≤ m.thread.scopes.size) (made : makeDeferred r m.thread.scope.defers none m.taking = .error e q) :
    closeScope r keepTop m = .error e q := by
  have few : ¬ m.thread.scopes.size ≤ 1 := by omega
  have takes : alter (·.modifyScope fun s => { s with defers := [] }) m = .ok () m.taking := rfl
  rw [closeScope, bind_apply, ask]
  dsimp only
  rw [if_neg few]
  simp only [bind_apply, ask, takes, made]

/-- The closing of one scope. -/
theorem retires_closeScope (depth : Nat) (keepTop : Bool) (orderly : m.Orderly ops)
    (more : 2 ≤ m.thread.scopes.size) :
    let Q n := m.Shuts ops keepTop n ∧ m.Retires depth keepTop n
    Meets ops m (closeScope (reentry depth) keepTop) (fun _ => Q) Q := by
  have shuts := meets_closeScope (sound_reentry ops depth) keepTop orderly more
  have takes : Stable ops (alter (·.modifyScope fun s => { s with defers := [] })) Untold :=
    .alter (.defer fun _ => []) fun t all => all.modifyScope fun s h => { h with defers := nofun }
  have taken : m.taking.Orderly ops := ((takes m orderly).ok rfl).1.orderly
  have made := meets_callsEach depth orderly.thread.all.scope.defers taken (.refl m.taking) none
  cases ends : makeDeferred (reentry depth) m.thread.scope.defers none m.taking with
  | ok first p =>
    obtain ⟨own, same, calls⟩ := made.ok ends
    obtain rfl : first = own := same
    obtain ⟨n, run, thread⟩ := closeScope_made keepTop more ends
    have retires : m.Retires depth keepTop n := by
      refine ⟨⟨first, p, calls, thread, run⟩, fun full some => ?_⟩
      have full' : ¬ m.taking.hasRoom := by
        rw [Machine.hasRoom, Machine.taking, Thread.modifyScope, Array.size_modify]
        exact full
      obtain ⟨same, refused⟩ := calls.refused full'
      rw [thread, same, run, refused some]
      exact ⟨rfl, rfl⟩
    cases first with
    | none => exact .of_ok run ⟨shuts.ok run, retires⟩
    | some f => exact .of_fault run ⟨shuts.fault run, retires⟩
  | error e p =>
    have run := closeScope_stopped keepTop more ends
    cases e with
    | fault f => exact (made.fault ends).elim
    | outOfFuel =>
      rw [Meets, run]
      exact shuts.stopped run

end Run

/-! ## What is cut off -/

theorem Thread.cut_pending {t : Thread} {i : Nat} {head : Scope} (found : t.scopes[i]? = some head)
    (lambda : Nat) : (t.cut i head lambda).1.pending = t.pending.drop i ∧
      (t.cut i head lambda).2.pending = t.pending.take i := by
  constructor
  · rw [Coroutine.pending, cut_scopes found, Thread.pending, ← List.map_drop]
    rw [← Array.getElem?_toList] at found
    rw [parted found, List.map_cons, List.map_cons, List.map_map]
    rfl
  · rw [Thread.pending, cut, extract_lower, List.map_take, Thread.pending]

theorem Thread.graft_pending (t : Thread) (coro : Coroutine) (retPc : Nat) (fiber : Option Ref) :
    (t.graft coro retPc fiber).pending = t.pending ++ coro.pending := by
  rw [Thread.pending, Thread.pending, Coroutine.pending]
  cases all : coro.scopes.toList with
  | nil =>
    have none : coro.scopes = #[] := by simpa using all
    simp [graft, none]
  | cons head rest =>
    rw [graft_scopes all, List.map_append, List.map_cons, List.map_cons, List.map_map]
    rfl

/-- Deferred calls are made as their scope closes, each of them once and the newest first, unless there
is no room for any. They stay as they are through a call from inside an operation, and go with the scopes
that are cut off and put back. -/
theorem UnderWay.deferred_calls (h : UnderWay m) (depth : Nat) (keepTop : Bool) :
    (2 ≤ m.thread.scopes.size → (Run.closeScope (Run.reentry depth) keepTop).Ends m →
      m.Retires depth keepTop ((Run.closeScope (Run.reentry depth) keepTop).after m)) ∧
    (∀ target, (Run.unwindTo (Run.reentry depth) target keepTop).Ends m →
      let n := (Run.unwindTo (Run.reentry depth) target keepTop).after m
      n.thread.scopes.size = min m.thread.scopes.size (max target 1) ∧
        Relation.ReflTransGen (Machine.Retires depth keepTop) m n) ∧
    (∀ target args, target.Tame → (∀ v ∈ args, v.Tame) →
      (Run.callNested (Run.reentry depth) target args).Ends m →
      ((Run.callNested (Run.reentry depth) target args).after m).thread.pending = m.thread.pending) ∧
    (∀ level c n, Run.suspend level m = .ok c n → ∃ i coro, n.thread.pending = m.thread.pending.take i ∧
      coro.pending = m.thread.pending.drop i ∧
      ((∃ id, n.thread.coros.find? id = some coro) ∨
        ∃ f : Ref, ∀ fiber, n.shared.store.fibers[f]? = some fiber → fiber.state = .suspended coro)) ∧
    ∀ coro retPc fiber c n, Run.resume coro retPc fiber m = .ok c n →
      n.thread.pending = m.thread.pending ++ coro.pending := by
  obtain ⟨ops, orderly⟩ := h.orderly
  refine ⟨fun more ends => ?_, fun target ends => ?_, fun target args tame all ends => ?_,
    fun level c n left => ?_, fun coro retPc fiber c n done => ?_⟩
  · exact ((Run.retires_closeScope depth keepTop orderly more).after ends).2
  · have closing (p : Machine) (orderly : p.Orderly ops) (more : 2 ≤ p.thread.scopes.size) :=
      Run.retires_closeScope depth keepTop orderly more
    obtain ⟨closes, steps⟩ := (Run.chain_unwindTo closing target orderly).after ends
    exact ⟨closes.size, steps⟩
  · have sound := (Run.sound_reentry ops (depth + 1)).call target args tame all m orderly
    have called : Run.Meets ops m (Run.callNested (Run.reentry depth) target args)
        (fun _ n => m.thread.Aside n.thread) (fun n => m.thread.Aside n.thread) :=
      sound.mono (fun _ _ _ both => both.1.2) fun _ both => both.2
    exact (called.after ends).pending
  · rcases Run.suspend_cases level m with ⟨f, failed⟩ |
      ⟨i, head, callee, s, -, -, found, -, drift, -, done⟩
    · rw [failed] at left
      cases left
    · obtain ⟨off, below⟩ := Thread.cut_pending found callee.body.id
      rw [done] at left
      cases fiber : head.fiber with
      | none =>
        rw [fiber] at left
        cases left
        refine ⟨i, _, below, off, .inl ⟨callee.body.id, ?_⟩⟩
        rw [Dict.find?_insert]
        exact if_pos rfl
      | some f =>
        rw [fiber] at left
        cases left
        refine ⟨i, _, below, off, .inr ⟨f, fun fiber there => ?_⟩⟩
        simp only [Machine.alterFibers, Array.getElem?_modify, if_true] at there
        obtain ⟨old, -, rfl⟩ := Option.map_eq_some_iff.1 there
        rfl
  · rcases Run.resume_cases coro retPc fiber m with ⟨e, failed, -⟩ | ⟨-, -, goes⟩
    · rw [failed] at done
      cases done
    · rw [goes] at done
      cases done
      exact m.thread.graft_pending coro retPc fiber

/-- A machine at the end of a block that has deferred two calls, of which the newer one will fail. -/
def Machine.deferring : Machine :=
  let m := (Run.compile "( 5 defer: 7 ; defer: nope ; )").after (Engine.new {} .silent {})
  (Lookout.idle.runUntil 12).after { m with thread := { m.thread with pc := 0 } }

/-- Both calls are made, and the closing fails with the fault of the first. -/
theorem UnderWay.deferred_calls_failing :
    Machine.deferring.thread.pending.map List.length = [0, 2] ∧
      (Run.closeScope (Run.reentry 2) true).answer? .deferring = none ∧
      Machine.deferring.Retires 2 true ((Run.closeScope (Run.reentry 2) true).after .deferring) := by
  have deferring : UnderWay .deferring :=
    .run .idle 12 (.goTo 0 (.compile _ (.of_not_mem (by decide)) (.new ..)))
  obtain ⟨more, ends, pending, fails⟩ : 2 ≤ Machine.deferring.thread.scopes.size ∧
      (Run.closeScope (Run.reentry 2) true).Ends .deferring ∧
      Machine.deferring.thread.pending.map List.length = [0, 2] ∧
      ((Run.closeScope (Run.reentry 2) true).answer? .deferring).isNone = true := by decide +kernel
  exact ⟨pending, Option.isNone_iff_eq_none.1 fails, (deferring.deferred_calls 2 true).1 more ends⟩

end Catena
