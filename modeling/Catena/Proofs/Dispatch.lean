import Catena.Proofs.Choice
import Catena.Proofs.Nesting

/-!
# What program counters remember

A program counter remembers an implementation that was registered once, and takes it again wherever
it is allowed and fits. So a call comes to what the rule for overloads says, unless an implementation
that is newer than the one remembered has come to fit as well.
-/

namespace Catena

/-! ## Only what is registered is remembered -/

/-- All implementations remembered are registered, and told apart by their ids. -/
structure Machine.Recalls (m : Machine) : Prop where
  distinct : m.shared.registry.Distinct
  registered : ∀ pc imp, m.thread.cache.find? pc = some imp → m.shared.registry.Registered imp

section

variable {careful : Prop} {m n : Machine}

theorem Machine.Recalls.of_cache (h : m.Recalls)
    (grown : m.shared.registry.Grown n.shared.registry)
    (cache : ∀ pc imp, n.thread.cache.find? pc = some imp → m.thread.cache.find? pc = some imp) :
    n.Recalls :=
  ⟨grown.distinct h.distinct, fun pc imp found =>
    grown.registered imp (h.registered pc imp (cache pc imp found))⟩

theorem Change.recalls (h : Change careful m n) (recalls : m.Recalls) : n.Recalls := by
  cases h with
  | shared s h => exact recalls.of_cache h.registry fun _ _ found => found
  | thread t h => exact recalls.of_cache (.refl _) h.cache
  | remember imp name imps known member =>
    refine ⟨recalls.distinct, fun pc imp' found => ?_⟩
    rw [Dict.find?_insert] at found
    split at found
    · obtain rfl := Option.some.inj found
      exact ⟨name, imps, known, member⟩
    · exact recalls.registered pc imp' found
  | close keepTop h =>
    obtain ⟨-, -, -, cache⟩ := Thread.closeScope_rest m.thread keepTop
    exact recalls.of_cache (.refl _) fun _ _ found => cache ▸ found
  | _ => exact recalls.of_cache (.refl _) fun _ _ found => found

theorem Machine.Recalls.fork (h : m.Recalls) (id : Nat) :
    Machine.Recalls { m with thread := m.thread.fork id } :=
  ⟨h.distinct, nofun⟩

theorem Changes.recalls (h : Changes careful m n) (recalls : m.Recalls) : n.Recalls := by
  induction h with
  | refl => exact recalls
  | next _ step ih => exact step.recalls (ih recalls)
  | fork id _ child ih => exact (ih recalls).of_cache child.grown fun _ _ found => found

end

theorem recalls_new (config : Config) (log : Log.Logger) (host : Host) :
    (Engine.new config log host).Recalls := by
  have empty : Engine.bootRegistry.funcs = ∅ := rfl
  refine ⟨(new_drift config log host).registry.distinct ?_, nofun⟩
  constructor
  · rintro imp ⟨name, imps, found, -⟩
    rw [empty, Dict.find?_empty] at found
    cases found
  · rintro imp - ⟨name, imps, found, -⟩
    rw [empty, Dict.find?_empty] at found
    cases found

theorem Reached.recalls {kind : Watch → Prop} {m : Machine} (h : Reached kind m) : m.Recalls :=
  h.keeps (False.elim ·) recalls_new (fun _ id recalls => recalls.fork id) fun _ _ changes =>
    changes.recalls

/-! ## What a call by name comes to -/

/-- The implementation of an exact choice. -/
def Choice.direct? : Choice → Option Imp
  | .exact imp => some imp
  | _ => none

namespace Run

/-- What a call comes to that finds the given implementations. -/
def picked (imps : List Imp) (m : Machine) : Choice :=
  let usable := (m.thread.cache.find? m.thread.pc).filter fun imp =>
    imps.any (·.id == imp.id) && imp.allowed m.thread.safety && imp.fits m.thread.stack
  match usable with
  | some imp => .exact imp
  | none => choose imps m.shared.registry.findConv? m.thread.safety m.thread.stack

/-- Does what a call comes to. -/
def carryOut (r : Reentry) (name : String) (retPc : Nat) : Choice → Run Reply
  | .exact imp => invoke r imp retPc
  | .converted imp plan => do
    note .debug fun _ => s!"{name} applies after {plan.length} conversion(s)"
    convert r imp.args.length plan
    invoke r imp retPc
  | .blocked => do fail (Fault.notAllowed name (← ask Thread.safety).name)
  | .nothing => do fail (Fault.notApplicable name (← describeTop))

end Run

/-- The same machine with another memory. -/
def Machine.withCache (m : Machine) (cache : Dict Nat Imp) : Machine :=
  { m with thread := { m.thread with cache } }

/-- The implementation remembered here could be used again, but so could a newer one. -/
def Machine.Overtaken (m : Machine) (imps : List Imp) : Prop :=
  ∃ newer imp older, m.thread.cache.find? m.thread.pc = some imp ∧
    imps = newer ++ imp :: older ∧ imp ∉ newer ∧
    imp.safety ≤ m.thread.safety ∧ imp.Matches m.thread.stack ∧
    ∃ n ∈ newer, n.safety ≤ m.thread.safety ∧ n.Matches m.thread.stack

/-- The rule for overloads, where a machine stands. -/
def Machine.Rule (m : Machine) (imps : List Imp) : Choice → Prop :=
  Choice.Rule imps m.shared.registry.findConv? m.thread.safety m.thread.stack

namespace Run

/-- What is remembered while what a call comes to is carried out: only an exact choice. -/
def recalled (imps : List Imp) (m : Machine) : Dict Nat Imp :=
  let usable := (m.thread.cache.find? m.thread.pc).filter fun imp =>
    imps.any (·.id == imp.id) && imp.allowed m.thread.safety && imp.fits m.thread.stack
  match usable, picked imps m with
  | some _, _ => m.thread.cache
  | none, .exact imp => (m.thread.cache.erase m.thread.pc).insert m.thread.pc imp
  | none, _ => m.thread.cache.erase m.thread.pc

theorem recalled_find? (imps : List Imp) (m : Machine) (pc : Nat) : (recalled imps m).find? pc =
    if m.thread.pc = pc then (picked imps m).direct? else m.thread.cache.find? pc := by
  rw [recalled, picked]
  generalize found : Option.filter _ (m.thread.cache.find? m.thread.pc) = usable
  cases usable with
  | some imp =>
    dsimp only
    split
    next here => rw [← here, (Option.filter_eq_some_iff.1 found).1]; rfl
    next => rfl
  | none =>
    dsimp only
    have erased : (m.thread.cache.erase m.thread.pc).find? pc =
        if m.thread.pc = pc then none else m.thread.cache.find? pc := Dict.find?_erase ..
    generalize choose imps _ _ _ = choice
    cases choice with
    | exact imp =>
      dsimp only
      rw [Dict.find?_insert, erased]
      split <;> rfl
    | converted imp plan => exact erased
    | blocked => exact erased
    | nothing => exact erased

theorem dispatch_recalled (r : Reentry) (name : String) (retPc : Nat) {m : Machine} {imps : List Imp}
    (known : m.shared.registry.funcs.find? name = some imps) :
    dispatch r name retPc m =
      carryOut r name retPc (picked imps m) (m.withCache (recalled imps m)) := by
  rw [dispatch, bind_apply, askShared]
  dsimp only
  rw [bind_apply, known, orFail]
  change (remembered? imps >>= _) m = _
  rw [bind_apply, remembered?, ask, recalled, picked]
  dsimp only
  generalize Option.filter _ (m.thread.cache.find? m.thread.pc) = usable
  cases usable with
  | some imp => rfl
  | none =>
    dsimp only
    rw [bind_apply, alter]
    dsimp only
    rw [bind_apply, askShared]
    dsimp only
    rw [bind_apply, ask]
    dsimp only
    change (match choose imps m.shared.registry.findConv? m.thread.safety m.thread.stack with
      | .exact imp => _
      | .converted imp plan => _
      | .blocked => _
      | .nothing => _ : Run Reply) _ = _
    cases choose imps m.shared.registry.findConv? m.thread.safety m.thread.stack <;> rfl

theorem dispatch_picked (r : Reentry) (name : String) (retPc : Nat) {m : Machine} {imps : List Imp}
    (known : m.shared.registry.funcs.find? name = some imps) :
    ∃ cache, dispatch r name retPc m =
        carryOut r name retPc (picked imps m) (m.withCache cache) ∧
      ∀ pc, cache.find? pc =
        if m.thread.pc = pc then (picked imps m).direct? else m.thread.cache.find? pc :=
  ⟨recalled imps m, dispatch_recalled r name retPc known, recalled_find? imps m⟩

end Run

theorem Newest.of_before {p : Imp → Prop} {newer older : List Imp} {imp : Imp}
    (h : Newest p (newer ++ imp :: older) imp) (fresh : imp ∉ newer) : ∀ n ∈ newer, ¬ p n := by
  obtain ⟨newer', older', split, -, fails⟩ := h
  induction newer generalizing newer' with
  | nil => nofun
  | cons n newer ih =>
    cases newer' with
    | nil => exact absurd (List.cons.inj split).1 (List.ne_of_not_mem_cons fresh).symm
    | cons n' newer' =>
      obtain ⟨rfl, rest⟩ := List.cons.inj split
      have rest := ih (List.not_mem_of_not_mem_cons fresh) newer' rest fun m member =>
        fails m (List.mem_cons_of_mem _ member)
      exact List.forall_mem_cons.2 ⟨fails n List.mem_cons_self, rest⟩

section

variable {m : Machine} {imps : List Imp} {name : String}

/-- An implementation that a function has under the id of the one remembered is that one. -/
theorem Machine.Recalls.mem (h : m.Recalls) {pc : Nat} {imp : Imp}
    (known : m.shared.registry.funcs.find? name = some imps)
    (found : m.thread.cache.find? pc = some imp) :
    (imps.any (·.id == imp.id)) = true ↔ imp ∈ imps := by
  rw [List.any_eq_true]
  constructor
  · rintro ⟨imp', member, same⟩
    have registered : m.shared.registry.Registered imp' := ⟨name, imps, known, member⟩
    rwa [← h.distinct.apart imp' imp registered (h.registered pc imp found) (eq_of_beq same)]
  · exact fun member => ⟨imp, member, beq_self_eq_true _⟩

theorem Run.picked_empty : m.Rule imps (Run.picked imps (m.withCache ∅)) := Choice.choose_rule

/-- The rule is followed unless the implementation remembered is overtaken. -/
theorem Machine.Recalls.picked_rule (h : m.Recalls)
    (known : m.shared.registry.funcs.find? name = some imps) :
    m.Rule imps (Run.picked imps m) ↔ ¬ m.Overtaken imps := by
  rw [Run.picked]
  generalize usable : Option.filter _ (m.thread.cache.find? m.thread.pc) = remembered
  cases remembered with
  | some imp =>
    obtain ⟨found, good⟩ := Option.filter_eq_some_iff.1 usable
    simp only [Bool.and_eq_true, h.mem known found, Imp.allowed_iff, Imp.fits_iff] at good
    obtain ⟨⟨member, allowed⟩, fits⟩ := good
    constructor
    · rintro ⟨newest⟩ ⟨newer, imp', older, found', rfl, fresh, -, -, n, new, both⟩
      obtain rfl := Option.some.inj (found.symm.trans found')
      exact newest.of_before fresh n new both
    · intro current
      obtain ⟨newer, older, split, fresh⟩ := List.eq_append_cons_of_mem member
      refine .exact ⟨newer, older, split, ⟨allowed, fits⟩, fun n new both => current ?_⟩
      exact ⟨newer, imp, older, found, split, fresh, allowed, fits, n, new, both⟩
  | none =>
    refine ⟨fun _ => ?_, fun _ => Choice.choose_rule⟩
    rintro ⟨newer, imp, older, found, split, -, allowed, fits, -⟩
    rw [found, Option.filter_some, if_pos] at usable
    · cases usable
    · have member := (h.mem known found).2 (split ▸ List.mem_append_right _ List.mem_cons_self)
      rw [member, Imp.allowed_iff.2 allowed, Imp.fits_iff.2 fits]
      rfl

/-- A call by name does what the rule says, and what it does with nothing remembered, unless the
implementation remembered is overtaken. Only an exact choice is remembered. -/
theorem Reached.dispatch_rule {kind : Watch → Prop} (h : Reached kind m)
    (known : m.shared.registry.funcs.find? name = some imps) (r : Reentry) (retPc : Nat) :
    (∃ cache, Run.dispatch r name retPc m =
        Run.carryOut r name retPc (Run.picked imps m) (m.withCache cache) ∧
      ∀ pc, cache.find? pc =
        if m.thread.pc = pc then (Run.picked imps m).direct? else m.thread.cache.find? pc) ∧
    (m.Rule imps (Run.picked imps m) ↔ ¬ m.Overtaken imps) ∧
    (Run.picked imps m = Run.picked imps (m.withCache ∅) ↔ ¬ m.Overtaken imps) ∧
    m.Rule imps (Run.picked imps (m.withCache ∅)) := by
  have rule := h.recalls.picked_rule known
  refine ⟨Run.dispatch_picked r name retPc known, rule, ?_, Run.picked_empty⟩
  rw [← rule]
  exact ⟨fun same => same ▸ Run.picked_empty, fun holds => holds.unique Run.picked_empty⟩

end

/-- A machine that has called the function with a text and now has an integer on the stack. -/
def Machine.outgrown : Machine :=
  let m := Engine.new {} .silent {}
  let m := { m with shared := (m.shared.addImp "f" [.type .any] .safe (.native .depth)).2 }
  let m := { m with shared := (m.shared.addImp "f" [.type .int] .safe (.native .depth)).2 }
  let m := { m with thread := m.thread.push (.str "") }
  let m := ((Watch.idle.reentry 1).runThread ⟨.func, .func "f"⟩).after m
  let m := { m with thread := m.thread.push (.int 1) }
  { m with thread := { m.thread with pc := 0 } }

/-- Its function of two implementations, the newer one for integers. -/
def Imp.outgrown : List Imp :=
  (Machine.outgrown.shared.registry.funcs.find? "f").getD []

theorem Reached.dispatch_rule_outgrown :
    ¬ Machine.outgrown.Rule Imp.outgrown (Run.picked Imp.outgrown .outgrown) ∧
    Machine.outgrown.Rule Imp.outgrown (Run.picked Imp.outgrown (Machine.outgrown.withCache ∅)) := by
  have reached : Reached anyWatch .outgrown :=
    .goTo 0 (.push _ (.call _ 1 _ trivial (.push _ (.define _ _ _ _ (.define _ _ _ _ (.new ..))))))
  have some_ : (Machine.outgrown.shared.registry.funcs.find? "f").isSome = true := by decide +kernel
  have known : Machine.outgrown.shared.registry.funcs.find? "f" = some Imp.outgrown := by
    obtain ⟨imps, found⟩ := Option.isSome_iff_exists.1 some_
    rw [Imp.outgrown, found, Option.getD_some]
  obtain ⟨-, rule, same, fresh⟩ := reached.dispatch_rule known (Run.reentry 1) 1
  refine ⟨fun holds => ?_, fresh⟩
  have chosen : ((Run.picked Imp.outgrown .outgrown).direct?.map Imp.id,
      (Run.picked Imp.outgrown (Machine.outgrown.withCache ∅)).direct?.map Imp.id) =
      (some 106, some 107) := by
    decide +kernel
  rw [same.2 (rule.1 holds)] at chosen
  obtain ⟨older, newer⟩ := Prod.mk.inj chosen
  rw [older] at newer
  cases newer

end Catena
