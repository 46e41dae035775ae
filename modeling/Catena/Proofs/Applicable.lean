import Catena.Proofs.Window

/-!
# When a call by name finds nothing

Whether an implementation applies to the values on the stack is said here without the search for it:
what each argument takes as it is, and what type it wants its value converted to otherwise. A call by
name takes some implementation exactly when an allowed one applies. Otherwise it is a fault that says
whether one that is not allowed would have fitted, and nothing but the memory has changed
(`Reached.dispatch_applies`).
-/

namespace Catena

/-! ## What arguments take and want -/

namespace Arg

/-- The argument takes the value as it is. -/
def Takes (window : Array Value) (v : Value) : Arg → Prop
  | type t => v.isa t = true
  | same n => ∃ o, window[n]? = some o ∧ o.ty.id = v.ty.id
  | typeArg n k => ∃ o t, window[n]? = some o ∧ o.ty.args[k]? = some t ∧ v.isa t = true
  | pred p => p.holds v = true

/-- The argument wants a value it does not take converted to the type: one that stands for a type, or
for a type argument that there is. -/
def Wants (window : Array Value) : Arg → Ty → Prop
  | type t, target => t = target
  | typeArg n k, target => ∃ o, window[n]? = some o ∧ o.ty.args[k]? = some target
  | _, _ => False

variable {window : Array Value} {v : Value} {arg : Arg}

theorem typeArg_some {n k : Nat} {t : Ty} :
    (window[n]?.bind fun o => o.ty.args[k]?) = some t ↔
      ∃ o, window[n]? = some o ∧ o.ty.args[k]? = some t := by
  rw [Option.bind_eq_some_iff]

theorem check_yes : arg.check window v = .yes ↔ arg.Takes window v := by
  cases arg with
  | type t => by_cases good : v.isa t = true <;> simp [check, Takes, good]
  | same n =>
    cases found : window[n]? with
    | none => simp [check, Takes, found]
    | some o => by_cases alike : o.ty.id = v.ty.id <;> simp [check, Takes, found, alike]
  | typeArg n k =>
    rw [check, Takes]
    cases found : window[n]?.bind fun o => o.ty.args[k]? with
    | none =>
      constructor
      · intro yes
        cases yes
      · rintro ⟨o, t, here, there, -⟩
        rw [typeArg_some.2 ⟨o, here, there⟩] at found
        cases found
    | some t =>
      obtain ⟨o, here, there⟩ := typeArg_some.1 found
      by_cases good : v.isa t = true <;> simp [here, there, good]
  | pred p => by_cases good : p.holds v = true <;> simp [check, Takes, good]

theorem check_convert {t : Ty} :
    arg.check window v = .convert t ↔ ¬ arg.Takes window v ∧ arg.Wants window t := by
  cases arg with
  | type t' => by_cases good : v.isa t' = true <;> simp [check, Takes, Wants, good]
  | same n =>
    cases found : window[n]? with
    | none => simp [check, Wants, found]
    | some o => by_cases alike : o.ty.id = v.ty.id <;> simp [check, Wants, found, alike]
  | typeArg n k =>
    rw [check, Takes, Wants, ← typeArg_some]
    cases found : window[n]?.bind fun o => o.ty.args[k]? with
    | none => simp
    | some t' =>
      obtain ⟨o, here, there⟩ := typeArg_some.1 found
      by_cases good : v.isa t' = true
      · simp [here, there, good]
      · simp [here, there, good]
  | pred p => by_cases good : p.holds v = true <;> simp [check, Wants, good]

end Arg

/-! ## What applies -/

namespace Imp

/-- The stack has a value for each argument, and each argument takes its value as it is. -/
structure Fits (imp : Imp) (stack : Array Value) : Prop where
  room : imp.args.length ≤ stack.size
  takes : ∀ (i : Nat) (arg : Arg) (v : Value),
    imp.args[i]? = some arg → (imp.window stack)[i]? = some v → arg.Takes (imp.window stack) v

/-- The stack has a value for each argument, and each argument takes its value as it is or wants it
converted to a type to which there is a conversion from the very type of the value. -/
structure Applies (imp : Imp) (conv : Ty → Ty → Option Value) (stack : Array Value) : Prop where
  room : imp.args.length ≤ stack.size
  takes : ∀ (i : Nat) (arg : Arg) (v : Value),
    imp.args[i]? = some arg → (imp.window stack)[i]? = some v →
    arg.Takes (imp.window stack) v ∨
    ∃ t f, arg.Wants (imp.window stack) t ∧ conv v.ty t = some f

variable {imp : Imp} {conv : Ty → Ty → Option Value} {stack : Array Value}

theorem accepts_iff : imp.Accepts conv stack ↔ imp.Applies conv stack := by
  constructor
  · rintro ⟨room, all⟩
    refine ⟨room, fun i arg v found value => ?_⟩
    rcases all i arg v found value with fit | ⟨t, asked, known⟩
    · exact .inl (Arg.check_yes.1 fit)
    · obtain ⟨f, known⟩ := Option.isSome_iff_exists.1 known
      exact .inr ⟨t, f, (Arg.check_convert.1 asked).2, known⟩
  · rintro ⟨room, all⟩
    refine ⟨room, fun i arg v found value => ?_⟩
    by_cases taken : arg.Takes (imp.window stack) v
    · exact .inl (Arg.check_yes.2 taken)
    · rcases all i arg v found value with good | ⟨t, f, wanted, known⟩
      · exact absurd good taken
      · exact .inr ⟨t, Arg.check_convert.2 ⟨taken, wanted⟩, by simp [known]⟩

theorem matches_iff : imp.Matches stack ↔ imp.Fits stack := by
  rw [Matches, accepts_iff]
  constructor
  · rintro ⟨room, all⟩
    refine ⟨room, fun i arg v found value => ?_⟩
    simpa using all i arg v found value
  · rintro ⟨room, all⟩
    exact ⟨room, fun i arg v found value => .inl (all i arg v found value)⟩

end Imp

/-! ## The conversions -/

/-- The plan converts just those values that their arguments want converted, each by the conversion
from its very type. -/
def Imp.Converts (imp : Imp) (conv : Ty → Ty → Option Value) (stack : Array Value)
    (plan : List (Nat × Value)) : Prop :=
  ∀ i f, (i, f) ∈ plan ↔ ∃ arg v t, imp.args[i]? = some arg ∧ (imp.window stack)[i]? = some v ∧
    ¬ arg.Takes (imp.window stack) v ∧ arg.Wants (imp.window stack) t ∧ conv v.ty t = some f

namespace Imp

variable {imp : Imp} {conv : Ty → Ty → Option Value} {stack : Array Value}

theorem converts_of_plan {plan : List (Nat × Value)} (h : imp.plan? conv stack = some plan) :
    imp.Converts conv stack plan := by
  obtain ⟨-, plans⟩ := planned h
  have place {arg : Arg} {i : Nat} : (arg, i) ∈ imp.args.zipIdx.reverse ↔ imp.args[i]? = some arg := by
    rw [List.mem_reverse, List.mk_mem_zipIdx_iff_getElem?]
  intro i f
  constructor
  · intro member
    obtain ⟨arg, v, t, inside, value, asked, known⟩ := plans.converts i f member
    obtain ⟨refused, wanted⟩ := Arg.check_convert.1 asked
    exact ⟨arg, v, t, place.1 inside, value, refused, wanted, known⟩
  · rintro ⟨arg, v, t, found, value, refused, wanted, known⟩
    have asked := Arg.check_convert.2 ⟨refused, wanted⟩
    by_cases converted : i ∈ plan.map (·.1)
    · obtain ⟨⟨i, g⟩, member, rfl⟩ := List.mem_map.1 converted
      obtain ⟨arg', v', t', inside, value', asked', known'⟩ := plans.converts i g member
      obtain rfl := Option.some.inj ((place.1 inside).symm.trans found)
      obtain rfl := Option.some.inj (value'.symm.trans value)
      obtain rfl := ArgMatch.convert.inj (asked'.symm.trans asked)
      obtain rfl := Option.some.inj (known'.symm.trans known)
      exact member
    · obtain ⟨w, value', accepted⟩ := plans.accepted arg i (place.2 found) converted
      obtain rfl := Option.some.inj (value'.symm.trans value)
      rw [accepted] at asked
      cases asked

theorem Fits.applies (h : imp.Fits stack) : imp.Applies conv stack :=
  ⟨h.room, fun i arg v found value => .inl (h.takes i arg v found value)⟩

theorem Fits.converts_nil (h : imp.Fits stack) : imp.Converts conv stack [] := by
  intro i f
  constructor
  · nofun
  · rintro ⟨arg, v, t, found, value, refused, -⟩
    exact absurd (h.takes i arg v found value) refused

end Imp

/-! ## What is taken -/

/-- The implementation that is taken, as it is or after conversions. -/
def Choice.taken? : Choice → Option Imp
  | .exact imp => some imp
  | .converted imp _ => some imp
  | .blocked => none
  | .nothing => none

/-- The conversions done before the implementation runs. -/
def Choice.plan : Choice → List (Nat × Value)
  | .converted _ plan => plan
  | _ => []

section

variable {m : Machine} {imps : List Imp} {name : String} {cache : Dict Nat Imp}

/-- An allowed implementation of the function that applies where the machine stands. -/
def Machine.Applicable (m : Machine) (imps : List Imp) (imp : Imp) : Prop :=
  imp ∈ imps ∧ imp.safety ≤ m.thread.safety ∧
    imp.Applies m.shared.registry.findConv? m.thread.stack

/-- An implementation of the function that fits as it is but is above the level. -/
def Machine.Barred (m : Machine) (imps : List Imp) (imp : Imp) : Prop :=
  imp ∈ imps ∧ ¬ imp.safety ≤ m.thread.safety ∧ imp.Fits m.thread.stack

/-- What the rule for overloads takes applies, and its conversions are those it wants. -/
theorem Machine.Rule.applicable {c : Choice} {imp : Imp} (h : m.Rule imps c)
    (taken : c.taken? = some imp) : m.Applicable imps imp ∧
      imp.Converts m.shared.registry.findConv? m.thread.stack c.plan := by
  cases h with
  | exact newest =>
    obtain rfl := Option.some.inj taken
    obtain ⟨allowed, good⟩ := newest.holds
    have fits := Imp.matches_iff.1 good
    exact ⟨⟨newest.mem, allowed, fits.applies⟩, fits.converts_nil⟩
  | converted _ newest planned =>
    obtain rfl := Option.some.inj taken
    obtain ⟨allowed, good⟩ := newest.holds
    exact ⟨⟨newest.mem, allowed, Imp.accepts_iff.1 good⟩, Imp.converts_of_plan planned⟩
  | blocked => cases taken
  | nothing => cases taken

/-- If the rule takes nothing then nothing applies. -/
theorem Machine.Rule.inapplicable {c : Choice} (h : m.Rule imps c) (taken : c.taken? = none)
    (imp : Imp) : ¬ m.Applicable imps imp := by
  rintro ⟨member, allowed, applies⟩
  have accepts := Imp.accepts_iff.2 applies
  cases h with
  | exact => cases taken
  | converted => cases taken
  | blocked refused => exact refused imp member allowed accepts
  | nothing refused => exact refused imp member allowed accepts

/-- The rule says that a call is blocked when nothing applies and something fits above the level. -/
theorem Machine.Rule.blocked_iff {c : Choice} (h : m.Rule imps c) (taken : c.taken? = none) :
    c = .blocked ↔ ∃ imp, m.Barred imps imp := by
  cases h with
  | exact => cases taken
  | converted => cases taken
  | @blocked imp refused member fits =>
    have above : ¬ imp.safety ≤ m.thread.safety := fun allowed =>
      refused imp member allowed fits.accepts
    simpa using ⟨imp, member, above, Imp.matches_iff.1 fits⟩
  | nothing _ inexact =>
    constructor
    · nofun
    · rintro ⟨imp, member, -, fits⟩
      exact absurd (Imp.matches_iff.2 fits) (inexact imp member)

/-- What is remembered is used again only if it is allowed and fits; otherwise the rule is
followed. -/
theorem Machine.Recalls.picked_cases (h : m.Recalls)
    (known : m.shared.registry.funcs.find? name = some imps) :
    (∃ imp, Run.picked imps m = .exact imp ∧ imp ∈ imps ∧ imp.safety ≤ m.thread.safety ∧
      imp.Fits m.thread.stack) ∨ m.Rule imps (Run.picked imps m) := by
  rw [Run.picked]
  generalize usable : Option.filter _ (m.thread.cache.find? m.thread.pc) = remembered
  cases remembered with
  | none => exact .inr Choice.choose_rule
  | some imp =>
    obtain ⟨found, good⟩ := Option.filter_eq_some_iff.1 usable
    simp only [Bool.and_eq_true, h.mem known found, Imp.allowed_iff, Imp.fits_iff] at good
    obtain ⟨⟨member, allowed⟩, fits⟩ := good
    exact .inl ⟨imp, rfl, member, allowed, Imp.matches_iff.1 fits⟩

/-- What a call takes applies. -/
theorem Machine.Recalls.picked_applicable (h : m.Recalls)
    (known : m.shared.registry.funcs.find? name = some imps) {imp : Imp}
    (taken : (Run.picked imps m).taken? = some imp) : m.Applicable imps imp ∧
      imp.Converts m.shared.registry.findConv? m.thread.stack (Run.picked imps m).plan := by
  rcases h.picked_cases known with ⟨imp', exact, member, allowed, fits⟩ | rule
  · rw [exact] at taken ⊢
    obtain rfl := Option.some.inj taken
    exact ⟨⟨member, allowed, fits.applies⟩, fits.converts_nil⟩
  · exact rule.applicable taken

/-- A call that takes nothing follows the rule. -/
theorem Machine.Recalls.picked_refused (h : m.Recalls)
    (known : m.shared.registry.funcs.find? name = some imps)
    (taken : (Run.picked imps m).taken? = none) : m.Rule imps (Run.picked imps m) := by
  rcases h.picked_cases known with ⟨imp, exact, -⟩ | rule
  · rw [exact] at taken
    cases taken
  · exact rule

end

/-! ## What carrying it out does -/

theorem Shared.note_log (s : Shared) (level : Log.Level) (target : String)
    (message : Unit → String) (thread : Option Nat) :
    ∃ log host, s.note level target message thread = { s with log, host } := by
  rw [Shared.note]
  split
  · exact ⟨_, _, rfl⟩
  · exact ⟨s.log, s.host, rfl⟩

namespace Run

/-- A choice that takes an implementation is carried out by doing its conversions and running it,
which may be logged. -/
theorem carryOut_taken (r : Reentry) (name : String) (retPc : Nat) {c : Choice} {imp : Imp}
    (taken : c.taken? = some imp) (m : Machine) :
    ∃ log host, carryOut r name retPc c m =
      (do convert r imp.args.length c.plan; invoke r imp retPc : Run Reply)
        { m with shared := { m.shared with log, host } } := by
  cases c with
  | exact imp' =>
    obtain rfl := Option.some.inj taken
    exact ⟨m.shared.log, m.shared.host, rfl⟩
  | converted imp' plan =>
    obtain rfl := Option.some.inj taken
    obtain ⟨log, host, noted⟩ := m.shared.note_log .debug Phase.vm.target
      (fun _ => s!"{name} applies after {plan.length} conversion(s)") none
    refine ⟨log, host, ?_⟩
    rw [carryOut, bind_apply, note, alterShared, noted]
    rfl
  | blocked => cases taken
  | nothing => cases taken

/-- A choice that takes nothing is a fault, and all stays as it is. -/
theorem carryOut_refused (r : Reentry) (name : String) (retPc : Nat) {c : Choice}
    (taken : c.taken? = none) (m : Machine) :
    ∃ f, carryOut r name retPc c m = .error (.fault f) m ∧
      (c = .blocked → f = Fault.notAllowed name m.thread.safety.name) ∧
      (c ≠ .blocked → ∃ shown, describeTop m = .ok shown m ∧ f = Fault.notApplicable name shown) := by
  cases c with
  | exact => cases taken
  | converted => cases taken
  | blocked => exact ⟨_, rfl, fun _ => rfl, fun other => absurd rfl other⟩
  | nothing => exact ⟨_, rfl, nofun, fun _ => ⟨_, rfl, rfl⟩⟩

end Run

/-! ## The outcome of a call by name -/

theorem Machine.Recalls.withCache {m : Machine} (h : m.Recalls) {cache : Dict Nat Imp}
    (registered : ∀ pc imp, cache.find? pc = some imp → m.shared.registry.Registered imp) :
    (m.withCache cache).Recalls :=
  ⟨h.distinct, registered⟩

/-- Whatever implementations are remembered, a call by name takes an implementation if and only if an
allowed one applies. Then it does the conversions that this one wants and runs it. Otherwise it is a
fault, which tells apart whether an implementation above the level fits, and the machine is the same
but for what it remembers. -/
theorem Reached.dispatch_applies {kind : Watch → Prop} {m : Machine} (h : Reached kind m)
    {name : String} {imps : List Imp} (known : m.shared.registry.funcs.find? name = some imps)
    {cache : Dict Nat Imp}
    (registered : ∀ pc imp, cache.find? pc = some imp → m.shared.registry.Registered imp)
    (r : Reentry) (retPc : Nat) :
    ((∃ imp, (Run.picked imps (m.withCache cache)).taken? = some imp) ↔
      ∃ imp, m.Applicable imps imp) ∧
    (∀ imp, (Run.picked imps (m.withCache cache)).taken? = some imp →
      m.Applicable imps imp ∧
      ∃ plan cache' log host, imp.Converts m.shared.registry.findConv? m.thread.stack plan ∧
        Run.dispatch r name retPc (m.withCache cache) =
          (do Run.convert r imp.args.length plan; Run.invoke r imp retPc : Run Reply)
            { m.withCache cache' with shared := { m.shared with log, host } }) ∧
    ((¬ ∃ imp, m.Applicable imps imp) →
      ∃ f cache', Run.dispatch r name retPc (m.withCache cache) =
          .error (.fault f) (m.withCache cache') ∧
        ((∃ imp, m.Barred imps imp) → f = Fault.notAllowed name m.thread.safety.name) ∧
        ((¬ ∃ imp, m.Barred imps imp) →
          ∃ shown, Run.describeTop m = .ok shown m ∧ f = Fault.notApplicable name shown)) := by
  have recalls := h.recalls.withCache registered
  have carried := Run.dispatch_recalled r name retPc (m := m.withCache cache) known
  have applicable {imp : Imp} (taken : (Run.picked imps (m.withCache cache)).taken? = some imp) :=
    recalls.picked_applicable known taken
  refine ⟨⟨?_, ?_⟩, ?_, ?_⟩
  · rintro ⟨imp, taken⟩
    exact ⟨imp, (applicable taken).1⟩
  · rintro ⟨imp, applies⟩
    cases taken : (Run.picked imps (m.withCache cache)).taken? with
    | some imp' => exact ⟨imp', rfl⟩
    | none => exact absurd applies ((recalls.picked_refused known taken).inapplicable taken imp)
  · intro imp taken
    obtain ⟨applies, converts⟩ := applicable taken
    obtain ⟨log, host, runs⟩ := Run.carryOut_taken r name retPc taken
      ((m.withCache cache).withCache (Run.recalled imps (m.withCache cache)))
    exact ⟨applies, _, _, log, host, converts, carried.trans runs⟩
  · intro nothing
    cases taken : (Run.picked imps (m.withCache cache)).taken? with
    | some imp => exact absurd ⟨imp, (applicable taken).1⟩ nothing
    | none =>
      have blocked := (recalls.picked_refused known taken).blocked_iff taken
      obtain ⟨f, fails, barred, other⟩ := Run.carryOut_refused r name retPc taken
        ((m.withCache cache).withCache (Run.recalled imps (m.withCache cache)))
      refine ⟨f, _, carried.trans fails, fun found => barred (blocked.2 found), fun missing => ?_⟩
      obtain ⟨shown, said, same⟩ := other fun is => missing (blocked.1 is)
      obtain ⟨rfl, -⟩ := EStateM.Result.ok.inj said
      exact ⟨_, rfl, same⟩

/-- A machine with a function of an integer that is not allowed, and an integer on the stack. -/
def Machine.guarded : Machine :=
  let m := Engine.new {} .silent {}
  let m := { m with shared :=
    (m.shared.addImp "danger" [.type .int] .unrestricted (.native .depth)).2 }
  { m with thread := m.thread.push (.int 1) }

/-- Its function of one implementation. -/
def Imp.guarded : List Imp :=
  (Machine.guarded.shared.registry.funcs.find? "danger").getD []

/-- A memory that has the first of the implementations at the first program counter. -/
def Imp.memory : List Imp → Dict Nat Imp
  | [] => ∅
  | imp :: _ => (∅ : Dict Nat Imp).insert 0 imp

theorem Registry.memory_registered {registry : Registry} {name : String} {imps : List Imp}
    (known : registry.funcs.find? name = some imps) :
    ∀ pc imp, (Imp.memory imps).find? pc = some imp → registry.Registered imp := by
  intro pc imp found
  cases imps with
  | nil => simp [Imp.memory, Dict.find?_empty] at found
  | cons first imps =>
    rw [Imp.memory, Dict.find?_insert] at found
    split at found
    · obtain rfl := Option.some.inj found
      exact ⟨name, _, known, List.mem_cons_self⟩
    · simp [Dict.find?_empty] at found

/-- Its call is a fault although the implementation is remembered. -/
theorem Reached.dispatch_applies_guarded : ∃ cache,
    Run.dispatch (Run.reentry 1) "danger" 1 (Machine.guarded.withCache (Imp.memory Imp.guarded)) =
      .error (.fault (Fault.notAllowed "danger" "safe")) (Machine.guarded.withCache cache) := by
  have reached : Reached anyWatch .guarded := .push _ (.define _ _ _ _ (.new ..))
  have some_ : (Machine.guarded.shared.registry.funcs.find? "danger").isSome = true := by
    decide +kernel
  have known : Machine.guarded.shared.registry.funcs.find? "danger" = some Imp.guarded := by
    obtain ⟨imps, found⟩ := Option.isSome_iff_exists.1 some_
    rw [Imp.guarded, found, Option.getD_some]
  obtain ⟨-, -, refused⟩ := reached.dispatch_applies known (Registry.memory_registered known)
    (Run.reentry 1) 1
  have barred : Imp.guarded.all (fun imp => !imp.allowed Machine.guarded.thread.safety) = true ∧
      Imp.guarded.any (fun imp => imp.fits Machine.guarded.thread.stack) = true := by
    decide +kernel
  have above : ∀ imp ∈ Imp.guarded, ¬ imp.safety ≤ Machine.guarded.thread.safety := by
    intro imp member allowed
    have unallowed := List.all_eq_true.1 barred.1 imp member
    simp [Imp.allowed_iff.2 allowed] at unallowed
  obtain ⟨imp, member, fits⟩ := List.any_eq_true.1 barred.2
  obtain ⟨f, cache, fails, notAllowed, -⟩ := refused fun ⟨imp, member, allowed, _⟩ =>
    above imp member allowed
  refine ⟨cache, ?_⟩
  rw [fails, notAllowed ⟨imp, member, above imp member, Imp.matches_iff.1 (Imp.fits_iff.1 fits)⟩]
  rfl

end Catena
