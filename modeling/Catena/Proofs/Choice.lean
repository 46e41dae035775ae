import Catena.Overload.Choice

/-!
# The rule behind `choose`

Out of the implementations of a function, newest first, the newest allowed one stands for a call
whose arguments accept their values as they are; failing that, the newest allowed one of whose
arguments each accepts its value or has a conversion for it. `choose` follows this rule, and the rule
leaves no choice.
-/

namespace Catena

/-- Each argument accepts its value as it is, or wants a conversion that there is. -/
def Imp.Accepts (imp : Imp) (conv : Ty → Ty → Option Value) (stack : Array Value) : Prop :=
  imp.args.length ≤ stack.size ∧
    ∀ (i : Nat) (arg : Arg) (v : Value),
      imp.args[i]? = some arg → (imp.window stack)[i]? = some v →
      arg.check (imp.window stack) v = .yes ∨
      ∃ t, arg.check (imp.window stack) v = .convert t ∧ (conv v.ty t).isSome

/-- Each argument accepts its value as it is. -/
def Imp.Matches (imp : Imp) (stack : Array Value) : Prop :=
  imp.Accepts (fun _ _ => none) stack

/-- The first of a list, which is the newest, that has a property. -/
def Newest (p : Imp → Prop) (imps : List Imp) (imp : Imp) : Prop :=
  ∃ newer older, imps = newer ++ imp :: older ∧ p imp ∧ ∀ n ∈ newer, ¬ p n

/-- The rule for what a call stands for. -/
inductive Choice.Rule (imps : List Imp) (conv : Ty → Ty → Option Value) (safety : Safety)
    (stack : Array Value) : Choice → Prop
  | exact {imp : Imp}
      (newest : Newest (fun imp => imp.safety ≤ safety ∧ imp.Matches stack) imps imp) :
      Rule imps conv safety stack (.exact imp)
  | converted {imp : Imp} {plan : List (Nat × Value)}
      (inexact : ∀ imp ∈ imps, imp.safety ≤ safety → ¬ imp.Matches stack)
      (newest : Newest (fun imp => imp.safety ≤ safety ∧ imp.Accepts conv stack) imps imp)
      (planned : imp.plan? conv stack = some plan) :
      Rule imps conv safety stack (.converted imp plan)
  | blocked {imp : Imp} (refused : ∀ imp ∈ imps, imp.safety ≤ safety → ¬ imp.Accepts conv stack)
      (member : imp ∈ imps) (fits : imp.Matches stack) : Rule imps conv safety stack .blocked
  | nothing (refused : ∀ imp ∈ imps, imp.safety ≤ safety → ¬ imp.Accepts conv stack)
      (inexact : ∀ imp ∈ imps, ¬ imp.Matches stack) : Rule imps conv safety stack .nothing

/-! ## What an implementation accepts -/

namespace Arg

variable {window : Array Value} {conv : Ty → Ty → Option Value}

/-- A conversion for each misfit, as `Imp.plan?` looks for it. -/
def plans (window : Array Value) (conv : Ty → Ty → Option Value) (misfit : Nat × Ty) :
    Option (Nat × Value) := do
  let v ← window[misfit.1]?
  return (misfit.1, ← conv v.ty misfit.2)

/-- The argument has its value, and accepts it or wants a conversion that there is. -/
def Settled (window : Array Value) (conv : Ty → Ty → Option Value) (a : Arg × Nat) : Prop :=
  ∃ v, window[a.2]? = some v ∧
    (a.1.check window v = .yes ∨ ∃ t, a.1.check window v = .convert t ∧ (conv v.ty t).isSome)

theorem plans_isSome (conv : Ty → Ty → Option Value) {i : Nat} {v : Value}
    (found : window[i]? = some v) (t : Ty) :
    (plans window conv (i, t)).isSome = (conv v.ty t).isSome := by
  cases h : conv v.ty t <;> simp [plans, found, h]

theorem misfits_isSome (args : List (Arg × Nat)) :
    ((misfits window args).bind (·.mapM (plans window conv))).isSome = true ↔
      ∀ a ∈ args, Settled window conv a := by
  induction args with
  | nil => exact ⟨fun _ => nofun, fun _ => rfl⟩
  | cons a args ih =>
    obtain ⟨arg, i⟩ := a
    rw [List.forall_mem_cons, ← ih, misfits, Settled]
    dsimp only
    cases found : window[i]? with
    | none => exact ⟨nofun, fun ⟨⟨_, h, _⟩, _⟩ => nomatch h⟩
    | some v =>
      dsimp only
      cases fit : arg.check window v with
      | yes => simp [fit]
      | no => simp [fit]
      | convert t =>
        have some_ := plans_isSome conv found t
        cases misfits window args with
        | none => simp
        | some ms =>
          dsimp only
          rw [Option.map_some, Option.bind_some, Option.bind_some, List.mapM_cons]
          cases plan : plans window conv (i, t) with
          | none =>
            rw [plan] at some_
            simp [fit, ← some_]
          | some p =>
            rw [plan] at some_
            cases List.mapM (plans window conv) ms <;> simp [fit, ← some_]

end Arg

namespace Imp

variable {imp : Imp} {conv : Ty → Ty → Option Value} {stack : Array Value}

theorem window_size (room : imp.args.length ≤ stack.size) :
    (imp.window stack).size = imp.args.length := by
  rw [window, Array.size_extract]
  omega

theorem settled_args (room : imp.args.length ≤ stack.size) :
    (∀ a ∈ imp.args.zipIdx.reverse, Arg.Settled (imp.window stack) conv a) ↔
      imp.Accepts conv stack := by
  have size := window_size room
  constructor
  · intro all
    refine ⟨room, fun i arg v found value => ?_⟩
    have member : (arg, i) ∈ imp.args.zipIdx.reverse :=
      List.mem_reverse.2 (List.mk_mem_zipIdx_iff_getElem?.2 found)
    obtain ⟨w, at_, fit⟩ := all _ member
    obtain rfl := Option.some.inj (value.symm.trans at_)
    exact fit
  · rintro ⟨-, all⟩ ⟨arg, i⟩ member
    have found := List.mk_mem_zipIdx_iff_getElem?.1 (List.mem_reverse.1 member)
    have inside : i < (imp.window stack).size := by
      rw [size]
      exact (List.getElem?_eq_some_iff.1 found).1
    have value := Array.getElem?_eq_getElem inside
    exact ⟨_, value, all i arg _ found value⟩

/-- There is a plan for what is accepted. -/
theorem plan?_isSome : (imp.plan? conv stack).isSome = true ↔ imp.Accepts conv stack := by
  rw [plan?, fit?]
  split
  next small =>
    refine ⟨fun h => ?_, fun h => absurd h.1 (Nat.not_le.2 small)⟩
    cases h
  next room => exact (Arg.misfits_isSome _).trans (settled_args (Nat.not_lt.1 room))

theorem fits_iff : imp.fits stack = true ↔ imp.Matches stack := by
  rw [Matches, ← plan?_isSome, fits, plan?]
  cases imp.fit? stack with
  | none => exact ⟨nofun, nofun⟩
  | some ms =>
    cases ms with
    | nil => exact ⟨fun _ => rfl, fun _ => rfl⟩
    | cons misfit ms =>
      refine ⟨nofun, fun h => ?_⟩
      rw [Option.bind_eq_bind, Option.bind_some, List.mapM_cons] at h
      cases value : (imp.window stack)[misfit.1]? <;> simp [value] at h

theorem allowed_iff {safety : Safety} : imp.allowed safety = true ↔ imp.safety ≤ safety :=
  decide_eq_true_iff

theorem Matches.accepts (h : imp.Matches stack) : imp.Accepts conv stack := by
  refine ⟨h.1, fun i arg v found value => .inl ?_⟩
  rcases h.2 i arg v found value with fit | ⟨t, -, conv⟩
  · exact fit
  · cases conv

end Imp

namespace Imp.Matches

variable {imp : Imp} {stack : Array Value}

theorem check (h : imp.Matches stack) {i : Nat} {arg : Arg} {v : Value} (found : imp.args[i]? = some arg)
    (value : (imp.window stack)[i]? = some v) : arg.check (imp.window stack) v = .yes := by
  rcases h.2 i arg v found value with fit | ⟨t, -, conv⟩
  · exact fit
  · cases conv

theorem split (h : imp.Matches stack) :
    ∃ s, stack = s ++ imp.window stack ∧ (imp.window stack).size = imp.args.length := by
  refine ⟨stack.extract 0 (stack.size - imp.args.length), ?_, window_size h.1⟩
  rw [window]
  simp

end Imp.Matches

namespace Arg

variable {window : Array Value} {v : Value}

theorem isa_of_check {t : Ty} (h : (Arg.type t).check window v = .yes) : v.isa t = true := by
  rw [check] at h
  split at h
  · assumption
  · cases h

theorem typeArg_of_check {n k : Nat} (h : (Arg.typeArg n k).check window v = .yes) {o : Value} {t : Ty}
    (value : window[n]? = some o) (found : o.ty.args[k]? = some t) : v.isa t = true := by
  rw [check, value, Option.bind_some, found] at h
  dsimp only at h
  split at h
  · assumption
  · cases h

end Arg

/-! ## The rule -/

theorem Newest.unique {p : Imp → Prop} {imps : List Imp} {imp imp' : Imp}
    (h : Newest p imps imp) (h' : Newest p imps imp') : imp = imp' := by
  obtain ⟨newer, older, rfl, holds, fails⟩ := h
  obtain ⟨newer', older', same, holds', fails'⟩ := h'
  induction newer generalizing newer' with
  | nil =>
    cases newer' with
    | nil => exact (List.cons.inj same).1
    | cons n _ => exact absurd ((List.cons.inj same).1 ▸ holds) (fails' n List.mem_cons_self)
  | cons n newer ih =>
    cases newer' with
    | nil => exact absurd ((List.cons.inj same).1 ▸ holds') (fails n List.mem_cons_self)
    | cons n' newer' =>
      exact ih (fun m member => fails m (List.mem_cons_of_mem _ member)) newer'
        (List.cons.inj same).2 fun m member => fails' m (List.mem_cons_of_mem _ member)

theorem Newest.mem {p : Imp → Prop} {imps : List Imp} {imp : Imp} (h : Newest p imps imp) :
    imp ∈ imps := by
  obtain ⟨newer, older, rfl, -⟩ := h
  exact List.mem_append_right _ List.mem_cons_self

theorem Newest.holds {p : Imp → Prop} {imps : List Imp} {imp : Imp} (h : Newest p imps imp) :
    p imp := by
  obtain ⟨-, -, -, holds, -⟩ := h
  exact holds

namespace Choice

variable {imps : List Imp} {conv : Ty → Ty → Option Value} {safety : Safety} {stack : Array Value}

/-- The rule leaves no choice. -/
theorem Rule.unique {c c' : Choice} (h : Rule imps conv safety stack c)
    (h' : Rule imps conv safety stack c') : c = c' := by
  cases h with
  | exact newest =>
    cases h' with
    | exact newest' => rw [newest.unique newest']
    | converted inexact => exact absurd newest.holds.2 (inexact _ newest.mem newest.holds.1)
    | blocked refused =>
      exact absurd newest.holds.2.accepts (refused _ newest.mem newest.holds.1)
    | nothing refused =>
      exact absurd newest.holds.2.accepts (refused _ newest.mem newest.holds.1)
  | converted inexact newest planned =>
    cases h' with
    | exact newest' => exact absurd newest'.holds.2 (inexact _ newest'.mem newest'.holds.1)
    | converted _ newest' planned' =>
      obtain rfl := newest.unique newest'
      rw [planned] at planned'
      rw [Option.some.inj planned']
    | blocked refused => exact absurd newest.holds.2 (refused _ newest.mem newest.holds.1)
    | nothing refused => exact absurd newest.holds.2 (refused _ newest.mem newest.holds.1)
  | blocked refused member fits =>
    cases h' with
    | exact newest' => exact absurd newest'.holds.2.accepts (refused _ newest'.mem newest'.holds.1)
    | converted _ newest' => exact absurd newest'.holds.2 (refused _ newest'.mem newest'.holds.1)
    | blocked => rfl
    | nothing _ inexact => exact absurd fits (inexact _ member)
  | nothing refused inexact =>
    cases h' with
    | exact newest' => exact absurd newest'.holds.2 (inexact _ newest'.mem)
    | converted _ newest' => exact absurd newest'.holds.2 (refused _ newest'.mem newest'.holds.1)
    | blocked _ member fits => exact absurd fits (inexact _ member)
    | nothing => rfl

/-- What an implementation offers when none matches. -/
def offer (conv : Ty → Ty → Option Value) (safety : Safety) (stack : Array Value) (imp : Imp) :
    Option (Imp × List (Nat × Value)) :=
  if imp.allowed safety then (imp.plan? conv stack).map (imp, ·) else none

theorem offer_eq_some {imp : Imp} {o : Imp × List (Nat × Value)}
    (h : offer conv safety stack imp = some o) :
    o.1 = imp ∧ imp.safety ≤ safety ∧ imp.plan? conv stack = some o.2 := by
  rw [offer] at h
  split at h
  next allowed =>
    obtain ⟨plan, planned, rfl⟩ := Option.map_eq_some_iff.1 h
    exact ⟨rfl, Imp.allowed_iff.1 allowed, planned⟩
  next => cases h

theorem offer_eq_none {imp : Imp} (h : offer conv safety stack imp = none)
    (allowed : imp.safety ≤ safety) : ¬ imp.Accepts conv stack := by
  rw [offer, if_pos (Imp.allowed_iff.2 allowed), Option.map_eq_none_iff] at h
  rw [← Imp.plan?_isSome, h]
  nofun

theorem choose_rule : Rule imps conv safety stack (choose imps conv safety stack) := by
  unfold choose
  split
  next imp found =>
    obtain ⟨good, newer, older, split, bad⟩ := List.find?_eq_some_iff_append.1 found
    rw [Bool.and_eq_true, Imp.fits_iff, Imp.allowed_iff] at good
    refine .exact ⟨newer, older, split, good.symm, fun n member h => ?_⟩
    have both := bad n member
    rw [Imp.fits_iff.2 h.2, Imp.allowed_iff.2 h.1] at both
    cases both
  next missing =>
    have inexact : ∀ imp ∈ imps, imp.safety ≤ safety → ¬ imp.Matches stack := by
      intro imp member allowed fits
      have both := List.find?_eq_none.1 missing imp member
      rw [Imp.fits_iff.2 fits, Imp.allowed_iff.2 allowed] at both
      exact both rfl
    dsimp only
    split
    next imp plan found =>
      obtain ⟨newer, imp', older, split, good, bad⟩ := List.findSome?_eq_some_iff.1 found
      obtain ⟨rfl, allowed, planned⟩ := offer_eq_some good
      have accepts := Imp.plan?_isSome.1 (Option.isSome_iff_exists.2 ⟨_, planned⟩)
      refine .converted inexact ⟨newer, older, split, ⟨allowed, accepts⟩, ?_⟩ planned
      exact fun n member h => offer_eq_none (bad n member) h.1 h.2
    next refused =>
      have refused : ∀ imp ∈ imps, imp.safety ≤ safety → ¬ imp.Accepts conv stack :=
        fun imp member => offer_eq_none (List.findSome?_eq_none_iff.1 refused imp member)
      split
      next fits =>
        obtain ⟨imp, member, fits⟩ := List.any_eq_true.1 fits
        exact .blocked refused member (Imp.fits_iff.1 fits)
      next unfit =>
        refine .nothing refused fun imp member fits => unfit ?_
        exact List.any_eq_true.2 ⟨imp, member, Imp.fits_iff.2 fits⟩

end Choice

end Catena
