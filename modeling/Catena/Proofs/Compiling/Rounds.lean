import Catena.Proofs.Compiling.Failed
import Catena.Proofs.Compiling.Neighbours
import Catena.Proofs.Compiling.Reports

/-!
# Rounds come to an end

What a name stands for is known in the first round: rewriting makes no functions and no labels of a
program, and the types it makes have the names of instances, which are not looked up any more. So the
second round only merges values, and the third changes nothing (`settles`).
-/

namespace Catena

/-! ## Operations with names -/

/-- Whether a name is looked up in the operation or for it, or the operation gives a label its name. -/
def Op.isNaming : Op → Bool
  | .lambda .. | .unlambda _ | .jump _ none | .deref _ | .ref _ | .exit .. => true
  | .target l => !l.anon
  | _ => false

variable {op op' : Op} {ops ops' done done' : List Op} {n n' : Names} {inside : List Nat}

theorem namedLabels_naming (ops : List Op) : namedLabels (ops.filter Op.isNaming) = namedLabels ops := by
  rw [namedLabels, List.filterMap_filter, namedLabels]
  congr
  funext op
  cases op with
  | target l => cases anon : l.anon <;> simp [Op.isNaming, anon]
  | _ => split <;> rfl

theorem Op.isNaming_data (h : op.isData = true) : op.isNaming = false := by
  cases op <;> first | rfl | cases h

theorem naming_data (data : ∀ op ∈ ops, op.isData = true) : ops.filter Op.isNaming = [] :=
  List.filter_eq_nil_iff.2 fun op member => by simp [Op.isNaming_data (data op member)]

theorem Reworks.naming (h : Reworks done done') : done'.filter Op.isNaming = done.filter Op.isNaming := by
  obtain ⟨old, new, rest, rfl, rfl, isOld, isNew⟩ := h
  rw [List.filter_append, List.filter_append, naming_data isOld, naming_data isNew]

namespace Names

theorem refresh?_other (inside : List Nat) (other : op.isNaming = false) :
    n.refresh? inside op = none ∧ enclosing inside op = inside := by
  cases op with
  | jump name l => cases l <;> first | exact ⟨rfl, rfl⟩ | cases other
  | _ => first | exact ⟨rfl, rfl⟩ | cases other

/-- What has been looked up is not looked up again, and stands inside the same lambdas. -/
theorem refresh?_done (h : n.refresh? inside op = some op') :
    n.refresh? inside op' = none ∧ enclosing inside op' = enclosing inside op ∧ op'.Raw := by
  unfold refresh? at h
  split at h
  · obtain ⟨l, -, rfl⟩ := Option.map_eq_some_iff.1 h
    exact ⟨rfl, rfl, trivial⟩
  · split at h
    · cases h
      exact ⟨rfl, rfl, trivial⟩
    · obtain ⟨t, -, rfl⟩ := Option.map_eq_some_iff.1 h
      exact ⟨rfl, rfl, trivial⟩
  · split at h
    · cases h
      exact ⟨rfl, rfl, trivial⟩
    · obtain ⟨l, -, rfl⟩ := Option.map_eq_some_iff.1 h
      exact ⟨rfl, rfl, trivial⟩
  · split at h
    · cases h
    · cases h
    · obtain ⟨id, -, rfl⟩ := Option.map_eq_some_iff.1 h
      exact ⟨rfl, rfl, trivial⟩
  · cases h

theorem refresh_cons (n : Names) (inside : List Nat) (op : Op) (ops : List Op) :
    n.refresh inside (op :: ops) =
      (((n.refresh? inside op).getD op) :: (n.refresh (enclosing inside op) ops).1,
        (n.refresh? inside op).isSome || (n.refresh (enclosing inside op) ops).2) := by
  rw [refresh]
  cases n.refresh? inside op <;> rfl

theorem refresh_same (h : (n.refresh inside ops).2 = false) : n.refresh inside ops = (ops, false) := by
  induction ops generalizing inside with
  | nil => rfl
  | cons op ops ih =>
    rw [refresh_cons, Bool.or_eq_false_iff] at h
    have nothing : n.refresh? inside op = none := by simpa using h.1
    rw [refresh_cons, ih h.2, nothing]
    rfl

theorem refresh_done (n : Names) (inside : List Nat) (ops : List Op) :
    (n.refresh inside (n.refresh inside ops).1).2 = false := by
  induction ops generalizing inside with
  | nil => rfl
  | cons op ops ih =>
    rw [refresh_cons]
    dsimp only
    rw [refresh_cons, Bool.or_eq_false_iff]
    cases found : n.refresh? inside op with
    | none => exact ⟨by simp [found], ih _⟩
    | some op' =>
      obtain ⟨none, same, -⟩ := refresh?_done found
      simp only [Option.getD_some, none, same]
      exact ⟨rfl, ih _⟩

theorem refresh_raw (n : Names) (inside : List Nat) (raw : ∀ op ∈ ops, op.Raw) :
    ∀ op ∈ (n.refresh inside ops).1, op.Raw := by
  induction ops generalizing inside with
  | nil => exact raw
  | cons op ops ih =>
    obtain ⟨first, rest⟩ := List.forall_mem_cons.1 raw
    rw [refresh_cons]
    refine List.forall_mem_cons.2 ⟨?_, ih _ rest⟩
    cases found : n.refresh? inside op with
    | none => exact first
    | some op' => exact (refresh?_done found).2.2

/-- Whether there are names to look up shows in the operations with names. -/
theorem refresh_naming (n : Names) (inside : List Nat) (ops : List Op) :
    (n.refresh inside (ops.filter Op.isNaming)).2 = (n.refresh inside ops).2 := by
  induction ops generalizing inside with
  | nil => rfl
  | cons op ops ih =>
    rw [List.filter_cons, refresh_cons]
    cases naming : op.isNaming with
    | true => rw [if_pos rfl, refresh_cons, ih]
    | false =>
      obtain ⟨none, same⟩ := refresh?_other (n := n) inside naming
      rw [if_neg Bool.false_ne_true, none, same]
      exact ih inside

/-- Other names that stand for the same, but for types with the names of instances. -/
structure Agree (n n' : Names) : Prop where
  funcs : n'.isFunc = n.isFunc
  labels : n'.label? = n.label?
  types : ∀ name, TypeExpr.looksGeneric name = false → n.type? name = none → n'.type? name = none

theorem Agree.refresh? (h : n.Agree n') (raw : op.Raw) (idle : n.refresh? inside op = none) :
    n'.refresh? inside op = none := by
  cases op with
  | jump name l =>
    cases l with
    | none => simpa only [Names.refresh?, h.labels] using idle
    | some => rfl
  | deref name =>
    simp only [Names.refresh?, h.funcs] at idle ⊢
    split at idle
    next => cases idle
    next other =>
      rw [if_neg other, Option.map_eq_none_iff]
      exact h.types name raw (Option.map_eq_none_iff.1 idle)
  | ref name => simpa only [Names.refresh?, h.funcs, h.labels] using idle
  | exit label id => cases id <;> exact idle
  | _ => rfl

theorem Agree.refresh (h : n.Agree n') (raw : ∀ op ∈ ops, op.Raw) (idle : (n.refresh inside ops).2 = false) :
    (n'.refresh inside ops).2 = false := by
  induction ops generalizing inside with
  | nil => rfl
  | cons op ops ih =>
    obtain ⟨first, rest⟩ := List.forall_mem_cons.1 raw
    rw [refresh_cons, Bool.or_eq_false_iff] at idle ⊢
    have nothing : n.refresh? inside op = none := by simpa using idle.1
    refine ⟨?_, ih rest idle.2⟩
    rw [h.refresh? first nothing]
    rfl

end Names

namespace Compile

variable {c d : Compiler} {fold merged changed changed' : Bool}

/-- The names that the operations of the unit can refer to. -/
def known (ops : List Op) (c : Compiler) : Names where
  isFunc name := c.funcs.any (·.name == name) || c.shared.registry.funcs.contains name
  type? := c.shared.registry.types.find?
  label? name := ((namedLabels ops).find? fun l => l.name == name).or (c.shared.registry.labels.find? name)

theorem names_eq (ops : List Op) (c : Compiler) : names ops c = .ok (known ops c) c := rfl

theorem rewriteOp_naming (ok : rewriteOp fold done op c = .ok (done', merged) d) :
    done'.filter Op.isNaming = (op :: done).filter Op.isNaming ∧ d.funcs = c.funcs := by
  cases rewriteOp_cases ok with
  | keep => exact ⟨rfl, rfl⟩
  | loop bare => obtain ⟨rfl, rfl⟩ | ⟨rfl, rfl⟩ := bare <;> exact ⟨rfl, rfl⟩
  | push push =>
    refine ⟨(mergePush_reworks ?_ _ done).naming, rfl⟩
    cases push <;> rfl
  | drop => exact ⟨(mergeDrop_reworks _ done).naming, rfl⟩
  | check folds taken => exact ⟨(takeType?_reworks taken).naming, rfl⟩
  | unparam folds taken =>
    obtain ⟨old, rfl, data⟩ := bracketTypes?_ok taken
    refine ⟨?_, rfl⟩
    rw [List.filter_cons_of_neg (by simp [Op.isNaming]), List.filter_cons_of_neg (by simp [Op.isNaming]),
      List.filter_append, naming_data data, List.nil_append, List.filter_cons_of_neg (by simp [Op.isNaming])]

theorem rewrite_naming (ok : rewrite fold changed done ops c = .ok (ops', changed') d) :
    ops'.filter Op.isNaming = (done.reverse ++ ops).filter Op.isNaming ∧ d.funcs = c.funcs := by
  induction ops generalizing c done changed with
  | nil =>
    cases ok
    exact ⟨by rw [List.append_nil], rfl⟩
  | cons op ops ih =>
    obtain ⟨done', merged, e, first, ok⟩ := rewrite_cons_ok ok
    obtain ⟨naming, funcs⟩ := rewriteOp_naming first
    obtain ⟨naming', funcs'⟩ := ih ok
    refine ⟨?_, funcs'.trans funcs⟩
    rw [naming', List.filter_append, List.filter_reverse, naming, ← List.filter_reverse, ← List.filter_append]
    simp

theorem known_congr {c d : Compiler} (labels : namedLabels ops' = namedLabels ops) (funcs : d.funcs = c.funcs)
    (registry : d.shared.registry = c.shared.registry) : known ops' d = known ops c := by
  unfold known
  rw [labels, funcs, registry]

theorem namedLabels_refresh (n : Names) (inside : List Nat) (ops : List Op) :
    namedLabels (n.refresh inside ops).1 = namedLabels ops := by
  rw [namedLabels_eq, (refresh_refreshed n inside ops).labels, ← namedLabels_eq]

theorem namedLabels_rewrite (ok : rewrite fold changed [] ops c = .ok (ops', changed') d) :
    namedLabels ops' = namedLabels ops := by
  rw [← namedLabels_naming, (rewrite_naming ok).1, namedLabels_naming]
  rfl

/-- What rewriting makes known is not looked up by any of the operations. -/
theorem known_rewrite (ordinary : c.shared.registry.Ordinary)
    (ok : rewrite fold changed [] ops c = .ok (ops', changed') d) : (known ops c).Agree (known ops' d) := by
  have kept := keeps_rewrite fold changed [] ops c
  have amending : Amending (fun _ => False) (fun _ => True) (rewrite fold changed [] ops) :=
    amends_rewrite fold changed [] ops
  obtain ⟨⟨ds, amends, said⟩, -⟩ := amending c ordinary
  rw [after, ok] at kept amends
  -- without words no structures are declared
  obtain rfl : ds = [] := by
    cases ds with
    | nil => rfl
    | cons d ds => exact (said d List.mem_cons_self).1.elim
  constructor
  · funext name
    simp only [known, (rewrite_naming ok).2, amends.funcs]
  · funext name
    simp only [known, namedLabels_rewrite ok, kept.registry.labels]
  · intro name plain missing
    rw [Option.eq_none_iff_forall_ne_some]
    intro t found
    rcases amends.types found with before | ⟨generic, -⟩ | ⟨d, is, -⟩
    · cases missing.symm.trans before
    · cases plain.symm.trans generic
    · cases is

/-! ## Rounds -/

/-- One round: names are looked up, then neighbours are merged. Answers whether each of them changed
anything. -/
def round (fold : Bool) (ops : List Op) : Compile (List Op × Bool × Bool) := do
  let (ops, refreshed) := (← names ops).refresh [] ops
  let (ops, rewritten) ← rewrite fold false [] ops
  return (ops, refreshed, rewritten)

theorem rounds_succ (config : CompilerConfig) (left : Nat) (ops : List Op) :
    rounds config (left + 1) ops = (do
      let (ops, refreshed, rewritten) ← round config.foldConstants ops
      note .compiler .trace fun _ =>
        s!"pass {config.maxPasses - (left + 1)}: {ops.length} ops (refresh {refreshed}, rewrite {rewritten})"
      if refreshed || rewritten then rounds config left ops else return ops) := by
  simp only [rounds, round, bind_assoc, pure_bind]

theorem round_ok {refreshed rewritten : Bool}
    (ok : round fold ops c = .ok (ops', refreshed, rewritten) d) :
    refreshed = ((known ops c).refresh [] ops).2 ∧
      rewrite fold false [] ((known ops c).refresh [] ops).1 c = .ok (ops', rewritten) d := by
  simp only [round, Bind.bind, EStateM.bind, names_eq] at ok
  cases ran : rewrite fold false [] ((known ops c).refresh [] ops).1 c with
  | error e e' => rw [ran] at ok; cases ok
  | ok p e =>
    rw [ran] at ok
    cases ok
    exact ⟨rfl, rfl⟩

theorem round_fault {e : Halt} (failed : round fold ops c = .error e d) : ∃ f, Refused f ∧ e = .fault f := by
  simp only [round, Bind.bind, EStateM.bind, names_eq] at failed
  cases ran : rewrite fold false [] ((known ops c).refresh [] ops).1 c with
  | error g e' =>
    rw [ran] at failed
    cases failed
    exact rewrite_fault ran
  | ok p e => rw [ran] at failed; cases failed

/-- Operations with no names left to look up. -/
def Idle (ops : List Op) (c : Compiler) : Prop :=
  ((known ops c).refresh [] ops).2 = false

theorem Idle.round (idle : Idle ops c) : round fold ops c =
    (do let (ops, rewritten) ← rewrite fold false [] ops; return (ops, false, rewritten)) c := by
  simp only [Compile.round, Bind.bind, EStateM.bind, names_eq, Names.refresh_same idle]

/-- Rewriting leaves no names to look up where there were none. -/
theorem Idle.rewrite (idle : Idle ops c) (ok : rewrite fold changed [] ops c = .ok (ops', changed') c) :
    Idle ops' c := by
  unfold Idle at idle ⊢
  rw [known_congr (namedLabels_rewrite ok) rfl rfl, ← Names.refresh_naming, (rewrite_naming ok).1,
    Names.refresh_naming]
  exact idle

/-- All names are looked up in the first round, after which all operations rest but for those that push. -/
theorem round_first {refreshed rewritten : Bool} (raw : ∀ op ∈ ops, op.Raw)
    (ordinary : c.shared.registry.Ordinary) (ok : round fold ops c = .ok (ops', refreshed, rewritten) d) :
    Idle ops' d ∧ Loose fold ops'.reverse := by
  obtain ⟨-, ok⟩ := round_ok ok
  have raw' := Names.refresh_raw (known ops c) [] raw
  have full : ∀ op ∈ ((known ops c).refresh [] ops).1, op.Full := fun op member many =>
    (congrArg Op.Raw many).mp (raw' op member)
  have none : Loose fold [] := trivial
  refine ⟨?_, rewrite_loose none full ok⟩
  have agree : (known ops c).Agree (known ops' d) := by
    rw [← known_congr (namedLabels_refresh (known ops c) [] ops) rfl rfl]
    exact known_rewrite ordinary ok
  have idle := agree.refresh raw' (Names.refresh_done (known ops c) [] ops)
  unfold Idle
  rw [← Names.refresh_naming, (rewrite_naming ok).1, Names.refresh_naming]
  exact idle

/-- A round does not change anything any more. -/
structure Still (fold : Bool) (ops : List Op) (c : Compiler) : Prop where
  idle : Idle ops c
  firm : Firm fold ops.reverse

theorem Still.round (still : Still fold ops c) : Compile.round fold ops c = .ok (ops, false, false) c := by
  have firm : Firm fold (ops.reverse ++ []) := by rw [List.append_nil]; exact still.firm
  rw [still.idle.round]
  simp only [Bind.bind, EStateM.bind, rewrite_still firm]
  rfl

/-- In the second round values that were pushed one by one are merged, which is all that is left to do. -/
theorem round_next (idle : Idle ops c) (loose : Loose fold ops.reverse) :
    ∃ ops' rewritten, round fold ops c = .ok (ops', false, rewritten) c ∧ Still fold ops' c := by
  have loose : Loose fold (ops.reverse ++ []) := by rwa [List.append_nil]
  have none : Firm fold [] := trivial
  obtain ⟨ops', rewritten, ok, firm⟩ := rewrite_firm loose none nofun rfl false c
  refine ⟨ops', rewritten, ?_, idle.rewrite ok, firm⟩
  rw [idle.round]
  simp only [Bind.bind, EStateM.bind, ok]
  rfl

/-- Where a round has changed nothing, another one does not either. -/
theorem Still.of_round (ok : Compile.round fold ops c = .ok (ops', false, false) d) :
    Still fold ops c ∧ ops' = ops ∧ d = c := by
  obtain ⟨idle, rewritten⟩ := round_ok ok
  have idle : Idle ops c := idle.symm
  rw [Names.refresh_same idle] at rewritten
  have none : Firm fold [] := trivial
  have firm := firm_of_unchanged none rewritten
  rw [List.append_nil] at firm
  have still : Still fold ops c := ⟨idle, firm⟩
  cases still.round.symm.trans ok
  exact ⟨still, rfl, rfl⟩

/-! ## The loop -/

variable {config : CompilerConfig} {left : Nat} {e : Halt}

/-- The loop makes one round after another until one changes nothing; in between it only writes to the
log. -/
theorem rounds_of_round {us : List Op} {refreshed rewritten : Bool}
    (ok : round config.foldConstants ops c = .ok (us, refreshed, rewritten) d) (left : Nat) :
    ∃ e, e.shared.registry = d.shared.registry ∧ (∀ ops, known ops e = known ops d) ∧
      rounds config (left + 1) ops c =
        if refreshed || rewritten then rounds config left us e else .ok us e := by
  have noted (message : Unit → String) : ∃ e, note .compiler .trace message d = .ok () e ∧
      e.shared.registry = d.shared.registry ∧ e.funcs = d.funcs :=
    ⟨_, rfl, Run.note_registry _ _ _ _ _, rfl⟩
  obtain ⟨e, wrote, registry, funcs⟩ := noted fun _ =>
    s!"pass {config.maxPasses - (left + 1)}: {us.length} ops (refresh {refreshed}, rewrite {rewritten})"
  refine ⟨e, registry, fun ops => known_congr rfl funcs registry, ?_⟩
  rw [rounds_succ]
  simp only [Bind.bind, EStateM.bind, ok, wrote]
  split <;> rfl

theorem rounds_of_failed (failed : round config.foldConstants ops c = .error e d) (left : Nat) :
    rounds config (left + 1) ops c = .error e d := by
  rw [rounds_succ]
  simp only [Bind.bind, EStateM.bind, failed]

theorem Idle.congr (idle : Idle ops c) (same : known ops d = known ops c) : Idle ops d := by
  unfold Idle
  rwa [same]

theorem Still.congr (still : Still fold ops c) (same : known ops d = known ops c) : Still fold ops d :=
  ⟨still.idle.congr same, still.firm⟩

theorem Still.rounds (still : Still config.foldConstants ops c) (left : Nat) :
    ∃ d, Compile.rounds config (left + 1) ops c = .ok ops d := by
  obtain ⟨e, -, -, same⟩ := rounds_of_round still.round left
  exact ⟨e, same⟩

theorem rounds_loose (idle : Idle ops c) (loose : Loose config.foldConstants ops.reverse) (left : Nat) :
    ∃ ops' d, rounds config (left + 2) ops c = .ok ops' d := by
  obtain ⟨ops', rewritten, ok, still⟩ := round_next idle loose
  obtain ⟨e, -, names, same⟩ := rounds_of_round ok (left + 1)
  rw [same]
  split
  next =>
    obtain ⟨d, last⟩ := (still.congr (names ops')).rounds left
    exact ⟨ops', d, last⟩
  next => exact ⟨ops', e, rfl⟩

/-- With three rounds the loop ends; it fails only in the first one. -/
theorem rounds_fails (raw : ∀ op ∈ ops, op.Raw) (ordinary : c.shared.registry.Ordinary)
    (failed : rounds config (left + 3) ops c = .error e d) : ∃ f, Refused f ∧ e = .fault f := by
  cases first : round config.foldConstants ops c with
  | error e' d' =>
    rw [rounds_of_failed first] at failed
    cases failed
    exact round_fault first
  | ok p d' =>
    obtain ⟨ops', refreshed, rewritten⟩ := p
    obtain ⟨idle, loose⟩ := round_first raw ordinary first
    obtain ⟨d'', -, names, same⟩ := rounds_of_round first (left + 2)
    rw [same] at failed
    split at failed
    next =>
      obtain ⟨_, _, ok⟩ := rounds_loose (idle.congr (names ops')) loose left
      cases ok.symm.trans failed
    next => cases failed

/-- What the loop ends with does not change any more. -/
theorem rounds_still (ok : rounds config left ops c = .ok ops' d) : Still config.foldConstants ops' d := by
  induction left generalizing ops c with
  | zero => cases ok
  | succ left ih =>
    cases first : round config.foldConstants ops c with
    | error e d' => cases (rounds_of_failed first left).symm.trans ok
    | ok p d' =>
      obtain ⟨next, refreshed, rewritten⟩ := p
      obtain ⟨d'', -, names, same⟩ := rounds_of_round first left
      rw [same] at ok
      split at ok
      next => exact ih ok
      next unchanged =>
        obtain ⟨rfl, rfl⟩ := Bool.or_eq_false_iff.1 (eq_false_of_ne_true unchanged)
        cases ok
        obtain ⟨still, rfl, rfl⟩ := Still.of_round first
        exact still.congr (names _)

/-! ## Compilations -/

theorem withSkip_raw (raw : ∀ op ∈ ops, op.Raw) : ∀ op ∈ ops.flatMap Op.withSkip, op.Raw := by
  intro op member
  obtain ⟨o, is, member⟩ := List.mem_flatMap.1 member
  have plain := raw o is
  unfold Op.withSkip at member
  split at member
  · obtain rfl := List.mem_singleton.1 member
    trivial
  · simp only [List.mem_cons, List.not_mem_nil, or_false] at member
    rcases member with rfl | rfl <;> trivial
  · obtain rfl := List.mem_singleton.1 member
    exact plain

/-- Operations settle with three rounds, unless an instance is asked for that cannot be made. -/
theorem settle_fails {f : Fault} (raw : ∀ op ∈ ops, op.Raw) (ordinary : c.shared.registry.Ordinary)
    (enough : 3 ≤ c.shared.config.compiler.maxPasses) (failed : settle ops c = .error (.fault f) d) :
    f.kind ≠ .passLimit := by
  simp only [settle, Bind.bind, EStateM.bind, ask] at failed
  cases skipped : addSkips [] ops with
  | error g =>
    rw [skipped] at failed
    cases failed
    exact (addSkips_fault skipped).kind
  | ok us =>
    rw [skipped] at failed
    obtain ⟨rfl, -, -⟩ := addSkips_ok skipped
    obtain ⟨left, passes⟩ := Nat.exists_eq_add_of_le' enough
    change rounds c.shared.config.compiler c.shared.config.compiler.maxPasses _ c = _ at failed
    rw [passes] at failed
    obtain ⟨g, refused, same⟩ := rounds_fails (withSkip_raw raw) ordinary failed
    cases same
    exact refused.unplaced.kind

theorem settle_still (ok : settle ops c = .ok ops' d) :
    Still c.shared.config.compiler.foldConstants ops' d := by
  simp only [settle, Bind.bind, EStateM.bind, ask] at ok
  cases skipped : addSkips [] ops with
  | error g =>
    rw [skipped] at ok
    cases ok
  | ok us =>
    rw [skipped] at ok
    exact rounds_still ok

/-- Three rounds from operations as a source is compiled to them, the last of which changes nothing. -/
theorem three_rounds (fold : Bool) (raw : ∀ op ∈ ops, op.Raw) (ordinary : c.shared.registry.Ordinary) :
    (∃ f d, Refused f ∧ round fold ops c = .error (.fault f) d) ∨
    ∃ first second refreshed rewritten merged d, round fold ops c = .ok (first, refreshed, rewritten) d ∧
      round fold first d = .ok (second, false, merged) d ∧
      round fold second d = .ok (second, false, false) d := by
  cases ran : round fold ops c with
  | error e d =>
    obtain ⟨f, refused, rfl⟩ := round_fault ran
    exact .inl ⟨f, d, refused, rfl⟩
  | ok p d =>
    obtain ⟨first, refreshed, rewritten⟩ := p
    obtain ⟨idle, loose⟩ := round_first raw ordinary ran
    obtain ⟨second, merged, ok, still⟩ := round_next idle loose
    exact .inr ⟨first, second, refreshed, rewritten, merged, d, rfl, ok, still.round⟩

theorem keeps_rawOps (text : String) (base : Nat) : Keeps (rawOps text base) :=
  (keeps_tokens _ _).bind fun _ => (keeps_note _ _ _).bind fun _ =>
    (keeps_upTo _ _ _).bind fun _ => .of_same fun _ => rfl

/-- Compilations settle. Whatever the text and the registry of the engine, and whether constants are
folded or not, the loop of rounds comes to one that changes nothing with the third round at the latest: the
first looks up all names, the second merges at most some values, and the third changes nothing; only the
first can fail, if an instance is asked for that cannot be made. So the limit is reached only if it is
smaller than three, and another round would leave what a text has been compiled to as it is. The registries
of all engines are ordinary (`Reached.ordinary`). -/
theorem settles (text : String) (base : Nat) (s : Shared) (ordinary : s.registry.Ordinary) :
    (∀ f d, Compile.source text base { shared := s } = .error (.fault f) d → f.kind = .passLimit →
      s.config.compiler.maxPasses < 3) ∧
    (s.config.compiler.maxPasses = ({} : CompilerConfig).maxPasses →
      ∀ f d, Compile.source text base { shared := s } = .error (.fault f) d → f.kind ≠ .passLimit) ∧
    (∀ ops skipped c fold, rawOps text base { shared := s } = .ok ops c → addSkips [] ops = .ok skipped →
      (∃ f d, Refused f ∧ round fold skipped c = .error (.fault f) d) ∨
      ∃ first second refreshed rewritten merged d,
        round fold skipped c = .ok (first, refreshed, rewritten) d ∧
        round fold first d = .ok (second, false, merged) d ∧
        round fold second d = .ok (second, false, false) d) ∧
    ∀ ops c, unplaced text base { shared := s } = .ok ops c →
      round s.config.compiler.foldConstants ops c = .ok (ops, false, false) c := by
  have raw : Compiler.Raw { shared := s } := ⟨ordinary.standard, nofun⟩
  have compiled {ops : List Op} {c : Compiler} (ok : rawOps text base { shared := s } = .ok ops c) :
      (∀ op ∈ ops, op.Raw) ∧ c.shared.registry.Ordinary ∧ c.shared.config = s.config := by
    have kept := keeps_rawOps text base { shared := s }
    rw [after, ok] at kept
    exact ⟨((reports_rawOps text base _ raw).1 ops c ok).2, kept.registry.grown.ordinary ordinary,
      kept.config⟩
  have limit : ∀ f d, Compile.source text base { shared := s } = .error (.fault f) d → f.kind = .passLimit →
      s.config.compiler.maxPasses < 3 := by
    intro f d failed passes
    rcases source_fault raw failed with reported | unplaced | ⟨ops, c, e, ok, plain, settled, -⟩
    · exact absurd passes reported.placed.2
    · exact absurd passes unplaced.kind
    · obtain ⟨-, ordinary, config⟩ := compiled ok
      by_contra enough
      refine settle_fails plain ordinary ?_ settled passes
      rw [config]
      omega
  refine ⟨limit, fun default f d failed passes => ?_, fun ops skipped c fold ok skips => ?_,
    fun ops c ok => ?_⟩
  · have few := limit f d failed passes
    rw [default] at few
    exact absurd few (by decide)
  · obtain ⟨plain, ordinary, -⟩ := compiled ok
    obtain ⟨rfl, -, -⟩ := addSkips_ok skips
    exact three_rounds fold (withSkip_raw plain) ordinary
  · rw [unplaced_eq] at ok
    obtain ⟨made, c', first, ok⟩ := bind_ok ok
    obtain ⟨-, -, config⟩ := compiled first
    rw [← config]
    exact (settle_still ok).round

/-- The same engine with a limit of two rounds. -/
def twoRounds (s : Shared) : Shared :=
  { s with config := { compiler := { maxPasses := 2 } } }

theorem twoRounds_registry (s : Shared) : (twoRounds s).registry = s.registry := rfl

/-- A type with its argument behind a value takes three rounds, for which a limit of two is too small. -/
theorem settles_list : ∃ f d ops c,
    Compile.source "1 List<I64>" 0 { shared := twoRounds (Engine.new {} .silent {}).shared } =
      .error (.fault f) d ∧
    f.kind = .passLimit ∧ (twoRounds (Engine.new {} .silent {}).shared).config.compiler.maxPasses < 3 ∧
    unplaced "1 List<I64>" 0 { shared := (Engine.new {} .silent {}).shared } = .ok ops c ∧ ops.length = 1 ∧
    round true ops c = .ok (ops, false, false) c := by
  have limited : (Compile.source "1 List<I64>" 0).fault? { shared := twoRounds (Engine.new {} .silent {}).shared } =
      some (Fault.passLimit 2) := by decide +kernel
  obtain ⟨ops, c, made, one⟩ : ∃ ops c,
      unplaced "1 List<I64>" 0 { shared := (Engine.new {} .silent {}).shared } = .ok ops c ∧ ops.length = 1 := by
    refine answers_of (p := fun ops : List Op => ops.length = 1) ?_
    decide +kernel
  obtain ⟨d, failed⟩ := fault?_eq_some limited
  have ordinary : (Engine.new {} .silent {}).shared.registry.Ordinary :=
    (Reached.new {} .silent {} : Reached anyWatch _).ordinary
  have limit := settles "1 List<I64>" 0 (twoRounds (Engine.new {} .silent {}).shared)
    ((twoRounds_registry _).symm ▸ ordinary)
  have few := limit.1 _ d failed rfl
  have still := (settles "1 List<I64>" 0 (Engine.new {} .silent {}).shared ordinary).2.2.2 ops c made
  have folds : (Engine.new {} .silent {}).shared.config.compiler.foldConstants = true := by decide +kernel
  rw [folds] at still
  exact ⟨_, d, ops, c, failed, rfl, few, made, one, still⟩

end Compile

end Catena
