import Catena.Proofs.Control.Paved
import Catena.Proofs.Layout.Pushed
import Catena.Proofs.Layout.Words

/-!
# Units without labels of the program

A source that puts no label of its own is compiled to a unit that knows none: no operation pushes one,
and the only jumps are those of loops. So it keeps operations paved behind which it comes
(`Compile.source_unlabelled`).
-/

namespace Catena

/-- No token of the text puts a label. -/
def Unlabelled (text : String) : Prop :=
  ∀ name, name ≠ "" → ¬ Says text (String.ofList ('@' :: name.toList))

/-- The registry knows no label. -/
def Registry.Unlabelled (r : Registry) : Prop :=
  ∀ name, r.labels.find? name = none

theorem Registry.Gains.unlabelled {r r' : Registry} (h : r.Gains r') (bare : r.Unlabelled) :
    r'.Unlabelled := by
  intro name
  rw [h.labels]
  exact bare name

theorem Registry.Unlabelled.contains {r : Registry} (bare : r.Unlabelled) (name : String) :
    r.labels.contains name = false := by
  rw [Dict.contains, bare name]
  rfl

/-! ## The labels of a unit -/

/-- All labels of the operations are anonymous. -/
def Anonymous (ops : List Op) : Prop := ∀ l ∈ labels ops, l.anon = true

theorem word_label {ops : List Op} {l : Label} (member : l ∈ labels ops) (named : l.anon = false) :
    String.ofList ('@' :: l.name.toList) ∈ words ops := by
  obtain ⟨op, there, is⟩ := List.mem_filterMap.1 member
  refine List.mem_filterMap.2 ⟨op, there, ?_⟩
  cases op <;> cases is
  simp [Op.word?, named]

/-- The word for a label is needed by that label only. -/
theorem label_of_word {ops : List Op} {name : String}
    (needed : String.ofList ('@' :: name.toList) ∈ words ops) :
    ∃ l ∈ labels ops, l.name = name ∧ l.anon = false := by
  obtain ⟨op, there, is⟩ := List.mem_filterMap.1 needed
  cases op with
  | begin own safety =>
    cases safety with
    | none => cases is
    | some level =>
      have same := congrArg String.toList (Option.some.inj is)
      rw [String.toList_ofList] at same
      simp at same
  | target l =>
    simp only [Op.word?] at is
    split at is
    · cases is
    · rename_i named
      have same := congrArg String.toList (Option.some.inj is)
      simp only [String.toList_ofList, List.cons.injEq, true_and] at same
      exact ⟨l, List.mem_filterMap.2 ⟨_, there, rfl⟩, String.toList_inj.1 same,
        eq_false_of_ne_true named⟩
  | _ => cases is

/-- Where fewer words are needed there are no other labels of the program. -/
theorem Anonymous.of_words {ops ops' : List Op} (h : Anonymous ops) (fewer : words ops' ⊆ words ops) :
    Anonymous ops' := by
  intro l member
  cases named : l.anon with
  | true => rfl
  | false =>
    obtain ⟨l', there, -, isNamed⟩ := label_of_word (fewer (word_label member named))
    exact isNamed.symm.trans (h l' there)

theorem Anonymous.namedLabels {ops : List Op} (h : Anonymous ops) : namedLabels ops = [] := by
  rw [namedLabels_eq]
  exact List.filter_eq_nil_iff.2 fun l member => by simp [h l member]

/-! ## The values of a unit -/

theorem tame_refresh? {n : Names} (none : ∀ name, n.label? name = none) {inside : List Nat}
    {op op' : Op} (h : n.refresh? inside op = some op') : op'.All Value.Tame := by
  unfold Names.refresh? at h
  split at h
  · obtain ⟨l, found, -⟩ := Option.map_eq_some_iff.1 h
    cases (none _).symm.trans found
  · split at h
    · cases h
      trivial
    · obtain ⟨t, -, rfl⟩ := Option.map_eq_some_iff.1 h
      exact fun _ => nofun
  · split at h
    · cases h
      exact fun _ => nofun
    · obtain ⟨l, found, -⟩ := Option.map_eq_some_iff.1 h
      cases (none _).symm.trans found
  · split at h
    · cases h
    · cases h
    · obtain ⟨id, -, rfl⟩ := Option.map_eq_some_iff.1 h
      trivial
  · cases h

theorem Pushed.refresh {n : Names} (none : ∀ name, n.label? name = none) {ops : List Op}
    (h : Pushed Value.Tame ops) (inside : List Nat) : Pushed Value.Tame (n.refresh inside ops).1 := by
  induction ops generalizing inside with
  | nil => exact h
  | cons op ops ih =>
    have rest := ih h.tail (Names.enclosing inside op)
    rw [Names.refresh]
    cases found : n.refresh? inside op with
    | none => exact rest.cons h.head
    | some op' => exact rest.cons (tame_refresh? none found)

theorem Pushed.place {ops : List Op} (h : Pushed Value.Tame ops) (p : Placement) :
    Pushed Value.Tame (ops.map p.op) := by
  have value (v : Value) (tame : v.Tame) : (p.value v).Tame := by
    unfold Placement.value
    split
    · rename_i l is
      exact absurd is (tame l)
    · exact tame
  intro op member
  obtain ⟨op, there, rfl⟩ := List.mem_map.1 member
  have tame := h op there
  cases op with
  | push v => exact value v tame
  | pushMany vs =>
    intro v member
    obtain ⟨w, inside, rfl⟩ := List.mem_map.1 member
    exact value w (tame w inside)
  | _ => trivial

namespace Compile

variable {c d : Compiler} {fold changed : Bool} {done done' ops ops' : List Op} {merged : Bool}

theorem tame_rewriteOp {op : Op} (before : Pushed Value.Tame done) (all : op.All Value.Tame)
    (ok : rewriteOp fold done op c = .ok (done', merged) d) : Pushed Value.Tame done' := by
  unfold rewriteOp at ok
  split at ok
  · obtain ⟨id, c₁, -, ok⟩ := bind_ok ok
    cases ok
    exact before.loopOps id fun _ => rfl
  · obtain ⟨id, c₁, -, ok⟩ := bind_ok ok
    cases ok
    exact before.loopOps id fun _ => rfl
  · rename_i v
    split at ok
    · obtain rfl := congrArg Prod.fst (EStateM.Result.ok.inj ok).1
      exact before.mergePush all fun w member => List.mem_singleton.1 member ▸ all
    · cases ok
      exact before.cons all
  · split at ok
    · obtain rfl := congrArg Prod.fst (EStateM.Result.ok.inj ok).1
      exact before.mergePush all all
    · cases ok
      exact before.cons all
  · split at ok
    · obtain rfl := congrArg Prod.fst (EStateM.Result.ok.inj ok).1
      exact before.mergeDrop _
    · cases ok
      exact before.cons trivial
  · generalize found : (if fold = true then takeType? done else none) = taken at ok
    cases taken with
    | some taken =>
      cases ok
      split at found
      · exact (before.takeType? found).cons trivial
      · cases found
    | none =>
      cases ok
      exact before.cons trivial
  · generalize found : (if fold = true then bracketTypes? _ [] done else none) = taken at ok
    cases taken with
    | some taken =>
      obtain ⟨args, rest⟩ := taken
      split at found
      · obtain ⟨made, c₁, -, ok⟩ := bind_ok ok
        obtain ⟨⟨t, registry⟩, c₂, -, pushed⟩ := bind_ok ok
        cases pushed
        exact (before.bracketTypes? found).cons fun _ => nofun
      · cases found
    | none =>
      cases ok
      exact before.cons trivial
  · cases ok
    exact before.cons all

theorem tame_rewrite (before : Pushed Value.Tame done) (h : Pushed Value.Tame ops) {changed' : Bool}
    (ok : rewrite fold changed done ops c = .ok (ops', changed') d) : Pushed Value.Tame ops' := by
  induction ops generalizing c done changed with
  | nil =>
    cases ok
    exact fun op member => before op (List.mem_reverse.1 member)
  | cons op ops ih =>
    obtain ⟨⟨next, merged⟩, e, first, rest⟩ := bind_ok ok
    exact ih (tame_rewriteOp before h.head first) h.tail rest

/-- Rounds over a unit that has no label of the program, where none is known, give it none. -/
theorem tame_rounds {lo : Nat} {config : CompilerConfig} {left : Nat} (settled : Settled lo c ops)
    (bare : c.shared.registry.Unlabelled) (anonymous : Anonymous ops) (h : Pushed Value.Tame ops)
    (ok : rounds config left ops c = .ok ops' d) : Anonymous ops' ∧ Pushed Value.Tame ops' := by
  induction left generalizing c ops with
  | zero => cases ok
  | succ left ih =>
    obtain ⟨n, c₁, looked, looking⟩ := bind_ok ok
    obtain ⟨rfl, found⟩ := names_ok settled.labelled looked
    obtain ⟨⟨rewritten, again⟩, c₂, merged, merging⟩ := bind_ok looking
    obtain ⟨_, c₃, noted, last⟩ := bind_ok merging
    have none : ∀ name, n.label? name = none := by
      intro name
      cases known : n.label? name with
      | none => rfl
      | some l =>
        obtain ⟨named, own | taken⟩ := found name l known
        · rw [anonymous l own] at named
          cases named
        · rw [Compile.taken, bare.contains] at taken
          cases taken
    have refreshed := refresh_refreshed n [] ops
    have fresh : Settled lo c₁ (([] : List Op).reverse ++ (n.refresh [] ops).1) :=
      ⟨refreshed.laid settled.laid found, settled.below, settled.labelled⟩
    obtain ⟨next, later, -, -, words⟩ := rewrite_ok fresh (by simp) merged
    have anonymous : Anonymous rewritten := anonymous.of_words (refreshed.words ▸ words)
    have tame : Pushed Value.Tame rewritten := 
      tame_rewrite (List.forall_mem_nil _) (h.refresh none []) merged
    have gained : c₁.shared.registry.Gains c₂.shared.registry := by
      have keeps := keeps_rewrite config.foldConstants false [] (n.refresh [] ops).1 c₁
      rw [after, merged] at keeps
      exact keeps.registry
    have same : c₃.shared.registry = c₂.shared.registry := by
      cases noted
      exact Run.note_registry _ _ _ _ _
    split at last
    · refine ih ?_ ?_ anonymous tame last
      · have grown : c₂.shared.registry.Grown c₃.shared.registry := same ▸ .refl _
        refine ⟨?_, ?_, ?_⟩
        · rw [same]
          exact next.laid.mono grown.taken
        · rw [same]
          exact next.below
        · rw [same]
          exact next.labelled
      · rw [same]
        exact gained.unlabelled bare
    · cases last
      exact ⟨anonymous, tame⟩

/-! ## Source texts -/

/-- What the tokens of a text that puts no label are compiled to. -/
theorem unlabelled_upTo {text : String} (quiet : Unlabelled text) {ts rest : List Token} {fuel : Nat}
    (standard : c.shared.registry.Standard) (empty : c.ops = #[])
    (scanned : Token.scan 0 text.toList = .ok ts) (ok : upTo fuel none ts c = .ok rest d) :
    Anonymous d.ops.toList ∧ Pushed Value.Tame d.ops.toList := by
  have begun : c.Within (Says text) := by
    constructor
    · exact standard
    · rw [empty]
      nofun
    · rw [empty]
      nofun
  have read : Token.Within (Says text) ts := fun t member w said => ⟨ts, scanned, t, member, said⟩
  obtain ⟨within, -⟩ := needs_upTo _ _ _ read _ _ _ begun ok
  constructor
  · intro l member
    cases named : l.anon with
    | true => rfl
    | false =>
      obtain ⟨op, there, is⟩ := List.mem_filterMap.1 member
      have tame := within.tame op there
      cases op <;> cases is
      exact absurd (within.words _ (word_label member named)) (quiet l.name (tame named))
  · intro op there
    have tame := within.tame op there
    cases op with
    | push v => exact tame
    | pushMany vs => exact tame
    | _ => trivial

theorem unlabelled_settle {lo : Nat} (fragment : Fragment lo c.shared.registry.nextId (ops.flatMap Op.withSkip))
    (below : lo ≤ c.shared.registry.nextId) (labelled : c.shared.registry.Labelled)
    (bare : c.shared.registry.Unlabelled) (anonymous : Anonymous ops) (h : Pushed Value.Tame ops)
    (ok : settle ops c = .ok ops' d) : Anonymous ops' ∧ Pushed Value.Tame ops' := by
  obtain ⟨config, c₁, asked, ok⟩ := bind_ok ok
  cases asked
  obtain ⟨skipped, c₂, put, ok⟩ := bind_ok ok
  cases made : addSkips [] ops with
  | error f => rw [made] at put; cases put
  | ok rest =>
    rw [made] at put
    cases put
    obtain ⟨rfl, names, -⟩ := addSkips_ok made
    have skips : Anonymous (ops.flatMap Op.withSkip) :=
      anonymous.of_words (words_withSkip ops ▸ List.Subset.refl _)
    exact tame_rounds ⟨.of_fragment fragment names, below, labelled⟩ bare skips h.withSkip ok

end Compile

/-- In a unit whose labels are all anonymous, the only jumps are those of loops. -/
theorem Laid.jump {taken : String → Prop} {lo hi : Nat} {ops : List Op} (h : Laid taken lo hi ops)
    (anonymous : Anonymous ops) (free : ∀ name, ¬ taken name) {i : Nat} {name : String} {l : Label}
    (found : ops[i]? = some (.jump name (some l))) :
    ∃ k op, i = k + 1 ∧ ops[k]? = some op ∧ op.isLoop = true := by
  have anon : l.anon = true := by
    rcases h.jumps name l (List.mem_of_getElem? found) with own | ⟨-, known⟩
    · exact anonymous l own
    · exact absurd known (free l.name)
  obtain ⟨last, reads⟩ := h.reads
  obtain ⟨op, done, bound, -, before, loop⟩ := reads.back found anon
  refine ⟨i - 1, op, by omega, before, ?_⟩
  rcases loop with rfl | rfl <;> rfl

namespace Compile

variable {s : Shared} {text : String} {base : Nat}

/-- Where no label is put, none becomes known as the unit is placed. -/
theorem keeps_place {ops : List Op} (anonymous : Anonymous ops) : Keeps (place base ops) := by
  refine (Keeps.ask _).bind fun _ => (Keeps.ofExcept _).bind fun _ => (keeps_note _ _ _).bind fun _ => ?_
  refine (Keeps.alter fun s => ?_).bind fun _ => .of_same fun _ => rfl
  rw [anonymous.namedLabels]
  exact .refl s

/-- A source that puts no label leaves none behind, whether it is compiled or not. -/
theorem gains_source (standard : s.registry.Standard) (labelled : s.registry.Labelled)
    (bare : s.registry.Unlabelled) (quiet : Unlabelled text) :
    s.Gains (after (source text base) { shared := s }).shared := by
  let c : Compiler := { shared := s }
  have first := keeps_tokens text 0 c
  unfold source
  rw [after] at first
  rw [after_bind]
  cases read : tokens text 0 c with
  | error e c₁ => rw [read] at first; exact first
  | ok ts c₁ =>
    rw [read] at first
    obtain ⟨scanned, registry, empty⟩ := tokens_ok read
    dsimp only
    rw [after_bind]
    obtain ⟨c₂, said⟩ : ∃ c₂, note .compiler .debug
      (fun _ => s!"compiling {ts.length} tokens at base {base}") c₁ = .ok () c₂ := ⟨_, rfl⟩
    have second := keeps_note .compiler .debug
      (fun _ => s!"compiling {ts.length} tokens at base {base}") c₁
    rw [after, said] at second
    rw [said]
    have quietly : c₂.shared.registry = s.registry ∧ c₂.ops = #[] := by
      cases said
      exact ⟨(Run.note_registry _ _ _ _ _).trans registry, empty⟩
    dsimp only
    rw [after_bind]
    have third := keeps_upTo (2 * text.length + 2) none ts c₂
    rw [after] at third
    cases compiled : upTo (2 * text.length + 2) none ts c₂ with
    | error e c₃ => rw [compiled] at third; exact (first.trans second).trans third
    | ok rest c₃ =>
      rw [compiled] at third
      have standard₂ : c₂.shared.registry.Standard := quietly.1 ▸ standard
      obtain ⟨added, adds⟩ := nests_upTo (2 * text.length + 2) none ts c₂ rest c₃ standard₂ compiled
      have whole : c₃.ops.toList = added := by rw [adds.added, quietly.2]; rfl
      subst whole
      obtain ⟨anonymous, tame⟩ := unlabelled_upTo quiet standard₂ quietly.2 scanned compiled
      have before : s.Gains c₃.shared := (first.trans second).trans third
      dsimp only
      refine before.trans ?_
      have fourth := keeps_settle c₃.ops.toList c₃
      rw [after] at fourth
      change c₃.shared.Gains (after (settle c₃.ops.toList >>= fun ops => place base ops >>= fun code => do
        note .compiler .debug fun _ => s!"compiled {code.ops.length} ops"
        return code) c₃).shared
      rw [after_bind]
      cases settled : settle c₃.ops.toList c₃ with
      | error e c₄ => rw [settled] at fourth; exact fourth
      | ok ops c₄ =>
        rw [settled] at fourth
        have still := unlabelled_settle adds.fragment adds.grown.ids
          (before.registry.grown.labelled labelled) (before.registry.unlabelled bare) anonymous tame settled
        exact fourth.trans ((keeps_place still.1).bind (fun code => (keeps_note _ _ _).bind fun _ =>
          .pure code) c₄)

/-- A unit of a source that puts no label: everything stands where it should, no label is pushed, and the
only jumps are those of loops. -/
theorem source_unlabelled (standard : s.registry.Standard) (labelled : s.registry.Labelled)
    (bare : s.registry.Unlabelled) (quiet : Unlabelled text) {code : Code} {d : Compiler}
    (ok : source text base { shared := s } = .ok code d) :
    Layout base d.shared.registry.labels code.ops ∧ (∀ b ∈ code.pending, b ∈ bodies code.ops) ∧
      Pushed Value.Tame code.ops ∧
      ∀ (i : Nat) name l, code.ops[i]? = some (.jump name (some l)) →
        ∃ k op, i = k + 1 ∧ code.ops[k]? = some op ∧ op.isLoop = true := by
  obtain ⟨layout, pending, -⟩ := source_ok standard labelled ok
  obtain ⟨ts, c, rest, e, ops, f, g, lo, scanned, registry, empty, compiled, settled, settles, -, made,
    -⟩ := source_parts standard labelled ok
  have standard₂ : c.shared.registry.Standard := registry ▸ standard
  obtain ⟨added, adds⟩ := nests_upTo (2 * text.length + 2) none ts c rest e standard₂ compiled
  have whole : e.ops.toList = added := by rw [adds.added, empty]; rfl
  subst whole
  obtain ⟨anonymous, tame⟩ := unlabelled_upTo quiet standard₂ empty scanned compiled
  have upTo := keeps_upTo (2 * text.length + 2) none ts c
  rw [after, compiled] at upTo
  have bare₂ : e.shared.registry.Unlabelled := upTo.registry.unlabelled (registry ▸ bare)
  obtain ⟨anonymous, tame⟩ := unlabelled_settle adds.fragment adds.grown.ids
    (adds.grown.labelled (registry ▸ labelled)) bare₂ anonymous tame settled
  have settling := keeps_settle e.ops.toList e
  rw [after, settled] at settling
  have free : ∀ name, ¬ Compile.taken f name := by
    intro name known
    rw [Compile.taken, (settling.registry.unlabelled bare₂).contains] at known
    cases known
  have placed : code.ops = ops.map (({} : Placement).ofOps base ops).op := by
    obtain ⟨checked, c₁, asked, made⟩ := bind_ok made
    obtain ⟨_, c₂, passed, made⟩ := bind_ok made
    obtain ⟨_, c₃, noted, made⟩ := bind_ok made
    obtain ⟨_, c₄, added, made⟩ := bind_ok made
    cases made
    rfl
  refine ⟨layout, pending, placed ▸ tame.place _, fun i name l found => ?_⟩
  rw [placed, List.getElem?_map] at found
  obtain ⟨op, there, same⟩ := Option.map_eq_some_iff.1 found
  cases op with
  | jump name' label =>
    cases label with
    | none => cases same
    | some l' =>
      obtain ⟨k, op, rfl, before, isLoop⟩ := settles.settled.laid.jump anonymous free there
      refine ⟨k, ({} : Placement).ofOps base ops |>.op op, rfl, ?_, ?_⟩
      · rw [placed, List.getElem?_map, before]
        rfl
      · cases op <;> first | rfl | cases isLoop
  | _ => cases same

end Compile

end Catena
