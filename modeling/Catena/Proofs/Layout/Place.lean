import Catena.Proofs.Layout.Settle

/-!
# Where everything is placed

Compiling a source text gives a unit in which everything stands the way the machine relies on
(`Layout`): brackets match, lambdas and `try:` forms know their ends, loops jump back to their start,
and labels are where they are known to be.
-/

namespace Catena

/-- Everything in a unit that begins at `base` stands where it should; `known` are the labels that
can be found by name. -/
structure Layout (base : Nat) (known : Dict String Label) (ops : List Op) : Prop where
  balanced : Balanced ops
  /-- A lambda is entered right behind its beginning and skipped to right behind its end. -/
  lambda : ∀ (i : Nat) (body : LambdaDef) kind skip, ops[i]? = some (.lambda body kind skip) →
    body.entry = some (base + i + 1) ∧
      ∃ j l, Matches ops i j ∧ skip = some l ∧ l.pc = some (base + j + 1)
  /-- A loop stands between the label it starts at and the jump back to that; it ends behind the
  jump. -/
  loop : ∀ (i : Nat) (op : Op) done, ops[i]? = some op → op = .for done ∨ op = .while done →
    ∃ start finish, 0 < i ∧ ops[i - 1]? = some (.target start) ∧ start.pc = some (base + i - 1) ∧
      ops[i + 1]? = some (.jump start.name (some start)) ∧ done = some finish ∧
      finish.pc = some (base + i + 2)
  /-- A `try:` form goes on at the label right before its end. -/
  attempt : ∀ (i : Nat) (done : Label), ops[i]? = some (.try done) →
    ∃ j l, Matches ops i j ∧ 0 < j ∧ ops[j - 1]? = some (.target l) ∧ done = l ∧
      done.pc = some (base + j - 1)
  label : ∀ (i : Nat) (l : Label), ops[i]? = some (.target l) → l.pc = some (base + i)
  named : ∀ (i : Nat) (l : Label), ops[i]? = some (.target l) → l.anon = false → known.find? l.name = some l
  /-- A jump to a label of the unit goes where that label stands. -/
  jump : ∀ (i k : Nat) name (l l' : Label), ops[i]? = some (.target l) → ops[k]? = some (.jump name (some l')) →
    l'.name = l.name → l'.anon = l.anon → l'.pc = some (base + i)

/-! ## Placements -/

/-- What a label is found by while a unit is placed. -/
def Label.key (l : Label) : String × Bool := (l.name, l.anon)

namespace Placement

variable {p : Placement} {pc : Nat} {ops : List Op}

theorem ofOps_labels_of_notMem {key : String × Bool} (h : key ∉ (Catena.labels ops).map Label.key) :
    (p.ofOps pc ops).labels.find? key = p.labels.find? key := by
  induction ops generalizing p pc with
  | nil => rfl
  | cons op ops ih =>
    cases op with
    | target l =>
      have apart : key ≠ l.key ∧ key ∉ (Catena.labels ops).map Label.key := by
        simpa [Catena.labels, Op.label?] using h
      rw [ofOps, ih apart.2, Dict.find?_insert]
      exact if_neg (Ne.symm apart.1)
    | _ => exact ih h

/-- A label that no other one has the key of is placed where it stands. -/
theorem ofOps_label (distinct : ((Catena.labels ops).map Label.key).Nodup) {i : Nat} {l : Label}
    (found : ops[i]? = some (.target l)) : (p.ofOps pc ops).labels.find? l.key = some (pc + i) := by
  induction ops generalizing p pc i with
  | nil => cases found
  | cons op ops ih =>
    cases i with
    | zero =>
      obtain rfl := Option.some.inj found
      obtain ⟨fresh, -⟩ := List.nodup_cons.1 distinct
      rw [ofOps, ofOps_labels_of_notMem fresh, Dict.find?_insert]
      exact if_pos rfl
    | succ i =>
      have rest : ((Catena.labels ops).map Label.key).Nodup := by
        refine distinct.sublist (List.Sublist.map _ ?_)
        exact List.Sublist.filterMap _ (List.sublist_cons_self op ops)
      have place : pc + (i + 1) = pc + 1 + i := by omega
      rw [place]
      cases op <;> exact ih rest found

theorem ofOps_entries_of_notMem {id : Nat} (h : id ∉ (bodies ops).map (·.id)) :
    (p.ofOps pc ops).entries.find? id = p.entries.find? id := by
  induction ops generalizing p pc with
  | nil => rfl
  | cons op ops ih =>
    cases op with
    | lambda body kind skip =>
      have apart : id ≠ body.id ∧ id ∉ (bodies ops).map (·.id) := by
        simpa [bodies, Op.body?] using h
      rw [ofOps, ih apart.2, Dict.find?_insert, if_neg (Ne.symm apart.1)]
    | _ => exact ih h

/-- A lambda that no other one has the id of is entered right behind its beginning. -/
theorem ofOps_entry (distinct : ((bodies ops).map (·.id)).Nodup) {i : Nat} {body : LambdaDef}
    {kind : LambdaKind} {skip : Option Label} (found : ops[i]? = some (.lambda body kind skip)) :
    (p.ofOps pc ops).entries.find? body.id = some (pc + i + 1) := by
  induction ops generalizing p pc i with
  | nil => cases found
  | cons op ops ih =>
    cases i with
    | zero =>
      obtain rfl := Option.some.inj found
      obtain ⟨fresh, -⟩ := List.nodup_cons.1 distinct
      rw [ofOps, ofOps_entries_of_notMem fresh, Dict.find?_insert]
      exact if_pos rfl
    | succ i =>
      have rest : ((bodies ops).map (·.id)).Nodup := by
        refine distinct.sublist (List.Sublist.map _ ?_)
        exact List.Sublist.filterMap _ (List.sublist_cons_self op ops)
      have place : pc + (i + 1) + 1 = pc + 1 + i + 1 := by omega
      rw [place]
      cases op <;> exact ih rest found

theorem opens?_op (op : Op) : (p.op op).opens? = op.opens? := by
  cases op <;> rfl

theorem closes?_op (op : Op) : (p.op op).closes? = op.closes? := by
  cases op <;> rfl

end Placement

/-! ## Labels that are all different -/

theorem nodup_of_filters {α : Type} {p : α → Bool} {xs : List α} (yes : (xs.filter p).Nodup)
    (no : (xs.filter fun x => !p x).Nodup) : xs.Nodup := by
  induction xs with
  | nil => exact List.nodup_nil
  | cons x xs ih =>
    rw [List.nodup_cons]
    cases holds : p x with
    | true =>
      rw [List.filter_cons_of_pos holds] at yes
      rw [List.filter_cons_of_neg (by simp [holds])] at no
      obtain ⟨fresh, yes⟩ := List.nodup_cons.1 yes
      exact ⟨fun member => fresh (List.mem_filter.2 ⟨member, holds⟩), ih yes no⟩
    | false =>
      rw [List.filter_cons_of_neg (by simp [holds])] at yes
      rw [List.filter_cons_of_pos (by simp [holds])] at no
      obtain ⟨fresh, no⟩ := List.nodup_cons.1 no
      exact ⟨fun member => fresh (List.mem_filter.2 ⟨member, by simp [holds]⟩), ih yes no⟩

namespace Laid

variable {taken : String → Prop} {lo hi : Nat} {ops : List Op}

/-- A label of the unit is determined by its key. -/
theorem label_eq (h : Laid taken lo hi ops) {l l' : Label} (member : l ∈ Catena.labels ops)
    (member' : l' ∈ Catena.labels ops) (same : l.key = l'.key) : l = l' := by
  obtain ⟨name, anon⟩ := Prod.mk.inj same
  rcases h.labels l member with named | fresh <;> rcases h.labels l' member' with named' | fresh'
  · rw [named, named', name]
  · rw [named, fresh'.anon] at anon
    cases anon
  · rw [named', fresh.anon] at anon
    cases anon
  · obtain ⟨hint, known, id, -, -, rfl⟩ := fresh
    obtain ⟨hint', known', id', -, -, rfl⟩ := fresh'
    obtain ⟨rfl, rfl⟩ := Label.fresh_inj known known' name
    rfl

theorem keys_nodup (h : Laid taken lo hi ops) : ((Catena.labels ops).map Label.key).Nodup := by
  have distinct : (Catena.labels ops).Nodup := nodup_of_filters h.distinct h.names
  rw [List.Nodup, List.pairwise_map]
  exact distinct.imp_of_mem fun member member' apart same => apart (h.label_eq member member' same)

theorem mem_labels {i : Nat} {l : Label} (found : ops[i]? = some (.target l)) :
    l ∈ Catena.labels ops :=
  List.mem_filterMap.2 ⟨_, List.mem_of_getElem? found, rfl⟩

theorem pc_none (h : Laid taken lo hi ops) {l : Label} (member : l ∈ Catena.labels ops) :
    l.pc = none := by
  rcases h.labels l member with named | ⟨hint, -, id, -, -, rfl⟩
  · rw [named]
    rfl
  · rfl

/-- A label of the unit is placed where it stands. -/
theorem placed (h : Laid taken lo hi ops) (base : Nat) {i : Nat} {l : Label}
    (found : ops[i]? = some (.target l)) :
    (((({} : Placement).ofOps base ops).label l).pc) = some (base + i) := by
  have place : (({} : Placement).ofOps base ops).labels.find? l.key = some (base + i) :=
    Placement.ofOps_label h.keys_nodup found
  show l.pc.or ((({} : Placement).ofOps base ops).labels.find? l.key) = some (base + i)
  rw [h.pc_none (mem_labels found), place]
  rfl

/-- A unit that is laid has everything at its place once it is placed. -/
theorem layout (h : Laid taken lo hi ops) (shaped : ∀ op ∈ ops, op.isBare = false)
    (free : ∀ l ∈ Catena.labels ops, l.anon = false → ¬ taken l.name) (base : Nat)
    {known : Dict String Label}
    (registered : ∀ l ∈ Catena.labels ops, l.anon = false →
      known.find? l.name = some ((({} : Placement).ofOps base ops).label l)) :
    Layout base known (ops.map (({} : Placement).ofOps base ops).op) := by
  obtain ⟨last, reads⟩ := h.reads
  have finish : Reading.Finished ⟨[], .any last⟩ := ⟨rfl, last, rfl⟩
  have placed {i : Nat} {l : Label} (found : ops[i]? = some (.target l)) := h.placed base found
  have entered {i : Nat} {body : LambdaDef} {kind skip}
      (found : ops[i]? = some (.lambda body kind skip)) :
      (({} : Placement).ofOps base ops).entries.find? body.id = some (base + i + 1) :=
    Placement.ofOps_entry h.bodies found
  generalize ({} : Placement).ofOps base ops = p at *
  have at_ {i : Nat} {op : Op} (found : (ops.map p.op)[i]? = some op) :
      ∃ op', ops[i]? = some op' ∧ p.op op' = op := by
    rw [List.getElem?_map] at found
    exact Option.map_eq_some_iff.1 found
  have map {i : Nat} {op : Op} (found : ops[i]? = some op) : (ops.map p.op)[i]? = some (p.op op) := by
    rw [List.getElem?_map, found]
    rfl
  constructor
  · exact (reads.balanced rfl rfl).map Placement.opens?_op Placement.closes?_op
  · intro i body kind skip found
    obtain ⟨op, there, same⟩ := at_ found
    cases op with
    | lambda body' kind' skip' =>
      cases same
      obtain ⟨entry, j, l, rfl, matched, behind⟩ := reads.lambda finish there
      refine ⟨?_, j, p.label l, matched.map Placement.opens?_op Placement.closes?_op, rfl,
        placed behind⟩
      show body'.entry.or (p.entries.find? body'.id) = some (base + i + 1)
      rw [entry, entered there]
      rfl
    | _ => cases same
  · intro i op done found loop
    obtain ⟨op', there, same⟩ := at_ found
    have original : ∃ done', (op' = .for done' ∨ op' = .while done') ∧ done = done'.map p.label := by
      rcases loop with rfl | rfl <;> cases op' <;> cases same
      · exact ⟨_, .inl rfl, rfl⟩
      · exact ⟨_, .inr rfl, rfl⟩
    obtain ⟨done', isLoop, rfl⟩ := original
    cases done' with
    | none =>
      have bare := shaped op' (List.mem_of_getElem? there)
      rcases isLoop with rfl | rfl <;> cases bare
    | some done' =>
      obtain ⟨start, positive, before, back, behind⟩ := reads.loop finish there isLoop
      refine ⟨p.label start, p.label done', positive, map before, ?_, map back, rfl, ?_⟩
      · rw [placed before, Nat.add_sub_assoc positive]
      · exact placed behind
  · intro i done found
    obtain ⟨op, there, same⟩ := at_ found
    cases op with
    | «try» done' =>
      cases same
      obtain ⟨j, matched, positive, before⟩ := reads.attempt finish there
      refine ⟨j, p.label done', matched.map Placement.opens?_op Placement.closes?_op, positive,
        map before, rfl, ?_⟩
      rw [placed before, Nat.add_sub_assoc positive]
    | _ => cases same
  · intro i l found
    obtain ⟨op, there, same⟩ := at_ found
    cases op <;> cases same
    exact placed there
  · intro i l found anon
    obtain ⟨op, there, same⟩ := at_ found
    cases op <;> cases same
    exact registered _ (mem_labels there) anon
  · intro i k name l l' found jumps name_ anon
    obtain ⟨op, there, same⟩ := at_ found
    obtain ⟨op', jumping, same'⟩ := at_ jumps
    cases op with
    | target label =>
      cases same
      cases op' with
      | jump name' label' =>
        cases label' with
        | none => cases same'
        | some label' =>
          cases same'
          rcases h.jumps _ label' (List.mem_of_getElem? jumping) with own | ⟨named, elsewhere⟩
          · obtain rfl := h.label_eq own (mem_labels there) (Prod.ext name_ anon)
            exact placed there
          · have same : label'.name = label.name := name_
            rw [same] at elsewhere
            exact absurd elsewhere (free label (mem_labels there) (anon.symm.trans named))
      | _ => cases same'
    | _ => cases same

end Laid

/-! ## Source texts -/

namespace Registry

theorem addLabels_find?_of_notMem (r : Registry) {labels : List Label} {name : String}
    (h : name ∉ labels.map (·.name)) :
    (r.addLabels labels).labels.find? name = r.labels.find? name := by
  induction labels generalizing r with
  | nil => rfl
  | cons l labels ih =>
    have apart : name ≠ l.name ∧ name ∉ labels.map (·.name) := by simpa using h
    rw [addLabels_cons, ih _ apart.2, Dict.find?_insert, if_neg (Ne.symm apart.1)]

theorem addLabels_find? (r : Registry) {labels : List Label} (distinct : (labels.map (·.name)).Nodup)
    {l : Label} (member : l ∈ labels) : (r.addLabels labels).labels.find? l.name = some l := by
  induction labels generalizing r with
  | nil => cases member
  | cons l' labels ih =>
    obtain ⟨fresh, rest⟩ := List.nodup_cons.1 distinct
    rw [addLabels_cons]
    rcases List.mem_cons.1 member with rfl | member
    · rw [addLabels_find?_of_notMem _ fresh, Dict.find?_insert, if_pos rfl]
    · exact ih _ rest member

theorem checkLabels_ok {r : Registry} {labels : List Label} (h : r.checkLabels labels = .ok ())
    {l : Label} (member : l ∈ labels) : r.labels.contains l.name = false := by
  unfold checkLabels at h
  split at h
  · cases h
  · rename_i free
    exact eq_false_of_ne_true (List.find?_eq_none.1 free l member)

end Registry

theorem bodies_op (p : Placement) (ops : List Op) : bodies (ops.map p.op) = (bodies ops).map p.body := by
  unfold bodies
  rw [List.filterMap_map, List.map_filterMap]
  congr
  funext op
  cases op <;> rfl

theorem words_op (p : Placement) (ops : List Op) : words (ops.map p.op) = words ops := by
  unfold words
  rw [List.filterMap_map]
  congr
  funext op
  cases op <;> rfl

/-- The lambdas that functions and conversions of a unit run. -/
def Code.pending (code : Code) : List LambdaDef :=
  code.funcs.map (·.body) ++ code.convs.map (·.body)

namespace Compile

variable {c d : Compiler} {lo base : Nat} {ops : List Op} {code : Code}

theorem place_ok (settled : Settled lo c ops) (shaped : ∀ op ∈ ops, op.isBare = false)
    (defined : ∀ b ∈ c.pending, b ∈ bodies ops) (ok : place base ops c = .ok code d) :
    Layout base d.shared.registry.labels code.ops ∧ ∀ b ∈ code.pending, b ∈ bodies code.ops := by
  obtain ⟨checked, c₁, asked, checking⟩ := bind_ok ok
  cases asked
  obtain ⟨_, c₂, passed, noting⟩ := bind_ok checking
  obtain ⟨_, c₃, noted, adding⟩ := bind_ok noting
  obtain ⟨_, c₄, added, made⟩ := bind_ok adding
  have free : ∀ l ∈ namedLabels ops, c.shared.registry.labels.contains l.name = false := by
    intro l member
    dsimp only at passed
    cases result : c.shared.registry.checkLabels (namedLabels ops) with
    | ok u => exact Registry.checkLabels_ok result member
    | error f => rw [result] at passed; cases passed
  obtain rfl := ofExcept_same passed
  have later : c₃.shared.registry = c₂.shared.registry ∧ c₃.funcs = c₂.funcs ∧ c₃.convs = c₂.convs := by
    cases noted
    exact ⟨Run.note_registry _ _ _ _ _, rfl, rfl⟩
  cases added
  cases made
  have isNamed {l : Label} (member : l ∈ labels ops) (anon : l.anon = false) : l ∈ namedLabels ops := by
    rw [namedLabels_eq]
    exact List.mem_filter.2 ⟨member, by simp [anon]⟩
  constructor
  · refine settled.laid.layout shaped (fun l member anon known => ?_) base fun l member anon => ?_
    · rw [taken, free l (isNamed member anon)] at known
      cases known
    · have distinct : (((namedLabels ops).map (({} : Placement).ofOps base ops).label).map
          (·.name)).Nodup := by
        rw [List.map_map]
        refine List.pairwise_map.2 ((namedLabels_eq ops ▸ settled.laid.names).imp_of_mem ?_)
        intro l l' member member' apart same
        rw [namedLabels_eq] at member member'
        obtain ⟨member, anon⟩ := List.mem_filter.1 member
        obtain ⟨member', anon'⟩ := List.mem_filter.1 member'
        refine apart (settled.laid.label_eq member member' (Prod.ext same ?_))
        simp only [Bool.not_eq_true'] at anon anon'
        exact anon.trans anon'.symm
      exact Registry.addLabels_find? _ distinct (List.mem_map_of_mem (isNamed member anon))
  · intro b member
    rw [bodies_op]
    have original : ∃ b' ∈ c₂.pending, (({} : Placement).ofOps base ops).body b' = b := by
      simp only [Code.pending, later.2, List.map_map, List.mem_append, List.mem_map] at member
      rcases member with ⟨f, known, rfl⟩ | ⟨f, known, rfl⟩
      · exact ⟨f.body, List.mem_append_left _ (List.mem_map_of_mem known), rfl⟩
      · exact ⟨f.body, List.mem_append_right _ (List.mem_map_of_mem known), rfl⟩
    obtain ⟨b', known, rfl⟩ := original
    exact List.mem_map_of_mem (defined b' known)

theorem place_words (ok : place base ops c = .ok code d) : words code.ops = words ops := by
  obtain ⟨checked, c₁, asked, ok⟩ := bind_ok ok
  obtain ⟨_, c₂, passed, ok⟩ := bind_ok ok
  obtain ⟨_, c₃, noted, ok⟩ := bind_ok ok
  obtain ⟨_, c₄, added, made⟩ := bind_ok ok
  cases made
  exact words_op _ _

/-- What is compiled has been read, settled and placed, one after the other. -/
theorem source_parts {text : String} {s : Shared} (standard : s.registry.Standard)
    (labelled : s.registry.Labelled) (ok : source text base { shared := s } = .ok code d) :
    ∃ ts c rest e ops f g lo, Token.scan 0 text.toList = .ok ts ∧ c.shared.registry = s.registry ∧
      c.ops = #[] ∧ upTo (2 * text.length + 2) none ts c = .ok rest e ∧
      settle e.ops.toList e = .ok ops f ∧
      Settles lo e f (e.ops.toList.flatMap Op.withSkip) ops ∧ (∀ b ∈ f.pending, b ∈ bodies ops) ∧
      place base ops f = .ok code g ∧ d.shared.registry = g.shared.registry := by
  obtain ⟨ts, c₁, scanned, noting⟩ := bind_ok ok
  obtain ⟨_, c₂, noted, compiling⟩ := bind_ok noting
  obtain ⟨rest, c₃, compiled, asking⟩ := bind_ok compiling
  obtain ⟨_, c₄, got, settling⟩ := bind_ok asking
  obtain ⟨ops, c₅, settled, placing⟩ := bind_ok settling
  obtain ⟨placed, c₆, made, ending⟩ := bind_ok placing
  have first : Nests (do
      let ts ← tokens text 0
      note .compiler .debug fun _ => s!"compiling {ts.length} tokens at base {base}"
      upTo (2 * text.length + 2) none ts) :=
    (nests_tokens _ _).bind fun _ => (nests_note _ _ _).bind fun _ => nests_upTo _ _ _
  have begun : (do
      let ts ← tokens text 0
      note .compiler .debug fun _ => s!"compiling {ts.length} tokens at base {base}"
      upTo (2 * text.length + 2) none ts) ({ shared := s } : Compiler) = .ok rest c₃ := by
    simp only [bind, EStateM.bind, scanned, noted, compiled]
  obtain ⟨added, adds⟩ := first _ _ _ standard begun
  cases got
  have whole : c₃.ops.toList = added := adds.added
  subst whole
  have settles := settle_ok adds.fragment adds.grown.ids (adds.grown.labelled labelled) settled
  have defined : ∀ b ∈ c₅.pending, b ∈ bodies ops := by
    intro b member
    rw [settles.bodies]
    rcases adds.pending b (settles.later.pending ▸ member) with before | inside
    · cases before
    · exact inside
  obtain ⟨_, c₇, said, finish⟩ := bind_ok ending
  cases finish
  obtain ⟨read, registry, empty⟩ := tokens_ok scanned
  have quiet : c₂.shared.registry = c₁.shared.registry ∧ c₂.ops = c₁.ops := by
    cases noted
    exact ⟨Run.note_registry _ _ _ _ _, rfl⟩
  have silent : d.shared.registry = c₆.shared.registry := by
    cases said
    exact Run.note_registry _ _ _ _ _
  exact ⟨ts, c₂, rest, c₃, ops, c₅, c₆, _, read, quiet.1.trans registry, quiet.2.trans empty, compiled,
    settled, settles, defined, made, silent⟩

/-- Compiling a source text gives a unit in which everything stands where it should, and which needs no
words but those that its tokens need. -/
theorem source_ok {text : String} {s : Shared} (standard : s.registry.Standard)
    (labelled : s.registry.Labelled) (ok : source text base { shared := s } = .ok code d) :
    Layout base d.shared.registry.labels code.ops ∧ (∀ b ∈ code.pending, b ∈ bodies code.ops) ∧
      ∃ ts c rest e, Token.scan 0 text.toList = .ok ts ∧ c.shared.registry = s.registry ∧ c.ops = #[] ∧
        upTo (2 * text.length + 2) none ts c = .ok rest e ∧ words code.ops ⊆ words e.ops.toList := by
  obtain ⟨ts, c, rest, e, ops, f, g, lo, read, registry, empty, compiled, -, settles, defined, made,
    silent⟩ := source_parts standard labelled ok
  have placed := place_ok settles.settled settles.shaped defined made
  refine ⟨silent ▸ placed.1, placed.2, ts, c, rest, e, read, registry, empty, compiled, ?_⟩
  rw [place_words made, ← words_withSkip e.ops.toList]
  exact settles.words

end Compile

end Catena
