import Catena.Proofs.Layout.Emit

/-!
# What settling keeps

Looking up names and merging neighbours change what can be read neither in its brackets nor in its
labels and lambdas, save for the labels of the loops that get their final shape. So a unit that is
`Laid` stays so through all rounds (`settle_laid`), and none of its loops is left bare.
-/

namespace Catena

/-! ## Reading from a better place -/

/-- Where everything can be read that can be read from `r`. -/
def Reading.Loosens (r s : Reading) : Prop :=
  s = r ∨ ∃ ms last, r = ⟨ms, .any none⟩ ∧ s = ⟨ms, .any last⟩

theorem Reading.Loosens.refl (r : Reading) : r.Loosens r := .inl rfl

theorem Step.loosen {r s t : Reading} {op : Op} (h : Step r op t) (loose : r.Loosens s) :
    Step s op t := by
  rcases loose with rfl | ⟨ms, last, rfl, rfl⟩
  · exact h
  · cases h with
    | plain plain => exact .plain plain
    | jump name named => exact .jump name named
    | label l => exact .label l
    | begin own safety => exact .begin own safety
    | close => exact .close
    | closeList => exact .closeList
    | «try» done => exact .try done
    | lambda kind entry => exact .lambda kind entry
    | unlambda id => exact .unlambda id
    | param id => exact .param id
    | unparam id template => exact .unparam id template

theorem Reads.loosen {r s t : Reading} {ops : List Op} (h : Reads r ops t) (loose : r.Loosens s) :
    ∃ t', Reads s ops t' ∧ t.Loosens t' := by
  cases h with
  | nil => exact ⟨s, .nil, loose⟩
  | cons step rest => exact ⟨t, .cons (step.loosen loose) rest, .refl t⟩

/-! ## Units that are laid -/

/-- A unit after its skip labels are put: it can be read as a whole, its labels and lambdas are all
different, and a jump that has been looked up goes to a label of the unit or to one whose name is
taken. -/
structure Laid (taken : String → Prop) (lo hi : Nat) (ops : List Op) : Prop
    extends Marked lo hi ops where
  reads : ∃ last, Reads ⟨[], .any none⟩ ops ⟨[], .any last⟩
  names : ((Catena.labels ops).filter (!·.anon)).Nodup
  jumps : ∀ name l, Op.jump name (some l) ∈ ops → l ∈ Catena.labels ops ∨ (l.anon = false ∧ taken l.name)

/-- Operations that can take the place of others; ids are used from `lo` up to `hi`. -/
structure Replaces (lo hi : Nat) (xs ys : List Op) : Prop where
  ids : lo ≤ hi
  reads : ∀ {r s}, Reads r xs s → ∃ s', Reads r ys s' ∧ s.Loosens s'
  labels : ∃ new, labels ys = labels xs ++ new ∧ new.Nodup ∧ ∀ l ∈ new, l.Fresh lo hi
  bodies : bodies ys = bodies xs
  jumps : ∀ name l, Op.jump name (some l) ∈ ys → .jump name (some l) ∈ xs ∨ l ∈ Catena.labels ys

namespace Replaces

variable {lo hi : Nat} {xs ys zs : List Op}

theorem refl (lo : Nat) (xs : List Op) : Replaces lo lo xs xs where
  ids := Nat.le_refl _
  reads := fun h => ⟨_, h, .refl _⟩
  labels := ⟨[], by simp, List.nodup_nil, by simp⟩
  bodies := rfl
  jumps _ _ member := .inl member

end Replaces

/-- What takes the place of the beginning of a unit leaves the unit laid. -/
theorem Laid.replace {taken : String → Prop} {first lo hi : Nat} {xs ys zs : List Op}
    (h : Laid taken first lo (xs ++ zs)) (below : first ≤ lo) (r : Replaces lo hi xs ys) :
    Laid taken first hi (ys ++ zs) := by
  obtain ⟨new, labels, distinct, fresh⟩ := r.labels
  have perm : (Catena.labels (ys ++ zs)).Perm (Catena.labels (xs ++ zs) ++ new) := by
    rw [labels_append, labels_append, labels, List.append_assoc, List.append_assoc]
    exact List.perm_append_comm.append_left _
  have anon : new.filter (·.anon) = new := List.filter_eq_self.2 fun l member => (fresh l member).anon
  have noNames : new.filter (!·.anon) = [] := List.filter_eq_nil_iff.2 fun l member => by
    simp [(fresh l member).anon]
  constructor
  · constructor
    · intro l member
      rcases List.mem_append.1 (perm.mem_iff.1 member) with old | member
      · exact (h.labels l old).imp_right fun fresh => fresh.mono (Nat.le_refl _) r.ids
      · exact .inr ((fresh l member).mono below (Nat.le_refl _))
    · rw [(perm.filter _).nodup_iff, List.filter_append, anon]
      refine List.nodup_append.2 ⟨h.distinct, distinct, fun l old l' member same => ?_⟩
      obtain ⟨old, isAnon⟩ := List.mem_filter.1 old
      rcases h.labels l old with named | before
      · rw [named] at isAnon
        cases isAnon
      · exact before.ne (fresh l' member) (.inl (Nat.le_refl _)) same
    · intro b member
      rw [bodies_append, r.bodies, ← bodies_append] at member
      have := h.ids b member
      have := r.ids
      omega
    · rw [bodies_append, r.bodies, ← bodies_append]
      exact h.bodies
  · obtain ⟨last, reads⟩ := h.reads
    obtain ⟨s, before, after⟩ := reads.split
    obtain ⟨s', replaced, loose⟩ := r.reads before
    obtain ⟨t, rest, loose⟩ := after.loosen loose
    rcases loose with rfl | ⟨ms, last', same, rfl⟩
    · exact ⟨last, replaced.append rest⟩
    · cases same
      exact ⟨last', replaced.append rest⟩
  · rw [(perm.filter _).nodup_iff, List.filter_append, noNames, List.append_nil]
    exact h.names
  · intro name l member
    have inside : l ∈ Catena.labels (xs ++ zs) → l ∈ Catena.labels (ys ++ zs) := fun old =>
      perm.mem_iff.2 (List.mem_append_left _ old)
    rcases List.mem_append.1 member with member | member
    · rcases r.jumps name l member with old | here
      · exact (h.jumps name l (List.mem_append_left _ old)).imp_left inside
      · exact .inl (labels_append ys zs ▸ List.mem_append_left _ here)
    · exact (h.jumps name l (List.mem_append_right _ member)).imp_left inside

/-! ## Skip labels -/

theorem namedLabels_append (ops ops' : List Op) :
    namedLabels (ops ++ ops') = namedLabels ops ++ namedLabels ops' :=
  List.filterMap_append

theorem namedLabels_eq (ops : List Op) : namedLabels ops = (labels ops).filter (!·.anon) := by
  rw [labels, ← List.filterMap_eq_filter, List.filterMap_filterMap, namedLabels]
  congr
  funext op
  cases op with
  | target l => cases anon : l.anon <;> simp [anon, Op.label?, Option.guard]
  | _ => rfl

/-- Skip labels can be put if no label of the program stands twice. -/
theorem addSkips_ok {named : List String} {ops ops' : List Op} (h : addSkips named ops = .ok ops') :
    ops' = ops.flatMap Op.withSkip ∧ ((namedLabels ops').map (·.name)).Nodup ∧
      ∀ l ∈ namedLabels ops', l.name ∉ named := by
  -- what stands in front has no label of the program
  have before {op ops named ops'} (first : List Op) (noNames : namedLabels first = [])
      (skip : op.withSkip = first)
      (ih : ∀ {rest}, addSkips named ops = .ok rest → rest = ops.flatMap Op.withSkip ∧
        ((namedLabels rest).map (·.name)).Nodup ∧ ∀ l ∈ namedLabels rest, l.name ∉ named)
      (h : (do return first ++ (← addSkips named ops) : Except Fault (List Op)) = .ok ops') :
      ops' = (op :: ops).flatMap Op.withSkip ∧ ((namedLabels ops').map (·.name)).Nodup ∧
        ∀ l ∈ namedLabels ops', l.name ∉ named := by
    cases made : addSkips named ops with
    | error f => rw [made] at h; cases h
    | ok rest =>
      rw [made] at h
      cases h
      obtain ⟨rfl, nodup, fresh⟩ := ih made
      rw [namedLabels_append, noNames, List.nil_append]
      exact ⟨by simp [skip], nodup, fresh⟩
  induction named, ops using addSkips.induct generalizing ops' with
  | case1 named =>
    cases h
    exact ⟨rfl, by simp [namedLabels], by simp [namedLabels]⟩
  | case2 named body kind ops ih => exact before [_] rfl rfl ih h
  | case3 named id ops ih => exact before [_, _] rfl rfl ih h
  | case4 named l ops anon ih =>
    rw [addSkips, if_pos anon] at h
    exact before [.target l] (by simp [namedLabels, anon]) rfl ih h
  | case5 named l ops anon twice =>
    rw [addSkips, if_neg anon, if_pos twice] at h
    cases h
  | case6 named l ops anon once ih =>
    rw [addSkips, if_neg anon, if_neg once] at h
    cases made : addSkips (l.name :: named) ops with
    | error f => rw [made] at h; cases h
    | ok rest =>
      rw [made] at h
      cases h
      obtain ⟨rfl, nodup, fresh⟩ := ih made
      have front : namedLabels (.target l :: ops.flatMap Op.withSkip) =
          l :: namedLabels (ops.flatMap Op.withSkip) := by
        simp [namedLabels, anon]
      refine ⟨rfl, ?_, ?_⟩
      · rw [front, List.map_cons, List.nodup_cons]
        refine ⟨fun again => ?_, nodup⟩
        obtain ⟨l', member, same⟩ := List.mem_map.1 again
        exact fresh l' member (same ▸ List.mem_cons_self)
      · rw [front]
        intro l' member
        rcases List.mem_cons.1 member with rfl | member
        · simpa using once
        · exact fun known => fresh l' member (List.mem_cons_of_mem _ known)
  | case7 named op ops notLambda notEnd notLabel ih =>
    have skip : op.withSkip = [op] := by
      unfold Op.withSkip
      split
      · exact absurd rfl (notLambda _ _)
      · exact absurd rfl (notEnd _)
      · rfl
    have noNames : namedLabels [op] = [] := by
      cases op with
      | target l => exact absurd rfl (notLabel l)
      | _ => rfl
    refine before [op] noNames skip ih ?_
    rw [addSkips] at h
    · exact h
    · exact notLambda
    · exact notEnd
    · exact notLabel

theorem Laid.mono {taken taken' : String → Prop} {lo hi : Nat} {ops : List Op}
    (h : Laid taken lo hi ops) (more : ∀ name, taken name → taken' name) : Laid taken' lo hi ops :=
  { h with jumps := fun name l member => (h.jumps name l member).imp_right fun known =>
      ⟨known.1, more _ known.2⟩ }

/-- A stretch of operations that makes up a whole unit is laid once skip labels are put. -/
theorem Laid.of_fragment {taken : String → Prop} {lo hi : Nat} {ops : List Op}
    (h : Fragment lo hi ops) (names : ((namedLabels ops).map (·.name)).Nodup) :
    Laid taken lo hi ops where
  toMarked := h.toMarked
  reads := h.reads [] none
  names := by
    rw [← namedLabels_eq]
    exact List.Pairwise.of_map (fun l => l.name) (fun _ _ apart same => apart (congrArg _ same)) names
  jumps name l member := absurd (h.unresolved _ member) (by simp [Op.isResolved])

/-! ## Looking up names -/

/-- Looking up the name in an operation leaves one that may stand anywhere, or a jump to a label that
has been found. -/
theorem refresh?_ok {n : Names} {inside : List Nat} {op op' : Op}
    (h : n.refresh? inside op = some op') :
    op.isPlain = true ∧ (op'.isPlain = true ∨
      ∃ name l, op' = .jump name (some l) ∧ n.label? name = some l) := by
  unfold Names.refresh? at h
  split at h
  · obtain ⟨l, found, rfl⟩ := Option.map_eq_some_iff.1 h
    exact ⟨rfl, .inr ⟨_, l, rfl, found⟩⟩
  · split at h
    · cases h
      exact ⟨rfl, .inl rfl⟩
    · obtain ⟨t, -, rfl⟩ := Option.map_eq_some_iff.1 h
      exact ⟨rfl, .inl rfl⟩
  · split at h
    · cases h
      exact ⟨rfl, .inl rfl⟩
    · obtain ⟨l, -, rfl⟩ := Option.map_eq_some_iff.1 h
      exact ⟨rfl, .inl rfl⟩
  · split at h
    · cases h
    · cases h
    · obtain ⟨id, -, rfl⟩ := Option.map_eq_some_iff.1 h
      exact ⟨rfl, .inl rfl⟩
  · cases h

/-- Operations of which some have had their names looked up. -/
inductive Refreshed (n : Names) : List Op → List Op → Prop
  | nil : Refreshed n [] []
  | same {op ops ops'} : Refreshed n ops ops' → Refreshed n (op :: ops) (op :: ops')
  | plain {op op' ops ops'} : op.isPlain = true → op'.isPlain = true → Refreshed n ops ops' →
      Refreshed n (op :: ops) (op' :: ops')
  | jump {op name l ops ops'} : op.isPlain = true → n.label? name = some l → Refreshed n ops ops' →
      Refreshed n (op :: ops) (.jump name (some l) :: ops')

theorem refresh_refreshed (n : Names) (inside : List Nat) (ops : List Op) :
    Refreshed n ops (n.refresh inside ops).1 := by
  induction ops generalizing inside with
  | nil => exact .nil
  | cons op ops ih =>
    have rest := ih (Names.enclosing inside op)
    rw [Names.refresh]
    cases found : n.refresh? inside op with
    | none => exact .same rest
    | some op' =>
      obtain ⟨plain, plain' | ⟨name, l, rfl, known⟩⟩ := refresh?_ok found
      · exact .plain plain plain' rest
      · exact .jump plain known rest

namespace Refreshed

variable {n : Names} {ops ops' : List Op} {r s : Reading}

theorem reads (h : Refreshed n ops ops') (named : ∀ name l, n.label? name = some l → l.anon = false)
    (read : Reads r ops s) : Reads r ops' s := by
  induction h generalizing r with
  | nil => exact read
  | same _ ih =>
    cases read with
    | cons step rest => exact .cons step (ih rest)
  | plain plain plain' _ ih =>
    cases read with
    | cons step rest =>
      cases step with
      | plain => exact .cons (.plain plain') (ih rest)
      | _ => cases plain
  | jump plain known _ ih =>
    cases read with
    | cons step rest =>
      cases step with
      | plain => exact .cons (.jump _ (named _ _ known)) (ih rest)
      | _ => cases plain

theorem labels (h : Refreshed n ops ops') : labels ops' = labels ops := by
  unfold Catena.labels
  induction h with
  | nil => rfl
  | same _ ih => rw [List.filterMap_cons, List.filterMap_cons, ih]
  | plain plain plain' _ ih =>
    rw [List.filterMap_cons, List.filterMap_cons, Op.label?_plain plain, Op.label?_plain plain', ih]
  | jump plain _ _ ih =>
    rw [List.filterMap_cons, List.filterMap_cons, Op.label?_plain plain, ih]
    rfl

theorem bodies (h : Refreshed n ops ops') : bodies ops' = bodies ops := by
  unfold Catena.bodies
  induction h with
  | nil => rfl
  | same _ ih => rw [List.filterMap_cons, List.filterMap_cons, ih]
  | plain plain plain' _ ih =>
    rw [List.filterMap_cons, List.filterMap_cons, Op.body?_plain plain, Op.body?_plain plain', ih]
  | jump plain _ _ ih =>
    rw [List.filterMap_cons, List.filterMap_cons, Op.body?_plain plain, ih]
    rfl

theorem words (h : Refreshed n ops ops') : words ops' = words ops := by
  unfold Catena.words
  induction h with
  | nil => rfl
  | same _ ih => rw [List.filterMap_cons, List.filterMap_cons, ih]
  | plain plain plain' _ ih =>
    rw [List.filterMap_cons, List.filterMap_cons, Op.word?_plain plain, Op.word?_plain plain', ih]
  | jump plain _ _ ih =>
    rw [List.filterMap_cons, List.filterMap_cons, Op.word?_plain plain, ih]
    rfl

theorem jumps (h : Refreshed n ops ops') {name : String} {l : Label}
    (member : Op.jump name (some l) ∈ ops') : .jump name (some l) ∈ ops ∨ n.label? name = some l := by
  induction h with
  | nil => cases member
  | same _ ih =>
    rcases List.mem_cons.1 member with rfl | member
    · exact .inl List.mem_cons_self
    · exact (ih member).imp_left (List.mem_cons_of_mem _)
  | plain _ plain' _ ih =>
    rcases List.mem_cons.1 member with rfl | member
    · cases plain'
    · exact (ih member).imp_left (List.mem_cons_of_mem _)
  | jump _ known _ ih =>
    rcases List.mem_cons.1 member with same | member
    · obtain ⟨rfl, label⟩ := Op.jump.inj same
      obtain rfl := Option.some.inj label
      exact .inr known
    · exact (ih member).imp_left (List.mem_cons_of_mem _)

/-- The unit stays laid if the labels that are found are its own or have names that are taken. -/
theorem laid {taken : String → Prop} {lo hi : Nat} (h : Refreshed n ops ops')
    (laid : Laid taken lo hi ops)
    (found : ∀ name l, n.label? name = some l →
      l.anon = false ∧ (l ∈ Catena.labels ops ∨ taken l.name)) : Laid taken lo hi ops' where
  labels := by rw [h.labels]; exact laid.labels
  distinct := by rw [h.labels]; exact laid.distinct
  ids := by rw [h.bodies]; exact laid.ids
  bodies := by rw [h.bodies]; exact laid.bodies
  reads := by
    obtain ⟨last, read⟩ := laid.reads
    exact ⟨last, h.reads (fun name l known => (found name l known).1) read⟩
  names := by rw [h.labels]; exact laid.names
  jumps name l member := by
    rw [h.labels]
    rcases h.jumps member with old | known
    · exact laid.jumps name l old
    · obtain ⟨named, own | taken⟩ := found name l known
      · exact .inl own
      · exact .inr ⟨named, taken⟩

end Refreshed

/-! ## Merging neighbours -/

/-- Whether the operation only puts values on the stack, takes them off or looks at them. -/
def Op.isData : Op → Bool
  | .push _ | .pushMany _ | .drop _ | .check _ => true
  | _ => false

theorem Op.isPlain_of_isData {op : Op} (h : op.isData = true) : op.isPlain = true := by
  cases op <;> first | rfl | cases h

/-- Data operations at the end of others, newest first, become other data operations. -/
def Reworks (done done' : List Op) : Prop :=
  ∃ old new rest, done = old ++ rest ∧ done' = new ++ rest ∧ (∀ op ∈ old, op.isData = true) ∧
    ∀ op ∈ new, op.isData = true

theorem Reworks.refl (done : List Op) : Reworks done done :=
  ⟨[], [], done, rfl, rfl, by simp, by simp⟩

/-- A data operation comes after those that become others. -/
theorem Reworks.cons {done done' : List Op} (h : Reworks done done') {op : Op}
    (data : op.isData = true) : Reworks (op :: done) done' := by
  obtain ⟨old, new, rest, rfl, rfl, isOld, isNew⟩ := h
  exact ⟨op :: old, new, rest, rfl, rfl, by simpa using ⟨data, isOld⟩, isNew⟩

theorem Reworks.cons_new {done done' : List Op} (h : Reworks done done') {op : Op}
    (data : op.isData = true) : Reworks done (op :: done') := by
  obtain ⟨old, new, rest, rfl, rfl, isOld, isNew⟩ := h
  exact ⟨old, op :: new, rest, rfl, rfl, isOld, by simpa using ⟨data, isNew⟩⟩

theorem mergePush_reworks {op : Op} (data : op.isData = true) (vs : List Value) (done : List Op) :
    Reworks (op :: done) (mergePush op vs done).1 := by
  unfold mergePush
  split
  · exact (((Reworks.refl _).cons rfl).cons data).cons_new rfl
  · exact (((Reworks.refl _).cons rfl).cons data).cons_new rfl
  · exact ((Reworks.refl _).cons data).cons_new data

theorem absorbDrop_reworks (n : Nat) (done : List Op) : Reworks done (absorbDrop n done).2 := by
  induction done generalizing n with
  | nil =>
    unfold absorbDrop
    split <;> exact .refl []
  | cons op done ih =>
    unfold absorbDrop
    split
    · exact .refl _
    split
    · rename_i same
      cases same
      exact (ih _).cons rfl
    · rename_i same
      cases same
      split
      · exact (ih _).cons rfl
      · exact ((Reworks.refl _).cons rfl).cons_new rfl
    · rename_i same
      cases same
      exact ((Reworks.refl _).cons rfl).cons_new rfl
    · exact .refl _

theorem mergeDrop_reworks (n : Nat) (done : List Op) :
    Reworks (.drop n :: done) (mergeDrop n done).1 := by
  have absorbed : Reworks (.drop n :: done) _ := (absorbDrop_reworks n done).cons rfl
  unfold mergeDrop
  dsimp only
  split
  · exact absorbed
  · exact absorbed.cons_new rfl

theorem takeType?_reworks {done done' : List Op} {t : Ty} (h : takeType? done = some (t, done')) :
    Reworks (.check none :: done) (.check (some t) :: done') := by
  refine Reworks.cons_new (Reworks.cons ?_ rfl) rfl
  unfold takeType? at h
  split at h
  · obtain ⟨t', -, same⟩ := Option.map_eq_some_iff.1 h
    obtain ⟨-, rfl⟩ := Prod.mk.inj same
    exact (Reworks.refl _).cons rfl
  · simp only [Option.bind_eq_bind, Option.bind_eq_some_iff] at h
    obtain ⟨v, -, t', -, same⟩ := h
    obtain ⟨-, rfl⟩ := Prod.mk.inj (Option.some.inj same)
    split
    · exact (Reworks.refl _).cons rfl
    · exact ((Reworks.refl _).cons rfl).cons_new rfl
  · cases h

/-- Between an opened bracket and the operations for its arguments only data operations stand. -/
theorem bracketTypes?_ok {id : Nat} {args args' : List Ty} {done rest : List Op}
    (h : bracketTypes? id args done = some (args', rest)) :
    ∃ old, done = old ++ .param id :: rest ∧ ∀ op ∈ old, op.isData = true := by
  induction done generalizing args with
  | nil => cases h
  | cons op done ih =>
    unfold bracketTypes? at h
    split at h
    · rename_i same
      cases same
      split at h
      · rename_i here
        cases h
        exact ⟨[], by rw [here]; rfl, by simp⟩
      · cases h
    · rename_i same
      cases same
      simp only [Option.bind_eq_bind, Option.bind_eq_some_iff] at h
      obtain ⟨t, -, h⟩ := h
      obtain ⟨old, rfl, data⟩ := ih h
      exact ⟨_ :: old, rfl, by simpa using ⟨rfl, data⟩⟩
    · rename_i same
      cases same
      simp only [Option.bind_eq_bind, Option.bind_eq_some_iff] at h
      obtain ⟨t, -, h⟩ := h
      obtain ⟨old, rfl, data⟩ := ih h
      exact ⟨_ :: old, rfl, by simpa using ⟨rfl, data⟩⟩
    · cases h

/-! ## Rewriting -/

theorem Reads.data {r s : Reading} {ops : List Op} (h : Reads r ops s)
    (data : ∀ op ∈ ops, op.isData = true) :
    s = r ∨ ∃ ms last, r = ⟨ms, .any last⟩ ∧ s = ⟨ms, .any none⟩ := by
  induction h with
  | nil => exact .inl rfl
  | cons step _ ih =>
    obtain ⟨first, rest⟩ := List.forall_mem_cons.1 data
    cases step with
    | plain =>
      rcases ih rest with rfl | ⟨ms, last, same, rfl⟩
      · exact .inr ⟨_, _, rfl, rfl⟩
      · cases same
        exact .inr ⟨_, _, rfl, rfl⟩
    | _ => cases first

theorem reads_data {ops : List Op} (data : ∀ op ∈ ops, op.isData = true) (ms : List Mark)
    (last : Option Label) : ∃ last', Reads ⟨ms, .any last⟩ ops ⟨ms, .any last'⟩ := by
  induction ops generalizing last with
  | nil => exact ⟨last, .nil⟩
  | cons op ops ih =>
    obtain ⟨first, rest⟩ := List.forall_mem_cons.1 data
    obtain ⟨last', read⟩ := ih rest none
    exact ⟨last', .cons (.plain (Op.isPlain_of_isData first)) read⟩

theorem labels_data {ops : List Op} (data : ∀ op ∈ ops, op.isData = true) : labels ops = [] :=
  List.filterMap_eq_nil_iff.2 fun op member =>
    Op.label?_plain (Op.isPlain_of_isData (data op member))

theorem words_data {ops : List Op} (data : ∀ op ∈ ops, op.isData = true) : words ops = [] :=
  List.filterMap_eq_nil_iff.2 fun op member =>
    Op.word?_plain (Op.isPlain_of_isData (data op member))

theorem words_withSkip (ops : List Op) : words (ops.flatMap Op.withSkip) = words ops := by
  induction ops with
  | nil => rfl
  | cons op ops ih =>
    have first : words op.withSkip = words [op] := by
      unfold Op.withSkip
      split <;> rfl
    rw [List.flatMap_cons, words_append, ih, first, ← words_append]
    rfl

theorem Reworks.words {done done' : List Op} (h : Reworks done done') : words done' = words done := by
  obtain ⟨old, new, rest, rfl, rfl, isOld, isNew⟩ := h
  rw [words_append, words_append, words_data isOld, words_data isNew]

theorem bodies_data {ops : List Op} (data : ∀ op ∈ ops, op.isData = true) : bodies ops = [] :=
  List.filterMap_eq_nil_iff.2 fun op member =>
    Op.body?_plain (Op.isPlain_of_isData (data op member))

theorem Reworks.replaces {op : Op} {done done' : List Op} (h : Reworks (op :: done) done')
    (data : op.isData = true) (n : Nat) : Replaces n n (done.reverse ++ [op]) done'.reverse := by
  obtain ⟨old, new, rest, same, rfl, isOld, isNew⟩ := h
  have parts : done.reverse ++ [op] = rest.reverse ++ old.reverse := by
    rw [← List.reverse_cons, same, List.reverse_append]
  have isOld : ∀ op ∈ old.reverse, op.isData = true := by simpa using isOld
  have isNew : ∀ op ∈ new.reverse, op.isData = true := by simpa using isNew
  constructor
  · exact Nat.le_refl n
  · intro r s read
    -- the last operation read is `op`, and no label comes right before what follows
    have ends : ∃ ms, s = ⟨ms, .any none⟩ := by
      obtain ⟨u, -, last⟩ := read.split
      cases last with
      | cons step rest =>
        cases rest
        cases step with
        | plain => exact ⟨_, rfl⟩
        | _ => cases data
    obtain ⟨ms, rfl⟩ := ends
    rw [parts] at read
    obtain ⟨u, before, after⟩ := read.split
    have place : ∃ last, u = ⟨ms, .any last⟩ := by
      rcases after.data isOld with rfl | ⟨ms', last, rfl, same⟩
      · exact ⟨none, rfl⟩
      · cases same
        exact ⟨last, rfl⟩
    obtain ⟨last, rfl⟩ := place
    obtain ⟨last', again⟩ := reads_data isNew ms last
    rw [List.reverse_append]
    exact ⟨_, before.append again, .inr ⟨ms, last', rfl, rfl⟩⟩
  · refine ⟨[], ?_, List.nodup_nil, by simp⟩
    rw [parts, List.reverse_append, labels_append, labels_append, labels_data isOld, labels_data isNew,
      List.append_nil, List.append_nil]
  · rw [parts, List.reverse_append, bodies_append, bodies_append, bodies_data isOld, bodies_data isNew]
  · intro name l member
    rw [List.reverse_append] at member
    rw [parts]
    rcases List.mem_append.1 member with member | member
    · exact .inl (List.mem_append_left _ member)
    · exact absurd (isNew _ member) (by simp [Op.isData])

/-- A type with its brackets becomes the value it makes. -/
theorem replaces_bracket {id n : Nat} {template : String} {t : Ty} {old rest : List Op}
    (data : ∀ op ∈ old, op.isData = true) :
    Replaces n n ((old ++ .param id :: rest).reverse ++ [.unparam id template])
      (.push (.type t) :: rest).reverse := by
  have data : ∀ op ∈ old.reverse, op.isData = true := by simpa using data
  have parts : (old ++ .param id :: rest).reverse ++ [.unparam id template] =
      rest.reverse ++ ([.param id] ++ old.reverse ++ [.unparam id template]) := by
    simp
  rw [parts, List.reverse_cons]
  constructor
  · exact Nat.le_refl n
  · intro r s read
    obtain ⟨u, before, bracket⟩ := read.split
    obtain ⟨v, opened, closed⟩ := bracket.split
    obtain ⟨w, first, args⟩ := opened.split
    cases first with
    | cons step stop =>
    cases stop
    cases closed with
    | cons close stop =>
    cases stop
    cases step with
    | plain plain => cases plain
    | @param ms last _ =>
      -- the arguments leave the bracket as it was opened
      have same : v = ⟨.param id :: ms, .any none⟩ := by
        rcases args.data data with rfl | ⟨ms, last, same, rfl⟩
        · rfl
        · cases same
          rfl
      subst same
      cases close with
      | plain plain => cases plain
      | unparam => exact ⟨_, before.append (.single (.plain rfl)), .refl _⟩
  · refine ⟨[], ?_, List.nodup_nil, by simp⟩
    simp only [labels_append, labels_data data, List.append_nil]
    exact congrArg (labels rest.reverse ++ ·) rfl
  · simp only [bodies_append, bodies_data data, List.append_nil]
    exact congrArg (bodies rest.reverse ++ ·) rfl
  · intro name l member
    rcases List.mem_append.1 member with member | member
    · exact .inl (List.mem_append_left _ member)
    · simp at member

/-- A loop in its final shape takes the place of a bare one. -/
theorem replaces_loop {op : Op} {make : Label → Op} (done : List Op) (n : Nat)
    (loop : op = .for none ∧ make = (fun l => .for (some l)) ∨
      op = .while none ∧ make = fun l => .while (some l)) :
    Replaces n (n + 1) (done.reverse ++ [op]) ((loopOps n make).reverse ++ done).reverse := by
  rw [List.reverse_append, List.reverse_reverse]
  let start := Label.fresh "loop" n
  let finish := Label.fresh "done" n
  have shape : loopOps n make =
      [.target start, make finish, .jump start.name (some start), .target finish] := rfl
  have apart : start ≠ finish := fun same => by
    obtain ⟨same, -⟩ := Label.fresh_inj (by decide) (by decide) (congrArg Label.name same)
    exact absurd same (by decide)
  constructor
  · exact Nat.le_succ n
  · intro r s read
    obtain ⟨u, before, last⟩ := read.split
    cases last with
    | cons step stop =>
    cases stop
    have plain : ∃ ms last, u = ⟨ms, .any last⟩ ∧ s = ⟨ms, .any none⟩ := by
      rcases loop with ⟨rfl, -⟩ | ⟨rfl, -⟩ <;> cases step <;> exact ⟨_, _, rfl, rfl⟩
    obtain ⟨ms, last, rfl, rfl⟩ := plain
    have body : Step ⟨ms, .any (some start)⟩ (make finish) ⟨ms, .back start finish⟩ := by
      rcases loop with ⟨-, rfl⟩ | ⟨-, rfl⟩
      · exact .for start finish
      · exact .while start finish
    refine ⟨⟨ms, .any (some finish)⟩, before.append ?_, .inr ⟨ms, some finish, rfl, rfl⟩⟩
    exact .cons (.label start) (.cons body (.cons (.back start finish) (.single (.done finish))))
  · refine ⟨[start, finish], ?_, ?_, ?_⟩
    · rw [labels_append, labels_append, shape, List.append_assoc]
      rcases loop with ⟨rfl, rfl⟩ | ⟨rfl, rfl⟩ <;> rfl
    · simpa using apart
    · intro l member
      simp only [List.mem_cons, List.not_mem_nil, or_false] at member
      rcases member with rfl | rfl
      · exact ⟨"loop", by decide, n, Nat.le_refl _, Nat.lt_succ_self _, rfl⟩
      · exact ⟨"done", by decide, n, Nat.le_refl _, Nat.lt_succ_self _, rfl⟩
  · rw [bodies_append, bodies_append, shape]
    rcases loop with ⟨rfl, rfl⟩ | ⟨rfl, rfl⟩ <;> rfl
  · intro name l member
    rcases List.mem_append.1 member with member | member
    · exact .inl (List.mem_append_left _ member)
    · refine .inr ?_
      have only : l = start := by
        rw [shape] at member
        rcases loop with ⟨-, rfl⟩ | ⟨-, rfl⟩ <;> simp at member <;> exact member.2
      subst only
      rw [labels_append, shape]
      rcases loop with ⟨-, rfl⟩ | ⟨-, rfl⟩ <;> simp [labels, Op.label?]

/-- Whether the operation is a loop that has not got its final shape. -/
def Op.isBare : Op → Bool
  | .for none | .while none => true
  | _ => false

theorem Reworks.bare {done done' : List Op} (h : Reworks done done')
    (shaped : ∀ op ∈ done, op.isBare = false) : ∀ op ∈ done', op.isBare = false := by
  obtain ⟨old, new, rest, rfl, rfl, -, isNew⟩ := h
  intro op member
  rcases List.mem_append.1 member with member | member
  · have data := isNew op member
    cases op <;> first | rfl | cases data
  · exact shaped op (List.mem_append_right _ member)

theorem Replaces.widen {lo mid hi : Nat} {xs ys : List Op} (h : Replaces lo mid xs ys)
    (above : mid ≤ hi) : Replaces lo hi xs ys where
  ids := Nat.le_trans h.ids above
  reads := h.reads
  labels := by
    obtain ⟨new, same, distinct, fresh⟩ := h.labels
    exact ⟨new, same, distinct, fun l member => (fresh l member).mono (Nat.le_refl _) above⟩
  bodies := h.bodies
  jumps := h.jumps

namespace Compile

/-- What rewriting an operation does to the unit. -/
structure Rewritten (c d : Compiler) (done : List Op) (op : Op) (done' : List Op) : Prop where
  replaces : Replaces c.shared.registry.nextId d.shared.registry.nextId (done.reverse ++ [op])
    done'.reverse
  pending : d.pending = c.pending
  words : words done' ⊆ words (op :: done)
  bare : (∀ op ∈ done, op.isBare = false) → ∀ op ∈ done', op.isBare = false

variable {c d : Compiler} {fold : Bool} {done done' : List Op} {merged : Bool}

theorem Rewritten.rework {op : Op} (h : Reworks (op :: done) done') (data : op.isData = true) :
    Rewritten c c done op done' where
  replaces := h.replaces data _
  pending := rfl
  words := h.words ▸ List.Subset.refl _
  bare shaped := by
    have keeps : op.isBare = false := by cases op <;> first | rfl | cases data
    exact h.bare (List.forall_mem_cons.2 ⟨keeps, shaped⟩)

theorem Rewritten.loop {op : Op} {make : Label → Op} {d : Compiler}
    (loop : op = .for none ∧ make = (fun l => .for (some l)) ∨
      op = .while none ∧ make = fun l => .while (some l))
    (next : d.shared.registry.nextId = c.shared.registry.nextId + 1) (pending : d.pending = c.pending) :
    Rewritten c d done op ((loopOps c.shared.registry.nextId make).reverse ++ done) where
  replaces := by
    rw [next]
    exact replaces_loop done _ loop
  pending := pending
  words := by
    rcases loop with ⟨rfl, rfl⟩ | ⟨rfl, rfl⟩ <;> exact List.Subset.refl (Catena.words done)
  bare shaped op member := by
    rcases List.mem_append.1 member with member | member
    · rcases loop with ⟨-, rfl⟩ | ⟨-, rfl⟩ <;>
      · simp only [loopOps, List.reverse_cons, List.reverse_nil, List.nil_append, List.cons_append,
          List.mem_cons, List.not_mem_nil, or_false] at member
        rcases member with rfl | rfl | rfl | rfl <;> rfl
    · exact shaped op member

theorem Rewritten.keep {op : Op} (shaped : op.isBare = false) : Rewritten c c done op (op :: done) where
  replaces := by
    rw [List.reverse_cons]
    exact .refl _ _
  pending := rfl
  words := List.Subset.refl _
  bare h := List.forall_mem_cons.2 ⟨shaped, h⟩

theorem ofExcept_same {α : Type} {x : Except Fault α} {a : α} (h : ofExcept x c = .ok a d) :
    d = c := by
  cases x <;> cases h
  rfl

theorem rewriteOp_ok {op : Op} (ok : rewriteOp fold done op c = .ok (done', merged) d) :
    Rewritten c d done op done' := by
  have grown := (keeps_rewriteOp fold done op).grown ok
  unfold rewriteOp at ok
  split at ok
  · obtain ⟨id, c₁, taken, ok⟩ := bind_ok ok
    cases taken
    cases ok
    exact .loop (.inl ⟨rfl, rfl⟩) rfl rfl
  · obtain ⟨id, c₁, taken, ok⟩ := bind_ok ok
    cases taken
    cases ok
    exact .loop (.inr ⟨rfl, rfl⟩) rfl rfl
  · split at ok
    · obtain ⟨same, rfl⟩ := EStateM.Result.ok.inj ok
      obtain rfl := congrArg Prod.fst same
      exact .rework (mergePush_reworks rfl _ _) rfl
    · cases ok
      exact .keep rfl
  · split at ok
    · obtain ⟨same, rfl⟩ := EStateM.Result.ok.inj ok
      obtain rfl := congrArg Prod.fst same
      exact .rework (mergePush_reworks rfl _ _) rfl
    · cases ok
      exact .keep rfl
  · split at ok
    · obtain ⟨same, rfl⟩ := EStateM.Result.ok.inj ok
      obtain rfl := congrArg Prod.fst same
      exact .rework (mergeDrop_reworks _ _) rfl
    · cases ok
      exact .keep rfl
  · generalize found : (if fold = true then takeType? done else none) = taken at ok
    cases taken with
    | some taken =>
      cases ok
      split at found
      · exact .rework (takeType?_reworks found) rfl
      · cases found
    | none =>
      cases ok
      exact .keep rfl
  · rename_i id template
    generalize found : (if fold = true then bracketTypes? id [] done else none) = taken at ok
    cases taken with
    | some taken =>
      obtain ⟨args, rest⟩ := taken
      split at found
      · obtain ⟨old, rfl, data⟩ := bracketTypes?_ok found
        obtain ⟨made, c₁, asked, ok⟩ := bind_ok ok
        cases asked
        obtain ⟨⟨t, registry⟩, c₂, made, pushed⟩ := bind_ok ok
        obtain rfl := ofExcept_same made
        cases pushed
        have words : words (.push (.type t) :: rest) ⊆
            words (.unparam id template :: (old ++ .param id :: rest)) := by
          change words rest ⊆ words (old ++ .param id :: rest)
          rw [words_append]
          exact List.subset_append_right _ _
        exact ⟨(replaces_bracket data).widen grown.ids, rfl, words, fun shaped =>
          List.forall_mem_cons.2 ⟨rfl, fun op member => shaped op (by simp [member])⟩⟩
      · cases found
    | none =>
      cases ok
      exact .keep rfl
  · rename_i notFor notWhile _ _ _ _ _
    cases ok
    refine .keep ?_
    unfold Op.isBare
    split
    · exact absurd rfl notFor
    · exact absurd rfl notWhile
    · rfl

/-- The names that labels have already been given. -/
def taken (c : Compiler) (name : String) : Prop := c.shared.registry.labels.contains name = true

/-- A unit that is laid, as far as the compilation has come. -/
structure Settled (lo : Nat) (c : Compiler) (ops : List Op) : Prop where
  laid : Laid (taken c) lo c.shared.registry.nextId ops
  below : lo ≤ c.shared.registry.nextId
  labelled : c.shared.registry.Labelled

/-- One compilation state comes after another one, with the same functions and conversions. -/
structure Later (c d : Compiler) : Prop where
  grown : c.shared.registry.Grown d.shared.registry
  pending : d.pending = c.pending

theorem Later.refl (c : Compiler) : Later c c := ⟨.refl _, rfl⟩

theorem Later.trans {c d e : Compiler} (h : Later c d) (h' : Later d e) : Later c e :=
  ⟨h.grown.trans h'.grown, h'.pending.trans h.pending⟩

/-- Operations that are laid become others that are, with the same lambdas and no bare loop. -/
structure Settles (lo : Nat) (c d : Compiler) (ops ops' : List Op) : Prop where
  settled : Settled lo d ops'
  later : Later c d
  shaped : ∀ op ∈ ops', op.isBare = false
  bodies : bodies ops' = bodies ops
  words : words ops' ⊆ words ops

variable {lo : Nat} {ops ops' : List Op} {changed changed' : Bool}

theorem rewrite_ok (settled : Settled lo c (done.reverse ++ ops))
    (shaped : ∀ op ∈ done, op.isBare = false)
    (ok : rewrite fold changed done ops c = .ok (ops', changed') d) :
    Settles lo c d (done.reverse ++ ops) ops' := by
  induction ops generalizing c done changed with
  | nil =>
    cases ok
    rw [List.append_nil] at settled
    exact ⟨settled, .refl _, fun op member => shaped op (List.mem_reverse.1 member), by simp, by simp⟩
  | cons op ops ih =>
    obtain ⟨⟨done', merged⟩, e, first, rest⟩ := bind_ok ok
    have grown := (keeps_rewriteOp fold done op).grown first
    have step := rewriteOp_ok first
    have parts : done.reverse ++ op :: ops = (done.reverse ++ [op]) ++ ops := by simp
    have next : Settled lo e (done'.reverse ++ ops) := by
      refine ⟨?_, Nat.le_trans settled.below grown.ids, grown.labelled settled.labelled⟩
      have laid := settled.laid
      rw [parts] at laid
      exact (laid.replace settled.below step.replaces).mono grown.taken
    have last := ih next (step.bare shaped) rest
    refine ⟨last.settled, Later.trans ⟨grown, step.pending⟩ last.later, last.shaped, ?_, ?_⟩
    · rw [last.bodies, parts, bodies_append, bodies_append _ ops, step.replaces.bodies]
    · refine List.Subset.trans last.words ?_
      rw [parts, words_append, words_append _ ops]
      intro w member
      rcases List.mem_append.1 member with member | after
      · rw [words, List.filterMap_reverse, List.mem_reverse] at member
        have before := step.words member
        exact List.mem_append_left _ (by simpa [words, or_comm] using before)
      · exact List.mem_append_right _ after

/-- The labels that names are looked up to: those of the unit, and after them those of the registry. -/
theorem names_ok {n : Names} (labelled : c.shared.registry.Labelled) (ok : names ops c = .ok n d) :
    d = c ∧ ∀ name l, n.label? name = some l →
      l.anon = false ∧ (l ∈ labels ops ∨ taken c l.name) := by
  cases ok
  refine ⟨rfl, fun name l found => ?_⟩
  simp only [Option.or_eq_some_iff] at found
  rcases found with own | ⟨-, known⟩
  · have member := List.mem_of_find?_eq_some own
    rw [namedLabels_eq] at member
    obtain ⟨member, named⟩ := List.mem_filter.1 member
    exact ⟨by simpa using named, .inl member⟩
  · obtain ⟨rfl, anon⟩ := labelled name l known
    refine ⟨anon, .inr ?_⟩
    rw [taken, Dict.contains, known]
    rfl

theorem rounds_ok {config : CompilerConfig} {left : Nat} (settled : Settled lo c ops)
    (ok : rounds config left ops c = .ok ops' d) : Settles lo c d ops ops' := by
  induction left generalizing c ops with
  | zero => cases ok
  | succ left ih =>
    obtain ⟨n, c₁, looked, looking⟩ := bind_ok ok
    obtain ⟨rfl, found⟩ := names_ok settled.labelled looked
    obtain ⟨⟨rewritten, again⟩, c₂, merged, merging⟩ := bind_ok looking
    obtain ⟨_, c₃, noted, last⟩ := bind_ok merging
    have refreshed := refresh_refreshed n [] ops
    have fresh : Settled lo c₁ (([] : List Op).reverse ++ (n.refresh [] ops).1) :=
      ⟨refreshed.laid settled.laid found, settled.below, settled.labelled⟩
    obtain ⟨next, later, shaped, bodies, words⟩ := rewrite_ok fresh (by simp) merged
    have words : Catena.words rewritten ⊆ Catena.words ops := refreshed.words ▸ words
    have bodies : Catena.bodies rewritten = Catena.bodies ops := bodies.trans refreshed.bodies
    have same : c₃.shared.registry = c₂.shared.registry ∧ c₃.pending = c₂.pending := by
      cases noted
      exact ⟨Run.note_registry _ _ _ _ _, rfl⟩
    have quiet : Later c₂ c₃ := ⟨same.1 ▸ .refl _, same.2⟩
    have next : Settled lo c₃ rewritten := by
      refine ⟨?_, ?_, ?_⟩
      · rw [same.1]
        exact next.laid.mono quiet.grown.taken
      · rw [same.1]
        exact next.below
      · rw [same.1]
        exact next.labelled
    split at last
    · have final := ih next last
      exact ⟨final.settled, (later.trans quiet).trans final.later, final.shaped,
        final.bodies.trans bodies, List.Subset.trans final.words words⟩
    · cases last
      exact ⟨next, later.trans quiet, shaped, bodies, words⟩

/-- Settling a stretch of operations leaves a unit that is laid, in which no loop is bare. -/
theorem settle_ok (fragment : Fragment lo c.shared.registry.nextId (ops.flatMap Op.withSkip))
    (below : lo ≤ c.shared.registry.nextId) (labelled : c.shared.registry.Labelled)
    (ok : settle ops c = .ok ops' d) : Settles lo c d (ops.flatMap Op.withSkip) ops' := by
  obtain ⟨config, c₁, asked, ok⟩ := bind_ok ok
  cases asked
  obtain ⟨skipped, c₂, put, ok⟩ := bind_ok ok
  cases made : addSkips [] ops with
  | error f => rw [made] at put; cases put
  | ok rest =>
    rw [made] at put
    cases put
    obtain ⟨rfl, names, -⟩ := addSkips_ok made
    exact rounds_ok ⟨.of_fragment fragment names, below, labelled⟩ ok

end Compile

end Catena
