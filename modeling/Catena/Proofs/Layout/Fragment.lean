import Catena.Proofs.Layout.Reading

/-!
# Stretches of operations

A `Fragment` is a stretch of operations that can be read wherever it stands. Its lambdas and its
anonymous labels carry ids out of a range, and no id is used twice.
-/

namespace Catena

/-! ## Anonymous labels -/

namespace Label

/-- The words in front of the ids of anonymous labels. -/
def hints : List String := ["try", "skip", "loop", "done"]

/-- An anonymous label whose id is out of a range. -/
def Fresh (lo hi : Nat) (l : Label) : Prop :=
  ∃ hint ∈ hints, ∃ id, lo ≤ id ∧ id < hi ∧ l = .fresh hint id

theorem append_mark_inj {xs ys xs' ys' : List Char} {c : Char} (plain : c ∉ xs) (plain' : c ∉ xs')
    (h : xs ++ c :: ys = xs' ++ c :: ys') : xs = xs' ∧ ys = ys' := by
  induction xs generalizing xs' with
  | nil =>
    cases xs' with
    | nil => exact ⟨rfl, (List.cons.inj h).2⟩
    | cons x xs' => exact absurd ((List.cons.inj h).1 ▸ List.mem_cons_self) plain'
  | cons x xs ih =>
    cases xs' with
    | nil => exact absurd ((List.cons.inj h).1 ▸ List.mem_cons_self) plain
    | cons x' xs' =>
      obtain ⟨rfl, rest⟩ := List.cons.inj h
      obtain ⟨rfl, rfl⟩ := ih (fun m => plain (List.mem_cons_of_mem _ m))
        (fun m => plain' (List.mem_cons_of_mem _ m)) rest
      exact ⟨rfl, rfl⟩

/-- The name of an anonymous label tells its word and its id. -/
theorem fresh_inj {hint hint' : String} {id id' : Nat} (known : hint ∈ hints) (known' : hint' ∈ hints)
    (h : (fresh hint id).name = (fresh hint' id').name) : hint = hint' ∧ id = id' := by
  have plain : ∀ hint ∈ hints, '#' ∉ hint.toList := by decide
  have name : hint ++ "#" ++ id.repr = hint' ++ "#" ++ id'.repr := h
  have text : hint.toList ++ '#' :: Nat.toDigits 10 id =
      hint'.toList ++ '#' :: Nat.toDigits 10 id' := by
    simpa using congrArg String.toList name
  obtain ⟨same, ids⟩ := append_mark_inj (plain _ known) (plain _ known') text
  have read := congrArg (Nat.ofDigitChars 10 · 0) ids
  simp only [Nat.ofDigitChars_ten_toDigits] at read
  exact ⟨String.toList_inj.1 same, read⟩

theorem Fresh.anon {lo hi : Nat} {l : Label} (h : l.Fresh lo hi) : l.anon = true := by
  obtain ⟨hint, -, id, -, -, rfl⟩ := h
  rfl

theorem Fresh.mono {lo hi lo' hi' : Nat} {l : Label} (h : l.Fresh lo hi) (below : lo' ≤ lo)
    (above : hi ≤ hi') : l.Fresh lo' hi' := by
  obtain ⟨hint, known, id, low, high, rfl⟩ := h
  exact ⟨hint, known, id, by omega, by omega, rfl⟩

/-- Labels with ids out of ranges that do not meet differ. -/
theorem Fresh.ne {lo hi lo' hi' : Nat} {l l' : Label} (h : l.Fresh lo hi) (h' : l'.Fresh lo' hi')
    (apart : hi ≤ lo' ∨ hi' ≤ lo) : l ≠ l' := by
  obtain ⟨hint, known, id, low, high, rfl⟩ := h
  obtain ⟨hint', known', id', low', high', rfl⟩ := h'
  intro same
  have := (fresh_inj known known' (congrArg Label.name same)).2
  omega

end Label

/-! ## Stretches of operations -/

/-- The labels put somewhere in the operations. -/
def labels (ops : List Op) : List Label := ops.filterMap Op.label?

/-- The lambdas that begin in the operations. -/
def bodies (ops : List Op) : List LambdaDef := ops.filterMap Op.body?

@[simp] theorem labels_append (ops ops' : List Op) : labels (ops ++ ops') = labels ops ++ labels ops' :=
  List.filterMap_append

@[simp] theorem bodies_append (ops ops' : List Op) : bodies (ops ++ ops') = bodies ops ++ bodies ops' :=
  List.filterMap_append

/-- The words that the operations do not come without. -/
def words (ops : List Op) : List String := ops.filterMap Op.word?

@[simp] theorem words_append (ops ops' : List Op) : words (ops ++ ops') = words ops ++ words ops' :=
  List.filterMap_append

theorem Op.word?_plain {op : Op} (h : op.isPlain = true) : op.word? = none := by
  cases op <;> first | rfl | cases h

theorem Op.label?_plain {op : Op} (h : op.isPlain = true) : op.label? = none := by
  cases op <;> first | rfl | cases h

theorem Op.isResolved_plain {op : Op} (h : op.isPlain = true) : op.isResolved = false := by
  rcases op with _ | _ | _ | _ | _ | _ | _ | _ | _ | _ | _ | ⟨_, _ | _⟩ <;> first | rfl | cases h

theorem Op.body?_plain {op : Op} (h : op.isPlain = true) : op.body? = none := by
  cases op <;> first | rfl | cases h

/-- Labels are those of the program or carry ids from `lo` up to `hi`, as the lambdas do; no anonymous
label stands twice and no lambda begins twice. -/
structure Marked (lo hi : Nat) (ops : List Op) : Prop where
  labels : ∀ l ∈ labels ops, l = .named l.name ∨ l.Fresh lo hi
  distinct : ((Catena.labels ops).filter (·.anon)).Nodup
  ids : ∀ b ∈ bodies ops, lo ≤ b.id ∧ b.id < hi
  bodies : ((Catena.bodies ops).map (·.id)).Nodup

namespace Marked

variable {lo mid hi : Nat} {ops ops' : List Op}

theorem bare (lo hi : Nat) (noLabels : Catena.labels ops = []) (noBodies : Catena.bodies ops = []) :
    Marked lo hi ops := by
  constructor
  · simp [noLabels]
  · simp [noLabels]
  · simp [noBodies]
  · simp [noBodies]

theorem plain (lo hi : Nat) {op : Op} (h : op.isPlain = true) : Marked lo hi [op] :=
  bare lo hi (by simp [Catena.labels, Op.label?_plain h]) (by simp [Catena.bodies, Op.body?_plain h])

theorem perm (h : Marked lo hi ops) (same : ops.Perm ops') : Marked lo hi ops' := by
  have labels : (Catena.labels ops).Perm (Catena.labels ops') := same.filterMap _
  have bodies : (Catena.bodies ops).Perm (Catena.bodies ops') := same.filterMap _
  constructor
  · exact fun l member => h.labels l (labels.mem_iff.2 member)
  · exact (labels.filter _).nodup_iff.1 h.distinct
  · exact fun b member => h.ids b (bodies.mem_iff.2 member)
  · exact (bodies.map _).nodup_iff.1 h.bodies

theorem append (h : Marked lo mid ops) (h' : Marked mid hi ops') (low : lo ≤ mid) (high : mid ≤ hi) :
    Marked lo hi (ops ++ ops') := by
  constructor
  · intro l member
    rw [labels_append] at member
    rcases List.mem_append.1 member with first | second
    · exact (h.labels l first).imp_right fun fresh => fresh.mono (Nat.le_refl _) high
    · exact (h'.labels l second).imp_right fun fresh => fresh.mono low (Nat.le_refl _)
  · rw [labels_append, List.filter_append]
    refine List.nodup_append.2 ⟨h.distinct, h'.distinct, fun l first l' second => ?_⟩
    obtain ⟨first, anon⟩ := List.mem_filter.1 first
    obtain ⟨second, anon'⟩ := List.mem_filter.1 second
    rcases h.labels l first with named | fresh
    · rw [named] at anon; cases anon
    rcases h'.labels l' second with named | fresh'
    · rw [named] at anon'; cases anon'
    · exact fresh.ne fresh' (.inl (Nat.le_refl _))
  · intro b member
    rw [bodies_append] at member
    rcases List.mem_append.1 member with first | second
    · have := h.ids b first
      omega
    · have := h'.ids b second
      omega
  · rw [bodies_append, List.map_append]
    refine List.nodup_append.2 ⟨h.bodies, h'.bodies, fun id first id' second => ?_⟩
    obtain ⟨b, member, rfl⟩ := List.mem_map.1 first
    obtain ⟨b', member', rfl⟩ := List.mem_map.1 second
    have := h.ids b member
    have := h'.ids b' member'
    omega

/-- One anonymous label, and at most one lambda with the same id. -/
theorem fresh {hint : String} {id : Nat} (known : hint ∈ Label.hints)
    (label : Catena.labels ops = [.fresh hint id])
    (body : Catena.bodies ops = [] ∨ ∃ b, b.id = id ∧ Catena.bodies ops = [b]) :
    Marked id (id + 1) ops := by
  constructor
  · intro l member
    obtain rfl := List.mem_singleton.1 (label ▸ member)
    exact .inr ⟨hint, known, id, Nat.le_refl _, Nat.lt_succ_self _, rfl⟩
  · simp [label, Label.fresh]
  · intro b member
    rcases body with none | ⟨b', same, one⟩
    · rw [none] at member
      cases member
    · obtain rfl := List.mem_singleton.1 (one ▸ member)
      omega
  · rcases body with none | ⟨b', -, one⟩
    · rw [none]
      exact List.nodup_nil
    · simp [one]

/-- Operations around others, with ids taken before. -/
theorem around {first last : List Op} (outer : Marked lo mid (first ++ last)) (h : Marked mid hi ops)
    (low : lo ≤ mid) (high : mid ≤ hi) : Marked lo hi (first ++ ops ++ last) := by
  refine (outer.append h low high).perm ?_
  rw [List.append_assoc, List.append_assoc]
  exact List.perm_append_comm.append_left first

end Marked

/-- A stretch of operations that uses ids from `lo` up to `hi` and can be read wherever it stands. -/
structure Fragment (lo hi : Nat) (ops : List Op) : Prop extends Marked lo hi ops where
  reads : ∀ ms last, ∃ last', Reads ⟨ms, .any last⟩ ops ⟨ms, .any last'⟩
  unresolved : ∀ op ∈ ops, op.isResolved = false

namespace Fragment

variable {lo mid hi : Nat} {ops ops' : List Op}

theorem nil (lo hi : Nat) : Fragment lo hi [] :=
  ⟨.bare lo hi rfl rfl, fun _ last => ⟨last, .nil⟩, by simp⟩

theorem plain (lo hi : Nat) {op : Op} (h : op.isPlain = true) : Fragment lo hi [op] :=
  ⟨.plain lo hi h, fun _ _ => ⟨none, .single (.plain h)⟩, by simpa using Op.isResolved_plain h⟩

theorem named (lo hi : Nat) (name : String) : Fragment lo hi [.target (.named name)] where
  labels l member := by
    obtain rfl := List.mem_singleton.1 member
    exact .inl rfl
  distinct := List.nodup_nil
  ids b member := by cases member
  bodies := List.nodup_nil
  reads _ _ := ⟨_, .single (.label _)⟩
  unresolved := by simp [Op.isResolved]

theorem append (h : Fragment lo mid ops) (h' : Fragment mid hi ops') (low : lo ≤ mid)
    (high : mid ≤ hi) : Fragment lo hi (ops ++ ops') where
  toMarked := h.toMarked.append h'.toMarked low high
  reads ms last := by
    obtain ⟨middle, first⟩ := h.reads ms last
    obtain ⟨last', second⟩ := h'.reads ms middle
    exact ⟨last', first.append second⟩
  unresolved := List.forall_mem_append.2 ⟨h.unresolved, h'.unresolved⟩

theorem block {last : Op} (h : Fragment lo hi ops) (bound : lo ≤ hi) (ownStack : Bool)
    (safety : Option Safety) (close : last = .close ∨ last = .closeList) :
    Fragment lo hi ([.begin ownStack safety] ++ ops ++ [last]) where
  toMarked := by
    refine Marked.around (.bare lo lo ?_ ?_) h.toMarked (Nat.le_refl _) bound
    · rcases close with rfl | rfl <;> rfl
    · rcases close with rfl | rfl <;> rfl
  reads ms _ := by
    obtain ⟨middle, inside⟩ := h.reads (.block :: ms) none
    refine ⟨none, .append (.append (.single (.begin _ _)) inside) (.single ?_)⟩
    rcases close with rfl | rfl
    · exact .close
    · exact .closeList
  unresolved := by
    rcases close with rfl | rfl <;>
      simpa [or_imp, forall_and, Op.isResolved] using h.unresolved

theorem attempt (id : Nat) (h : Fragment (id + 1) hi ops) (bound : id + 1 ≤ hi) :
    Fragment id hi ([.try (.fresh "try" id)] ++ ops ++ [.target (.fresh "try" id), .closeTry]) where
  toMarked := by
    refine Marked.around ?_ h.toMarked (Nat.le_succ _) bound
    exact .fresh (by decide) rfl (.inl rfl)
  reads ms _ := by
    obtain ⟨middle, inside⟩ := h.reads (.try (.fresh "try" id) :: ms) none
    exact ⟨none, .append (.append (.single (.try _)) inside)
      (.cons (.label _) (.single (.closeTry _)))⟩
  unresolved := by simpa [or_imp, forall_and, Op.isResolved] using h.unresolved

theorem lambda (body : LambdaDef) (h : Fragment (body.id + 1) hi ops) (bound : body.id + 1 ≤ hi)
    (kind : LambdaKind) (entry : body.entry = none) :
    Fragment body.id hi ([.lambda body kind (some (.fresh "skip" body.id))] ++ ops ++
      [.unlambda body.id, .target (.fresh "skip" body.id)]) where
  toMarked := by
    refine Marked.around ?_ h.toMarked (Nat.le_succ _) bound
    exact .fresh (by decide) rfl (.inr ⟨body, rfl, rfl⟩)
  reads ms _ := by
    obtain ⟨middle, inside⟩ := h.reads (.lambda body.id :: ms) none
    exact ⟨_, .append (.append (.single (.lambda kind entry)) inside)
      (.cons (.unlambda _) (.single (.skip _)))⟩
  unresolved := by simpa [or_imp, forall_and, Op.isResolved] using h.unresolved

theorem param (id : Nat) (h : Fragment lo hi ops) (bound : lo ≤ hi) (template : String) :
    Fragment lo hi ([.param id] ++ ops ++ [.unparam id template]) where
  toMarked := Marked.around (.bare lo lo rfl rfl) h.toMarked (Nat.le_refl _) bound
  reads ms _ := by
    obtain ⟨middle, inside⟩ := h.reads (.param id :: ms) none
    exact ⟨none, .append (.append (.single (.param _)) inside) (.single (.unparam _ _))⟩
  unresolved := by simpa [or_imp, forall_and, Op.isResolved] using h.unresolved

theorem widen {lo' : Nat} (h : Fragment lo hi ops) (below : lo' ≤ lo) : Fragment lo' hi ops where
  labels l member := (h.labels l member).imp_right fun fresh => fresh.mono below (Nat.le_refl _)
  distinct := h.distinct
  ids b member := by
    have := h.ids b member
    omega
  bodies := h.bodies
  reads := h.reads
  unresolved := h.unresolved

end Fragment

end Catena
