import Mathlib.Data.List.DropRight
import Catena.Log.Config

/-!
# What a logger lets through and what its rings keep

The level in force for a target is that last given to the longest of its beginnings that has one,
and the logger's own where none has. The overrides are a list sorted by length in which a beginning
stands once, so that the first match is the longest.

The main result follows a configured logger through any sequence of changes of levels, records and
clearings: each of its rings keeps the last of the records let through since it was last cleared.
-/

namespace Catena.Log

/-! ## The level in force -/

/-- Of the levels given to a beginning, the last. -/
def Latest (given : List (String × Level)) (o : String × Level) : Prop :=
  ∃ before after, given = before ++ o :: after ∧ ∀ o' ∈ after, o'.1 ≠ o.1

/-- The level that settings put in force for a target, beside the level for all the others. -/
inductive InForce (own : Level) (given : List (String × Level)) (target : String) : Level → Prop
  | longest {beginning : String} {level : Level} (latest : Latest given (beginning, level))
      (fits : beginning.toList <+: target.toList)
      (longest : ∀ o ∈ given, o.1.toList <+: target.toList → o.1.length ≤ beginning.length) :
      InForce own given target level
  | own (unset : ∀ o ∈ given, ¬ o.1.toList <+: target.toList) : InForce own given target own

theorem Latest.mem {given : List (String × Level)} {o : String × Level} (h : Latest given o) :
    o ∈ given := by
  obtain ⟨before, after, rfl, -⟩ := h
  simp

theorem not_latest_nil (o : String × Level) : ¬ Latest [] o := fun h => by simpa using h.mem

theorem latest_concat {given : List (String × Level)} {o x : String × Level} :
    Latest (given ++ [x]) o ↔ o = x ∨ o.1 ≠ x.1 ∧ Latest given o := by
  constructor
  · rintro ⟨before, after, split, last⟩
    obtain rfl | ⟨after, y, rfl⟩ := after.eq_nil_or_concat'
    · exact .inl (List.append_inj' split rfl |>.2 |> List.singleton_inj.1).symm
    · rw [← List.cons_append, ← List.append_assoc] at split
      obtain ⟨rfl, same⟩ := List.append_inj' split rfl
      obtain rfl := List.singleton_inj.1 same
      exact .inr ⟨(last x (by simp)).symm, before, after, rfl, fun o' h => last o' (by simp [h])⟩
  · rintro (rfl | ⟨differs, before, after, rfl, last⟩)
    · exact ⟨given, [], rfl, by simp⟩
    · refine ⟨before, after ++ [x], by simp, fun o' h => ?_⟩
      rcases List.mem_append.1 h with h | h
      · exact last o' h
      · rw [List.mem_singleton.1 h]
        exact differs.symm

theorem exists_latest {given : List (String × Level)} {o : String × Level} (h : o ∈ given) :
    ∃ level, Latest given (o.1, level) := by
  induction given using List.reverseRecOn with
  | nil => simp at h
  | append_singleton given x ih =>
    by_cases same : o.1 = x.1
    · exact ⟨x.2, latest_concat.2 (.inl (by rw [same]))⟩
    · have earlier : o ∈ given := by
        rcases List.mem_append.1 h with h | h
        · exact h
        · exact absurd (by rw [List.mem_singleton.1 h]) same
      obtain ⟨level, latest⟩ := ih earlier
      exact ⟨level, latest_concat.2 (.inr ⟨same, latest⟩)⟩

theorem Latest.unique {given : List (String × Level)} {beginning : String} {v w : Level}
    (hv : Latest given (beginning, v)) (hw : Latest given (beginning, w)) : v = w := by
  induction given using List.reverseRecOn with
  | nil => exact absurd hv (not_latest_nil _)
  | append_singleton given x ih =>
    rcases latest_concat.1 hv with hv | ⟨differs, hv⟩ <;>
      rcases latest_concat.1 hw with hw | ⟨differs', hw⟩
    · exact congrArg Prod.snd (hv.trans hw.symm)
    · exact absurd (by rw [← hv]) differs'
    · exact absurd (by rw [← hw]) differs
    · exact ih hv hw

/-! ## Beginnings of one text -/

theorem size_le_of_begins {a b : String} (h : a.toList <+: b.toList) :
    a.utf8ByteSize ≤ b.utf8ByteSize := by
  obtain ⟨rest, split⟩ := h
  have whole : b = a ++ String.ofList rest := by
    apply String.toList_injective
    simp [split]
  rw [whole, String.utf8ByteSize_append]
  exact Nat.le_add_right _ _

theorem eq_of_begins {a b : String} (h : a.toList <+: b.toList)
    (size : b.utf8ByteSize ≤ a.utf8ByteSize) : a = b := by
  obtain ⟨rest, split⟩ := h
  have whole : b = a ++ String.ofList rest := by
    apply String.toList_injective
    simp [split]
  have nothing : (String.ofList rest).utf8ByteSize = 0 := by
    rw [whole, String.utf8ByteSize_append] at size
    omega
  rw [String.utf8ByteSize_eq_zero_iff.1 nothing] at whole
  simpa using whole.symm

/-- Of two beginnings of one text the one with fewer bytes has fewer characters. -/
theorem length_le_iff_size_le {a b t : String} (ha : a.toList <+: t.toList)
    (hb : b.toList <+: t.toList) : a.length ≤ b.length ↔ a.utf8ByteSize ≤ b.utf8ByteSize := by
  rw [← String.length_toList, ← String.length_toList]
  constructor
  · intro le
    exact size_le_of_begins (List.prefix_of_prefix_length_le ha hb le)
  · intro le
    by_contra more
    have begins := List.prefix_of_prefix_length_le hb ha (Nat.le_of_not_le more)
    rw [eq_of_begins begins le] at more
    exact more (Nat.le_refl _)

theorem begins_unique {a b t : String} (ha : a.toList <+: t.toList) (hb : b.toList <+: t.toList)
    (same : a.length = b.length) : a = b :=
  eq_of_begins
    (List.prefix_of_prefix_length_le ha hb (by simp [String.length_toList, same]))
    ((length_le_iff_size_le hb ha).1 same.ge)

/-! ## The list of overrides -/

/-- The overrides hold what settings gave, a longer beginning before a shorter. -/
structure Overrides.Of (given : List (String × Level)) (os : Overrides) : Prop where
  sorted : os.Pairwise fun a b => b.1.utf8ByteSize ≤ a.1.utf8ByteSize
  latest : ∀ o, o ∈ os ↔ Latest given o

namespace Logger

theorem mem_place {o x : String × Level} {os : Overrides} :
    x ∈ place o os ↔ x = o ∨ x ∈ os := by
  induction os with
  | nil => simp [place]
  | cons o' os ih =>
    unfold place
    split
    · simp
    · simp [ih, or_left_comm]

theorem place_sorted {o : String × Level} {os : Overrides}
    (sorted : os.Pairwise fun a b => b.1.utf8ByteSize ≤ a.1.utf8ByteSize) :
    (place o os).Pairwise fun a b => b.1.utf8ByteSize ≤ a.1.utf8ByteSize := by
  induction os with
  | nil => simp [place]
  | cons o' os ih =>
    obtain ⟨below, sorted⟩ := List.pairwise_cons.1 sorted
    unfold place
    split
    next shorter =>
      refine List.pairwise_cons.2 ⟨fun x hx => ?_, List.pairwise_cons.2 ⟨below, sorted⟩⟩
      rcases List.mem_cons.1 hx with rfl | hx
      · exact Nat.le_of_lt shorter
      · exact Nat.le_trans (below x hx) (Nat.le_of_lt shorter)
    next noShorter =>
      refine List.pairwise_cons.2 ⟨fun x hx => ?_, ih sorted⟩
      rcases mem_place.1 hx with rfl | hx
      · exact Nat.le_of_not_lt noShorter
      · exact below x hx

end Logger

namespace Overrides.Of

variable {given : List (String × Level)} {os : Overrides}

theorem none : Overrides.Of [] [] := ⟨.nil, fun o => by simp [not_latest_nil]⟩

theorem set (h : Overrides.Of given os) (target : String) (level : Level) :
    Overrides.Of (given ++ [(target, level)])
      (Logger.place (target, level) (os.filter fun o => o.1 ≠ target)) where
  sorted := Logger.place_sorted (h.sorted.filter _)
  latest o := by
    rw [Logger.mem_place, latest_concat, List.mem_filter, h.latest]
    simp [and_comm]

/-- No override that fits is longer than the first that fits. -/
theorem find?_longest (h : Overrides.Of given os) {fits : String × Level → Bool}
    {o : String × Level} (found : os.find? fits = some o) :
    ∀ x ∈ os, fits x = true → x.1.utf8ByteSize ≤ o.1.utf8ByteSize := by
  obtain ⟨-, before, after, rfl, earlier⟩ := List.find?_eq_some_iff_append.1 found
  obtain ⟨below, -⟩ := List.pairwise_cons.1 (List.pairwise_append.1 h.sorted).2.1
  intro x hx fit
  rcases List.mem_append.1 hx with hx | hx
  · have := earlier x hx
    rw [fit] at this
    cases this
  · rcases List.mem_cons.1 hx with rfl | hx
    · exact Nat.le_refl _
    · exact below x hx

/-- The first override that fits is the longest that fits. -/
theorem levelFor_iff (h : Overrides.Of given os) (own : Level) (target : String) (level : Level) :
    levelFor own os target = level ↔ InForce own given target level := by
  have fits (o : String × Level) : o.1.isPrefixOf target = true ↔ o.1.toList <+: target.toList :=
    String.startsWith_string_iff
  unfold levelFor
  cases found : os.find? fun o => o.1.isPrefixOf target with
  | none =>
    have unset : ∀ o ∈ given, ¬ o.1.toList <+: target.toList := by
      intro o ho begins
      obtain ⟨level, latest⟩ := exists_latest ho
      exact List.find?_eq_none.1 found _ ((h.latest _).2 latest) ((fits (o.1, level)).2 begins)
    constructor
    · rintro rfl
      exact .own unset
    · intro inForce
      cases inForce with
      | longest latest begins _ => exact absurd begins (unset _ latest.mem)
      | own _ => rfl
  | some o =>
    have latest := (h.latest o).1 (List.mem_of_find?_eq_some found)
    have fit : o.1.isPrefixOf target = true := by simpa using List.find?_some found
    have begins := (fits o).1 fit
    have longest : ∀ x ∈ given, x.1.toList <+: target.toList → x.1.length ≤ o.1.length := by
      intro x hx begins'
      obtain ⟨level, latest'⟩ := exists_latest hx
      rw [length_le_iff_size_le begins' begins]
      have member := (h.latest _).2 latest'
      exact h.find?_longest found (x.1, level) member ((fits (x.1, level)).2 begins')
    constructor
    · rintro rfl
      exact .longest latest begins longest
    · intro inForce
      cases inForce with
      | own unset => exact absurd begins (unset o latest.mem)
      | @longest beginning _ latest' begins' longest' =>
        have same : o.1 = beginning := begins_unique begins begins'
          (Nat.le_antisymm (longest' o latest.mem begins) (longest _ latest'.mem begins'))
        exact latest.unique (same ▸ latest')

end Overrides.Of

/-! ## Rings -/

namespace Ring

/-- What a ring of a given capacity is to be after some records. -/
def holding (capacity : Nat) (rs : List Record) : Ring where
  capacity := max capacity 1
  records := rs.rtake (min rs.length (max capacity 1))
  dropped := rs.length - min rs.length (max capacity 1)

theorem new_holding (capacity : Nat) : new capacity = holding capacity [] := by
  simp [new, holding]

theorem clear_holding (capacity : Nat) (rs : List Record) :
    (holding capacity rs).clear = holding capacity [] := by
  simp [clear, holding]

/-- While there is room nothing goes, and from then on one goes for each that comes. -/
theorem push_holding (capacity : Nat) (rs : List Record) (r : Record) :
    (holding capacity rs).push r = holding capacity (rs ++ [r]) := by
  have kept : (holding capacity rs).records.length = min rs.length (max capacity 1) := by
    simp only [holding, List.rtake, List.length_drop]
    omega
  unfold push
  rw [kept]
  split
  next room =>
    have room : min rs.length (max capacity 1) < max capacity 1 := room
    simp only [holding, List.rtake, List.length_append, List.length_singleton, Ring.mk.injEq,
      true_and]
    rw [List.drop_append_of_le_length (by omega)]
    exact ⟨by congr 2; omega, by omega⟩
  next full =>
    have full : ¬ min rs.length (max capacity 1) < max capacity 1 := full
    simp only [holding, List.rtake, List.length_append, List.length_singleton, Ring.mk.injEq,
      true_and, List.drop_drop]
    rw [List.drop_append_of_le_length (by omega)]
    exact ⟨by congr 2; omega, by omega⟩

end Ring

/-- The ring that a sink is. -/
def Sink.ring? : Sink → Option Ring
  | .ring r => some r
  | _ => none

theorem rings_writeEach (r : Record) (h : Host) (sinks : List Sink) :
    (writeEach r h sinks).1.filterMap Sink.ring? =
      (sinks.filterMap Sink.ring?).map fun ring => ring.push r := by
  induction sinks generalizing h with
  | nil => simp [writeEach]
  | cons s sinks ih =>
    cases s with
    | logger level overrides inner =>
      by_cases through : levelFor level overrides r.target ≤ r.level <;>
        simp [writeEach, Sink.write, List.filterMap_cons, Sink.ring?, through, ih]
    | _ => simp [writeEach, Sink.write, List.filterMap_cons, Sink.ring?, ih]

namespace Logger

/-- The rings among the sinks, in the order in which they were added. -/
def rings (l : Logger) : List Ring := l.sinks.filterMap Sink.ring?

theorem modifyRing_go (f : Ring → Ring) (sinks : List Sink) :
    ((modifyRing.go f sinks).1.filterMap Sink.ring? =
      let rings := sinks.filterMap Sink.ring?
      rings.modify (rings.length - 1) f) ∧
    (modifyRing.go f sinks).2 = !(sinks.filterMap Sink.ring?).isEmpty := by
  induction sinks with
  | nil => simp [modifyRing.go]
  | cons s sinks ih =>
    obtain ⟨rings, found⟩ := ih
    cases s with
    | ring r =>
      cases rest : sinks.filterMap Sink.ring? with
      | nil =>
        rw [rest] at rings found
        simp only [List.isEmpty_nil, Bool.not_true, List.modify_nil] at rings found
        simp [modifyRing.go, Sink.ring?, found, rings, rest]
      | cons r' rs =>
        rw [rest] at rings found
        simp only [List.isEmpty_cons, Bool.not_false] at rings found
        simp [modifyRing.go, Sink.ring?, found, rings, rest]
    | _ =>
      simp only [modifyRing.go, List.filterMap_cons, Sink.ring?]
      exact ⟨rings, found⟩

/-- The ring handed out is the one added last. -/
theorem ring?_eq (l : Logger) : l.ring? = l.rings.getLast? := by
  have folded (sinks : List Sink) (found : Option Ring) :
      sinks.foldl (fun found s => match s with | .ring r => some r | _ => found) found =
        (sinks.filterMap Sink.ring?).getLast?.or found := by
    induction sinks generalizing found with
    | nil => simp
    | cons s sinks ih =>
      rw [List.foldl_cons, ih]
      cases s <;> simp [List.filterMap_cons, Sink.ring?, List.getLast?_cons]
  exact (folded l.sinks none).trans Option.or_none

/-- The ring that changes is the one handed out. -/
theorem rings_modifyRing (l : Logger) (f : Ring → Ring) :
    (l.modifyRing f).rings = l.rings.modify (l.rings.length - 1) f :=
  (modifyRing_go f l.sinks).1

end Logger

/-! ## What is done to a logger -/

/-- What is done to a logger once it is configured: its level is set, or that of a target, a record
is logged, about a thread or not, with the host as it then is, or the ring handed out is cleared. -/
inductive Use
  | setLevel (level : Level)
  | setTarget (target : String) (level : Level)
  | log (host : Host) (record : Record)
  | clear

namespace Logger

/-- One use. -/
def use (l : Logger) : Use → Logger
  | .setLevel level => { l with level }
  | .setTarget target level => l.setTarget target level
  | .log host record => (l.log host record).1
  | .clear => l.modifyRing Ring.clear

/-- Uses one after the other. -/
def after (l : Logger) (us : List Use) : Logger := us.foldl use l

@[simp] theorem after_nil (l : Logger) : l.after [] = l := rfl

@[simp] theorem after_concat (l : Logger) (us : List Use) (u : Use) :
    l.after (us ++ [u]) = (l.after us).use u := by
  simp [after]

/-- The level and the overrides are those that settings ask for. -/
structure Follows (l : Logger) (own : Level) (given : List (String × Level)) : Prop where
  level : l.level = own
  overrides : Overrides.Of given l.overrides

variable {l : Logger} {own : Level} {given : List (String × Level)}

theorem Follows.setTarget (h : l.Follows own given) (target : String) (level : Level) :
    (l.setTarget target level).Follows own (given ++ [(target, level)]) :=
  ⟨h.level, h.overrides.set target level⟩

theorem Follows.setTargets (h : l.Follows own given) (targets : List (String × Level)) :
    (targets.foldl (fun l t => l.setTarget t.1 t.2) l).Follows own (given ++ targets) := by
  induction targets generalizing l given with
  | nil => simpa using h
  | cons t targets ih => simpa using ih (h.setTarget t.1 t.2)

theorem rings_setTargets (l : Logger) (targets : List (String × Level)) :
    (targets.foldl (fun l t => l.setTarget t.1 t.2) l).rings = l.rings := by
  induction targets generalizing l with
  | nil => rfl
  | cons t targets ih => exact ih (l.setTarget t.1 t.2)

theorem Follows.enabled_iff (h : l.Follows own given) {target : String} {level : Level}
    (inForce : InForce own given target level) (r : Level) :
    l.enabled target r = true ↔ level ≤ r := by
  have same : l.levelFor target = level := by
    unfold Logger.levelFor
    rw [h.level]
    exact (h.overrides.levelFor_iff own target level).2 inForce
  rw [enabled, decide_eq_true_iff, same]

end Logger

/-! ## Configured loggers -/

/-- The capacity of the ring that an output is. -/
def Output.ring? : Output → Option Nat
  | .ring capacity => some capacity
  | _ => none

/-- The level that a use sets for all targets. -/
def Use.level? : Use → Option Level
  | .setLevel level => some level
  | _ => none

/-- The target that a use sets the level of. -/
def Use.target? : Use → Option (String × Level)
  | .setTarget target level => some (target, level)
  | _ => none

namespace Config

/-- The level last set, for targets of which no beginning has one. -/
def ownLevel (c : Config) (us : List Use) : Level := (us.filterMap Use.level?).getLastD c.level

/-- All the levels given to targets, from the first to the last. -/
def given (c : Config) (us : List Use) : List (String × Level) :=
  c.targets ++ us.filterMap Use.target?

/-- The capacities asked for, one for each ring. -/
def capacities (c : Config) : List Nat := c.outputs.filterMap Output.ring?

/-- The records let through since a ring was last cleared, when that is or is not the ring that is
handed out. A record goes through when its level is at least the one then in force. -/
inductive Arrived (c : Config) (handedOut : Prop) : List Use → List Record → Prop
  | start : Arrived c handedOut [] []
  | setLevel {us : List Use} {rs : List Record} (level : Level) (past : Arrived c handedOut us rs) :
      Arrived c handedOut (us ++ [.setLevel level]) rs
  | setTarget {us : List Use} {rs : List Record} (target : String) (level : Level)
      (past : Arrived c handedOut us rs) : Arrived c handedOut (us ++ [.setTarget target level]) rs
  | letThrough {us : List Use} {rs : List Record} {level : Level} (host : Host) (r : Record)
      (inForce : InForce (c.ownLevel us) (c.given us) r.target level) (enough : level ≤ r.level)
      (past : Arrived c handedOut us rs) :
      Arrived c handedOut (us ++ [.log host r]) (rs ++ [{ r with time := host.clock }])
  | heldBack {us : List Use} {rs : List Record} {level : Level} (host : Host) (r : Record)
      (inForce : InForce (c.ownLevel us) (c.given us) r.target level) (tooLow : ¬ level ≤ r.level)
      (past : Arrived c handedOut us rs) : Arrived c handedOut (us ++ [.log host r]) rs
  | cleared {us : List Use} {rs : List Record} (this : handedOut)
      (past : Arrived c handedOut us rs) : Arrived c handedOut (us ++ [.clear]) []
  | clearedElsewhere {us : List Use} {rs : List Record} (other : ¬ handedOut)
      (past : Arrived c handedOut us rs) : Arrived c handedOut (us ++ [.clear]) rs

theorem addOutput_keeps (l : Logger) (h : Host) (o : Output) :
    (addOutput (l, h) o).1.level = l.level ∧ (addOutput (l, h) o).1.overrides = l.overrides ∧
      (addOutput (l, h) o).1.rings = l.rings ++ o.ring?.toList.map Ring.new := by
  cases o with
  | file path =>
    simp only [addOutput]
    cases h.files.openFile path .append <;>
      simp [Logger.addSink, Logger.rings, Output.ring?, Sink.ring?, List.filterMap_cons]
  | _ => simp [addOutput, Logger.addSink, Logger.rings, Output.ring?, Sink.ring?,
      List.filterMap_cons]

theorem addOutputs_keep (l : Logger) (h : Host) (outputs : List Output) :
    (outputs.foldl addOutput (l, h)).1.level = l.level ∧
      (outputs.foldl addOutput (l, h)).1.overrides = l.overrides ∧
      (outputs.foldl addOutput (l, h)).1.rings =
        l.rings ++ (outputs.filterMap Output.ring?).map Ring.new := by
  induction outputs generalizing l h with
  | nil => simp
  | cons o outputs ih =>
    obtain ⟨level, overrides, rings⟩ := ih (addOutput (l, h) o).1 (addOutput (l, h) o).2
    obtain ⟨level', overrides', rings'⟩ := addOutput_keeps l h o
    refine ⟨level.trans level', overrides.trans overrides', ?_⟩
    rw [List.foldl_cons]
    refine rings.trans ?_
    rw [rings']
    cases o <;> simp [Output.ring?, List.filterMap_cons]

theorem follows_setUp (c : Config) (h : Host) : (c.setUp h).1.Follows c.level c.targets := by
  have begun : Logger.Follows { level := c.level } c.level [] := ⟨rfl, .none⟩
  have given := begun.setTargets c.targets
  obtain ⟨level, overrides, -⟩ := addOutputs_keep
    (c.targets.foldl (fun l t => l.setTarget t.1 t.2) { level := c.level }) h c.outputs
  exact ⟨level.trans given.level, overrides ▸ given.overrides⟩

theorem rings_setUp (c : Config) (h : Host) :
    (c.setUp h).1.rings = c.capacities.map Ring.new := by
  obtain ⟨-, -, rings⟩ := addOutputs_keep
    (c.targets.foldl (fun l t => l.setTarget t.1 t.2) { level := c.level }) h c.outputs
  refine rings.trans ?_
  rw [Logger.rings_setTargets]
  rfl

@[simp] theorem ownLevel_concat (c : Config) (us : List Use) (u : Use) :
    c.ownLevel (us ++ [u]) = u.level?.getD (c.ownLevel us) := by
  cases h : u.level? <;> simp [ownLevel, h]

@[simp] theorem given_concat (c : Config) (us : List Use) (u : Use) :
    c.given (us ++ [u]) = c.given us ++ u.target?.toList := by
  cases h : u.target? <;> simp [given, h]

/-- One use changes the level and the overrides as it says, and nothing else does. -/
theorem follows_use {c : Config} {us : List Use} {l : Logger}
    (follows : l.Follows (c.ownLevel us) (c.given us)) (u : Use) :
    (l.use u).Follows (c.ownLevel (us ++ [u])) (c.given (us ++ [u])) := by
  rw [ownLevel_concat, given_concat]
  cases u with
  | setLevel level => exact ⟨rfl, by simpa [Use.target?, Logger.use] using follows.overrides⟩
  | setTarget target level => exact follows.setTarget target level
  | log host r =>
    have same : (l.log host r).1.level = l.level ∧ (l.log host r).1.overrides = l.overrides := by
      unfold Logger.log
      split <;> exact ⟨rfl, rfl⟩
    exact ⟨same.1.trans follows.level, by
      simpa [Use.target?, Logger.use, same.2] using follows.overrides⟩
  | clear =>
    exact ⟨follows.level, by
      simpa [Use.target?, Logger.use, Logger.modifyRing] using follows.overrides⟩

theorem follows_after (c : Config) (h : Host) (us : List Use) :
    ((c.setUp h).1.after us).Follows (c.ownLevel us) (c.given us) := by
  induction us using List.reverseRecOn with
  | nil => simpa [ownLevel, given] using c.follows_setUp h
  | append_singleton us u ih => simpa using follows_use ih u

/-- What arrives is settled, whatever the uses are. -/
theorem exists_arrived (c : Config) (h : Host) (handedOut : Prop) (us : List Use) :
    ∃ rs, c.Arrived handedOut us rs := by
  induction us using List.reverseRecOn with
  | nil => exact ⟨[], .start⟩
  | append_singleton us u ih =>
    obtain ⟨rs, past⟩ := ih
    cases u with
    | setLevel level => exact ⟨rs, .setLevel level past⟩
    | setTarget target level => exact ⟨rs, .setTarget target level past⟩
    | log host r =>
      have follows := c.follows_after h us
      have inForce := (follows.overrides.levelFor_iff (c.ownLevel us) r.target _).1 rfl
      by_cases enough :
          levelFor (c.ownLevel us) ((c.setUp h).1.after us).overrides r.target ≤ r.level
      · exact ⟨_, .letThrough host r inForce enough past⟩
      · exact ⟨rs, .heldBack host r inForce enough past⟩
    | clear =>
      by_cases this : handedOut
      · exact ⟨[], .cleared this past⟩
      · exact ⟨rs, .clearedElsewhere this past⟩

/-- A record that is logged goes to every ring or to none. -/
theorem rings_log (l : Logger) (host : Host) (r : Record) :
    (l.log host r).1.rings =
      if l.enabled r.target r.level then
        l.rings.map fun ring => ring.push { r with time := host.clock }
      else l.rings := by
  unfold Logger.log
  split
  · exact rings_writeEach _ host l.sinks
  · rfl

theorem length_rings_use (l : Logger) (u : Use) : (l.use u).rings.length = l.rings.length := by
  cases u with
  | setLevel level => rfl
  | setTarget target level => rfl
  | log host r =>
    simp only [Logger.use, rings_log]
    split <;> simp
  | clear => simp [Logger.use, Logger.rings_modifyRing]

theorem length_rings (c : Config) (h : Host) (us : List Use) :
    ((c.setUp h).1.after us).rings.length = c.capacities.length := by
  induction us using List.reverseRecOn with
  | nil => simp [rings_setUp]
  | append_singleton us u ih => rw [Logger.after_concat, length_rings_use, ih]

/-- A ring keeps the last of what arrived. The induction is on the uses; each puts the ring where
it should be from where it was. -/
theorem ring_of_arrived {c : Config} {k capacity : Nat} (h : Host)
    (ring : c.capacities[k]? = some capacity) {us : List Use} {rs : List Record}
    (arrived : c.Arrived (k + 1 = c.capacities.length) us rs) :
    ((c.setUp h).1.after us).rings[k]? = some (.holding capacity rs) := by
  induction arrived with
  | start => simp [rings_setUp, ring, Ring.new_holding]
  | setLevel level past ih =>
    rw [Logger.after_concat]
    exact ih
  | setTarget target level past ih =>
    rw [Logger.after_concat]
    exact ih
  | @letThrough us rs level host r inForce enough past ih =>
    have enabled := ((c.follows_after h us).enabled_iff inForce r.level).2 enough
    simp [Logger.use, rings_log, enabled, ih, Ring.push_holding]
  | @heldBack us rs level host r inForce tooLow past ih =>
    have disabled := mt ((c.follows_after h us).enabled_iff inForce r.level).1 tooLow
    simp [Logger.use, rings_log, disabled, ih]
  | @cleared us rs this past ih =>
    have last : ((c.setUp h).1.after us).rings.length - 1 = k := by
      rw [length_rings]
      omega
    simp [Logger.use, Logger.rings_modifyRing, last, ih, Ring.clear_holding]
  | @clearedElsewhere us rs other past ih =>
    have inside := (List.getElem?_eq_some_iff.1 ring).1
    have earlier : ((c.setUp h).1.after us).rings.length - 1 ≠ k := by
      rw [length_rings]
      omega
    simp [Logger.use, Logger.rings_modifyRing, earlier, ih]

/-- A configured logger lets through what its settings admit, and each of its rings holds the last
of the records let through since it was last cleared, oldest first. -/
theorem delivery (c : Config) (h : Host) (us : List Use) :
    (∀ target level, ((c.setUp h).1.after us).levelFor target = level ↔
      InForce (c.ownLevel us) (c.given us) target level) ∧
    ((c.setUp h).1.after us).rings.length = c.capacities.length ∧
    ((c.setUp h).1.after us).ring? = ((c.setUp h).1.after us).rings.getLast? ∧
    ∀ k capacity, c.capacities[k]? = some capacity →
      (∃ rs, c.Arrived (k + 1 = c.capacities.length) us rs) ∧
      ∀ rs, c.Arrived (k + 1 = c.capacities.length) us rs →
        ((c.setUp h).1.after us).rings[k]? = some
          { capacity := max capacity 1
            records := rs.rtake (min rs.length (max capacity 1))
            dropped := rs.length - min rs.length (max capacity 1) } := by
  have follows := c.follows_after h us
  refine ⟨fun target level => ?_, c.length_rings h us, Logger.ring?_eq _,
    fun k capacity ring => ⟨?_, ?_⟩⟩
  · unfold Logger.levelFor
    rw [follows.level]
    exact follows.overrides.levelFor_iff _ target level
  · exact c.exists_arrived h _ us
  · exact fun rs arrived => ring_of_arrived h ring arrived

/-- Two settings that begin the same target, one made longer than the other, and a ring of two that
is cleared once. -/
theorem delivery_prefixes :
    let c : Config :=
      { level := .warn, targets := [("tarn", .error), ("tarn::vm", .debug)]
        outputs := [.ring 0, .stdout, .ring 2] }
    let a : Record := { level := .info, target := "tarn::vm", message := "a" }
    let b : Record := { level := .warn, target := "tarn::lexer", message := "b" }
    let d : Record := { level := .warn, target := "api", message := "d", thread := some 3 }
    let us : List Use :=
      [.log default a, .clear, .log default b, .setTarget "tarn" .trace, .log default b,
        .log default a, .log default d]
    c.capacities[1]? = some 2 ∧ c.Arrived (1 + 1 = c.capacities.length) us [b, a, d] ∧
      ((c.setUp default).1.after us).rings[1]? =
        some { capacity := 2, records := [a, d], dropped := 1 } := by
  intro c a b d us
  let this : Prop := 1 + 1 = c.capacities.length
  have vm : InForce (c.ownLevel []) (c.given []) a.target .debug :=
    .longest (show Latest _ ("tarn::vm", .debug) from ⟨[("tarn", .error)], [], rfl, by decide⟩)
      (by decide) (by decide)
  have begun : c.Arrived this [] [] := .start
  have first := begun.letThrough default a vm (by decide)
  have cleared := first.cleared rfl
  have lexer : InForce (c.ownLevel [.log default a, .clear]) (c.given [.log default a, .clear])
      b.target .error :=
    .longest (show Latest _ ("tarn", .error) from ⟨[], [("tarn::vm", .debug)], rfl, by decide⟩)
      (by decide) (by decide)
  have held := cleared.heldBack default b lexer (by decide)
  have set := held.setTarget "tarn" .trace
  have lexer' : InForce (c.ownLevel (us.take 4)) (c.given (us.take 4)) b.target .trace :=
    .longest (show Latest _ ("tarn", .trace) from
      ⟨[("tarn", .error), ("tarn::vm", .debug)], [], rfl, by decide⟩) (by decide) (by decide)
  have second := set.letThrough default b lexer' (by decide)
  have vm' : InForce (c.ownLevel (us.take 5)) (c.given (us.take 5)) a.target .debug :=
    .longest (show Latest _ ("tarn::vm", .debug) from
      ⟨[("tarn", .error)], [("tarn", .trace)], rfl, by decide⟩) (by decide) (by decide)
  have third := second.letThrough default a vm' (by decide)
  have fourth := third.letThrough default d (.own (by decide)) (by decide)
  exact ⟨rfl, fourth, ((c.delivery default us).2.2.2 1 2 rfl).2 _ fourth⟩

end Config

end Catena.Log
