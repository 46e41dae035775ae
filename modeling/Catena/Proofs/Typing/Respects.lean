import Catena.Proofs.Run.Makes
import Catena.Proofs.Typing.World

/-!
# Computations that respect the types of values

A computation respects the types of values if it takes every machine whose values are what their
types say, in a world, to one of which that is true in a later world. Worlds are passed on from one
part of a computation to the next, and what was known of a value in the earlier one stays known.
-/

namespace Catena

variable {α β : Type} {W W' : World}

namespace Run

/-- From the machine on, the computation respects the types of values, and its answer is as told. -/
def RespectsAt (W : World) (m : Machine) (x : Run α) (P : World → α → Prop) : Prop :=
  ∃ W', W ≤ W' ∧ (x.after m).Typed W' ∧ ∀ a, x.answer? m = some a → P W' a

/-- In all worlds from `W` on the computation respects the types of values, and its answer is as
told. -/
def Respects (W : World) (x : Run α) (P : World → α → Prop) : Prop :=
  ∀ W₁ m, W ≤ W₁ → m.Typed W₁ → RespectsAt W₁ m x P

/-- Nothing is told of the answer. -/
abbrev Anything (_ : World) (_ : α) : Prop := True

/-! ## Rules -/

theorem RespectsAt.of_ok {P : World → α → Prop} {x : Run α} {m n : Machine} {a : α} (h : x m = .ok a n)
    (le : W ≤ W') (typed : n.Typed W') (told : P W' a) : RespectsAt W m x P := by
  refine ⟨W', le, after_ok h ▸ typed, fun b answer => ?_⟩
  rw [answer?, h] at answer
  exact Option.some.inj answer ▸ told

theorem RespectsAt.of_error {P : World → α → Prop} {x : Run α} {m n : Machine} {e : Halt}
    (h : x m = .error e n) (le : W ≤ W') (typed : n.Typed W') : RespectsAt W m x P := by
  refine ⟨W', le, after_error h ▸ typed, fun b answer => ?_⟩
  rw [answer?, h] at answer
  cases answer

theorem RespectsAt.bind {P : World → α → Prop} {Q : World → β → Prop} {x : Run α} {k : α → Run β}
    {m : Machine} (hx : RespectsAt W m x P)
    (hk : ∀ W' a n, W ≤ W' → n.Typed W' → x m = .ok a n → P W' a → RespectsAt W' n (k a) Q) :
    RespectsAt W m (x >>= k) Q := by
  obtain ⟨W', le, typed, told⟩ := hx
  cases h : x m with
  | error e n =>
    have run : (x >>= k) m = .error e n := by rw [bind_apply, h]
    exact .of_error run le (after_error h ▸ typed)
  | ok a n =>
    have answer : x.answer? m = some a := by rw [answer?, h]
    obtain ⟨W'', le', typed', told'⟩ := hk W' a n le (after_ok h ▸ typed) h (told a answer)
    have same : (x >>= k).after m = (k a).after n := by rw [after_bind, h]
    have same' : (x >>= k).answer? m = (k a).answer? n := by rw [answer?, answer?, bind_apply, h]
    exact ⟨W'', World.le_trans le le', same ▸ typed', fun b found => told' b (same' ▸ found)⟩

/-- The first part ends well with a change that only this machine makes. -/
theorem RespectsAt.next {Q : World → β → Prop} {x : Run α} {k : α → Run β} {m n : Machine} {a : α}
    (h : x m = .ok a n) (hk : RespectsAt W n (k a) Q) : RespectsAt W m (x >>= k) Q := by
  obtain ⟨W', le, typed, told⟩ := hk
  have same : (x >>= k).after m = (k a).after n := by rw [after_bind, h]
  have same' : (x >>= k).answer? m = (k a).answer? n := by rw [answer?, answer?, bind_apply, h]
  exact ⟨W', le, same ▸ typed, fun b found => told b (same' ▸ found)⟩

theorem Respects.at {P : World → α → Prop} {x : Run α} (h : Respects W x P) {m : Machine}
    (typed : m.Typed W) : RespectsAt W m x P :=
  h W m W.le_refl typed

theorem Respects.later {P : World → α → Prop} {x : Run α} (le : W ≤ W') (h : Respects W x P) :
    Respects W' x P :=
  fun W₁ m le' typed => h W₁ m (World.le_trans le le') typed

theorem Respects.mono {P Q : World → α → Prop} {x : Run α} (h : Respects W x P)
    (told : ∀ W' a, W ≤ W' → P W' a → Q W' a) : Respects W x Q := by
  intro W₁ m le typed
  obtain ⟨W', le', typed', answer⟩ := h W₁ m le typed
  exact ⟨W', le', typed', fun a found => told W' a (World.le_trans le le') (answer a found)⟩

theorem Respects.forget {P : World → α → Prop} {x : Run α} (h : Respects W x P) :
    Respects W x Anything :=
  h.mono fun _ _ _ _ => trivial

theorem Respects.bind {P : World → α → Prop} {Q : World → β → Prop} {x : Run α} {k : α → Run β}
    (hx : Respects W x P) (hk : ∀ W' a, W ≤ W' → P W' a → Respects W' (k a) Q) :
    Respects W (x >>= k) Q := by
  intro W₁ m le typed
  refine (hx W₁ m le typed).bind fun W' a n le' typed' _ told => ?_
  exact (hk W' a (World.le_trans le le') told).at typed'

/-- What comes after does not depend on what the first part answers. -/
theorem Respects.seq {P : World → α → Prop} {Q : World → β → Prop} {x : Run α} {k : α → Run β}
    (hx : Respects W x P) (hk : ∀ a, Respects W (k a) Q) : Respects W (x >>= k) Q :=
  hx.bind fun _ a le _ => (hk a).later le

theorem Respects.pure {P : World → α → Prop} {a : α} (h : ∀ W', W ≤ W' → P W' a) :
    Respects W (Pure.pure a) P :=
  fun W₁ _ le typed => .of_ok rfl W₁.le_refl typed (h W₁ le)

theorem Respects.done (a : α) : Respects W (Pure.pure a) Anything := .pure fun _ _ => trivial

theorem Respects.fail {P : World → α → Prop} (f : Fault) : Respects W (Run.fail f) P :=
  fun W₁ _ _ typed => .of_error rfl W₁.le_refl typed

theorem Respects.exhausted {P : World → α → Prop} : Respects W (Run.exhausted : Run α) P :=
  fun W₁ _ _ typed => .of_error rfl W₁.le_refl typed

theorem RespectsAt.attempt {P : World → α → Prop} {x : Run α} {m : Machine} (h : RespectsAt W m x P) :
    RespectsAt W m x.attempt fun W' r => ∀ a, r = .ok a → P W' a := by
  obtain ⟨W', le', typed', told⟩ := h
  cases run : x m with
  | ok a n =>
    have answer : x.answer? m = some a := by rw [answer?, run]
    refine .of_ok (attempt_ok run) le' (after_ok run ▸ typed') fun b same => ?_
    cases same
    exact told a answer
  | error e n =>
    have typed' := after_error run ▸ typed'
    cases e with
    | fault f => exact .of_ok (attempt_fault run) le' typed' nofun
    | outOfFuel => exact .of_error (attempt_outOfFuel run) le' typed'

theorem Respects.attempt {P : World → α → Prop} {x : Run α} (h : Respects W x P) :
    Respects W x.attempt fun W' r => ∀ a, r = .ok a → P W' a :=
  fun W₁ m le typed => (h W₁ m le typed).attempt

/-- A test that the rest comes after. -/
theorem Respects.refuse {P : World → α → Prop} {refused : Prop} [Decidable refused] {f : Fault}
    {k : Unit → Run α} (hk : ¬ refused → Respects W (k ()) P) :
    Respects W (if refused then Run.fail f >>= k else k ()) P := by
  split
  · exact Respects.bind (P := fun _ _ => False) (.fail f) fun _ _ _ no => no.elim
  · exact hk ‹_›

theorem Respects.ofExcept {P : World → α → Prop} {x : Except Fault α}
    (h : ∀ a, x = .ok a → ∀ W', W ≤ W' → P W' a) : Respects W (Run.ofExcept x) P := by
  cases x with
  | ok a => exact .pure (h a rfl)
  | error f => exact .fail f

theorem Respects.orFail {P : World → α → Prop} {f : Fault} {x : Option α}
    (h : ∀ a, x = some a → ∀ W', W ≤ W' → P W' a) : Respects W (Run.orFail f x) P := by
  cases x with
  | some a => exact .pure (h a rfl)
  | none => exact .fail f

theorem Respects.passOn (first : Option Fault) : Respects W (Run.passOn first) Anything := by
  cases first with
  | none => exact .done ()
  | some f => exact .fail f

theorem Respects.haltIf (test : Machine → Bool) : Respects W (Run.haltIf test) Anything := by
  intro W₁ m _ typed
  by_cases halts : test m = true
  · exact .of_error (by rw [Run.haltIf, if_pos halts]) W₁.le_refl typed
  · exact .of_ok (by rw [Run.haltIf, if_neg halts]) W₁.le_refl typed trivial

theorem Respects.ask {P : World → α → Prop} {f : Thread → α}
    (h : ∀ W' t, W ≤ W' → t.Typed W' → P W' (f t)) : Respects W (Run.ask f) P :=
  fun W₁ m le typed => .of_ok rfl W₁.le_refl typed (h W₁ m.thread le typed.thread)

theorem Respects.askStore {P : World → α → Prop} {f : Store → α}
    (h : ∀ W' s, W ≤ W' → s.Typed W' → P W' (f s)) : Respects W (Run.askStore f) P :=
  fun W₁ m le typed => .of_ok rfl W₁.le_refl typed (h W₁ m.shared.store le typed.store)

theorem Respects.askShared {P : World → α → Prop} {f : Shared → α}
    (h : ∀ W' s, W ≤ W' → s.registry.Typed W' → P W' (f s)) : Respects W (Run.askShared f) P :=
  fun W₁ m le typed => .of_ok rfl W₁.le_refl typed (h W₁ m.shared le typed.registry)

theorem Respects.alter {f : Thread → Thread} (h : ∀ W' t, W ≤ W' → t.Typed W' → (f t).Typed W') :
    Respects W (Run.alter f) Anything :=
  fun W₁ m le typed => .of_ok rfl W₁.le_refl { typed with thread := h W₁ m.thread le typed.thread } trivial

/-- What is shared may change apart from the registry and the store. -/
theorem Respects.alterShared {f : Shared → Shared} (registry : ∀ s, (f s).registry = s.registry)
    (store : ∀ s, (f s).store = s.store) : Respects W (Run.alterShared f) Anything := by
  intro W₁ m _ typed
  refine .of_ok rfl W₁.le_refl { typed with registry := ?_, store := ?_ } trivial
  · exact (registry m.shared).symm ▸ typed.registry
  · exact (store m.shared).symm ▸ typed.store

theorem Respects.alterStore {f : Store → Store} (h : ∀ W' s, W ≤ W' → s.Typed W' → (f s).Typed W') :
    Respects W (Run.alterStore f) Anything :=
  fun W₁ m le typed =>
    .of_ok rfl W₁.le_refl { typed with store := h W₁ m.shared.store le typed.store } trivial

/-- An object is put into the store, and from then on something is known of it. -/
theorem Respects.alloc {P : World → Ref → Prop} {size : Store → Nat} {add : Store → Store}
    (h : ∀ W' s, W ≤ W' → s.Typed W' → ∃ W'', W' ≤ W'' ∧ W''.knows = W'.knows ∧
      W''.records = W'.records ∧ (add s).Typed W'' ∧ P W'' (size s)) :
    Respects W (Run.alloc size add) P := by
  intro W₁ m le typed
  obtain ⟨W₂, le', knows, records, store, told⟩ := h W₁ m.shared.store le typed.store
  refine .of_ok rfl le' ⟨?_, store, typed.thread.mono le'⟩ told
  exact typed.registry.later le' knows records

theorem Respects.mapM {A : α → Prop} {P : World → β → Prop} {f : α → Run β} {xs : List α}
    (later : ∀ W₁ W₂ b, W₁ ≤ W₂ → P W₁ b → P W₂ b) (all : ∀ a ∈ xs, A a)
    (h : ∀ W', W ≤ W' → ∀ a, A a → Respects W' (f a) P) :
    Respects W (xs.mapM f) fun W' bs => ∀ b ∈ bs, P W' b := by
  induction xs generalizing W with
  | nil =>
    rw [List.mapM_nil]
    exact .pure fun _ _ => nofun
  | cons x xs ih =>
    rw [List.mapM_cons]
    refine (h W W.le_refl x (all x (by simp))).bind fun W₁ b le hb => ?_
    refine (ih (fun a member => all a (by simp [member])) fun W' le' =>
      h W' (World.le_trans le le')).bind fun W₂ bs le' hbs => ?_
    refine .pure fun W₃ le₃ c member => ?_
    rcases List.mem_cons.1 member with rfl | member
    · exact later _ _ _ (World.le_trans le' le₃) hb
    · exact later _ _ _ le₃ (hbs c member)

theorem Respects.arrayMapM {A : α → Prop} {P : World → β → Prop} {f : α → Run β} {xs : Array α}
    (later : ∀ W₁ W₂ b, W₁ ≤ W₂ → P W₁ b → P W₂ b) (all : ∀ a ∈ xs, A a)
    (h : ∀ W', W ≤ W' → ∀ a, A a → Respects W' (f a) P) :
    Respects W (xs.mapM f) fun W' bs => ∀ b ∈ bs, P W' b := by
  rw [Array.mapM_eq_mapM_toList]
  have list : Respects W (xs.toList.mapM f) fun W' bs => ∀ b ∈ bs, P W' b :=
    .mapM later (fun a member => all a (by simpa using member)) h
  exact list.bind fun _ bs _ told => .pure fun W' le b member =>
    later _ _ _ le (told b (by simpa using member))

/-! ## What is outside, messages and ids -/

/-- What is outside the engine may change. -/
theorem respects_alterHost {f : Shared → Host} :
    Respects W (alterShared fun s => { s with host := f s }) Anything :=
  .alterShared (fun _ => rfl) fun _ => rfl

theorem respects_note (level : Log.Level) (message : Unit → String) :
    Respects W (note level message) Anything :=
  .alterShared (fun s => note_registry s level _ message none)
    fun s => note_store s level _ message none

theorem respects_noteThread (level : Log.Level) (thread : Nat) (message : String) :
    Respects W (noteThread level thread message) Anything :=
  .alterShared (fun s => note_registry s level _ _ (some thread))
    fun s => note_store s level _ _ (some thread)

end Run

theorem Registry.Typed.freshId {r : Registry} (h : r.Typed W) : r.freshId.2.Typed W where
  sound := h.sound.of_types rfl (Nat.le_succ _)
  knows := h.knows
  imps := h.imps
  convs := h.convs
  records id ts found := Nat.lt_succ_of_lt (h.records id ts found)
  makers := h.makers

namespace Run

theorem respects_freshId : Respects W freshId Anything := by
  intro W₁ m _ typed
  exact .of_ok rfl W₁.le_refl { typed with registry := typed.registry.freshId } trivial

/-! ## The value stack -/

theorem respects_alterStack {f : Array Value → Array Value}
    (h : ∀ W', W ≤ W' → ∀ s, (∀ v ∈ s, v.Typed W') → ∀ v ∈ f s, v.Typed W') :
    Respects W (Run.alter (·.modifyStack f)) Anything := by
  refine .alter fun W' t le typed => ⟨typed.all.modifyStack (h W' le), ?_⟩
  have cache : (t.modifyStack f).cache = t.cache := by
    unfold Thread.modifyStack
    split <;> rfl
  exact cache ▸ typed.cache

theorem respects_push {v : Value} (h : v.Typed W) : Respects W (push v) Anything :=
  respects_alterStack fun _ le _ old => Values.pushed old (h.mono le)

theorem respects_pushEach {values : List Value} (h : ∀ v ∈ values, v.Typed W) :
    Respects W (pushEach values) Anything := by
  refine respects_alterStack fun W' le s old v member => ?_
  rcases Array.mem_append.1 member with member | member
  · exact old v member
  · exact (h v (by simpa using member)).mono le

theorem respects_pop : Respects W pop fun W' v => v.Typed W' := by
  refine (Respects.ask (P := fun W' v? => ∀ v, v? = some v → v.Typed W') fun W' t _ typed v =>
    typed.all.top?).bind fun W' v? le told => ?_
  cases v? with
  | none => exact .fail _
  | some v =>
    refine (respects_alterStack fun _ _ _ old => Values.popped old).bind fun _ _ le' _ => ?_
    exact .pure fun _ le'' => (told v rfl).mono (World.le_trans le' le'')

theorem respects_popN (n : Nat) : Respects W (popN n) fun W' vs => ∀ v ∈ vs, v.Typed W' := by
  refine (Respects.ask (P := Anything) fun _ _ _ _ => trivial).seq fun size => Respects.refuse fun _ => ?_
  refine (Respects.ask (P := fun W' vs => ∀ v ∈ vs, Value.Typed W' v) fun _ t _ typed =>
    Values.extracted _ _ typed.all.stack).bind fun W' vs _ told => ?_
  refine (respects_alterStack fun _ _ _ old => Values.extracted _ _ old).bind fun _ _ le' _ => ?_
  exact .pure fun _ le'' v member => (told v member).mono (World.le_trans le' le'')

theorem respects_peek (what : String) : Respects W (peek what) fun W' v => v.Typed W' := by
  refine (Respects.ask (P := fun W' v? => ∀ v, v? = some v → v.Typed W') fun W' t _ typed v =>
    typed.all.top?).bind fun W' v? _ told => ?_
  exact .orFail fun v same _ le => (told v same).mono le

theorem respects_popAs {expected : String} {f : Value → Option α} :
    Respects W (popAs expected f) fun W' a => ∃ v, v.Typed W' ∧ f v = some a :=
  respects_pop.bind fun _ v _ typed => .orFail fun _ same _ le => ⟨v, typed.mono le, same⟩

theorem respects_popInt : Respects W popInt Anything := respects_popAs.forget

theorem respects_popStr : Respects W popStr Anything := respects_popAs.forget

theorem respects_popSym : Respects W popSym Anything := respects_popAs.forget

theorem type_known {v : Value} {t : Ty} (typed : v.Typed W) (h : v.type? = some t) : W.knows t := by
  have fits := typed.fits
  unfold Value.type? at h
  split at h
  · rename_i found
    rw [found] at fits
    exact Option.some.inj h ▸ fits.2
  · cases h

theorem respects_popType : Respects W popType fun W' t => W'.knows t :=
  respects_popAs.mono fun _ _ _ ⟨_, typed, found⟩ => type_known typed found

/-! ## Scalars -/

theorem typed_simple {t : Ty} {p : Payload} (built : t ∈ Ty.builtins) (fits : p.Fits W t) :
    Value.Typed W ⟨t, p⟩ :=
  ⟨W.valued_builtin built, fits⟩

theorem typed_nil : Value.nil.Typed W := typed_simple (by simp [Ty.builtins]) rfl
theorem typed_bool (b : Bool) : (Value.bool b).Typed W := typed_simple (by simp [Ty.builtins]) rfl
theorem typed_int (n : Int64) : (Value.int n).Typed W := typed_simple (by simp [Ty.builtins]) rfl
theorem typed_nat (n : Nat) : (Value.nat n).Typed W := typed_int _
theorem typed_ratio (q : Ratio) : (Value.ratio q).Typed W := typed_simple (by simp [Ty.builtins]) rfl
theorem typed_char (c : Char) : (Value.char c).Typed W := typed_simple (by simp [Ty.builtins]) rfl
theorem typed_wchar (u : UInt16) : (Value.wchar u).Typed W := typed_simple (by simp [Ty.builtins]) rfl
theorem typed_str (s : String) : (Value.str s).Typed W := typed_simple (by simp [Ty.builtins]) rfl
theorem typed_wstr (us : List UInt16) : (Value.wstr us).Typed W :=
  typed_simple (by simp [Ty.builtins]) rfl
theorem typed_sym (name : String) : (Value.sym name).Typed W := typed_simple (by simp [Ty.builtins]) rfl
theorem typed_func (name : String) : (Value.func name).Typed W :=
  typed_simple (by simp [Ty.builtins]) rfl
theorem typed_label (l : Label) : (Value.label l).Typed W := typed_simple (by simp [Ty.builtins]) rfl
theorem typed_type {t : Ty} (known : W.knows t) : (Value.type t).Typed W :=
  typed_simple (by simp [Ty.builtins]) ⟨rfl, known⟩

end Run

end Catena
