import Catena.Library.Native
import Catena.Proofs.Typing.Pulling

/-!
# Library functions respect the types of values

Most do so whatever stands on the stack. Those that put something into a list, a table or a structure
rely on their signatures: the arguments have been checked against them before.
-/

namespace Catena

variable {α : Type} {W : World} {r : Reentry}

namespace Run

theorem Respects.next {x : Run Unit} (hx : Respects W x Anything) :
    Respects W (do x; return Reply.next) Anything :=
  hx.seq fun _ => .done _

theorem Respects.thenPush {P : World → α → Prop} {x : Run α} (hx : Respects W x P) {f : α → Value}
    (h : ∀ W' a, P W' a → (f a).Typed W') :
    Respects W (do push (f (← x)); return Reply.next) Anything :=
  hx.bind fun W' a _ told => (respects_push (h W' a told)).next

/-- What is asked of the thread is of no account. -/
theorem respects_ask {f : Thread → α} : Respects W (ask f) Anything := .ask fun _ _ _ _ => trivial

/-- What is asked of the store is of no account. -/
theorem respects_askStore {f : Store → α} : Respects W (askStore f) Anything :=
  .askStore fun _ _ _ _ => trivial

/-- What is asked of what is shared is of no account. -/
theorem respects_askShared {f : Shared → α} : Respects W (askShared f) Anything :=
  .askShared fun _ _ _ _ => trivial

theorem respects_orFail {f : Fault} {x : Option α} : Respects W (orFail f x) Anything :=
  .orFail fun _ _ _ _ => trivial

theorem respects_ofExcept {x : Except Fault α} : Respects W (ofExcept x) Anything :=
  .ofExcept fun _ _ _ _ => trivial

/-! ## Stack, numbers, types and errors -/

theorem respects_popRatio : Respects W popRatio Anything := respects_popAs.forget

theorem respects_popError : Respects W popError Anything := by
  refine respects_pop.bind fun _ v _ _ => ?_
  split
  · exact respects_askStore
  · exact .fail _

theorem respects_errorList (faults : List Fault) :
    Respects W (errorList faults) fun W' v => v.Typed W' := by
  have each : Respects W (faults.toArray.mapM newError) fun W' vs =>
      ∀ v ∈ vs, v.Typed W' ∧ v.ty = .error :=
    .arrayMapM (A := fun _ => True) (fun _ _ _ le told => ⟨told.1.mono le, told.2⟩)
      (fun _ _ => trivial) fun _ _ f _ => respects_newError f
  refine each.bind fun W' vs _ told => ?_
  exact respects_listOf (W'.valued_builtin (by simp [Ty.builtins])) fun v member =>
    ⟨(told v member).1, by rw [Value.isa, (told v member).2]; exact Ty.isa_refl _⟩

theorem respects_dup : Respects W dup Anything :=
  respects_pop.bind fun _ v _ typed => (respects_pushEach (by simpa using typed)).next

theorem respects_swap : Respects W swap Anything :=
  (respects_popN 2).bind fun _ _ _ typed =>
    (respects_pushEach fun v member => typed v (by simpa using member)).next

theorem respects_rot : Respects W rot Anything := by
  refine (respects_popN 3).bind fun _ values _ typed => (respects_pushEach fun v member => ?_).next
  rcases List.mem_append.1 member with member | member
  · exact typed v (by simpa using List.mem_of_mem_drop member)
  · exact typed v (by simpa using List.mem_of_mem_take member)

theorem respects_emptied : Respects W (alter (·.modifyStack fun _ => #[])) Anything :=
  respects_alterStack fun _ _ _ _ => by simp

theorem respects_reset : Respects W reset Anything :=
  respects_emptied.next

/-- The values on the stack are what their types say. -/
theorem respects_askStack : Respects W (ask Thread.stack) fun W' vs => ∀ v ∈ vs, Value.Typed W' v :=
  .ask fun _ _ _ typed => typed.all.stack

theorem respects_stash : Respects W stash Anything := by
  refine respects_askStack.bind fun W₁ values _ typed => ?_
  refine respects_emptied.bind fun W₂ _ le _ => ?_
  exact (respects_listFrom fun v member => (typed v member).mono le).thenPush (f := id) fun _ _ h => h

theorem respects_depth : Respects W depth Anything :=
  respects_ask.thenPush fun _ _ _ => typed_nat _

theorem respects_intOp (op : IntOp) : Respects W (intOp op) Anything :=
  respects_popInt.seq fun _ => respects_popInt.seq fun _ => respects_orFail.thenPush fun _ _ _ =>
    typed_int _

theorem respects_ratioOp (op : RatioOp) : Respects W (ratioOp op) Anything :=
  respects_popRatio.seq fun _ => respects_popRatio.seq fun _ => respects_orFail.thenPush fun _ _ _ =>
    typed_ratio _

theorem respects_makeRatio : Respects W makeRatio Anything :=
  respects_popInt.seq fun _ => respects_popInt.seq fun _ => respects_orFail.thenPush fun _ _ _ =>
    typed_ratio _

theorem respects_equal : Respects W equal Anything :=
  respects_pop.forget.seq fun _ => respects_pop.forget.seq fun _ =>
    respects_askStore.thenPush fun _ _ _ => typed_bool _

theorem respects_same : Respects W same Anything :=
  respects_pop.forget.seq fun _ => respects_pop.forget.seq fun _ => (respects_push (typed_bool _)).next

theorem respects_order (test : OrderTest) : Respects W (order test) Anything :=
  respects_pop.forget.seq fun _ => respects_pop.forget.seq fun _ => respects_askStore.seq fun _ =>
    respects_orFail.seq fun _ => (respects_push (typed_bool _)).next

theorem respects_not : Respects W not Anything :=
  respects_pop.forget.seq fun _ => (respects_push (typed_bool _)).next

theorem respects_typeOf : Respects W typeOf Anything :=
  respects_pop.bind fun _ _ _ typed => (respects_push (typed_type typed.valued.1)).next

theorem respects_isa : Respects W isa Anything :=
  respects_popType.forget.seq fun _ => respects_popType.forget.seq fun _ =>
    (respects_push (typed_bool _)).next

theorem respects_is : Respects W is Anything :=
  respects_popType.forget.seq fun _ => respects_pop.forget.seq fun _ =>
    (respects_push (typed_bool _)).next

theorem respects_raise : Respects W raise Anything :=
  respects_popStr.seq fun _ => .fail _

theorem respects_reraise : Respects W reraise Anything :=
  respects_popError.seq fun _ => .fail _

theorem respects_errors : Respects W errors Anything :=
  respects_ask.seq fun _ => (respects_errorList _).thenPush (f := id) fun _ _ h => h

theorem respects_errorKind : Respects W errorKind Anything :=
  respects_popError.seq fun _ => (respects_push (typed_sym _)).next

theorem respects_errorMessage : Respects W errorMessage Anything :=
  respects_popError.seq fun _ => (respects_push (typed_str _)).next

theorem respects_clearErrors : Respects W clearErrors Anything := by
  refine respects_popSym.seq fun _ => respects_orFail.seq fun kind => respects_ask.seq fun faults => ?_
  refine Respects.seq (Respects.alter fun _ _ _ typed => ?_) fun _ => (respects_push (typed_nat _)).next
  exact { typed with all := { typed.all with } }

/-! ## Reading collections -/

theorem respects_listRef (v : Value) :
    Respects W (listRef v) fun _ l => v.payload = .list l := by
  unfold listRef
  split
  · rename_i same
    exact .pure fun _ _ => same
  · exact .fail _

theorem respects_tableRef (v : Value) :
    Respects W (tableRef v) fun _ t => v.payload = .table t := by
  unfold tableRef
  split
  · rename_i same
    exact .pure fun _ _ => same
  · exact .fail _

theorem respects_place (index : Int64) (length : Nat) : Respects W (place index length) Anything := by
  unfold place
  split
  · exact .done _
  · exact .fail _

theorem typed_listAt {s : Store} (h : s.Typed W) (l : Ref) : ∀ v ∈ s.listAt l, v.Typed W := by
  intro v member
  rw [Store.listAt] at member
  cases found : s.lists[l]? with
  | none => simp [found] at member
  | some items =>
    rw [found] at member
    exact h.all.lists items (Array.mem_of_getElem? found) v member

theorem typed_structAt {s : Store} (h : s.Typed W) (l : Ref) : ∀ v ∈ s.structAt l, v.Typed W := by
  intro v member
  rw [Store.structAt] at member
  cases found : s.structs[l]? with
  | none => simp [found] at member
  | some items =>
    rw [found] at member
    exact h.all.structs items (Array.mem_of_getElem? found) v member

/-- What may be missing is `nil` in its place. -/
theorem typed_getD {v? : Option Value} (h : ∀ v, v? = some v → v.Typed W) : (v?.getD .nil).Typed W := by
  cases v? with
  | none => exact typed_nil
  | some v => exact h v rfl

theorem respects_len : Respects W len Anything := by
  refine respects_pop.forget.seq fun v => ?_
  have counts : ∀ {x : Run Nat}, Respects W x Anything →
      Respects W (do push (.nat (← x)); return Reply.next) Anything :=
    fun hx => hx.thenPush fun _ _ _ => typed_nat _
  dsimp only
  split <;> first | exact counts respects_askStore | exact counts (.done _) | exact counts (.fail _)

theorem respects_popItem : Respects W popItem Anything := by
  refine (respects_peek "pop").bind fun W₁ v _ _ => (respects_listRef v).bind fun W₂ l _ _ => ?_
  refine (Respects.askStore (P := fun W' v? => ∀ v, v? = some v → v.Typed W') fun W' s _ store v last =>
    typed_listAt store l v (Array.mem_of_back? last)).bind fun W₃ item _ typed => ?_
  have pops : Respects W₃ (alterList l Array.pop) Anything := by
    refine .alterStore fun W' s _ store => { store with all := ?_, lists := ?_ }
    · exact { store.all with
        lists := Values.modify store.all.lists fun items member => Values.popped member }
    · exact store.lists.modify fun item items _ _ below => Values.popped below
  exact pops.bind fun W₄ _ le _ =>
    (respects_push (typed_getD fun v same => (typed v same).mono le)).next

theorem respects_listGet : Respects W listGet Anything := by
  refine respects_popInt.seq fun index => respects_pop.forget.seq fun v => ?_
  refine (respects_listRef v).forget.seq fun l => ?_
  refine (Respects.askStore (P := fun W' vs => ∀ v ∈ vs, Value.Typed W' v) fun W' s _ store =>
    typed_listAt store l).bind fun W₁ items _ typed => ?_
  refine (respects_place index items.size).bind fun W₂ i le _ => ?_
  refine (respects_push (typed_getD fun v found => ?_)).next
  exact (typed v (Array.mem_of_getElem? found)).mono le

theorem mem_of_findKey {rel : Value → Value → Bool} {k v : Value} {t : Table}
    (h : Store.findKey rel k t = some v) : ∃ k', (k', v) ∈ t := by
  induction t with
  | nil => cases h
  | cons e rest ih =>
    rw [Store.findKey] at h
    split at h
    · cases h
      exact ⟨e.1, by simp⟩
    · obtain ⟨k', member⟩ := ih h
      exact ⟨k', by simp [member]⟩

theorem respects_tableGet : Respects W tableGet Anything := by
  refine respects_pop.forget.seq fun key => respects_pop.forget.seq fun v => ?_
  refine (respects_tableRef v).forget.seq fun t => ?_
  refine (Respects.askStore (P := fun W' v? => ∀ v, v? = some v → Value.Typed W' v)
    fun W' s _ store v found => ?_).bind fun W₁ v? _ typed => (respects_push (typed_getD typed)).next
  obtain ⟨k, member⟩ := mem_of_findKey found
  rw [Store.tableAt] at member
  cases table : s.tables[t]? with
  | none => simp [table] at member
  | some entries =>
    rw [table] at member
    exact (store.all.tables entries (Array.mem_of_getElem? table) _ member).2

theorem respects_makePair : Respects W makePair Anything :=
  respects_pop.bind fun _ _ _ hr => respects_pop.bind fun _ _ le hl =>
    (respects_pairOf hl (hr.mono le)).thenPush (f := id) fun _ _ told => told.1

theorem typed_pairAt {s : Store} (h : s.Typed W) (p : Ref) :
    (s.pairs[p]?.getD (.nil, .nil)).1.Typed W ∧ (s.pairs[p]?.getD (.nil, .nil)).2.Typed W := by
  cases found : s.pairs[p]? with
  | none => exact ⟨typed_nil, typed_nil⟩
  | some sides => exact h.all.pairs sides (Array.mem_of_getElem? found)

theorem respects_popPair :
    Respects W popPair fun W' sides => sides.1.Typed W' ∧ sides.2.Typed W' := by
  refine respects_pop.bind fun _ v _ _ => ?_
  split
  · exact .askStore fun W' s _ store => typed_pairAt store _
  · exact .fail _

theorem respects_left : Respects W left Anything :=
  respects_popPair.thenPush (f := (·.1)) fun _ _ told => told.1

theorem respects_right : Respects W right Anything :=
  respects_popPair.thenPush (f := (·.2)) fun _ _ told => told.2

/-! ## Making collections -/

theorem valued_elem {t : Ty} (h : W.Valued t) : W.Valued t.elem := W.isUniverse.elem_mem h

theorem respects_makeList (hr : r.Typed) : Respects W (makeList r) Anything := by
  refine respects_pop.bind fun W₁ seq _ typed => (respects_drain hr typed).bind fun W₂ items le told => ?_
  exact (respects_listOf (valued_elem (typed.valued.mono le)) told).thenPush (f := id) fun _ _ h => h

/-- A key and a value that are what their types say, below the types of a table. -/
def Entry (W : World) (key value : Ty) (k v : Value) : Prop :=
  (k.Typed W ∧ k.isa key = true) ∧ v.Typed W ∧ v.isa value = true

theorem tableInsert_all {A B : Value → Prop} {s : Store} {k v : Value} {t : Table}
    (h : ∀ e ∈ t, A e.1 ∧ B e.2) (hk : A k) (hv : B v) :
    ∀ e ∈ (s.tableInsert k v t).2, A e.1 ∧ B e.2 := by
  induction t with
  | nil => exact fun e member => List.mem_singleton.1 member ▸ ⟨hk, hv⟩
  | cons first rest ih =>
    have old := h first List.mem_cons_self
    have others : ∀ e ∈ rest, A e.1 ∧ B e.2 := fun e member => h e (List.mem_cons_of_mem _ member)
    intro e member
    rw [Store.tableInsert] at member
    split at member <;> rcases List.mem_cons.1 member with rfl | member
    · exact ⟨old.1, hv⟩
    · exact others e member
    · exact old
    · exact ih others e member

/-- The sides of a pair lie below the types that its own type gives for keys and values. -/
theorem isa_entryTypes {s : Store} (store : s.Typed W) {item : Ty} (valued : W.Valued item)
    {v : Value} (typed : v.Typed W) (below : v.isa item = true) {p : Ref} (same : v.payload = .pair p)
    {left right : Value} (found : s.pairs[p]? = some (left, right)) :
    left.isa (entryTypes item).1 = true ∧ right.isa (entryTypes item).2 = true := by
  unfold entryTypes
  split
  · rename_i raw key value made args
    split
    · rename_i is
      have formed := W.isUniverse.formed item valued
      obtain rfl := Ty.template_ext (Ty.template_mem formed made) (by simp [Ty.templates]) is
      obtain ⟨x, y, of, hx, hy⟩ := W.isUniverse.isa_pair typed.valued valued ⟨made, args⟩ below
      have fits := typed.fits
      rw [same] at fits
      obtain ⟨a, b, known, of'⟩ := fits
      have sides := store.pairs.each p _ _ known found
      obtain ⟨rfl, rfl⟩ := Prod.mk.inj sides
      obtain ⟨rfl, rfl⟩ : x = left.ty ∧ y = right.ty := by simpa using of.2.symm.trans of'.2
      exact ⟨hx, hy⟩
    · exact ⟨Ty.isa_any _, Ty.isa_any _⟩
  · exact ⟨Ty.isa_any _, Ty.isa_any _⟩

theorem respects_fillTable {item : Ty} (valued : W.Valued item) {items : List Value} {table : Table}
    (typed : ∀ v ∈ items, v.Typed W ∧ v.isa item = true)
    (old : ∀ e ∈ table, Entry W (entryTypes item).1 (entryTypes item).2 e.1 e.2) :
    Respects W (fillTable table items) fun W' t =>
      ∀ e ∈ t, Entry W' (entryTypes item).1 (entryTypes item).2 e.1 e.2 := by
  have later : ∀ {W₁ W₂ k v}, W₁ ≤ W₂ → Entry W₁ (entryTypes item).1 (entryTypes item).2 k v →
      Entry W₂ (entryTypes item).1 (entryTypes item).2 k v := fun le h =>
    ⟨⟨h.1.1.mono le, h.1.2⟩, h.2.1.mono le, h.2.2⟩
  induction items generalizing W table with
  | nil => exact .pure fun _ le e member => later le (old e member)
  | cons v items ih =>
    rw [fillTable]
    split
    · rename_i p same
      refine (Respects.askStore (P := fun W' t => ∀ e ∈ t,
        Entry W' (entryTypes item).1 (entryTypes item).2 e.1 e.2) fun W' s le store => ?_).bind
          fun W₁ t le told => ?_
      · have v_typed := typed v List.mem_cons_self
        have kept : ∀ e ∈ table, Entry W' (entryTypes item).1 (entryTypes item).2 e.1 e.2 :=
          fun e member => later le (old e member)
        cases found : s.pairs[p]? with
        | none => exact kept
        | some sides =>
          have all := store.all.pairs sides (Array.mem_of_getElem? found)
          have below := isa_entryTypes store (valued.mono le) (v_typed.1.mono le) v_typed.2 same found
          exact tableInsert_all (A := fun k => k.Typed W' ∧ k.isa (entryTypes item).1 = true)
            (B := fun v => v.Typed W' ∧ v.isa (entryTypes item).2 = true) kept ⟨all.1, below.1⟩
            ⟨all.2, below.2⟩
      · exact ih (valued.mono le) (fun w member => ⟨(typed w (List.mem_cons_of_mem v member)).1.mono le,
          (typed w (List.mem_cons_of_mem v member)).2⟩) told
    · exact .fail _

theorem valued_entryTypes {item : Ty} (h : W.Valued item) :
    W.Valued (entryTypes item).1 ∧ W.Valued (entryTypes item).2 := by
  have any : W.Valued .any := W.isUniverse.hasAny
  unfold entryTypes
  split
  · rename_i raw k v made args
    split
    · exact ⟨W.isUniverse.args item h k (by simp [args]), W.isUniverse.args item h v (by simp [args])⟩
    · exact ⟨any, any⟩
  · exact ⟨any, any⟩

theorem respects_makeTable (hr : r.Typed) : Respects W (makeTable r) Anything := by
  refine respects_pop.bind fun W₁ seq _ typed => (respects_drain hr typed).bind fun W₂ items le told => ?_
  have valued := valued_elem (typed.valued.mono le)
  have none : ∀ e ∈ ([] : Table), Entry W₂ (entryTypes seq.ty.elem).1 (entryTypes seq.ty.elem).2 e.1 e.2 :=
    List.forall_mem_nil _
  refine (respects_fillTable valued (fun v member => told v (by simpa using member)) none).bind
    fun W₃ table le' entries => ?_
  have types := valued_entryTypes (valued.mono le')
  exact (respects_tableOf types.1 types.2 fun e member =>
    ⟨⟨(entries e member).1.1, (entries e member).2.1⟩, (entries e member).1.2,
      (entries e member).2.2⟩).thenPush (f := id) fun _ _ h => h

theorem respects_byteOf (v : Value) : Respects W (byteOf v) Anything := by
  refine respects_orFail.seq fun n => ?_
  split
  · exact .done _
  · exact .fail _

theorem respects_makeBin (hr : r.Typed) : Respects W (makeBin r) Anything := by
  refine respects_pop.bind fun W₁ seq _ typed => (respects_drain hr typed).forget.seq fun items => ?_
  have each : Respects W₁ (items.mapM byteOf) fun W' bs => ∀ b ∈ bs, Anything W' b :=
    .arrayMapM (A := fun _ => True) (fun _ _ _ _ _ => trivial) (fun _ _ => trivial) fun _ _ v _ =>
      respects_byteOf v
  exact each.forget.seq fun bytes => (respects_newBin bytes).thenPush (f := id) fun _ _ told => told.1

theorem respects_strBin : Respects W strBin Anything :=
  respects_popStr.seq fun _ => (respects_newBin _).thenPush (f := id) fun _ _ told => told.1

theorem respects_toStr : Respects W toStr Anything :=
  respects_pop.forget.seq fun _ => respects_askStore.thenPush fun _ _ _ => typed_str _

theorem respects_binStr : Respects W binStr Anything := by
  refine respects_pop.forget.seq fun v => ?_
  dsimp only
  split
  · exact respects_askStore.seq fun _ => (respects_push (typed_str _)).next
  · exact (Respects.fail _ (P := Anything)).seq fun _ => .done _

/-! ## Iterators -/

theorem respects_iterPush {v : Value} (typed : v.Typed W) :
    Respects W (do push (← iterOf (← iterate v) v.ty.elem); return Reply.next) Anything := by
  refine (respects_iterate typed).bind fun W₁ i le known => ?_
  exact (respects_iterOf (valued_elem (typed.valued.mono le)) known).thenPush (f := id) fun _ _ h => h

theorem respects_makeIter : Respects W makeIter Anything := by
  refine respects_pop.bind fun W₁ v _ typed => ?_
  dsimp only
  split
  · exact (respects_push typed).next
  · exact respects_iterPush typed

theorem respects_nextItem (hr : r.Typed) : Respects W (nextItem r) Anything := by
  refine respects_pop.bind fun W₁ v _ typed => (respects_iterate typed).bind fun W₂ i le _ => ?_
  refine (respects_await hr i stepLimit).bind fun W₃ item le' told => ?_
  refine (respects_pushEach fun w member => ?_).next
  rcases List.mem_cons.1 member with rfl | member
  · exact typed.mono (World.le_trans le le')
  · obtain rfl := List.mem_singleton.1 member
    exact typed_getD fun v same => (told v same).1

theorem respects_pushIter {it : Iterator} {item : Ty} (valued : W.Valued item)
    (typed : it.All (·.Typed W)) (gives : it.Gives W item) :
    Respects W (pushIter it item) Anything :=
  (respects_newIter typed gives).bind fun _ _ le known =>
    (respects_iterOf (valued.mono le) known).thenPush (f := id) fun _ _ h => h

/-- An iterator without values whose items are of a built-in type. -/
theorem respects_pushSimple {it : Iterator} {item : Ty} (built : item ∈ Ty.builtins)
    (typed : it.All (·.Typed W)) (gives : it.Gives W item) :
    Respects W (pushIter it item) Anything :=
  respects_pushIter (W.valued_builtin built) typed gives

theorem respects_range : Respects W range Anything :=
  respects_popInt.seq fun _ => respects_popInt.seq fun _ =>
    respects_pushSimple (by simp [Ty.builtins]) trivial rfl

theorem respects_filter : Respects W filter Anything := by
  refine respects_pop.bind fun W₁ test _ typed => respects_pop.bind fun W₂ seq le typed' => ?_
  refine (respects_iterate typed').bind fun W₃ i le' known => ?_
  exact respects_pushIter (valued_elem (typed'.valued.mono le'))
    (Value.Typed.mono (World.le_trans le le') typed) known

theorem respects_map : Respects W map Anything := by
  refine respects_pop.bind fun W₁ f _ typed => respects_pop.bind fun W₂ seq le typed' => ?_
  refine (respects_iterate typed').bind fun W₃ i le' known => ?_
  exact respects_pushSimple (by simp [Ty.builtins]) (Value.Typed.mono (World.le_trans le le') typed) rfl

theorem respects_zip : Respects W zip Anything := by
  refine respects_pop.bind fun W₁ right _ hr => respects_pop.bind fun W₂ left le hl => ?_
  have args : ∀ t ∈ [left.ty.elem, right.ty.elem], W₂.Valued t := by
    simp [valued_elem hl.valued, valued_elem (hr.valued.mono le)]
  refine (respects_instantiate (by simp [Ty.templates]) ?_ rfl args).bind fun W₃ item le₃ told => ?_
  · exact fun same => absurd (congrArg Ty.id same) (by decide)
  refine (respects_iterate (hl.mono le₃)).bind fun W₄ i le₄ known => ?_
  refine (respects_iterate (hr.mono (World.le_trans le (World.le_trans le₃ le₄)))).bind
    fun W₅ j le₅ known' => ?_
  exact respects_pushIter (told.1.mono (World.le_trans le₄ le₅)) (fun _ none => by cases none)
    ⟨_, _, le₅.iters i _ known, known', told.2, fun _ none => by cases none⟩

theorem respects_rand : Respects W rand Anything :=
  respects_popInt.seq fun _ => .refuse fun _ => respects_pushSimple (by simp [Ty.builtins]) trivial rfl

theorem respects_pollSources (capacity : Nat) {values : List Value}
    (typed : ∀ v ∈ values, v.Typed W) (set : List Ref) :
    Respects W (pollSources capacity values set) Anything := by
  induction values generalizing W set with
  | nil => exact .done _
  | cons v vs ih =>
    refine (respects_iterate (typed v (by simp))).bind fun W₁ i le _ => ?_
    cases addSource capacity i set with
    | ok => exact ih (fun w member => (typed w (List.mem_cons_of_mem v member)).mono le) _
    | error => exact .fail _

theorem respects_poll : Respects W poll Anything := by
  refine respects_pop.bind fun W₁ v _ _ => (respects_listRef v).forget.seq fun l => ?_
  refine (Respects.askStore (P := fun W' vs => ∀ v ∈ vs, Value.Typed W' v) fun W' s _ store =>
    typed_listAt store l).bind fun W₂ sources _ typed => ?_
  refine respects_askShared.seq fun capacity => ?_
  refine (respects_pollSources capacity (fun v member => typed v (by simpa using member)) []).seq
    fun queue => ?_
  exact respects_pushSimple (by simp [Ty.builtins]) trivial rfl

/-! ## Fibers and threads -/

theorem respects_makeFiber : Respects W makeFiber Anything := by
  refine respects_pop.bind fun W₁ target _ typed => respects_freshId.bind fun W₂ id le _ => ?_
  have puts : Respects W₂
      (Run.alloc (·.fibers.size) fun s => { s with fibers := s.fibers.push ⟨id, target, .fresh⟩ })
      Anything := by
    refine .put fun W' s le' store => { store with all := { store.all with fibers := ?_ } }
    exact Values.pushed store.all.fibers ⟨typed.mono (World.le_trans le le'), nofun⟩
  exact puts.seq fun _ => (respects_push (typed_simple (p := .fiber _) (by simp [Ty.builtins]) rfl)).next

theorem respects_fiberDone : Respects W fiberDone Anything := by
  refine respects_pop.forget.seq fun v => ?_
  dsimp only
  split
  · exact respects_askStore.seq fun _ => (respects_push (typed_bool _)).next
  · exact (Respects.fail _ (P := Anything)).seq fun _ => .done _

/-- The work of another thread leaves that thread as it should be, and this one as it was. -/
theorem respects_onThread {P : World → α → Prop} {child : Thread} {x : Run α} (typed : child.Typed W)
    (hx : Respects W x P) : Respects W (onThread child x) fun W' out => out.2.Typed W' := by
  intro W₁ m le machine
  have started : Machine.Typed W₁ { m with thread := child } :=
    { machine with thread := typed.mono le }
  obtain ⟨W', le', typed', -⟩ := hx.attempt W₁ _ le started
  cases run : attempt x { m with thread := child } with
  | ok a n =>
    have typed' := after_ok run ▸ typed'
    refine .of_ok (n := { n with thread := m.thread }) (a := (a, n.thread)) ?_ le'
      { typed' with thread := machine.thread.mono le' } typed'.thread
    rw [onThread, run]
  | error e n =>
    have typed' := after_error run ▸ typed'
    refine .of_error (n := { n with thread := m.thread }) (e := e) ?_ le'
      { typed' with thread := machine.thread.mono le' }
    rw [onThread, run]

theorem respects_spawn (hr : r.Typed) (target : Value) :
    Respects W (spawn r target) Anything := by
  refine respects_freshId.seq fun id => (respects_note _ _).seq fun _ => respects_ask.seq fun _ => ?_
  refine (respects_noteThread _ _ _).seq fun _ => ?_
  refine (Respects.ask (P := fun W' t => Thread.Typed W' t) fun _ t _ thread =>
    ⟨thread.all.fork id, .empty⟩).bind fun W₁ child _ forked => ?_
  refine (respects_onThread forked (hr.runThread W₁ target)).bind fun W₂ out _ left => ?_
  have puts (outcome : Except Fault (Array Value)) (h : ∀ vs, outcome = .ok vs → vs = out.2.stack) :
      Respects W₂ (Run.alloc (·.threads.size) fun s =>
        { s with threads := s.threads.push ⟨id, some outcome⟩ }) Anything := by
    refine .put fun W' s le' store => { store with all := { store.all with threads := ?_ } }
    refine Values.pushed store.all.threads fun vs same v member => ?_
    rw [h vs (Option.some.inj same)] at member
    exact (left.all.stack v member).mono le'
  obtain ⟨result, child⟩ := out
  cases result with
  | ok u => exact (respects_noteThread _ _ _).seq fun _ => puts _ fun vs same => (Except.ok.inj same).symm
  | error e => exact (respects_noteThread _ _ _).seq fun _ => puts _ nofun

theorem respects_startThread (hr : r.Typed) : Respects W (startThread r) Anything :=
  respects_pop.forget.seq fun _ => (respects_spawn hr _).seq fun _ =>
    (respects_push (typed_simple (p := .thread _) (by simp [Ty.builtins]) rfl)).next

theorem respects_pushAll {values : Array Value} (h : ∀ v ∈ values, v.Typed W) :
    Respects W (alter (·.pushAll values)) Anything := by
  have each : Respects W (pushEach values.toList) Anything :=
    respects_pushEach fun v member => h v (by simpa using member)
  simpa [pushEach] using each

theorem respects_takeOutcome (t : Ref) :
    Respects W (takeOutcome t) fun W' left => ∀ vs, left.2 = .ok vs → ∀ v ∈ vs, v.Typed W' := by
  refine (Respects.askStore (P := fun W' (h : ThreadHandle) =>
    ∀ vs, h.outcome = some (.ok vs) → ∀ v ∈ vs, v.Typed W') fun W' s _ store => ?_).bind
      fun W₁ handle _ typed => ?_
  · cases found : s.threads[t]? with
    | none => exact nofun
    | some handle => exact store.all.threads handle (Array.mem_of_getElem? found)
  · cases left : handle.outcome with
    | none => exact .fail _
    | some outcome =>
      have taken : Respects W₁ (alterStore (·.takeOutcome t)) Anything := by
        refine .alterStore fun W' s _ store => { store with all := { store.all with threads := ?_ } }
        simp only [Store.takeOutcome]
        refine Values.modify store.all.threads fun _ _ => ?_
        exact fun _ same => nomatch same
      refine taken.bind fun W₂ _ le _ => .pure fun W' le' vs same v member => ?_
      rw [left] at typed
      exact (typed vs (congrArg some same) v member).mono (World.le_trans le le')

theorem respects_join : Respects W join Anything := by
  refine respects_pop.forget.seq fun v => ?_
  split
  · rename_i t _
    refine (respects_takeOutcome t).bind fun W₁ (id, outcome) _ typed => ?_
    refine (Respects.ofExcept (P := fun W' vs => ∀ v ∈ vs, v.Typed W')
      fun vs same W' le v member => (typed vs same v member).mono le).bind fun W₂ values _ typed => ?_
    exact respects_ask.seq fun _ => (respects_noteThread _ _ _).bind fun _ _ le _ =>
      (respects_pushAll fun v member => (typed v member).mono le).next
  · exact .fail _

/-! ## Files, sockets and printing -/

theorem respects_openFile : Respects W openFile Anything := by
  refine respects_popStr.seq fun _ => respects_popStr.seq fun _ => respects_orFail.seq fun _ => ?_
  refine respects_askShared.seq fun files => ?_
  split
  · exact .fail _
  · rename_i handle _ _
    have puts : Respects W
        (Run.alloc (·.files.size) fun s => { s with files := s.files.push handle }) Anything :=
      .put fun _ _ _ store => { store with all := { store.all with } }
    exact respects_alterHost.seq fun _ => puts.seq fun _ =>
      (respects_push (typed_simple (p := .file _) (by simp [Ty.builtins]) rfl)).next

theorem respects_readIter : Respects W readIter Anything := by
  refine respects_pop.forget.seq fun v => ?_
  split <;> first
    | exact .fail _
    | exact respects_pushSimple (by simp [Ty.builtins]) trivial rfl

theorem respects_writeFile (f : Ref) (bytes : Array UInt8) : Respects W (writeFile f bytes) Anything := by
  refine respects_askShared.seq fun files => respects_askStore.seq fun handle => ?_
  split
  · exact .fail _
  · intro W₁ m _ typed
    exact .of_ok rfl W₁.le_refl
      { typed with store := { typed.store with all := { typed.store.all with } } } trivial

theorem respects_bytesOf (v : Value) : Respects W (bytesOf v) Anything := by
  unfold bytesOf
  split <;> exact respects_askStore

theorem respects_writeSocket (s : Ref) (fuel : Nat) (bytes : List UInt8) :
    Respects W (writeSocket s fuel bytes) Anything := by
  induction fuel generalizing bytes with
  | zero =>
    cases bytes with
    | nil => exact .done ()
    | cons b bytes => exact .exhausted
  | succ fuel ih =>
    cases bytes with
    | nil => exact .done ()
    | cons b bytes =>
      refine respects_askStore.seq fun listens => .refuse fun _ => ?_
      refine (respects_askNetwork _).seq fun answer => ?_
      split
      · exact .fail _
      · exact ih _
      · exact ih _
      · exact .fail _

theorem respects_writeTo (target : Value) (bytes : Array UInt8) :
    Respects W (writeTo target bytes) Anything := by
  unfold writeTo
  split
  · exact respects_writeFile _ _
  · exact .fail _
  · exact respects_writeSocket _ _ _
  · exact .fail _
  · exact .fail _

theorem respects_write : Respects W write Anything :=
  respects_pop.forget.seq fun _ => (respects_peek _).forget.seq fun _ => (respects_bytesOf _).seq fun _ =>
    (respects_writeTo _ _).next

theorem respects_say : Respects W say Anything :=
  respects_pop.forget.seq fun _ => respects_askStore.seq fun _ => respects_alterHost.next

theorem respects_dir (recursive : Bool) : Respects W (dir recursive) Anything :=
  respects_popStr.seq fun _ => respects_askShared.seq fun _ => .refuse fun _ =>
    respects_pushSimple (by simp [Ty.builtins]) trivial rfl

theorem respects_orIo (answer : Except String α) : Respects W (orIo answer) Anything := by
  cases answer with
  | ok a => exact .done a
  | error message => exact .fail _

theorem respects_listen : Respects W listen Anything := by
  refine respects_popStr.seq fun addr => respects_ofExcept.seq fun _ => ?_
  refine (respects_askNetwork _).seq fun answer => (respects_orIo answer).seq fun addr => ?_
  have puts : Respects W
      (Run.alloc (·.sockets.size) fun st => { st with sockets := st.sockets.push ⟨addr, true⟩ }) Anything :=
    .put fun _ _ _ store => { store with all := { store.all with } }
  exact puts.seq fun _ => (respects_push (typed_simple (p := .socket _) (by simp [Ty.builtins]) rfl)).next

theorem respects_acceptIter : Respects W acceptIter Anything := by
  refine respects_pop.forget.seq fun v => ?_
  split
  · refine respects_askStore.seq fun listens => .refuse fun _ => ?_
    exact respects_pushSimple (by simp [Ty.builtins]) trivial rfl
  · exact .fail _

theorem respects_connectIter : Respects W connectIter Anything := by
  refine respects_popStr.seq fun addr => respects_ofExcept.seq fun _ => ?_
  refine (respects_askNetwork _).seq fun answer => (respects_orIo answer).seq fun found => ?_
  exact respects_orFail.seq fun addr => respects_pushSimple (by simp [Ty.builtins]) trivial rfl

/-! ## Calls and fields -/

theorem respects_callTop : Respects W callTop Anything :=
  respects_pop.forget.seq fun _ => .done _

theorem respects_branch : Respects W branch Anything := by
  refine respects_pop.bind fun W₁ no _ hn => respects_pop.bind fun W₂ yes le hy => ?_
  refine respects_pop.bind fun W₃ condition le' _ => ?_
  have typed : (if condition.truthy then yes else no).Typed W₃ := by
    split
    · exact hy.mono le'
    · exact hn.mono (World.le_trans le le')
  generalize (if condition.truthy then yes else no) = chosen at typed ⊢
  dsimp only
  split
  · exact .done _
  · exact (respects_push typed).next

theorem respects_deferCall : Respects W deferCall Anything := by
  refine respects_pop.bind fun W₁ f _ typed => Respects.next (.alter fun W' t le thread => ?_)
  refine { thread with all := thread.all.modifyScope fun s all => { all with defers := ?_ } }
  intro v member
  rcases List.mem_cons.1 member with rfl | member
  · exact typed.mono le
  · exact all.defers v member

theorem respects_structRef (v : Value) :
    Respects W (structRef v) fun _ i => v.payload = .struct i := by
  unfold structRef
  split
  · rename_i same
    exact .pure fun _ _ => same
  · exact .fail _

theorem respects_field (i : Nat) : Respects W (field i) Anything := by
  refine respects_pop.forget.seq fun v => (respects_structRef v).forget.seq fun j => ?_
  refine (Respects.askStore (P := fun W' v? => ∀ v, v? = some v → Value.Typed W' v)
    fun W' s _ store v found => ?_).bind fun W₁ v? _ typed => (respects_push (typed_getD typed)).next
  exact typed_structAt store j v (Array.mem_of_getElem? found)

end Run

end Catena
