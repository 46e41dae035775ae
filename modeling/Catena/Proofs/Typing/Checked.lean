import Catena.Proofs.Choice
import Catena.Proofs.Typing.Library

/-!
# Functions that rely on their signatures

A function that puts something into a collection does not look at its type: that its signature
accepts the arguments on the stack is what keeps the collection to the types it was made for. So
these are followed from a stack whose topmost values the signature accepts.
-/

namespace Catena

variable {α : Type} {W : World} {r : Reentry}

/-! ## Taking known values off the stack -/

theorem Thread.Typed.modifyStack {t : Thread} {f : Array Value → Array Value} (h : t.Typed W)
    (keep : ∀ s, (∀ v ∈ s, v.Typed W) → ∀ v ∈ f s, v.Typed W) : (t.modifyStack f).Typed W := by
  refine ⟨h.all.modifyStack keep, ?_⟩
  have cache : (t.modifyStack f).cache = t.cache := by
    unfold Thread.modifyStack
    split <;> rfl
  exact cache ▸ h.cache

namespace Run

variable {Q : World → α → Prop} {k : Value → Run α} {m : Machine} {s : Array Value} {v : Value}

theorem typed_top (typed : m.Typed W) (h : m.thread.stack = s.push v) : v.Typed W :=
  typed.thread.all.stack v (h ▸ Array.mem_push_self)

theorem RespectsAt.pop (typed : m.Typed W) (h : m.thread.stack = s.push v)
    (hk : ∀ n, n.Typed W → n.thread.stack = s → RespectsAt W n (k v) Q) :
    RespectsAt W m (Run.pop >>= k) Q := by
  have top : m.thread.top? = some v := by rw [Thread.top?, h, Array.back?_push]
  let n : Machine := { m with thread := m.thread.modifyStack Array.pop }
  have run : Run.pop m = .ok v n := by
    rw [Run.pop, bind_apply, ask, top]
    rfl
  refine .next run (hk n { typed with thread := typed.thread.modifyStack fun _ => Values.popped } ?_)
  rw [Thread.stack_modifyStack, h, Array.pop_push]

theorem RespectsAt.peek {what : String} (h : m.thread.stack = s.push v)
    (hk : RespectsAt W m (k v) Q) : RespectsAt W m (Run.peek what >>= k) Q := by
  refine .next (n := m) (a := v) ?_ hk
  rw [Run.peek, bind_apply, ask, Thread.top?, h, Array.back?_push]
  rfl

theorem RespectsAt.popAs {β : Type} {expected : String} {f : Value → Option β} {k : β → Run α}
    (typed : m.Typed W) (h : m.thread.stack = s.push v)
    (hk : ∀ n b, n.Typed W → n.thread.stack = s → RespectsAt W n (k b) Q) :
    RespectsAt W m (Run.popAs expected f >>= k) Q := by
  rw [Run.popAs, bind_assoc]
  refine .pop typed h fun n typed' stack => ?_
  cases f v with
  | none => exact .of_error rfl W.le_refl typed'
  | some b => exact hk n b typed' stack

theorem RespectsAt.popN {count : Nat} {vs : Array Value} {k : Array Value → Run α} (typed : m.Typed W)
    (h : m.thread.stack = s ++ vs) (size : vs.size = count)
    (hk : ∀ n, n.Typed W → n.thread.stack = s → RespectsAt W n (k vs) Q) :
    RespectsAt W m (Run.popN count >>= k) Q := by
  have total : m.thread.stack.size = s.size + count := by rw [h, Array.size_append, size]
  have start : m.thread.stack.size - count = s.size := by omega
  let rest : Array Value → Array Value := fun _ => s
  let n : Machine := { m with
    thread := m.thread.modifyStack fun stack => stack.extract 0 (m.thread.stack.size - count) }
  have run : Run.popN count m = .ok vs n := by
    have enough : ¬ m.thread.stack.size < count := by omega
    have values : m.thread.stack.extract (m.thread.stack.size - count) m.thread.stack.size = vs := by
      rw [start, h]
      simp
    rw [Run.popN, bind_apply, ask]
    dsimp only
    rw [if_neg enough, bind_apply, ask, values]
    rfl
  refine .next run (hk n { typed with thread := typed.thread.modifyStack fun _ => Values.extracted _ _ } ?_)
  rw [Thread.stack_modifyStack, start, h]
  simp

/-! ## Filling lists and tables -/

/-- A list is changed by nothing coming into it but values that lie below its item type. -/
theorem respects_alterList {l : Ref} {item : Ty} {f : Array Value → Array Value}
    (known : W.lists[l]? = some item) (typed : v.Typed W) (below : v.isa item = true)
    (adds : ∀ (A : Value → Prop) items, A v → (∀ w ∈ items, A w) → ∀ w ∈ f items, A w) :
    Respects W (alterList l f) Anything := by
  refine .alterStore fun W' s le store => { store with all := ?_, lists := ?_ }
  · exact { store.all with
      lists := Values.modify store.all.lists fun items old =>
        adds (·.Typed W') items (typed.mono le) old }
  · refine store.lists.modify fun other items found _ old => ?_
    obtain rfl := Option.some.inj (found.symm.trans (le.lists l item known))
    exact adds (·.isa other = true) items below old

theorem respects_setTable {t : Ref} {key value : Ty} {entries : Table}
    (known : W.tables[t]? = some (key, value))
    (typed : ∀ e ∈ entries, Entry W key value e.1 e.2) : Respects W (setTable t entries) Anything := by
  refine .alterStore fun W' s le store => { store with all := ?_, tables := ?_ }
  · refine { store.all with tables := Values.set store.all.tables fun e member => ?_ }
    exact ⟨(typed e member).1.1.mono le, (typed e member).2.1.mono le⟩
  · refine store.tables.set fun types found e member => ?_
    obtain rfl := Option.some.inj (found.symm.trans (le.tables t _ known))
    exact ⟨(typed e member).1.2, (typed e member).2.2⟩

/-- A list value with what is known of its item type. -/
theorem list_of {v : Value} {l : Ref} (typed : v.Typed W) (same : v.payload = .list l) :
    ∃ item, W.lists[l]? = some item ∧ v.ty.args = [item] := by
  have fits := typed.fits
  rw [same] at fits
  obtain ⟨item, known, of⟩ := fits
  exact ⟨item, known, of.2⟩

/-- A table value with what is known of the types of its keys and values. -/
theorem table_of {v : Value} {t : Ref} (typed : v.Typed W) (same : v.payload = .table t) :
    ∃ key value, W.tables[t]? = some (key, value) ∧ v.ty.args = [key, value] := by
  have fits := typed.fits
  rw [same] at fits
  obtain ⟨key, value, known, of⟩ := fits
  exact ⟨key, value, known, of.2⟩

variable {imp : Imp}

/-- The values that an implementation accepts, from the left. -/
theorem accepted (matched : imp.Matches m.thread.stack) :
    ∃ (s : Array Value) (vs : List Value), m.thread.stack = s ++ vs.toArray ∧
      vs.length = imp.args.length ∧ ∀ (i : Nat) arg w, imp.args[i]? = some arg → vs[i]? = some w →
        arg.check vs.toArray w = .yes := by
  obtain ⟨s, split, size⟩ := matched.split
  refine ⟨s, (imp.window m.thread.stack).toList, by simpa using split, by simpa using size, ?_⟩
  intro i arg w found value
  have check := matched.check found (by simpa using value)
  simpa using check

theorem respects_pushItem (typed : m.Typed W) (matched : imp.Matches m.thread.stack)
    (args : imp.args = [.type .list, .typeArg 0 0]) : RespectsAt W m pushItem Anything := by
  obtain ⟨s, vs, stack, length, checked⟩ := accepted matched
  obtain ⟨x, y, rfl⟩ := List.length_eq_two.1 (args ▸ length)
  replace stack : m.thread.stack = (s.push x).push y := stack.trans (Array.ext' (by simp))
  have fills := checked 1 _ y (by rw [args]; rfl) rfl
  have item_typed := typed_top typed stack
  refine .pop typed stack fun n typed stack => ?_
  have list_typed := typed_top typed stack
  refine .peek stack (Respects.at ?_ typed)
  refine (respects_listRef x).bind fun W₁ l le same => ?_
  obtain ⟨item, known, types⟩ := list_of (list_typed.mono le) same
  have below : y.isa item = true := Arg.typeArg_of_check fills (o := x) rfl (by rw [types]; rfl)
  exact (respects_alterList known (item_typed.mono le) below fun A items new old =>
    Values.pushed old new).next

theorem respects_listPut (typed : m.Typed W) (matched : imp.Matches m.thread.stack)
    (args : imp.args = [.type .list, .type .int, .typeArg 0 0]) :
    RespectsAt W m listPut Anything := by
  obtain ⟨s, vs, stack, length, checked⟩ := accepted matched
  obtain ⟨x, y, z, rfl⟩ := List.length_eq_three.1 (args ▸ length)
  replace stack : m.thread.stack = ((s.push x).push y).push z :=
    stack.trans (Array.ext' (by simp))
  have fills := checked 2 _ z (by rw [args]; rfl) rfl
  have item_typed := typed_top typed stack
  refine .pop typed stack fun n typed stack => ?_
  refine .popAs typed stack fun n index typed stack => ?_
  have list_typed := typed_top typed stack
  refine .peek stack (Respects.at ?_ typed)
  refine (respects_listRef x).bind fun W₁ l le same => ?_
  obtain ⟨item, known, types⟩ := list_of (list_typed.mono le) same
  have below : z.isa item = true := Arg.typeArg_of_check fills (o := x) rfl (by rw [types]; rfl)
  refine respects_askStore.seq fun length => (respects_place index length).bind fun W₂ i le' _ => ?_
  exact (respects_alterList (le'.lists l item known) (item_typed.mono (World.le_trans le le')) below
    fun A items new old => Values.set old new).next

theorem respects_tablePut (typed : m.Typed W) (matched : imp.Matches m.thread.stack)
    (args : imp.args = [.type .table, .typeArg 0 0, .typeArg 0 1]) :
    RespectsAt W m tablePut Anything := by
  obtain ⟨s, vs, stack, length, checked⟩ := accepted matched
  obtain ⟨x, y, z, rfl⟩ := List.length_eq_three.1 (args ▸ length)
  replace stack : m.thread.stack = ((s.push x).push y).push z :=
    stack.trans (Array.ext' (by simp))
  have fillsKey := checked 1 _ y (by rw [args]; rfl) rfl
  have fillsValue := checked 2 _ z (by rw [args]; rfl) rfl
  have value_typed := typed_top typed stack
  refine .pop typed stack fun n typed stack => ?_
  have key_typed := typed_top typed stack
  refine .pop typed stack fun n typed stack => ?_
  have table_typed := typed_top typed stack
  refine .peek stack (Respects.at ?_ typed)
  refine (respects_tableRef x).bind fun W₁ t le same => ?_
  obtain ⟨key, value, known, types⟩ := table_of (table_typed.mono le) same
  have belowKey : y.isa key = true := Arg.typeArg_of_check fillsKey (o := x) rfl (by rw [types]; rfl)
  have belowValue : z.isa value = true := Arg.typeArg_of_check fillsValue (o := x) rfl (by rw [types]; rfl)
  refine (Respects.askStore (P := fun W' entries => ∀ e ∈ entries, Entry W' key value e.1 e.2)
    fun W' st le' store => ?_).bind fun W₂ entries le' told =>
      (respects_setTable (le'.tables t _ known) told).next
  refine tableInsert_all (A := fun k => k.Typed W' ∧ k.isa key = true)
    (B := fun v => v.Typed W' ∧ v.isa value = true) (fun e member => ?_)
    ⟨key_typed.mono (World.le_trans le le'), belowKey⟩
    ⟨value_typed.mono (World.le_trans le le'), belowValue⟩
  rw [Store.tableAt] at member
  cases table : st.tables[t]? with
  | none => simp [table] at member
  | some old =>
    rw [table] at member
    have types := store.tables.each t _ old (le'.tables t _ known) table e member
    have all := store.all.tables old (Array.mem_of_getElem? table) e member
    exact ⟨⟨all.1, types.1⟩, all.2, types.2⟩

/-! ## Structures -/

/-- What an implementation for the fields of a structure accepts lies below their types. -/
theorem fields_of_check {ts : List Ty} {last : Arg} {vs : List Value} {top : Value}
    (length : vs.length = ts.length)
    (checked : ∀ (i : Nat) arg w, (ts.map Arg.type ++ [last])[i]? = some arg →
      (vs ++ [top])[i]? = some w → arg.check (vs ++ [top]).toArray w = .yes) :
    FieldsIn vs.toArray ts := by
  refine List.forall₂_iff_get.2 ⟨by simpa using length, fun i inside inside' => ?_⟩
  have found : (ts.map Arg.type ++ [last])[i]? = some (.type ts[i]) := by
    rw [List.getElem?_append_left (by simpa using inside')]
    simp
  have value : (vs ++ [top])[i]? = some vs[i] := by
    rw [List.getElem?_append_left (by simpa using inside)]
    simp
  simpa using Arg.isa_of_check (checked i _ _ found value)

theorem respects_construct {t : Ty} {fields : Nat} {ts : List Ty} (record : W.Record t)
    (known : W.records t.id = some ts) (count : fields = ts.length) (typed : m.Typed W)
    (matched : imp.Matches m.thread.stack)
    (args : imp.args = ts.map .type ++ [.pred (.isType t.id)]) :
    RespectsAt W m (construct t fields) Anything := by
  obtain ⟨s, all, stack, length, checked⟩ := accepted matched
  rw [args] at length checked
  obtain ⟨vs, top, rfl⟩ : ∃ vs top, all = vs ++ [top] := by
    rcases List.eq_nil_or_concat all with rfl | ⟨vs, top, rfl⟩
    · simp at length
    · exact ⟨vs, top, by simp⟩
  have size : vs.length = ts.length := by simpa using length
  have below := fields_of_check size checked
  replace stack : m.thread.stack = (s ++ vs.toArray).push top := by simpa using stack
  refine .pop typed stack fun n typed stack => ?_
  have values_typed : ∀ v ∈ vs.toArray, v.Typed W := fun v member =>
    typed.thread.all.stack v (stack ▸ Array.mem_append_right _ member)
  refine .popN typed stack (by simp [size, count]) fun n typed stack => Respects.at ?_ typed
  have allocates : Respects W
      (Run.alloc (·.structs.size) fun s => { s with structs := s.structs.push vs.toArray })
      fun W' r => W'.structs[r]? = some t := by
    refine .alloc fun W' st le store =>
      ⟨_, W'.le_addStruct t, rfl, rfl, ?_, known_push store.structs t⟩
    exact store.addStruct (le.records _ _ known) (fun v member => (values_typed v member).mono le) below
  refine allocates.bind fun W₁ j le found => (respects_push ?_).next
  exact ⟨record.valued.mono le, found, record.mono le⟩

theorem FieldsIn.set {fields : Array Value} {ts : List Ty} {i : Nat} {t : Ty} {v : Value}
    (h : FieldsIn fields ts) (found : ts[i]? = some t) (below : v.isa t = true) :
    FieldsIn (fields.setIfInBounds i v) ts := by
  obtain ⟨length, each⟩ := List.forall₂_iff_get.1 h
  refine List.forall₂_iff_get.2 ⟨by simpa using length, fun j inside inside' => ?_⟩
  by_cases same : i = j
  · subst same
    obtain ⟨_, rfl⟩ := List.getElem?_eq_some_iff.1 found
    simpa using below
  · have old := each j (by simpa using inside) inside'
    simpa [same] using old

theorem respects_setField {i : Nat} {t field : Ty} {ts : List Ty} (record : W.Record t)
    (known : W.records t.id = some ts) (found : ts[i]? = some field) (typed : m.Typed W)
    (matched : imp.Matches m.thread.stack) (args : imp.args = [.type t, .type field]) :
    RespectsAt W m (setField i) Anything := by
  obtain ⟨s, vs, stack, length, checked⟩ := accepted matched
  obtain ⟨x, y, rfl⟩ := List.length_eq_two.1 (args ▸ length)
  replace stack : m.thread.stack = (s.push x).push y := stack.trans (Array.ext' (by simp))
  have isRecord := Arg.isa_of_check (checked 0 _ x (by rw [args]; rfl) rfl)
  have below := Arg.isa_of_check (checked 1 _ y (by rw [args]; rfl) rfl)
  have item_typed := typed_top typed stack
  refine .pop typed stack fun n typed stack => ?_
  have struct_typed := typed_top typed stack
  obtain ⟨name, names, behavior⟩ := record.behavior
  have is : x.ty = t :=
    W.isUniverse.isa_record struct_typed.valued record.valued record.template behavior isRecord
  refine .peek stack (Respects.at ?_ typed)
  refine (respects_structRef x).bind fun W₁ j le same => ?_
  have fits := (struct_typed.mono le).fits
  rw [same, is] at fits
  refine Respects.next (.alterStore fun W' st le' store => { store with all := ?_, structs := ?_ })
  · have later := item_typed.mono (World.le_trans le le')
    exact { store.all with
      structs := Values.modify store.all.structs fun a old => Values.set old later }
  · dsimp only
    refine store.structs.modify fun other a known' _ old => ?_
    obtain rfl := Option.some.inj (known'.symm.trans (le'.structs j _ fits.1))
    obtain ⟨ts', known'', fields⟩ := old
    obtain rfl := Option.some.inj
      (known''.symm.trans ((World.le_trans le le').records _ _ known))
    exact ⟨ts', known'', FieldsIn.set fields found below⟩

/-! ## All functions -/

/-- A library function called through an implementation that accepts its arguments. -/
theorem respects_native (hr : r.Typed) {f : Native} (typed : m.Typed W) (body : imp.body = .native f)
    (ok : imp.Typed W) (matched : imp.Matches m.thread.stack) :
    RespectsAt W m (f.run r) Anything := by
  have takes := ok f body
  have free {x : Run Reply} (h : Respects W x Anything) : RespectsAt W m x Anything := h.at typed
  cases f with
  | push => exact respects_pushItem typed matched takes
  | listPut => exact respects_listPut typed matched takes
  | tablePut => exact respects_tablePut typed matched takes
  | construct t fields =>
    obtain ⟨ts, record, known, count, args⟩ := takes
    exact respects_construct record known count typed matched args
  | setField i =>
    obtain ⟨t, ts, field, record, known, found, args⟩ := takes
    exact respects_setField record known found typed matched args
  | host _ => exact takes.elim
  | hostIter _ _ => exact takes.elim
  | hostPend => exact takes.elim
  | dup => exact free respects_dup
  | swap => exact free respects_swap
  | rot => exact free respects_rot
  | reset => exact free respects_reset
  | stash => exact free respects_stash
  | depth => exact free respects_depth
  | intOp op => exact free (respects_intOp op)
  | ratioOp op => exact free (respects_ratioOp op)
  | makeRatio => exact free respects_makeRatio
  | equal => exact free respects_equal
  | same => exact free respects_same
  | order test => exact free (respects_order test)
  | not => exact free respects_not
  | typeOf => exact free respects_typeOf
  | isa => exact free respects_isa
  | is => exact free respects_is
  | call => exact free respects_callTop
  | choose => exact free respects_branch
  | defer => exact free respects_deferCall
  | len => exact free respects_len
  | pop => exact free respects_popItem
  | listGet => exact free respects_listGet
  | tableGet => exact free respects_tableGet
  | pair => exact free respects_makePair
  | left => exact free respects_left
  | right => exact free respects_right
  | list => exact free (respects_makeList hr)
  | table => exact free (respects_makeTable hr)
  | bin => exact free (respects_makeBin hr)
  | strBin => exact free respects_strBin
  | str => exact free respects_toStr
  | binStr => exact free respects_binStr
  | iter => exact free respects_makeIter
  | next => exact free (respects_nextItem hr)
  | range => exact free respects_range
  | filter => exact free respects_filter
  | map => exact free respects_map
  | zip => exact free respects_zip
  | rand => exact free respects_rand
  | openFile => exact free respects_openFile
  | readIter => exact free respects_readIter
  | write => exact free respects_write
  | say => exact free respects_say
  | dir recursive => exact free (respects_dir recursive)
  | listen => exact free respects_listen
  | acceptIter => exact free respects_acceptIter
  | connectIter => exact free respects_connectIter
  | poll => exact free respects_poll
  | fiber => exact free respects_makeFiber
  | fiberDone => exact free respects_fiberDone
  | thread => exact free (respects_startThread hr)
  | join => exact free respects_join
  | raise => exact free respects_raise
  | reraise => exact free respects_reraise
  | errors => exact free respects_errors
  | errorKind => exact free respects_errorKind
  | errorMessage => exact free respects_errorMessage
  | clearErrors => exact free respects_clearErrors
  | field i => exact free (respects_field i)

end Run

end Catena
