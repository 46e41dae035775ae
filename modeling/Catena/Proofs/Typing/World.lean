import Catena.Proofs.Types.Instance
import Catena.Proofs.Values

/-!
# What the objects of a store are known to hold

A reference does not say what it points to, so what a value may be is judged in a world: the types
there are, the field types of the structure types, and for each list, table, pair, structure and
iterator of the store the types it was made for. A world grows as types are made and objects are put
into the store, and nothing that it says is ever taken back.
-/

namespace Catena

/-- What is known of the types there are and of the objects of a store. -/
structure World where
  knows : Ty → Prop
  isUniverse : Ty.Universe fun t => knows t ∧ t.Plain
  /-- The types of the fields of a structure type, by its id. -/
  records : Nat → Option (List Ty)
  /-- The item types of the lists. -/
  lists : Array Ty
  /-- The types of the keys and values of the tables. -/
  tables : Array (Ty × Ty)
  /-- The types of the two sides of the pairs. -/
  pairs : Array (Ty × Ty)
  structs : Array Ty
  /-- The item types of the iterators. -/
  iters : Array Ty

namespace World

/-- Values may have the type. -/
def Valued (W : World) (t : Ty) : Prop :=
  W.knows t ∧ t.Plain

/-- The type is that of the values of a structure. -/
structure Record (W : World) (t : Ty) : Prop where
  valued : W.Valued t
  template : t.template = none
  behavior : ∃ name fields, t.behavior = .record name fields

/-- The later world says everything that the earlier one does. -/
structure Le (W W' : World) : Prop where
  knows : ∀ t, W.knows t → W'.knows t
  records : ∀ id ts, W.records id = some ts → W'.records id = some ts
  lists : ∀ (r : Ref) t, W.lists[r]? = some t → W'.lists[r]? = some t
  tables : ∀ (r : Ref) t, W.tables[r]? = some t → W'.tables[r]? = some t
  pairs : ∀ (r : Ref) t, W.pairs[r]? = some t → W'.pairs[r]? = some t
  structs : ∀ (r : Ref) t, W.structs[r]? = some t → W'.structs[r]? = some t
  iters : ∀ (r : Ref) t, W.iters[r]? = some t → W'.iters[r]? = some t

instance : LE World := ⟨Le⟩

variable {W W' W'' : World}

theorem le_refl (W : World) : W ≤ W :=
  ⟨fun _ h => h, fun _ _ h => h, fun _ _ h => h, fun _ _ h => h, fun _ _ h => h, fun _ _ h => h,
    fun _ _ h => h⟩

theorem le_trans (h : W ≤ W') (k : W' ≤ W'') : W ≤ W'' where
  knows t known := k.knows t (h.knows t known)
  records id ts known := k.records id ts (h.records id ts known)
  lists r t known := k.lists r t (h.lists r t known)
  tables r t known := k.tables r t (h.tables r t known)
  pairs r t known := k.pairs r t (h.pairs r t known)
  structs r t known := k.structs r t (h.structs r t known)
  iters r t known := k.iters r t (h.iters r t known)

theorem Valued.mono {t : Ty} (le : W ≤ W') (h : W.Valued t) : W'.Valued t :=
  ⟨le.knows t h.1, h.2⟩

theorem Record.mono {t : Ty} (le : W ≤ W') (h : W.Record t) : W'.Record t :=
  { h with valued := h.valued.mono le }

theorem valued_builtin (W : World) {t : Ty} (built : t ∈ Ty.builtins) : W.Valued t :=
  W.isUniverse.base t built

/-! ## New objects -/

theorem getElem?_push_of_some {γ : Type} {xs : Array γ} {i : Nat} {x : γ} (y : γ)
    (h : xs[i]? = some x) : (xs.push y)[i]? = some x := by
  have inside := (Array.getElem?_eq_some_iff.1 h).1
  rw [Array.getElem?_push, if_neg (Nat.ne_of_lt inside), h]

theorem le_addList (W : World) (item : Ty) : W ≤ { W with lists := W.lists.push item } :=
  { W.le_refl with lists := fun _ _ => getElem?_push_of_some item }

theorem le_addTable (W : World) (types : Ty × Ty) : W ≤ { W with tables := W.tables.push types } :=
  { W.le_refl with tables := fun _ _ => getElem?_push_of_some types }

theorem le_addPair (W : World) (types : Ty × Ty) : W ≤ { W with pairs := W.pairs.push types } :=
  { W.le_refl with pairs := fun _ _ => getElem?_push_of_some types }

theorem le_addStruct (W : World) (t : Ty) : W ≤ { W with structs := W.structs.push t } :=
  { W.le_refl with structs := fun _ _ => getElem?_push_of_some t }

theorem le_addIter (W : World) (item : Ty) : W ≤ { W with iters := W.iters.push item } :=
  { W.le_refl with iters := fun _ _ => getElem?_push_of_some item }

/-- The world in which the types of a registry are known. -/
def withTypes (W : World) {r : Registry} (sound : r.Sound Ty.IsRecord) : World :=
  { W with
    knows := r.Knows
    isUniverse := sound.toUniverse }

end World

/-! ## Values -/

/-- What a value of a type holds. -/
def Payload.Fits (W : World) (t : Ty) : Payload → Prop
  | .nil => t = .nil
  | .bool _ => t = .bool
  | .int _ => t = .int
  | .ratio _ => t = .ratio
  | .char _ => t = .char
  | .wchar _ => t = .wchar
  | .str _ => t = .str
  | .wstr _ => t = .wstr
  | .sym _ => t = .sym
  | .func _ => t = .func
  | .type s => t = .type ∧ W.knows s
  | .label _ => t = .label
  | .lambda _ => t = .lambda
  | .bin _ => t = .bin
  | .list r => ∃ item, W.lists[r]? = some item ∧ t.Of .list [item]
  | .table r => ∃ k v, W.tables[r]? = some (k, v) ∧ t.Of .table [k, v]
  | .pair r => ∃ a b, W.pairs[r]? = some (a, b) ∧ t.Of .pair [a, b]
  | .struct r => W.structs[r]? = some t ∧ W.Record t
  | .iter r => ∃ item, W.iters[r]? = some item ∧ t.Of .iter [item]
  | .file _ => t = .file
  | .socket _ => t = .socket
  | .fiber _ => t = .fiber
  | .thread _ => t = .thread
  | .error _ => t = .error

/-- A value is what its type says. -/
structure Value.Typed (W : World) (v : Value) : Prop where
  valued : W.Valued v.ty
  fits : v.payload.Fits W v.ty

/-- What an iterator gives are items of a type. -/
def Iterator.Gives (W : World) (item : Ty) : Iterator → Prop
  | .range .. | .bytes .. | .random .. => item = .int
  | .items l _ => W.lists[l]? = some item
  | .entries t _ => ∃ k v, W.tables[t]? = some (k, v) ∧ item.Of .pair [k, v]
  | .chars _ => item = .char
  | .units _ => item = .wchar
  | .filter source _ => W.iters[source]? = some item
  | .map .. | .poll _ => item = .any
  | .zip l r held => ∃ a b, W.iters[l]? = some a ∧ W.iters[r]? = some b ∧ item.Of .pair [a, b] ∧
      ∀ v, held = some v → v.isa a = true
  | .readFile _ | .readSocket _ => item = .bin
  | .walkRoot .. | .walk .. => item = .str
  | .accept _ | .connect _ => item = .socket
  | .host answers _ => ∀ k v, answers k = .ok (.item v) → v.isa item = true

/-- What the iterator at a place gives, if it is not being pulled, are items of a type. -/
def IterCell.Gives (W : World) (item : Ty) : IterCell → Prop
  | .ready it => it.Gives W item
  | .busy | .done => True

/-- What a library function that fills a collection or a structure, or makes one, asks of its
arguments. Functions of the embedding program take no part. -/
def Native.Takes (W : World) (args : List Arg) : Native → Prop
  | .push => args = [.type .list, .typeArg 0 0]
  | .listPut => args = [.type .list, .type .int, .typeArg 0 0]
  | .tablePut => args = [.type .table, .typeArg 0 0, .typeArg 0 1]
  | .construct t fields => ∃ ts, W.Record t ∧ W.records t.id = some ts ∧ fields = ts.length ∧
      args = ts.map .type ++ [.pred (.isType t.id)]
  | .setField i => ∃ t ts field, W.Record t ∧ W.records t.id = some ts ∧ ts[i]? = some field ∧
      args = [.type t, .type field]
  | .host _ | .hostIter .. | .hostPend => False
  | _ => True

/-- The implementation asks what its body needs. -/
def Imp.Typed (W : World) (imp : Imp) : Prop :=
  ∀ f, imp.body = .native f → f.Takes W imp.args

variable {W W' : World}

theorem Payload.Fits.mono {t : Ty} {p : Payload} (le : W ≤ W') (h : p.Fits W t) : p.Fits W' t := by
  cases p with
  | type s => exact ⟨h.1, le.knows s h.2⟩
  | list r =>
    obtain ⟨item, found, of⟩ := h
    exact ⟨item, le.lists r item found, of⟩
  | table r =>
    obtain ⟨k, v, found, of⟩ := h
    exact ⟨k, v, le.tables r _ found, of⟩
  | pair r =>
    obtain ⟨a, b, found, of⟩ := h
    exact ⟨a, b, le.pairs r _ found, of⟩
  | struct r => exact ⟨le.structs r t h.1, h.2.mono le⟩
  | iter r =>
    obtain ⟨item, found, of⟩ := h
    exact ⟨item, le.iters r item found, of⟩
  | _ => exact h

theorem Value.Typed.mono {v : Value} (le : W ≤ W') (h : v.Typed W) : v.Typed W' :=
  ⟨h.valued.mono le, h.fits.mono le⟩

theorem Iterator.Gives.mono {item : Ty} {it : Iterator} (le : W ≤ W') (h : it.Gives W item) :
    it.Gives W' item := by
  cases it with
  | items l i => exact le.lists l item h
  | entries t i =>
    obtain ⟨k, v, found, of⟩ := h
    exact ⟨k, v, le.tables t _ found, of⟩
  | filter source test => exact le.iters source item h
  | zip l r held =>
    obtain ⟨a, b, left, right, rest⟩ := h
    exact ⟨a, b, le.iters l a left, le.iters r b right, rest⟩
  | _ => exact h

theorem IterCell.Gives.mono {item : Ty} {cell : IterCell} (le : W ≤ W') (h : cell.Gives W item) :
    cell.Gives W' item := by
  cases cell with
  | ready it => exact Iterator.Gives.mono le h
  | _ => trivial

theorem Native.Takes.mono {args : List Arg} {f : Native} (le : W ≤ W') (h : f.Takes W args) :
    f.Takes W' args := by
  cases f with
  | construct t fields =>
    obtain ⟨ts, record, found, rest⟩ := h
    exact ⟨ts, record.mono le, le.records _ _ found, rest⟩
  | setField i =>
    obtain ⟨t, ts, field, record, found, rest⟩ := h
    exact ⟨t, ts, field, record.mono le, le.records _ _ found, rest⟩
  | _ => exact h

theorem Imp.Typed.mono {imp : Imp} (le : W ≤ W') (h : imp.Typed W) : imp.Typed W' :=
  fun f body => (h f body).mono le

/-! ## Objects and what is known of them -/

/-- Each object is related to what is known of it. -/
structure Tallies {γ α : Type} (R : γ → α → Prop) (known : Array γ) (objects : Array α) : Prop where
  size : known.size = objects.size
  each : ∀ (i : Nat) g x, known[i]? = some g → objects[i]? = some x → R g x

namespace Tallies

variable {γ α : Type} {R S : γ → α → Prop} {known : Array γ} {objects : Array α}

theorem mono (h : ∀ g x, R g x → S g x) (m : Tallies R known objects) : Tallies S known objects :=
  ⟨m.size, fun i g x hg hx => h g x (m.each i g x hg hx)⟩

theorem push {g : γ} {x : α} (m : Tallies R known objects) (h : R g x) :
    Tallies R (known.push g) (objects.push x) := by
  constructor
  · simp [m.size]
  · intro i g' x' hg hx
    rw [Array.getElem?_push] at hg hx
    rw [m.size] at hg
    split at hg
    · rename_i last
      rw [if_pos last] at hx
      cases hg
      cases hx
      exact h
    · rename_i inside
      rw [if_neg inside] at hx
      exact m.each i g' x' hg hx

theorem modify {i : Nat} {f : α → α} (m : Tallies R known objects)
    (h : ∀ g x, known[i]? = some g → objects[i]? = some x → R g x → R g (f x)) :
    Tallies R known (objects.modify i f) := by
  constructor
  · simp [m.size]
  · intro j g x hg hx
    rw [Array.getElem?_modify] at hx
    split at hx
    · rename_i same
      subst same
      obtain ⟨y, found, rfl⟩ := Option.map_eq_some_iff.1 hx
      exact h g y hg found (m.each i g y hg found)
    · exact m.each j g x hg hx

theorem set {i : Nat} {x : α} (m : Tallies R known objects)
    (h : ∀ g, known[i]? = some g → R g x) : Tallies R known (objects.setIfInBounds i x) := by
  constructor
  · simp [m.size]
  · intro j g y hg hy
    by_cases same : i = j
    · subst same
      by_cases inside : i < objects.size
      · rw [Array.getElem?_setIfInBounds_self_of_lt inside] at hy
        cases hy
        exact h g hg
      · rw [Array.getElem?_eq_none (by simpa using inside)] at hy
        cases hy
    · rw [Array.getElem?_setIfInBounds_ne same] at hy
      exact m.each j g y hg hy

/-- Something is known of every object. -/
theorem known_of (m : Tallies R known objects) {i : Nat} {x : α} (h : objects[i]? = some x) :
    ∃ g, known[i]? = some g ∧ R g x := by
  have inside : i < known.size := m.size ▸ (Array.getElem?_eq_some_iff.1 h).1
  exact ⟨known[i], Array.getElem?_eq_getElem inside, m.each i _ x (Array.getElem?_eq_getElem inside) h⟩

end Tallies

/-! ## Stores, registries, threads and machines -/

/-- The values lie below the types, place by place. -/
def FieldsIn (fields : Array Value) (ts : List Ty) : Prop :=
  List.Forall₂ (fun (v : Value) t => v.isa t = true) fields.toList ts

/-- All values of a store are what their types say, and the objects hold what they are known to. -/
structure Store.Typed (W : World) (s : Store) : Prop where
  all : s.All (·.Typed W)
  lists : Tallies (fun item items => ∀ v ∈ items, Value.isa v item = true) W.lists s.lists
  tables : Tallies (fun types entries => ∀ e ∈ entries, Value.isa e.1 types.1 = true ∧
    Value.isa e.2 types.2 = true) W.tables s.tables
  pairs : Tallies (fun types sides => (sides.1.ty, sides.2.ty) = types) W.pairs s.pairs
  structs : Tallies (fun t fields => ∃ ts, W.records t.id = some ts ∧ FieldsIn fields ts)
    W.structs s.structs
  iters : Tallies (fun item cell => cell.Gives W item) W.iters s.iters

/-- The types of a registry are those of the world, and its functions ask what they need. No value is
converted. -/
structure Registry.Typed (W : World) (r : Registry) : Prop where
  sound : r.Sound Ty.IsRecord
  knows : ∀ t, W.knows t ↔ r.Knows t
  imps : ∀ imp, r.Registered imp → imp.Typed W
  convs : r.convs = ∅
  records : ∀ id ts, W.records id = some ts → id < r.nextId
  makers : ∀ id ts, W.records id = some ts → ∃ imp t, r.Registered imp ∧ t.id = id ∧
    imp.body = .native (.construct t ts.length) ∧ imp.args = ts.map .type ++ [.pred (.isType id)]

/-- All values of a thread are what their types say. -/
structure Thread.Typed (W : World) (t : Thread) : Prop where
  all : t.All (·.Typed W)
  cache : t.cache.All (·.Typed W)

/-- All values of a machine are what their types say. -/
structure Machine.Typed (W : World) (m : Machine) : Prop where
  registry : m.shared.registry.Typed W
  store : m.shared.store.Typed W
  thread : m.thread.Typed W

theorem Thread.Typed.mono {t : Thread} (le : W ≤ W') (h : t.Typed W) : t.Typed W' :=
  ⟨h.all.mono fun _ v => v.mono le, h.cache.mono fun _ imp => imp.mono le⟩

/-- A registry is in step with a later world that knows the same types. -/
theorem Registry.Typed.later {r : Registry} (le : W ≤ W') (h : r.Typed W)
    (knows : W'.knows = W.knows) (records : W'.records = W.records) : r.Typed W' where
  sound := h.sound
  knows t := knows ▸ h.knows t
  imps imp known := (h.imps imp known).mono le
  convs := h.convs
  records id ts found := h.records id ts (records ▸ found)
  makers id ts found := h.makers id ts (records ▸ found)

/-- A store is in step with a later world that knows of the same objects. -/
theorem Store.Typed.later {s : Store} (le : W ≤ W') (h : s.Typed W) (lists : W'.lists = W.lists)
    (tables : W'.tables = W.tables) (pairs : W'.pairs = W.pairs) (structs : W'.structs = W.structs)
    (iters : W'.iters = W.iters) : s.Typed W' where
  all := h.all.mono fun _ v => v.mono le
  lists := lists ▸ h.lists
  tables := tables ▸ h.tables
  pairs := pairs ▸ h.pairs
  structs := structs ▸ h.structs.mono fun _ _ ⟨ts, found, fields⟩ => ⟨ts, le.records _ ts found, fields⟩
  iters := iters ▸ h.iters.mono fun _ _ gives => gives.mono le

/-! ## New objects -/

namespace Store.Typed

variable {s : Store}

theorem addList {item : Ty} {items : Array Value} (h : s.Typed W)
    (typed : ∀ v ∈ items, v.Typed W ∧ v.isa item = true) :
    Store.Typed { W with lists := W.lists.push item } { s with lists := s.lists.push items } := by
  have le := W.le_addList item
  have all : s.All (·.Typed { W with lists := W.lists.push item }) := h.all.mono fun _ v => v.mono le
  exact {
    all := { all with
      lists := Values.pushed all.lists fun v member => (typed v member).1.mono le }
    lists := h.lists.push fun v member => (typed v member).2
    tables := h.tables
    pairs := h.pairs
    structs := h.structs
    iters := h.iters.mono fun _ _ gives => gives.mono le }

theorem addTable {k v : Ty} {entries : Table} (h : s.Typed W)
    (typed : ∀ e ∈ entries, (e.1.Typed W ∧ e.2.Typed W) ∧ e.1.isa k = true ∧ e.2.isa v = true) :
    Store.Typed { W with tables := W.tables.push (k, v) } { s with tables := s.tables.push entries } := by
  have le := W.le_addTable (k, v)
  have all : s.All (·.Typed { W with tables := W.tables.push (k, v) }) :=
    h.all.mono fun _ v => v.mono le
  exact {
    all := { all with
      tables := Values.pushed all.tables fun e member =>
        (typed e member).1.imp (fun v => v.mono le) fun v => v.mono le }
    lists := h.lists
    tables := h.tables.push fun e member => (typed e member).2
    pairs := h.pairs
    structs := h.structs
    iters := h.iters.mono fun _ _ gives => gives.mono le }

theorem addPair {left right : Value} (h : s.Typed W) (hl : left.Typed W) (hr : right.Typed W) :
    Store.Typed { W with pairs := W.pairs.push (left.ty, right.ty) }
      { s with pairs := s.pairs.push (left, right) } := by
  have le := W.le_addPair (left.ty, right.ty)
  have all : s.All (·.Typed { W with pairs := W.pairs.push (left.ty, right.ty) }) :=
    h.all.mono fun _ v => v.mono le
  exact {
    all := { all with pairs := Values.pushed all.pairs ⟨hl.mono le, hr.mono le⟩ }
    lists := h.lists
    tables := h.tables
    pairs := h.pairs.push rfl
    structs := h.structs
    iters := h.iters.mono fun _ _ gives => gives.mono le }

theorem addStruct {t : Ty} {fields : Array Value} {ts : List Ty} (h : s.Typed W)
    (found : W.records t.id = some ts) (typed : ∀ v ∈ fields, v.Typed W) (below : FieldsIn fields ts) :
    Store.Typed { W with structs := W.structs.push t } { s with structs := s.structs.push fields } := by
  have le := W.le_addStruct t
  have all : s.All (·.Typed { W with structs := W.structs.push t }) := h.all.mono fun _ v => v.mono le
  exact {
    all := { all with structs := Values.pushed all.structs fun v member => (typed v member).mono le }
    lists := h.lists
    tables := h.tables
    pairs := h.pairs
    structs := h.structs.push ⟨ts, found, below⟩
    iters := h.iters.mono fun _ _ gives => gives.mono le }

theorem addIter {item : Ty} {it : Iterator} (h : s.Typed W) (typed : it.All (·.Typed W))
    (gives : it.Gives W item) :
    Store.Typed { W with iters := W.iters.push item } { s with iters := s.iters.push (.ready it) } := by
  have le := W.le_addIter item
  have all : s.All (·.Typed { W with iters := W.iters.push item }) := h.all.mono fun _ v => v.mono le
  exact {
    all := { all with iters := Values.pushed all.iters (Iterator.All.mono (fun _ v => v.mono le) typed) }
    lists := h.lists
    tables := h.tables
    pairs := h.pairs
    structs := h.structs
    iters := (h.iters.mono fun _ _ gives => gives.mono le).push (Iterator.Gives.mono le gives) }

end Store.Typed

end Catena
