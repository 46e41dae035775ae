import Catena.Proofs.Layout.Compiled
import Catena.Proofs.Typing.Units

/-!
# Collections hold what their types say

Lists and iterators are shared and go on changing, while a type stays with its value for good. Still,
whatever a program does, no list comes to hold an item that its type does not allow, and so for
tables, pairs, structures and what iterators give, as long as the program defines no conversion and no
structure with the name of an instance.
-/

namespace Catena

variable {W : World} {m n p : Machine}

/-! ## What is reached -/

/-- The machine has the value: what is true of all its values is true of this one. -/
def Machine.Has (m : Machine) (v : Value) : Prop :=
  ∀ A : Value → Prop, m.All A → A v

/-- The machines that an engine comes to from another one when nothing is compiled that is not plain
and the embedding program adds no function. Runs may have been left anywhere, also inside operations:
there values that are at hand may be put on the stack and called, and iterators pulled, one inside the
pull of another, as the library does. -/
inductive Machine.Leads (m : Machine) : Machine → Prop
  | start : Leads m m
  | compile {n : Machine} (text : String) : Leads m n →
      ((Run.compile text).after n).shared.registry.Plain → Leads m ((Run.compile text).after n)
  | allow {n : Machine} (safety : Safety) : Leads m n →
      Leads m { n with thread := n.thread.setRootSafety safety }
  | goTo {n : Machine} (pc : Nat) : Leads m n → Leads m { n with thread := { n.thread with pc } }
  | run {n : Machine} (w : Watch) (stop : Nat) : Leads m n → Leads m ((w.runUntil stop).after n)
  | fork {n : Machine} (id : Nat) : Leads m n → Leads m { n with thread := n.thread.fork id }
  /-- Values take the place of those on the stack in use. -/
  | stack {n : Machine} (values : Array Value) : Leads m n → (∀ v ∈ values, n.Has v) →
      Leads m { n with thread := n.thread.modifyStack fun _ => values }
  | call {n : Machine} (w : Watch) (depth : Nat) (target : Value) (args : List Value) : Leads m n →
      (∀ v ∈ args, n.Has v) → Leads m (((w.reentry depth).call target args).after n)
  | thread {n : Machine} (w : Watch) (depth : Nat) (target : Value) : Leads m n →
      Leads m (((w.reentry depth).runThread target).after n)
  /-- An iterator is pulled, and its item put on the stack. -/
  | pull {n p : Machine} (w : Watch) (depth : Nat) (i : Ref) {v : Value} : Leads m n →
      Run.pull (w.reentry depth) i n = .ok (.item v) p →
      Leads m { p with thread := p.thread.push v }
  /-- A pull gives nothing, or is left. -/
  | await {n : Machine} (w : Watch) (depth : Nat) (i : Ref) : Leads m n →
      Leads m ((Run.pull (w.reentry depth) i).after n)
  /-- An iterator is in the middle of a pull. -/
  | busy {n : Machine} (i : Ref) : Leads m n → Leads m ((Run.setIter i .busy).after n)

/-! ## What values hold -/

/-- The implementation makes the values of a structure type from values of the types of its fields, as
it was declared. -/
structure Imp.Declares (imp : Imp) (t : Ty) (ts : List Ty) : Prop where
  body : imp.body = .native (.construct t ts.length)
  args : imp.args = ts.map .type ++ [.pred (.isType t.id)]

/-- What a value of the type holds, now or from now on. -/
def Payload.Holds (m : Machine) (t : Ty) : Payload → Prop
  | .list r => ∃ items item, m.shared.store.lists[r]? = some items ∧ t.Of .list [item] ∧
      ∀ v ∈ items, Value.isa v item = true
  | .table r => ∃ entries k v, m.shared.store.tables[r]? = some entries ∧ t.Of .table [k, v] ∧
      ∀ e ∈ entries, Value.isa e.1 k = true ∧ Value.isa e.2 v = true
  | .pair r => ∃ left right, m.shared.store.pairs[r]? = some (left, right) ∧
      t.Of .pair [left.ty, right.ty]
  | .struct r => ∃ fields ts, m.shared.store.structs[r]? = some fields ∧ FieldsIn fields ts ∧
      (∃ imp, m.shared.registry.Registered imp ∧ imp.Declares t ts) ∧
      ∀ imp us, m.shared.registry.Registered imp → imp.Declares t us → us = ts
  | .iter i => ∃ item, t.Of .iter [item] ∧ ∀ n, m.Leads n → ∀ (w : Watch) depth v,
      (Run.pull (w.reentry depth) i).answer? n = some (.item v) → v.isa item = true
  | _ => True

/-! ## Preservation -/

/-- All values of the machine are what their types say, in a world, and its forms are the built-in
ones. -/
structure Machine.Plain (W : World) (m : Machine) : Prop where
  typed : m.Typed W
  standard : m.shared.registry.Standard

namespace Machine.Plain

theorem all (h : m.Plain W) : m.All (·.Typed W) where
  thread := h.typed.thread.all
  store := h.typed.store.all
  convs := by
    rw [h.typed.registry.convs]
    exact Dict.All.empty

theorem has (h : m.Plain W) {v : Value} (there : m.Has v) : v.Typed W := there _ h.all

/-- A computation that respects the types of values keeps the machine plain. -/
theorem run {α : Type} (h : m.Plain W) {x : Run α} {P : World → α → Prop} (respects : Run.Respects W x P)
    (makes : Run.Makes (Deeds False) x) : ∃ W', W ≤ W' ∧ (x.after m).Plain W' := by
  obtain ⟨W', le, typed, -⟩ := respects.at h.typed
  exact ⟨W', le, typed, (makes m).changes.grown.standard h.standard⟩

theorem thread (h : m.Plain W) {t : Thread} (typed : t.Typed W) :
    Machine.Plain W { m with thread := t } :=
  ⟨{ h.typed with thread := typed }, h.standard⟩

theorem modifyStack (h : m.Plain W) {f : Array Value → Array Value}
    (typed : ∀ s, (∀ v ∈ s, Value.Typed W v) → ∀ v ∈ f s, Value.Typed W v) :
    Machine.Plain W { m with thread := m.thread.modifyStack f } := by
  refine h.thread ⟨h.typed.thread.all.modifyStack typed, ?_⟩
  have cache : (m.thread.modifyStack f).cache = m.thread.cache := by
    unfold Thread.modifyStack
    split <;> rfl
  exact cache ▸ h.typed.thread.cache

end Machine.Plain

/-- The values stay what their types say, and what is known of the objects stays known. -/
theorem Machine.Leads.plain (leads : m.Leads n) (h : m.Plain W) : ∃ W', W ≤ W' ∧ n.Plain W' := by
  induction leads with
  | start => exact ⟨W, W.le_refl, h⟩
  | @compile n text _ plain ih =>
    obtain ⟨W', le, h'⟩ := ih
    obtain ⟨W'', le', typed⟩ := Run.typed_compile h'.typed h'.standard plain
    refine ⟨W'', World.le_trans le le', typed, ?_⟩
    have changes : Changes False n _ := Run.makes_compile text n
    exact changes.grown.standard h'.standard
  | allow safety _ ih =>
    obtain ⟨W', le, h'⟩ := ih
    exact ⟨W', le, h'.thread ⟨h'.typed.thread.all.setRootSafety safety, h'.typed.thread.cache⟩⟩
  | goTo pc _ ih =>
    obtain ⟨W', le, h'⟩ := ih
    exact ⟨W', le, h'.thread ⟨{ h'.typed.thread.all with }, h'.typed.thread.cache⟩⟩
  | run w stop _ ih =>
    obtain ⟨W', le, h'⟩ := ih
    obtain ⟨W'', le', h''⟩ := h'.run (w.respects_runUntil stop) (Watch.makes_runUntil False.elim stop)
    exact ⟨W'', World.le_trans le le', h''⟩
  | fork id _ ih =>
    obtain ⟨W', le, h'⟩ := ih
    exact ⟨W', le, h'.thread ⟨h'.typed.thread.all.fork id, .empty⟩⟩
  | stack values _ there ih =>
    obtain ⟨W', le, h'⟩ := ih
    exact ⟨W', le, h'.modifyStack fun _ _ v member => h'.has (there v member)⟩
  | call w depth target args _ there ih =>
    obtain ⟨W', le, h'⟩ := ih
    have makes : (w.reentry depth).Makes False := w.makes_reentry False.elim depth
    obtain ⟨W'', le', h''⟩ := h'.run ((w.typed_reentry depth).call W' target args fun v member =>
      h'.has (there v member)) (makes.call target args)
    exact ⟨W'', World.le_trans le le', h''⟩
  | thread w depth target _ ih =>
    obtain ⟨W', le, h'⟩ := ih
    have makes : (w.reentry depth).Makes False := w.makes_reentry False.elim depth
    obtain ⟨W'', le', h''⟩ := h'.run ((w.typed_reentry depth).runThread W' target)
      (makes.runThread target)
    exact ⟨W'', World.le_trans le le', h''⟩
  | @pull n p w depth i v _ gave ih =>
    obtain ⟨W', le, h'⟩ := ih
    have makes : (w.reentry depth).Makes False := w.makes_reentry False.elim depth
    obtain ⟨W'', le', typed, told⟩ := (Run.respects_pull (w.typed_reentry depth) i).at h'.typed
    rw [Run.after_ok gave] at typed
    have grown := ((Run.flat_pull i).makes makes n).changes.grown
    rw [Run.after_ok gave] at grown
    have h'' : Machine.Plain W'' p := ⟨typed, grown.standard h'.standard⟩
    have item : Value.Typed W'' v := (told (.item v) (by rw [Run.answer?, gave])).1
    exact ⟨W'', World.le_trans le le', h''.modifyStack fun _ old => Values.pushed old item⟩
  | await w depth i _ ih =>
    obtain ⟨W', le, h'⟩ := ih
    have makes : (w.reentry depth).Makes False := w.makes_reentry False.elim depth
    obtain ⟨W'', le', h''⟩ := h'.run (Run.respects_pull (w.typed_reentry depth) i)
      ((Run.flat_pull i).makes makes)
    exact ⟨W'', World.le_trans le le', h''⟩
  | busy i _ ih =>
    obtain ⟨W', le, h'⟩ := ih
    have respects : Run.Respects W' (Run.setIter i .busy) Run.Anything :=
      .alterStore fun _ _ _ store =>
        { store with
          all := { store.all with iters := Values.set store.all.iters trivial }
          iters := store.iters.set fun _ _ => trivial }
    obtain ⟨W'', le', typed, -⟩ := respects.at h'.typed
    exact ⟨W'', World.le_trans le le', typed, h'.standard⟩

theorem Tallies.object_of {γ α : Type} {R : γ → α → Prop} {known : Array γ} {objects : Array α}
    (h : Tallies R known objects) {i : Nat} {g : γ} (found : known[i]? = some g) :
    ∃ x, objects[i]? = some x ∧ R g x := by
  have inside : i < objects.size := h.size ▸ (Array.getElem?_eq_some_iff.1 found).1
  exact ⟨objects[i], Array.getElem?_eq_getElem inside,
    h.each i g _ found (Array.getElem?_eq_getElem inside)⟩

/-- The field types of a structure type are those that its constructor asks for. -/
theorem Registry.Typed.declares {r : Registry} (h : r.Typed W) {t : Ty} {ts : List Ty}
    (record : W.Record t) (found : W.records t.id = some ts) :
    (∃ imp, r.Registered imp ∧ imp.Declares t ts) ∧
      ∀ imp us, r.Registered imp → imp.Declares t us → us = ts := by
  constructor
  · obtain ⟨imp, t', known, id, body, args⟩ := h.makers t.id ts found
    obtain ⟨-, record', -⟩ := h.imps imp known _ body
    obtain rfl : t' = t := h.sound.apart t' t ((h.knows _).1 record'.valued.1)
      ((h.knows _).1 record.valued.1) id
    exact ⟨imp, known, body, args⟩
  · intro imp us known declares
    obtain ⟨ts', -, found', -, args⟩ := h.imps imp known _ declares.body
    obtain rfl : ts = ts' := Option.some.inj (found.symm.trans found')
    have same : us.map Arg.type = ts.map Arg.type :=
      List.append_cancel_right (declares.args.symm.trans args)
    exact List.map_injective_iff.2 (fun _ _ eq => Arg.type.inj eq) same

/-- What a value holds is what its type says. -/
theorem Machine.Plain.holds (h : m.Plain W) {v : Value} (typed : v.Typed W) :
    v.payload.Holds m v.ty := by
  have fits := typed.fits
  have store := h.typed.store
  cases is : v.payload with
  | list r =>
    rw [is] at fits
    obtain ⟨item, known, of⟩ := fits
    obtain ⟨items, there, below⟩ := store.lists.object_of known
    exact ⟨items, item, there, of, below⟩
  | table r =>
    rw [is] at fits
    obtain ⟨k, w, known, of⟩ := fits
    obtain ⟨entries, there, below⟩ := store.tables.object_of known
    exact ⟨entries, k, w, there, of, below⟩
  | pair r =>
    rw [is] at fits
    obtain ⟨a, b, known, of⟩ := fits
    obtain ⟨⟨left, right⟩, there, same⟩ := store.pairs.object_of known
    cases same
    exact ⟨left, right, there, of⟩
  | struct r =>
    rw [is] at fits
    obtain ⟨known, record⟩ := fits
    obtain ⟨fields, there, ts, found, below⟩ := store.structs.object_of known
    exact ⟨fields, ts, there, below, h.typed.registry.declares record found⟩
  | iter i =>
    rw [is] at fits
    obtain ⟨item, known, of⟩ := fits
    refine ⟨item, of, fun n leads w depth u gave => ?_⟩
    obtain ⟨W', le, later⟩ := leads.plain h
    obtain ⟨_, _, _, told⟩ := (Run.respects_pull (w.typed_reentry depth) i).at later.typed
    exact (told _ gave).2 item (le.iters i item known)
  | _ => trivial

/-- In every machine that a new engine comes to, and among all its values, every list is of a type
`List<T>` and its items are below `T`, every table is of a type `Table<K,V>` and its keys and values are
below `K` and `V`, every pair is of the type of its two sides, the fields of every structure are below
the types they were declared with, and every iterator is of a type `Iter<T>` and will only ever give
items below `T`. -/
theorem Machine.Leads.collections_hold (config : Config) (log : Log.Logger) (host : Host)
    (leads : (Engine.new config log host).Leads m) : m.All fun v => v.payload.Holds m v.ty := by
  have new : (Engine.new config log host).Plain World.start :=
    ⟨typed_new config log host, (new_drift config log host).registry.standard bootRegistry_standard⟩
  obtain ⟨W, -, plain⟩ := leads.plain new
  exact plain.all.mono fun v typed => plain.holds typed

/-- A machine that has compiled a structure, a list of two of them, and an iterator over that. -/
def Machine.gathering : Machine :=
  (Run.compile "struct: P x; 1 P new 2 P new stash dup iter").after (Engine.new {} .silent {})

/-- Whether there are no conversions, and no structure has the name of an instance. -/
def Registry.isPlain (r : Registry) : Bool :=
  r.convs.entries.isEmpty && r.types.entries.all fun e =>
    match e.2.behavior with
    | .record .. => e.2.name.toList.all TypeExpr.isNameChar
    | _ => true

theorem Registry.plain_of_isPlain {r : Registry} (h : r.isPlain = true) : r.Plain := by
  obtain ⟨convs, names⟩ := Bool.and_eq_true_iff.1 h
  constructor
  · cases same : r.convs with
    | mk entries =>
      rw [same] at convs
      exact congrArg Dict.mk (List.isEmpty_iff.1 convs)
  · intro t known record
    obtain ⟨-, name, fields, behavior⟩ := record
    have fine := List.all_eq_true.1 names _ (Dict.All.lookup_mem known)
    rw [behavior] at fine
    exact List.all_eq_true.1 fine

theorem Machine.Leads.collections_hold_gathered :
    (Engine.new {} .silent {}).Leads ((Watch.idle.runUntil 100).after .gathering) ∧
      ((Watch.idle.runUntil 100).after .gathering).shared.store.lists.size = 1 ∧
      ((Watch.idle.runUntil 100).after .gathering).All fun v =>
        v.payload.Holds ((Watch.idle.runUntil 100).after .gathering) v.ty := by
  have plain : Machine.gathering.shared.registry.isPlain = true := by decide +kernel
  have leads : (Engine.new {} .silent {}).Leads ((Watch.idle.runUntil 100).after .gathering) :=
    .run .idle 100 (.compile _ .start (Registry.plain_of_isPlain plain))
  exact ⟨leads, by decide +kernel, Machine.Leads.collections_hold {} .silent {} leads⟩

end Catena
