import Catena.Proofs.Control.Runs
import Catena.Proofs.Layout.Compiled
import Catena.Proofs.Typing.Units

/-!
# More operations

A text that puts no label is compiled to operations behind those there are, and the machine is orderly
for all of them together (`Machine.Orderly.compile`). What was right for a place among the operations
there were is right for it still.
-/

namespace Catena

variable {ops unit : List Op}

/-! ## What is left in the middle -/

theorem Seat.Loops.append {allowed : Nat → Prop} {s : Seat} (h : s.Loops ops allowed) (unit : List Op) :
    s.Loops (ops ++ unit) allowed := by
  intro k st found
  obtain ⟨done, ⟨op, there, isLoop⟩, known⟩ := h k st found
  have inside := (List.getElem?_eq_some_iff.1 there).1
  exact ⟨done, ⟨op, by rw [List.getElem?_append_left inside, there], isLoop⟩, known⟩

theorem Seated.append {x : Nat} {seats : List Seat} {frames : List TryFrame}
    (h : Seated ops .cut x seats frames) (balanced : Balanced ops) (unit : List Op) :
    Seated (ops ++ unit) .cut x seats frames := by
  induction h with
  | ground size _ _ low => exact .ground size trivial False.elim low
  | @scope x p y op s seats above frames inside found opens loops runs below ih =>
    have lt : x < ops.length := by
      by_contra behind
      rw [balanced.around_end (Nat.le_of_not_lt behind)] at inside
      cases inside
    have before := (around_below inside).1
    have inside' : around (ops ++ unit) x = p :: around (ops ++ unit) p := by
      rw [around_append (Nat.le_of_lt lt), around_append (by omega), inside]
    have found' : (ops ++ unit)[p]? = some op := by
      rw [List.getElem?_append_left (by omega), found]
    exact .scope inside' found' opens (loops.append unit)
      (fun _ _ => .inr (.inr ⟨0, 0, Nat.le_refl 0, rfl⟩)) ih

theorem Coroutine.Orderly.append {c : Coroutine} (h : c.Orderly ops) (balanced : Balanced ops)
    (unit : List Op) : c.Orderly (ops ++ unit) :=
  ⟨h.linked, h.seated.append balanced unit⟩

/-! ## What is shared -/

theorem mem_bodies_append {body : LambdaDef} (known : body ∈ bodies ops) (unit : List Op) :
    body ∈ bodies (ops ++ unit) := by
  rw [bodies_append]
  exact List.mem_append_left _ known

theorem Imp.Plain.append {imp : Imp} (h : imp.Plain ops) (unit : List Op) : imp.Plain (ops ++ unit) := by
  rw [Imp.Plain] at h ⊢
  cases body : imp.body with
  | native f =>
    rw [body] at h
    exact h
  | lambda def_ =>
    rw [body] at h
    exact mem_bodies_append h unit

theorem Store.Orderly.append {s : Store} (h : s.Orderly ops) (balanced : Balanced ops) (unit : List Op) :
    s.Orderly (ops ++ unit) where
  all := h.all
  closures c member := mem_bodies_append (h.closures c member) unit
  fibers f member c left := (h.fibers f member c left).append balanced unit

theorem Registry.Orderly.append {r : Registry} (h : r.Orderly ops) (unit : List Op) :
    r.Orderly (ops ++ unit) where
  labels := h.labels
  imps imp known := (h.imps imp known).append unit
  convs := h.convs

theorem Registry.Orderly.gains {r r' : Registry} (h : r.Orderly ops) (gains : r.Gains r') :
    r'.Orderly ops where
  labels := gains.unlabelled h.labels
  imps imp known := by
    rcases gains.imps imp known with old | ⟨f, is, own⟩
    · exact h.imps imp old
    · rw [Imp.Plain, is]
      exact .of_own own
  convs := by
    rw [gains.convs]
    exact h.convs

theorem Registry.Orderly.addImp {r : Registry} (h : r.Orderly ops) (name : String) (args : List Arg)
    (safety : Safety) {body : Body} (plain : ∀ imp : Imp, imp.body = body → imp.Plain ops) :
    (r.addImp name args safety body).2.Orderly ops where
  labels := h.labels
  imps imp known := by
    rcases (r.registered_addImp name args safety body imp).1 known with rfl | old
    · exact plain _ rfl
    · exact h.imps imp old
  convs := h.convs

theorem Registry.Orderly.addConv {r : Registry} (h : r.Orderly ops) (source target : Ty) {f : Value}
    (tame : f.Tame) : (r.addConv source target f).Orderly ops :=
  ⟨h.labels, h.imps, h.convs.insert tame⟩

theorem Machine.Orderly.gains {m : Machine} (h : m.Orderly ops) {s : Shared} (gains : m.shared.Gains s) :
    Machine.Orderly ops { m with shared := s } :=
  { h with
    store := gains.store ▸ h.store
    registry := h.registry.gains gains.registry }

/-- A function becomes known. -/
theorem Machine.Orderly.addImp {m : Machine} (h : m.Orderly ops) (name : String) (args : List Arg)
    (safety : Safety) {body : Body} (plain : ∀ imp : Imp, imp.body = body → imp.Plain ops) :
    Machine.Orderly ops { m with shared := (m.shared.addImp name args safety body).2 } := by
  have added := h.registry.addImp name args safety plain
  let s := { m.shared with registry := (m.shared.registry.addImp name args safety body).2 }
  let said (_ : Unit) := s!"registered {(m.shared.registry.addImp name args safety body).1.text}"
  exact { h with
    store := Run.note_store s .debug Phase.vm.target said none ▸ h.store
    registry := Run.note_registry s .debug Phase.vm.target said none ▸ added }

/-! ## A unit -/

theorem Machine.Orderly.append {m : Machine} (h : m.Orderly ops) (paved : Paved (ops ++ unit))
    (pushed : Pushed Value.Tame unit) :
    Machine.Orderly (ops ++ unit)
      { m with thread := { m.thread with ops := m.thread.ops ++ unit.toArray } } where
  paved := paved
  store := h.store.append h.paved.balanced unit
  registry := h.registry.append unit
  thread := by
    have thread := h.thread
    have all : ∀ op ∈ m.thread.ops ++ unit.toArray, op.All Value.Tame := by
      intro op member
      rcases Array.mem_append.1 member with old | new
      · exact thread.all.ops op old
      · exact pushed op (List.mem_toArray.1 new)
    constructor
    · exact ⟨thread.linked.linked, thread.linked.called⟩
    · exact thread.rooted
    · exact { thread.all with ops := all }
    · exact fun pc imp found => (thread.cache pc imp found).append unit
    · exact fun id c found => (thread.coros id c found).append h.paved.balanced unit
    · rw [Array.toList_append, thread.ops]

namespace Run

theorem stable_defineFuncs {funcs : List PendingFunc} (known : ∀ f ∈ funcs, f.body ∈ bodies ops) :
    Stable ops (defineFuncs funcs) Untold := by
  induction funcs with
  | nil => exact .done ()
  | cons f fs ih =>
    apply Stable.seq (P := Untold)
    · intro m orderly
      have body := known f List.mem_cons_self
      have plain (imp : Imp) (is : imp.body = .lambda f.body) : imp.Plain ops := by
        rw [Imp.Plain, is]
        exact body
      exact .of_ok rfl ⟨⟨orderly.addImp f.name f.args f.safety plain, .refl _⟩, trivial⟩
    · exact fun _ => ih fun g member => known g (List.mem_cons_of_mem f member)

theorem stable_defineConvs {convs : List PendingConv} (known : ∀ c ∈ convs, c.body ∈ bodies ops) :
    Stable ops (defineConvs convs) Untold := by
  induction convs with
  | nil => exact .done ()
  | cons c cs ih =>
    apply (stable_newClosure (known c List.mem_cons_self) Dict.All.empty).bind
    intro f tame
    apply Stable.seq (P := Untold)
    · intro m orderly
      let said (_ : Unit) := s!"registered conversion {c.source.name} -> {c.target.name}"
      have noted : (m.shared.note .debug Phase.vm.target said).registry.Orderly ops :=
        note_registry m.shared .debug Phase.vm.target said none ▸ orderly.registry
      have orderly' : Machine.Orderly ops { m with shared := m.shared.addConv c.source c.target f } :=
        { orderly with
          store := note_store m.shared .debug Phase.vm.target said none ▸ orderly.store
          registry := noted.addConv c.source c.target tame }
      exact .of_ok rfl ⟨⟨orderly', .refl _⟩, trivial⟩
    · exact fun _ => ih fun d member => known d (List.mem_cons_of_mem c member)

/-- Makes known what a unit defines. Answers where its operations begin. -/
def makeKnown (code : Code) (base : Nat) : Run Nat := do
  defineFuncs code.funcs
  defineConvs code.convs
  let (id, size) ← ask fun t => (t.id, t.ops.size)
  note .debug fun _ => s!"thread {id} now has {size} ops"
  return base

theorem stable_makeKnown {code : Code} (known : ∀ b ∈ code.pending, b ∈ bodies ops) (base : Nat) :
    Stable ops (makeKnown code base) (· = base) := by
  have funcs (f : PendingFunc) (member : f ∈ code.funcs) :=
    known f.body (List.mem_append_left _ (List.mem_map_of_mem member))
  have convs (c : PendingConv) (member : c ∈ code.convs) :=
    known c.body (List.mem_append_right _ (List.mem_map_of_mem member))
  apply (stable_defineFuncs funcs).seq
  intro _
  apply (stable_defineConvs convs).seq
  intro _
  apply (Stable.asked _).seq
  intro _
  exact (stable_note _ _).seq fun _ => .pure rfl

theorem makeKnown_ok (code : Code) (base : Nat) (m : Machine) :
    ∃ n, makeKnown code base m = .ok base n := by
  have convs (cs : List PendingConv) (m : Machine) : ∃ n, defineConvs cs m = .ok () n := by
    induction cs generalizing m with
    | nil => exact ⟨m, rfl⟩
    | cons c cs ih => exact ih _
  obtain ⟨n, funcs⟩ := defineFuncs_ok code.funcs m
  obtain ⟨p, convs⟩ := convs code.convs n
  rw [makeKnown, bind_apply, funcs]
  dsimp only
  rw [bind_apply, convs]
  exact ⟨_, rfl⟩

/-- A text that puts no label adds a unit behind the operations there are, or nothing at all. -/
theorem compile_extends {m : Machine} (orderly : m.Orderly ops) (ready : m.shared.registry.Ready)
    {text : String} (quiet : Unlabelled text) :
    ∃ unit, Machine.Remains (ops ++ unit)
        { m with thread := { m.thread with ops := m.thread.ops ++ unit.toArray } }
        ((compile text).after m) ∧
      ∀ base n, compile text m = .ok base n → base = ops.length := by
  have length : m.thread.ops.size = ops.length := by
    rw [← orderly.thread.ops, Array.length_toList]
  have gains : m.shared.Gains
      (Compile.after (Compile.source text m.thread.ops.size) { shared := m.shared }).shared :=
    Compile.gains_source ready.standard ready.labelled orderly.registry.labels quiet
  have asked : ask (·.ops.size) m = .ok m.thread.ops.size m := rfl
  cases made : Compile.source text m.thread.ops.size { shared := m.shared } with
  | error h c =>
    rw [Compile.after, made] at gains
    have failed : compile text m = .error h { m with shared := c.shared } := by
      rw [compile, bind_apply, asked]
      dsimp only
      rw [bind_apply, compileAt, made]
    refine ⟨[], ?_, fun base n ok => by rw [failed] at ok; cases ok⟩
    have none : m.thread.ops ++ ([] : List Op).toArray = m.thread.ops := Array.append_empty
    rw [after, failed, List.append_nil, none]
    exact ⟨orderly.gains gains, .refl _⟩
  | ok code c =>
    rw [Compile.after, made] at gains
    obtain ⟨layout, pending, pushed, jumps⟩ :=
      Compile.source_unlabelled ready.standard ready.labelled orderly.registry.labels quiet made
    rw [length] at layout
    have paved := orderly.paved.append layout jumps
    have extended := (orderly.gains gains).append paved pushed
    have known (b : LambdaDef) (member : b ∈ code.pending) : b ∈ bodies (ops ++ code.ops) := by
      rw [bodies_append]
      exact List.mem_append_right _ (pending b member)
    have added : compile text m = makeKnown code m.thread.ops.size
        { shared := c.shared, thread := { m.thread with ops := m.thread.ops ++ code.ops.toArray } } := by
      rw [compile, bind_apply, asked]
      dsimp only
      rw [bind_apply, compileAt, made]
      rfl
    obtain ⟨n, done⟩ := makeKnown_ok code m.thread.ops.size
      { shared := c.shared, thread := { m.thread with ops := m.thread.ops ++ code.ops.toArray } }
    have remains := ((stable_makeKnown known m.thread.ops.size _ extended).ok done).1
    refine ⟨code.ops, ?_, fun base p ok => ?_⟩
    · rw [after, added, done]
      exact ⟨remains.orderly, remains.still⟩
    · rw [added, done] at ok
      cases ok
      exact length

end Run

end Catena
