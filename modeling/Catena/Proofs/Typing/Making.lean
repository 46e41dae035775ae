import Catena.Proofs.Types.Join
import Catena.Proofs.Typing.Respects

/-!
# Making values

Every way to make a value gives one that is what its type says: collections get the instance of their
template for what they were made for, and the iterator over a value gives items of the type that the
value's own type says its items have.
-/

namespace Catena

variable {W : World}

/-! ## Item types -/

namespace Ty

/-- The values of an instance can do what those of its template can. -/
theorem behavior_of {D : Ty → Prop} {t template : Ty} (h : t.Formed D) (made : t.template = some template) :
    t.behavior = template.behavior := by
  cases h with
  | base _ none => rw [none] at made; cases made
  | declared none => rw [none] at made; cases made
  | inst of _ _ behavior =>
    obtain rfl := Option.some.inj (of.1.symm.trans made)
    exact behavior

theorem elem_int : int.elem = int := by
  rw [elem, if_pos (isa_refl int)]

theorem elem_str : str.elem = char := by
  have first : str.ancestors.find? (fun a => a.template.any fun raw => raw.id == seq.id) =
      some seqChar := by
    simp [ancestors, visit, str, simple, cmp, any, seqChar, seq, templateOf]
  rw [elem, if_neg (by decide +kernel), first]
  rfl

theorem elem_wstr : wstr.elem = wchar := by
  have first : wstr.ancestors.find? (fun a => a.template.any fun raw => raw.id == seq.id) =
      some seqWchar := by
    simp [ancestors, visit, wstr, simple, cmp, any, seqWchar, seq, templateOf]
  rw [elem, if_neg (by decide +kernel), first]
  rfl

theorem elem_bin : bin.elem = int := by
  have first : bin.ancestors.find? (fun a => a.template.any fun raw => raw.id == seq.id) =
      some seqInt := by
    simp [ancestors, visit, bin, simple, seqInt, seq, templateOf]
  rw [elem, if_neg (by decide +kernel), first]
  rfl

theorem elem_list (h : Universe fun t => W.knows t ∧ t.Plain) {t item : Ty} (valued : W.Valued t)
    (of : t.Of .list [item]) : t.elem = item := by
  obtain ⟨above, is, supers⟩ := instance_above (h.formed t valued) of.1
  rw [of.2] at is
  cases is with
  | list seq => exact h.elem_of_super valued of.1 (by decide) rfl supers seq

theorem elem_iter (h : Universe fun t => W.knows t ∧ t.Plain) {t item : Ty} (valued : W.Valued t)
    (of : t.Of .iter [item]) : t.elem = item := by
  obtain ⟨above, is, supers⟩ := instance_above (h.formed t valued) of.1
  rw [of.2] at is
  cases is with
  | iter seq => exact h.elem_of_super valued of.1 (by decide) rfl supers seq

theorem elem_table (h : Universe fun t => W.knows t ∧ t.Plain) {t k v : Ty} (valued : W.Valued t)
    (of : t.Of .table [k, v]) : t.elem.Of .pair [k, v] := by
  obtain ⟨above, is, supers⟩ := instance_above (h.formed t valued) of.1
  rw [of.2] at is
  cases is with
  | table entry seq =>
    rw [h.elem_of_super valued of.1 (by decide) rfl supers seq]
    exact entry

end Ty

/-! ## Instances of templates -/

/-- A registry to which only types are added is in step with the world that knows them. -/
theorem Registry.Typed.adds {r r' : Registry} (h : r.Typed W) (adds : r.Adds r') (sound : r'.Sound Ty.IsRecord) :
    W ≤ W.withTypes sound ∧ r'.Typed (W.withTypes sound) := by
  have le : W ≤ W.withTypes sound :=
    { W.le_refl with knows := fun t known => adds.grown.knows ((h.knows t).1 known) }
  constructor
  · exact le
  · constructor
    · exact sound
    · exact fun _ => Iff.rfl
    · intro imp known
      rw [Registry.Registered, adds.funcs] at known
      exact (h.imps imp known).mono le
    · rw [adds.convs, h.convs]
    · exact fun id ts found => Nat.lt_of_lt_of_le (h.records id ts found) adds.grown.ids
    · intro id ts found
      obtain ⟨imp, t, known, rest⟩ := h.makers id ts found
      exact ⟨imp, t, adds.grown.registered imp known, rest⟩

theorem Store.Typed.withTypes {s : Store} {r : Registry} (h : s.Typed W) {sound : r.Sound Ty.IsRecord}
    (le : W ≤ W.withTypes sound) : s.Typed (W.withTypes sound) :=
  h.later le rfl rfl rfl rfl rfl

/-- A machine whose registry comes to know more types. -/
theorem Machine.Typed.adds {m : Machine} {r : Registry} (h : m.Typed W) (adds : m.shared.registry.Adds r)
    (sound : r.Sound Ty.IsRecord) : W ≤ W.withTypes sound ∧
      Machine.Typed (W.withTypes sound) { m with shared := { m.shared with registry := r } } := by
  have registry := h.registry.adds adds sound
  exact ⟨registry.1, registry.2, h.store.withTypes registry.1, h.thread.mono registry.1⟩

namespace Run

theorem padArgs_full {template : Ty} {args : List Ty} (full : args.length = template.params) :
    Registry.padArgs template args = args := by
  simp [Registry.padArgs, full]

theorem respects_instantiate {template : Ty} {args : List Ty} (member : template ∈ Ty.templates)
    (other : template ≠ .opt) (full : args.length = template.params)
    (valued : ∀ a ∈ args, W.Valued a) :
    Respects W (instantiate template args) fun W' t => W'.Valued t ∧ t.Of template args := by
  intro W₁ m le typed
  cases made : m.shared.registry.instantiate template args with
  | error f =>
    refine .of_error (n := m) (e := .fault f) ?_ W₁.le_refl typed
    rw [instantiate, bind_apply, askShared, made]
    rfl
  | ok both =>
    obtain ⟨t, r⟩ := both
    have sound := typed.registry.sound
    have knows : ∀ a ∈ args, m.shared.registry.Knows a := fun a inside =>
      (typed.registry.knows a).1 (le.knows a (valued a inside).1)
    obtain ⟨sound', known, of⟩ :=
      sound.instantiate (sound.base _ (Ty.template_mem_builtins member)) knows made
    rw [padArgs_full full] at of
    obtain ⟨le', typed'⟩ := typed.adds (Registry.instantiate_adds made) sound'
    refine .of_ok ?_ le' typed' ⟨⟨known, ?_⟩, of⟩
    · rw [instantiate, bind_apply, askShared, made]
      rfl
    · exact sound'.plain_inst known of other fun a inside => (valued a inside).2

theorem respects_instantiateNamed {name : String} {args : List Ty} (known : ∀ a ∈ args, W.knows a) :
    Respects W (instantiateNamed name args) fun W' t => W'.knows t := by
  intro W₁ m le typed
  cases made : m.shared.registry.instantiateNamed name args with
  | error f =>
    refine .of_error (n := m) (e := .fault f) ?_ W₁.le_refl typed
    rw [instantiateNamed, bind_apply, askShared, made]
    rfl
  | ok both =>
    obtain ⟨t, r⟩ := both
    have knows : ∀ a ∈ args, m.shared.registry.Knows a := fun a inside =>
      (typed.registry.knows a).1 (le.knows a (known a inside))
    obtain ⟨sound', known'⟩ := typed.registry.sound.instantiateNamed knows made
    obtain ⟨le', typed'⟩ := typed.adds (Registry.instantiateNamed_adds made) sound'
    refine .of_ok ?_ le' typed' known'
    rw [instantiateNamed, bind_apply, askShared, made]
    rfl

/-! ## Objects of which nothing needs to be known -/

/-- An object is put into the store, and nothing is known of it. -/
theorem Respects.put {size : Store → Nat} {add : Store → Store}
    (h : ∀ W' s, W ≤ W' → s.Typed W' → (add s).Typed W') :
    Respects W (Run.alloc size add) Anything :=
  Respects.alloc fun W' s le typed => ⟨W', W'.le_refl, rfl, rfl, h W' s le typed, trivial⟩

theorem respects_newClosure {c : Closure} (h : c.env.All (·.Typed W)) :
    Respects W (newClosure c) fun W' v => v.Typed W' := by
  have puts : Respects W (Run.alloc (·.closures.size) fun s => { s with closures := s.closures.push c })
      Anything := .put fun W' s le typed => { typed with
        all := { typed.all with
          closures := Values.pushed typed.all.closures (h.mono fun _ v => v.mono le) } }
  exact puts.bind fun _ _ _ _ => .pure fun _ _ => typed_simple (by simp [Ty.builtins]) rfl

theorem respects_newBin (bytes : Array UInt8) :
    Respects W (newBin bytes) fun W' v => v.Typed W' ∧ v.ty = .bin := by
  have puts : Respects W (Run.alloc (·.bins.size) fun s => { s with bins := s.bins.push bytes })
      Anything := .put fun W' s le typed => { typed with all := { typed.all with } }
  exact puts.bind fun _ _ _ _ => .pure fun _ _ => ⟨typed_simple (by simp [Ty.builtins]) rfl, rfl⟩

theorem respects_newError (f : Fault) :
    Respects W (newError f) fun W' v => v.Typed W' ∧ v.ty = .error := by
  have puts : Respects W (Run.alloc (·.errors.size) fun s => { s with errors := s.errors.push f })
      Anything := .put fun W' s le typed => { typed with all := { typed.all with } }
  exact puts.bind fun _ _ _ _ => .pure fun _ _ => ⟨typed_simple (by simp [Ty.builtins]) rfl, rfl⟩

/-! ## Collections -/

theorem known_push {γ α : Type} {R : γ → α → Prop} {known : Array γ} {objects : Array α}
    (m : Tallies R known objects) (g : γ) : (known.push g)[objects.size]? = some g := by
  rw [← m.size, Array.getElem?_push_size]

theorem respects_newIter {it : Iterator} {item : Ty} (typed : it.All (·.Typed W))
    (gives : it.Gives W item) :
    Respects W (newIter it) fun W' r => W'.iters[r]? = some item := by
  refine .alloc fun W' s le store => ⟨_, W'.le_addIter item, rfl, rfl, ?_, known_push store.iters item⟩
  exact store.addIter (Iterator.All.mono (fun _ v => v.mono le) typed) (Iterator.Gives.mono le gives)

theorem respects_iterOf {iter : Ref} {item : Ty} (valued : W.Valued item)
    (known : W.iters[iter]? = some item) : Respects W (iterOf iter item) fun W' v => v.Typed W' := by
  refine (respects_instantiate (by simp [Ty.templates]) ?_ rfl (by simpa using valued)).bind
    fun _ t le told => ?_
  · exact fun same => absurd (congrArg Ty.id same) (by decide)
  · exact .pure fun _ le' =>
      ⟨told.1.mono le', item, (World.le_trans le le').iters iter item known, told.2⟩

theorem respects_listOf {items : Array Value} {item : Ty} (valued : W.Valued item)
    (typed : ∀ v ∈ items, v.Typed W ∧ v.isa item = true) :
    Respects W (listOf items item) fun W' v => v.Typed W' := by
  refine (respects_instantiate (by simp [Ty.templates]) ?_ rfl (by simpa using valued)).bind
    fun W₁ t le told => ?_
  · exact fun same => absurd (congrArg Ty.id same) (by decide)
  have allocates : Respects W₁ (alloc (·.lists.size) fun s => { s with lists := s.lists.push items })
      fun W' r => W'.lists[r]? = some item := by
    refine .alloc fun W' s le' store => ⟨_, W'.le_addList item, rfl, rfl, ?_, known_push store.lists item⟩
    exact store.addList fun v member =>
      ⟨(typed v member).1.mono (World.le_trans le le'), (typed v member).2⟩
  refine allocates.bind fun _ r le' known => .pure fun _ le'' => ?_
  exact ⟨told.1.mono (World.le_trans le' le''), item, le''.lists r item known, told.2⟩

theorem respects_tableOf {entries : Table} {k v : Ty} (key : W.Valued k) (value : W.Valued v)
    (typed : ∀ e ∈ entries, (e.1.Typed W ∧ e.2.Typed W) ∧ e.1.isa k = true ∧ e.2.isa v = true) :
    Respects W (tableOf entries k v) fun W' v => v.Typed W' := by
  refine (respects_instantiate (by simp [Ty.templates]) ?_ rfl (by simp [key, value])).bind
    fun W₁ t le told => ?_
  · exact fun same => absurd (congrArg Ty.id same) (by decide)
  have allocates : Respects W₁ (alloc (·.tables.size) fun s => { s with tables := s.tables.push entries })
      fun W' r => W'.tables[r]? = some (k, v) := by
    refine .alloc fun W' s le' store =>
      ⟨_, W'.le_addTable (k, v), rfl, rfl, ?_, known_push store.tables (k, v)⟩
    have later := World.le_trans le le'
    exact store.addTable fun e member =>
      ⟨(typed e member).1.imp (·.mono later) (·.mono later), (typed e member).2⟩
  refine allocates.bind fun _ r le' known => .pure fun _ le'' => ?_
  exact ⟨told.1.mono (World.le_trans le' le''), k, v, le''.tables r _ known, told.2⟩

/-- A pair is typed by exactly its two sides. -/
theorem respects_pairOf {left right : Value} (hl : left.Typed W) (hr : right.Typed W) :
    Respects W (pairOf left right) fun W' v => v.Typed W' ∧ v.ty.Of .pair [left.ty, right.ty] := by
  refine (respects_instantiate (by simp [Ty.templates]) ?_ rfl (by simp [hl.valued, hr.valued])).bind
    fun W₁ t le told => ?_
  · exact fun same => absurd (congrArg Ty.id same) (by decide)
  have allocates : Respects W₁
      (alloc (·.pairs.size) fun s => { s with pairs := s.pairs.push (left, right) })
      fun W' r => W'.pairs[r]? = some (left.ty, right.ty) := by
    refine .alloc fun W' s le' store => ⟨_, W'.le_addPair _, rfl, rfl, ?_, known_push store.pairs _⟩
    have later := World.le_trans le le'
    exact store.addPair (hl.mono later) (hr.mono later)
  refine allocates.bind fun _ r le' known => .pure fun _ le'' => ⟨?_, told.2⟩
  exact ⟨told.1.mono (World.le_trans le' le''), _, _, le''.pairs r _ known, told.2⟩

/-! ## Lists of what is at hand -/

theorem respects_listFrom {items : Array Value} (typed : ∀ v ∈ items, v.Typed W) :
    Respects W (listFrom items) fun W' v => v.Typed W' := by
  have valued : ∀ v ∈ items.toList, W.Valued v.ty := fun v member =>
    (typed v (by simpa using member)).valued
  have above := isa_itemType W.isUniverse valued
  exact respects_listOf above.1 fun v member => ⟨typed v member, above.2 v (by simpa using member)⟩

/-! ## Iterators over values -/

/-- The iterator over a value gives items of the type that the value's type says they have. -/
theorem respects_iterate {v : Value} (typed : v.Typed W) :
    Respects W (iterate v) fun W' r => W'.iters[r]? = some v.ty.elem := by
  obtain ⟨t, payload⟩ := v
  obtain ⟨valued, fits⟩ := typed
  unfold iterate
  cases payload with
  | int n =>
    obtain rfl : t = .int := fits
    exact respects_newIter trivial Ty.elem_int
  | str s =>
    obtain rfl : t = .str := fits
    exact respects_newIter trivial Ty.elem_str
  | wstr units =>
    obtain rfl : t = .wstr := fits
    exact respects_newIter trivial Ty.elem_wstr
  | bin b =>
    obtain rfl : t = .bin := fits
    exact respects_newIter trivial Ty.elem_bin
  | list l =>
    obtain ⟨item, known, of⟩ := fits
    rw [Ty.elem_list W.isUniverse valued of]
    simp only [Ty.behavior_of (W.isUniverse.formed t valued) of.1, Ty.list, Ty.templateOf]
    exact respects_newIter trivial known
  | table l =>
    obtain ⟨k, v, known, of⟩ := fits
    have entry := Ty.elem_table W.isUniverse valued of
    simp only [Ty.behavior_of (W.isUniverse.formed t valued) of.1, Ty.table, Ty.templateOf]
    exact respects_newIter trivial ⟨k, v, known, entry⟩
  | iter i =>
    obtain ⟨item, known, of⟩ := fits
    rw [Ty.elem_iter W.isUniverse valued of]
    simp only [Ty.behavior_of (W.isUniverse.formed t valued) of.1, Ty.iter, Ty.templateOf]
    exact .pure fun W' le => le.iters _ _ known
  | _ => split <;> first | exact .fail _ | contradiction

end Run

end Catena
