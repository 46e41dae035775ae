import Catena.Proofs.Layout.Place
import Catena.Proofs.Run.Reached

/-!
# What engines compile

The registry of an engine knows the built-in forms and no others, and its labels under their own
names. So whatever an engine compiles has the layout the machine relies on
(`Reached.compiled_layout`).
-/

namespace Catena

/-! ## The registry of an engine -/

theorem find?_insert_all {ms : List (String × Macro)} {d : Dict String Macro} {word : String}
    {m : Macro} (h : (ms.foldl (fun d m => d.insert m.1 m.2) d).find? word = some m) :
    (word, m) ∈ ms ∨ d.find? word = some m := by
  induction ms generalizing d with
  | nil => exact .inr h
  | cons entry ms ih =>
    rcases ih h with later | before
    · exact .inl (List.mem_cons_of_mem _ later)
    · rw [Dict.find?_insert] at before
      split at before
      · rename_i same
        obtain rfl := Option.some.inj before
        subst same
        exact .inl List.mem_cons_self
      · exact .inr before

theorem bootRegistry_standard : Engine.bootRegistry.Standard := by
  intro word m found
  rcases find?_insert_all found with builtin | none
  · exact .inl builtin
  · cases none

theorem bootRegistry_labelled : Engine.bootRegistry.Labelled := by
  intro name l found
  cases found

/-- What every compilation of an engine can rely on. -/
structure Registry.Ready (r : Registry) : Prop where
  standard : r.Standard
  labelled : r.Labelled

theorem Registry.Grown.ready {r r' : Registry} (h : r.Grown r') (ready : r.Ready) : r'.Ready :=
  ⟨h.standard ready.standard, h.labelled ready.labelled⟩

theorem Reached.ready {kind : Watch → Prop} {m : Machine} (h : Reached kind m) :
    m.shared.registry.Ready := by
  refine h.keeps (I := fun m => m.shared.registry.Ready) (fun impossible : False => impossible.elim)
    (fun config log host => ?_) (fun _ _ ready => ready) fun _ _ changes => changes.grown.ready
  exact (new_drift config log host).registry.ready ⟨bootRegistry_standard, bootRegistry_labelled⟩

/-- Whatever an engine compiles, wherever the unit begins and however constants are folded, has
everything at its place. -/
theorem Reached.compiled_layout {kind : Watch → Prop} {m : Machine} (h : Reached kind m)
    (config : Config) {text : String} {base : Nat} {code : Code} {c : Compiler}
    (ok : Compile.source text base { shared := { m.shared with config } } = .ok code c) :
    Layout base c.shared.registry.labels code.ops :=
  (Compile.source_ok (s := { m.shared with config }) h.ready.standard h.ready.labelled ok).1

/-- What a compilation answers, if it ends well. -/
def Compile.answer? {α : Type} (x : Compile α) (c : Compiler) : Option α :=
  match x c with
  | .ok a _ => some a
  | .error .. => none

theorem Compile.answers_of {α : Type} {p : α → Prop} [DecidablePred p] {x : Compile α} {c : Compiler}
    (h : (x.answer? c).any (fun a => decide (p a)) = true) : ∃ a d, x c = .ok a d ∧ p a := by
  unfold Compile.answer? at h
  cases ran : x c with
  | ok a d =>
    rw [ran] at h
    exact ⟨a, d, rfl, of_decide_eq_true h⟩
  | error e d =>
    rw [ran] at h
    cases h

/-- What a new engine compiles with, once constants are not folded any more. -/
def Compiler.unfolded : Compiler :=
  { shared := { (Engine.new {} .silent {}).shared with
      config := { compiler := { foldConstants := false } } } }

theorem Reached.compiled_layout_forms : ∃ code c,
    Compile.source "[ 1 2 ] { try: 1 + ; } for @a ( a! )" 7 .unfolded = .ok code c ∧
      code.ops.length = 20 ∧ Layout 7 c.shared.registry.labels code.ops := by
  obtain ⟨code, c, made, long⟩ : ∃ code c,
      Compile.source "[ 1 2 ] { try: 1 + ; } for @a ( a! )" 7 .unfolded = .ok code c ∧
        code.ops.length = 20 := by
    refine Compile.answers_of (p := fun code : Code => code.ops.length = 20) ?_
    decide +kernel
  have reached : Reached anyWatch (Engine.new {} .silent {}) := .new {} .silent {}
  exact ⟨code, c, made, long, reached.compiled_layout _ made⟩

end Catena
