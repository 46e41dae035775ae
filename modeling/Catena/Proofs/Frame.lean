import Catena.Proofs.Control.Histories

/-!
# Calls from inside an operation are frames

Library functions, conversions and deferred calls call back into the language. Whatever such a call does
(it may leave lambdas in the middle, go on with others, fail, and make calls of that kind itself), it
leaves the thread as it was where it was made, but for what the values refer to (`UnderWay.call_framed`).
A function of the embedding program that changes the flow of control can break out of the frame
(`call_framed_not_hopping`).
-/

namespace Catena

/-- What a call leaves as it was. -/
structure Thread.Framed (t t' : Thread) : Prop where
  pc : t'.pc = t.pc
  retPc : t'.retPc = t.retPc
  loopBase : t'.loopBase = t.loopBase
  depth : t'.scopes.size = t.scopes.size
  env : Env.Same t'.env t.env
  tries : t'.tries.size = t.tries.size
  valueStacks : t'.valueStacks = t.valueStacks

theorem Thread.Aside.framed {t t' : Thread} (h : t.Aside t') : t.Framed t' where
  pc := h.pc
  retPc := h.retPc
  loopBase := h.keeps.loopBase
  depth := h.size
  env := h.still.env
  tries := by
    have length := congrArg List.length h.tries.1
    rwa [List.length_map, List.length_map, Array.length_toList, Array.length_toList] at length
  valueStacks := h.valueStacks

/-- From every machine that is under way with texts that put no label, a call that comes back, with a
value, with none or with a fault, is a frame. -/
theorem UnderWay.call_framed {m : Machine} (h : UnderWay m) (depth : Nat) {target : Value}
    {args : List Value} (tame : target.Tame) (all : ∀ v ∈ args, v.Tame)
    (ends : (Run.callNested (Run.reentry depth) target args).Ends m) :
    m.thread.Framed ((Run.callNested (Run.reentry depth) target args).after m).thread := by
  obtain ⟨ops, orderly⟩ := h.orderly
  have sound := (Run.sound_reentry ops (depth + 1)).call target args tame all m orderly
  have called : Run.Meets ops m (Run.callNested (Run.reentry depth) target args)
      (fun _ n => m.thread.Aside n.thread) (fun n => m.thread.Aside n.thread) :=
    sound.mono (fun _ _ _ both => both.1.2) fun _ both => both.2
  exact (called.after ends).framed

/-- A machine that knows a function which leaves its lambda in the middle. -/
def Machine.yielder : Machine :=
  (Run.compile "func: f (I64) drop 'a' yield 'b' ;").after (Engine.new {} .silent {})

/-- A call that is left in the middle comes back with a value, and with nothing else. -/
theorem UnderWay.call_framed_yielder :
    let call := Run.callNested (Run.reentry 2) ⟨.func, .func "f"⟩ [⟨.int, .int 7⟩]
    (call.after .yielder).thread.coros.keys.length = 1 ∧
      Machine.yielder.thread.Framed (call.after .yielder).thread := by
  have yielder : UnderWay .yielder := .compile _ (.of_not_mem (by decide)) (.new ..)
  refine ⟨by decide +kernel, yielder.call_framed 2 nofun ?_ (by decide +kernel)⟩
  exact List.forall_mem_singleton.2 nofun

/-- A machine that has run a text and knows a function of the embedding program that jumps to the end of
the block in it. -/
def Machine.hopping : Machine :=
  let m := (Watch.idle.runUntil 4).after ((Run.compile "( 1 ) 7").after (Engine.new {} .silent {}))
  { m with shared := (m.shared.addImp "hop" [] .safe (.native (.host ⟨0, [], none, some 2, none⟩))).2 }

/-- A function of the embedding program closes the scope of its own call by a jump, and what comes behind
works on the stack below. -/
theorem call_framed_not_hopping :
    Unlabelled "( 1 ) 7" ∧ Reached anyWatch .hopping ∧
      (Run.callNested (Run.reentry 2) ⟨.func, .func "hop"⟩ []).Ends .hopping ∧
      ¬ Machine.hopping.thread.Framed
        ((Run.callNested (Run.reentry 2) ⟨.func, .func "hop"⟩ []).after .hopping).thread := by
  refine ⟨.of_not_mem (by decide), ?_, by decide +kernel, fun framed => ?_⟩
  · exact .define _ _ _ _ (.run .idle 4 trivial (.compile _ (.new ..)))
  · have before : Machine.hopping.thread.valueStacks.map Array.size = #[2] := by decide +kernel
    have after : ((Run.callNested (Run.reentry 2) ⟨.func, .func "hop"⟩ []).after
        .hopping).thread.valueStacks.map Array.size = #[3] := by decide +kernel
    rw [framed.valueStacks, before] at after
    cases after

end Catena
