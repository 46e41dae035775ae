import Catena.Proofs.Run.Watch
import Catena.Proofs.Typing.Calls

/-!
# Runs respect the types of values

Each operation of a thread takes a machine whose values are what their types say to one of which that
is true again, whatever comes of it. So does a run, however deep in other runs, wherever it is stopped
and whatever fault it ends with.
-/

namespace Catena

variable {α : Type} {W : World} {r : Reentry}

namespace Run

/-! ## Names and labels -/

theorem respects_lookUp (hr : r.Typed) (name : String) : Respects W (lookUp r name) Anything := by
  refine (Respects.askShared (P := fun W' found => ∀ t, found.2 = some t → W'.knows t)
    fun W' s _ registry t found => (registry.knows t).2 (registry.sound.knows found)).bind
      fun W₁ found _ told => ?_
  obtain ⟨isFunc, t?⟩ := found
  dsimp only
  split
  · exact respects_ask.seq fun _ => respects_callName hr name _
  · split
    · rename_i t
      exact (respects_push (typed_type (told t rfl))).seq fun _ => .done _
    · exact .fail _

theorem respects_reference (name : String) :
    Respects W (reference name) fun W' v => v.Typed W' := by
  refine respects_askShared.seq fun registry => ?_
  split
  · exact .pure fun _ _ => typed_func name
  · split
    · exact .pure fun _ _ => typed_label _
    · exact .fail _

theorem respects_valueOf (name : String) : Respects W (valueOf name) fun W' v => v.Typed W' := by
  refine (Respects.ask (P := fun W' v? => ∀ v, v? = some v → Value.Typed W' v) fun W' t _ typed v
    found => typed.all.env.find? found).bind fun W₁ v? _ told => ?_
  exact .orFail fun v same _ le => (told v same).mono le

theorem respects_part (p : FmtPart) : Respects W (part p) Anything := by
  cases p with
  | text s => exact .done s
  | var name literal => exact (respects_valueOf name).seq fun _ => respects_askStore

theorem respects_checkTop (t : Ty) : Respects W (checkTop t) Anything := by
  refine (respects_peek _).seq fun v => ?_
  split
  · exact .fail _
  · exact .done _

theorem respects_jumpPc (name : String) (label : Option Label) :
    Respects W (jumpPc name label) Anything := by
  cases label with
  | some l => exact respects_orFail
  | none => exact respects_askShared.seq fun _ => respects_orFail.seq fun _ => respects_orFail

theorem respects_endPc (what : String) (label : Option Label) :
    Respects W (endPc what label) Anything :=
  respects_orFail.seq fun _ => respects_orFail

/-! ## Try forms -/

theorem respects_openTry (donePc : Nat) : Respects W (openTry donePc) Anything :=
  respects_ask.seq fun _ => (respects_openBlock _ _).seq fun _ =>
    Respects.seq (P := Anything) (.alter fun _ _ _ typed => ⟨{ typed.all with }, typed.cache⟩)
      fun _ => .done _

theorem respects_closeTry (hr : r.Typed) : Respects W (closeTry r) Anything := by
  refine respects_ask.seq fun _ => respects_orFail.seq fun frame => ?_
  refine Respects.seq (P := Anything) (.alter fun _ _ _ typed => ⟨{ typed.all with }, typed.cache⟩)
    fun _ => (respects_closeScope hr true).seq fun _ => ?_
  have faults : Respects W (if frame.faults.isEmpty then pure .nil else errorList frame.faults)
      fun W' v => v.Typed W' := by
    split
    · exact .pure fun _ _ => typed_nil
    · exact respects_errorList _
  dsimp only
  split
  · exact (respects_push typed_nil).seq fun _ => .done _
  · exact (respects_errorList _).bind fun _ _ _ typed => (respects_push typed).seq fun _ => .done _

theorem respects_report (f : Fault) : Respects W (report f) Anything := by
  refine respects_ask.seq fun _ => .refuse fun _ => (respects_note _ _).seq fun _ => ?_
  exact .alter fun _ _ _ typed => ⟨{ typed.all with }, typed.cache⟩

theorem respects_closeTest (message : String) : Respects W (closeTest message) Anything := by
  refine respects_pop.seq fun v => ?_
  split
  · exact .done _
  · exact respects_askStore.seq fun _ => (respects_report _).seq fun _ => .done _

/-! ## Loops -/

theorem respects_eraseLoop (pc : Nat) : Respects W (alterLoops (·.erase pc)) Anything :=
  .alter fun _ _ _ typed => { typed with
    all := typed.all.modifyScope fun _ all => { all with loops := all.loops.erase pc } }

theorem respects_insertLoop (pc : Nat) {l : LoopState} (h : l.kind.body.Typed W) :
    Respects W (alterLoops (·.insert pc l)) Anything :=
  .alter fun _ _ le typed => { typed with
    all := typed.all.modifyScope fun _ all => { all with
      loops := all.loops.insert (h.mono le) } }

theorem respects_loopAt? (pc : Nat) : Respects W (loopAt? pc) fun W' l? =>
    ∀ l, l? = some l → l.kind.body.Typed W' :=
  .ask fun _ _ _ typed _ found => typed.all.scope.loops.find? found

theorem respects_beginFor (pc donePc : Nat) : Respects W (beginFor pc donePc) Anything := by
  refine respects_pop.bind fun W₁ body _ hb => respects_pop.bind fun W₂ seq le hs => ?_
  refine (respects_iterate hs).bind fun W₃ iter le' _ => respects_insertLoop pc ?_
  exact hb.mono (World.le_trans le le')

theorem respects_nextFor (hr : r.Typed) (pc donePc : Nat) :
    Respects W (nextFor r pc donePc) Anything := by
  refine (respects_loopAt? pc).seq fun running => ?_
  rcases running with _ | ⟨⟨iter, body⟩ | body, done⟩
  · exact .fail _
  · refine (respects_pull hr iter).bind fun W₁ pulled _ gave => ?_
    cases pulled with
    | item v => exact (respects_push gave.1).seq fun _ => respects_callValue hr _ _
    | pending => exact .done _
    | done => exact (respects_eraseLoop pc).seq fun _ => .done _
  · exact .fail _

theorem respects_stepFor (hr : r.Typed) (donePc : Nat) :
    Respects W (stepFor r donePc) Anything := by
  refine respects_ask.seq fun pc => (respects_loopAt? pc).seq fun running => ?_
  dsimp only
  split
  · exact (respects_beginFor _ _).seq fun _ => respects_nextFor hr _ _
  · exact respects_nextFor hr _ _

theorem respects_stepWhile (hr : r.Typed) (donePc : Nat) :
    Respects W (stepWhile r donePc) Anything := by
  refine respects_ask.seq fun pc => (respects_loopAt? pc).seq fun running => ?_
  rcases running with _ | ⟨⟨iter, body⟩ | body, done⟩
  · refine respects_pop.bind fun W₁ body _ typed => ?_
    exact (respects_insertLoop pc typed).seq fun _ => respects_callValue hr _ _
  · exact .fail _
  · refine respects_pop.seq fun condition => ?_
    split
    · exact respects_callValue hr _ _
    · exact (respects_eraseLoop pc).seq fun _ => .done _

theorem respects_endOnFault {step : Run Control} (h : Respects W step Anything) :
    Respects W (endOnFault step) Anything := by
  refine h.attempt.seq fun result => ?_
  cases result with
  | ok c => exact .done c
  | error e => exact respects_ask.seq fun _ => (respects_eraseLoop _).seq fun _ => .fail e

/-! ## Generic types -/

theorem respects_closeParam (id : Nat) (template : String) :
    Respects W (closeParam id template) Anything := by
  refine respects_ask.seq fun params => respects_orFail.seq fun mark => ?_
  refine Respects.seq (P := Anything) (.alter fun _ _ _ typed => ⟨{ typed.all with }, typed.cache⟩)
    fun _ => respects_askStack.bind fun W₁ stack _ typed => ?_
  refine (respects_alterStack fun _ _ _ old => Values.extracted _ _ old).bind fun W₂ _ le _ => ?_
  have there : ∀ v ∈ (stack.extract (min mark.depth stack.size) stack.size).toList, v.Typed W₂ :=
    fun v member => (Values.extracted _ _ typed v (Array.mem_toList_iff.1 member)).mono le
  have types : Respects W₂ ((stack.extract (min mark.depth stack.size) stack.size).toList.mapM fun v =>
      orFail (Fault.mismatch "Type" v.ty.name) v.type?) fun W' ts => ∀ t ∈ ts, W'.knows t :=
    .mapM (fun _ _ t le known => le.knows t known) there fun _ le v typed =>
      .orFail fun _ same _ le' => type_known (typed.mono (World.le_trans le le')) same
  refine types.bind fun W₃ args _ known => ?_
  refine (respects_instantiateNamed known).bind fun W₄ t _ known => ?_
  exact (respects_push (typed_type known)).seq fun _ => .done _

/-! ## Operations -/

theorem respects_exec (hr : r.Typed) {op : Op} (typed : op.All (·.Typed W)) :
    Respects W (exec r op) Anything := by
  cases op with
  | push v => exact (respects_push typed).seq fun _ => .done _
  | pushMany vs => exact (respects_pushEach typed).seq fun _ => .done _
  | drop n => exact (respects_popN n).seq fun _ => .done _
  | check t =>
    cases t with
    | some t => exact (respects_checkTop t).seq fun _ => .done _
    | none => exact respects_popType.seq fun t => (respects_checkTop t).seq fun _ => .done _
  | deref name => exact respects_lookUp hr name
  | call name => exact respects_ask.seq fun _ => respects_callName hr name _
  | ref name =>
    exact (respects_reference name).bind fun _ _ _ typed => (respects_push typed).seq fun _ => .done _
  | get name =>
    exact (respects_valueOf name).bind fun _ _ _ typed => (respects_push typed).seq fun _ => .done _
  | bind name =>
    refine respects_pop.bind fun W₁ v _ typed => ?_
    have binds : Respects W₁ (Run.bind name v) Anything :=
      respects_ask.bind fun _ _ le _ => .refuse fun _ => .alter fun _ _ le' thread =>
        ⟨thread.all.bind (typed.mono (World.le_trans le le')), thread.cache⟩
    exact binds.seq fun _ => .done _
  | fmt parts =>
    have each : Respects W (parts.mapM part) fun _ ss => ∀ s ∈ ss, True :=
      .mapM (A := fun _ => True) (fun _ _ _ _ h => h) (fun _ _ => trivial) fun _ _ p _ =>
        respects_part p
    exact each.seq fun _ => (respects_push (typed_str _)).seq fun _ => .done _
  | target l => exact .done _
  | jump name label => exact (respects_jumpPc name label).seq fun _ => .done _
  | lambda body kind skip =>
    refine (respects_endPc _ _).seq fun pc => ?_
    dsimp only
    split
    · refine (Respects.ask (P := fun W' env => Dict.All (·.Typed W') env) fun _ _ _ typed =>
        typed.all.env).bind fun W₁ env _ all => ?_
      exact (respects_newClosure all).bind fun _ _ _ typed => (respects_push typed).seq fun _ => .done _
    · exact .done _
  | unlambda id => exact respects_exitReturn 0
  | exit label name => exact respects_exit hr label
  | begin ownStack safety =>
    exact respects_ask.seq fun _ => (respects_openBlock _ _).seq fun _ => .done _
  | close => exact (respects_closeScope hr true).seq fun _ => .done _
  | closeList =>
    refine respects_askStack.bind fun W₁ items _ typed => ?_
    refine respects_emptied.bind fun W₂ _ le _ => (respects_closeScope hr false).bind fun W₃ _ le' _ => ?_
    refine (respects_listFrom fun v member => (typed v member).mono (World.le_trans le le')).bind
      fun W₄ list _ typed => ?_
    exact (respects_push typed).seq fun _ => .done _
  | «try» done => exact respects_orFail.seq fun _ => respects_openTry _
  | closeTry => exact respects_closeTry hr
  | closeTest message => exact respects_closeTest message
  | «for» done =>
    exact (respects_endPc _ _).seq fun pc => respects_endOnFault (respects_stepFor hr pc)
  | «while» done =>
    exact (respects_endPc _ _).seq fun pc => respects_endOnFault (respects_stepWhile hr pc)
  | param id =>
    exact Respects.seq (P := Anything) (.alter fun _ _ _ typed => ⟨{ typed.all with }, typed.cache⟩)
      fun _ => .done _
  | unparam id template => exact respects_closeParam id template

/-- Nothing but the program counter, the base of the run and the like may change. -/
theorem respects_goTo (f : Thread → Nat) : Respects W (alter fun t => { t with pc := f t }) Anything :=
  .alter fun _ _ _ typed => ⟨{ typed.all with }, typed.cache⟩

theorem respects_apply (hr : r.Typed) (base : Nat) (c : Control) :
    Respects W (apply r base c) Anything := by
  cases c with
  | next => exact respects_goTo fun t => t.pc + 1
  | jump pc => exact respects_goTo fun _ => pc
  | unwind depth pc =>
    unfold apply
    exact .refuse fun _ => (respects_unwindTo hr _ _).seq fun _ => respects_goTo fun _ => pc

theorem respects_step (hr : r.Typed) (base : Nat) {op : Op} (typed : op.All (·.Typed W)) :
    Respects W (step r base op) Anything := by
  refine (respects_exec hr typed).seq fun c => (respects_apply hr base c).seq fun _ => ?_
  refine respects_askShared.seq fun limit => respects_ask.seq fun size => ?_
  split
  · exact .fail _
  · exact .done _

/-! ## Faults -/

theorem respects_unwindAfterFault (hr : r.Typed) (depth : Nat) :
    Respects W (unwindAfterFault r depth) Anything := by
  refine (respects_unwindTo hr depth false).attempt.seq fun result => ?_
  cases result with
  | ok _ => exact .done _
  | error e => exact respects_note _ _

theorem respects_resumeTry (f : Fault) (i : Nat) (frame : TryFrame) :
    Respects W (resumeTry f i frame) Anything := by
  refine respects_ask.seq fun scope? => ?_
  cases scope? with
  | none => exact .exhausted
  | some scope =>
    refine .alter fun W' t _ typed => ⟨?_, typed.cache⟩
    have outside (s : Scope) (all : s.All (·.Typed W')) : Scope.All (·.Typed W')
        { s with loops := loopsOutside frame.startPc frame.donePc s.loops } :=
      { all with loops := all.loops.filterKeys _ }
    exact { typed.all with
      valueStacks := Values.modify typed.all.valueStacks fun _ old => Values.extracted _ _ old
      scopes := Values.modify typed.all.scopes outside }

theorem respects_recover (hr : r.Typed) (base : Nat) (f : Fault) :
    Respects W (recover r base f) Anything := by
  refine respects_ask.seq fun catching => ?_
  cases catching with
  | none =>
    exact respects_ask.seq fun _ => (respects_note _ _).seq fun _ =>
      (respects_unwindAfterFault hr base).seq fun _ => .fail f
  | some frame =>
    exact respects_ask.seq fun _ => (respects_note _ _).seq fun _ =>
      (respects_unwindAfterFault hr _).seq fun _ => respects_ask.seq fun _ =>
        respects_orFail.seq fun innermost => respects_resumeTry f _ innermost

end Run

/-! ## Runs -/

namespace Watch

open Run

variable (w : Watch)

theorem respects_runOps (hr : r.Typed) (base stop fuel : Nat) :
    Respects W (w.runOps r base stop fuel) Anything := by
  induction fuel generalizing W with
  | zero => exact .exhausted
  | succ fuel ih =>
    refine (Respects.haltIf _).seq fun _ => respects_ask.seq fun pc => ?_
    split
    · exact .done _
    · refine (Respects.ask (P := fun W' op? => ∀ op, op? = some op → op.All (·.Typed W'))
        fun _ t _ typed op found => typed.all.ops op (Array.mem_of_getElem? found)).bind
          fun W₁ op? _ told => ?_
      cases op? with
      | none => exact .done _
      | some op =>
        refine (respects_step hr base (told op rfl)).attempt.seq fun result => ?_
        cases result with
        | ok _ => exact ih
        | error f =>
          exact (Respects.haltIf _).seq fun _ => (respects_recover hr base f).seq fun _ => ih

theorem respects_runLoop (hr : r.Typed) (base stop : Nat) :
    Respects W (w.runLoop r base stop) Anything := by
  have setBase (b : Nat) : Respects W (alter fun t => { t with loopBase := b }) Anything :=
    .alter fun _ _ _ typed => ⟨{ typed.all with }, typed.cache⟩
  exact respects_ask.seq fun saved => (setBase base).seq fun _ =>
    (w.respects_runOps hr _ _ _).attempt.seq fun _ => (setBase saved).seq fun _ => respects_ofExcept

theorem respects_runCall (hr : r.Typed) (target : Value) (base : Nat) :
    Respects W (w.runCall r target base) Anything :=
  (respects_callValue hr _ _).seq fun c => (respects_apply hr base c).seq fun _ =>
    w.respects_runLoop hr _ _

theorem respects_callAside (hr : r.Typed) (target : Value) {args : List Value}
    (typed : ∀ v ∈ args, v.Typed W) :
    Respects W (w.callAside r target args) fun W' v? => ∀ v, v? = some v → v.Typed W' := by
  refine respects_ask.bind fun W₁ start le _ => respects_ask.bind fun W₂ safety le₂ _ => ?_
  refine (respects_openBlock _ _).bind fun W₃ _ le₃ _ => ?_
  have later := World.le_trans le (World.le_trans le₂ le₃)
  refine (respects_pushEach fun v member => (typed v member).mono later).seq fun _ => ?_
  refine (w.respects_runCall hr target _).attempt.seq fun result => ?_
  have tops : Respects W₃ (ask fun t => do
      let scope ← t.scopes[start.2.2]?
      let stack ← t.valueStacks[scope.stack]?
      stack.back?) fun W' v? => ∀ v, v? = some v → v.Typed W' := by
    refine .ask fun W' t _ typed v found => ?_
    obtain ⟨s, -, found⟩ := Option.bind_eq_some_iff.1 found
    obtain ⟨stack, there, top⟩ := Option.bind_eq_some_iff.1 found
    exact typed.all.valueStacks stack (Array.mem_of_getElem? there) v (Array.mem_of_back? top)
  refine tops.bind fun W₄ top _ told => ?_
  refine (respects_unwindTo hr _ _).attempt.bind fun W₅ closed le₅ _ => ?_
  have comesBack : Respects W₅ (alter ({ · with pc := start.1, retPc := start.2.1 })) Anything :=
    .alter fun _ _ _ thread => { thread with all := { thread.all with } }
  refine comesBack.bind fun W₆ _ le₆ _ => ?_
  refine respects_ofExcept.bind fun W₇ _ le₇ _ => respects_ofExcept.bind fun W₈ _ le₈ _ => ?_
  have later := World.le_trans le₅ (World.le_trans le₆ (World.le_trans le₇ le₈))
  exact .pure fun _ le₉ v same => (told v same).mono (World.le_trans later le₉)

theorem respects_callNested (hr : r.Typed) (target : Value) {args : List Value}
    (typed : ∀ v ∈ args, v.Typed W) :
    Respects W (w.callNested r target args) fun W' v? => ∀ v, v? = some v → v.Typed W' := by
  refine (w.respects_callAside hr target typed).attempt.bind fun W₁ answer _ told => ?_
  refine (Respects.haltIf _).bind fun W₂ _ le _ => .ofExcept fun v? same W₃ le' v found => ?_
  exact (told v? same v found).mono (World.le_trans le le')

theorem typed_reentry (depth : Nat) : (w.reentry depth).Typed := by
  induction depth with
  | zero => exact ⟨fun _ _ _ _ => .exhausted, fun _ _ => .exhausted⟩
  | succ depth ih =>
    exact ⟨fun _ target _ typed => w.respects_callNested ih target typed, fun _ target =>
      respects_ask.seq fun _ => w.respects_runCall ih target _⟩

theorem respects_runUntil (stop : Nat) : Respects W (w.runUntil stop) Anything :=
  respects_ask.seq fun _ => (respects_note _ _).seq fun _ =>
    (w.respects_runLoop (w.typed_reentry _) _ _).attempt.seq fun _ =>
      (respects_goTo fun t => min t.pc t.ops.size).seq fun _ => respects_ofExcept

end Watch

end Catena
