import Catena.Proofs.Run.Exec
import Catena.Proofs.Typing.Checked

/-!
# Calls respect the types of values

A call by name runs an implementation that accepts what is on the stack, because there is nothing to
convert values with. Scopes, lambdas and fibers keep the values that they are given.
-/

namespace Catena

variable {α : Type} {W : World} {r : Reentry}

theorem Thread.Typed.closeScope {t : Thread} (keepTop : Bool) (h : t.Typed W) :
    (t.closeScope keepTop).2.Typed W := by
  refine ⟨h.all.closeScope keepTop, ?_⟩
  rw [Thread.closeScope_eq]
  exact h.cache

namespace Run

/-! ## Scopes -/

theorem respects_checkRoom : Respects W checkRoom Anything :=
  respects_askShared.seq fun limit => respects_ask.seq fun size => by
    split
    · exact .fail _
    · exact .done _

theorem respects_checkStack : Respects W checkStack Anything :=
  respects_ask.seq fun nothing => by
    split
    · exact .exhausted
    · exact .done _

theorem respects_openBlock (ownStack : Bool) (safety : Safety) :
    Respects W (openBlock ownStack safety) Anything := by
  have opens : Respects W (alter (·.openBlock ownStack safety)) Anything :=
    .alter fun _ _ _ typed => ⟨typed.all.openBlock ownStack safety, typed.cache⟩
  refine respects_checkRoom.seq fun _ => ?_
  dsimp only
  split
  · exact respects_checkStack.seq fun _ => opens
  · exact opens

theorem respects_makeDeferred (hr : r.Typed) (calls : List Value) (first : Option Fault) :
    Respects W (makeDeferred r calls first) Anything := by
  induction calls generalizing W first with
  | nil => exact .done first
  | cons f rest ih =>
    refine (hr.call W f [] (by simp)).forget.attempt.bind fun _ answer _ _ => ?_
    cases answer with
    | ok _ => exact ih first
    | error e => exact (respects_note _ _).seq fun _ => ih _

/-- The state left in the middle of a fiber, if it is given one, is what it should be. -/
theorem respects_setFiber (f : Ref) {state : FiberState}
    (h : ∀ c, state = .suspended c → c.All (·.Typed W)) : Respects W (setFiber f state) Anything := by
  refine .alterStore fun W' s le store => { store with all := { store.all with fibers := ?_ } }
  dsimp only
  exact Values.modify store.all.fibers fun _ old =>
    ⟨old.target, fun c same => (h c same).mono fun _ v => v.mono le⟩

theorem respects_markFiber (f : Ref) {state : FiberState} (h : ∀ c, state ≠ .suspended c) :
    Respects W (setFiber f state) Anything :=
  respects_setFiber f fun c same => absurd same (h c)

theorem respects_closeScope (hr : r.Typed) (keepTop : Bool) :
    Respects W (closeScope r keepTop) Anything := by
  refine respects_ask.seq fun size => .refuse fun _ => ?_
  refine respects_ask.seq fun deferred => ?_
  have takes : Respects W (alter (·.modifyScope fun s => { s with defers := [] })) Anything :=
    .alter fun _ _ _ thread => { thread with
      all := thread.all.modifyScope fun _ all => { all with defers := by simp } }
  refine takes.seq fun _ => (respects_makeDeferred hr deferred none).seq fun first => ?_
  refine respects_ask.seq fun fiber => ?_
  refine Respects.seq (P := Anything) (.alter fun _ _ _ thread => thread.closeScope keepTop) fun _ => ?_
  dsimp only
  cases fiber with
  | none => exact (Respects.done ()).seq fun _ => .passOn first
  | some f => exact (respects_markFiber f (by nofun)).seq fun _ => .passOn first

theorem respects_closeDown (hr : r.Typed) (depth : Nat) (keepTop : Bool) (fuel : Nat)
    (first : Option Fault) : Respects W (closeDown r depth keepTop fuel first) Anything := by
  induction fuel generalizing W first with
  | zero =>
    refine respects_ask.seq fun size => ?_
    split
    · exact .done first
    · exact .exhausted
  | succ fuel ih =>
    refine respects_ask.seq fun size => ?_
    split
    · exact .done first
    · refine (respects_closeScope hr keepTop).attempt.bind fun _ closed _ _ => ?_
      cases closed <;> exact ih _

theorem respects_unwindTo (hr : r.Typed) (depth : Nat) (keepTop : Bool) :
    Respects W (unwindTo r depth keepTop) Anything :=
  respects_ask.seq fun _ => (respects_closeDown hr _ _ _ _).seq fun first => .passOn first

/-! ## Lambdas and fibers -/

theorem respects_startLambda {c : Closure} (h : c.env.All (·.Typed W)) (safety : Safety) (retPc : Nat) :
    Respects W (startLambda c safety retPc) Anything := by
  refine respects_orFail.seq fun entry => respects_checkRoom.seq fun _ => respects_checkStack.seq fun _ => ?_
  refine Respects.seq (P := Anything) (.alter fun W' t le typed => ⟨?_, typed.cache⟩) fun _ => .done _
  exact typed.all.openLambda safety retPc (h.mono fun _ v => v.mono le)

theorem respects_resume {coro : Coroutine} (h : coro.All (·.Typed W)) (retPc : Nat)
    (fiber : Option Ref) : Respects W (resume coro retPc fiber) Anything := by
  refine respects_askShared.seq fun limit => respects_ask.seq fun size => .refuse fun _ => ?_
  refine respects_checkStack.seq fun _ => ?_
  refine Respects.seq (P := Anything) (.alter fun W' t le typed => ⟨?_, typed.cache⟩) fun _ => .done _
  exact typed.all.graft retPc fiber (h.mono fun _ v => v.mono le)

theorem respects_enterLambda {c : Closure} (h : c.env.All (·.Typed W)) (safety : Safety)
    (retPc : Nat) : Respects W (enterLambda c safety retPc) Anything := by
  refine (Respects.ask (P := fun W' coro? => ∀ coro, coro? = some coro → Coroutine.All (·.Typed W') coro)
    fun _ _ _ typed coro found => typed.all.coros.find? found).bind fun W₁ coro? le told => ?_
  cases coro? with
  | none => exact respects_startLambda (h.mono fun _ v => v.mono le) safety retPc
  | some coro =>
    have takes : Respects W₁ (alter fun t => { t with coros := t.coros.erase c.body.id }) Anything :=
      .alter fun _ _ _ typed => { typed with all := { typed.all with coros := typed.all.coros.erase _ } }
    refine takes.bind fun W₂ _ le₂ _ => (respects_note _ _).bind fun W₃ _ le₃ _ => ?_
    exact respects_resume ((told coro rfl).mono fun _ v => v.mono (World.le_trans le₂ le₃)) retPc none

theorem respects_startFiber (fiber : Ref) (id : Nat) {state : FiberState} {c : Closure}
    (h : c.env.All (·.Typed W)) (kept : ∀ c, state = .suspended c → c.All (·.Typed W)) (retPc : Nat) :
    Respects W (startFiber fiber id state c retPc) Anything := by
  refine (respects_note _ _).bind fun W₁ _ le _ => respects_ask.bind fun W₂ safety le₂ _ => ?_
  have later := World.le_trans le le₂
  refine (respects_startLambda (h.mono fun _ v => v.mono later) _ retPc).attempt.bind
    fun W₃ result le₃ _ => ?_
  cases result with
  | ok ctl =>
    refine Respects.seq (P := Anything) (.alter fun _ _ _ typed => ?_) fun _ => .done ctl
    exact { typed with all := typed.all.modifyScope fun _ all => { all with } }
  | error e =>
    exact (respects_setFiber fiber fun c same =>
      (kept c same).mono fun _ v => v.mono (World.le_trans later le₃)).seq fun _ => .fail e

theorem respects_resumeFiber (ref : Ref) (id : Nat) {coro : Coroutine} (h : coro.All (·.Typed W))
    (retPc : Nat) : Respects W (resumeFiber ref id coro retPc) Anything := by
  refine (respects_markFiber ref (by nofun)).bind fun W₁ _ le _ => (respects_note _ _).bind fun W₂ _ le₂ _ => ?_
  refine (respects_resume (h.mono fun _ v => v.mono (World.le_trans le le₂)) retPc (some ref)).attempt.bind
    fun _ result _ _ => ?_
  cases result with
  | ok ctl => exact .pure fun _ _ => trivial
  | error e => exact (respects_markFiber ref (by nofun)).seq fun _ => .fail e

theorem respects_enterTarget (ref : Ref) {fiber : Fiber}
    (kept : ∀ c, fiber.state = .suspended c → c.All (·.Typed W)) (retPc : Nat) :
    Respects W (enterTarget ref fiber retPc) Anything := by
  unfold enterTarget
  split
  · refine (respects_markFiber ref (by nofun)).bind fun W₁ _ le _ => ?_
    refine (Respects.askStore (P := fun W' c? => ∀ c : Closure, c? = some c → c.env.All (·.Typed W'))
      fun _ s _ store c found => store.all.closures c (Array.mem_of_getElem? found)).bind
        fun W₂ c? le₂ told => ?_
    cases c? with
    | none => exact .fail _
    | some c =>
      refine (respects_startFiber ref fiber.id (told c rfl) (fun c same =>
        (kept c same).mono fun _ v => v.mono (World.le_trans le le₂)) retPc).seq fun _ => ?_
      exact .done _
  · exact (respects_markFiber ref (by nofun)).seq fun _ => .done _

theorem respects_enterFiber (ref : Ref) (retPc : Nat) : Respects W (enterFiber ref retPc) Anything := by
  refine (Respects.askStore (P := fun W' (fiber : Fiber) => ∀ c, fiber.state = .suspended c →
    c.All (·.Typed W')) fun W' s _ store => ?_).bind fun W₁ fiber _ typed => ?_
  · cases found : s.fibers[ref]? with
    | none => exact nofun
    | some fiber => exact (store.all.fibers fiber (Array.mem_of_getElem? found)).state
  · split
    · exact .fail _
    · rename_i coro left
      exact respects_resumeFiber ref _ (typed coro left) retPc
    · exact respects_enterTarget ref typed retPc

theorem respects_lambdaScope (depth : Nat) : Respects W (lambdaScope depth) Anything :=
  respects_ask.seq fun _ => respects_orFail

theorem respects_suspend (depth : Nat) : Respects W (suspend depth) Anything := by
  refine (respects_lambdaScope depth).seq fun i => respects_ask.seq fun base => .refuse fun _ => ?_
  have heads : Respects W (ask fun t => t.scopes[i]?.getD default) fun W' s => s.All (·.Typed W') := by
    refine .ask fun W' t _ typed => ?_
    cases found : t.scopes[i]? with
    | none => exact .default
    | some s => exact typed.all.scopes s (Array.mem_of_getElem? found)
  refine heads.bind fun W₁ head _ all => respects_orFail.bind fun W₂ callee le _ => ?_
  have cuts : Respects W₂ (fun m =>
      .ok (m.thread.cut i head callee.body.id).1
        { m with thread := (m.thread.cut i head callee.body.id).2 })
      fun W' coro => coro.All (·.Typed W') := by
    intro W₃ m le' typed
    have later : head.All (·.Typed W₃) := all.mono fun _ v => v.mono (World.le_trans le le')
    obtain ⟨off, left⟩ := typed.thread.all.cut (i := i) callee.body.id later
    exact .of_ok rfl W₃.le_refl { typed with thread := ⟨left, typed.thread.cache⟩ } off
  refine cuts.bind fun W₃ coro _ off => ?_
  dsimp only
  split
  · refine respects_askStore.bind fun W₄ _ le _ => (respects_note _ _).bind fun W₅ _ le' _ => ?_
    refine (respects_setFiber _ fun c same => ?_).seq fun _ => .done _
    cases same
    exact off.mono fun _ v => v.mono (World.le_trans le le')
  · refine (respects_note _ _).bind fun W₄ _ le _ => ?_
    refine Respects.seq (P := Anything) (.alter fun W₅ t le' typed => ?_) fun _ => .done _
    have kept : coro.All (·.Typed W₅) := off.mono fun _ v => v.mono (World.le_trans le le')
    exact { typed with all := { typed.all with coros := typed.all.coros.insert kept } }

theorem respects_recallFrom (hr : r.Typed) (depth : Nat) :
    Respects W (recallFrom r depth) Anything := by
  refine (respects_lambdaScope depth).seq fun i => respects_ask.seq fun base => .refuse fun _ => ?_
  refine (respects_unwindTo hr _ _).seq fun _ => ?_
  have callees : Respects W (ask fun t => t.scopes[i]?.bind (·.callee)) fun W' c? =>
      ∀ c, c? = some c → c.env.All (·.Typed W') := by
    refine .ask fun W' t _ typed c found => ?_
    obtain ⟨s, there, callee⟩ := Option.bind_eq_some_iff.1 found
    exact (typed.all.scopes s (Array.mem_of_getElem? there)).callee c callee
  refine callees.bind fun W₁ c? _ told => ?_
  have known : Respects W₁ (orFail Fault.recallOutside c?) fun W' c => c.env.All (·.Typed W') :=
    .orFail fun c same W' le => (told c same).mono fun _ v => v.mono le
  refine known.bind fun W₂ c _ env => respects_orFail.bind fun W₃ entry le _ => ?_
  refine Respects.seq (P := Anything) (.alter fun W₄ t le' typed => ?_) fun _ => .done _
  have fresh : Thread.All (·.Typed W₄)
      { t with scopes := t.scopes.modify i fun s => { s with bound := [], loops := ∅ } } :=
    typed.all.alterScope i fun _ all => { all with bound := nofun, loops := .empty }
  exact { typed with
    all := { fresh with env := env.mono fun _ v => v.mono (World.le_trans le le') } }

theorem respects_exitReturn (depth : Nat) : Respects W (exitReturn depth) Anything :=
  (respects_lambdaScope depth).seq fun _ => respects_ask.seq fun _ => .done _

/-- The loops of a scope may be let go of. -/
theorem respects_dropLoops (i : Nat) {f : Dict Nat LoopState → Dict Nat LoopState}
    (h : ∀ (A : LoopState → Prop) d, d.All A → (f d).All A) :
    Respects W (alter fun t =>
      { t with scopes := t.scopes.modify i fun s => { s with loops := f s.loops } }) Anything :=
  .alter fun _ _ _ typed => { typed with
    all := typed.all.alterScope i fun _ all => { all with loops := h _ _ all.loops } }

theorem respects_exitLoop (depth : Nat) : Respects W (exitLoop depth) Anything := by
  refine respects_ask.seq fun _ => respects_orFail.seq fun (i, pc) => respects_ask.seq fun donePc => ?_
  refine (respects_dropLoops i fun A d all => all.erase pc).seq fun _ => ?_
  exact (respects_note _ _).seq fun _ => .done _

theorem respects_exit (hr : r.Typed) (label : Label) : Respects W (exit r label) Anything := by
  unfold exit
  split
  · exact respects_exitReturn _
  · exact respects_recallFrom hr _
  · exact respects_suspend _
  · exact respects_exitLoop _
  · exact .fail _

end Run

/-! ## Calls by name -/

/-- What the function of a name may be, asks what it needs. -/
theorem Registry.Typed.funcs {registry : Registry} (h : registry.Typed W) {name : String}
    {imps : List Imp} (found : registry.funcs.find? name = some imps) : ∀ imp ∈ imps, imp.Typed W :=
  fun imp member => h.imps imp ⟨name, imps, found, member⟩

/-- There is nothing to convert values with. -/
theorem Registry.Typed.findConv? {registry : Registry} (h : registry.Typed W) :
    registry.findConv? = fun _ _ => none := by
  funext source target
  rw [Registry.findConv?, h.convs]
  rfl

variable {imps : List Imp} {safety : Safety} {stack : Array Value} {imp : Imp}

/-- What is chosen as it is accepts the values on the stack. -/
theorem Choice.exact_matches {conv : Ty → Ty → Option Value}
    (h : choose imps conv safety stack = .exact imp) : imp ∈ imps ∧ imp.Matches stack := by
  have rule : Choice.Rule imps conv safety stack _ := choose_rule
  rw [h] at rule
  cases rule with
  | «exact» newest => exact ⟨newest.mem, newest.holds.2⟩

/-- Nothing is converted where there are no conversions. -/
theorem Choice.not_converted (plan : List (Nat × Value)) :
    choose imps (fun _ _ => none) safety stack ≠ .converted imp plan := by
  intro h
  have rule : Choice.Rule imps (fun _ _ => none) safety stack _ := choose_rule
  rw [h] at rule
  cases rule with
  | converted inexact newest => exact inexact imp newest.mem newest.holds.1 newest.holds.2

namespace Run

variable {m : Machine}

/-- A message changes neither the registry nor the store nor the thread. -/
theorem RespectsAt.note {Q : World → α → Prop} {level : Log.Level} {message : Unit → String}
    {k : Unit → Run α} (typed : m.Typed W)
    (hk : ∀ n : Machine, n.Typed W → n.thread = m.thread → RespectsAt W n (k ()) Q) :
    RespectsAt W m (Run.note level message >>= k) Q := by
  have registry := note_registry m.shared level Phase.vm.target message none
  have store := note_store m.shared level Phase.vm.target message none
  refine .next rfl (hk _ ⟨?_, ?_, typed.thread⟩ rfl)
  · exact registry.symm ▸ typed.registry
  · exact store.symm ▸ typed.store

theorem respects_goBack (retPc : Nat) : Respects W (alter ({ · with retPc })) Anything :=
  .alter fun _ _ _ thread => { thread with all := { thread.all with } }

/-- A library function called through an implementation that accepts its arguments, and what it goes back
to. -/
theorem respects_runNative (hr : r.Typed) {f : Native} (retPc : Nat) (typed : m.Typed W)
    (body : imp.body = .native f) (ok : imp.Typed W) (matched : imp.Matches m.thread.stack) :
    RespectsAt W m (runNative r f retPc) Anything := by
  have typed' : Machine.Typed W { m with thread := { m.thread with retPc } } :=
    { typed with thread := { typed.thread with all := { typed.thread.all with } } }
  refine .next rfl (.next rfl ?_)
  refine (respects_native hr typed' body ok matched).attempt.bind fun W' result n _ typed _ _ => ?_
  exact ((respects_goBack _).seq fun _ => .ofExcept fun _ _ _ _ => trivial).at typed

/-- An implementation that accepts what is on the stack. -/
theorem respects_invoke (hr : r.Typed) (retPc : Nat) (typed : m.Typed W) (ok : imp.Typed W)
    (matched : imp.Matches m.thread.stack) : RespectsAt W m (invoke r imp retPc) Anything := by
  refine .note typed fun n typed same => ?_
  cases is : imp.body with
  | native f =>
    refine (respects_runNative hr retPc typed is ok (same ▸ matched)).bind fun W' reply p _ typed' _ _ => ?_
    refine Respects.at ?_ typed'
    split <;> exact .done _
  | lambda body =>
    have started : Respects W (enterLambda ⟨body, ∅⟩ imp.safety retPc) Anything :=
      respects_enterLambda .empty _ _
    exact (started.seq fun c => .done (Reply.control c)).at typed

theorem respects_dispatch (hr : r.Typed) (name : String) (retPc : Nat) :
    Respects W (dispatch r name retPc) Anything := by
  refine (Respects.askShared (P := fun W' imps? => ∀ imps, imps? = some imps → ∀ imp ∈ imps,
    Imp.Typed W' imp) fun W' s _ registry imps found => registry.funcs found).bind
      fun W₁ imps? _ told => ?_
  refine (Respects.orFail (P := fun W' imps => ∀ imp ∈ imps, Imp.Typed W' imp) fun imps found W' le
    imp member => (told imps found imp member).mono le).bind fun W₂ imps _ ok => ?_
  intro W m le typed
  have asked : remembered? imps m = .ok ((m.thread.cache.find? m.thread.pc).filter fun imp =>
    imps.any (·.id == imp.id) && imp.allowed m.thread.safety && imp.fits m.thread.stack) m := rfl
  refine .next asked ?_
  cases usable : (m.thread.cache.find? m.thread.pc).filter fun imp =>
    imps.any (·.id == imp.id) && imp.allowed m.thread.safety && imp.fits m.thread.stack with
  | some imp =>
    obtain ⟨cached, fits⟩ := Option.filter_eq_some_iff.1 usable
    simp only [Bool.and_eq_true] at fits
    exact respects_invoke hr retPc typed (typed.thread.cache.find? cached) (Imp.fits_iff.1 fits.2)
  | none =>
    let t : Thread := { m.thread with cache := m.thread.cache.erase m.thread.pc }
    have thread : t.Typed W :=
      ⟨{ typed.thread.all with }, typed.thread.cache.erase m.thread.pc⟩
    have typed : Machine.Typed W { m with thread := t } := { typed with thread }
    refine .next (n := { m with thread := t }) rfl ?_
    refine .next (n := { m with thread := t }) rfl ?_
    refine .next (n := { m with thread := t }) rfl ?_
    rw [typed.registry.findConv?]
    dsimp only
    cases chosen : choose imps (fun _ _ => none) t.safety t.stack with
    | «exact» imp =>
      obtain ⟨member, matched⟩ := Choice.exact_matches chosen
      have ok := (ok imp member).mono le
      let t' : Thread := { t with cache := t.cache.insert t.pc imp }
      have remembered : t'.Typed W := ⟨{ thread.all with }, thread.cache.insert ok⟩
      have typed : Machine.Typed W { m with thread := t' } := { typed with thread := remembered }
      exact .next (n := { m with thread := t' }) rfl (respects_invoke hr retPc typed ok matched)
    | converted imp plan => exact absurd chosen (Choice.not_converted plan)
    | blocked => exact Respects.at (respects_ask.seq fun _ => .fail _) typed
    | nothing =>
      have described : Respects W describeTop Anything :=
        respects_ask.seq fun _ => respects_askStore.seq fun _ => .done _
      exact Respects.at (described.seq fun _ => .fail _) typed

theorem respects_callOnce (hr : r.Typed) {v : Value} (retPc : Nat) :
    Respects W (callOnce r v retPc) Anything := by
  unfold callOnce
  split
  · exact respects_dispatch hr _ _
  · exact .fail _
  · refine (Respects.askStore (P := fun W' c? => ∀ c : Closure, c? = some c → c.env.All (·.Typed W'))
      fun _ s _ store c found => store.all.closures c (Array.mem_of_getElem? found)).bind
        fun W₁ c? _ told => ?_
    refine (Respects.orFail (P := fun W' c => c.env.All (·.Typed W')) fun c same W' le =>
      (told c same).mono fun _ v => v.mono le).bind fun W₂ c _ env => ?_
    refine respects_ask.bind fun W₃ safety le _ => ?_
    exact (respects_enterLambda (env.mono fun _ v => v.mono le) _ _).seq fun _ => .done _
  · exact .fail _
  · exact respects_orFail.seq fun _ => .done _
  · exact .fail _
  · exact respects_enterFiber _ _
  · exact .fail _
  · exact respects_askStore.seq fun _ => .fail _

theorem respects_settle (hr : r.Typed) (retPc fuel : Nat) (reply : Reply) :
    Respects W (settle r retPc fuel reply) Anything := by
  induction fuel generalizing W reply with
  | zero =>
    cases reply with
    | control c => exact .done c
    | enter v => exact .exhausted
  | succ fuel ih =>
    cases reply with
    | control c => exact .done c
    | enter v => exact (respects_callOnce hr retPc).seq fun reply => ih reply

theorem respects_callFuel : Respects W callFuel Anything :=
  respects_ask.seq fun _ => respects_askStore.seq fun _ => .done _

theorem respects_callValue (hr : r.Typed) (v : Value) (retPc : Nat) :
    Respects W (callValue r v retPc) Anything :=
  respects_callFuel.seq fun _ => respects_settle hr retPc _ _

theorem respects_callName (hr : r.Typed) (name : String) (retPc : Nat) :
    Respects W (callName r name retPc) Anything :=
  respects_callFuel.seq fun _ => (respects_dispatch hr name retPc).seq fun _ =>
    respects_settle hr retPc _ _

end Run

end Catena
