import Catena.Proofs.Run.Close
import Catena.Proofs.Run.Library

/-!
# The changes that operations make
-/

namespace Catena

open Run (Makes)

variable {careful : Prop} {α β : Type} {r : Reentry}

/-- What is chosen as fitting exactly is one of the implementations there are, and allowed. -/
theorem choose_exact {imps : List Imp} {conv : Ty → Ty → Option Value} {safety : Safety}
    {stack : Array Value} {imp : Imp} (h : choose imps conv safety stack = .exact imp) :
    imp ∈ imps ∧ imp.safety ≤ safety := by
  unfold choose at h
  split at h
  · rename_i found
    cases h
    have holds := List.find?_some found
    simp only [Bool.and_eq_true, Imp.allowed, decide_eq_true_eq] at holds
    exact ⟨List.mem_of_find?_eq_some found, holds.2⟩
  · dsimp only at h
    split at h
    · cases h
    · split at h <;> cases h

/-- What is chosen as fitting after conversions is allowed. -/
theorem choose_converted {imps : List Imp} {conv : Ty → Ty → Option Value} {safety : Safety}
    {stack : Array Value} {imp : Imp} {plan : List (Nat × Value)}
    (h : choose imps conv safety stack = .converted imp plan) : imp.safety ≤ safety := by
  unfold choose at h
  split at h
  · cases h
  · dsimp only at h
    split at h
    · rename_i found
      cases h
      obtain ⟨imp', -, planned⟩ := List.exists_of_findSome?_eq_some found
      split at planned
      · rename_i allowed
        cases fit : imp'.plan? conv stack with
        | none => rw [fit] at planned; cases planned
        | some p => rw [fit] at planned; cases planned; exact of_decide_eq_true allowed
      · cases planned
    · split at h <;> cases h

namespace Run

/-! ## Calls -/

/-- What is remembered is used only where it is allowed. -/
theorem remembered?_ok {imps : List Imp} {cached : Option Imp} {m n : Machine}
    (h : remembered? imps m = .ok cached n) :
    n = m ∧ ∀ imp, cached = some imp → imp.safety ≤ m.thread.safety := by
  cases h
  refine ⟨rfl, fun imp usable => ?_⟩
  have holds := (Option.filter_eq_some_iff.1 usable).2
  simp only [Bool.and_eq_true, Imp.allowed, decide_eq_true_eq] at holds
  exact holds.1.2

/-- An implementation is invoked that was chosen where its level is allowed. -/
theorem invoke_deeds (hr : r.Makes careful) (imp : Imp) (retPc : Nat) {m n : Machine}
    (chosen : Deeds careful m n) (level : imp.safety ≤ m.thread.safety) :
    Deeds careful m ((invoke r imp retPc).after n) := by
  refine related_then chosen (makes_note _ _) fun _ p _ noted => ?_
  cases imp.body with
  | native f =>
    refine related_then noted ((flat_runNative f retPc).makes hr) fun reply q _ done => ?_
    split <;> exact done
  | lambda body =>
    refine after_pure (enterLambda ⟨body, ∅⟩ imp.safety retPc) Reply.control p ▸ ?_
    exact enterLambda_deeds ⟨body, ∅⟩ retPc noted level

theorem makes_dispatch (hr : r.Makes careful) (name : String) (retPc : Nat) :
    Makes (Deeds careful) (dispatch r name retPc) := by
  intro m
  refine related_bind (Makes.askShared _) fun imps? n h => ?_
  cases h
  refine related_bind (Makes.orFail _ _) fun imps n h => ?_
  obtain ⟨known, rfl⟩ := orFail_ok h
  refine related_bind (Makes.ask _) fun cached n h => ?_
  cases h
  dsimp only
  split
  · rename_i imp found
    have allowed := Option.filter_eq_some_iff.1 found
    simp only [Bool.and_eq_true, Imp.allowed, decide_eq_true_eq] at allowed
    exact invoke_deeds hr imp retPc (.refl _) allowed.2.1.2
  refine related_bind (.alter fun t => .of_scopes (.eraseCache t t.pc) rfl rfl rfl) fun _ n h => ?_
  cases h
  refine related_bind (Makes.askShared _) fun registry n h => ?_
  cases h
  refine related_bind (Makes.ask _) fun choice n h => ?_
  cases h
  dsimp only
  split
  · rename_i imp chosen
    obtain ⟨member, level⟩ := choose_exact chosen
    refine invoke_deeds hr imp retPc ?_ level
    exact Deed.deeds (.remember imp name imps known member)
  · rename_i imp plan chosen
    refine related_then (.refl _) (makes_note _ _) fun _ p _ noted => ?_
    refine related_then noted ((flat_convert _ _).makes hr) fun _ q _ converted => ?_
    exact invoke_deeds hr imp retPc converted (choose_converted chosen)
  · exact ((Makes.ask _).bind fun _ => .fail _) _
  · exact ((flat_describeTop.makes hr).bind fun _ => .fail _) _

theorem makes_callOnce (hr : r.Makes careful) (v : Value) (retPc : Nat) :
    Makes (Deeds careful) (callOnce r v retPc) := by
  unfold callOnce
  split
  · exact makes_dispatch hr _ _
  · exact .fail _
  · refine (Makes.askStore _).bind fun _ => (Makes.orFail _ _).bind fun c m => ?_
    refine related_bind (Makes.ask _) fun level n h => ?_
    cases h
    refine after_pure (enterLambda c m.thread.safety retPc) Reply.control m ▸ ?_
    exact enterLambda_deeds c retPc (.refl m) (Safety.le_refl _)
  · exact .fail _
  · exact ((flat_labelPc _).makes hr).bind fun _ => .pure _
  · exact .fail _
  · exact makes_enterFiber _ _
  · exact .fail _
  · exact (Makes.askStore _).bind fun _ => .fail _

theorem makes_settle (hr : r.Makes careful) (retPc fuel : Nat) (reply : Reply) :
    Makes (Deeds careful) (settle r retPc fuel reply) := by
  induction fuel generalizing reply with
  | zero =>
    cases reply with
    | control c => exact .pure c
    | enter v => exact .exhausted
  | succ fuel ih =>
    cases reply with
    | control c => exact .pure c
    | enter v => exact (makes_callOnce hr v retPc).bind ih

theorem makes_callValue (hr : r.Makes careful) (v : Value) (retPc : Nat) :
    Makes (Deeds careful) (callValue r v retPc) :=
  (flat_callFuel.makes hr).bind fun _ => makes_settle hr _ _ _

theorem makes_callName (hr : r.Makes careful) (name : String) (retPc : Nat) :
    Makes (Deeds careful) (callName r name retPc) :=
  (flat_callFuel.makes hr).bind fun _ => (makes_dispatch hr _ _).bind fun _ => makes_settle hr _ _ _

/-! ## Names and places -/

theorem makes_lookUp (hr : r.Makes careful) (name : String) : Makes (Deeds careful) (lookUp r name) := by
  refine (Makes.askShared _).bind fun (isFunc, t?) => ?_
  dsimp only
  split
  · exact (Makes.ask _).bind fun _ => makes_callName hr _ _
  · split
    · exact ((flat_push _).makes hr).bind fun _ => .pure _
    · exact .fail _

/-! ## Try forms, loops and generic types -/

theorem makes_openTry (donePc : Nat) : Makes (Deeds careful) (openTry donePc) := by
  refine (Makes.ask _).bind_of fun m safety n h => ?_
  cases h
  rw [after_bind]
  cases opened : openBlock true m.thread.safety m with
  | error e n => exact after_error opened ▸ openBlock_deeds (.inl rfl)
  | ok a n =>
    obtain ⟨room, rfl⟩ := openBlock_ok opened
    have scope : (m.thread.openBlock true m.thread.safety).scopes.size - 1 = m.thread.scopes.size := by
      simp [Thread.openBlock]
    exact (Deed.openTry _ room scope).deeds

theorem makes_closeTry (hr : r.Makes careful) : Makes (Deeds careful) (closeTry r) := by
  refine (Makes.ask _).bind fun frame? => (Makes.orFail _ _).bind fun frame => ?_
  refine Makes.bind (.alter fun t => .of_scopes (.popTries t) rfl rfl rfl) fun _ => (makes_closeScope hr true).bind fun _ => ?_
  have rest (v : Value) : Makes (Deeds careful) (do push v; return .next : Run Control) :=
    ((flat_push v).makes hr).bind fun _ => .pure _
  dsimp only
  split
  · exact rest _
  · exact ((flat_errorList _).makes hr).bind rest

/-- The loops of the innermost scope stay without a program counter twice. -/
theorem makes_alterLoops {f : Dict Nat LoopState → Dict Nat LoopState}
    (h : ∀ d, d.keys.Nodup → (f d).keys.Nodup) : Makes (Deeds careful) (alterLoops f) :=
  .alter fun t => .alterScope t _ _ (fun _ => rfl) fun s => h s.loops

theorem makes_beginFor (hr : r.Makes careful) (pc donePc : Nat) : Makes (Deeds careful) (beginFor pc donePc) :=
  (flat_pop.makes hr).bind fun _ => (flat_pop.makes hr).bind fun _ => ((flat_iterate _).makes hr).bind fun _ =>
    makes_alterLoops fun d => d.nodup_insert pc _

theorem makes_nextFor (hr : r.Makes careful) (pc donePc : Nat) :
    Makes (Deeds careful) (nextFor r pc donePc) := by
  refine ((flat_loopAt? pc).makes hr).bind fun running => ?_
  split
  · refine ((flat_pull _).makes hr).bind fun pulled => ?_
    cases pulled with
    | item v => exact ((flat_push v).makes hr).bind fun _ => makes_callValue hr _ _
    | pending => exact .pure _
    | done => exact (makes_alterLoops fun d => d.nodup_erase pc).bind fun _ => .pure _
  · exact .fail _

theorem makes_stepFor (hr : r.Makes careful) (donePc : Nat) : Makes (Deeds careful) (stepFor r donePc) := by
  refine (Makes.ask _).bind fun pc => ((flat_loopAt? pc).makes hr).bind fun running => ?_
  dsimp only
  split
  · exact (makes_beginFor hr _ _).bind fun _ => makes_nextFor hr _ _
  · exact makes_nextFor hr _ _

theorem makes_stepWhile (hr : r.Makes careful) (donePc : Nat) :
    Makes (Deeds careful) (stepWhile r donePc) := by
  refine (Makes.ask _).bind fun pc => ((flat_loopAt? pc).makes hr).bind fun running => ?_
  split
  · exact (flat_pop.makes hr).bind fun body => (makes_alterLoops fun d => d.nodup_insert pc _).bind fun _ =>
      makes_callValue hr _ _
  · refine (flat_pop.makes hr).bind fun condition => ?_
    split
    · exact makes_callValue hr _ _
    · exact (makes_alterLoops fun d => d.nodup_erase pc).bind fun _ => .pure _
  · exact .fail _

theorem makes_endOnFault {step : Run Control} (h : Makes (Deeds careful) step) :
    Makes (Deeds careful) (endOnFault step) := by
  refine h.attempt.bind fun result => ?_
  cases result with
  | ok c => exact .pure c
  | error e =>
    exact (Makes.ask _).bind fun pc =>
      (makes_alterLoops fun d => d.nodup_erase pc).bind fun _ => .fail e

/-! ## Operations -/

theorem makes_exit (hr : r.Makes careful) (label : Label) : Makes (Deeds careful) (exit r label) := by
  unfold exit
  split
  · exact makes_exitReturn _
  · exact makes_recallFrom hr _
  · exact makes_suspend _
  · exact makes_exitLoop _
  · exact .fail _

/-- What an operation does in order to go on with the next one. -/
theorem Makes.thenGoOn {x : Run Unit} (hx : Makes (Deeds careful) x) :
    Makes (Deeds careful) (do x; return .next : Run Control) :=
  hx.bind fun _ => .pure _

/-- What an operation of the thread does. -/
theorem exec_deeds (hr : r.Makes careful) {op : Op} {m : Machine} (there : op ∈ m.thread.ops) :
    Deeds careful m ((exec r op).after m) := by
  cases flat : op.isFlat with
  | true => exact (flat_exec flat).makes hr m
  | false =>
    cases op with
    | deref name => exact makes_lookUp hr name m
    | call name => exact Makes.bind (.ask _) (fun _ => makes_callName hr _ _) m
    | bind name => exact (flat_pop.makes hr).bind (fun _ => (makes_bind _ _).thenGoOn) m
    | unlambda id => exact makes_exitReturn 0 m
    | exit label id => exact makes_exit hr label m
    | begin ownStack safety =>
      refine related_bind (Makes.ask _) fun level n h => ?_
      cases h
      refine after_pure (openBlock ownStack (safety.getD m.thread.safety))
        (fun _ => Control.next) m ▸ openBlock_deeds ?_
      cases safety with
      | none => exact .inl rfl
      | some level => exact .inr there
    | close => exact (makes_closeScope hr true).thenGoOn m
    | closeList =>
      exact Makes.bind (.ask _) (fun _ => ((flat_alterStack _).makes hr).bind fun _ =>
        (makes_closeScope hr false).bind fun _ => ((flat_listFrom _).makes hr).bind fun _ =>
          ((flat_push _).makes hr).thenGoOn) m
    | «try» done => exact ((flat_labelPc done).makes hr).bind (fun _ => makes_openTry _) m
    | closeTry => exact makes_closeTry hr m
    | «for» done =>
      exact ((flat_endPc _ _).makes hr).bind (fun _ => makes_endOnFault (makes_stepFor hr _)) m
    | «while» done =>
      exact ((flat_endPc _ _).makes hr).bind (fun _ => makes_endOnFault (makes_stepWhile hr _)) m
    | _ => cases flat

end Run

end Catena
