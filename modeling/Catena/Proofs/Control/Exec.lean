import Catena.Proofs.Control.Leaves

/-!
# What operations lead to

Each operation that is executed where its scopes are right leads to a place where they are right, and so
does what is left of it if it fails (`leading_exec`).
-/

namespace Catena

/-- Operations that end a form close its scope. -/
def Op.closesScope : Op → Bool
  | .close | .closeList | .closeTry => true
  | _ => false

/-- The scope that an operation closes, if it ends a form, is one that the run has opened, or else it is
known of what it is. -/
def Machine.Owns (G : Ground) (op : Op) (m : Machine) : Prop :=
  op.closesScope = true → G.known ∨ G.base < m.thread.scopes.size

/-- How many of so many scopes an operation may close. -/
def Op.sheds (size : Nat) : Op → Nat
  | .close | .closeList | .closeTry => 1
  | .exit _ _ | .unlambda _ => size
  | _ => 0

namespace Run

variable {α : Type} {ops : List Op} {G : Ground} {lost : Nat} {r : Reentry} {m : Machine} {op : Op}
  {P : α → Prop}

/-! ## Operations that stay -/

theorem stable_valueOf (name : String) : Stable ops (valueOf name) Value.Tame := by
  apply Stable.bind (P := fun v? => ∀ v, v? = some v → Value.Tame v)
  · exact .ask fun t orderly v found => orderly.all.env.find? found
  · exact fun v? told => .orFail told

/-- No name refers to a label. -/
theorem stable_reference (name : String) : Stable ops (reference name) Value.Tame := by
  apply Stable.bind (P := fun registry => Registry.Unlabelled registry)
  · exact .askShared fun s _ registry => registry.labels
  intro registry unlabelled
  split
  · exact .pure fun _ same => by cases same
  · split
    · rename_i l found
      rw [unlabelled name] at found
      cases found
    · exact .fail _

theorem stable_part (p : FmtPart) : Stable ops (part p) Untold := by
  cases p with
  | text s => exact .done s
  | var name literal => exact (stable_valueOf name).seq fun v => .askedStore _

theorem stable_checkTop (t : Ty) : Stable ops (checkTop t) Untold := by
  apply (stable_peek "check").seq
  intro v
  split
  · exact .fail _
  · exact .done _

theorem stable_report (f : Fault) : Stable ops (report f) Untold := by
  apply (Stable.asked _).seq
  intro tries
  apply Stable.refuse
  intro _
  apply (stable_note _ _).seq
  exact fun _ => stable_collect (· ++ [f])

theorem stable_openParam (id : Nat) : Stable ops
    (alter fun t => { t with params := ⟨id, t.scopes.size, t.stack.size⟩ :: t.params }) Untold :=
  .alter (.params (fun t => ⟨id, t.scopes.size, t.stack.size⟩ :: t.params) fun _ _ => rfl)
    fun _ all => { all with }

theorem Stable.goOn {x : Run α} (hx : Stable ops x P) :
    Stable ops (do let _ ← x; return Control.next) (· = .next) :=
  hx.seq fun _ => .pure rfl

theorem stable_closeParam (id : Nat) (template : String) :
    Stable ops (closeParam id template) (· = .next) := by
  apply (Stable.asked _).seq
  intro params
  apply (Stable.orFail (P := Untold) fun _ _ => trivial).seq
  intro mark
  have tidy : Thread.Tidy fun t => { t with params := t.params.eraseP fun p => p.id == id } :=
    .params (fun t => t.params.eraseP fun p => p.id == id) fun _ _ => rfl
  apply (Stable.alter tidy fun _ all => { all with }).seq
  intro _
  apply (Stable.asked _).seq
  intro values
  apply (stable_alterStack fun _ old => Values.extracted _ _ old).seq
  intro _
  apply (Stable.mapM (A := fun _ => True) (B := Untold) (fun _ _ => trivial)
    fun v _ => .orFail fun _ _ => trivial).seq
  intro args
  apply (stable_instantiateNamed template args).seq
  exact fun t => (stable_push (v := .type t) fun _ => nofun).goOn

theorem stable_closeTest (message : String) : Stable ops (closeTest message) (· = .next) := by
  apply stable_pop.seq
  intro v
  split
  · exact .pure rfl
  · apply (Stable.askedStore _).seq
    exact fun text => (stable_report _).goOn

/-! ## All operations -/

theorem leading_lookUp (here : m.At ops G) (paved : Paved ops) (hr : r.Sound ops)
    (name : String) (next : m.thread.Seated ops G (m.thread.pc + 1)) :
    Leading ops G lost (lookUp r name) m := by
  rw [lookUp]
  apply Meets.next rfl
  cases m.shared.registry.funcs.contains name with
  | true =>
    refine Meets.next (x := ask (·.pc)) rfl ?_
    exact Leading.call (comes_callName paved hr name _) here next
  | false =>
    cases m.shared.registry.types.find? name with
    | none => exact .of_fault (n := m) rfl (Machine.Stands.refl here).fell
    | some t =>
      obtain ⟨remains, -⟩ := (stable_push (v := .type t) (fun _ => nofun) m here.orderly).ok rfl
      have seated := remains.still.seated next
      rw [← remains.still.pc] at seated
      exact .of_ok rfl ((remains.stands here).leads seated trivial)

theorem leading_jump (here : m.At ops G) (paved : Paved ops) (runs : G.Runs ops m.thread.pc)
    {name : String} {label : Option Label} (found : ops[m.thread.pc]? = some (.jump name label)) :
    Leading ops G lost (exec r (.jump name label)) m := by
  cases label with
  | some l =>
    obtain ⟨k, op, after, loop, isLoop, pos, place⟩ := paved.jump_at found
    apply Meets.next (a := k - 1) (n := m)
    · rw [jumpPc, labelPc, place]
      rfl
    · apply Leading.jump here
      exact here.seated.around_loop paved runs loop isLoop ⟨by omega, by omega⟩ ⟨by omega, by omega⟩
  | none =>
    have unlabelled := here.orderly.registry.labels name
    apply Meets.of_fault (n := m) (f := Fault.unknownLabel name)
    · rw [exec, bind_apply, jumpPc, bind_apply, askShared]
      dsimp only
      rw [unlabelled]
      rfl
    · exact (Machine.Stands.refl here).fell

theorem leading_lambda (here : m.At ops G) (paved : Paved ops) (runs : G.Runs ops m.thread.pc)
    {body : LambdaDef} {kind : LambdaKind} {skip : Option Label}
    (found : ops[m.thread.pc]? = some (.lambda body kind skip)) :
    Leading ops G lost (exec r (.lambda body kind skip)) m := by
  obtain ⟨-, -, l, x, rfl, place, same⟩ := paved.lambda_at found
  apply Meets.next (a := x) (n := m)
  · show labelPc l m = .ok x m
    rw [labelPc, place]
    rfl
  have known : body ∈ bodies ops := List.mem_filterMap.2 ⟨_, List.mem_of_getElem? found, rfl⟩
  have skips (n : Machine) (stands : m.Stands ops G n) :
      Leading ops G lost (Pure.pure (.jump x)) n := by
    apply Leading.jump stands.here
    have seated := stands.here.seated
    rw [stands.pc] at seated
    exact seated.skip paved (fun _ => runs) found rfl same
  split
  · have made : Stable ops (do push (← newClosure ⟨body, ← ask (·.env)⟩)) Untold := by
      apply Stable.bind (P := fun env : Env => env.All Value.Tame)
      · exact .ask fun t orderly => orderly.all.env
      intro env all
      apply (stable_newClosure (c := ⟨body, env⟩) known all).bind
      exact fun v tame => stable_push tame
    have leads := Leading.bind (made.standing here) fun _ n _ stands => skips n stands
    simp only [bind_assoc] at leads
    exact leads
  · exact skips m (.refl here)

theorem leading_exit (here : m.At ops G) (paved : Paved ops) (hr : r.Sound ops) (pos : 1 ≤ G.base)
    (runs : G.Runs ops m.thread.pc) (next : m.thread.Seated ops G (m.thread.pc + 1)) {label : Label}
    {lambda : Option Nat} (found : ops[m.thread.pc]? = some (.exit label lambda)) :
    Leading ops G m.thread.scopes.size (exit r label) m := by
  unfold exit
  split
  · exact leading_exitReturn here _
  · exact leading_recallFrom hr here paved pos _
  · exact leading_suspend here pos next _
  · rename_i depth role
    refine leading_exitLoop here paved runs (fun unbroken => ?_) depth
    rw [← here.orderly.thread.ops, Array.getElem?_toList] at found
    have stays := unbroken _ (Array.mem_of_getElem? found)
    rw [Op.breaks, role] at stays
    cases stays
  · exact .fail _ here

/-- A loop begins or goes on. -/
theorem leading_loop (paved : Paved ops) {what : String}
    {done : Option Label} (loop : op = .for done ∨ op = .while done) (found : ops[m.thread.pc]? = some op)
    {step : Nat → Run Control} (leads : Leading ops G lost (step (m.thread.pc + 2)) m) :
    Leading ops G lost (do let pc ← endPc what done; endOnFault (step pc)) m := by
  have isLoop : op.isLoop = true := by rcases loop with rfl | rfl <;> rfl
  obtain ⟨start, finish, -, -, -, -, shape, place, -⟩ := paved.loop_at found isLoop
  obtain rfl : done = some finish := by
    rcases loop with rfl | rfl <;> rcases shape with same | same <;> cases same <;> rfl
  apply Meets.next (a := m.thread.pc + 2) (n := m)
  · show labelPc finish m = .ok _ m
    rw [labelPc, place]
    rfl
  · exact leading_endOnFault leads

theorem leading_exec (here : m.At ops G) (paved : Paved ops) (hr : r.Sound ops) (pos : 1 ≤ G.base)
    (runs : G.Runs ops m.thread.pc) (own : m.Owns G op) (found : ops[m.thread.pc]? = some op) :
    Leading ops G (op.sheds m.thread.scopes.size) (exec r op) m := by
  have goesOn (inner : op.isBorder = false) (other : op.isLoop = false)
      (stays : op.isJump = false) : m.thread.Seated ops G (m.thread.pc + 1) :=
    here.seated.next paved runs found inner other stays
  have next {x : Run Control} (hx : Stable ops x (· = .next)) (inner : op.isBorder = false)
      (other : op.isLoop = false) (stays : op.isJump = false) :
      Leading ops G (op.sheds m.thread.scopes.size) x m :=
    .next hx here paved runs found inner other stays
  have tame : op.All Value.Tame := by
    have member := List.mem_of_getElem? found
    rw [← here.orderly.thread.ops] at member
    exact here.orderly.thread.all.ops op (Array.mem_toList_iff.1 member)
  cases op with
  | push v => exact next (stable_push tame).goOn rfl rfl rfl
  | pushMany vs => exact next (stable_pushEach tame).goOn rfl rfl rfl
  | drop n => exact next (stable_popN n).goOn rfl rfl rfl
  | check t? =>
    cases t? with
    | some t => exact next (stable_checkTop t).goOn rfl rfl rfl
    | none => exact next (stable_popType.seq fun t => (stable_checkTop t).goOn) rfl rfl rfl
  | deref name => exact leading_lookUp here paved hr name (goesOn rfl rfl rfl)
  | call name =>
    rw [exec]
    refine Meets.next (x := ask (·.pc)) rfl ?_
    exact Leading.call (comes_callName paved hr name _) here (goesOn rfl rfl rfl)
  | ref name => exact next ((stable_reference name).bind fun v told => (stable_push told).goOn) rfl rfl rfl
  | get name => exact next ((stable_valueOf name).bind fun v told => (stable_push told).goOn) rfl rfl rfl
  | bind name =>
    have bound : Standing ops G (do bind name (← pop)) Untold m :=
      (stable_pop.standing here).bind fun v n tame stands => standing_bind stands.here name tame
    have leads : Leading ops G 0 ((do bind name (← pop)) >>= fun _ => Pure.pure .next) m :=
      Leading.bind bound fun _ n _ stands => .of_ok (n := n) rfl
        ((Machine.Stands.refl stands.here).leads (stands.next paved runs found rfl rfl rfl) trivial)
    rw [bind_assoc] at leads
    exact leads
  | fmt parts =>
    have texts : Stable ops (parts.mapM part) Untold :=
      (Stable.mapM (A := fun _ => True) (B := Untold) (fun _ _ => trivial) fun p _ => stable_part p).forget
    exact next (texts.seq fun texts => (stable_push (v := .str (String.join texts)) (by rintro _ ⟨⟩)).goOn)
      rfl rfl rfl
  | target l => exact next (.pure rfl) rfl rfl rfl
  | jump name label => exact leading_jump here paved runs found
  | lambda body kind skip => exact leading_lambda here paved runs found
  | unlambda id => exact leading_exitReturn here 0
  | exit label lambda => exact leading_exit here paved hr pos runs (goesOn rfl rfl rfl) found
  | begin ownStack safety =>
    rw [exec]
    refine Meets.next (x := ask Thread.safety) rfl ?_
    exact leading_begin here runs found _
  | close => exact leading_close hr here paved pos runs (own rfl) found
  | closeList => exact leading_closeList hr here paved pos runs (own rfl) found
  | «try» done =>
    obtain ⟨x, place, -⟩ := paved.try_at found
    apply Meets.next (a := x) (n := m)
    · rw [labelPc, place]
      rfl
    · exact leading_openTry here runs found place
  | closeTry => exact leading_closeTry hr here paved pos runs (own rfl) found
  | closeTest message => exact next (stable_closeTest message) rfl rfl rfl
  | «for» done => exact leading_loop paved (.inl rfl) found (leading_stepFor here paved hr runs found rfl)
  | «while» done =>
    exact leading_loop paved (.inr rfl) found (leading_stepWhile here paved hr runs found rfl)
  | param id => exact next (stable_openParam id).goOn rfl rfl rfl
  | unparam id template => exact next (stable_closeParam id template) rfl rfl rfl

end Run

end Catena
