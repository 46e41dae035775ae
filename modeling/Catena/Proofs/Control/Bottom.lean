import Catena.Proofs.Control.Adrift

/-!
# The variables of the bottom scope

Scopes that come and go on top of the bottom scope leave its variables alone: what will be in force once
only that scope is left is what it was (`Machine.Spares`). So is what all operations do, also as they fail,
but for the one that binds a variable where no other scope is open (`Run.sparing_exec`), and so is what
comes of a fault (`Run.sparing_recover`).
-/

namespace Catena

/-- What will be in force in the bottom scope alone is what it was. -/
structure Machine.Spares (ops : List Op) (m n : Machine) : Prop where
  orderly : n.Orderly ops
  loopBase : n.thread.loopBase = m.thread.loopBase
  env : Env.Same (n.thread.under 1) (m.thread.under 1)

variable {ops : List Op} {G : Ground} {m n p : Machine} {lost left back : Nat}

namespace Machine

theorem Spares.refl (orderly : m.Orderly ops) : m.Spares ops m := ⟨orderly, rfl, .refl _⟩

theorem Spares.trans (h : m.Spares ops n) (k : n.Spares ops p) : m.Spares ops p :=
  ⟨k.orderly, k.loopBase.trans h.loopBase, k.env.trans h.env⟩

theorem Spares.goTo (h : m.Spares ops n) (pc : Nat) :
    m.Spares ops { n with thread := { n.thread with pc } } :=
  ⟨{ h.orderly with thread := h.orderly.thread.goTo pc }, h.loopBase, h.env⟩

theorem Remains.spares (h : m.Remains ops n) : m.Spares ops n :=
  ⟨h.orderly, h.still.keeps.loopBase, h.still.under 1⟩

/-- The bottom scope is never closed. -/
theorem Closes.spares (h : m.Closes ops lost left n) : m.Spares ops n := by
  have pos : 1 ≤ n.thread.scopes.size := Nat.pos_of_ne_zero h.orderly.thread.rooted
  exact ⟨h.orderly, h.lowered.keeps.loopBase, (h.lowered.keeps.mono pos (Nat.le_refl _)).env⟩

theorem Called.spares {c : Control} (h : m.Called ops back c n) (rooted : m.thread.scopes.size ≠ 0) :
    m.Spares ops n := by
  obtain ⟨pc, -, enters⟩ := h
  exact ⟨enters.orderly, enters.loopBase, enters.under (Nat.pos_of_ne_zero rooted)⟩

/-- A calm change of the thread. -/
theorem Spares.of_calm {t : Thread} (orderly : Machine.Orderly ops { m with thread := t })
    (loopBase : t.loopBase = m.thread.loopBase) (calm : m.thread.Calm t) :
    m.Spares ops { m with thread := t } :=
  ⟨orderly, loopBase, fun name => by rw [calm.under]⟩

end Machine

/-- The innermost scope has bound a variable. -/
structure Machine.Binds (ops : List Op) (name : String) (v : Value) (m n : Machine) : Prop where
  orderly : n.Orderly ops
  loopBase : n.thread.loopBase = m.thread.loopBase
  size : n.thread.scopes.size = m.thread.scopes.size
  env : Env.Same n.thread.env (m.thread.env.insert name v)
  below : 2 ≤ m.thread.scopes.size → Env.Same (n.thread.under 1) (m.thread.under 1)

theorem Machine.Remains.binds {name : String} {v : Value} (h : m.Remains ops n) (tame : v.Tame) :
    m.Binds ops name v { n with thread := n.thread.bind name v } := by
  have size := h.still.size
  constructor
  · exact { h.orderly with thread := h.orderly.thread.bind name tame }
  · exact h.still.keeps.loopBase
  · exact (Thread.size_bind ..).trans size
  · exact h.still.env.insert name v
  · intro above
    exact (Thread.bind_under (i := 1) n.thread name v (size ▸ above)).trans (h.still.under 1)

namespace Run

variable {α β : Type} {r : Reentry} {P : α → Prop} {op : Op}

/-- The computation of a run that stays above the bottom scope spares its variables, and its answer is as
told. -/
def Sparing (ops : List Op) (x : Run α) (P : α → Prop) : Prop :=
  ∀ m : Machine, m.Orderly ops → 1 ≤ m.thread.loopBase →
    Meets ops m x (fun a n => m.Spares ops n ∧ P a) (m.Spares ops)

namespace Sparing

theorem bind {x : Run α} {k : α → Run β} {Q : β → Prop} (hx : Sparing ops x P)
    (rest : ∀ a, P a → Sparing ops (k a) Q) : Sparing ops (x >>= k) Q := by
  intro m orderly above
  apply (hx m orderly above).bind
  intro a n _ ⟨spares, told⟩
  apply (rest a told n spares.orderly (spares.loopBase ▸ above)).mono
  · exact fun _ _ _ later => ⟨spares.trans later.1, later.2⟩
  · exact fun _ later => spares.trans later

theorem forget {x : Run α} (hx : Sparing ops x P) : Sparing ops x Untold := fun m orderly above =>
  (hx m orderly above).mono (fun _ _ _ both => ⟨both.1, trivial⟩) fun _ spares => spares

theorem seq {x : Run α} {k : α → Run β} {Q : β → Prop} (hx : Sparing ops x P)
    (rest : ∀ a, Sparing ops (k a) Q) : Sparing ops (x >>= k) Q :=
  hx.bind fun a _ => rest a

theorem done (a : α) : Sparing ops (Pure.pure a) Untold := fun m orderly _ =>
  .of_ok (n := m) rfl ⟨.refl orderly, trivial⟩

theorem fail (f : Fault) : Sparing ops (Run.fail f) P := fun m orderly _ =>
  .of_fault (n := m) rfl (.refl orderly)

/-- A test that the rest comes after. -/
theorem refuse {refused : Prop} [Decidable refused] {f : Fault} {k : Unit → Run α}
    (rest : ¬refused → Sparing ops (k ()) P) :
    Sparing ops (if refused then Run.fail f >>= k else k ()) P := by
  intro m orderly above
  exact .refuse (fun _ => .refl orderly) fun passes => rest passes m orderly above

theorem goOn {x : Run α} (hx : Sparing ops x P) :
    Sparing ops (do let _ ← x; return Control.next) Untold :=
  hx.seq fun _ => done _

end Sparing

theorem Stable.sparing {x : Run α} (hx : Stable ops x P) : Sparing ops x P := by
  intro m orderly _
  apply (hx m orderly).mono
  · exact fun _ _ _ both => ⟨both.1.spares, both.2⟩
  · exact fun _ remains => remains.spares

theorem Comes.sparing {x : Run Control} {back : Nat} (hx : Comes ops x (Machine.Called ops back)) :
    Sparing ops x Untold := by
  intro m orderly _
  apply (hx m orderly).mono
  · exact fun _ _ _ called => ⟨called.spares orderly.thread.rooted, trivial⟩
  · exact fun _ remains => remains.spares

/-! ## Scopes that open and close -/

theorem sparing_openBlock (ownStack : Bool) (safety : Safety) :
    Sparing ops (openBlock ownStack safety) Untold := by
  intro m orderly _
  have pos : 1 ≤ m.thread.scopes.size := Nat.pos_of_ne_zero orderly.thread.rooted
  apply meets_openBlock ownStack safety orderly (.refl orderly)
  intro stack
  refine ⟨⟨{ orderly with thread := orderly.thread.openBlock ownStack safety stack }, rfl, ?_⟩, trivial⟩
  have under : (m.thread.openBlock ownStack safety).under 1 = m.thread.under 1 :=
    Thread.under_push rfl rfl pos
  rw [under]
  exact .refl _

theorem sparing_openTry (donePc : Nat) : Sparing ops (openTry donePc) Untold := by
  intro m orderly _
  have pos : 1 ≤ m.thread.scopes.size := Nat.pos_of_ne_zero orderly.thread.rooted
  apply Meets.next rfl
  apply Meets.bind (P := fun _ n => n = { m with thread := m.thread.openBlock true m.thread.safety })
  · exact meets_openBlock true _ orderly (.refl orderly) fun _ => rfl
  rintro _ n - rfl
  refine .of_ok (n := { m with thread := m.thread.beginTry donePc }) rfl ⟨⟨?_, rfl, ?_⟩, trivial⟩
  · exact { orderly with thread := orderly.thread.beginTry donePc }
  · have under : (m.thread.beginTry donePc).under 1 = m.thread.under 1 := Thread.under_push rfl rfl pos
    rw [under]
    exact .refl _

theorem sparing_closeScope (hr : r.Sound ops) (keepTop : Bool) :
    Sparing ops (closeScope r keepTop) Untold := by
  intro m orderly _
  rcases Nat.lt_or_ge m.thread.scopes.size 2 with few | more
  · exact .of_fault (closeScope_root few keepTop) (.refl orderly)
  · apply (meets_closeScope hr keepTop orderly more).mono
    · exact fun _ _ _ shuts => ⟨shuts.toCloses.spares, trivial⟩
    · exact fun _ shuts => shuts.toCloses.spares

theorem sparing_closeTry (hr : r.Sound ops) : Sparing ops (closeTry r) Untold := by
  have popTries : Sparing ops (alter fun t => { t with tries := t.tries.pop }) Untold := by
    intro m orderly _
    have popped := (sinking_popTries m orderly).ok rfl
    exact .of_ok rfl ⟨⟨popped.1.orderly, rfl, .refl _⟩, trivial⟩
  have answers {x : Run Value} (hx : Stable ops x Value.Tame) :
      Sparing ops (do push (← x); return Control.next) Untold :=
    (hx.bind fun v told => (stable_push told).goOn).sparing.forget
  apply (Stable.asked _).sparing.seq
  intro frame?
  apply (Stable.orFail (P := Untold) fun _ _ => trivial).sparing.seq
  intro frame
  apply popTries.seq
  intro _
  apply (sparing_closeScope hr true).seq
  intro _
  dsimp only
  split
  · exact answers (.pure fun _ same => by cases same)
  · exact answers (stable_errorList frame.faults)

/-! ## Loops -/

theorem sparing_dropLoop (k : Nat) : Sparing ops (alterLoops (·.erase k)) Untold := by
  intro m orderly _
  have calm : m.thread.Calm (m.dropLoop k).thread :=
    .alterScope m.thread _ _ (fun _ => rfl) fun s => s.loops.nodup_erase k
  exact .of_ok rfl ⟨.of_calm (orderly.dropLoop _ k) rfl calm, trivial⟩

theorem sparing_addLoop (k donePc : Nat) (kind : LoopKind) (tame : kind.body.Tame) :
    Sparing ops (alterLoops (·.insert k ⟨kind, donePc⟩)) Untold := by
  intro m orderly _
  let f (s : Scope) : Scope := { s with loops := s.loops.insert k ⟨kind, donePc⟩ }
  have nodup (s : Scope) (old : s.loops.keys.Nodup) : (f s).loops.keys.Nodup := s.loops.nodup_insert k _ old
  have added : Machine.Orderly ops { m with thread := m.thread.modifyScope f } :=
    { orderly with
      thread := orderly.thread.alterScope _ (fun _ => rfl) nodup
        fun s all => { all with loops := all.loops.insert tame } }
  exact .of_ok rfl ⟨.of_calm added rfl (.alterScope _ _ f (fun _ => rfl) nodup), trivial⟩

theorem sparing_ended (k pc : Nat) :
    Sparing ops (do alterLoops (·.erase k); return Control.jump pc) Untold :=
  (sparing_dropLoop k).seq fun _ => .done _

theorem sparing_nextFor (paved : Paved ops) (hr : r.Sound ops) (pc donePc : Nat) :
    Sparing ops (nextFor r pc donePc) Untold := by
  apply (stable_loopAt pc).sparing.bind
  intro loop? told
  split
  · rename_i iter body _
    apply (stable_pull hr iter).sparing.bind
    intro pulled tame
    cases pulled with
    | item v =>
      apply (stable_push tame).sparing.seq
      exact fun _ => (comes_callValue paved hr (told _ rfl) _).sparing
    | pending => exact .done _
    | done => exact sparing_ended pc donePc
  · exact .fail _

theorem sparing_stepFor (paved : Paved ops) (hr : r.Sound ops) (donePc : Nat) :
    Sparing ops (stepFor r donePc) Untold := by
  apply (Stable.asked _).sparing.seq
  intro pc
  apply (stable_loopAt pc).sparing.seq
  intro loop?
  have begins : Sparing ops (beginFor pc donePc) Untold := by
    apply stable_pop.sparing.bind
    intro body tame
    apply stable_pop.sparing.seq
    intro seq
    apply (stable_iterate seq).sparing.seq
    exact fun iter => sparing_addLoop pc donePc (.for iter body) tame
  dsimp only
  split
  · exact begins.seq fun _ => sparing_nextFor paved hr pc donePc
  · exact sparing_nextFor paved hr pc donePc

theorem sparing_stepWhile (paved : Paved ops) (hr : r.Sound ops) (donePc : Nat) :
    Sparing ops (stepWhile r donePc) Untold := by
  apply (Stable.asked _).sparing.seq
  intro pc
  apply (stable_loopAt pc).sparing.bind
  intro loop? told
  split
  · apply stable_pop.sparing.bind
    intro body tame
    apply (sparing_addLoop pc donePc (.while body) tame).seq
    exact fun _ => (comes_callValue paved hr tame _).sparing
  · apply stable_pop.sparing.seq
    intro condition
    split
    · exact (comes_callValue paved hr (told _ rfl) _).sparing
    · exact sparing_ended pc donePc
  · exact .fail _

theorem sparing_endOnFault {step : Run Control} (h : Sparing ops step Untold) :
    Sparing ops (endOnFault step) Untold := by
  intro m orderly above
  apply (h m orderly above).attempt.bind
  rintro result n - (⟨c, rfl, spares, -⟩ | ⟨e, rfl, spares⟩)
  · exact .of_ok (n := n) rfl ⟨spares, trivial⟩
  · obtain ⟨dropped, -⟩ :=
      (sparing_dropLoop n.thread.pc n spares.orderly (spares.loopBase ▸ above)).ok rfl
    exact .of_fault rfl (spares.trans dropped)

/-! ## Exits -/

theorem stable_lambdaScope (depth : Nat) : Stable ops (lambdaScope depth) Untold :=
  (Stable.asked _).seq fun _ => .orFail fun _ _ => trivial

theorem sparing_exitReturn (depth : Nat) : Sparing ops (exitReturn depth) Untold :=
  ((stable_lambdaScope depth).seq fun _ => (Stable.asked _).seq fun _ => .done _).sparing

theorem sparing_exitLoop (depth : Nat) : Sparing ops (exitLoop depth) Untold := by
  apply (Stable.asked _).sparing.seq
  intro loop?
  apply (Stable.orFail (P := Untold) fun _ _ => trivial).sparing.seq
  rintro ⟨i, k⟩
  apply (Stable.asked _).sparing.seq
  intro donePc
  apply Sparing.seq (P := Untold)
  · intro m orderly _
    have calm := Thread.Calm.alterScope m.thread i (fun s => { s with loops := s.loops.erase k })
      (fun _ => rfl) fun s => s.loops.nodup_erase k
    exact .of_ok rfl ⟨.of_calm (orderly.dropLoop i k) rfl calm, trivial⟩
  intro _
  exact ((stable_note _ _).seq fun _ => .done _).sparing

theorem sparing_recallFrom (hr : r.Sound ops) (depth : Nat) : Sparing ops (recallFrom r depth) Untold := by
  intro m orderly above
  apply Meets.bind (P := fun i n => n = m ∧ ∃ s, m.thread.scopes[i]? = some s ∧ s.isLambda = true)
  · apply (meets_lambdaScope depth m).mono
    · exact fun _ _ _ both => both
    · rintro n rfl
      exact .refl orderly
  rintro i n - ⟨rfl, s, found, -⟩
  apply Meets.next rfl
  apply Meets.refuse fun _ => .refl orderly
  intro inside
  have pos : 1 ≤ i := above.trans (Nat.le_of_not_lt inside)
  have lt := (Array.getElem?_eq_some_iff.1 found).1
  have left : min n.thread.scopes.size (max (i + 1) 1) = i + 1 := by omega
  have closes := meets_unwindTo hr (i + 1) false orderly
  rw [left] at closes
  apply Meets.bind (P := fun _ p => n.Closes ops 0 (i + 1) p)
  · exact closes.mono (fun _ _ _ closes => closes) fun p closes => closes.spares
  intro _ p _ closes
  have spares := closes.spares
  apply Meets.next rfl
  dsimp only
  cases called : p.thread.scopes[i]?.bind (·.callee) with
  | none => exact .of_fault (n := p) rfl spares
  | some c =>
    apply Meets.next rfl
    cases c.body.entry with
    | none => exact .of_fault (n := p) rfl spares
    | some entry =>
      have thread := closes.orderly.thread
      obtain ⟨s', found', is⟩ := Option.bind_eq_some_iff.1 called
      have tame := (thread.all.scopes s' (Array.mem_of_getElem? found')).callee c is
      refine .of_ok (n := { p with thread := p.thread.restart i c }) rfl ⟨spares.trans ⟨?_, rfl, ?_⟩, trivial⟩
      · exact { closes.orderly with thread := thread.restart tame i }
      · exact Thread.restart_under thread.linked closes.size called pos

/-- What is cut off was left where it is right. -/
theorem meets_suspend (here : m.At ops G) (pos : 1 ≤ G.base)
    (next : m.thread.Seated ops G (m.thread.pc + 1)) (depth : Nat) :
    Meets ops m (suspend depth) (fun _ => m.Spares ops) (m.Spares ops) := by
  have thread := here.orderly.thread
  rcases suspend_run depth m with ⟨f, failed⟩ | ⟨i, s, c, found, called, inside, run⟩
  · exact .of_fault failed (.refl here.orderly)
  have above : G.base ≤ i := G.low.trans (here.loopBase ▸ inside)
  have left : (m.thread.cut i s c.body.id).1.Orderly ops :=
    Thread.cut_orderly thread found called c.body.id next above
  have tame : (m.thread.cut i s c.body.id).1.All Value.Tame :=
    (thread.all.cut c.body.id (thread.all.scopes s (Array.mem_of_getElem? found))).1
  have cut : m.Spares ops { m with thread := (m.thread.cut i s c.body.id).2 } := by
    refine ⟨{ here.orderly with
      thread := thread.cut_left found called c.body.id (pos.trans above) }, rfl, ?_⟩
    have under := Thread.cut_under thread.linked found called c.body.id (pos.trans above)
    exact fun name => by rw [under]
  apply Meets.of_run run
  apply Meets.bind (P := fun _ => m.Spares ops)
  · apply (stable_keepCoro s.fiber left tame _ cut.orderly).mono
    · exact fun _ _ _ both => cut.trans both.1.spares
    · exact fun _ remains => cut.trans remains.spares
  · exact fun _ p _ spares => .of_ok (n := p) rfl spares

/-! ## All operations but one -/

theorem stable_jumpPc (name : String) (label : Option Label) : Stable ops (jumpPc name label) Untold := by
  cases label with
  | some l => exact .orFail fun _ _ => trivial
  | none =>
    apply (Stable.askedShared _).seq
    intro label?
    apply (Stable.orFail (P := Untold) fun _ _ => trivial).seq
    exact fun l => .orFail fun _ _ => trivial

theorem stable_endPc (what : String) (label : Option Label) : Stable ops (endPc what label) Untold :=
  (Stable.orFail (P := Untold) fun _ _ => trivial).seq fun _ => .orFail fun _ _ => trivial

theorem sparing_lookUp (paved : Paved ops) (hr : r.Sound ops) (name : String) :
    Sparing ops (lookUp r name) Untold := by
  apply (Stable.askedShared _).sparing.seq
  rintro ⟨isFunc, t?⟩
  dsimp only
  split
  · apply (Stable.asked _).sparing.seq
    exact fun pc => (comes_callName paved hr name _).sparing
  · cases t? with
    | some t => exact (stable_push (v := .type t) fun _ => nofun).sparing.goOn
    | none => exact .fail _

theorem stable_skip {body : LambdaDef} (known : body ∈ bodies ops) (kind : LambdaKind) (skip : Option Label) :
    Stable ops (exec r (.lambda body kind skip)) Untold := by
  apply (stable_endPc _ _).seq
  intro pc
  have made : Stable ops (do push (← newClosure ⟨body, ← ask (·.env)⟩)) Untold := by
    apply Stable.bind (P := fun env : Env => env.All Value.Tame)
    · exact .ask fun t orderly => orderly.all.env
    intro env all
    apply (stable_newClosure (c := ⟨body, env⟩) known all).bind
    exact fun v tame => stable_push tame
  dsimp only
  split
  · have skips := made.seq fun _ => Stable.done (Control.jump pc)
    simp only [bind_assoc] at skips
    exact skips
  · exact .done _

theorem sparing_exec (here : m.At ops G) (paved : Paved ops) (hr : r.Sound ops) (pos : 1 ≤ G.base)
    (runs : G.Runs ops m.thread.pc) (found : ops[m.thread.pc]? = some op)
    (other : ∀ name, op ≠ .bind name) :
    Meets ops m (exec r op) (fun _ => m.Spares ops) (m.Spares ops) := by
  have member := List.mem_of_getElem? found
  have tame : op.All Value.Tame := by
    have inside := member
    rw [← here.orderly.thread.ops] at inside
    exact here.orderly.thread.all.ops op (Array.mem_toList_iff.1 inside)
  have spares {x : Run Control} (hx : Sparing ops x Untold) :
      Meets ops m x (fun _ => m.Spares ops) (m.Spares ops) := by
    apply (hx m here.orderly (here.loopBase ▸ pos.trans G.low)).mono
    · exact fun _ _ _ both => both.1
    · exact fun _ spares => spares
  cases op with
  | bind name => exact absurd rfl (other name)
  | push v => exact spares (stable_push tame).goOn.sparing.forget
  | pushMany vs => exact spares (stable_pushEach tame).goOn.sparing.forget
  | drop n => exact spares (stable_popN n).goOn.sparing.forget
  | check t? =>
    cases t? with
    | some t => exact spares (stable_checkTop t).goOn.sparing.forget
    | none => exact spares (stable_popType.seq fun t => (stable_checkTop t).goOn).sparing.forget
  | deref name => exact spares (sparing_lookUp paved hr name)
  | call name =>
    exact spares ((Stable.asked _).sparing.seq fun _ => (comes_callName paved hr name _).sparing)
  | ref name =>
    exact spares ((stable_reference name).bind fun v told => (stable_push told).goOn).sparing.forget
  | get name =>
    exact spares ((stable_valueOf name).bind fun v told => (stable_push told).goOn).sparing.forget
  | fmt parts =>
    have texts : Stable ops (parts.mapM part) Untold :=
      (Stable.mapM (A := fun _ => True) (B := Untold) (fun _ _ => trivial) fun p _ => stable_part p).forget
    exact spares
      (texts.seq fun texts => (stable_push (v := .str (String.join texts)) (by rintro _ ⟨⟩)).goOn).sparing.forget
  | target l => exact spares (.done _)
  | jump name label => exact spares ((stable_jumpPc name label).sparing.seq fun _ => .done _)
  | lambda body kind skip =>
    have known : body ∈ bodies ops := List.mem_filterMap.2 ⟨_, member, rfl⟩
    exact spares (stable_skip known kind skip).sparing
  | unlambda id => exact spares (sparing_exitReturn 0)
  | exit label lambda =>
    rw [exec]
    unfold exit
    split
    · exact spares (sparing_exitReturn _)
    · exact spares (sparing_recallFrom hr _)
    · exact meets_suspend here pos (here.seated.next paved runs found rfl rfl rfl) _
    · exact spares (sparing_exitLoop _)
    · exact spares (.fail _)
  | begin ownStack safety =>
    exact spares ((Stable.asked _).sparing.seq fun _ => (sparing_openBlock ownStack _).goOn)
  | close => exact spares (sparing_closeScope hr true).goOn
  | closeList =>
    apply spares
    apply stable_askStack.sparing.bind
    intro items tame
    apply stable_emptied.sparing.seq
    intro _
    apply (sparing_closeScope hr false).seq
    intro _
    exact ((stable_listFrom tame).bind fun v told => (stable_push told).goOn).sparing.forget
  | «try» done =>
    apply spares
    apply (Stable.orFail (P := Untold) fun _ _ => trivial).sparing.seq
    exact fun donePc => sparing_openTry donePc
  | closeTry => exact spares (sparing_closeTry hr)
  | closeTest message => exact spares (stable_closeTest message).sparing.forget
  | «for» done =>
    apply spares
    apply (stable_endPc _ _).sparing.seq
    exact fun donePc => sparing_endOnFault (sparing_stepFor paved hr donePc)
  | «while» done =>
    apply spares
    apply (stable_endPc _ _).sparing.seq
    exact fun donePc => sparing_endOnFault (sparing_stepWhile paved hr donePc)
  | param id => exact spares (stable_openParam id).goOn.sparing.forget
  | unparam id template => exact spares (stable_closeParam id template).sparing.forget

/-! ## What comes of an operation -/

theorem sparing_apply (hr : r.Sound ops) (base : Nat) (c : Control) : Sparing ops (apply r base c) Untold := by
  have goTo (f : Thread → Nat) : Sparing ops (alter fun t => { t with pc := f t }) Untold :=
    fun m orderly _ => .of_ok rfl ⟨.goTo (.refl orderly) (f m.thread), trivial⟩
  cases c with
  | next => exact goTo (·.pc + 1)
  | jump pc => exact goTo fun _ => pc
  | unwind depth pc =>
    rw [apply]
    apply Sparing.refuse
    intro _
    apply Sparing.seq (P := Untold)
    · intro m orderly _
      exact (meets_unwindTo hr depth true orderly).mono (fun _ _ _ closes => ⟨closes.spares, trivial⟩)
        fun _ closes => closes.spares
    · exact fun _ => goTo fun _ => pc

/-- What comes of an operation that has been executed. -/
theorem sparing_carryOut (hr : r.Sound ops) (base : Nat) (c : Control) : Sparing ops (do
    apply r base c
    let limit ← askShared (·.config.limits.maxStackSize)
    if limit < (← ask (·.stack.size)) then fail (Fault.stackLimit limit)) Untold := by
  apply (sparing_apply hr base c).seq
  intro _
  apply (Stable.askedShared _).sparing.seq
  intro limit
  apply (Stable.asked _).sparing.seq
  intro size
  split
  · exact .fail _
  · exact .done _

/-! ## The operation that binds a variable -/

/-- The variable that the operation binds if it ends well is one of the innermost scope. -/
theorem meets_execBind (orderly : m.Orderly ops) (name : String) :
    Meets ops m (exec r (.bind name))
      (fun _ n => ∃ v, m.thread.top? = some v ∧ m.thread.scope.binds name = false ∧ m.Binds ops name v n)
      (fun n => m.Spares ops n ∧ (m.thread.top? = none ∨ m.thread.scope.binds name = true)) := by
  cases top : m.thread.top? with
  | none =>
    rw [exec]
    refine .of_fault (f := Fault.underflow "pop") (n := m) ?_ ⟨.refl orderly, .inl rfl⟩
    rw [bind_apply, pop_none top]
  | some v =>
    let popped : Machine := { m with thread := m.thread.modifyStack Array.pop }
    obtain ⟨remains, tame⟩ := (stable_pop m orderly).ok (pop_some top)
    have scope : (m.thread.modifyStack Array.pop).scope = m.thread.scope := by
      rw [Thread.scope, Thread.scope, Thread.modifyStack]
      split <;> rfl
    have asked : ask (fun t => t.scope.binds name) popped = .ok (m.thread.scope.binds name) popped := by
      rw [ask, scope]
    apply Meets.next (pop_some top)
    cases taken : m.thread.scope.binds name with
    | true =>
      refine .of_fault (f := Fault.alreadyBound name) (n := popped) ?_ ⟨remains.spares, .inr rfl⟩
      rw [bind_apply, Run.bind, bind_apply, asked, taken]
      rfl
    | false =>
      refine .of_ok (a := .next) ?_ ⟨v, rfl, rfl, remains.binds tame⟩
      rw [bind_apply, Run.bind, bind_apply, asked, taken]
      rfl

/-! ## What comes of a fault -/

theorem sparing_unwindAfterFault (hr : r.Sound ops) {depth : Nat} (pos : 1 ≤ depth) :
    Sparing ops (unwindAfterFault r depth) Untold := fun _ orderly _ =>
  (meets_unwindAfterFault hr orderly pos _).mono (fun _ _ _ closes => ⟨closes.spares, trivial⟩)
    fun _ spares => spares

theorem sparing_recover (hr : r.Sound ops) {base : Nat} (pos : 1 ≤ base) (f : Fault) :
    Sparing ops (recover r base f) Untold := by
  intro m orderly above
  cases catching : m.thread.catcher? base with
  | none =>
    apply Meets.of_run (recover_none catching)
    apply (Stable.asked _).sparing.seq _ m orderly above
    rintro ⟨id, pc⟩
    apply (stable_note _ _).sparing.seq
    intro _
    apply (sparing_unwindAfterFault hr pos).seq
    exact fun _ => .fail f
  | some frame =>
    apply Meets.of_run (recover_some catching)
    refine Meets.next (x := ask (·.pc)) rfl ?_
    apply Meets.noted orderly
    intro n noted same
    rw [← same] at catching above
    obtain ⟨-, inside⟩ := Option.filter_eq_some_iff.1 catching
    simp only [Bool.and_eq_true, decide_eq_true_eq] at inside
    have first : m.Spares ops n := ⟨noted, congrArg Thread.loopBase same, fun name => by rw [same]⟩
    apply (meets_unwindAfterFault hr noted (Nat.le_add_left 1 _) _).bind
    intro _ p _ closes
    have spares := first.trans closes.spares
    rw [Nat.min_eq_right inside.2] at closes
    refine Meets.next (x := ask (·.tries.back?)) rfl ?_
    dsimp only
    cases p.thread.tries.back? with
    | none => exact .of_fault (n := p) rfl spares
    | some innermost =>
      refine Meets.next (a := innermost) (n := p) rfl ?_
      have resumed := p.thread.resumeTry_calm f frame.scope innermost
      have orderly' : Machine.Orderly ops { p with thread := p.thread.resumeTry f frame.scope innermost } :=
        { closes.orderly with thread := closes.orderly.thread.resumeTry f frame.scope innermost }
      exact .of_ok (resumeTry_run f innermost closes.size)
        ⟨spares.trans (.of_calm orderly' rfl resumed), trivial⟩

end Run

end Catena
