import Catena.Proofs.Control.Stable
import Catena.Run.Pull

/-!
# Pulls stay at one level

What is made from values that are no labels holds no label. A pull of an iterator stays at one level
of nesting, also if it draws on other iterators or calls back into the language, because what it calls
comes back to where it was called.
-/

namespace Catena

/-- Runs inside runs come back to where they were started, with what is below as it was. -/
structure Reentry.Sound (ops : List Op) (r : Reentry) : Prop where
  call : ∀ (target : Value) (args : List Value), target.Tame → (∀ v ∈ args, v.Tame) →
    ∀ m : Machine, m.Orderly ops → Run.Meets ops m (r.call target args)
      (fun answer n => (n.Orderly ops ∧ m.thread.Aside n.thread) ∧ ∀ v, answer = some v → v.Tame)
      (fun n => n.Orderly ops ∧ m.thread.Aside n.thread)
  runThread : ∀ (target : Value), target.Tame → ∀ (m : Machine) (t : Thread) (id : Nat),
    m.Orderly ops → m.thread = t.fork id →
      Run.Meets ops m (r.runThread target) (fun _ n => n.Orderly ops) (fun n => n.Orderly ops)

/-- The item that a pull gave, if any, is no label. -/
def Pulled.Tame : Pulled → Prop
  | .item v => v.Tame
  | _ => True

namespace Run

variable {α : Type} {ops : List Op} {r : Reentry} {pull : Puller}

theorem stable_call (hr : r.Sound ops) {target : Value} {args : List Value} (tame : target.Tame)
    (all : ∀ v ∈ args, v.Tame) : Stable ops (r.call target args) fun answer =>
      ∀ v, answer = some v → v.Tame := by
  intro m orderly
  apply (hr.call target args tame all m orderly).mono
  · intro answer n _ ⟨⟨orderly', aside⟩, told⟩
    exact ⟨⟨orderly', aside.still⟩, told⟩
  · exact fun n ⟨orderly', aside⟩ => ⟨orderly', aside.still⟩

/-! ## Values with an identity -/

/-- Something that holds no label and is neither a closure nor a fiber is put into the store. -/
theorem Stable.put {P : α → Prop} {size : Store → Nat} {add : Store → Store} {f : Ref → α}
    (h : ∀ s, s.Orderly ops → (add s).Orderly ops) (told : ∀ a, P (f a)) :
    Stable ops (Run.alloc size add >>= fun a => Pure.pure (f a)) P :=
  (Stable.alloc h).seq fun a => .pure (told a)

theorem stable_newClosure {c : Closure} (known : c.body ∈ bodies ops) (env : c.env.All Value.Tame) :
    Stable ops (newClosure c) Value.Tame :=
  Stable.put (fun _ old => { old with
    all := { old.all with closures := Values.pushed old.all.closures env }
    closures := Values.pushed old.closures known }) fun _ _ => nofun

theorem stable_newBin (bytes : Array UInt8) : Stable ops (newBin bytes) Value.Tame :=
  Stable.put (fun _ old => { old with all := { old.all with } }) fun _ _ => nofun

theorem stable_newError (f : Fault) : Stable ops (newError f) Value.Tame :=
  Stable.put (fun _ old => { old with all := { old.all with } }) fun _ _ => nofun

theorem stable_newIter {it : Iterator} (all : it.All Value.Tame) : Stable ops (newIter it) Untold :=
  .alloc fun _ old => { old with all := { old.all with iters := Values.pushed old.all.iters all } }

theorem stable_iterOf (iter : Ref) (item : Ty) : Stable ops (iterOf iter item) Value.Tame :=
  (stable_instantiate _ _).seq fun _ => .pure fun _ => nofun

theorem stable_listOf {items : Array Value} (item : Ty) (all : ∀ v ∈ items, v.Tame) :
    Stable ops (listOf items item) Value.Tame := by
  apply (stable_instantiate _ _).seq
  intro t
  exact Stable.put (fun _ old => { old with
    all := { old.all with lists := Values.pushed old.all.lists all } }) fun _ _ => nofun

theorem stable_listFrom {items : Array Value} (all : ∀ v ∈ items, v.Tame) :
    Stable ops (listFrom items) Value.Tame :=
  stable_listOf _ all

theorem stable_pairOf {left right : Value} (first : left.Tame) (second : right.Tame) :
    Stable ops (pairOf left right) Value.Tame := by
  apply (stable_instantiate _ _).seq
  intro t
  exact Stable.put (fun _ old => { old with
    all := { old.all with pairs := Values.pushed old.all.pairs ⟨first, second⟩ } }) fun _ _ => nofun

theorem stable_tableOf {entries : Table} (key value : Ty) (all : ∀ e ∈ entries, e.1.Tame ∧ e.2.Tame) :
    Stable ops (tableOf entries key value) Value.Tame := by
  apply (stable_instantiate _ _).seq
  intro t
  exact Stable.put (fun _ old => { old with
    all := { old.all with tables := Values.pushed old.all.tables all } }) fun _ _ => nofun

theorem stable_iterate (v : Value) : Stable ops (iterate v) Untold := by
  unfold iterate
  split <;> first
    | exact stable_newIter trivial
    | exact .done _
    | exact .fail _

/-! ## What the store holds -/

theorem tame_listAt {s : Store} (h : s.Orderly ops) (l : Ref) : ∀ v ∈ s.listAt l, v.Tame := by
  intro v member
  rw [Store.listAt] at member
  cases found : s.lists[l]? with
  | none => simp [found] at member
  | some items =>
    rw [found] at member
    exact h.all.lists items (Array.mem_of_getElem? found) v member

theorem tame_tableAt {s : Store} (h : s.Orderly ops) (t : Ref) :
    ∀ e ∈ s.tableAt t, e.1.Tame ∧ e.2.Tame := by
  intro e member
  rw [Store.tableAt] at member
  cases found : s.tables[t]? with
  | none => simp [found] at member
  | some entries =>
    rw [found] at member
    exact h.all.tables entries (Array.mem_of_getElem? found) e member

theorem tame_structAt {s : Store} (h : s.Orderly ops) (r : Ref) : ∀ v ∈ s.structAt r, v.Tame := by
  intro v member
  rw [Store.structAt] at member
  cases found : s.structs[r]? with
  | none => simp [found] at member
  | some fields =>
    rw [found] at member
    exact h.all.structs fields (Array.mem_of_getElem? found) v member

/-! ## Iterators that draw on others -/

/-- A way to pull iterators stays at one level. -/
def Draws (ops : List Op) (pull : Puller) : Prop :=
  ∀ i, Stable ops (pull i) Pulled.Tame

theorem stable_pullWhere (hr : r.Sound ops) (hp : Draws ops pull) (source : Ref) {test : Value}
    (tame : test.Tame) (fuel : Nat) : Stable ops (pullWhere r pull source test fuel) Pulled.Tame := by
  induction fuel with
  | zero => exact .exhausted
  | succ fuel ih =>
    apply (hp source).bind
    intro p gave
    cases p with
    | item v =>
      apply (stable_call hr tame (List.forall_mem_singleton.2 gave)).seq
      intro answer?
      cases answer? with
      | none => exact ih
      | some answer =>
        dsimp only
        split
        · exact .pure gave
        · exact ih
    | pending => exact .pure trivial
    | done => exact .pure trivial

theorem stable_pollRound (hp : Draws ops pull) (todo kept : List Ref) :
    Stable ops (pollRound pull todo kept) fun found => ∀ v, found.1 = some v → v.Tame := by
  induction todo generalizing kept with
  | nil => exact .pure nofun
  | cons source todo ih =>
    apply (hp source).bind
    intro p gave
    cases p with
    | item v => exact .pure fun w same => Option.some.inj same ▸ gave
    | pending => exact ih _
    | done => exact ih _

theorem stable_pollUntil (hp : Draws ops pull) (fuel : Nat) (queue : List Ref) :
    Stable ops (pollUntil pull fuel queue) fun found => ∀ v, found.1 = some v → v.Tame := by
  induction fuel generalizing queue with
  | zero => exact .exhausted
  | succ fuel ih =>
    cases queue with
    | nil => exact .pure nofun
    | cons source queue =>
      apply (stable_pollRound hp (source :: queue) []).bind
      intro found told
      obtain ⟨_ | v, queue⟩ := found
      · exact ih queue
      · exact .pure told

/-- What a step of an iterator comes to. -/
def TameStep (result : Pulled × Iterator) : Prop :=
  result.1.Tame ∧ result.2.All Value.Tame

theorem stable_pairUp (hp : Draws ops pull) (left right : Ref) {p : Pulled} (tame : p.Tame) :
    Stable ops (pairUp pull left right p) TameStep := by
  cases p with
  | item v =>
    apply (hp right).bind
    intro q gave
    cases q with
    | item w =>
      apply (stable_pairOf tame gave).bind
      intro u told
      exact .pure ⟨told, nofun⟩
    | pending => exact .pure ⟨trivial, fun w same => Option.some.inj same ▸ tame⟩
    | done => exact .pure ⟨trivial, nofun⟩
  | pending => exact .pure ⟨trivial, nofun⟩
  | done => exact .pure ⟨trivial, nofun⟩

/-! ## One step -/

theorem stable_walk (recursive : Bool) (frames : List WalkFrame) :
    Stable ops (walk recursive frames) TameStep := by
  apply (Stable.askedShared _).seq
  intro files
  cases walkStep files recursive frames with
  | some found => exact .pure ⟨fun _ => nofun, trivial⟩
  | none => exact .pure ⟨trivial, trivial⟩

theorem stable_askNetwork (request : Network → Nat → α) : Stable ops (askNetwork request) Untold := by
  apply (Stable.askedShared _).seq
  intro answer
  exact (stable_alterHost _).seq fun _ => .done answer

theorem stable_newSocket (peer : String) : Stable ops (newSocket peer) Value.Tame :=
  Stable.put (fun _ old => { old with all := { old.all with } }) fun _ _ => nofun

/-- A connection is no label. -/
theorem stable_connection (peer : String) {next : Iterator} (all : next.All Value.Tame) :
    Stable ops (do return (.item (← newSocket peer), next)) TameStep :=
  (stable_newSocket peer).bind fun _ tame => .pure ⟨tame, all⟩

theorem stable_advance (hr : r.Sound ops) (hp : Draws ops pull) {it : Iterator}
    (all : it.All Value.Tame) : Stable ops (advance r pull it) TameStep := by
  have ended {it : Iterator} (all : it.All Value.Tame) : TameStep (.done, it) := ⟨trivial, all⟩
  have plain {v : Value} {it : Iterator} (tame : v.Tame) (all : it.All Value.Tame) :
      TameStep (.item v, it) := ⟨tame, all⟩
  cases it with
  | range next stop =>
    rw [advance]
    split
    · exact .pure (plain (fun _ same => by cases same) trivial)
    · exact .pure (ended trivial)
  | items l i =>
    apply Stable.bind (P := fun v? => ∀ v, v? = some v → Value.Tame v)
    · exact .askStore fun s store v found => tame_listAt store l v (Array.mem_of_getElem? found)
    · intro v? told
      cases v? with
      | some v => exact .pure (plain (told v rfl) trivial)
      | none => exact .pure (ended trivial)
  | entries t i =>
    apply Stable.bind (P := fun e? : Option (Value × Value) => ∀ e, e? = some e → e.1.Tame ∧ e.2.Tame)
    · exact .askStore fun s store e found => tame_tableAt store t e (List.mem_of_getElem? found)
    · intro e? told
      cases e? with
      | some e =>
        apply (stable_pairOf (told e rfl).1 (told e rfl).2).bind
        intro u tame
        exact .pure (plain tame trivial)
      | none => exact .pure (ended trivial)
  | bytes b i =>
    apply (Stable.askedStore _).seq
    intro byte?
    cases byte? with
    | some byte => exact .pure (plain (fun _ same => by cases same) trivial)
    | none => exact .pure (ended trivial)
  | chars rest =>
    cases rest with
    | nil => exact .pure (ended trivial)
    | cons c cs => exact .pure (plain (fun _ same => by cases same) trivial)
  | units rest =>
    cases rest with
    | nil => exact .pure (ended trivial)
    | cons u us => exact .pure (plain (fun _ same => by cases same) trivial)
  | filter source test =>
    apply (stable_pullWhere hr hp source all stepLimit).bind
    intro p gave
    exact .pure ⟨gave, all⟩
  | map source f =>
    apply (hp source).bind
    intro p gave
    cases p with
    | item v =>
      apply (stable_call hr all (List.forall_mem_singleton.2 gave)).bind
      intro w? told
      apply (Stable.orFail told).bind
      intro w tame
      exact .pure (plain tame all)
    | pending => exact .pure ⟨trivial, all⟩
    | done => exact .pure ⟨trivial, all⟩
  | zip left right held =>
    cases held with
    | some v => exact stable_pairUp (p := .item v) hp left right (all v rfl)
    | none =>
      apply (hp left).bind
      intro p gave
      exact stable_pairUp hp left right gave
  | random bound seed => exact .pure (plain (fun _ same => by cases same) trivial)
  | readFile file =>
    apply (Stable.askedShared _).seq
    intro files
    apply (Stable.askedStore _).seq
    intro handle
    split
    · exact .fail _
    · have sets (handle : FileTree.Handle) : Stable ops (alterStore fun s =>
          { s with files := s.files.setIfInBounds file handle }) Untold :=
        .alterStore fun _ old => { old with all := { old.all with } }
      apply (sets _).seq
      intro _
      split
      · exact .pure (ended trivial)
      · apply (stable_newBin _).bind
        intro v tame
        exact .pure (plain tame trivial)
  | readSocket socket =>
    apply (Stable.askedStore _).seq
    intro listens
    apply Stable.refuse
    intro _
    apply (stable_askNetwork _).seq
    intro answer
    split
    · exact .pure (ended trivial)
    · apply (stable_newBin _).bind
      intro v tame
      exact .pure (plain tame trivial)
    · exact .pure ⟨trivial, trivial⟩
    · exact .fail _
  | walkRoot path recursive =>
    apply (Stable.askedShared _).seq
    intro files
    split
    · exact stable_walk _ _
    · exact .fail _
  | walk frames recursive => exact stable_walk recursive frames
  | accept s =>
    apply (Stable.askedStore _).seq
    intro listens
    split
    · exact .pure (ended trivial)
    · apply (stable_askNetwork _).seq
      intro answer
      cases answer with
      | got peer => exact stable_connection peer trivial
      | blocked => exact .pure ⟨trivial, trivial⟩
      | failed message => exact .pure (ended trivial)
  | connect addr =>
    cases addr with
    | none => exact .pure (ended trivial)
    | some addr =>
      apply (stable_askNetwork _).seq
      intro answer
      cases answer with
      | got peer => exact stable_connection peer trivial
      | blocked => exact .pure ⟨trivial, trivial⟩
      | failed message => exact .pure (ended trivial)
  | poll queue =>
    apply (stable_pollUntil hp stepLimit queue).bind
    intro found told
    obtain ⟨_ | v, queue⟩ := found
    · exact .pure (ended trivial)
    · exact .pure (plain (told v rfl) trivial)
  | host answers pulls =>
    have given : Stable ops (Run.ofExcept (answers pulls)) Pulled.Tame := by
      apply Stable.ofExcept
      intro p answer
      cases p with
      | item v => exact all pulls v answer
      | _ => trivial
    exact given.bind fun _ tame => .pure ⟨tame, all⟩

/-! ## Pulls of any depth -/

theorem stable_setIter (i : Ref) (cell : IterCell) (all : cell.All Value.Tame) :
    Stable ops (setIter i cell) Untold :=
  .alterStore fun _ old => { old with all := { old.all with iters := Values.set old.all.iters all } }

theorem stable_pullWithin (hr : r.Sound ops) (fuel : Nat) : Draws ops (pullWithin r fuel) := by
  induction fuel with
  | zero => exact fun _ => .exhausted
  | succ fuel ih =>
    intro i
    apply Stable.bind (P := fun cell => ∀ it, cell = IterCell.ready it → it.All Value.Tame)
    · refine .askStore fun s store it same => ?_
      cases found : s.iters[i]? with
      | none => simp [found] at same
      | some cell =>
        rw [found, Option.getD_some] at same
        subst same
        exact store.all.iters _ (Array.mem_of_getElem? found)
    · intro cell told
      cases cell with
      | done => exact .pure trivial
      | busy => exact .fail _
      | ready it =>
        apply (stable_setIter i .busy trivial).seq
        intro _
        apply (stable_advance hr ih (told it rfl)).attempt.bind
        intro result told
        split
        · exact (stable_setIter i .done trivial).seq fun _ => .pure trivial
        · have ended := told _ rfl
          exact (stable_setIter i (.ready _) ended.2).seq fun _ => .pure ended.1
        · exact (stable_setIter i .done trivial).seq fun _ => .fail _

theorem stable_pull (hr : r.Sound ops) (i : Ref) : Stable ops (Run.pull r i) Pulled.Tame :=
  (Stable.askedStore _).seq fun _ => stable_pullWithin hr _ i

theorem stable_await (hr : r.Sound ops) (i : Ref) (fuel : Nat) :
    Stable ops (await r i fuel) fun v? => ∀ v, v? = some v → v.Tame := by
  induction fuel with
  | zero => exact .exhausted
  | succ fuel ih =>
    apply (stable_pull hr i).bind
    intro p gave
    cases p with
    | item v => exact .pure fun w same => Option.some.inj same ▸ gave
    | pending => exact ih
    | done => exact .pure nofun

theorem stable_drainInto (hr : r.Sound ops) (i : Ref) (fuel : Nat) {items : Array Value}
    (old : ∀ v ∈ items, v.Tame) : Stable ops (drainInto r i fuel items) fun vs => ∀ v ∈ vs, v.Tame := by
  induction fuel generalizing items with
  | zero => exact .exhausted
  | succ fuel ih =>
    apply (stable_await hr i stepLimit).bind
    intro v? told
    cases v? with
    | none => exact .pure old
    | some v => exact ih (Values.pushed old (told v rfl))

theorem stable_drain (hr : r.Sound ops) (seq : Value) :
    Stable ops (drain r seq) fun vs => ∀ v ∈ vs, v.Tame :=
  (stable_iterate seq).seq fun iter => stable_drainInto hr iter stepLimit nofun

end Run

end Catena
