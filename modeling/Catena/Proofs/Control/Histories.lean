import Catena.Proofs.Control.Adrift
import Catena.Proofs.Control.Extends
import Catena.Proofs.Tokens.Spaced

/-!
# Engines whose texts put no label

An engine is under way after whatever the embedding program does with it, where no text puts a label and
no function of the embedding program changes the flow of control: texts are compiled and run, from any
place and in the midst of other runs, values are called, threads start, and runs are stopped wherever a
lookout stops them. All that is under way is orderly (`UnderWay.orderly`).
-/

namespace Catena

/-- The computation does not run out of fuel. -/
def Run.Ends {α : Type} (x : Run α) (m : Machine) : Prop :=
  ∀ n, x m ≠ .error .outOfFuel n

instance {α : Type} (x : Run α) (m : Machine) : Decidable (x.Ends m) :=
  match run : x m with
  | .error .outOfFuel n => isFalse fun ends => ends n run
  | .error (.fault _) _ => isTrue fun n out => by rw [run] at out; cases out
  | .ok _ _ => isTrue fun n out => by rw [run] at out; cases out

/-- The machines that an engine comes to with texts that put no label. -/
inductive UnderWay : Machine → Prop
  | new (config : Config) (log : Log.Logger) (host : Host) : UnderWay (Engine.new config log host)
  /-- A text is compiled, with or without success. -/
  | compile {m : Machine} (text : String) (quiet : Unlabelled text) :
      UnderWay m → UnderWay ((Run.compile text).after m)
  /-- The embedding program adds a function. -/
  | define {m : Machine} (name : String) (args : List Arg) (safety : Safety) (f : Native)
      (plain : f.Plain) :
      UnderWay m → UnderWay { m with shared := (m.shared.addImp name args safety (.native f)).2 }
  /-- The embedding program sets the safety level of the bottom scope. -/
  | allow {m : Machine} (safety : Safety) :
      UnderWay m → UnderWay { m with thread := m.thread.setRootSafety safety }
  /-- The embedding program puts values on the stack in use and takes others off. -/
  | stack {m : Machine} (values : Array Value) (tame : ∀ v ∈ values, v.Tame) :
      UnderWay m → UnderWay { m with thread := m.thread.modifyStack fun _ => values }
  | goTo {m : Machine} (pc : Nat) : UnderWay m → UnderWay { m with thread := { m.thread with pc } }
  | run {m : Machine} (w : Lookout) (stop : Nat) : UnderWay m → UnderWay ((w.runUntil stop).after m)
  /-- The embedding program calls a value. -/
  | call {m : Machine} (w : Lookout) (depth : Nat) (target : Value) (args : List Value)
      (tame : target.Tame) (all : ∀ v ∈ args, v.Tame) :
      UnderWay m → UnderWay (((w.reentry depth).call target args).after m)
  /-- A thread starts as a copy of another one. -/
  | fork {m : Machine} (id : Nat) : UnderWay m → UnderWay { m with thread := m.thread.fork id }
  /-- A thread runs a value. -/
  | thread {m : Machine} (w : Lookout) (depth : Nat) (target : Value) (tame : target.Tame) :
      UnderWay m → UnderWay (((w.reentry depth).runThread target).after m)

/-! ## Texts without labels -/

theorem Token.afterBlock_subset (cs : List Char) : Token.afterBlock cs ⊆ cs := by
  fun_induction Token.afterBlock cs with
  | case1 => exact List.Subset.refl _
  | case2 cs => exact List.subset_cons_of_subset _ (List.subset_cons_self _ _)
  | case3 c cs _ ih => exact List.subset_cons_of_subset c ih

/-- The characters of a token come from the text. -/
theorem Token.mem_of_scan {pos : Nat} {cs : List Char} {ts : List Token}
    (h : Token.scan pos cs = .ok ts) {t : Token} (member : t ∈ ts) {c : Char} (inside : c ∈ t.text.toList) :
    c ∈ cs := by
  replace h := scan_iff.1 h
  induction h with
  | nil => cases member
  | blank _ _ ih => exact List.mem_cons_of_mem _ (ih member)
  | line _ _ ih => exact List.mem_cons_of_mem _ ((List.dropWhile_sublist _).subset (ih member))
  | block _ _ ih =>
    exact List.mem_cons_of_mem _ (List.mem_of_mem_tail (Token.afterBlock_subset _ (ih member)))
  | token _ _ ih =>
    rcases List.mem_cons.1 member with rfl | later
    · exact List.mem_append_left _ (by simpa [ofChars] using inside)
    · exact List.mem_append_right _ (ih later)

theorem Token.Says.mem {word : String} {t : Token} (h : t.Says word) {c : Char} (inside : c ∈ word.toList) :
    c ∈ t.text.toList := by
  induction h with
  | itself same => rwa [same]
  | inside _ scanned member _ ih =>
    have within := Token.mem_of_scan scanned member ih
    exact List.mem_of_mem_tail (List.dropLast_subset _ within)

/-- A text puts labels only if the sign that begins them is in it. -/
theorem Unlabelled.of_not_mem {text : String} (none : '@' ∉ text.toList) : Unlabelled text := by
  rintro name - ⟨ts, scanned, t, member, said⟩
  refine none (Token.mem_of_scan scanned member (said.mem ?_))
  rw [String.toList_ofList]
  exact List.mem_cons_self

/-! ## New engines -/

theorem library_own : ∀ f ∈ Signature.library, f.native.isHost = false := by decide

theorem new_gains (config : Config) (log : Log.Logger) (host : Host) :
    Shared.Gains { config, log, host, registry := Engine.bootRegistry }
      (Engine.new config log host).shared := by
  have added (fs : List Signature) (own : ∀ f ∈ fs, f.native.isHost = false) (s : Shared) : s.Gains
      (fs.foldl (fun s f => (s.addImp f.name f.args f.safety (.native f.native)).2) s) := by
    induction fs generalizing s with
    | nil => exact .refl s
    | cons f fs ih =>
      exact (addImp_gains s _ _ _ (own f List.mem_cons_self)).trans
        (ih (fun g member => own g (List.mem_cons_of_mem f member)) _)
  have boot : Shared.Gains { config, log, host, registry := Engine.bootRegistry }
      (Engine.boot config log host) := by
    unfold Engine.boot
    have own := library_own
    generalize Engine.bootRegistry = r
    generalize Signature.library = fs at own ⊢
    exact ((note_gains _ _ _ _ _).trans (added _ own _)).trans (note_gains _ _ _ _ _)
  refine boot.trans ?_
  unfold Engine.new
  generalize Engine.boot config log host = s
  have fresh : s.Gains s.freshId.2 := ⟨rfl, Registry.freshId_gains _, rfl⟩
  exact fresh.trans (note_gains s.freshId.2 .trace Phase.vm.target
    (fun _ => s!"creating thread {s.freshId.1}") none)

theorem Store.Orderly.empty {ops : List Op} : Store.Orderly ops {} := by
  have none {α : Type} {P : α → Prop} (a : α) (member : a ∈ #[]) : P a :=
    absurd member (Array.not_mem_empty a)
  exact ⟨⟨none, none, none, none, none, none, none, none⟩, none, none⟩

theorem Registry.Orderly.boot {ops : List Op} : Engine.bootRegistry.Orderly ops := by
  constructor
  · exact fun name => rfl
  · rintro imp ⟨name, imps, found, -⟩
    cases found
  · exact Dict.All.empty

theorem Thread.Orderly.new (id : Nat) : Thread.Orderly [] { id } := by
  have empty {α : Type} (k : Nat) (a : α) (found : (∅ : Dict Nat α).find? k = some a) : False := by
    cases found
  refine ⟨.root .., Nat.one_ne_zero, ⟨fun s member => ?_, Dict.All.empty, fun s member => ?_,
    Dict.All.empty, fun op member => absurd member (Array.not_mem_empty op)⟩,
    fun pc imp found => (empty pc imp found).elim, fun id c found => (empty id c found).elim, rfl⟩
  · rw [Array.mem_singleton.1 member]
    nofun
  · rw [Array.mem_singleton.1 member]
    exact .root _

theorem orderly_new (config : Config) (log : Log.Logger) (host : Host) :
    Machine.Orderly [] (Engine.new config log host) := by
  have gains := new_gains config log host
  have store : (Engine.new config log host).shared.store = {} := gains.store
  obtain ⟨id, thread⟩ : ∃ id, (Engine.new config log host).thread = { id } := ⟨_, rfl⟩
  constructor
  · exact .nil
  · rw [store]
    exact .empty
  · exact Registry.Orderly.boot.gains gains.registry
  · rw [thread]
    exact .new id

/-! ## Orderly machines stay orderly -/

namespace Lookout

theorem makes_reentry (w : Lookout) (depth : Nat) : (w.reentry depth).Makes False := by
  induction depth with
  | zero => exact ⟨fun _ _ => .exhausted, fun _ => .exhausted, False.elim⟩
  | succ depth ih =>
    exact ⟨fun target args => (Run.Makes.haltIf _).bind fun _ => Watch.makes_callNested ih target args,
      fun _ => (Run.Makes.ask _).bind fun _ => Watch.makes_runCall ih _ _, False.elim⟩

theorem makes_runUntil (w : Lookout) (stop : Nat) : Run.Makes (Deeds False) (w.runUntil stop) := by
  refine (Run.Makes.ask _).bind fun _ => (Run.makes_note _ _).bind fun _ => ?_
  refine (Watch.makes_runLoop (w.makes_reentry _) _ _).attempt.bind fun result => ?_
  exact Run.Makes.bind (.alter fun t => .aside rfl rfl rfl rfl rfl rfl rfl) fun _ => .ofExcept result

end Lookout

namespace Run

variable {α : Type} {ops : List Op} {m : Machine} {x : Run α} {R : Machine → Prop}

theorem Meets.after (h : Meets ops m x (fun _ => R) R) (ends : x.Ends m) : R (x.after m) := by
  rw [Run.after]
  cases run : x m with
  | ok a n => exact h.ok run
  | error e n =>
    cases e with
    | fault f => exact h.fault run
    | outOfFuel => exact absurd run (ends n)

/-- Wherever it ends or is stopped, it leaves an orderly machine. -/
theorem Meets.orderly (h : Meets ops m x (fun _ n => n.Orderly ops) (·.Orderly ops)) :
    (x.after m).Orderly ops := by
  rw [Run.after]
  cases run : x m with
  | ok a n => exact h.ok run
  | error e n =>
    cases e with
    | fault f => exact h.fault run
    | outOfFuel => exact h.stopped run

end Run

namespace Machine.Orderly

variable {ops : List Op} {m : Machine}

theorem define (h : m.Orderly ops) (name : String) (args : List Arg) (safety : Safety) {f : Native}
    (plain : f.Plain) :
    Machine.Orderly ops { m with shared := (m.shared.addImp name args safety (.native f)).2 } := by
  have imp_plain (imp : Imp) (is : imp.body = .native f) : imp.Plain ops := by
    rw [Imp.Plain, is]
    exact plain
  exact h.addImp name args safety imp_plain

theorem allow (h : m.Orderly ops) (safety : Safety) :
    Machine.Orderly ops { m with thread := m.thread.setRootSafety safety } := by
  have thread := h.thread
  have drift : m.thread.Drift (m.thread.setRootSafety safety) :=
    .alterScope _ 0 (fun s => { s with safety }) (fun _ => rfl) fun _ h => h
  refine { h with thread := ?_ }
  constructor
  · exact thread.linked.drift drift
  · rw [Thread.setRootSafety, Array.size_modify]
    exact thread.rooted
  · exact thread.all.setRootSafety safety
  · exact thread.cache
  · exact thread.coros
  · exact thread.ops

theorem stack (h : m.Orderly ops) {values : Array Value} (tame : ∀ v ∈ values, v.Tame) :
    Machine.Orderly ops { m with thread := m.thread.modifyStack fun _ => values } :=
  ((Run.stable_alterStack (f := fun _ => values) (fun _ _ => tame) m h).ok rfl).1.orderly

theorem call (h : m.Orderly ops) (w : Lookout) (depth : Nat) {target : Value} {args : List Value}
    (tame : target.Tame) (all : ∀ v ∈ args, v.Tame) :
    (((w.reentry depth).call target args).after m).Orderly ops := by
  refine (((w.sound_reentry ops depth).call target args tame all m h).mono ?_ ?_).orderly
  · exact fun _ _ _ both => both.1.1
  · exact fun _ both => both.1

theorem thread_run (h : m.Orderly ops) (w : Lookout) (depth : Nat) {target : Value} (tame : target.Tame) :
    (((w.reentry depth).runThread target).after m).Orderly ops := by
  cases depth with
  | zero => exact (Run.Meets.exhausted h : Run.Meets ops m _ _ (·.Orderly ops)).orderly
  | succ depth => exact (w.orderly_runThread (w.sound_reentry ops depth) h tame).orderly

end Machine.Orderly

/-- Texts are compiled behind the operations there are, and everything is in order for all of them
together. -/
theorem UnderWay.ready {m : Machine} (h : UnderWay m) :
    ∃ ops, m.Orderly ops ∧ m.shared.registry.Ready := by
  induction h with
  | new config log host =>
    have gains := new_gains config log host
    exact ⟨[], orderly_new config log host, gains.registry.grown.ready ⟨bootRegistry_standard,
      bootRegistry_labelled⟩⟩
  | @compile m text quiet _ ih =>
    obtain ⟨ops, orderly, ready⟩ := ih
    obtain ⟨unit, remains, -⟩ := Run.compile_extends orderly ready quiet
    have changes : Changes False m _ := Run.makes_compile text m
    exact ⟨ops ++ unit, remains.orderly, changes.grown.ready ready⟩
  | @define m name args safety f plain _ ih =>
    obtain ⟨ops, orderly, ready⟩ := ih
    exact ⟨ops, orderly.define name args safety plain,
      (addImp_drift m.shared name args safety _).registry.ready ready⟩
  | allow safety _ ih => exact ih.imp fun _ both => ⟨both.1.allow safety, both.2⟩
  | stack values tame _ ih => exact ih.imp fun _ both => ⟨both.1.stack tame, both.2⟩
  | goTo pc _ ih =>
    exact ih.imp fun _ both => ⟨{ both.1 with thread := both.1.thread.goTo pc }, both.2⟩
  | @run m w stop _ ih =>
    exact ih.imp fun _ both => ⟨(w.orderly_runUntil both.1 stop).orderly,
      (w.makes_runUntil stop m).changes.grown.ready both.2⟩
  | @call m w depth target args tame all _ ih =>
    exact ih.imp fun _ both => ⟨both.1.call w depth tame all,
      ((w.makes_reentry depth).call target args m).changes.grown.ready both.2⟩
  | fork id _ ih => exact ih.imp fun _ both => ⟨{ both.1 with thread := both.1.thread.fork id }, both.2⟩
  | @thread m w depth target tame _ ih =>
    exact ih.imp fun _ both => ⟨both.1.thread_run w depth tame,
      ((w.makes_reentry depth).runThread target m).changes.grown.ready both.2⟩

theorem UnderWay.orderly {m : Machine} (h : UnderWay m) : ∃ ops, m.Orderly ops :=
  h.ready.imp fun _ both => both.1

end Catena
