import Catena.Proofs.Run.Library
import Catena.Proofs.Run.Makes

/-!
# Runs in lockstep

Two machines are alike if they differ in nothing but what has been logged and printed and in the
base of the run. From alike machines computations go the same way (`Lockstep`): they answer the same
and leave alike machines. Only leaving a lambda in the middle and starting it anew look at the base,
so those do where the bases agree.
-/

namespace Catena

namespace Log

mutual

/-- Whether a sink writes to a file. -/
def Sink.writesFiles : Sink → Bool
  | .file _ => true
  | .logger _ _ sinks => anyWritesFiles sinks
  | .stdout | .stderr | .ring _ => false

/-- Whether one of the sinks writes to a file. -/
def anyWritesFiles : List Sink → Bool
  | [] => false
  | s :: sinks => s.writesFiles || anyWritesFiles sinks

end

mutual

theorem Sink.write_unprinted (r : Record) (h : Host) (s : Sink) (quiet : s.writesFiles = false) :
    (s.write r h).2.unprinted = h.unprinted ∧ (s.write r h).1.writesFiles = false := by
  cases s with
  | stdout => exact ⟨rfl, rfl⟩
  | stderr => exact ⟨rfl, rfl⟩
  | file path => cases quiet
  | ring ring => exact ⟨rfl, rfl⟩
  | logger level overrides sinks =>
    have each := writeEach_unprinted r h sinks (by rwa [Sink.writesFiles] at quiet)
    rw [Sink.write]
    split
    · exact each
    · exact ⟨rfl, quiet⟩

theorem writeEach_unprinted (r : Record) (h : Host) (sinks : List Sink)
    (quiet : anyWritesFiles sinks = false) :
    (writeEach r h sinks).2.unprinted = h.unprinted ∧
      anyWritesFiles (writeEach r h sinks).1 = false := by
  cases sinks with
  | nil => exact ⟨rfl, rfl⟩
  | cons s sinks =>
    rw [anyWritesFiles, Bool.or_eq_false_iff] at quiet
    have first := s.write_unprinted r h quiet.1
    have rest := writeEach_unprinted r (s.write r h).2 sinks quiet.2
    simp only [writeEach, anyWritesFiles, rest.1, rest.2, first.1, first.2, Bool.or_self, and_self]

end

theorem Logger.log_unprinted {l : Logger} (quiet : anyWritesFiles l.sinks = false) (h : Host)
    (r : Record) :
    (l.log h r).2.unprinted = h.unprinted ∧ anyWritesFiles (l.log h r).1.sinks = false := by
  unfold Logger.log
  split
  · exact writeEach_unprinted _ h l.sinks quiet
  · exact ⟨rfl, quiet⟩

end Log

/-- Whether nothing that is logged is written to a file. -/
def Shared.Fileless (s : Shared) : Prop := Log.anyWritesFiles s.log.sinks = false

/-- Messages leave everything as it is but the log and what is printed. -/
theorem Shared.Fileless.note {s : Shared} (quiet : s.Fileless) (level : Log.Level) (target : String)
    (message : Unit → String) (thread : Option Nat) :
    (s.note level target message thread).silenced = s.silenced ∧
      (s.note level target message thread).Fileless := by
  unfold Shared.note
  split
  · have logged (r : Log.Record) := Log.Logger.log_unprinted quiet s.host r
    refine ⟨?_, (logged _).2⟩
    simp only [Shared.silenced, (logged _).1]
  · exact ⟨rfl, quiet⟩

/-- The machines differ in nothing but what has been logged and printed and in the base of the run. -/
structure Machine.Alike (m n : Machine) : Prop where
  shared : n.shared.silenced = m.shared.silenced
  thread : n.thread = { m.thread with loopBase := n.thread.loopBase }
  fileless : m.shared.Fileless
  fileless' : n.shared.Fileless

/-- A machine with another base of the run. -/
def Machine.withBase (base : Nat) (m : Machine) : Machine :=
  { m with thread := { m.thread with loopBase := base } }

theorem Machine.Alike.refl {m : Machine} (fileless : m.shared.Fileless) : m.Alike m :=
  ⟨rfl, rfl, fileless, fileless⟩

theorem Machine.Alike.symm {m n : Machine} (h : m.Alike n) : n.Alike m := by
  refine ⟨h.shared.symm, ?_, h.fileless', h.fileless⟩
  have same := congrArg (fun t : Thread => { t with loopBase := m.thread.loopBase }) h.thread
  exact same.symm

theorem Machine.Alike.trans {m n p : Machine} (h : m.Alike n) (k : n.Alike p) : m.Alike p := by
  refine ⟨k.shared.trans h.shared, ?_, h.fileless, k.fileless'⟩
  have same := congrArg (fun t : Thread => { t with loopBase := p.thread.loopBase }) h.thread
  exact k.thread.trans same

theorem Machine.Alike.withBase {m n : Machine} (alike : m.Alike n) (b c : Nat) :
    (m.withBase b).Alike (n.withBase c) := by
  refine ⟨alike.shared, ?_, alike.fileless, alike.fileless'⟩
  have same := congrArg (fun t : Thread => { t with loopBase := c }) alike.thread
  exact same

/-- The operations and the base of the run are still the same. -/
def Machine.Holds (m p : Machine) : Prop :=
  p.thread.ops = m.thread.ops ∧ p.thread.loopBase = m.thread.loopBase

/-- Two computations, begun in `m` and `n`, end in the same way. -/
inductive Machine.Agree {α : Type} (m n : Machine) :
    EStateM.Result Halt Machine α → EStateM.Result Halt Machine α → Prop
  | ok {p q : Machine} (a : α) (alike : p.Alike q) (held : m.Holds p) (held' : n.Holds q) :
      Agree m n (.ok a p) (.ok a q)
  | fault {p q : Machine} (f : Fault) (alike : p.Alike q) (held : m.Holds p) (held' : n.Holds q) :
      Agree m n (.error (.fault f) p) (.error (.fault f) q)
  | outOfFuel {p q : Machine} (alike : p.Alike q) :
      Agree m n (.error .outOfFuel p) (.error .outOfFuel q)

theorem Machine.Holds.refl (m : Machine) : m.Holds m := ⟨rfl, rfl⟩

theorem Machine.Holds.trans {m p q : Machine} (h : m.Holds p) (k : p.Holds q) : m.Holds q :=
  ⟨k.1.trans h.1, k.2.trans h.2⟩

namespace Run

variable {α β : Type} {r : Reentry} {even : Prop} {m n : Machine}

/-- From alike machines the computation goes the same way; if `even` holds, only those with the same
base count. -/
def Lockstep (even : Prop) (x : Run α) : Prop :=
  ∀ m n : Machine, m.Alike n → (even → n.thread.loopBase = m.thread.loopBase) →
    m.Agree n (x m) (x n)

/-! ## Rules -/

namespace Lockstep

theorem pure (a : α) : Lockstep even (Pure.pure a : Run α) :=
  fun m n alike _ => .ok a alike (.refl m) (.refl n)

/-- What comes after goes on from alike machines too. -/
theorem agree_bind {x y : Run α} {k l : α → Run β} (hx : m.Agree n (x m) (y n))
    (hk : ∀ a p q, x m = .ok a p → y n = .ok a q → p.Alike q → m.Holds p → n.Holds q →
      p.Agree q (k a p) (l a q)) : m.Agree n ((x >>= k) m) ((y >>= l) n) := by
  rw [bind_apply, bind_apply]
  generalize first : x m = one at hx
  generalize second : y n = other at hx
  cases hx with
  | @ok p q a alike held held' =>
    have rest := hk a p q first second alike held held'
    dsimp only
    generalize k a p = one at rest
    generalize l a q = other at rest
    cases rest with
    | ok b alike' keeps keeps' => exact .ok b alike' (held.trans keeps) (held'.trans keeps')
    | fault f alike' keeps keeps' => exact .fault f alike' (held.trans keeps) (held'.trans keeps')
    | outOfFuel alike' => exact .outOfFuel alike'
  | fault f alike held held' => exact .fault f alike held held'
  | outOfFuel alike => exact .outOfFuel alike

theorem bind {x : Run α} {k : α → Run β} (hx : Lockstep even x) (hk : ∀ a, Lockstep even (k a)) :
    Lockstep even (x >>= k) := fun m n alike same =>
  agree_bind (hx m n alike same) fun a p q _ _ alike held held' =>
    hk a p q alike fun h => held'.2.trans ((same h).trans held.2.symm)

theorem agree_attempt {x y : Run α} (hx : m.Agree n (x m) (y n)) :
    m.Agree n (x.attempt m) (y.attempt n) := by
  unfold Run.attempt
  generalize x m = one at hx
  generalize y n = other at hx
  cases hx with
  | ok a alike held held' => exact .ok _ alike held held'
  | fault f alike held held' => exact .ok _ alike held held'
  | outOfFuel alike => exact .outOfFuel alike

theorem attempt {x : Run α} (hx : Lockstep even x) : Lockstep even x.attempt :=
  fun m n alike same => agree_attempt (hx m n alike same)

theorem fail (f : Fault) : Lockstep even (Run.fail f : Run α) :=
  fun m n alike _ => .fault f alike (.refl m) (.refl n)

theorem exhausted : Lockstep even (Run.exhausted : Run α) :=
  fun _ _ alike _ => .outOfFuel alike

/-- A test that the rest comes after. -/
theorem refuse {refused : Prop} [Decidable refused] {f : Fault} {k : Unit → Run α}
    (hk : Lockstep even (k ())) : Lockstep even (if refused then Run.fail f >>= k else k ()) := by
  split
  · exact (fail f).bind fun _ => hk
  · exact hk

theorem ofExcept (x : Except Fault α) : Lockstep even (Run.ofExcept x) := by
  cases x with
  | ok a => exact .pure a
  | error f => exact .fail f

theorem orFail (f : Fault) (x : Option α) : Lockstep even (Run.orFail f x) := by
  cases x with
  | some a => exact .pure a
  | none => exact .fail f

theorem passOn (first : Option Fault) : Lockstep even (Run.passOn first) := by
  cases first with
  | none => exact .pure ()
  | some f => exact .fail f

theorem ask {f : Thread → α} (h : ∀ t b, f { t with loopBase := b } = f t) :
    Lockstep even (Run.ask f) := fun m n alike _ => by
  have same : f n.thread = f m.thread := by rw [alike.thread, h]
  show m.Agree n (.ok (f m.thread) m) (.ok (f n.thread) n)
  rw [same]
  exact .ok _ alike (.refl m) (.refl n)

/-- What does not depend on the base does not change it either. -/
theorem alter {f : Thread → Thread} (based : ∀ t b, f { t with loopBase := b } = { f t with loopBase := b })
    (ops : ∀ t, (f t).ops = t.ops) : Lockstep even (Run.alter f) := fun m n alike _ => by
  have base (t : Thread) : (f t).loopBase = t.loopBase := by
    have same := congrArg Thread.loopBase (based t t.loopBase)
    exact same
  refine .ok () ⟨alike.shared, ?_, alike.fileless, alike.fileless'⟩ ⟨ops _, base _⟩ ⟨ops _, base _⟩
  show f n.thread = { f m.thread with loopBase := (f n.thread).loopBase }
  rw [base, ← based, ← alike.thread]

theorem askShared {f : Shared → α} (h : ∀ s, f s.silenced = f s) : Lockstep even (Run.askShared f) :=
    fun m n alike _ => by
  have same : f n.shared = f m.shared := by rw [← h, alike.shared, h]
  show m.Agree n (.ok (f m.shared) m) (.ok (f n.shared) n)
  rw [same]
  exact .ok _ alike (.refl m) (.refl n)

theorem alterShared {f : Shared → Shared} (silenced : ∀ s, (f s).silenced = (f s.silenced).silenced)
    (log : ∀ s, (f s).log = s.log) : Lockstep even (Run.alterShared f) := fun m n alike _ => by
  refine .ok () ⟨?_, alike.thread, ?_, ?_⟩ ⟨rfl, rfl⟩ ⟨rfl, rfl⟩
  · show (f n.shared).silenced = (f m.shared).silenced
    rw [silenced, alike.shared, ← silenced]
  · show Log.anyWritesFiles (f m.shared).log.sinks = false
    rw [log]
    exact alike.fileless
  · show Log.anyWritesFiles (f n.shared).log.sinks = false
    rw [log]
    exact alike.fileless'

theorem askStore (f : Store → α) : Lockstep even (Run.askStore f) := askShared fun _ => rfl

theorem alterStore (f : Store → Store) : Lockstep even (Run.alterStore f) :=
  alterShared (fun _ => rfl) fun _ => rfl

theorem takeOutcome (t : Ref) : Lockstep even (Run.takeOutcome t) := by
  refine (askStore _).bind fun handle => ?_
  obtain ⟨id, outcome⟩ := handle
  cases outcome with
  | none => exact .fail _
  | some outcome => exact (alterStore _).bind fun _ => .pure _

theorem message (level : Log.Level) (target : String) (text : Unit → String) (thread : Option Nat) :
    Lockstep even (Run.alterShared fun s => s.note level target text thread) :=
    fun m n alike _ => by
  have one := alike.fileless.note level target text thread
  have other := alike.fileless'.note level target text thread
  refine .ok () ⟨?_, alike.thread, one.2, other.2⟩ ⟨rfl, rfl⟩ ⟨rfl, rfl⟩
  exact other.1.trans (alike.shared.trans one.1.symm)

theorem note (level : Log.Level) (text : Unit → String) : Lockstep even (Run.note level text) :=
  message level _ text none

theorem freshId : Lockstep even Run.freshId := fun m n alike _ => by
  have id : n.shared.silenced.registry.freshId.1 = m.shared.silenced.registry.freshId.1 := by
    rw [alike.shared]
  have shared : n.shared.freshId.2.silenced = m.shared.freshId.2.silenced :=
    congrArg (fun s : Shared => { s with registry := s.registry.freshId.2 }) alike.shared
  show m.Agree n (.ok m.shared.silenced.registry.freshId.1 _)
    (.ok n.shared.silenced.registry.freshId.1 _)
  rw [id]
  exact .ok _ ⟨shared, alike.thread, alike.fileless, alike.fileless'⟩ ⟨rfl, rfl⟩ ⟨rfl, rfl⟩

/-- A type is made and put into the registry. -/
theorem register (make : Registry → Except Fault (Ty × Registry)) : Lockstep even (do
    let (t, registry) ← Run.ofExcept (← Run.askShared fun s => make s.registry)
    Run.alterShared fun s => { s with registry }
    return t) :=
  (askShared fun _ => rfl).bind fun _ => (ofExcept _).bind fun (_, registry) =>
    (alterShared (f := fun s => { s with registry }) (fun _ => rfl) fun _ => rfl).bind fun _ => .pure _

/-- On another thread the computation goes the same way, too. -/
theorem onThread {x : Run α} (hx : Lockstep even x) (child : Thread) :
    Lockstep even (Run.onThread child x) := fun m n alike same => by
  have both : Machine.Alike { m with thread := child } { n with thread := child } :=
    ⟨alike.shared, rfl, alike.fileless, alike.fileless'⟩
  have ends := hx.attempt _ _ both fun _ => rfl
  unfold Run.onThread
  generalize Run.attempt x { m with thread := child } = one at ends
  generalize Run.attempt x { n with thread := child } = other at ends
  cases ends with
  | @ok p q a ends held held' =>
    have base : q.thread.loopBase = p.thread.loopBase := held'.2.trans held.2.symm
    have threads : q.thread = p.thread := by
      rw [ends.thread, base]
    dsimp only
    rw [threads]
    exact .ok _ ⟨ends.shared, alike.thread, ends.fileless, ends.fileless'⟩ ⟨rfl, rfl⟩ ⟨rfl, rfl⟩
  | fault f ends _ _ =>
    exact .fault f ⟨ends.shared, alike.thread, ends.fileless, ends.fileless'⟩ ⟨rfl, rfl⟩ ⟨rfl, rfl⟩
  | outOfFuel ends =>
    exact .outOfFuel ⟨ends.shared, alike.thread, ends.fileless, ends.fileless'⟩

end Lockstep

end Run

/-- What starts a run inside a run goes the same way from alike machines. -/
structure Reentry.Lockstep (even : Prop) (r : Reentry) : Prop where
  call : ∀ v args, Run.Lockstep even (r.call v args)
  runThread : ∀ v, Run.Lockstep even (r.runThread v)

namespace Run

variable {α : Type} {r : Reentry} {even : Prop}

theorem lockstep_spawn (hr : r.Lockstep even) (target : Value) : Lockstep even (spawn r target) := by
  refine Lockstep.freshId.bind fun id => (Lockstep.note _ _).bind fun _ => ?_
  refine (Lockstep.ask fun _ _ => rfl).bind fun _ => (Lockstep.message _ _ _ _).bind fun _ => ?_
  refine (Lockstep.ask fun _ _ => rfl).bind fun child => ?_
  refine (Lockstep.onThread (hr.runThread target) child).bind fun (result, child) => ?_
  have rest (x : Run Unit) (hx : Lockstep even x) : Lockstep even (do
      x
      alloc (·.threads.size) fun s =>
        { s with threads := s.threads.push ⟨id, some (result.map fun () => child.stack)⟩ }) :=
    hx.bind fun _ => (Lockstep.askStore _).bind fun _ => (Lockstep.alterStore _).bind fun _ => .pure _
  cases result with
  | ok _ => exact rest _ (Lockstep.message _ _ _ _)
  | error e => exact rest _ (Lockstep.message _ _ _ _)

theorem Lockstep.atCell {turn : Iterator → Run (Pulled × Iterator)} (iter : Ref)
    (h : ∀ it, Lockstep even (turn it)) : Lockstep even (atCell iter turn) := by
  have sets (cell : IterCell) : Lockstep even (setIter iter cell) := .alterStore _
  refine (Lockstep.askStore _).bind fun cell => ?_
  cases cell with
  | done => exact .pure _
  | busy => exact .fail _
  | ready it =>
    refine (sets .busy).bind fun _ => (h it).attempt.bind fun result => ?_
    split
    · exact (sets .done).bind fun _ => .pure _
    · exact (sets _).bind fun _ => .pure _
    · exact (sets .done).bind fun _ => .fail _

theorem Flat.lockstep {x : Run α} (hx : Flat r x) (hr : r.Lockstep even) : Lockstep even x := by
  induction hx with
  | pure a => exact .pure a
  | bind _ _ ihx ihk => exact ihx.bind ihk
  | attempt _ ih => exact ih.attempt
  | fail f => exact .fail f
  | exhausted => exact .exhausted
  | ask h => exact .ask h
  | alter h => exact .alter h.based h.ops
  | askShared h => exact .askShared h
  | alterShared h => exact .alterShared h.silenced h.log
  | note level message => exact .note level message
  | noteThread level thread message => exact .message _ _ _ _
  | freshId => exact .freshId
  | newFiber id target => exact .alterStore _
  | takeOutcome t => exact .takeOutcome t
  | instantiate template args => exact .register (·.instantiate template args)
  | instantiateNamed name args => exact .register (·.instantiateNamed name args)
  | atCell iter _ ih => exact .atCell iter ih
  | call v args => exact hr.call v args
  | spawn v => exact lockstep_spawn hr v

end Run

end Catena
