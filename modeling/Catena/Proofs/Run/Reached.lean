import Catena.Proofs.Compile
import Catena.Proofs.Run.Loop

/-!
# The machines an engine comes to

An engine starts new, compiles texts, and runs what it has compiled from wherever it is told to. A
machine is reached if some such history leads to it, the last run of which may have been stopped by
a watch at any place. What a change keeps, all machines that are reached have (`Reached.keeps`).
-/

namespace Catena

/-- The machines that are reached when every run is watched by a watch of the given kind. -/
inductive Reached (kind : Watch → Prop) : Machine → Prop
  | new (config : Config) (log : Log.Logger) (host : Host) :
      Reached kind (Engine.new config log host)
  /-- A text is compiled, with or without success. -/
  | compile {m : Machine} (text : String) : Reached kind m → Reached kind ((Run.compile text).after m)
  /-- The embedding program adds a function. -/
  | define {m : Machine} (name : String) (args : List Arg) (safety : Safety) (f : Native) :
      Reached kind m →
      Reached kind { m with shared := (m.shared.addImp name args safety (.native f)).2 }
  /-- The embedding program sets the safety level of the bottom scope. -/
  | allow {m : Machine} (safety : Safety) : Reached kind m →
      Reached kind { m with thread := m.thread.setRootSafety safety }
  | push {m : Machine} (v : Value) : Reached kind m →
      Reached kind { m with thread := m.thread.push v }
  | goTo {m : Machine} (pc : Nat) : Reached kind m →
      Reached kind { m with thread := { m.thread with pc } }
  | run {m : Machine} (w : Watch) (stop : Nat) : kind w → Reached kind m →
      Reached kind ((w.runUntil stop).after m)
  /-- A thread starts as a copy of another one. -/
  | fork {m : Machine} (id : Nat) : Reached kind m →
      Reached kind { m with thread := m.thread.fork id }
  /-- A thread runs a value. -/
  | call {m : Machine} (w : Watch) (depth : Nat) (target : Value) : kind w → Reached kind m →
      Reached kind (((w.reentry depth).runThread target).after m)

/-- Every run, watched in whatever way. -/
def anyWatch (_ : Watch) : Prop := True

variable {kind : Watch → Prop} {careful : Prop} {I : Machine → Prop} {m : Machine}

/-- What is shared in a new engine has come about by drifting. -/
theorem new_drift (config : Config) (log : Log.Logger) (host : Host) :
    Shared.Drift { config, log, host, registry := Engine.bootRegistry }
      (Engine.new config log host).shared := by
  have added (fs : List Signature) (s : Shared) : s.Drift
      (fs.foldl (fun s f => (s.addImp f.name f.args f.safety (.native f.native)).2) s) := by
    induction fs generalizing s with
    | nil => exact .refl s
    | cons f fs ih => exact (addImp_drift s _ _ _ _).trans (ih _)
  have fresh (s : Shared) : s.Drift s.freshId.2 := ⟨rfl, Registry.freshId_grown _, rfl⟩
  have boot : Shared.Drift { config, log, host, registry := Engine.bootRegistry }
      (Engine.boot config log host) := by
    unfold Engine.boot
    generalize Engine.bootRegistry = r
    generalize Signature.library = fs
    exact ((Run.note_drift _ _ _ _ _).trans (added _ _)).trans (Run.note_drift _ _ _ _ _)
  refine boot.trans ?_
  unfold Engine.new
  generalize Engine.boot config log host = s
  exact (fresh s).trans (Run.note_drift s.freshId.2 .trace Phase.vm.target
    (fun _ => s!"creating thread {s.freshId.1}") none)

/-- What new machines and copies of threads have, and changes keep, all machines reached have. -/
theorem Reached.keeps (care : careful → ∀ w, kind w → w.Careful)
    (new : ∀ config log host, I (Engine.new config log host))
    (fork : ∀ m id, I m → I { m with thread := m.thread.fork id })
    (changes : ∀ m n, Changes careful m n → I m → I n) (h : Reached kind m) : I m := by
  induction h with
  | new config log host => exact new config log host
  | compile text _ ih => exact changes _ _ (Run.makes_compile text _) ih
  | define name args safety f _ ih =>
    exact changes _ _ (Change.shared _ (addImp_drift _ _ _ _ _)).changes ih
  | allow safety _ ih =>
    refine changes _ _ (Change.thread _ ?_).changes ih
    exact .alterScope _ 0 (fun s => { s with safety }) (fun _ => rfl) fun _ h => h
  | push v _ ih => exact changes _ _ (Change.thread _ (.modifyStack _ _)).changes ih
  | goTo pc _ ih =>
    refine changes _ _ (Change.thread _ ?_).changes ih
    exact .aside rfl rfl rfl rfl rfl
  | run w stop watched _ ih =>
    exact changes _ _ (Watch.makes_runUntil (fun c => care c w watched) stop _).changes ih
  | fork id _ ih => exact fork _ id ih
  | call w depth target watched _ ih =>
    exact changes _ _
      ((Watch.makes_reentry (fun c => care c w watched) depth).runThread target _).changes ih

end Catena
