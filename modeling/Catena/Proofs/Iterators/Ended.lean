import Catena.Proofs.Iterators.Minding

/-!
# Iterators at their end

An iterator that has answered that there is nothing more, or has failed, is at its end for good: whatever
the engine goes on to do, in the midst of the operation that pulled it or long after, a pull of it answers
at once that there is nothing more.
-/

namespace Catena

open Run (Makes)

variable {m n : Machine} {i : Ref}

namespace Compile

/-- The step leaves the objects of the store alone. -/
def Spares {α : Type} (x : Compile α) : Prop := Leaves (fun s s' => s'.store = s.store) x

theorem Keeps.spares {α : Type} {x : Compile α} (h : Keeps x) : Spares x := fun c => (h c).store

theorem Spares.bind {α β : Type} {x : Compile α} {k : α → Compile β} (hx : Spares x)
    (hk : ∀ a, Spares (k a)) : Spares (x >>= k) :=
  Leaves.bind (fun first second => second.trans first) hx hk

theorem spares_place (base : Nat) (ops : List Op) : Spares (place base ops) :=
  (Keeps.ask _).spares.bind fun _ => (Keeps.ofExcept _).spares.bind fun _ =>
    (keeps_note _ _ _).spares.bind fun _ _ => rfl

theorem spares_source (text : String) (base : Nat) : Spares (source text base) := by
  refine (keeps_tokens _ _).spares.bind fun _ => (keeps_note _ _ _).spares.bind fun _ =>
    (keeps_upTo _ _ _).spares.bind fun _ => ?_
  have rest (ops : List Op) : Spares (do
      let code ← place base (← settle ops)
      note .compiler .debug fun _ => s!"compiled {code.ops.length} ops"
      return code) :=
    (keeps_settle _).spares.bind fun _ => (spares_place _ _).bind fun _ =>
      ((keeps_note _ _ _).bind fun _ => .pure _).spares
  exact fun c => rest c.ops.toList c

end Compile

theorem Shared.addImp_store (s : Shared) (name : String) (args : List Arg) (safety : Safety) (body : Body) :
    (s.addImp name args safety body).2.store = s.store :=
  Run.note_store { s with registry := (s.registry.addImp name args safety body).2 } ..

namespace Run

theorem minds_compileAt (text : String) (base : Nat) : Makes Machine.Minds (compileAt text base) := by
  intro m
  have spares := Compile.spares_source text base { shared := m.shared }
  unfold after Compile.after at *
  rw [compileAt]
  cases h : Compile.source text base { shared := m.shared } <;> rw [h] at spares <;>
    exact .of_same (by rw [spares]; exact .refl _)

theorem minds_defineFuncs (funcs : List PendingFunc) : Makes Machine.Minds (defineFuncs funcs) := by
  induction funcs with
  | nil => exact .pure ()
  | cons f fs ih =>
    refine Makes.bind (minds_alterShared fun s => ?_) fun _ => ih
    rw [Shared.addImp_store]
    exact .refl s.store

theorem minds_defineConvs (convs : List PendingConv) : Makes Machine.Minds (defineConvs convs) := by
  have closes (c : Closure) : Makes Machine.Minds (newClosure c) :=
    Makes.bind (minds_alloc fun _ => .refl _) fun _ => .pure _
  induction convs with
  | nil => exact .pure ()
  | cons c cs ih =>
    refine (closes _).bind fun f => Makes.bind (minds_alterShared fun s => ?_) fun _ => ih
    have same : (s.addConv c.source c.target f).store = s.store := note_store s ..
    rw [same]
    exact .refl s.store

theorem minds_compile (text : String) : Makes Machine.Minds (compile text) :=
  (Makes.ask _).bind fun _ => (minds_compileAt _ _).bind fun _ => (minds_alter _).bind fun _ =>
    (minds_defineFuncs _).bind fun _ => (minds_defineConvs _).bind fun _ => (Makes.ask _).bind fun _ =>
      (minds_note _ _).bind fun _ => .pure _

end Run

/-! ## What comes next -/

/-- The machines that an engine can come to from another one, which may be in the midst of an operation, in
calls and pulls that are not over yet. -/
inductive Machine.Ensues (m : Machine) : Machine → Prop
  | start : Ensues m m
  | compile {n : Machine} (text : String) : Ensues m n → Ensues m ((Run.compile text).after n)
  /-- The embedding program adds a function. -/
  | define {n : Machine} (name : String) (args : List Arg) (safety : Safety) (f : Native) :
      Ensues m n → Ensues m { n with shared := (n.shared.addImp name args safety (.native f)).2 }
  /-- Another thread goes on, or the thread is changed in any way. -/
  | thread {n : Machine} (t : Thread) : Ensues m n → Ensues m { n with thread := t }
  | run {n : Machine} (w : Watch) (stop : Nat) : Ensues m n → Ensues m ((w.runUntil stop).after n)
  | runThread {n : Machine} (w : Watch) (depth : Nat) (target : Value) :
      Ensues m n → Ensues m (((w.reentry depth).runThread target).after n)
  /-- An operation, with what its answer does to the flow of control. -/
  | step {n : Machine} (w : Watch) (depth base : Nat) (op : Op) :
      Ensues m n → Ensues m ((Run.step (w.reentry depth) base op).after n)
  | recover {n : Machine} (w : Watch) (depth base : Nat) (f : Fault) :
      Ensues m n → Ensues m ((Run.recover (w.reentry depth) base f).after n)
  /-- The rest of an operation: scopes close, a value is called, control goes elsewhere. -/
  | unwind {n : Machine} (w : Watch) (depth left : Nat) (keepTop : Bool) :
      Ensues m n → Ensues m ((Run.unwindTo (w.reentry depth) left keepTop).after n)
  | settle {n : Machine} (w : Watch) (depth retPc fuel : Nat) (reply : Reply) :
      Ensues m n → Ensues m ((Run.settle (w.reentry depth) retPc fuel reply).after n)
  | apply {n : Machine} (w : Watch) (depth base : Nat) (c : Control) :
      Ensues m n → Ensues m ((Run.apply (w.reentry depth) base c).after n)
  /-- The rest of a library function, or any part of it: calls and pulls of iterators, and what is done with
  their answers. -/
  | part {n : Machine} {α : Type} (w : Watch) (depth : Nat) (x : Run α)
      (flat : Run.Flat (w.reentry depth) x) :
      Ensues m n → Ensues m (x.after n)
  /-- A pull that is under way comes to its answer. -/
  | answer {n : Machine} (i : Ref) (c : IterCell) (busy : n.cell? i = some .busy) :
      Ensues m n → Ensues m (n.setCell i c)

/-- An iterator that is at its end is there still. -/
theorem Machine.Ensues.ended (h : m.Ensues n) (ended : m.cell? i = some .done) : n.cell? i = some .done := by
  have minded {p q : Machine} (minds : p.Minds q) (there : p.cell? i = some .done) : q.cell? i = some .done :=
    minds.still there nofun
  induction h with
  | start => exact ended
  | compile text _ ih => exact minded (Run.minds_compile text _) ih
  | @define n name args safety f _ ih =>
    rw [cell?] at ih ⊢
    rw [Shared.addImp_store]
    exact ih
  | thread _ _ ih => exact ih
  | run w stop _ ih => exact minded (w.minds_runUntil stop _) ih
  | runThread w depth target _ ih => exact minded ((w.minds_reentry depth).runThread target _) ih
  | step w depth base op _ ih => exact minded (Run.minds_step (w.minds_reentry depth) base op _) ih
  | recover w depth base f _ ih => exact minded (Run.minds_recover (w.minds_reentry depth) base f _) ih
  | unwind w depth left keepTop _ ih =>
    exact minded (Run.minds_unwindTo (w.minds_reentry depth) left keepTop _) ih
  | settle w depth retPc fuel reply _ ih =>
    exact minded (Run.minds_settle (w.minds_reentry depth) retPc fuel reply _) ih
  | apply w depth base c _ ih => exact minded (Run.minds_apply (w.minds_reentry depth) base c _) ih
  | part w depth x flat _ ih => exact minded (flat.minds (w.minds_reentry depth) _) ih
  | @answer n j c busy _ ih =>
    have apart : j ≠ i := by
      rintro rfl
      cases busy.symm.trans ih
    exact (Machine.cell?_setCell_ne apart n c).trans ih

namespace Run

variable {r : Reentry}

/-- A pull of an iterator that is at its end answers so, and does nothing else. -/
theorem pull_ended (ended : m.cell? i = some .done) (r : Reentry) : pull r i m = .ok .done m :=
  (pull_eq r i m).trans (atCell_done (by rw [ended]; rfl))

/-- An iterator that has finished is at its end. -/
theorem ended_of_finishes (hr : r.Minds) {fuel : Nat} (finishes : Finishes (pullWithin r fuel i) i m n)
    (there : (m.cell? i).isSome) : n.cell? i = some .done := by
  have minds : m.Minds n := by
    have pulled := (flat_pullWithin fuel i).minds hr m
    rcases finishes with h | ⟨f, h, -⟩
    · exact after_ok h ▸ pulled
    · exact after_error h ▸ pulled
  obtain ⟨c, found⟩ := Option.isSome_iff_exists.1 there
  obtain ⟨c', found', -⟩ := minds i c found
  cases fuel with
  | zero => rcases finishes with h | ⟨f, h, -⟩ <;> cases h
  | succ fuel => exact cell?_of_finishes finishes (by rw [found']; rfl)

end Run

end Catena
