import Catena.Proofs.Control.Calls

/-!
# What operations lead to

A run on the ground is at a place if the scopes are right for its program counter (`Machine.At`). Most
operations stay at their level and lead to the next place, and calls lead where their scopes are right.
A loop begins, goes on and ends in one scope; it is let go of as it ends, so that it never outlives the
place where it runs.
-/

namespace Catena

/-- A run is where its scopes are right. -/
structure Machine.At (ops : List Op) (G : Ground) (m : Machine) : Prop where
  orderly : m.Orderly ops
  seated : m.thread.Seated ops G m.thread.pc
  loopBase : m.thread.loopBase = G.floor

/-- Another machine at the same place, with the same scopes open. -/
structure Machine.Stands (ops : List Op) (G : Ground) (m n : Machine) : Prop where
  here : n.At ops G
  pc : n.thread.pc = m.thread.pc
  size : n.thread.scopes.size = m.thread.scopes.size
  nests : m.thread.Nests n.thread

/-- Where a change of the flow of control leads, the scopes are right. -/
def Machine.Goes (ops : List Op) (G : Ground) (n : Machine) : Control → Prop
  | .next => n.thread.Seated ops G (n.thread.pc + 1)
  | .jump pc => n.thread.Seated ops G pc
  | .unwind depth pc => (∃ y, n.thread.Seated ops G y) ∧
    (G.base ≤ depth → depth ≤ n.thread.scopes.size ∧
      Seated ops G pc (n.thread.seats.drop (n.thread.scopes.size - depth))
        (n.thread.frames.filter fun f => f.scope < depth))

/-- A change of the flow of control that closes scopes leaves so many of them at least. -/
def Control.Within (least : Nat) : Control → Prop
  | .unwind depth _ => least ≤ depth
  | _ => True

/-- What an operation leads to that ends well and closes at most `lost` scopes by itself. -/
structure Machine.Proceeds (ops : List Op) (G : Ground) (lost : Nat) (m : Machine) (c : Control)
    (n : Machine) : Prop where
  orderly : n.Orderly ops
  loopBase : n.thread.loopBase = G.floor
  size : m.thread.scopes.size ≤ n.thread.scopes.size + lost
  nests : m.thread.Nests n.thread
  goes : n.Goes ops G c
  within : c.Within (m.thread.scopes.size - lost)

/-- What an operation leads to that fails: the scopes that are left are right for some place. -/
structure Machine.Fell (ops : List Op) (G : Ground) (lost : Nat) (m n : Machine) : Prop where
  orderly : n.Orderly ops
  loopBase : n.thread.loopBase = G.floor
  size : m.thread.scopes.size ≤ n.thread.scopes.size + lost
  nests : m.thread.Nests n.thread
  seated : ∃ y, n.thread.Seated ops G y

theorem List.forall₂_modify {γ : Type} {R : γ → γ → Prop} (refl : ∀ a, R a a) {f : γ → γ}
    (h : ∀ a, R a (f a)) (xs : List γ) (i : Nat) : List.Forall₂ R xs (xs.modify i f) := by
  induction xs generalizing i with
  | nil => cases i <;> exact .nil
  | cons x xs ih =>
    cases i with
    | zero => exact .cons (h x) (List.forall₂_same.2 fun a _ => refl a)
    | succ i => exact .cons (refl x) (ih i)

namespace Thread

variable {ops : List Op} {G : Ground} {t t' : Thread} {x : Nat}

/-! ## Scopes that change -/

/-- Only the innermost scope is touched, and its stack and variables along with it. -/
theorem Nests.within (linked : t.Linked) (places : t'.scopes.map Scope.place = t.scopes.map Scope.place)
    (lower : t'.scopes.pop = t.scopes.pop)
    (valueStacks : ∀ k < t.valueStacks.size - 1, t'.valueStacks[k]? = t.valueStacks[k]?)
    (tries : Recorded t.tries.toList t'.tries.toList)
    (env : Env.Same (t'.under (t.scopes.size - 1)) (t.under (t.scopes.size - 1)))
    (ops : t'.ops = t.ops) (loopBase : t'.loopBase = t.loopBase) : t.Nests t' := by
  have size : t'.scopes.size = t.scopes.size := by simpa using congrArg Array.size places
  have keeps := Keeps.within size lower valueStacks tries env ops loopBase
  intro i inside _
  constructor
  · have same := congrArg (fun places => places[i]?) places
    simpa only [Array.getElem?_map] using same
  · intro s found
    have lt := linked.stack_lt found
    exact keeps.mono (by omega) (by omega)
  · exact tries.filter (i + 1)

/-- The innermost scope has other loops. -/
theorem nests_alterLoops (linked : t.Linked) (f : Dict Nat LoopState → Dict Nat LoopState)
    (nodup : ∀ d, d.keys.Nodup → (f d).keys.Nodup) :
    t.Nests (t.modifyScope fun s => { s with loops := f s.loops }) := by
  have calm : t.Calm (t.modifyScope fun s => { s with loops := f s.loops }) :=
    .alterScope t _ _ (fun _ => rfl) fun s h => nodup s.loops h
  apply Nests.within linked
  · exact Drift.map_modify _ _ (fun s : Scope => { s with loops := f s.loops }) _ fun _ => rfl
  · exact pop_modify_last _ _
  · exact fun _ _ => rfl
  · exact .refl _
  · rw [calm.under]
    exact .refl _
  · rfl
  · rfl

/-- Loops are let go of. -/
theorem kept_dropLoop (t : Thread) (i k : Nat) : List.Forall₂ Scope.Kept t.scopes.toList
    (t.scopes.modify i fun s => { s with loops := s.loops.erase k }).toList := by
  rw [Array.toList_modify]
  refine List.forall₂_modify .refl (fun s => ⟨rfl, fun j st found => ?_⟩) _ i
  rw [Dict.find?_erase] at found
  split at found
  · cases found
  · exact found

theorem Still.dropLoop (broken : ¬t.Unbroken) (i k : Nat) :
    t.Still { t with scopes := t.scopes.modify i fun s => { s with loops := s.loops.erase k } } := by
  have kept := t.kept_dropLoop i k
  have calm : t.Calm { t with scopes := t.scopes.modify i fun s => { s with loops := s.loops.erase k } } :=
    .alterScope t _ _ (fun _ => rfl) fun s => s.loops.nodup_erase k
  constructor
  · exact kept.imp fun _ _ => Scope.Kept.stayed
  · exact fun unbroken => absurd unbroken broken
  · rfl
  · exact .refl _
  · exact .refl _
  · rfl
  · constructor
    · exact List.forall₂_take _ kept
    · exact fun unbroken => absurd unbroken broken
    · exact fun _ _ => rfl
    · exact .refl _
    · rw [calm.under]
      exact .refl _
    · rfl
    · rfl

/-- A scope changes what it bound, its loops or its deferred calls. -/
theorem Orderly.alterScope (h : t.Orderly ops) (i : Nat) {f : Scope → Scope}
    (bare : ∀ s, (f s).bare = s.bare) (nodup : ∀ s, s.loops.keys.Nodup → (f s).loops.keys.Nodup)
    (all : ∀ s, s.All Value.Tame → (f s).All Value.Tame) :
    Orderly ops { t with scopes := t.scopes.modify i f } where
  linked := h.linked.drift (.alterScope t i f bare nodup)
  rooted := by
    rw [Array.size_modify]
    exact h.rooted
  all := h.all.alterScope i all
  cache := h.cache
  coros := h.coros
  ops := h.ops

theorem seats_modifyScope {lower : Array Scope} {s : Scope} (scopes : t.scopes = lower.push s)
    (f : Scope → Scope) : ∃ rest, t.seats = s.seat :: rest ∧ (t.modifyScope f).seats = (f s).seat :: rest := by
  refine ⟨(lower.toList.map Scope.seat).reverse, ?_, ?_⟩
  · rw [seats, scopes, Array.toList_push, List.map_append, List.reverse_append]
    rfl
  · rw [seats, modifyScope]
    dsimp only
    rw [scopes, Array.size_push, Nat.add_sub_cancel, Run.modify_push, Array.toList_push, List.map_append,
      List.reverse_append]
    rfl

end Thread

namespace Machine

variable {ops : List Op} {G : Ground} {lost : Nat} {m n p : Machine} {c : Control} {back : Nat}

/-! ## One after the other -/

theorem Stands.refl (here : m.At ops G) : m.Stands ops G m :=
  ⟨here, rfl, rfl, .refl _⟩

theorem Remains.stands (h : m.Remains ops n) (here : m.At ops G) : m.Stands ops G n := by
  have pc := h.still.pc
  constructor
  · constructor
    · exact h.orderly
    · rw [pc]
      exact h.still.seated here.seated
    · exact h.still.keeps.loopBase.trans here.loopBase
  · exact pc
  · exact h.still.size
  · exact h.still.nests here.orderly.thread.linked

theorem Stands.trans (h : m.Stands ops G n) (k : n.Stands ops G p) : m.Stands ops G p := by
  have size := h.size
  exact ⟨k.here, k.pc.trans h.pc, k.size.trans size, h.nests.trans k.nests (by omega)⟩

theorem Stands.fell (h : m.Stands ops G n) : m.Fell ops G lost n := by
  have size := h.size
  exact ⟨h.here.orderly, h.here.loopBase, by omega, h.nests, _, h.here.seated⟩

/-- It leads on from another machine at the same place. -/
theorem Proceeds.after (k : n.Proceeds ops G lost c p) (h : m.Stands ops G n) : m.Proceeds ops G lost c p := by
  have size := h.size
  have more := k.size
  have within := k.within
  rw [size] at within
  exact ⟨k.orderly, k.loopBase, by omega, h.nests.trans k.nests (by omega), k.goes, within⟩

theorem Fell.after (k : n.Fell ops G lost p) (h : m.Stands ops G n) : m.Fell ops G lost p := by
  have size := h.size
  have more := k.size
  exact ⟨k.orderly, k.loopBase, by omega, h.nests.trans k.nests (by omega), k.seated⟩

theorem Stands.leads (h : m.Stands ops G n) (goes : n.Goes ops G c)
    (within : c.Within (m.thread.scopes.size - lost)) : m.Proceeds ops G lost c n := by
  have size := h.size
  exact ⟨h.here.orderly, h.here.loopBase, by omega, h.nests, goes, within⟩

/-- Behind an operation that does not belong to a loop. -/
theorem Stands.next {op : Op} (h : m.Stands ops G n) (paved : Paved ops) (runs : G.Runs ops m.thread.pc)
    (found : ops[m.thread.pc]? = some op) (inner : op.isBorder = false) (other : op.isLoop = false)
    (stays : op.isJump = false) : n.Goes ops G .next := by
  rw [← h.pc] at runs found
  exact h.here.seated.next paved runs found inner other stays

/-- A call leads where the scopes are right if they are right for the place to go on at. -/
theorem Called.leads (h : m.Called ops back c n) (here : m.At ops G) (seated : m.thread.Seated ops G back) :
    m.Proceeds ops G lost c n := by
  obtain ⟨pc, rfl, enters⟩ := h
  exact ⟨enters.orderly, enters.loopBase.trans here.loopBase, enters.size.trans (Nat.le_add_right _ _),
    enters.nests, enters.seated G seated, trivial⟩

/-- A loop is let go of in any scope. -/
theorem Orderly.dropLoop (h : m.Orderly ops) (i k : Nat) : Machine.Orderly ops
    { m with
      thread := { m.thread with
        scopes := m.thread.scopes.modify i fun s => { s with loops := s.loops.erase k } } } :=
  { h with
    thread := h.thread.alterScope i (fun _ => rfl) (fun s => s.loops.nodup_erase k)
      fun _ all => { all with loops := all.loops.erase k } }

/-- The innermost scope lets go of a loop. -/
def dropLoop (m : Machine) (k : Nat) : Machine :=
  { m with thread := m.thread.modifyScope fun s => { s with loops := s.loops.erase k } }

theorem nests_dropLoop (orderly : m.Orderly ops) (k : Nat) : m.thread.Nests (m.dropLoop k).thread :=
  Thread.nests_alterLoops orderly.thread.linked _ fun d => d.nodup_erase k

theorem seated_dropLoop {x : Nat} (h : m.thread.Seated ops G x) (k : Nat) :
    (m.dropLoop k).thread.Seated ops G x :=
  h.stayed ((m.thread.kept_dropLoop _ k).imp fun _ _ => Scope.Kept.stayed) rfl

theorem At.dropLoop (here : m.At ops G) (k : Nat) : m.Stands ops G (m.dropLoop k) :=
  ⟨⟨here.orderly.dropLoop _ k, seated_dropLoop here.seated k, here.loopBase⟩, rfl, Array.size_modify,
    nests_dropLoop here.orderly k⟩

theorem Fell.dropLoop (h : m.Fell ops G lost n) (k : Nat) : m.Fell ops G lost (n.dropLoop k) := by
  obtain ⟨y, seated⟩ := h.seated
  have size : (n.dropLoop k).thread.scopes.size = n.thread.scopes.size := Array.size_modify
  have more := h.size
  constructor
  · exact h.orderly.dropLoop _ k
  · exact h.loopBase
  · omega
  · exact h.nests.trans (nests_dropLoop h.orderly k) (by omega)
  · exact ⟨y, seated_dropLoop seated k⟩

end Machine

namespace Run

variable {α β : Type} {ops : List Op} {G : Ground} {lost : Nat} {r : Reentry} {m n : Machine} {P : α → Prop} {op : Op}

/-- The computation ends at the same place and level, and its answer is as told. -/
def Standing (ops : List Op) (G : Ground) (x : Run α) (P : α → Prop) (m : Machine) : Prop :=
  Meets ops m x (fun a n => m.Stands ops G n ∧ P a) (m.Stands ops G)

/-- What the computation of an operation leads to, and what is left if it fails. -/
def Leading (ops : List Op) (G : Ground) (lost : Nat) (x : Run Control) (m : Machine) : Prop :=
  Meets ops m x (m.Proceeds ops G lost) (m.Fell ops G lost)

theorem Stable.standing {x : Run α} (hx : Stable ops x P) (here : m.At ops G) : Standing ops G x P m := by
  apply (hx m here.orderly).mono
  · exact fun a n _ ⟨remains, told⟩ => ⟨remains.stands here, told⟩
  · exact fun n remains => remains.stands here

theorem Standing.bind {x : Run α} {k : α → Run β} {Q : β → Prop} (hx : Standing ops G x P m)
    (rest : ∀ a n, P a → m.Stands ops G n → Standing ops G (k a) Q n) :
    Standing ops G (x >>= k) Q m := by
  apply Meets.bind hx
  intro a n _ ⟨stands, told⟩
  apply (rest a n told stands).mono
  · exact fun b p _ ⟨later, holds⟩ => ⟨stands.trans later, holds⟩
  · exact fun p later => stands.trans later

theorem Leading.bind {x : Run α} {k : α → Run Control} (hx : Standing ops G x P m)
    (rest : ∀ a n, P a → m.Stands ops G n → Leading ops G lost (k a) n) : Leading ops G lost (x >>= k) m := by
  apply Meets.bind (P := fun a n => m.Stands ops G n ∧ P a)
  · exact hx.mono (fun _ _ _ both => both) fun _ stands => stands.fell
  · intro a n _ ⟨stands, told⟩
    apply (rest a n told stands).mono
    · exact fun _ _ _ leads => leads.after stands
    · exact fun _ fell => fell.after stands

theorem Leading.fail (f : Fault) (here : m.At ops G) : Leading ops G lost (Run.fail f) m :=
  .of_fault (n := m) rfl (Machine.Stands.refl here).fell

theorem Leading.jump {pc : Nat} (here : m.At ops G) (seated : m.thread.Seated ops G pc) :
    Leading ops G lost (Pure.pure (.jump pc)) m :=
  .of_ok (n := m) rfl ((Machine.Stands.refl here).leads seated trivial)

theorem Leading.call {x : Run Control} {back : Nat} (hx : Comes ops x (Machine.Called ops back))
    (here : m.At ops G) (seated : m.thread.Seated ops G back) : Leading ops G lost x m := by
  apply (hx m here.orderly).mono
  · exact fun c n _ called => called.leads here seated
  · exact fun n remains => (remains.stands here).fell

/-- What stays at its level and does not belong to a loop leads to the next place. -/
theorem Leading.next {x : Run Control} (hx : Stable ops x (· = .next)) (here : m.At ops G) (paved : Paved ops)
    (runs : G.Runs ops m.thread.pc) (found : ops[m.thread.pc]? = some op) (inner : op.isBorder = false)
    (other : op.isLoop = false) (stays : op.isJump = false) : Leading ops G lost x m := by
  apply (hx.standing here).mono
  · rintro c n - ⟨stands, rfl⟩
    exact stands.leads (stands.next paved runs found inner other stays) trivial
  · exact fun n stands => stands.fell

/-! ## Loops -/

/-- A loop that is over is let go of, and the run goes on behind it. -/
theorem Leading.ended (here : m.At ops G) (paved : Paved ops) (runs : G.Runs ops m.thread.pc)
    (found : ops[m.thread.pc]? = some op) (isLoop : op.isLoop = true) :
    Leading ops G lost (do alterLoops (·.erase m.thread.pc); return .jump (m.thread.pc + 2)) m := by
  have stands := here.dropLoop m.thread.pc
  obtain ⟨lower, s, scopes⟩ :=
    Array.exists_push_of_size_pos (Nat.pos_of_ne_zero here.orderly.thread.rooted)
  obtain ⟨rest, -, seats⟩ := Thread.seats_modifyScope scopes
    fun s => { s with loops := s.loops.erase m.thread.pc }
  have seated := stands.here.seated
  rw [stands.pc, Thread.Seated, Machine.dropLoop] at seated
  dsimp only at seated
  rw [seats] at seated
  have gone : (s.loops.erase m.thread.pc).find? m.thread.pc = none := by
    rw [Dict.find?_erase, if_pos rfl]
  have behind := seated.pass paved (fun _ => runs) found isLoop ⟨Nat.le_succ _, Nat.le_succ _⟩ gone
  rw [← seats] at behind
  exact Meets.next rfl (.of_ok rfl (stands.leads behind trivial))

/-- A loop begins. -/
theorem standing_addLoop (here : m.At ops G) (runs : G.Runs ops m.thread.pc)
    (found : ops[m.thread.pc]? = some op) (isLoop : op.isLoop = true) (kind : LoopKind)
    (tame : kind.body.Tame) :
    Standing ops G (alterLoops (·.insert m.thread.pc ⟨kind, m.thread.pc + 2⟩)) Untold m := by
  let loop : LoopState := ⟨kind, m.thread.pc + 2⟩
  have nodup (d : Dict Nat LoopState) (old : d.keys.Nodup) : (d.insert m.thread.pc loop).keys.Nodup :=
    d.nodup_insert _ _ old
  obtain ⟨lower, s, scopes⟩ :=
    Array.exists_push_of_size_pos (Nat.pos_of_ne_zero here.orderly.thread.rooted)
  obtain ⟨rest, before, after⟩ := Thread.seats_modifyScope scopes
    fun s => { s with loops := s.loops.insert m.thread.pc loop }
  have seated := here.seated
  rw [Thread.Seated, before] at seated
  let within : Seat := Scope.seat { s with loops := s.loops.insert m.thread.pc loop }
  have entered : Catena.Seated ops G m.thread.pc (within :: rest) _ :=
    seated.alterLoops runs rfl rfl fun k st there => by
      change (s.loops.insert m.thread.pc loop).find? k = some st at there
      rw [Dict.find?_insert] at there
      split at there
      · rename_i same
        obtain rfl := Option.some.inj there
        exact .inr ⟨same ▸ rfl, same.symm, op, found, isLoop⟩
      · exact .inl there
  rw [← after] at entered
  refine .of_ok rfl ⟨⟨⟨?_, entered, here.loopBase⟩, rfl, Array.size_modify, ?_⟩, trivial⟩
  · exact { here.orderly with
      thread := here.orderly.thread.alterScope _ (fun _ => rfl) (fun s => nodup s.loops)
        fun s all => { all with loops := all.loops.insert tame } }
  · exact Thread.nests_alterLoops here.orderly.thread.linked _ nodup

/-- The loop that runs here, if there is one. -/
theorem stable_loopAt (k : Nat) : Stable ops (loopAt? k) fun loop? =>
    ∀ loop, loop? = some loop → loop.kind.body.Tame := by
  apply Stable.ask
  exact fun t orderly loop found => orderly.all.scope.loops.find? found

theorem standing_beginFor (here : m.At ops G) (runs : G.Runs ops m.thread.pc)
    (found : ops[m.thread.pc]? = some op) (isLoop : op.isLoop = true) :
    Standing ops G (beginFor m.thread.pc (m.thread.pc + 2)) Untold m := by
  apply (stable_pop.standing here).bind
  intro body n tame stands
  apply (stable_pop.standing stands.here).bind
  intro seq n' _ stands'
  apply ((stable_iterate seq).standing stands'.here).bind
  intro iter p _ stands''
  have pc : p.thread.pc = m.thread.pc := stands''.pc.trans (stands'.pc.trans stands.pc)
  rw [← pc] at found runs ⊢
  exact standing_addLoop stands''.here runs found isLoop _ tame

/-- The body of a loop goes back to the jump behind the loop's operation. -/
theorem Leading.body (here : m.At ops G) (paved : Paved ops) (hr : r.Sound ops)
    (runs : G.Runs ops m.thread.pc) (found : ops[m.thread.pc]? = some op) (isLoop : op.isLoop = true)
    {body : Value} (tame : body.Tame) : Leading ops G lost (callValue r body (m.thread.pc + 1)) m := by
  apply Leading.call (comes_callValue paved hr tame _) here
  exact here.seated.around_loop paved runs found isLoop ⟨Nat.le_succ _, Nat.le_succ _⟩
    ⟨by omega, by omega⟩

/-- A round of a loop leads to its body, to another round or behind the loop. -/
theorem leading_nextFor (here : m.At ops G) (paved : Paved ops) (hr : r.Sound ops)
    (runs : G.Runs ops m.thread.pc) (found : ops[m.thread.pc]? = some op) (isLoop : op.isLoop = true) :
    Leading ops G lost (nextFor r m.thread.pc (m.thread.pc + 2)) m := by
  apply Leading.bind ((stable_loopAt _).standing here)
  intro loop? n told stands
  rw [← stands.pc] at found runs ⊢
  split
  · rename_i iter body done
    have tame := told _ rfl
    apply Leading.bind ((stable_pull hr iter).standing stands.here)
    intro pulled p tame' stands'
    rw [← stands'.pc] at found runs ⊢
    cases pulled with
    | item v =>
      apply Leading.bind ((stable_push tame').standing stands'.here)
      intro _ q _ stands''
      rw [← stands''.pc] at found runs ⊢
      exact .body stands''.here paved hr runs found isLoop tame
    | pending => exact .jump stands'.here stands'.here.seated
    | done => exact .ended stands'.here paved runs found isLoop
  · exact .fail _ stands.here

theorem leading_stepFor (here : m.At ops G) (paved : Paved ops) (hr : r.Sound ops)
    (runs : G.Runs ops m.thread.pc) (found : ops[m.thread.pc]? = some op) (isLoop : op.isLoop = true) :
    Leading ops G lost (stepFor r (m.thread.pc + 2)) m := by
  rw [stepFor]
  refine Meets.next (x := ask (·.pc)) rfl ?_
  apply Leading.bind ((stable_loopAt _).standing here)
  intro loop? n _ stands
  dsimp only
  rw [← stands.pc] at found runs ⊢
  have rounds (p : Machine) (stands' : n.Stands ops G p) :
      Leading ops G lost (nextFor r n.thread.pc (n.thread.pc + 2)) p := by
    rw [← stands'.pc] at found runs ⊢
    exact leading_nextFor stands'.here paved hr runs found isLoop
  split
  · apply Leading.bind (standing_beginFor stands.here runs found isLoop)
    exact fun _ p _ stands' => rounds p stands'
  · exact rounds n (.refl stands.here)

theorem leading_stepWhile (here : m.At ops G) (paved : Paved ops) (hr : r.Sound ops)
    (runs : G.Runs ops m.thread.pc) (found : ops[m.thread.pc]? = some op) (isLoop : op.isLoop = true) :
    Leading ops G lost (stepWhile r (m.thread.pc + 2)) m := by
  rw [stepWhile]
  refine Meets.next (x := ask (·.pc)) rfl ?_
  apply Leading.bind ((stable_loopAt _).standing here)
  intro loop? n told stands
  dsimp only
  rw [← stands.pc] at found runs ⊢
  split
  · apply Leading.bind (stable_pop.standing stands.here)
    intro body p tame stands'
    rw [← stands'.pc] at found runs ⊢
    apply Leading.bind (standing_addLoop stands'.here runs found isLoop (.while body) tame)
    intro _ q _ stands''
    rw [← stands''.pc] at found runs ⊢
    exact .body stands''.here paved hr runs found isLoop tame
  · rename_i body done
    have tame := told _ rfl
    apply Leading.bind (stable_pop.standing stands.here)
    intro condition p _ stands'
    rw [← stands'.pc] at found runs ⊢
    split
    · exact .body stands'.here paved hr runs found isLoop tame
    · exact .ended stands'.here paved runs found isLoop
  · exact .fail _ stands.here

/-- A round that fails ends its loop. -/
theorem leading_endOnFault {step : Run Control} (h : Leading ops G lost step m) :
    Leading ops G lost (endOnFault step) m := by
  apply h.attempt.bind
  rintro result n - (⟨c, rfl, leads⟩ | ⟨e, rfl, fell⟩)
  · exact .of_ok (n := n) rfl leads
  · exact .of_fault rfl (fell.dropLoop n.thread.pc)

end Run

end Catena
