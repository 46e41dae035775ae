import Catena.Proofs.Folding
import Catena.Proofs.Iterators.Drawing
import Mathlib.Data.List.Perm.Subperm

/-!
# Draining a tree of iterators

Whatever draws on a tree of iterators until it is done comes to the items of the tree, each once and in
order: a list or a table that is made of them, one call of `next` after the other, and a `for` loop.
-/

namespace Catena

namespace Setting

variable {X : Type} {S : Setting X} {r : Reentry} {start m n q : Machine} {p : Plan X} {as : Answers X}

/-- In a later machine that has all its iterators, the tree has this left to answer. -/
structure Remains (S : Setting X) (r : Reentry) (start : Machine) (p : Plan X) (as : Answers X)
    (m : Machine) : Prop extends S.Keeps start p m where
  owes : S.Owes r start p as m
  few : as.length ≤ p.work

theorem Remains.beside (h : S.Remains r start p as m) (apart : S.Apart p) (beside : S.Beside m n) :
    S.Remains r start p as n :=
  have same (j : Ref) (member : j ∈ p.iters) : n.cell? j = m.cell? j := beside.2 j (apart.inside j member)
  ⟨⟨S.later_trans h.later beside.1, fun j member => same j member ▸ h.live j member⟩,
    h.owes.later beside.1 same, h.few⟩

/-! ## A tree that stands -/

theorem Stands.live (h : S.Stands r p m) : ∀ j ∈ p.iters, (m.cell? j).isSome := by
  have found {i : Ref} {c : IterCell} (is : m.cell? i = some c) : (m.cell? i).isSome := is ▸ rfl
  induction p with
  | source i as =>
    obtain ⟨it, is, -⟩ := h
    exact List.forall_mem_cons.2 ⟨found is, List.forall_mem_nil _⟩
  | filter i test keep s ih => exact List.forall_mem_cons.2 ⟨found h.1, ih h.2.2⟩
  | map i f make s ih => exact List.forall_mem_cons.2 ⟨found h.1, ih h.2.2⟩
  | zip i left right ih ih' =>
    exact List.forall_mem_cons.2 ⟨found h.1, List.forall_mem_append.2 ⟨ih h.2.1, ih' h.2.2⟩⟩

theorem Stands.owes (h : S.Stands r p m) : S.Owes r m p (p.answers S.pair) m := by
  induction p with
  | source i as =>
    obtain ⟨it, is, feeds⟩ := h
    exact .inr ⟨it, is, feeds⟩
  | filter i test keep s ih =>
    exact .inr ⟨_, h.1, rfl, h.2.1, _, rfl, s.length_answers_le S.pair, ih h.2.2⟩
  | map i f make s ih => exact .inr ⟨_, h.1, rfl, h.2.1, _, rfl, ih h.2.2⟩
  | zip i left right ih ih' =>
    exact .inr ⟨_, h.1, none, none, _, _, rfl, trivial, rfl, ih h.2.1, ih' h.2.2⟩

/-- All is left of a tree that stands. -/
theorem Stands.remains (h : S.Stands r p m) : S.Remains r m p (p.answers S.pair) m :=
  ⟨⟨S.later_refl m, h.live⟩, h.owes, p.length_answers_le S.pair⟩

/-- A tree has no more iterators than there are. -/
theorem Keeps.length_le (h : S.Keeps start p m) (apart : S.Apart p) :
    p.iters.length ≤ m.shared.store.iters.size := by
  have inside : p.iters ⊆ List.range m.shared.store.iters.size := by
    intro j member
    have there : (m.shared.store.iters[j]?).isSome := h.live j member
    exact List.mem_range.2 (by simpa using there)
  simpa using (List.subperm_of_subset apart.nodup inside).length_le

/-- The answer to a pull is the next of those that are left, and the others are left then. -/
inductive Draws (S : Setting X) (r : Reentry) (start : Machine) (p : Plan X) :
    Answers X → Pulled → Machine → Prop
  | done {n : Machine} : S.Remains r start p [] n → Draws S r start p [] .done n
  | pending {as : Answers X} {n : Machine} : S.Remains r start p as n →
      Draws S r start p (none :: as) .pending n
  | item {as : Answers X} {x : X} {v : Value} {n : Machine} : S.shows n x v → S.Remains r start p as n →
      Draws S r start p (some x :: as) (.item v) n

theorem Remains.pull (h : S.Remains r start p as m) (apart : S.Apart p) :
    Run.Yields p.work (Run.pull r p.root) m fun a n => S.later m n ∧ S.Draws r start p as a n := by
  have enough := Nat.le_succ_of_le (h.length_le apart)
  have few := h.few
  have run : Run.pull r p.root m = Run.pullWithin r (m.shared.store.iters.size + 1) p.root m := by
    rw [Run.pull, Run.bind_apply, Run.askStore, Run.askShared]
  refine .of_eq ?_ run
  obtain ⟨a, n, run, gives⟩ | out := pulls_within apart enough m as h.toKeeps h.owes
  case inr => exact .inr out
  refine .ok run ?_
  cases gives with
  | done touches =>
    have here := h.toKeeps.touches apart touches
    have ended := Run.cell?_of_finishes (.inl run) (here.live _ List.mem_cons_self)
    exact ⟨touches.later, .done ⟨here, .inl ⟨ended, rfl⟩, few⟩⟩
  | pending touches owes =>
    exact ⟨touches.later, .pending ⟨h.toKeeps.touches apart touches, owes, Nat.le_of_succ_le few⟩⟩
  | item touches shows owes =>
    exact ⟨touches.later, .item shows ⟨h.toKeeps.touches apart touches, owes, Nat.le_of_succ_le few⟩⟩

/-! ## Items one after the other -/

/-- The answer is the first of the items that are left, if there is one, and then the others are left. -/
structure Takes (S : Setting X) (r : Reentry) (start : Machine) (p : Plan X) (items : List X) (m : Machine)
    (v? : Option Value) (n : Machine) : Prop where
  later : S.later m n
  first : Option.Rel (S.shows n) items.head? v?
  others : ∃ as, S.Remains r start p as n ∧ as.reduceOption = items.tail

/-- Pending answers are skipped. -/
theorem Remains.await (h : S.Remains r start p as m) (apart : S.Apart p) {fuel : Nat}
    (enough : as.length < fuel ∨ Run.stepLimit ≤ p.work) :
    Run.Yields p.work (Run.await r p.root fuel) m (S.Takes r start p as.reduceOption m) := by
  induction fuel generalizing as m with
  | zero => exact .exhausted (enough.resolve_left (Nat.not_lt_zero _))
  | succ fuel ih =>
    rw [Run.await]
    refine (h.pull apart).bind ?_
    rintro a n ⟨later, draws⟩
    cases draws with
    | done remains => exact .ok rfl ⟨later, .none, [], remains, rfl⟩
    | pending remains =>
      have rest := ih remains (enough.imp_left Nat.lt_of_succ_lt_succ)
      exact rest.imp fun v? q takes => { takes with later := S.later_trans later takes.later }
    | item shows remains => exact .ok rfl ⟨later, .some shows, _, remains, rfl⟩

theorem Remains.next (h : S.Remains r start p as m) (apart : S.Apart p) :
    Run.Yields p.work (Run.await r p.root Run.stepLimit) m (S.Takes r start p as.reduceOption m) := by
  have few := h.few
  have enough : as.length < Run.stepLimit ∨ Run.stepLimit ≤ p.work := by omega
  exact h.await apart enough

/-- The items that are left are those that come, in order. -/
theorem Remains.drainInto (h : S.Remains r start p as m) (apart : S.Apart p) {fuel : Nat}
    (enough : as.reduceOption.length < fuel ∨ Run.stepLimit ≤ p.work) (taken : Array Value) :
    Run.Yields p.work (Run.drainInto r p.root fuel taken) m fun values n =>
      S.later m n ∧ ∃ vs, values = taken ++ vs.toArray ∧
        List.Forall₂ (S.shows n) as.reduceOption vs := by
  induction fuel generalizing as m taken with
  | zero => exact .exhausted (enough.resolve_left (Nat.not_lt_zero _))
  | succ fuel ih =>
    rw [Run.drainInto]
    refine (h.next apart).bind fun v? n takes => ?_
    obtain ⟨later, first, bs, remains, others⟩ := takes
    cases items : as.reduceOption with
    | nil =>
      rw [items] at first
      cases first
      exact .ok rfl ⟨later, [], by simp, .nil⟩
    | cons x xs =>
      rw [items] at first others enough
      cases first with | @some _ v shows =>
      have fewer : bs.reduceOption.length < fuel ∨ Run.stepLimit ≤ p.work := by
        rw [others]
        exact enough.imp_left Nat.lt_of_succ_lt_succ
      refine (ih remains fewer (taken.push v)).imp fun values q => ?_
      rintro ⟨after, vs, rfl, each⟩
      rw [others] at each
      exact ⟨S.later_trans later after, v :: vs, by simp, .cons (S.shows_later after shows) each⟩

theorem Remains.drain (h : S.Remains r start p as m) (apart : S.Apart p) :
    Run.Yields p.work (Run.drainInto r p.root Run.stepLimit #[]) m fun values n =>
      S.later m n ∧ ∃ vs, values = vs.toArray ∧ List.Forall₂ (S.shows n) as.reduceOption vs := by
  have fewer := as.reduceOption_length_le
  have few := h.few
  have enough : as.reduceOption.length < Run.stepLimit ∨ Run.stepLimit ≤ p.work := by omega
  simpa using h.drainInto apart enough #[]

/-! ## One call after the other -/

/-- Items are asked for one after the other. Between that, other things may happen that touch no iterator
of the tree. -/
inductive Asks (S : Setting X) (r : Reentry) (i : Ref) (m : Machine) : List (Option Value) → Machine → Prop
  | none {n : Machine} : S.Beside m n → Asks S r i m [] n
  | next {answers : List (Option Value)} {v? : Option Value} {n q u : Machine} : Asks S r i m answers n →
      Run.await r i Run.stepLimit n = .ok v? q → S.Beside q u → Asks S r i m (answers ++ [v?]) u

theorem rel_later {x? : Option X} {v? : Option Value} (h : Option.Rel (S.shows m) x? v?)
    (later : S.later m n) : Option.Rel (S.shows n) x? v? := by
  cases h with
  | none => exact .none
  | some shows => exact .some (S.shows_later later shows)

/-- The answers are the items, and then none. -/
theorem Remains.asks (h : S.Remains r start p as m) (apart : S.Apart p) {answers : List (Option Value)}
    (asks : S.Asks r p.root m answers n) :
    (∀ (k : Nat) v?, answers[k]? = some v? → Option.Rel (S.shows n) as.reduceOption[k]? v?) ∧
      ∃ bs, S.Remains r start p bs n ∧ bs.reduceOption = as.reduceOption.drop answers.length := by
  induction asks with
  | none beside => exact ⟨fun k v? found => by simp at found, as, h.beside apart beside, rfl⟩
  | @next answers v? n q u _ run beside ih =>
    obtain ⟨each, bs, remains, left⟩ := ih
    obtain ⟨later, first, cs, remains', others⟩ := (remains.next apart).holds run
    have after := S.later_trans later beside.1
    refine ⟨fun k w? found => ?_, cs, remains'.beside apart beside, ?_⟩
    · rcases Nat.lt_or_ge k answers.length with before | behind
      · rw [List.getElem?_append_left before] at found
        exact rel_later (each k w? found) after
      · rw [List.getElem?_append_right behind, List.getElem?_singleton] at found
        split at found
        · obtain rfl := Option.some.inj found
          obtain rfl : k = answers.length := by omega
          rw [left, List.head?_drop] at first
          exact rel_later first beside.1
        · cases found
    · rw [others, left, List.tail_drop, List.length_append, List.length_singleton]

/-! ## Loops -/

/-- A loop over the tree calls its body with the items that are left, if these calls touch no iterator of the
tree. -/
theorem Remains.fed {base stop pc : Nat} {body : Value} (apart : S.Apart p)
    (calls : ∀ v n q depth u, S.later start n → Run.feed r base body v (pc + 1) n = .ok () q →
      Run.Returns r base stop depth (pc + 1) q u → S.Beside n (u.goTo pc))
    {vs : List Value} (fed : Run.Fed r base stop pc p.root body vs m n) (h : S.Remains r start p as m) :
    S.later m n ∧ List.Forall₂ (S.shows n) as.reduceOption vs := by
  induction fed generalizing as with
  | done _ pulled _ =>
    obtain ⟨later, draws⟩ := (h.pull apart).holds pulled
    cases draws
    exact ⟨later, .nil⟩
  | pending _ pulled _ _ ih =>
    obtain ⟨later, draws⟩ := (h.pull apart).holds pulled
    cases draws with | pending remains =>
    obtain ⟨after, each⟩ := ih remains
    exact ⟨S.later_trans later after, each⟩
  | item _ pulled called _ returns _ ih =>
    obtain ⟨later, draws⟩ := (h.pull apart).holds pulled
    cases draws with | item shows remains =>
    have beside := calls _ _ _ _ _ remains.later called returns
    obtain ⟨after, each⟩ := ih (remains.beside apart beside)
    have rest := S.later_trans beside.1 after
    exact ⟨S.later_trans later rest, .cons (S.shows_later rest shows) each⟩

/-- The body of a loop can be called with items whenever the tree is drawn on, and comes back to the loop. -/
structure Serves (S : Setting X) (r : Reentry) (base stop pc depth : Nat) (body : Value) (start : Machine) :
    Prop where
  ready : ∀ n, S.later start n → n.Keeps pc ∧ n.Fits ∧ n.thread.scopes.size = depth
  calls : ∀ n x v, S.later start n → S.shows n x v → ∃ q u,
    Run.feed r base body v (pc + 1) n = .ok () q ∧ q.Fits ∧
    Run.Returns r base stop depth (pc + 1) q u ∧ S.Beside n (u.goTo pc)

/-- Such a loop comes to its end. -/
theorem Remains.feeds {base stop pc depth : Nat} {body : Value} (h : S.Remains r start p as m)
    (apart : S.Apart p) (serves : S.Serves r base stop pc depth body start) :
    Run.stepLimit ≤ p.work ∨ ∃ vs n, Run.Fed r base stop pc p.root body vs m n := by
  induction as generalizing m with
  | nil =>
    obtain ⟨a, n, pulled, later, draws⟩ | ⟨much, -⟩ := h.pull apart
    · cases draws with | done remains =>
      exact .inr ⟨[], n, .done (serves.ready m h.later).1 pulled (serves.ready n remains.later).2.1⟩
    · exact .inl much
  | cons b as ih =>
    obtain ⟨a, n, pulled, later, draws⟩ | ⟨much, -⟩ := h.pull apart
    · obtain ⟨keeps, -, size⟩ := serves.ready m h.later
      cases draws with
      | pending remains =>
        obtain much | ⟨vs, q, fed⟩ := ih remains
        · exact .inl much
        · exact .inr ⟨vs, q, .pending keeps pulled (serves.ready n remains.later).2.1 fed⟩
      | item shows remains =>
        obtain ⟨q, u, called, fits, returns, beside⟩ := serves.calls n _ _ remains.later shows
        obtain much | ⟨vs, p, fed⟩ := ih (remains.beside apart beside)
        · exact .inl much
        · exact .inr ⟨_, p, .item keeps pulled called fits (size ▸ returns) fed⟩
    · exact .inl much

end Setting

end Catena
