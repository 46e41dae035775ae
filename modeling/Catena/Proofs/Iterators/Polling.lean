import Catena.Library.Collections
import Catena.Proofs.Iterators.Drained
import Catena.Proofs.Iterators.Rotating

/-!
# Polling merges its sources

Sources that answer so many items, and keep one waiting in between, are merged by polls of them: each item
comes once, those of a source in order, and no source waits for another one to be done (`Supply.merges`).
Trees of iterators that have none in common are such sources (`Setting.supply`).
-/

namespace Catena

open Polling

/-! ## Sources -/

/-- The answer to a pull is the next of those that are left. -/
inductive Tells {X : Type} (shows : X → Value → Prop) : Option (Option X) → Pulled → Prop
  | done : Tells shows none .done
  | pending : Tells shows (some none) .pending
  | item {x : X} {v : Value} : shows x v → Tells shows (some (some x)) (.item v)

namespace Tells

variable {X : Type} {shows : X → Value → Prop} {as : Answers X}

theorem nil (h : Tells shows as.head? .done) : as = [] := by
  cases as with
  | nil => rfl
  | cons b as =>
    rw [List.head?_cons] at h
    cases h

theorem some {a : Pulled} (h : Tells shows as.head? a) (goes : a ≠ .done) : as ≠ [] := by
  rintro rfl
  cases h
  exact goes rfl

/-- A source that is done has no answer less afterwards. -/
theorem same {owed : Ref → Answers X} {i : Ref} (h : Tells shows (owed i).head? .done) :
    Function.update owed i (owed i).tail = owed := by
  rw [h.nil, List.tail_nil, ← h.nil, Function.update_eq_self]

end Tells

/-- Iterators that can be pulled one after the other, in whatever order: each has its own answers left to
give, and a pull of one of them leaves those of the others. -/
structure Supply (X : Type) (pull : Run.Puller) (sources : List Ref) where
  /-- These answers are left in the machine. -/
  left : (Ref → Answers X) → Machine → Prop
  /-- The value shows the item. -/
  shows : Machine → X → Value → Prop
  pulls : ∀ owed m i, left owed m → i ∈ sources → ∃ a n, pull i m = .ok a n ∧
    Tells (shows n) (owed i).head? a ∧ left (Function.update owed i (owed i).tail) n ∧
    ∀ x v, shows m x v → shows n x v

/-- From answers that are left, these were told, and those are left afterwards. -/
inductive Told {X : Type} (shows : X → Value → Prop) : Answers X → List Pulled → Answers X → Prop
  | rest (as : Answers X) : Told shows as [] as
  | done {ps : List Pulled} {bs : Answers X} : Told shows [] ps bs → Told shows [] (.done :: ps) bs
  | pending {as bs : Answers X} {ps : List Pulled} : Told shows as ps bs →
      Told shows (none :: as) (.pending :: ps) bs
  | item {x : X} {v : Value} {as bs : Answers X} {ps : List Pulled} : shows x v → Told shows as ps bs →
      Told shows (some x :: as) (.item v :: ps) bs

namespace Told

variable {X : Type} {shows shows' : X → Value → Prop} {as bs cs : Answers X} {ps qs : List Pulled}

theorem imp (h : Told shows as ps bs) (more : ∀ x v, shows x v → shows' x v) : Told shows' as ps bs := by
  induction h with
  | rest => exact .rest _
  | done _ ih => exact .done ih
  | pending _ ih => exact .pending ih
  | item shown _ ih => exact .item (more _ _ shown) ih

theorem trans (h : Told shows as ps bs) (k : Told shows bs qs cs) : Told shows as (ps ++ qs) cs := by
  induction h with
  | rest => exact k
  | done _ ih => exact .done (ih k)
  | pending _ ih => exact .pending (ih k)
  | item shown _ ih => exact .item shown (ih k)

theorem of_tells {a : Pulled} (h : Tells shows as.head? a) : Told shows as [a] as.tail := by
  cases as with
  | nil =>
    cases h
    exact .done (.rest _)
  | cons b as =>
    generalize same : (b :: as).head? = first at h
    cases h with
    | done => cases same
    | pending =>
      cases same
      exact .pending (.rest _)
    | item shown =>
      cases same
      exact .item shown (.rest _)

/-- The items among what was told are the first of those that were left. -/
theorem items (h : Told shows as ps bs) : ∃ xs, as.reduceOption = xs ++ bs.reduceOption ∧
    List.Forall₂ shows xs (ps.filterMap value?) := by
  induction h with
  | rest as => exact ⟨[], rfl, .nil⟩
  | done _ ih => exact ih
  | pending _ ih => exact ih
  | @item x v _ _ _ shown _ ih =>
    obtain ⟨xs, split, each⟩ := ih
    refine ⟨x :: xs, ?_, .cons shown each⟩
    rw [List.reduceOption_cons_of_some, split]
    rfl

/-- A source that is done has told all its answers. -/
theorem spent (h : Told shows as ps bs) (done : .done ∈ ps) : bs = [] := by
  induction h with
  | rest => cases done
  | @done ps bs rest ih =>
    cases rest with
    | rest => rfl
    | done rest => exact ih List.mem_cons_self
  | pending _ ih => exact ih (by simpa using done)
  | item _ _ ih => exact ih (by simpa using done)

end Told

/-- How many answers the sources have left. -/
def total {X : Type} (owed : Ref → Answers X) : List Ref → Nat
  | [] => 0
  | i :: sources => (owed i).length + total owed sources

theorem total_cons {X : Type} (owed : Ref → Answers X) (i : Ref) (sources : List Ref) :
    total owed (i :: sources) = (owed i).length + total owed sources :=
  rfl

theorem total_update_other {X : Type} {sources : List Ref} {i : Ref} (owed : Ref → Answers X)
    (as : Answers X) (other : i ∉ sources) :
    total (Function.update owed i as) sources = total owed sources := by
  induction sources with
  | nil => rfl
  | cons j sources ih =>
    obtain ⟨apart, other⟩ := not_or.1 (mt List.mem_cons.2 other)
    rw [total_cons, total_cons, ih other, Function.update_of_ne (Ne.symm apart)]

theorem total_tail {X : Type} {owed : Ref → Answers X} {sources : List Ref} {i : Ref}
    (distinct : sources.Nodup) (member : i ∈ sources) (some : owed i ≠ []) :
    total (Function.update owed i (owed i).tail) sources + 1 = total owed sources := by
  induction sources with
  | nil => cases member
  | cons j sources ih =>
    obtain ⟨fresh, distinct⟩ := List.nodup_cons.1 distinct
    rw [total_cons, total_cons]
    by_cases same : i = j
    · subst same
      have long := List.length_pos_of_ne_nil some
      rw [total_update_other owed _ fresh, Function.update_self, List.length_tail]
      omega
    · have rest := ih distinct ((List.mem_cons.1 member).resolve_left same)
      rw [Function.update_of_ne (Ne.symm same)]
      omega

namespace Supply

variable {X : Type} {pull : Run.Puller} {sources : List Ref} {supply : Supply X pull sources}
  {owed owed' : Ref → Answers X} {m n p : Machine} {q q' : List Ref} {ts : List Turn} {answer : Option Value}

/-- What a poll leaves of the answers. -/
structure Polled (supply : Supply X pull sources) (owed : Ref → Answers X) (q : List Ref) (m : Machine)
    (ts : List Turn) (answer : Option Value) (q' : List Ref) (n : Machine) (owed' : Ref → Answers X) :
    Prop where
  polls : Polls pull q m ts answer q' n
  left : supply.left owed' n
  told : ∀ i, Told (supply.shows n) (owed i) (told i ts) (owed' i)
  later : ∀ x v, supply.shows m x v → supply.shows n x v
  count : total owed' sources + q'.length + ts.length = total owed sources + q.length
  fewer : answer ≠ none → total owed' sources < total owed sources

/-- What comes of a turn and of those after it. -/
theorem told_turn {i : Ref} {a : Pulled} (tells : Tells (supply.shows n) (owed i).head? a)
    (later : ∀ x v, supply.shows n x v → supply.shows p x v)
    (rest : ∀ j, Told (supply.shows p) (Function.update owed i (owed i).tail j) (told j ts) (owed' j))
    (j : Ref) : Told (supply.shows p) (owed j) (Polling.told j ((i, a) :: ts)) (owed' j) := by
  have rest := rest j
  rw [told_cons]
  by_cases same : i = j
  · subst same
    rw [Function.update_self] at rest
    rw [if_pos rfl]
    exact ((Told.of_tells tells).imp later).trans rest
  · rw [Function.update_of_ne (Ne.symm same)] at rest
    rwa [if_neg same]

namespace Polled

variable {i : Ref}

theorem empty (left : supply.left owed m) : supply.Polled owed [] m [] none [] m owed :=
  ⟨.empty m, left, fun _ => .rest _, fun _ _ => id, rfl, fun some => absurd rfl some⟩

theorem item {v : Value} (distinct : sources.Nodup) (member : i ∈ sources)
    (pulled : pull i m = .ok (.item v) n) (tells : Tells (supply.shows n) (owed i).head? (.item v))
    (left : supply.left (Function.update owed i (owed i).tail) n)
    (later : ∀ x v, supply.shows m x v → supply.shows n x v) :
    supply.Polled owed (i :: q) m [(i, .item v)] (some v) (q ++ [i]) n
      (Function.update owed i (owed i).tail) := by
  have less := total_tail distinct member (tells.some nofun)
  refine ⟨.item pulled, left, told_turn tells (fun _ _ => id) fun _ => .rest _, later, ?_, fun _ => ?_⟩
  · simp only [List.length_append, List.length_cons, List.length_nil]
    omega
  · omega

theorem pending (distinct : sources.Nodup) (member : i ∈ sources) (pulled : pull i m = .ok .pending n)
    (tells : Tells (supply.shows n) (owed i).head? .pending)
    (later : ∀ x v, supply.shows m x v → supply.shows n x v)
    (rest : supply.Polled (Function.update owed i (owed i).tail) (q ++ [i]) n ts answer q' p owed') :
    supply.Polled owed (i :: q) m ((i, .pending) :: ts) answer q' p owed' := by
  have less := total_tail distinct member (tells.some nofun)
  refine ⟨.pending pulled rest.polls, rest.left, told_turn tells rest.later rest.told, fun x v shown =>
    rest.later x v (later x v shown), ?_, fun some => ?_⟩
  · have count := rest.count
    rw [List.length_append, List.length_singleton] at count
    rw [List.length_cons, List.length_cons]
    omega
  · have fewer := rest.fewer some
    omega

theorem done (pulled : pull i m = .ok .done n) (tells : Tells (supply.shows n) (owed i).head? .done)
    (later : ∀ x v, supply.shows m x v → supply.shows n x v)
    (rest : supply.Polled owed q n ts answer q' p owed') :
    supply.Polled owed (i :: q) m ((i, .done) :: ts) answer q' p owed' := by
  refine ⟨.done pulled rest.polls, rest.left, told_turn tells rest.later ?_, fun x v shown =>
    rest.later x v (later x v shown), ?_, rest.fewer⟩
  · rw [tells.same]
    exact rest.told
  · have count := rest.count
    rw [List.length_cons, List.length_cons]
    omega

end Polled

/-- A poll of sources comes to an end: each pull takes an answer, or a source out of the queue. -/
theorem poll (distinct : sources.Nodup) (left : supply.left owed m) (inside : q ⊆ sources) :
    ∃ ts answer q' n owed', supply.Polled owed q m ts answer q' n owed' := by
  generalize size : total owed sources + q.length = k
  induction k using Nat.strong_induction_on generalizing owed q m with
  | h k ih =>
    cases q with
    | nil => exact ⟨_, _, _, _, _, .empty left⟩
    | cons i q =>
      obtain ⟨here, inside⟩ := List.cons_subset.1 inside
      rw [List.length_cons] at size
      obtain ⟨a, n, pulled, tells, left, later⟩ := supply.pulls owed m i left here
      cases a with
      | item v => exact ⟨_, _, _, _, _, .item distinct here pulled tells left later⟩
      | pending =>
        have less := total_tail distinct here (tells.some nofun)
        have inside : q ++ [i] ⊆ sources := List.append_subset.2 ⟨inside, by simpa using here⟩
        have shorter : total (Function.update owed i (owed i).tail) sources + (q ++ [i]).length < k := by
          rw [List.length_append, List.length_singleton]
          omega
        obtain ⟨_, _, _, _, _, polled⟩ := ih _ shorter left inside rfl
        exact ⟨_, _, _, _, _, polled.pending distinct here pulled tells later⟩
      | done =>
        rw [tells.same] at left
        obtain ⟨_, _, _, _, _, polled⟩ := ih _ (by omega) left inside rfl
        exact ⟨_, _, _, _, _, polled.done pulled tells later⟩

/-! ## Polls one after the other -/

/-- What is left when the queue has been polled for a while. -/
structure Called (supply : Supply X pull sources) (answers : Ref → Answers X) (ts : List Turn)
    (q : List Ref) (n : Machine) (owed : Ref → Answers X) : Prop where
  left : supply.left owed n
  told : ∀ i, Told (supply.shows n) (answers i) (Polling.told i ts) (owed i)
  count : total owed sources + q.length ≤ total answers sources + sources.length

variable {answers : Ref → Answers X} {fuel : Nat} {vs : List Value}

theorem inside (distinct : sources.Nodup) (calls : Calls pull fuel sources m ts vs q n) : q ⊆ sources :=
  fun i member => (((calls.rotates.holds distinct).2 i).1 member).1

theorem Called.next {us : List Turn} (before : supply.Called answers ts q n owed)
    (polled : supply.Polled owed q n us answer q' p owed') : supply.Called answers (ts ++ us) q' p owed' := by
  refine ⟨polled.left, fun i => ?_, ?_⟩
  · rw [told_append]
    exact ((before.told i).imp polled.later).trans (polled.told i)
  · have first := before.count
    have count := polled.count
    omega

theorem called (distinct : sources.Nodup) (stands : supply.left answers m)
    (calls : Calls pull fuel sources m ts vs q n) : ∃ owed, supply.Called answers ts q n owed := by
  induction calls with
  | start => exact ⟨answers, stands, fun _ => .rest _, Nat.le_refl _⟩
  | next calls _ polls ih =>
    obtain ⟨owed, before⟩ := ih
    obtain ⟨us, answer, q', p, owed', polled⟩ := poll distinct before.left (inside distinct calls)
    obtain ⟨rfl, rfl, rfl, rfl⟩ := polls.unique polled.polls
    exact ⟨owed', before.next polled⟩

/-- The next poll comes to an end, and the program makes it. -/
theorem next (distinct : sources.Nodup) (enough : total answers sources + sources.length < fuel)
    (before : supply.Called answers ts q n owed) (calls : Calls pull fuel sources m ts vs q n) :
    ∃ us answer q' p owed', supply.Polled owed q n us answer q' p owed' ∧
      Run.pollUntil pull fuel q n = .ok (answer, q') p := by
  obtain ⟨us, answer, q', p, owed', polled⟩ := poll distinct before.left (inside distinct calls)
  have first := before.count
  have count := polled.count
  exact ⟨us, answer, q', p, owed', polled, polled.polls.run (by omega)⟩

/-- Polls come to the one that finds nothing more. -/
theorem ends (distinct : sources.Nodup) (stands : supply.left answers m)
    (enough : total answers sources + sources.length < fuel)
    (calls : Calls pull fuel sources m ts vs q n) : ∃ us ws q' n' p,
      (∃ xs, Calls pull fuel sources m xs (vs ++ ws) q' n') ∧
      Run.pollUntil pull fuel q' n' = .ok (none, []) p ∧
      Calls pull fuel sources m (ts ++ us) (vs ++ ws) [] p := by
  obtain ⟨owed, before⟩ := called distinct stands calls
  generalize size : total owed sources = k
  induction k using Nat.strong_induction_on generalizing ts vs q n owed with
  | h k ih =>
    obtain ⟨us, answer, q', p, owed', polled, runs⟩ := next distinct enough before calls
    have after := calls.next runs polled.polls
    cases answer with
    | none =>
      obtain rfl := polled.polls.ends
      rw [Option.toList_none] at after
      exact ⟨us, [], q, n, p, ⟨ts, by rwa [List.append_nil]⟩, runs, after⟩
    | some v =>
      have less : total owed' sources < k := size ▸ polled.fewer (Option.some_ne_none v)
      obtain ⟨us', ws, last⟩ := ih _ less after _ (before.next polled) rfl
      rw [Option.toList_some, List.append_assoc, List.append_assoc] at last
      exact ⟨us ++ us', v :: ws, last⟩

theorem addSource_room {capacity : Nat} {set : List Ref} (room : set.length < capacity) (i : Ref) :
    Run.addSource capacity i set = .ok () (set ++ [i]) :=
  if_neg (Nat.not_le_of_lt room)

theorem addSource_full {capacity : Nat} {set : List Ref} (full : capacity ≤ set.length) (i : Ref) :
    Run.addSource capacity i set = .error (Fault.pollSetFull capacity) set :=
  if_pos full

/-- The program takes as many sources as a poll set holds. -/
theorem pollSources_handles {capacity : Nat} {values : List Value} {is set : List Ref}
    (handles : List.Forall₂ Value.Handles values is) (few : set.length + is.length ≤ capacity)
    (n : Machine) :
    Run.pollSources capacity values set n = .ok (set ++ is) n := by
  induction handles generalizing set with
  | nil => rw [List.append_nil]; rfl
  | @cons value i values is handle _ ih =>
    rw [List.length_cons] at few
    rw [Run.pollSources, Run.iterate_handle handle, pure_bind, addSource_room (by omega)]
    have few : (set ++ [i]).length + is.length ≤ capacity := by
      rw [List.length_append, List.length_singleton]
      omega
    have rest := ih few
    rwa [List.append_assoc, List.singleton_append] at rest

/-- Iterators that there are stay as they are. -/
def Sparing (x : Run Ref) : Prop :=
  ∀ m i n j, x m = .ok i n → (m.cell? j).isSome → n.cell? j = m.cell? j

theorem sparing_newIter (it : Iterator) : Sparing (Run.newIter it) := by
  intro m i n j made there
  cases made
  have before : j < m.shared.store.iters.size := by simpa [Machine.cell?] using there
  show (m.shared.store.iters.push (.ready it))[j]? = m.shared.store.iters[j]?
  rw [Array.getElem?_push, if_neg (Nat.ne_of_lt before)]

theorem sparing_iterate (v : Value) : Sparing (Run.iterate v) := by
  have fails (f : Fault) : Sparing (Run.fail f) := fun _ _ _ _ made => by cases made
  unfold Run.iterate
  split <;> first
    | exact sparing_newIter _
    | exact fails _
    | exact fun _ _ _ _ made _ => by cases made; rfl

/-- A full set takes no more sources. The call fails, and the iterators that it has are as before. -/
theorem pollSources_full {capacity : Nat} {set : List Ref} (full : capacity ≤ set.length) {v : Value}
    {i : Ref} (ok : Run.iterate v m = .ok i n) (values : List Value) :
    Run.pollSources capacity (v :: values) set m = .error (.fault (Fault.pollSetFull capacity)) n ∧
      ∀ j, (m.cell? j).isSome → n.cell? j = m.cell? j := by
  refine ⟨?_, fun j => sparing_iterate v _ _ _ j ok⟩
  rw [Run.pollSources, Run.bind_apply, ok]
  dsimp only
  rw [addSource_full full]
  rfl

end Supply

/-- Polling is a fair merge that loses nothing. Sources that are not more than a poll set holds are taken
into it, and a full set takes no more: the call fails, and the set and its iterators are as before. Whatever
the sources answer before they are done, one poll after the other comes to one that finds nothing more, and
on the way, whenever a poll has returned,

* the polls have returned the items that the sources answered, those of a source in order and none left out,
  and all of them once the source has left the queue,
* between two items of a source each other one that was not done has been pulled,
* the queue holds the sources that have not been done, each once.

Trees of iterators are such sources (`Setting.supply`), with any fuel that is more than the answers and the
sources together. -/
theorem Supply.merges {X : Type} {pull : Run.Puller} {sources : List Ref} (supply : Supply X pull sources)
    (answers : Ref → Answers X) (m : Machine) (stands : supply.left answers m) (distinct : sources.Nodup)
    (capacity : Nat) (few : sources.length ≤ capacity) (fuel : Nat)
    (enough : total answers sources + sources.length < fuel) :
    (∀ values, List.Forall₂ Value.Handles values sources →
      ∀ n, Run.pollSources capacity values [] n = .ok sources n) ∧
    (∀ set, capacity ≤ set.length →
      (∀ i, Run.addSource capacity i set = .error (Fault.pollSetFull capacity) set) ∧
      ∀ v values i n p, Run.iterate v n = .ok i p →
        Run.pollSources capacity (v :: values) set n = .error (.fault (Fault.pollSetFull capacity)) p ∧
          ∀ j, (n.cell? j).isSome → p.cell? j = n.cell? j) ∧
    ∀ ts vs q n, Calls pull fuel sources m ts vs q n →
      (∃ us answer q' p, Run.pollUntil pull fuel q n = .ok (answer, q') p ∧ Polls pull q n us answer q' p) ∧
      (∃ us ws q' n' p, (∃ xs, Calls pull fuel sources m xs (vs ++ ws) q' n') ∧
        Run.pollUntil pull fuel q' n' = .ok (none, []) p ∧
        Calls pull fuel sources m (ts ++ us) (vs ++ ws) [] p) ∧
      vs = (given ts).map Prod.snd ∧
      (∀ i ∈ sources, ∃ xs rest, (answers i).reduceOption = xs ++ rest ∧
        List.Forall₂ (supply.shows n) xs (((given ts).filter (·.1 = i)).map Prod.snd) ∧
        (i ∉ q → rest = [])) ∧
      (∀ xs i v ys w zs j, ts = xs ++ (i, .item v) :: ys ++ (i, .item w) :: zs → j ∈ sources → j ≠ i →
        (j, .done) ∉ xs → ∃ a, (j, a) ∈ ys) ∧
      q.Nodup ∧ ∀ i, i ∈ q ↔ i ∈ sources ∧ (i, .done) ∉ ts := by
  refine ⟨fun values handles n => ?_, fun set full => ?_, fun ts vs q n calls => ?_⟩
  · exact Supply.pollSources_handles handles (by simpa using few) n
  · exact ⟨Supply.addSource_full full, fun v values i n p ok => Supply.pollSources_full full ok values⟩
  · obtain ⟨owed, before⟩ := Supply.called distinct stands calls
    obtain ⟨us, answer, q', p, owed', polled, runs⟩ := Supply.next distinct enough before calls
    obtain ⟨distinct', holds⟩ := calls.rotates.holds distinct
    refine ⟨⟨us, answer, q', p, runs, polled.polls⟩, Supply.ends distinct stands enough calls, calls.given,
      fun i member => ?_, fun xs i v ys w zs j split member other goes => ?_, distinct', holds⟩
    · obtain ⟨xs, split, each⟩ := (before.told i).items
      rw [given_of]
      refine ⟨xs, _, split, each, fun gone => ?_⟩
      have done : (i, .done) ∈ ts := by
        by_contra goes
        exact gone ((holds i).2 ⟨member, goes⟩)
      rw [(before.told i).spent (mem_told.2 done)]
      rfl
    · exact (split ▸ calls.rotates).fair distinct member other goes

/-! ## Trees of iterators -/

namespace Setting

variable {X : Type} {S : Setting X} {r : Reentry} {start m n : Machine} {ps : List (Plan X)}

/-- The trees have no iterator in common, and only pulls touch theirs. -/
structure AllApart (S : Setting X) (ps : List (Plan X)) : Prop where
  inside : ∀ p ∈ ps, ∀ j ∈ p.iters, j ∈ S.iters
  distinct : (ps.flatMap Plan.iters).Nodup

theorem AllApart.apart (h : S.AllApart ps) {p : Plan X} (member : p ∈ ps) : S.Apart p :=
  ⟨h.inside p member, (List.nodup_flatMap.1 h.distinct).1 p member⟩

theorem AllApart.disjoint (h : S.AllApart ps) {p q : Plan X} (member : p ∈ ps) (member' : q ∈ ps)
    (other : q ≠ p) : List.Disjoint q.iters p.iters :=
  have _ : Std.Symm (Function.onFun List.Disjoint (@Plan.iters X)) :=
    ⟨fun _ _ apart _ here there => apart there here⟩
  (List.nodup_flatMap.1 h.distinct).2.forall member' member other

theorem AllApart.roots (h : S.AllApart ps) : (ps.map Plan.root).Nodup := by
  refine List.pairwise_map.2 ((List.nodup_flatMap.1 h.distinct).2.imp fun apart same => ?_)
  exact apart List.mem_cons_self (same ▸ List.mem_cons_self)

/-- Iterators that are not touched leave a tree as it was. -/
theorem Touches.spares {is : List Ref} (touches : S.Touches is m n) {q : Plan X} {as : Answers X}
    (apart : S.Apart q) (others : List.Disjoint q.iters is) (here : S.Keeps start q m)
    (owes : S.Owes r start q as m) : S.Keeps start q n ∧ S.Owes r start q as n :=
  ⟨here.touches apart touches, owes.later touches.later fun j member =>
    touches.others j (apart.inside j member) fun touched => others member touched⟩

/-- What a pull of a tree answers, and that it has the others left then. -/
theorem pulls_next {p : Plan X} (apart : S.Apart p) (short : p.work < Run.stepLimit) {fuel : Nat}
    (deep : p.iters.length ≤ fuel) {as : Answers X} (here : S.Keeps start p m) (owes : S.Owes r start p as m) :
    ∃ a n, Run.pullWithin r fuel p.root m = .ok a n ∧ S.Touches p.iters m n ∧
      Tells (S.shows n) as.head? a ∧ S.Owes r start p as.tail n := by
  obtain ⟨a, n, run, gives⟩ | ⟨much, -⟩ := pulls_within apart deep m as here owes
  · refine ⟨a, n, run, ?_⟩
    cases gives with
    | done touches =>
      obtain ⟨fuel, rfl⟩ : ∃ k, fuel = k + 1 := ⟨fuel - 1, by simp [Plan.iters] at deep; omega⟩
      have live := (here.touches apart touches).live _ List.mem_cons_self
      exact ⟨touches, .done, .inl ⟨Run.cell?_of_finishes (.inl run) live, rfl⟩⟩
    | pending touches left => exact ⟨touches, .pending, left⟩
    | item touches shows left => exact ⟨touches, .item shows, left⟩
  · exact absurd much (Nat.not_le_of_lt short)

/-- Trees of iterators that stand apart from one another are sources. -/
def supply (apart : S.AllApart ps) (short : ∀ p ∈ ps, p.work < Run.stepLimit) {fuel : Nat}
    (deep : ∀ p ∈ ps, p.iters.length ≤ fuel) (r : Reentry) (start : Machine) :
    Supply X (Run.pullWithin r fuel) (ps.map Plan.root) where
  left owed m := ∀ p ∈ ps, S.Keeps start p m ∧ S.Owes r start p (owed p.root) m
  shows := S.shows
  pulls := by
    intro owed m i left root
    obtain ⟨p, member, rfl⟩ := List.mem_map.1 root
    obtain ⟨here, owes⟩ := left p member
    obtain ⟨a, n, run, touches, tells, rest⟩ :=
      pulls_next (apart.apart member) (short p member) (deep p member) here owes
    refine ⟨a, n, run, tells, fun q member' => ?_, fun x v shown => S.shows_later touches.later shown⟩
    by_cases same : q = p
    · subst same
      rw [Function.update_self]
      exact ⟨here.touches (apart.apart member) touches, rest⟩
    · have others := apart.disjoint member member' same
      have other : q.root ≠ p.root := fun same => others List.mem_cons_self (same ▸ List.mem_cons_self)
      rw [Function.update_of_ne other]
      obtain ⟨there, owes'⟩ := left q member'
      exact touches.spares (apart.apart member') others there owes'

/-- Trees that stand have all their answers left. -/
theorem Stands.supplied {apart : S.AllApart ps} {short : ∀ p ∈ ps, p.work < Run.stepLimit} {fuel : Nat}
    {deep : ∀ p ∈ ps, p.iters.length ≤ fuel} (stands : ∀ p ∈ ps, S.Stands r p m) {answers : Ref → Answers X}
    (each : ∀ p ∈ ps, answers p.root = p.answers S.pair) :
    (S.supply apart short deep r m).left answers m := by
  intro p member
  have remains := (stands p member).remains
  rw [each p member]
  exact ⟨remains.toKeeps, remains.owes⟩

end Setting

/-- Two iterators, of which the second keeps one waiting before every item and before the end. -/
def Machine.polled : Machine where
  shared := { store := { iters := #[.ready (.range 0 2),
    .ready (.scripted [none, some (.int 10), none, some (.int 11), none])] } }
  thread := { id := 0, ops := #[] }

/-- What they answer. -/
def Plan.polled : List (Plan Item) :=
  [.source 0 [some (.int 0), some (.int 1)], .source 1 [none, some (.int 10), none, some (.int 11), none]]

theorem Setting.stands_polled :
    ∀ p ∈ Plan.polled, (Setting.pairing [0, 1]).Stands Run.outermost p .polled := by
  have range : (Setting.pairing [0, 1]).Feeds Run.outermost [some (.int 0), some (.int 1)] (.range 0 2)
      .polled := by
    apply feeds_of_lists
    · rintro _ ⟨registry, iters, pairs, -, rfl⟩
      rfl
    · exact .cons (fun _ _ => .some rfl) (.cons (fun _ _ => .some rfl) .nil)
  have pend : (Setting.pairing [0, 1]).Feeds Run.outermost
      [none, some (.int 10), none, some (.int 11), none]
      (.scripted [none, some (.int 10), none, some (.int 11), none]) .polled := by
    apply feeds_of_lists
    · exact fun n _ => Iterator.lists_scripted n.shared.store _
    · exact .cons (fun _ _ => .none) (.cons (fun _ _ => .some rfl) (.cons (fun _ _ => .none)
        (.cons (fun _ _ => .some rfl) (.cons (fun _ _ => .none) .nil))))
  intro p member
  simp only [Plan.polled, List.mem_cons, List.not_mem_nil, or_false] at member
  rcases member with rfl | rfl
  · exact ⟨_, rfl, range⟩
  · exact ⟨_, rfl, pend⟩

/-- Values that show integers are these. -/
theorem Item.ints_of_shown {m : Machine} {xs : List Int64} {vs : List Value}
    (each : List.Forall₂ (Item.Shown m) (xs.map .int) vs) : vs = xs.map .int := by
  induction xs generalizing vs with
  | nil =>
    cases each
    rfl
  | cons x xs ih =>
    cases each with
    | cons shown rest => exact congrArg₂ List.cons shown (ih rest)

theorem Supply.merges_polled :
    Run.pollSources 2 [⟨.iter, .iter 0⟩, ⟨.iter, .iter 1⟩] [] .polled = .ok [0, 1] .polled ∧
    ∃ ts vs n, Calls (Run.pullWithin Run.outermost 1) Run.stepLimit [0, 1] .polled ts vs [] n ∧
      vs = (given ts).map Prod.snd ∧
      ((given ts).filter (·.1 = 0)).map Prod.snd = [.int 0, .int 1] ∧
      ((given ts).filter (·.1 = 1)).map Prod.snd = [.int 10, .int 11] := by
  have apart : (Setting.pairing [0, 1]).AllApart Plan.polled := ⟨by decide, by decide⟩
  have short : ∀ p ∈ Plan.polled, p.work < Run.stepLimit := by decide
  have deep : ∀ p ∈ Plan.polled, p.iters.length ≤ 1 := by decide
  let supply := Setting.supply apart short deep Run.outermost .polled
  let answers : Ref → Answers Item := fun i => (Plan.polled[i]?.map (·.answers .pair)).getD []
  have stands : supply.left answers .polled := Setting.Stands.supplied Setting.stands_polled (by
    intro p member
    simp only [Plan.polled, List.mem_cons, List.not_mem_nil, or_false] at member
    rcases member with rfl | rfl <;> rfl)
  obtain ⟨takes, -, polls⟩ := Supply.merges supply answers .polled stands apart.roots 2 (by decide)
    Run.stepLimit (by decide)
  refine ⟨takes _ (.cons ⟨rfl, rfl⟩ (.cons ⟨rfl, rfl⟩ .nil)) _, ?_⟩
  obtain ⟨-, ⟨ts, vs, _, _, n, -, -, calls⟩, -⟩ := polls [] [] _ _ .start
  obtain ⟨-, -, same, each, -⟩ := polls _ _ _ _ calls
  -- both sources have left the queue, so all their items have come
  have all {i : Ref} (xs : List Int64) (member : i ∈ Plan.polled.map Plan.root)
      (items : (answers i).reduceOption = xs.map .int) :
      ((given ts).filter (·.1 = i)).map Prod.snd = xs.map .int := by
    obtain ⟨ys, rest, split, shown, gone⟩ := each i member
    rw [gone List.not_mem_nil, List.append_nil] at split
    exact Item.ints_of_shown (items ▸ split ▸ shown)
  exact ⟨ts, vs, n, calls, same, all [0, 1] (by decide) rfl, all [10, 11] (by decide) rfl⟩

end Catena
