import Catena.Proofs.Run.Makes

/-!
# The queue of a poll set

A poll pulls the sources in the order of a queue that rotates: the first one is pulled, and goes to the end
unless it is done. So a source is pulled again only after all others that are still in the queue
(`Rotates.before`). The polls of the program go this way, round by round (`Polls.run`).
-/

namespace Catena.Polling

/-- A pull of a source, and what it answered. -/
abbrev Turn := Ref × Pulled

/-! ## Rotating -/

/-- In these turns the first of the queue is pulled, and goes to the end unless it is done. -/
inductive Rotates : List Ref → List Turn → List Ref → Prop
  | rest (q : List Ref) : Rotates q [] q
  | leaves {i : Ref} {q q' : List Ref} {ts : List Turn} : Rotates q ts q' →
      Rotates (i :: q) ((i, .done) :: ts) q'
  | stays {i : Ref} {a : Pulled} {q q' : List Ref} {ts : List Turn} : a ≠ .done → Rotates (q ++ [i]) ts q' →
      Rotates (i :: q) ((i, a) :: ts) q'

variable {i j : Ref} {a b : Pulled} {q q' q'' front back : List Ref} {ts us : List Turn}

theorem Rotates.trans (h : Rotates q ts q') (k : Rotates q' us q'') : Rotates q (ts ++ us) q'' := by
  induction h with
  | rest => exact k
  | leaves _ ih => exact .leaves (ih k)
  | stays goes _ ih => exact .stays goes (ih k)

theorem Rotates.split (h : Rotates q (ts ++ us) q'') : ∃ q', Rotates q ts q' ∧ Rotates q' us q'' := by
  induction ts generalizing q with
  | nil => exact ⟨q, .rest q, h⟩
  | cons t ts ih =>
    cases h with
    | leaves rest =>
      obtain ⟨q', first, last⟩ := ih rest
      exact ⟨q', .leaves first, last⟩
    | stays goes rest =>
      obtain ⟨q', first, last⟩ := ih rest
      exact ⟨q', .stays goes first, last⟩

/-- The queue holds those once each that have not been done. -/
theorem Rotates.holds (h : Rotates q ts q') (distinct : q.Nodup) :
    q'.Nodup ∧ ∀ i, i ∈ q' ↔ i ∈ q ∧ (i, .done) ∉ ts := by
  induction h with
  | rest => exact ⟨distinct, by simp⟩
  | @leaves i q q' ts _ ih =>
    obtain ⟨fresh, distinct⟩ := List.nodup_cons.1 distinct
    obtain ⟨distinct', holds⟩ := ih distinct
    refine ⟨distinct', fun j => (holds j).trans ?_⟩
    constructor
    · rintro ⟨member, goes⟩
      have other : j ≠ i := ne_of_mem_of_not_mem member fresh
      exact ⟨List.mem_cons_of_mem _ member, by simp [other, goes]⟩
    · rintro ⟨member, goes⟩
      simp only [List.mem_cons, Prod.mk.injEq, and_true, not_or] at member goes
      exact ⟨member.resolve_left goes.1, goes.2⟩
  | @stays i a q q' ts goes _ ih =>
    have rotated : (q ++ [i]).Perm (i :: q) := List.perm_append_singleton i q
    obtain ⟨distinct', holds⟩ := ih (rotated.nodup_iff.2 distinct)
    refine ⟨distinct', fun j => (holds j).trans ?_⟩
    rw [rotated.mem_iff]
    simp [Ne.symm goes]

theorem Rotates.asks (h : Rotates q ts q') {t : Turn} (member : t ∈ ts) : t.1 ∈ q := by
  induction h with
  | rest => cases member
  | leaves _ ih =>
    rcases List.mem_cons.1 member with rfl | member
    · exact List.mem_cons_self
    · exact List.mem_cons_of_mem _ (ih member)
  | stays _ _ ih =>
    rcases List.mem_cons.1 member with rfl | member
    · exact List.mem_cons_self
    · simpa [or_comm] using ih member

/-- Those in front of a source are pulled before it. -/
theorem Rotates.before (h : Rotates (front ++ i :: back) (ts ++ (i, a) :: us) q')
    (distinct : (front ++ i :: back).Nodup) (member : j ∈ front) : ∃ b, (j, b) ∈ ts := by
  induction front generalizing back ts with
  | nil => cases member
  | cons k front ih =>
    have apart : k ≠ i := by
      rintro rfl
      simp at distinct
    cases ts with
    | nil => cases h <;> exact absurd rfl apart
    | cons t ts =>
      have behind {back' : List Ref} (rest : Rotates (front ++ i :: back') (ts ++ (i, a) :: us) q')
          (distinct : (front ++ i :: back').Nodup) {b : Pulled} : ∃ c, (j, c) ∈ (k, b) :: ts := by
        rcases List.mem_cons.1 member with rfl | member
        · exact ⟨b, List.mem_cons_self⟩
        · obtain ⟨c, found⟩ := ih rest distinct member
          exact ⟨c, List.mem_cons_of_mem _ found⟩
      cases h with
      | leaves rest => exact behind rest (List.nodup_cons.1 distinct).2
      | stays goes rest =>
        have rotated : ((front ++ i :: back) ++ [k]).Perm (k :: (front ++ i :: back)) :=
          List.perm_append_singleton k _
        have distinct := rotated.nodup_iff.2 distinct
        change Rotates ((front ++ i :: back) ++ [k]) (ts ++ (i, a) :: us) q' at rest
        rw [List.append_assoc, List.cons_append] at rest distinct
        exact behind rest distinct

/-- Between two pulls of a source, of which the first has not been its last, every other one that is not done
is pulled. -/
theorem Rotates.fair {xs ys zs : List Turn} (h : Rotates q (xs ++ (i, a) :: ys ++ (i, b) :: zs) q')
    (distinct : q.Nodup) (member : j ∈ q) (other : j ≠ i) (goes : (j, .done) ∉ xs) : ∃ c, (j, c) ∈ ys := by
  rw [List.append_assoc] at h
  obtain ⟨now, first, rest⟩ := h.split
  obtain ⟨distinct, holds⟩ := first.holds distinct
  have here : j ∈ now := (holds j).2 ⟨member, goes⟩
  cases rest with
  | leaves rest =>
    -- a source that has left the queue is not pulled again
    have again := rest.asks (List.mem_append_right ys List.mem_cons_self)
    exact absurd again (List.nodup_cons.1 distinct).1
  | @stays _ _ now _ _ _ rest =>
    have rotated : (now ++ [i]).Perm (i :: now) := List.perm_append_singleton i now
    exact rest.before (rotated.nodup_iff.2 distinct) ((List.mem_cons.1 here).resolve_left other)

/-! ## Polling -/

variable {pull : Run.Puller} {m n : Machine} {answer : Option Value}

/-- A poll: sources are pulled until one of them gives an item, or none is left. -/
inductive Polls (pull : Run.Puller) :
    List Ref → Machine → List Turn → Option Value → List Ref → Machine → Prop
  | empty (m : Machine) : Polls pull [] m [] none [] m
  | item {i : Ref} {v : Value} {q : List Ref} {m n : Machine} : pull i m = .ok (.item v) n →
      Polls pull (i :: q) m [(i, .item v)] (some v) (q ++ [i]) n
  | pending {i : Ref} {q q' : List Ref} {m n p : Machine} {ts : List Turn} {answer : Option Value} :
      pull i m = .ok .pending n → Polls pull (q ++ [i]) n ts answer q' p →
      Polls pull (i :: q) m ((i, .pending) :: ts) answer q' p
  | done {i : Ref} {q q' : List Ref} {m n p : Machine} {ts : List Turn} {answer : Option Value} :
      pull i m = .ok .done n → Polls pull q n ts answer q' p →
      Polls pull (i :: q) m ((i, .done) :: ts) answer q' p

theorem Polls.rotates (h : Polls pull q m ts answer q' n) : Rotates q ts q' := by
  induction h with
  | empty => exact .rest []
  | item => exact .stays nofun (.rest _)
  | pending _ _ ih => exact .stays nofun ih
  | done _ _ ih => exact .leaves ih

/-- A poll goes one way only. -/
theorem Polls.unique {answer' : Option Value} {n' : Machine} (h : Polls pull q m ts answer q' n)
    (k : Polls pull q m us answer' q'' n') : us = ts ∧ answer' = answer ∧ q'' = q' ∧ n' = n := by
  induction h generalizing us with
  | empty =>
    cases k
    exact ⟨rfl, rfl, rfl, rfl⟩
  | item pulled =>
    cases k with
    | item pulled' =>
      cases pulled.symm.trans pulled'
      exact ⟨rfl, rfl, rfl, rfl⟩
    | _ pulled' => cases pulled.symm.trans pulled'
  | pending pulled _ ih =>
    cases k with
    | pending pulled' rest =>
      cases pulled.symm.trans pulled'
      obtain ⟨rfl, same⟩ := ih rest
      exact ⟨rfl, same⟩
    | _ pulled' => cases pulled.symm.trans pulled'
  | done pulled _ ih =>
    cases k with
    | done pulled' rest =>
      cases pulled.symm.trans pulled'
      obtain ⟨rfl, same⟩ := ih rest
      exact ⟨rfl, same⟩
    | _ pulled' => cases pulled.symm.trans pulled'

/-- Without an item, no source is left. -/
theorem Polls.ends (h : Polls pull q m ts none q' n) : q' = [] := by
  generalize same : (none : Option Value) = answer at h
  induction h with
  | empty => rfl
  | item => cases same
  | pending _ _ ih => exact ih same
  | done _ _ ih => exact ih same

/-- A round of the program answers an item, or leaves the rest of the poll to the next round. -/
theorem Polls.round {todo kept : List Ref} (h : Polls pull (todo ++ kept.reverse) m ts answer q' n) :
    (∃ v, answer = some v ∧ Run.pollRound pull todo kept m = .ok (some v, q') n) ∨
    ∃ us queue p, Run.pollRound pull todo kept m = .ok (none, queue) p ∧
      Polls pull queue p us answer q' n ∧ ts.length = todo.length + us.length := by
  induction todo generalizing kept m ts with
  | nil => exact .inr ⟨ts, kept.reverse, m, rfl, h, (Nat.zero_add _).symm⟩
  | cons i todo ih =>
    have next {p : Machine} {a : Pulled} {ts : List Turn} (kept' : List Ref)
        (rest : Polls pull (todo ++ kept'.reverse) p ts answer q' n)
        (runs : Run.pollRound pull (i :: todo) kept m = Run.pollRound pull todo kept' p) :
        (∃ v, answer = some v ∧ Run.pollRound pull (i :: todo) kept m = .ok (some v, q') n) ∨
        ∃ us queue p, Run.pollRound pull (i :: todo) kept m = .ok (none, queue) p ∧
          Polls pull queue p us answer q' n ∧ ((i, a) :: ts).length = (i :: todo).length + us.length := by
      rw [runs]
      refine (ih rest).imp_right ?_
      rintro ⟨us, queue, u, round, polls, length⟩
      exact ⟨us, queue, u, round, polls, by simp only [List.length_cons]; omega⟩
    cases h with
    | @item _ v _ _ _ pulled =>
      refine .inl ⟨v, rfl, ?_⟩
      rw [Run.pollRound, Run.bind_apply, pulled]
      rfl
    | pending pulled rest =>
      refine next (i :: kept) (by simpa using rest) ?_
      rw [Run.pollRound, Run.bind_apply, pulled]
    | done pulled rest =>
      refine next kept rest ?_
      rw [Run.pollRound, Run.bind_apply, pulled]

/-- With fuel for its rounds, the program polls this way. -/
theorem Polls.run (h : Polls pull q m ts answer q' n) {fuel : Nat} (enough : ts.length < fuel) :
    Run.pollUntil pull fuel q m = .ok (answer, q') n := by
  induction fuel generalizing q m ts with
  | zero => cases enough
  | succ fuel ih =>
    cases q with
    | nil =>
      cases h
      rfl
    | cons i q =>
      rw [Run.pollUntil, Run.bind_apply]
      · have queued : Polls pull (i :: q ++ [].reverse) m ts answer q' n := by simpa using h
        obtain ⟨v, rfl, round⟩ | ⟨us, queue, p, round, polls, length⟩ := queued.round
        · rw [round]
          rfl
        · rw [round]
          rw [List.length_cons] at length
          exact ih polls (by omega)
      · nofun

/-! ## One poll after the other -/

/-- The item that a pull answers. -/
def value? : Pulled → Option Value
  | .item v => some v
  | _ => none

/-- The items that were answered, with their sources. -/
def given (ts : List Turn) : List (Ref × Value) :=
  ts.filterMap fun t => (value? t.2).map (t.1, ·)

/-- What the source answered. -/
def told (i : Ref) (ts : List Turn) : List Pulled :=
  ts.filterMap fun t => if t.1 = i then some t.2 else none

theorem told_append (i : Ref) (ts us : List Turn) : told i (ts ++ us) = told i ts ++ told i us :=
  List.filterMap_append

theorem told_cons (i : Ref) (t : Turn) (ts : List Turn) :
    told i (t :: ts) = if t.1 = i then t.2 :: told i ts else told i ts := by
  by_cases same : t.1 = i <;> simp [told, same]

theorem given_append (ts us : List Turn) : given (ts ++ us) = given ts ++ given us :=
  List.filterMap_append

theorem mem_told : a ∈ told i ts ↔ (i, a) ∈ ts := by
  simp only [told, List.mem_filterMap, Option.ite_none_right_eq_some, Option.some.injEq]
  constructor
  · rintro ⟨⟨_, _⟩, member, rfl, rfl⟩
    exact member
  · exact fun member => ⟨_, member, rfl, rfl⟩

/-- The items of a source are those among its answers. -/
theorem given_of (i : Ref) (ts : List Turn) :
    ((given ts).filter (·.1 = i)).map Prod.snd = (told i ts).filterMap value? := by
  induction ts with
  | nil => rfl
  | cons t ts ih =>
    obtain ⟨j, a⟩ := t
    rw [told_cons]
    cases answered : value? a with
    | some v =>
      have first : given ((j, a) :: ts) = (j, v) :: given ts := List.filterMap_cons_some (by simp [answered])
      rw [first]
      by_cases same : j = i <;> simp [same, ih, answered]
    | none =>
      have first : given ((j, a) :: ts) = given ts := List.filterMap_cons_none (by simp [answered])
      rw [first]
      by_cases same : j = i <;> simp [same, ih, answered]

theorem Polls.given (h : Polls pull q m ts answer q' n) :
    (Polling.given ts).map Prod.snd = answer.toList := by
  induction h with
  | empty => rfl
  | item => rfl
  | pending _ _ ih => exact ih
  | done _ _ ih => exact ih

/-- The queue is polled again and again; these are the turns, and the values that came of the polls. -/
inductive Calls (pull : Run.Puller) (fuel : Nat) (queue : List Ref) (m : Machine) :
    List Turn → List Value → List Ref → Machine → Prop
  | start : Calls pull fuel queue m [] [] queue m
  | next {ts us : List Turn} {vs : List Value} {answer : Option Value} {q q' : List Ref} {n p : Machine} :
      Calls pull fuel queue m ts vs q n → Run.pollUntil pull fuel q n = .ok (answer, q') p →
      Polls pull q n us answer q' p → Calls pull fuel queue m (ts ++ us) (vs ++ answer.toList) q' p

variable {fuel : Nat} {queue : List Ref} {vs : List Value}

theorem Calls.rotates (h : Calls pull fuel queue m ts vs q n) : Rotates queue ts q := by
  induction h with
  | start => exact .rest _
  | next _ _ polls ih => exact ih.trans polls.rotates

theorem Calls.given (h : Calls pull fuel queue m ts vs q n) : vs = (Polling.given ts).map Prod.snd := by
  induction h with
  | start => rfl
  | next _ _ polls ih =>
    rw [ih, given_append, List.map_append, polls.given]

end Catena.Polling
