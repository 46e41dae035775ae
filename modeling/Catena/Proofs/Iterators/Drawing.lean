import Catena.Proofs.Iterators.Answers
import Catena.Proofs.Iterators.Cells

/-!
# Drawing on a tree of iterators

A pull of the root of a tree answers the next of what its iterators make of the answers of the sources, and
leaves the others (`Setting.pulls_within`). There is one lemma for each kind of iterator, which says how it
goes on from what it draws on, and the tree follows by induction.

Pulls are nested, callbacks run in between, and pairs come to be, so the machine does not stay what it was. A
setting says which machines may come, and what values show there: an item is not a value, since two values in
different machines may show the same.
-/

namespace Catena

namespace Run

variable {α β : Type} {work more : Nat} {x : Run α} {m n : Machine} {P Q : α → Machine → Prop}

/-- The computation runs out of fuel, which takes that many answers of sources. -/
def Spent (work : Nat) (x : Run α) (m : Machine) : Prop :=
  stepLimit ≤ work ∧ ∃ n, x m = .error .outOfFuel n

theorem Spent.of_eq {y : Run α} (h : Spent work x m) (same : y n = x m) : Spent work y n := by
  rw [Spent, same]
  exact h

theorem Spent.bind (h : Spent work x m) (k : α → Run β) : Spent work (x >>= k) m := by
  obtain ⟨much, n, run⟩ := h
  exact ⟨much, n, by rw [bind_apply, run]⟩

/-- The computation ends well, so that this holds, or runs out of fuel. -/
def Yields (work : Nat) (x : Run α) (m : Machine) (P : α → Machine → Prop) : Prop :=
  (∃ a n, x m = .ok a n ∧ P a n) ∨ Spent work x m

namespace Yields

theorem ok {a : α} (h : x m = .ok a n) (holds : P a n) : Yields work x m P := .inl ⟨a, n, h, holds⟩

theorem exhausted (much : stepLimit ≤ work) : Yields work (Run.exhausted : Run α) m P :=
  .inr ⟨much, m, rfl⟩

theorem imp (h : Yields work x m P) (holds : ∀ a n, P a n → Q a n) : Yields work x m Q := by
  rcases h with ⟨a, n, run, here⟩ | out
  · exact .inl ⟨a, n, run, holds a n here⟩
  · exact .inr out

theorem of_eq {y : Run α} (h : Yields work x m P) (same : y n = x m) : Yields work y n P := by
  rw [Yields, Spent, same]
  exact h

theorem mono (h : Yields work x m P) (le : work ≤ more) : Yields more x m P :=
  h.imp_right (And.imp_left (Nat.le_trans · le))

theorem bind {k : α → Run β} {R : β → Machine → Prop} (h : Yields work x m P)
    (next : ∀ a n, P a n → Yields work (k a) n R) : Yields work (x >>= k) m R := by
  rcases h with ⟨a, n, run, here⟩ | out
  · have same : (x >>= k) m = k a n := by rw [bind_apply, run]
    exact (next a n here).of_eq same
  · exact .inr (out.bind k)

theorem attempt (h : Yields work x m P) :
    Yields work x.attempt m fun result n => ∃ a, result = .ok a ∧ P a n := by
  rcases h with ⟨a, n, run, here⟩ | ⟨much, n, run⟩
  · exact .inl ⟨_, n, attempt_ok run, a, rfl, here⟩
  · exact .inr ⟨much, n, attempt_outOfFuel run⟩

theorem holds (h : Yields work x m P) {a : α} (run : x m = .ok a n) : P a n := by
  rcases h with ⟨b, q, run', here⟩ | ⟨-, q, run'⟩
  · cases run.symm.trans run'
    exact here
  · cases run.symm.trans run'

end Yields

end Run

/-- Where a tree of iterators is drawn on: what values show, and what may happen in the meantime. -/
structure Setting (X : Type) where
  /-- The iterators that nothing but the pulls touches. -/
  iters : List Ref
  /-- The value shows the item. -/
  shows : Machine → X → Value → Prop
  /-- The item that a pair shows. -/
  pair : X → X → X
  /-- The first machine may become the second while the tree is drawn on. -/
  later : Machine → Machine → Prop
  later_refl : ∀ m, later m m
  later_trans : ∀ {m n p}, later m n → later n p → later m p
  later_cell : ∀ m i c, i ∈ iters → later m (m.setCell i c)
  shows_later : ∀ {m n x v}, later m n → shows m x v → shows n x v
  shows_pair : ∀ {m n x y v w u}, shows m x v → shows m y w → Run.pairOf v w m = .ok u n →
    later m n ∧ shows n (pair x y) u

/-- What is in the cell of an iterator after a pull. -/
def Pulled.cell : Pulled → Iterator → IterCell
  | .done, _ => .done
  | _, it => .ready it

namespace Setting

variable {X : Type} (S : Setting X) (r : Reentry)

/-- The machine goes on, and the iterators stay as they are. -/
def Beside (m n : Machine) : Prop :=
  S.later m n ∧ ∀ i ∈ S.iters, n.cell? i = m.cell? i

/-- From here on, a callback maps what shows `x` to what shows `make x`, and touches nothing else. -/
def Maps (start : Machine) (f : Value) (make : X → X) : Prop :=
  ∀ m x v, S.later start m → S.shows m x v →
    ∃ w n, r.call f [v] m = .ok (some w) n ∧ S.Beside m n ∧ S.shows n (make x) w

/-- From here on, a callback answers whether `keep x`, and touches nothing else. -/
def Tests (start : Machine) (test : Value) (keep : X → Bool) : Prop :=
  ∀ m x v, S.later start m → S.shows m x v →
    ∃ w n, r.call test [v] m = .ok (some w) n ∧ S.Beside m n ∧ w.truthy = keep x

/-- An iterator that draws on no other has this to answer, whatever happens meanwhile. -/
def Feeds : Answers X → Iterator → Machine → Prop
  | [], it, m => ∀ n pull, S.later m n → ∃ it' p,
      Run.advance r pull it n = .ok (.done, it') p ∧ S.Beside n p
  | none :: as, it, m => ∀ n pull, S.later m n → ∃ it' p,
      Run.advance r pull it n = .ok (.pending, it') p ∧ S.Beside n p ∧ Feeds as it' p
  | some x :: as, it, m => ∀ n pull, S.later m n → ∃ v it' p,
      Run.advance r pull it n = .ok (.item v, it') p ∧ S.Beside n p ∧ S.shows p x v ∧ Feeds as it' p

/-- The tree stands in the machine, and none of its iterators has been drawn on. -/
def Stands : Plan X → Machine → Prop
  | .source i as, m => ∃ it, m.cell? i = some (.ready it) ∧ S.Feeds r as it m
  | .filter i test keep s, m =>
    m.cell? i = some (.ready (.filter s.root test)) ∧ S.Tests r m test keep ∧ Stands s m
  | .map i f make s, m =>
    m.cell? i = some (.ready (.map s.root f)) ∧ S.Maps r m f make ∧ Stands s m
  | .zip i left right, m =>
    m.cell? i = some (.ready (.zip left.root right.root none)) ∧ Stands left m ∧ Stands right m

/-- The iterator `i` is at its end with nothing left to answer, or what stands in its cell has this left
to answer. -/
def Left (within : Iterator → Answers X → Machine → Prop) (i : Ref) (as : Answers X) (m : Machine) :
    Prop :=
  m.cell? i = some .done ∧ as = [] ∨ ∃ it, m.cell? i = some (.ready it) ∧ within it as m

/-- What is held shows an item that is held. -/
def Holds (m : Machine) : Option X → Option Value → Prop
  | none, none => True
  | some x, some v => S.shows m x v
  | _, _ => False

/-- An iterator that stands at the root of a tree has this left to answer. -/
def Within (start : Machine) : Plan X → Iterator → Answers X → Machine → Prop
  | .source _ _, it, as, m => S.Feeds r as it m
  | .filter _ test keep s, it, as, m =>
    it = .filter s.root test ∧ S.Tests r start test keep ∧
      ∃ bs, as = bs.filter keep ∧ bs.length ≤ s.work ∧ Left (Within start s) s.root bs m
  | .map _ f make s, it, as, m =>
    it = .map s.root f ∧ S.Maps r start f make ∧
      ∃ bs, as = bs.map make ∧ Left (Within start s) s.root bs m
  | .zip _ left right, it, as, m =>
    ∃ x held bs cs, it = .zip left.root right.root held ∧ S.Holds m x held ∧
      as = Answers.zip S.pair x bs cs ∧ Left (Within start left) left.root bs m ∧
      Left (Within start right) right.root cs m

/-- A tree has this left to answer. -/
def Owes (start : Machine) (p : Plan X) (as : Answers X) (m : Machine) : Prop :=
  Left (S.Within r start p) p.root as m

/-! ## What is left stays -/

variable {S r} {start m n : Machine} {i : Ref} {as : Answers X} {p : Plan X}

theorem Beside.refl (m : Machine) : S.Beside m m := ⟨S.later_refl m, fun _ _ => rfl⟩

theorem Feeds.later {it : Iterator} (h : S.Feeds r as it m) (next : S.later m n) : S.Feeds r as it n := by
  cases as with
  | nil => exact fun p pull after => h p pull (S.later_trans next after)
  | cons a as => cases a <;> exact fun p pull after => h p pull (S.later_trans next after)

theorem Left.imp {within within' : Iterator → Answers X → Machine → Prop} (h : Left within i as m)
    (same : n.cell? i = m.cell? i) (imp : ∀ it, within it as m → within' it as n) :
    Left within' i as n := by
  rcases h with ⟨ended, rfl⟩ | ⟨it, ready, inside⟩
  · exact .inl ⟨same.trans ended, rfl⟩
  · exact .inr ⟨it, same.trans ready, imp it inside⟩

theorem Holds.later {x : Option X} {held : Option Value} (h : S.Holds m x held) (next : S.later m n) :
    S.Holds n x held := by
  unfold Holds at h ⊢
  split at h
  · trivial
  · exact S.shows_later next h
  · cases h

/-- What is left depends on the cells of the tree only. -/
theorem Within.later {it : Iterator} (h : S.Within r start p it as m) (next : S.later m n)
    (same : ∀ j ∈ p.inner, n.cell? j = m.cell? j) : S.Within r start p it as n := by
  induction p generalizing it as with
  | source => exact Feeds.later h next
  | filter _ _ _ s ih =>
    obtain ⟨is, tests, bs, rfl, few, left⟩ := h
    obtain ⟨own, inner⟩ := List.forall_mem_cons.1 same
    exact ⟨is, tests, bs, rfl, few, left.imp own fun it within => ih within inner⟩
  | map _ _ _ s ih =>
    obtain ⟨is, maps, bs, rfl, left⟩ := h
    obtain ⟨own, inner⟩ := List.forall_mem_cons.1 same
    exact ⟨is, maps, bs, rfl, left.imp own fun it within => ih within inner⟩
  | zip _ left right ih ih' =>
    obtain ⟨x, held, bs, cs, is, holds, rfl, hl, hr⟩ := h
    obtain ⟨first, second⟩ := List.forall_mem_append.1 same
    obtain ⟨own, inner⟩ := List.forall_mem_cons.1 first
    obtain ⟨own', inner'⟩ := List.forall_mem_cons.1 second
    exact ⟨x, held, bs, cs, is, holds.later next, rfl, hl.imp own fun it within => ih within inner,
      hr.imp own' fun it within => ih' within inner'⟩

theorem Owes.later (h : S.Owes r start p as m) (next : S.later m n)
    (same : ∀ j ∈ p.iters, n.cell? j = m.cell? j) : S.Owes r start p as n := by
  obtain ⟨own, inner⟩ := List.forall_mem_cons.1 same
  exact Left.imp h own fun it within => within.later next inner

/-! ## What pulls touch -/

/-- The machine goes on, and only these of the iterators are touched. None of them is lost. -/
structure Touches (S : Setting X) (is : List Ref) (m n : Machine) : Prop where
  later : S.later m n
  others : ∀ j ∈ S.iters, j ∉ is → n.cell? j = m.cell? j
  live : ∀ j ∈ S.iters, (n.cell? j).isSome = (m.cell? j).isSome

theorem Beside.touches {is : List Ref} (h : S.Beside m n) : S.Touches is m n :=
  ⟨h.1, fun j inside _ => h.2 j inside, fun j inside => congrArg Option.isSome (h.2 j inside)⟩

theorem Touches.trans {is : List Ref} {q : Machine} (h : S.Touches is m n) (k : S.Touches is n q) :
    S.Touches is m q where
  later := S.later_trans h.later k.later
  others j inside other := (k.others j inside other).trans (h.others j inside other)
  live j inside := (k.live j inside).trans (h.live j inside)

theorem Touches.mono {is js : List Ref} (h : S.Touches is m n) (sub : is ⊆ js) : S.Touches js m n :=
  ⟨h.later, fun j inside other => h.others j inside fun member => other (sub member), h.live⟩

theorem touches_setCell {is : List Ref} (inside : i ∈ S.iters) (own : i ∈ is) (m : Machine) (c : IterCell) :
    S.Touches is m (m.setCell i c) where
  later := S.later_cell m i c inside
  others j _ other := Machine.cell?_setCell_ne (ne_of_mem_of_not_mem own other) m c
  live j _ := by
    rw [Machine.cell?_setCell]
    split <;> simp

/-- The answer to a pull is the next of those that are left; there is `rest` afterwards. -/
inductive Gives (S : Setting X) (is : List Ref) (rest : Answers X → Machine → Prop) (m : Machine) :
    Answers X → Pulled → Machine → Prop
  | done {n : Machine} : S.Touches is m n → Gives S is rest m [] .done n
  | pending {as : Answers X} {n : Machine} : S.Touches is m n → rest as n →
      Gives S is rest m (none :: as) .pending n
  | item {as : Answers X} {x : X} {v : Value} {n : Machine} : S.Touches is m n → S.shows n x v →
      rest as n → Gives S is rest m (some x :: as) (.item v) n

theorem Gives.mono {is js : List Ref} {rest : Answers X → Machine → Prop} {a : Pulled}
    (h : S.Gives is rest m as a n) (sub : is ⊆ js) : S.Gives js rest m as a n := by
  cases h with
  | done touches => exact .done (touches.mono sub)
  | pending touches left => exact .pending (touches.mono sub) left
  | item touches shows left => exact .item (touches.mono sub) shows left

theorem Gives.after {is : List Ref} {rest rest' : Answers X → Machine → Prop} {a : Pulled} {q : Machine}
    (before : S.Touches is m n) (h : S.Gives is rest n as a q) (imp : ∀ as u, rest as u → rest' as u) :
    S.Gives is rest' m as a q := by
  cases h with
  | done touches => exact .done (before.trans touches)
  | pending touches left => exact .pending (before.trans touches) (imp _ _ left)
  | item touches shows left => exact .item (before.trans touches) shows (imp _ _ left)

/-- The machine is a later one in which the iterators of a tree are. -/
structure Keeps (S : Setting X) (start : Machine) (p : Plan X) (m : Machine) : Prop where
  later : S.later start m
  live : ∀ j ∈ p.iters, (m.cell? j).isSome

/-- The iterators of a tree are different ones of those that only pulls touch. -/
structure Apart (S : Setting X) (p : Plan X) : Prop where
  inside : ∀ j ∈ p.iters, j ∈ S.iters
  nodup : p.iters.Nodup

theorem Keeps.touches {is : List Ref} (h : S.Keeps start p m) (apart : S.Apart p) (k : S.Touches is m n) :
    S.Keeps start p n :=
  ⟨S.later_trans h.later k.later, fun j inside => by rw [k.live j (apart.inside j inside), h.live j inside]⟩

/-- Pulls of the root of a tree answer what is left. -/
def Pulls (S : Setting X) (r : Reentry) (start : Machine) (pull : Run.Puller) (p : Plan X) : Prop :=
  ∀ m as, S.Keeps start p m → S.Owes r start p as m →
    Run.Yields p.work (pull p.root) m (S.Gives p.iters (S.Owes r start p) m as)

/-- The next answer of an iterator is the next of those that are left; `Rest` is true of it afterwards. -/
def Advances (S : Setting X) (work : Nat) (x : Run (Pulled × Iterator)) (is : List Ref)
    (Rest : Iterator → Answers X → Machine → Prop) (as : Answers X) (m : Machine) : Prop :=
  Run.Yields work x m fun both => S.Gives is (Rest both.2) m as both.1

section

variable {pull : Run.Puller} {test : Value} {keep : X → Bool}

theorem gives_pullWhere (apart : S.Apart p) (pulls : S.Pulls r start pull p)
    (tests : S.Tests r start test keep)
    {bs : Answers X} {fuel : Nat} (enough : bs.length < fuel ∨ Run.stepLimit ≤ p.work)
    (here : S.Keeps start p m) (owes : S.Owes r start p bs m) :
    Run.Yields p.work (Run.pullWhere r pull p.root test fuel) m
      (S.Gives p.iters (fun as n => ∃ bs', as = bs'.filter keep ∧ bs'.length ≤ bs.length ∧
        S.Owes r start p bs' n) m (bs.filter keep)) := by
  induction fuel generalizing bs m with
  | zero => exact .exhausted (enough.resolve_left (Nat.not_lt_zero _))
  | succ fuel ih =>
    rw [Run.pullWhere]
    refine (pulls m _ here owes).bind fun a n gives => ?_
    cases gives with
    | done touches => exact .ok rfl (.done touches)
    | @pending bs n touches owes => exact .ok rfl (.pending touches ⟨bs, rfl, Nat.le_succ _, owes⟩)
    | @item bs x v n touches shows owes =>
      have here' := here.touches apart touches
      obtain ⟨w, q, called, beside, truthy⟩ := tests n x v here'.later shows
      have touches' := touches.trans beside.touches
      have owes' := owes.later beside.1 fun j member => beside.2 j (apart.inside j member)
      dsimp only
      refine (Run.Yields.ok called ⟨rfl, rfl⟩ : Run.Yields _ _ _ fun b u => b = some w ∧ u = q).bind ?_
      rintro _ _ ⟨rfl, rfl⟩
      dsimp only
      rw [truthy, Answers.filter]
      cases passes : keep x with
      | true =>
        rw [List.filter_cons_of_pos (by simpa using passes)]
        exact .ok rfl (.item touches' (S.shows_later beside.1 shows) ⟨bs, rfl, Nat.le_succ _, owes'⟩)
      | false =>
        rw [List.filter_cons_of_neg (by simp [passes])]
        have fewer := enough.imp_left Nat.lt_of_succ_lt_succ
        refine (ih fewer (here.touches apart touches') owes').imp fun a u gives => gives.after touches' ?_
        rintro as u ⟨bs', is, few, left⟩
        exact ⟨bs', is, Nat.le_succ_of_le few, left⟩

theorem gives_filter (apart : S.Apart p) (pulls : S.Pulls r start pull p) (here : S.Keeps start p m)
    {it : Iterator} (within : S.Within r start (.filter i test keep p) it as m) :
    S.Advances p.work (Run.advance r pull it) p.iters (S.Within r start (.filter i test keep p)) as m := by
  obtain ⟨rfl, tests, bs, rfl, few, owes⟩ := within
  have enough : bs.length < Run.stepLimit ∨ Run.stepLimit ≤ p.work := by omega
  refine (gives_pullWhere apart pulls tests enough here owes).bind fun a n gives => .ok rfl ?_
  refine gives.after (Beside.refl m).touches ?_
  rintro as u ⟨bs', is, less, left⟩
  exact ⟨rfl, tests, bs', is, Nat.le_trans less few, left⟩

theorem gives_map {f : Value} {make : X → X} (apart : S.Apart p) (pulls : S.Pulls r start pull p)
    (here : S.Keeps start p m) {it : Iterator} (within : S.Within r start (.map i f make p) it as m) :
    S.Advances p.work (Run.advance r pull it) p.iters (S.Within r start (.map i f make p)) as m := by
  obtain ⟨rfl, maps, bs, rfl, owes⟩ := within
  refine (pulls m bs here owes).bind fun a n gives => ?_
  cases gives with
  | done touches => exact .ok rfl (.done touches)
  | @pending bs n touches owes => exact .ok rfl (.pending touches ⟨rfl, maps, bs, rfl, owes⟩)
  | @item bs x v n touches shows owes =>
    have here' := here.touches apart touches
    obtain ⟨w, q, called, beside, shows'⟩ := maps n x v here'.later shows
    have owes' := owes.later beside.1 fun j member => beside.2 j (apart.inside j member)
    refine .ok (a := (.item w, .map p.root f)) (n := q) ?_ (.item (touches.trans beside.touches) shows'
      ⟨rfl, maps, bs, rfl, owes'⟩)
    dsimp only
    rw [Run.bind_apply, called]
    rfl

/-- The source of an iterator that has one only. -/
theorem Apart.below {q : Plan X} (apart : S.Apart p) (inner : p.inner = q.iters) : S.Apart q where
  inside j member := apart.inside j (List.mem_cons_of_mem _ (inner ▸ member))
  nodup := inner ▸ (List.nodup_cons.1 apart.nodup).2

theorem Apart.left {left right : Plan X} (apart : S.Apart (.zip i left right)) : S.Apart left where
  inside j member := apart.inside j (List.mem_cons_of_mem _ (List.mem_append_left _ member))
  nodup := (List.nodup_append.1 (List.nodup_cons.1 apart.nodup).2).1

theorem Apart.right {left right : Plan X} (apart : S.Apart (.zip i left right)) : S.Apart right where
  inside j member := apart.inside j (List.mem_cons_of_mem _ (List.mem_append_right _ member))
  nodup := (List.nodup_append.1 (List.nodup_cons.1 apart.nodup).2).2.1

theorem Apart.disjoint {left right : Plan X} (apart : S.Apart (.zip i left right)) {j : Ref}
    (inLeft : j ∈ left.iters) : j ∉ right.iters := fun inRight =>
  (List.nodup_append.1 (List.nodup_cons.1 apart.nodup).2).2.2 j inLeft j inRight rfl

/-- Making a pair touches no iterator, and never fails. -/
theorem pairOf_ok (v w : Value) (m : Machine) :
    ∃ u n, Run.pairOf v w m = .ok u n ∧ ∀ j, n.cell? j = m.cell? j :=
  ⟨_, _, rfl, fun _ => rfl⟩

theorem gives_pairUp {left right : Plan X} (apart : S.Apart (.zip i left right))
    (pulls : S.Pulls r start pull right) (here : S.Keeps start right m) {x : X} {v : Value}
    (shows : S.shows m x v) {bs cs : Answers X} (hl : S.Owes r start left bs m)
    (hr : S.Owes r start right cs m) :
    S.Advances right.work (Run.pairUp pull left.root right.root (.item v)) right.iters
      (S.Within r start (.zip i left right)) (Answers.zip S.pair (some x) bs cs) m := by
  refine (pulls m cs here hr).bind fun a n gives => ?_
  have still (touches : S.Touches right.iters m n) : S.Owes r start left bs n :=
    hl.later touches.later fun j member =>
      touches.others j (apart.left.inside j member) (apart.disjoint member)
  cases gives with
  | done touches =>
    rw [Answers.zip]
    exact .ok rfl (.done touches)
  | @pending cs n touches hr =>
    rw [Answers.zip]
    exact .ok rfl (.pending touches
      ⟨some x, some v, bs, cs, rfl, S.shows_later touches.later shows, rfl, still touches, hr⟩)
  | @item cs y w n touches shows' hr =>
    obtain ⟨u, q, made, same⟩ := pairOf_ok v w n
    obtain ⟨later, both⟩ := S.shows_pair (S.shows_later touches.later shows) shows' made
    have beside : S.Beside n q := ⟨later, fun j _ => same j⟩
    rw [Answers.zip]
    refine .ok (a := (.item u, .zip left.root right.root none)) (n := q) ?_ (.item
      (touches.trans beside.touches) both ⟨none, none, bs, cs, rfl, trivial, rfl,
        (still touches).later later fun j _ => same j, hr.later later fun j _ => same j⟩)
    dsimp only
    rw [Run.bind_apply, made]
    rfl

theorem gives_zip {left right : Plan X} (apart : S.Apart (.zip i left right))
    (pulls : S.Pulls r start pull left) (pulls' : S.Pulls r start pull right)
    (here : S.Keeps start left m) (here' : S.Keeps start right m)
    {it : Iterator} (within : S.Within r start (.zip i left right) it as m) :
    S.Advances (left.work + right.work) (Run.advance r pull it) (left.iters ++ right.iters)
      (S.Within r start (.zip i left right)) as m := by
  obtain ⟨x, held, bs, cs, rfl, holds, rfl, hl, hr⟩ := within
  have inLeft : left.iters ⊆ left.iters ++ right.iters := List.subset_append_left _ _
  have inRight : right.iters ⊆ left.iters ++ right.iters := List.subset_append_right _ _
  unfold Holds at holds
  split at holds
  · -- Nothing is held: the left side is asked first.
    refine ((pulls m bs here hl).mono (Nat.le_add_right _ _)).bind fun a n gives => ?_
    have still (touches : S.Touches left.iters m n) : S.Owes r start right cs n :=
      Owes.later hr touches.later fun j member => touches.others j (apart.right.inside j member)
        fun other => apart.disjoint other member
    cases gives with
    | done touches =>
      rw [Answers.zip]
      exact .ok rfl (.done (touches.mono inLeft))
    | @pending bs n touches hl =>
      rw [Answers.zip]
      exact .ok rfl (.pending (touches.mono inLeft)
        ⟨none, none, bs, cs, rfl, trivial, rfl, hl, still touches⟩)
    | @item bs x v n touches shows hl =>
      have paired := gives_pairUp apart pulls' (here'.touches apart.right touches) shows hl (still touches)
      rw [Answers.zip]
      exact (paired.mono (Nat.le_add_left _ _)).imp fun _ _ gives =>
        (gives.mono inRight).after (touches.mono inLeft) fun _ _ left => left
  · -- A left item waits for its partner.
    have paired := gives_pairUp apart pulls' here' holds hl hr
    exact (paired.mono (Nat.le_add_left _ _)).imp fun _ _ gives => gives.mono inRight
  · cases holds

end

/-! ## Pulling the tree -/

/-- From what an iterator at the root answers to what a pull of the root answers. -/
theorem Gives.root {it' : Iterator} {a : Pulled} (apart : S.Apart p)
    (live : ∀ j ∈ p.iters, (m.cell? j).isSome)
    (h : S.Gives p.inner (S.Within r start p it') (m.setCell p.root .busy) as a n) :
    S.Gives p.iters (S.Owes r start p) m as a (n.setCell p.root (a.cell it')) := by
  have own : p.root ∈ p.iters := List.mem_cons_self
  have fresh : p.root ∉ p.inner := (List.nodup_cons.1 apart.nodup).1
  have inside := apart.inside _ own
  have before : S.Touches p.iters m (m.setCell p.root .busy) := touches_setCell inside own m _
  have after : S.Touches p.iters n (n.setCell p.root (a.cell it')) := touches_setCell inside own n _
  have whole (touches : S.Touches p.inner (m.setCell p.root .busy) n) :
      S.Touches p.iters m (n.setCell p.root (a.cell it')) :=
    (before.trans (touches.mono (List.subset_cons_self _ _))).trans after
  have owes {as : Answers X} (touches : S.Touches p.inner (m.setCell p.root .busy) n)
      (left : S.Within r start p it' as n) (goes : a.cell it' = .ready it') :
      S.Owes r start p as (n.setCell p.root (a.cell it')) := by
    refine .inr ⟨it', ?_, left.later after.later fun j member => ?_⟩
    · have found : (n.cell? p.root).isSome := by
        rw [touches.live _ inside, before.live _ inside, live _ own]
      rw [Machine.cell?_setCell_self found, goes]
    · exact Machine.cell?_setCell_ne (ne_of_mem_of_not_mem member fresh).symm n _
  cases h with
  | done touches => exact .done (whole touches)
  | pending touches left => exact .pending (whole touches) (owes touches left rfl)
  | item touches shows left =>
    exact .item (whole touches) (S.shows_later after.later shows) (owes touches left rfl)

/-- Where the iterator at the root answers what is left, given how to pull the others, so does a pull of
the root. -/
theorem pulls_root (apart : S.Apart p) {fuel : Nat}
    (advances : ∀ m it as, S.later start m → (∀ j ∈ p.inner, (m.cell? j).isSome) →
      S.Within r start p it as m →
      S.Advances p.work (Run.advance r (Run.pullWithin r fuel) it) p.inner (S.Within r start p) as m) :
    S.Pulls r start (Run.pullWithin r (fuel + 1)) p := by
  intro m as here owes
  have inside := apart.inside _ List.mem_cons_self
  have fresh : p.root ∉ p.inner := (List.nodup_cons.1 apart.nodup).1
  rcases owes with ⟨ended, rfl⟩ | ⟨it, ready, within⟩
  · exact .ok (Run.atCell_done (by rw [ended]; rfl)) (.done (Beside.refl m).touches)
  · have busy : S.Touches p.iters m (m.setCell p.root .busy) :=
      touches_setCell inside List.mem_cons_self m .busy
    have here' := here.touches apart busy
    have within' : S.Within r start p it as (m.setCell p.root .busy) := by
      refine within.later busy.later fun j member => ?_
      exact Machine.cell?_setCell_ne (ne_of_mem_of_not_mem member fresh).symm m _
    have advanced :=
      advances _ it as here'.later (fun j member => here'.live j (List.mem_cons_of_mem _ member)) within'
    refine (advanced.attempt.bind ?_).of_eq (Run.atCell_ready ready)
    rintro _ n ⟨⟨a, it'⟩, rfl, gives⟩
    have set := gives.root apart here.live
    cases a <;> exact .ok rfl set

theorem source_gives {it : Iterator} (pull : Run.Puller) (h : S.Feeds r as it m) (work : Nat) :
    S.Advances work (Run.advance r pull it) [] (fun it' as => S.Feeds r as it') as m := by
  cases as with
  | nil =>
    obtain ⟨it', n, gave, beside⟩ := h m pull (S.later_refl m)
    exact .ok gave (.done beside.touches)
  | cons a as =>
    cases a with
    | none =>
      obtain ⟨it', n, gave, beside, left⟩ := h m pull (S.later_refl m)
      exact .ok gave (.pending beside.touches left)
    | some x =>
      obtain ⟨v, it', n, gave, beside, shows, left⟩ := h m pull (S.later_refl m)
      exact .ok gave (.item beside.touches shows left)

/-- Pulls of a tree answer what is left, one answer after the other. -/
theorem pulls_within (apart : S.Apart p) {fuel : Nat} (enough : p.iters.length ≤ fuel) :
    S.Pulls r start (Run.pullWithin r fuel) p := by
  obtain ⟨fuel, rfl⟩ : ∃ k, fuel = k + 1 := ⟨fuel - 1, by simp [Plan.iters] at enough; omega⟩
  replace enough : p.inner.length ≤ fuel := by simpa [Plan.iters] using enough
  induction p generalizing fuel with
  | source => exact pulls_root apart fun m it as _ _ within => source_gives _ within _
  | filter i test keep s ih =>
    obtain ⟨fuel, rfl⟩ : ∃ k, fuel = k + 1 := ⟨fuel - 1, by simp [Plan.inner] at enough; omega⟩
    have pulls := ih (apart.below rfl) fuel (by simpa [Plan.inner] using enough)
    exact pulls_root apart fun m it as later live within =>
      gives_filter (apart.below rfl) pulls ⟨later, live⟩ within
  | map i f make s ih =>
    obtain ⟨fuel, rfl⟩ : ∃ k, fuel = k + 1 := ⟨fuel - 1, by simp [Plan.inner] at enough; omega⟩
    have pulls := ih (apart.below rfl) fuel (by simpa [Plan.inner] using enough)
    exact pulls_root apart fun m it as later live within =>
      gives_map (apart.below rfl) pulls ⟨later, live⟩ within
  | zip i left right ih ih' =>
    simp only [Plan.inner, List.length_cons, List.length_append] at enough
    obtain ⟨fuel, rfl⟩ : ∃ k, fuel = k + 1 := ⟨fuel - 1, by omega⟩
    have pulls := ih apart.left fuel (by omega)
    have pulls' := ih' apart.right fuel (by omega)
    refine pulls_root apart fun m it as later live within => ?_
    have here : S.Keeps start left m := ⟨later, fun j member => live j (List.mem_append_left _ member)⟩
    have here' : S.Keeps start right m := ⟨later, fun j member => live j (List.mem_append_right _ member)⟩
    exact gives_zip apart pulls pulls' here here' within

end Setting

end Catena
