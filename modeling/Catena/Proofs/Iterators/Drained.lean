import Catena.Proofs.Iterators.Building
import Catena.Proofs.Iterators.Ended
import Catena.Proofs.Iterators.Sources
import Mathlib.Data.List.Permutation

/-!
# Trees of iterators lose no item

A tree of filters, maps and zips gives the items that `List.filter`, `List.map` and `List.zipWith` make of the
items of its sources, each once and in order, whatever draws on it and however often a source keeps it
waiting. An iterator that has come to its end, or failed, stays there.
-/

namespace Catena

namespace Setting

variable {X : Type} {S : Setting X} {r : Reentry} {p : Plan X} {m : Machine}

/-- Whatever draws on the iterator comes to these items, each once and in order. Fuel runs out only if the
sources answer that often. -/
structure Drains (S : Setting X) (r : Reentry) (i : Ref) (items : List X) (work : Nat) (m : Machine) :
    Prop where
  /-- A new list holds them, and a table is filled with them. -/
  collects : ∀ v, v.Handles i → m.thread.valueStacks.size ≠ 0 →
    Run.Spent work (Run.makeList r) (m.push v) ∧ Run.Spent work (Run.makeTable r) (m.push v) ∨
    ∃ values n, S.later m n ∧ List.Forall₂ (S.shows n) items values ∧
      (∃ q, Run.makeList r (m.push v) = .ok .next q ∧
        q.thread.top?.map Value.payload = some (.list n.shared.store.lists.size) ∧
        q.shared.store = { n.shared.store with lists := n.shared.store.lists.push values.toArray }) ∧
      Run.makeTable r (m.push v) = (do
        let (key, value) := Run.entryTypes v.ty.elem
        Run.push (← Run.tableOf (← Run.fillTable [] values) key value)
        return Reply.next) n
  /-- One call of `next` after the other answers them, and then that there is none. -/
  asks : ∀ answers n, S.Asks r i m answers n →
    (∀ (k : Nat) v?, answers[k]? = some v? → Option.Rel (S.shows n) items[k]? v?) ∧
    ∀ v, v.Handles i → n.thread.valueStacks.size ≠ 0 → Run.Spent work (Run.nextItem r) (n.push v) ∨
      ∃ v? q, Run.await r i Run.stepLimit n = .ok v? q ∧ S.later n q ∧
        Option.Rel (S.shows q) items[answers.length]? v? ∧
        Run.nextItem r (n.push v) = (do Run.pushEach [v, v?.getD .nil]; return Reply.next) q
  /-- The body of a `for` loop is called with them, if its calls touch no iterator of the tree. -/
  loops : ∀ base stop pc body,
    (∀ v n q depth u, S.later m n → Run.feed r base body v (pc + 1) n = .ok () q →
      Run.Returns r base stop depth (pc + 1) q u → S.Beside n (u.goTo pc)) →
    ∀ values n, Run.Fed r base stop pc i body values m n → List.Forall₂ (S.shows n) items values
  /-- If these calls come back, the loop comes to its end. -/
  comes : ∀ base stop pc depth body, S.Serves r base stop pc depth body m → Run.stepLimit ≤ work ∨
    ∃ values n, Run.Fed r base stop pc i body values m n

end Setting

/-- The iterator is at its end for good: whatever the engine goes on to do, a pull of it, through a handle or
by an iterator that draws on it, answers at once that there is nothing more. -/
def Machine.Over (m : Machine) (i : Ref) : Prop :=
  ∀ n, m.Ensues n → ∀ r : Reentry,
    (∀ v : Value, v.Handles i → (Run.iterate v >>= Run.pull r) n = .ok .done n) ∧
    ∀ fuel, Run.pullWithin r (fuel + 1) i n = .ok .done n

/-- Pending answers never lose, double or reorder items. The trees that stand are those that
`Setting.Built.stands` makes of sources. Lists, ranges, strings, byte buffers and iterators of the embedding
program are sources, and whatever is to be answered, in whatever pattern of items and waiting, one of them
answers it. -/
theorem Setting.drains {X : Type} (S : Setting X) {r : Reentry} {p : Plan X} {m : Machine} (apart : S.Apart p)
    (stands : S.Stands r p m) :
    S.Drains r p.root (p.items S.pair) p.work m ∧
      (∀ (w : Watch) (depth fuel : Nat) (i : Ref) (n q : Machine), (n.cell? i).isSome →
        Run.Finishes (Run.pullWithin (w.reentry depth) fuel i) i n q → q.Over i) ∧
      (∀ (n : Machine) (it : Iterator) (xs : Answers X) (as : Answers Value),
        (∀ q, S.later n q → it.Lists q.shared.store as) →
        List.Forall₂ (fun x? v? => ∀ q, S.later n q → Option.Rel (S.shows q) x? v?) xs as →
        S.Feeds r xs it n) ∧
      ∀ as : Answers Value, ∃ it : Iterator, ∀ s, it.Lists s as := by
  have remains := stands.remains
  have items := p.items_answers S.pair
  refine ⟨⟨?_, ?_, ?_, ?_⟩, ?_, ?_, ?_⟩
  · intro v handle stack
    have drained := remains.drain apart
    rw [items] at drained
    have list := Run.makeList_push handle stack r
    have table := Run.makeTable_push handle stack r
    obtain ⟨_, n, run, later, values, rfl, each⟩ | out := drained
    · refine .inr ⟨values, n, later, each, ?_, ?_⟩
      · obtain ⟨q, made, top, store⟩ := Run.pushList values.toArray v.ty.elem n
        refine ⟨q, ?_, top, store⟩
        rw [list, Run.bind_apply, run]
        exact made
      · rw [table, Run.bind_apply, run]
    · exact .inl ⟨(out.bind _).of_eq list, (out.bind _).of_eq table⟩
  · intro answers n asks
    obtain ⟨each, bs, remains, left⟩ := remains.asks apart asks
    rw [items] at each left
    refine ⟨each, fun v handle stack => ?_⟩
    have next := Run.nextItem_push handle stack r
    obtain ⟨v?, q, run, takes⟩ | out := remains.next apart
    · have first := takes.first
      rw [left, List.head?_drop] at first
      refine .inr ⟨v?, q, run, takes.later, first, ?_⟩
      rw [next, Run.bind_apply, run]
    · exact .inl ((out.bind _).of_eq next)
  · intro base stop pc body calls values n fed
    exact items ▸ (Remains.fed apart calls fed remains).2
  · exact fun base stop pc depth body serves => remains.feeds apart serves
  · intro w depth fuel i n q there finishes next ensues r
    have ended := ensues.ended (Run.ended_of_finishes (w.minds_reentry depth) finishes there)
    refine ⟨fun v handle => ?_, fun fuel => Run.atCell_done (by rw [ended]; rfl)⟩
    rw [Run.iterate_handle handle, pure_bind]
    exact Run.pull_ended ended r
  · exact fun n it xs as untouched each => feeds_of_lists untouched each
  · exact fun as => ⟨.scripted as, fun s => Iterator.lists_scripted s as⟩

/-! ## Pairs of items that keep one waiting -/

/-- Integers, truth values, and pairs of items. -/
inductive Item
  | int (n : Int64)
  | bool (b : Bool)
  | pair (left right : Item)
deriving DecidableEq

/-- The value shows the item. -/
def Item.Shown (m : Machine) : Item → Value → Prop
  | .int n, v => v = .int n
  | .bool b, v => v = .bool b
  | .pair a b, v => ∃ l w u, v.payload = .pair l ∧ m.shared.store.pairs[l]? = some (w, u) ∧
    a.Shown m w ∧ b.Shown m u

/-- Only falsehood is not true. -/
def Item.truthy : Item → Bool
  | .bool b => b
  | _ => true

/-- Iterators are pulled, and pairs come to be, with their types. -/
def Machine.Pairs (m n : Machine) : Prop :=
  ∃ registry iters pairs,
    (∀ (l : Ref) both, m.shared.store.pairs[l]? = some both → pairs[l]? = some both) ∧
    n = { m with shared :=
      { m.shared with registry, store := { m.shared.store with iters, pairs } } }

namespace Item.Shown

variable {m n : Machine} {x y : Item} {v w : Value}

theorem later (h : m.Pairs n) (shown : x.Shown m v) : x.Shown n v := by
  obtain ⟨registry, iters, pairs, kept, rfl⟩ := h
  induction x generalizing v with
  | int n => exact shown
  | bool b => exact shown
  | pair a b ih ih' =>
    obtain ⟨l, w, u, is, found, left, right⟩ := shown
    exact ⟨l, w, u, is, kept l _ found, ih left, ih' right⟩

theorem paired {u : Value} (left : x.Shown m v) (right : y.Shown m w) (made : Run.pairOf v w m = .ok u n) :
    m.Pairs n ∧ (Item.pair x y).Shown n u := by
  obtain ⟨t, registry, run⟩ : ∃ t registry, Run.pairOf v w m =
      .ok ⟨t, .pair m.shared.store.pairs.size⟩ { m with shared := { m.shared with registry, store :=
        { m.shared.store with pairs := m.shared.store.pairs.push (v, w) } } } := ⟨_, _, rfl⟩
  cases made.symm.trans run
  have kept (l : Ref) both (found : m.shared.store.pairs[l]? = some both) :
      (m.shared.store.pairs.push (v, w))[l]? = some both := by
    have inside := (Array.getElem?_eq_some_iff.1 found).1
    rw [Array.getElem?_push, if_neg (Nat.ne_of_lt inside)]
    exact found
  have pairs : m.Pairs _ := ⟨registry, m.shared.store.iters, m.shared.store.pairs.push (v, w), kept, rfl⟩
  exact ⟨pairs, _, v, w, rfl, Array.getElem?_push_size, left.later pairs, right.later pairs⟩

theorem truthy_eq (h : x.Shown m v) : v.truthy = x.truthy := by
  cases x with
  | int n => rw [h]; rfl
  | bool b => rw [h]; cases b <;> rfl
  | pair a b =>
    obtain ⟨l, w, u, is, -⟩ := h
    rw [Value.truthy, is]
    rfl

end Item.Shown

/-- Items are drawn on where nothing else happens but that pairs come to be. -/
def Setting.pairing (iters : List Ref) : Setting Item where
  iters
  shows m x v := x.Shown m v
  pair := .pair
  later := Machine.Pairs
  later_refl _ := ⟨_, _, _, fun _ _ found => found, rfl⟩
  later_trans := by
    rintro m _ _ ⟨_, _, _, kept, rfl⟩ ⟨_, _, _, kept', rfl⟩
    exact ⟨_, _, _, fun l both found => kept' l both (kept l both found), rfl⟩
  later_cell _ _ _ _ := ⟨_, _, _, fun _ _ found => found, rfl⟩
  shows_later h shown := shown.later h
  shows_pair left right made := left.paired right made

/-- Three truth values go through lambda 0, which answers its argument, as a filter. Lambda 1 makes 7 of those
that pass. They are paired with 0 and 1 of an iterator that keeps one waiting twice in between, and once more
before its end. -/
def Machine.waiting : Machine where
  shared :=
    { store :=
      { lists := #[#[.bool true, .bool false, .bool true]]
        closures := #[⟨⟨0, none, some 0⟩, ∅⟩, ⟨⟨1, none, some 1⟩, ∅⟩]
        iters := #[.ready (.items 0 0), .ready (.filter 0 ⟨.lambda, .lambda 0⟩),
          .ready (.map 1 ⟨.lambda, .lambda 1⟩),
          .ready (.scripted [some (.int 0), none, none, some (.int 1), none]),
          .ready (.zip 2 3 none)] } }
  thread := { id := 0, ops := #[.unlambda 0, .drop 1, .push (.int 7), .unlambda 1] }

/-- The tree of iterators of that machine. -/
def Plan.waiting : Plan Item :=
  .zip 4
    (.map 2 ⟨.lambda, .lambda 1⟩ (fun _ => .int 7)
      (.filter 1 ⟨.lambda, .lambda 0⟩ Item.truthy
        (.source 0 [some (.bool true), some (.bool false), some (.bool true)])))
    (.source 3 [some (.int 0), none, none, some (.int 1), none])

/-- Lambda 0 answers its argument, and lambda 1 answers 7. -/
theorem Machine.call_waiting {n : Machine} (later : Machine.waiting.Pairs n) (v : Value) :
    Run.outermost.call ⟨.lambda, .lambda 0⟩ [v] n = .ok (some v) n ∧
      Run.outermost.call ⟨.lambda, .lambda 1⟩ [v] n = .ok (some (.int 7)) n := by
  obtain ⟨registry, iters, pairs, -, rfl⟩ := later
  rw [show Run.outermost = Run.reentry (999999 + 1) from rfl]
  generalize 999999 = depth
  constructor <;> cbv

theorem Setting.stands_waiting :
    (Setting.pairing [4, 2, 1, 0, 3]).Stands Run.outermost .waiting .waiting := by
  refine ⟨rfl, ⟨rfl, ?_, rfl, ?_, _, rfl, ?_⟩, _, rfl, ?_⟩
  · exact fun m x v later _ => ⟨.int 7, m, (Machine.call_waiting later v).2, .refl m, rfl⟩
  · exact fun m x v later shown => ⟨v, m, (Machine.call_waiting later v).1, .refl m, shown.truthy_eq⟩
  · apply feeds_of_lists
    · rintro _ ⟨registry, iters, pairs, -, rfl⟩
      rfl
    · exact .cons (fun _ _ => .some rfl) (.cons (fun _ _ => .some rfl) (.cons (fun _ _ => .some rfl) .nil))
  · apply feeds_of_lists (fun n _ => Iterator.lists_scripted n.shared.store _)
    exact .cons (fun _ _ => .some rfl) (.cons (fun _ _ => .none) (.cons (fun _ _ => .none)
      (.cons (fun _ _ => .some rfl) (.cons (fun _ _ => .none) .nil))))

theorem Setting.drains_waiting :
    (Setting.pairing [4, 2, 1, 0, 3]).Apart .waiting ∧
    (Setting.pairing [4, 2, 1, 0, 3]).Stands Run.outermost .waiting .waiting ∧
    (Setting.pairing [4, 2, 1, 0, 3]).Drains Run.outermost 4
      [.pair (.int 7) (.int 0), .pair (.int 7) (.int 1)] 8 .waiting ∧
    Machine.Over ((Run.pullWithin (Watch.idle.reentry 0) 1 0).after
      (Machine.waiting.setCell 0 (.ready (.range 0 0)))) 0 := by
  have apart : (Setting.pairing [4, 2, 1, 0, 3]).Apart .waiting := ⟨by decide, by decide⟩
  have drains := Setting.drains (Setting.pairing [4, 2, 1, 0, 3]) apart stands_waiting
  refine ⟨apart, stands_waiting, drains.1, ?_⟩
  exact drains.2.1 Watch.idle 0 1 0 (Machine.waiting.setCell 0 (.ready (.range 0 0))) _ rfl (.inl rfl)

end Catena
