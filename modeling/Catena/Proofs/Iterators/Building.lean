import Catena.Proofs.Iterators.Draining
import Catena.Proofs.Iterators.Handles

/-!
# Building trees of iterators

A tree stands where its sources do and the library has made the others of handles.
-/

namespace Catena

namespace Setting

variable {X : Type} {S : Setting X} {r : Reentry} {p : Plan X} {m n : Machine}

/-- A tree stands as long as nothing touches its iterators. -/
theorem Stands.later (h : S.Stands r p m) (next : S.later m n)
    (same : ∀ j ∈ p.iters, n.cell? j = m.cell? j) : S.Stands r p n := by
  induction p with
  | source i as =>
    obtain ⟨it, ready, feeds⟩ := h
    exact ⟨it, (same i List.mem_cons_self).trans ready, feeds.later next⟩
  | filter i test keep s ih =>
    obtain ⟨ready, tests, stands⟩ := h
    obtain ⟨own, inner⟩ := List.forall_mem_cons.1 same
    exact ⟨own.trans ready, fun q x v after => tests q x v (S.later_trans next after), ih stands inner⟩
  | map i f make s ih =>
    obtain ⟨ready, maps, stands⟩ := h
    obtain ⟨own, inner⟩ := List.forall_mem_cons.1 same
    exact ⟨own.trans ready, fun q x v after => maps q x v (S.later_trans next after), ih stands inner⟩
  | zip i left right ih ih' =>
    obtain ⟨ready, hl, hr⟩ := h
    obtain ⟨own, inner⟩ := List.forall_mem_cons.1 same
    obtain ⟨first, second⟩ := List.forall_mem_append.1 inner
    exact ⟨own.trans ready, ih hl first, ih' hr second⟩

/-- The iterators of the tree are sources that have these answers to give, or have been made by the library of
handles of others, and nothing has touched them since. -/
inductive Built (S : Setting X) (r : Reentry) : Plan X → Machine → Prop
  | source {i : Ref} {as : Answers X} {it : Iterator} {m : Machine} :
      m.cell? i = some (.ready it) → S.Feeds r as it m → Built S r (.source i as) m
  | filter {p : Plan X} {m n : Machine} {v test : Value} {keep : X → Bool} : Built S r p m →
      v.Handles p.root → m.thread.valueStacks.size ≠ 0 → S.Tests r m test keep →
      Run.filter ((m.push v).push test) = .ok .next n → S.later m n →
      Built S r (.filter m.shared.store.iters.size test keep p) n
  | map {p : Plan X} {m n : Machine} {v f : Value} {make : X → X} : Built S r p m →
      v.Handles p.root → m.thread.valueStacks.size ≠ 0 → S.Maps r m f make →
      Run.map ((m.push v).push f) = .ok .next n → S.later m n →
      Built S r (.map m.shared.store.iters.size f make p) n
  | zip {left right : Plan X} {m n : Machine} {v w : Value} : Built S r left m → Built S r right m →
      v.Handles left.root → w.Handles right.root → m.thread.valueStacks.size ≠ 0 →
      Run.zip ((m.push v).push w) = .ok .next n → S.later m n →
      Built S r (.zip m.shared.store.iters.size left right) n
  | later {p : Plan X} {m n : Machine} : Built S r p m → S.later m n →
      (∀ j ∈ p.iters, n.cell? j = m.cell? j) → Built S r p n

theorem Built.stands (h : S.Built r p m) : S.Stands r p m := by
  induction h with
  | source ready feeds => exact ⟨_, ready, feeds⟩
  | filter _ handle stack tests run later ih =>
    obtain ⟨n, run', adds⟩ := Run.filter_push handle stack _
    cases run.symm.trans run'
    obtain ⟨ready, same⟩ := adds.cells
    refine ⟨ready, fun q x v after => tests q x v (S.later_trans later after), ?_⟩
    exact ih.later later fun j member => same j (ih.live j member)
  | map _ handle stack maps run later ih =>
    obtain ⟨n, run', adds⟩ := Run.map_push handle stack _
    cases run.symm.trans run'
    obtain ⟨ready, same⟩ := adds.cells
    refine ⟨ready, fun q x v after => maps q x v (S.later_trans later after), ?_⟩
    exact ih.later later fun j member => same j (ih.live j member)
  | zip _ _ handle handle' stack run later ih ih' =>
    obtain ⟨n, run', adds⟩ := Run.zip_push handle handle' stack
    cases run.symm.trans run'
    obtain ⟨ready, same⟩ := adds.cells
    exact ⟨ready, ih.later later fun j member => same j (ih.live j member),
      ih'.later later fun j member => same j (ih'.live j member)⟩
  | later _ later same ih => exact ih.later later same

end Setting

end Catena
