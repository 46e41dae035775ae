import Catena.Proofs.Iterators.Drawing
import Mathlib.Data.List.Forall2

/-!
# Iterators that draw on no other one

What the iterators over ranges, lists, strings and byte buffers answer can be told from where they stand,
and what one of the embedding program answers from what is known of it. Whatever is to be answered, in
whatever pattern, some iterator of the embedding program answers it.
-/

namespace Catena

/-- The integers from `next` up to but not including `stop`. -/
def ints (next stop : Int64) : List Int64 :=
  (List.range (stop.toInt - next.toInt).toNat).map fun (k : Nat) => Int64.ofInt (next.toInt + k)

/-- The pulls from the `k`-th on come to this, and the next one to the end. -/
def Answers.Told (answers : Nat → Except Fault Pulled) : (k : Nat) → Answers Value → Prop
  | k, [] => answers k = .ok .done
  | k, a? :: as => answers k = .ok (a?.elim .pending .item) ∧ Told answers (k + 1) as

/-- The iterator answers this until it is done, if nothing happens to what it reads. -/
def Iterator.Lists (s : Store) : Iterator → Answers Value → Prop
  | .range next stop, as => as = (ints next stop).map fun n => some (.int n)
  | .items l i, as => as = ((s.listAt l).toList.drop i).map some
  | .bytes b i, as => as = ((s.binAt b).toList.drop i).map fun byte => some (.nat byte.toNat)
  | .chars cs, as => as = cs.map fun c => some (.char c)
  | .units us, as => as = us.map fun u => some (.wchar u)
  | .host answers pulls, as => as.Told answers pulls
  | _, _ => False

/-- An iterator of the embedding program that answers this. -/
def Iterator.scripted (as : Answers Value) : Iterator :=
  .host (fun k => .ok ((as[k]?.map fun a? => a?.elim .pending .item).getD .done)) 0

theorem ints_nil {next stop : Int64} (h : ¬ next < stop) : ints next stop = [] := by
  have none : (stop.toInt - next.toInt).toNat = 0 := by
    have le := Int.not_lt.1 (mt Int64.lt_iff_toInt_lt.2 h)
    omega
  rw [ints, none, List.range_zero, List.map_nil]

theorem ints_cons {next stop : Int64} (h : next < stop) : ints next stop = next :: ints (next + 1) stop := by
  have lt := Int64.lt_iff_toInt_lt.1 h
  have succ : (next + 1).toInt = next.toInt + 1 := by
    have low := next.le_toInt
    have high := stop.toInt_lt
    rw [Int64.toInt_add, show (1 : Int64).toInt = 1 from rfl, Int.bmod_eq_of_le (by omega) (by omega)]
  have size : (stop.toInt - next.toInt).toNat = (stop.toInt - (next + 1).toInt).toNat + 1 := by omega
  rw [ints, size, List.range_succ_eq_map, List.map_cons, List.map_map, ints]
  congr 1
  · rw [Int.natCast_zero, Int.add_zero, Int64.ofInt_toInt]
  · refine List.map_congr_left fun k _ => ?_
    rw [Function.comp, succ, Int.natCast_succ, Int.add_assoc, Int.add_comm 1]

theorem Answers.told_scripted (as : Answers Value) (k : Nat) :
    Told (fun k => .ok ((as[k]?.map fun a? => a?.elim .pending .item).getD .done)) k (as.drop k) := by
  by_cases inside : k < as.length
  · rw [List.drop_eq_getElem_cons inside]
    refine ⟨?_, told_scripted as (k + 1)⟩
    simp only [List.getElem?_eq_getElem inside, Option.map_some, Option.getD_some]
  · have past := Nat.le_of_not_lt inside
    rw [List.drop_eq_nil_of_le past, Told, List.getElem?_eq_none past]
    rfl
termination_by as.length - k

/-- Whatever is to be answered, in whatever pattern, an iterator answers it. -/
theorem Iterator.lists_scripted (s : Store) (as : Answers Value) : (scripted as).Lists s as :=
  as.told_scripted 0

namespace Run

variable {m : Machine} {it : Iterator} {as : Answers Value}

/-- What is left when one more item of a sequence has been answered. -/
theorem left_of_drop {α : Type} {f : α → Option Value} {all : List α} {i : Nat} {a : Option Value}
    {bs : Answers Value} (has : a :: bs = (all.drop i).map f) : bs = (all.drop (i + 1)).map f := by
  rw [← List.tail_drop, List.map_tail, ← has, List.tail_cons]

/-- The iterator answers the first of its answers, and is left with the others. -/
theorem advance_lists (r : Reentry) (pull : Puller) (has : it.Lists m.shared.store as) :
    ∃ it', advance r pull it m = .ok ((as.head?.map fun a? => a?.elim .pending .item).getD .done, it') m ∧
      ∀ a bs, as = a :: bs → ∀ s, it.Lists s as → it'.Lists s bs := by
  cases it with
  | range next stop =>
    obtain rfl := has
    by_cases h : next < stop
    · refine ⟨.range (next + 1) stop, ?_, ?_⟩
      · rw [advance, if_pos h, ints_cons h]
        rfl
      · rw [ints_cons h]
        rintro a bs h s -
        cases h
        rfl
    · refine ⟨.range next stop, ?_, ?_⟩
      · rw [advance, if_neg h, ints_nil h]
        rfl
      · rw [ints_nil h]
        rintro a bs h
        cases h
  | items l i =>
    obtain rfl := has
    refine ⟨.items l (i + 1), ?_, ?_⟩
    · rw [advance, bind_apply, askStore, askShared]
      dsimp only
      rw [List.head?_map, List.head?_drop, Array.getElem?_toList]
      cases (m.shared.store.listAt l)[i]? <;> rfl
    · rintro a bs h s is
      rw [h] at is
      exact left_of_drop is
  | bytes b i =>
    obtain rfl := has
    refine ⟨.bytes b (i + 1), ?_, ?_⟩
    · rw [advance, bind_apply, askStore, askShared]
      dsimp only
      rw [List.head?_map, List.head?_drop, Array.getElem?_toList]
      cases (m.shared.store.binAt b)[i]? <;> rfl
    · rintro a bs h s is
      rw [h] at is
      exact left_of_drop is
  | chars cs =>
    obtain rfl := has
    cases cs with
    | nil => exact ⟨_, rfl, by rintro a bs ⟨⟩⟩
    | cons c cs => exact ⟨_, rfl, by rintro a bs ⟨⟩ s -; rfl⟩
  | units us =>
    obtain rfl := has
    cases us with
    | nil => exact ⟨_, rfl, by rintro a bs ⟨⟩⟩
    | cons c cs => exact ⟨_, rfl, by rintro a bs ⟨⟩ s -; rfl⟩
  | host answers pulls =>
    refine ⟨.host answers (pulls + 1), ?_, ?_⟩
    · cases as with
      | nil =>
        have here : answers pulls = .ok .done := has
        rw [advance, here]
        rfl
      | cons a? as =>
        have here : answers pulls = .ok (a?.elim .pending .item) := has.1
        rw [advance, here]
        rfl
    · rintro a bs rfl s is
      exact is.2
  | _ => cases has

end Run

namespace Setting

variable {X : Type} {S : Setting X} {r : Reentry} {m n : Machine}

/-- An iterator has its answers to give as long as nothing happens to what it reads. -/
theorem feeds_of_lists {it : Iterator} {xs : Answers X} {as : Answers Value}
    (untouched : ∀ n, S.later m n → it.Lists n.shared.store as)
    (each : List.Forall₂ (fun x? v? => ∀ n, S.later m n → Option.Rel (S.shows n) x? v?) xs as) :
    S.Feeds r xs it m := by
  induction xs generalizing as it m with
  | nil =>
    cases each
    intro n pull later
    obtain ⟨it', run, -⟩ := Run.advance_lists r pull (untouched n later)
    exact ⟨it', n, run, .refl n⟩
  | cons x? xs ih =>
    cases each with | @cons _ v? _ as shows each =>
    have rest {n : Machine} {it' : Iterator} (later : S.later m n)
        (left : ∀ a bs, v? :: as = a :: bs → ∀ s, it.Lists s (v? :: as) → it'.Lists s bs) :
        S.Feeds r xs it' n := by
      refine ih (fun q after => left _ _ rfl _ (untouched q (S.later_trans later after))) ?_
      exact each.imp fun _ _ shows q after => shows q (S.later_trans later after)
    cases x? with
    | none =>
      intro n pull later
      obtain ⟨it', run, left⟩ := Run.advance_lists r pull (untouched n later)
      cases shows n later
      exact ⟨it', n, run, .refl n, rest later left⟩
    | some x =>
      intro n pull later
      obtain ⟨it', run, left⟩ := Run.advance_lists r pull (untouched n later)
      cases shows n later with | some shown =>
      exact ⟨_, it', n, run, .refl n, shown, rest later left⟩

end Setting

end Catena
