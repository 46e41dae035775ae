import Catena.Proofs.Frame

/-!
# What unwinding leaves on the value stacks

Unwinding closes any number of scopes, each of which makes its deferred calls and may own a value stack.
However many go, at most one value is left of their stacks: the top of the innermost one that is not
empty, and it is put on the stack that is in use from then on (`UnderWay.unwind_hands_down`).
-/

namespace Catena

/-! ## Handing a value down -/

/-- The top of the innermost stack above the `left` lowest that is not empty. -/
def topAbove (piles : List (Array Value)) (left : Nat) : Option Value :=
  (piles.drop left).reverse.findSome? Array.back?

/-- The value stacks, bottom first, without all but the `left` lowest, the last of which gets the top of
the others if that is kept. -/
def handDown (keepTop : Bool) (piles : List (Array Value)) (left : Nat) : List (Array Value) :=
  (piles.take left).modify (left - 1) (· ++ (if keepTop then topAbove piles left else none).toArray)

section

variable {keepTop : Bool} {piles init : List (Array Value)} {s top : Array Value} {left : Nat}

theorem topAbove_length (piles : List (Array Value)) : topAbove piles piles.length = none := by
  rw [topAbove, List.drop_length]
  rfl

theorem modify_none (l : List (Array Value)) (i : Nat) :
    l.modify i (· ++ (none : Option Value).toArray) = l := by
  have same : (fun a : Array Value => a ++ (none : Option Value).toArray) = id :=
    funext fun a => Array.append_empty
  rw [same, List.modify_id]

theorem handDown_length (keepTop : Bool) (piles : List (Array Value)) :
    handDown keepTop piles piles.length = piles := by
  rw [handDown, topAbove_length, ite_self, modify_none, List.take_length]

theorem modify_concat (init : List (Array Value)) (s : Array Value) (f : Array Value → Array Value) :
    (init ++ [s]).modify init.length f = init ++ [f s] := by
  induction init with
  | nil => rfl
  | cons t init ih => rw [List.cons_append, List.length_cons, List.modify_succ_cons, ih, List.cons_append]

/-- One stack goes. -/
theorem handDown_last (keepTop : Bool) (init : List (Array Value)) (s top : Array Value) :
    handDown keepTop (init ++ [s, top]) (init.length + 1) =
      init ++ [s ++ (if keepTop then top.back? else none).toArray] := by
  have parts : init ++ [s, top] = (init ++ [s]) ++ [top] := by rw [List.append_assoc]; rfl
  have length : init.length + 1 = (init ++ [s]).length := by rw [List.length_append]; rfl
  have above : topAbove (init ++ [s, top]) (init.length + 1) = top.back? := by
    rw [topAbove, parts, length, List.drop_left]
    cases last : top.back? <;> simp [last]
  rw [handDown, above, parts, length, List.take_left, ← length, Nat.add_sub_cancel, modify_concat]

/-- Stacks may go one after the other. -/
theorem handDown_handDown (keepTop : Bool) (init : List (Array Value)) (s top : Array Value)
    (le : left ≤ init.length + 1) :
    handDown keepTop (init ++ [s ++ (if keepTop then top.back? else none).toArray]) left =
      handDown keepTop (init ++ [s, top]) left := by
  rcases Nat.lt_or_ge init.length left with gt | le
  · obtain rfl : left = init.length + 1 := by omega
    have length : init.length + 1 =
        (init ++ [s ++ (if keepTop then top.back? else none).toArray]).length := by
      rw [List.length_append]
      rfl
    rw [handDown_last, length, handDown_length]
  · have above : keepTop = true →
        topAbove (init ++ [s ++ top.back?.toArray]) left = topAbove (init ++ [s, top]) left := by
      intro _
      rw [topAbove, topAbove, List.drop_append_of_le_length le, List.drop_append_of_le_length le]
      cases h : top.back? <;> simp [h]
    rw [handDown, handDown, List.take_append_of_le_length le, List.take_append_of_le_length le]
    cases keepTop with
    | false => rfl
    | true => rw [if_pos rfl, if_pos rfl, if_pos rfl, above rfl]

end

/-! ## Closing one scope -/

/-- The closing of one scope hands down the top of its own stack. -/
theorem Thread.stacksLeft_handDown {t : Thread} (linked : t.Linked) (keepTop : Bool)
    (more : 2 ≤ t.scopes.size) {left : Nat} (le : left ≤ (t.stacksLeft keepTop).size) :
    handDown keepTop (t.stacksLeft keepTop).toList left = handDown keepTop t.valueStacks.toList left := by
  cases owns : t.scope.ownsStack with
  | false =>
    have same : t.stacksLeft keepTop = t.valueStacks := by rw [stacksLeft, owns]; rfl
    rw [same]
  | true =>
    have lowest : t.scopes[0]? = some t.scopes[0] := Array.getElem?_eq_getElem _
    have lt := linked.stack_lt_of_close lowest (by omega)
    rw [owns, if_pos rfl] at lt
    obtain ⟨below, top, piles⟩ := Array.exists_push_of_size_pos (Nat.zero_lt_of_lt lt)
    have few : 0 < below.size := by
      rw [piles, Array.size_push] at lt
      omega
    obtain ⟨init, s, rfl⟩ := Array.exists_push_of_size_pos few
    have whole : t.valueStacks.toList = init.toList ++ [s, top] := by
      rw [piles, Array.toList_push, Array.toList_push, List.append_assoc]
      rfl
    have after : (t.stacksLeft keepTop).toList =
        init.toList ++ [s ++ (if keepTop then top.back? else none).toArray] := by
      have last : t.top? = top.back? := by rw [top?, stack, piles, Array.back?_push]; rfl
      rw [stacksLeft, if_pos owns, last, piles, Array.pop_push]
      generalize (if keepTop then top.back? else none) = kept
      cases kept with
      | none => simp
      | some v =>
        have some_ : (init.push s).isEmpty = false := by simp
        dsimp only
        rw [some_, if_neg Bool.false_ne_true, Array.size_push, Nat.add_sub_cancel, Run.modify_push,
          Array.toList_push]
        rfl
    have length : (t.stacksLeft keepTop).size = init.toList.length + 1 := by
      rw [← Array.length_toList, after, List.length_append]
      rfl
    rw [after, whole, handDown_handDown keepTop init.toList s top (length ▸ le)]

/-- So does the closing of any number. -/
theorem Machine.Shuts.handDown {ops : List Op} {keepTop : Bool} {m n : Machine}
    (steps : Relation.ReflTransGen (Machine.Shuts ops keepTop) m n) (orderly : m.Orderly ops) :
    n.thread.valueStacks.toList =
      Catena.handDown keepTop m.thread.valueStacks.toList n.thread.valueStacks.size := by
  induction steps using Relation.ReflTransGen.head_induction_on with
  | refl => rw [← Array.length_toList, handDown_length]
  | @head m p shuts _ ih =>
    have hands := ih shuts.orderly
    have rooted := shuts.orderly.thread.rooted
    have size := shuts.size
    have le : n.thread.valueStacks.size ≤ (m.thread.stacksLeft keepTop).size := by
      have length := congrArg List.length hands
      rw [Catena.handDown, List.length_modify, List.length_take, Array.length_toList, Array.length_toList,
        shuts.valueStacks] at length
      omega
    rw [hands, shuts.valueStacks,
      Thread.stacksLeft_handDown orderly.thread.linked keepTop (by omega) le]

/-! ## Unwinding -/

/-- Unwinding that succeeds leaves the stacks below as they were, but for one value at most on the one in
use: the top of the innermost stack that is gone and was not empty, if that is kept. -/
theorem UnderWay.unwind_hands_down {m n : Machine} (h : UnderWay m) (depth target : Nat) (keepTop : Bool)
    (done : Run.unwindTo (Run.reentry depth) target keepTop m = .ok () n) :
    let left := n.thread.valueStacks.size
    n.thread.scopes.size = min m.thread.scopes.size (max target 1) ∧
      (∀ s, m.thread.scopes[n.thread.scopes.size - 1]? = some s → left = s.stack + 1) ∧
      (∀ i, i + 1 < left → n.thread.valueStacks[i]? = m.thread.valueStacks[i]?) ∧
      ∃ s, m.thread.valueStacks[left - 1]? = some s ∧
        n.thread.valueStacks[left - 1]? = some (if keepTop then
          s ++ (topAbove m.thread.valueStacks.toList left).toArray else s) := by
  obtain ⟨ops, orderly⟩ := h.orderly
  obtain ⟨closes, steps⟩ := (Run.shuts_unwindTo (Run.sound_reentry ops depth) target keepTop orderly).ok done
  have hands := Machine.Shuts.handDown steps orderly
  have thread := closes.orderly.thread
  have top := thread.linked.top thread.rooted
  have rooted := Nat.pos_of_ne_zero thread.rooted
  refine ⟨closes.size, fun s found => ?_, fun i lower => ?_, ?_⟩
  · have inside : n.thread.scopes.size - 1 < n.thread.scopes.size := by omega
    have few : keepTop.toNat ≤ 1 := by cases keepTop <;> decide
    obtain ⟨s', there, stack⟩ := (closes.lowered.holds few thread.linked inside).stack found
    have last : n.thread.scopes[n.thread.scopes.size - 1]? = some n.thread.scope := by
      rw [Thread.scope, Array.back?_eq_getElem?, Array.getElem?_eq_getElem inside]
      rfl
    obtain rfl := Option.some.inj (there.symm.trans last)
    omega
  · have at_ := congrArg (·[i]?) hands
    simp only [handDown, List.getElem?_modify, Array.getElem?_toList] at at_
    rw [at_, List.getElem?_take_of_lt (by omega), Array.getElem?_toList]
    have other : n.thread.valueStacks.size - 1 ≠ i := by omega
    simp [other]
  · have at_ := congrArg (·[n.thread.valueStacks.size - 1]?) hands
    have inside : n.thread.valueStacks.size - 1 < n.thread.valueStacks.size := by omega
    simp only [handDown, List.getElem?_modify, Array.getElem?_toList, if_true] at at_
    rw [List.getElem?_take_of_lt inside, Array.getElem?_toList, Array.getElem?_eq_getElem inside] at at_
    cases found : m.thread.valueStacks[n.thread.valueStacks.size - 1]? with
    | none =>
      rw [found] at at_
      cases at_
    | some s =>
      rw [found] at at_
      refine ⟨s, rfl, ?_⟩
      rw [Array.getElem?_eq_getElem inside, at_]
      cases keepTop with
      | false => exact congrArg some Array.append_empty
      | true => rfl

/-- The numbers on the value stacks, bottom first. -/
def Thread.numbers (t : Thread) : List (List (Option Int64)) :=
  t.valueStacks.toList.map fun s => s.toList.map Value.int?

/-- A machine in the innermost of three blocks, the outermost of which has a value on its stack and a
deferred call to make. -/
def Machine.amid : Machine :=
  let m := (Run.compile "1 ( 5 defer: 7 ; ( ( 6 drop ) ) )").after (Engine.new {} .silent {})
  (Lookout.idle.runUntil 10).after { m with thread := { m.thread with pc := 0 } }

theorem UnderWay.unwind_hands_down_amid : ∃ n,
    Run.unwindTo (Run.reentry 2) 1 true .amid = .ok () n ∧
      Machine.amid.thread.numbers = [[some 1], [some 5], [], []] ∧ n.thread.numbers = [[some 1, some 5]] ∧
      ∃ s, Machine.amid.thread.valueStacks[0]? = some s ∧ n.thread.valueStacks[0]? =
        some (s ++ (topAbove Machine.amid.thread.valueStacks.toList 1).toArray) := by
  have amid : UnderWay .amid :=
    .run .idle 10 (.goTo 0 (.compile _ (.of_not_mem (by decide)) (.new ..)))
  have ends : (Run.unwindTo (Run.reentry 2) 1 true).answer? .amid = some () := by decide +kernel
  have done := Run.answer?_eq_some ends
  have one : ((Run.unwindTo (Run.reentry 2) 1 true).after .amid).thread.valueStacks.size = 1 := by
    decide +kernel
  obtain ⟨-, -, -, hands⟩ := amid.unwind_hands_down 2 1 true done
  rw [one] at hands
  exact ⟨_, done, by decide +kernel, by decide +kernel, hands⟩

/-- A machine at the end of a block that is to call a function of the embedding program, which jumps to the
end of the block in another text. -/
def Machine.hoppingOut : Machine :=
  let m := Engine.new {} .silent {}
  let m := { m with
    shared := (m.shared.addImp "hop" [] .safe (.native (.host ⟨0, [], none, some 7, none⟩))).2 }
  (Watch.idle.runUntil 4).after
    ((Run.compile "( 1 ) 7").after ((Run.compile "( &hop defer-call 5 )").after m))

/-- What a deferred call leaves on the stack of the block comes out of it in place of the top. -/
theorem unwind_hands_down_not_hopping :
    Unlabelled "( &hop defer-call 5 )" ∧ Unlabelled "( 1 ) 7" ∧ Reached anyWatch .hoppingOut ∧
      Machine.hoppingOut.thread.numbers = [[], [some 5]] ∧ ∃ n,
        Run.unwindTo (Run.reentry 2) 1 true .hoppingOut = .ok () n ∧ n.thread.numbers = [[some 7]] := by
  have ends : (Run.unwindTo (Run.reentry 2) 1 true).answer? .hoppingOut = some () := by decide +kernel
  refine ⟨.of_not_mem (by decide), .of_not_mem (by decide), ?_, by decide +kernel,
    _, Run.answer?_eq_some ends, by decide +kernel⟩
  exact .run .idle 4 trivial (.compile _ (.compile _ (.define _ _ _ _ (.new ..))))

end Catena
