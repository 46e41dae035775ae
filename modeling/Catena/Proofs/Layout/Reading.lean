import Catena.Proofs.Layout.Brackets

/-!
# Reading a unit

A unit whose labels have no places yet is read operation by operation. A reading remembers what is
open (`Mark`) and what has to come next (`Due`): the label behind the end of a lambda, or the rest of
a loop. What can be read is balanced (`Reads.balanced`), and every lambda, loop and `try:` form in it
stands the way it has to (`Reads.lambda`, `Reads.attempt`, `Reads.loop`).
-/

namespace Catena

/-- What is open, with what its end has to agree with. -/
inductive Mark
  | block
  | try (done : Label)
  | lambda (id : Nat)
  | param (id : Nat)

/-- The bracket that was opened. -/
def Mark.bracket : Mark → Bracket
  | block => .block
  | .try _ => .try
  | lambda id => .lambda id
  | param id => .param id

/-- What may come next. -/
inductive Due
  /-- Anything; `last` is the label just met. -/
  | any (last : Option Label)
  /-- The label behind the lambda with the id. -/
  | skip (id : Nat)
  /-- The jump back to the start of a loop. -/
  | back (start done : Label)
  /-- The label behind a loop. -/
  | done (l : Label)

/-- How far a unit has been read. -/
structure Reading where
  /-- What is open, innermost first. -/
  marks : List Mark
  due : Due

namespace Op

/-- Whether the operation may stand anywhere, and neither is a label nor refers to one. -/
def isPlain : Op → Bool
  | target _ | lambda .. | unlambda _ | begin .. | close | closeList | .try _ | closeTry
  | .for (some _) | .while (some _) | param _ | unparam .. | jump _ (some _) => false
  | _ => true

/-- Whether the operation is a jump whose label has been looked up. -/
def isResolved : Op → Bool
  | jump _ (some _) => true
  | _ => false

/-- The label put at the operation. -/
def label? : Op → Option Label
  | target l => some l
  | _ => none

/-- The word without which no source is compiled to the operation: the keyword of a block with a level
of its own, and the marked name of a label that a program wrote. -/
def word? : Op → Option String
  | begin _ (some _) => some "unsafe:"
  | target l => if l.anon then none else some (String.ofList ('@' :: l.name.toList))
  | _ => none

/-- The lambda that begins at the operation. -/
def body? : Op → Option LambdaDef
  | lambda body _ _ => some body
  | _ => none

end Op

/-- Reading one operation. -/
inductive Step : Reading → Op → Reading → Prop
  | plain {ms last op} : op.isPlain = true → Step ⟨ms, .any last⟩ op ⟨ms, .any none⟩
  | jump {ms last} (name : String) {l : Label} : l.anon = false →
      Step ⟨ms, .any last⟩ (.jump name (some l)) ⟨ms, .any none⟩
  | label {ms last} (l : Label) : Step ⟨ms, .any last⟩ (.target l) ⟨ms, .any (some l)⟩
  | begin {ms last} (ownStack : Bool) (safety : Option Safety) :
      Step ⟨ms, .any last⟩ (.begin ownStack safety) ⟨.block :: ms, .any none⟩
  | close {ms last} : Step ⟨.block :: ms, .any last⟩ .close ⟨ms, .any none⟩
  | closeList {ms last} : Step ⟨.block :: ms, .any last⟩ .closeList ⟨ms, .any none⟩
  | try {ms last} (done : Label) :
      Step ⟨ms, .any last⟩ (.try done) ⟨.try done :: ms, .any none⟩
  | closeTry {ms} (done : Label) :
      Step ⟨.try done :: ms, .any (some done)⟩ .closeTry ⟨ms, .any none⟩
  | lambda {ms last body} (kind : LambdaKind) : body.entry = none →
      Step ⟨ms, .any last⟩ (.lambda body kind (some (.fresh "skip" body.id)))
        ⟨.lambda body.id :: ms, .any none⟩
  | unlambda {ms last} (id : Nat) : Step ⟨.lambda id :: ms, .any last⟩ (.unlambda id) ⟨ms, .skip id⟩
  | skip {ms} (id : Nat) :
      Step ⟨ms, .skip id⟩ (.target (.fresh "skip" id)) ⟨ms, .any (some (.fresh "skip" id))⟩
  | param {ms last} (id : Nat) : Step ⟨ms, .any last⟩ (.param id) ⟨.param id :: ms, .any none⟩
  | unparam {ms last} (id : Nat) (template : String) :
      Step ⟨.param id :: ms, .any last⟩ (.unparam id template) ⟨ms, .any none⟩
  | for {ms} (start done : Label) :
      Step ⟨ms, .any (some start)⟩ (.for (some done)) ⟨ms, .back start done⟩
  | while {ms} (start done : Label) :
      Step ⟨ms, .any (some start)⟩ (.while (some done)) ⟨ms, .back start done⟩
  | back {ms} (start done : Label) :
      Step ⟨ms, .back start done⟩ (.jump start.name (some start)) ⟨ms, .done done⟩
  | done {ms} (l : Label) : Step ⟨ms, .done l⟩ (.target l) ⟨ms, .any (some l)⟩

/-- Reading operations one after the other. -/
inductive Reads : Reading → List Op → Reading → Prop
  | nil {r} : Reads r [] r
  | cons {r s t op ops} : Step r op s → Reads s ops t → Reads r (op :: ops) t

namespace Reads

variable {r s t : Reading} {op : Op} {ops ops' : List Op} {ms : List Mark}

theorem single (h : Step r op s) : Reads r [op] s := .cons h .nil

theorem append (h : Reads r ops s) (h' : Reads s ops' t) : Reads r (ops ++ ops') t := by
  induction h with
  | nil => exact h'
  | cons step _ ih => exact .cons step (ih h')

theorem split (h : Reads r (ops ++ ops') t) : ∃ s, Reads r ops s ∧ Reads s ops' t := by
  induction ops generalizing r with
  | nil => exact ⟨r, .nil, h⟩
  | cons op ops ih =>
    cases h with
    | cons step rest =>
      obtain ⟨s, first, second⟩ := ih rest
      exact ⟨s, .cons step first, second⟩

/-- A reading that has just met a label has met it at the end of what was read. -/
theorem last_label {l : Label} (h : Reads r ops ⟨ms, .any (some l)⟩)
    (first : r.due = .any none) : ∃ before, ops = before ++ [.target l] := by
  rcases List.eq_nil_or_concat ops with rfl | ⟨before, op, rfl⟩
  · cases h with
    | nil => cases first
  · rw [List.concat_eq_append] at h ⊢
    obtain ⟨s, -, last⟩ := h.split
    cases last with
    | cons step rest =>
      cases rest with
      | nil => cases step <;> exact ⟨before, rfl⟩

/-- A reading that waits for a jump back has just met the label and the loop. -/
theorem last_loop {start done : Label} (h : Reads r ops ⟨ms, .back start done⟩)
    (first : r.due = .any none) : ∃ before op, ops = before ++ [.target start, op] ∧
      (op = .for (some done) ∨ op = .while (some done)) := by
  rcases List.eq_nil_or_concat ops with rfl | ⟨before, op, rfl⟩
  · cases h with
    | nil => cases first
  · rw [List.concat_eq_append] at h ⊢
    obtain ⟨s, front, last⟩ := h.split
    cases last with
    | cons step rest =>
      cases rest
      cases step with
      | «for» =>
        obtain ⟨before, rfl⟩ := front.last_label first
        exact ⟨before, _, by simp, .inl rfl⟩
      | «while» =>
        obtain ⟨before, rfl⟩ := front.last_label first
        exact ⟨before, _, by simp, .inr rfl⟩

end Reads

/-! ## Brackets -/

/-- What a step does to what is open. -/
inductive Step.Effect (r : Reading) (op : Op) (s : Reading) : Prop
  | keeps : op.opens? = none → op.closes? = none → s.marks = r.marks → Effect r op s
  | opens (m : Mark) : op.opens? = some m.bracket → s.marks = m :: r.marks → s.due = .any none →
      Effect r op s
  | closes (m : Mark) : op.closes? = some m.bracket → r.marks = m :: s.marks → Effect r op s

theorem Step.effect {r s : Reading} {op : Op} (h : Step r op s) : Step.Effect r op s := by
  cases h with
  | plain plain =>
    refine .keeps ?_ ?_ rfl
    · cases op <;> first | rfl | cases plain
    · cases op <;> first | rfl | cases plain
  | jump => exact .keeps rfl rfl rfl
  | label => exact .keeps rfl rfl rfl
  | begin => exact .opens .block rfl rfl rfl
  | close => exact .closes .block rfl rfl
  | closeList => exact .closes .block rfl rfl
  | «try» done => exact .opens (.try done) rfl rfl rfl
  | closeTry done => exact .closes (.try done) rfl rfl
  | lambda => exact .opens (.lambda _) rfl rfl rfl
  | unlambda id => exact .closes (.lambda id) rfl rfl
  | skip => exact .keeps rfl rfl rfl
  | param id => exact .opens (.param id) rfl rfl rfl
  | unparam id => exact .closes (.param id) rfl rfl
  | «for» => exact .keeps rfl rfl rfl
  | «while» => exact .keeps rfl rfl rfl
  | back => exact .keeps rfl rfl rfl
  | done => exact .keeps rfl rfl rfl

/-- The innermost mark is closed after something balanced, as nothing stays open in the end. -/
theorem Reads.closed {r t : Reading} {ops : List Op} {m : Mark} {ms : List Mark}
    (h : Reads r ops t) (opened : r.marks = m :: ms) (finish : t.marks = []) :
    ∃ inside last after s s', ops = inside ++ last :: after ∧ Balanced inside ∧
      Reads r inside s ∧ Step s last s' ∧ Reads s' after t ∧ last.closes? = some m.bracket ∧
      s.marks = m :: ms ∧ s'.marks = ms := by
  induction hn : ops.length using Nat.strongRecOn generalizing r ops m ms with
  | ind n ih =>
    subst hn
    cases h with
    | nil => rw [finish] at opened; cases opened
    | @cons _ r' _ op ops step rest =>
      cases step.effect with
      | keeps noOpen noClose same =>
        obtain ⟨inside, last, after, s, s', rfl, balanced, first, found⟩ :=
          ih ops.length (Nat.lt_succ_self _) rest (same.trans opened) rfl
        exact ⟨op :: inside, last, after, s, s', rfl, .plain noOpen noClose balanced,
          .cons step first, found⟩
      | opens m' isOpen above =>
        obtain ⟨inner, shut, behind, u, u', rfl, balanced, first, stepShut, second, shuts, -, back⟩ :=
          ih ops.length (Nat.lt_succ_self _) rest above rfl
        obtain ⟨inside, last, after, s, s', rfl, balanced', third, found⟩ :=
          ih behind.length (by simp; omega) second (back.trans opened) rfl
        refine ⟨op :: (inner ++ shut :: inside), last, after, s, s', by simp,
          .pair isOpen shuts balanced balanced', ?_, found⟩
        exact .cons step (first.append (.cons stepShut third))
      | closes m' isClose below =>
        rw [opened] at below
        obtain ⟨rfl, rfl⟩ := List.cons.inj below
        exact ⟨[], op, ops, r, r', rfl, .nil, .nil, step, rest, isClose, opened, rfl⟩

/-- What can be read from where nothing is open to where nothing is open is balanced. -/
theorem Reads.balanced {r t : Reading} {ops : List Op} (h : Reads r ops t) (start : r.marks = [])
    (finish : t.marks = []) : Balanced ops := by
  induction hn : ops.length using Nat.strongRecOn generalizing r ops with
  | ind n ih =>
    subst hn
    cases h with
    | nil => exact .nil
    | @cons _ r' _ op ops step rest =>
      cases step.effect with
      | keeps noOpen noClose same =>
        exact .plain noOpen noClose (ih _ (Nat.lt_succ_self _) rest (same.trans start) rfl)
      | opens m isOpen above =>
        obtain ⟨inside, last, after, s, s', rfl, balanced, -, -, behind, isClose, -, back⟩ :=
          rest.closed above finish
        exact .pair isOpen isClose balanced
          (ih after.length (by simp; omega) behind (back.trans start) rfl)
      | closes m isClose below => rw [start] at below; cases below

/-! ## What stands where -/

theorem getElem?_of_parts {ops : List Op} {op : Op} {i : Nat} (before after : List Op)
    (parts : ops = before ++ op :: after) (place : i = before.length) : ops[i]? = some op := by
  subst parts place
  simp

/-- The whole unit has been read. -/
structure Reading.Finished (t : Reading) : Prop where
  marks : t.marks = []
  due : ∃ last, t.due = .any last

section Whole

variable {t : Reading} {ops : List Op} {i : Nat} (h : Reads ⟨[], .any none⟩ ops t)
include h

/-- The operation at a place is read on its own. -/
theorem Reads.at {op : Op} (found : ops[i]? = some op) :
    ∃ before after a b, ops = before ++ op :: after ∧ before.length = i ∧
      Reads ⟨[], .any none⟩ before a ∧ Step a op b ∧ Reads b after t := by
  obtain ⟨bound, rfl⟩ := List.getElem?_eq_some_iff.1 found
  have parts : ops = ops.take i ++ ops[i] :: ops.drop (i + 1) := by simp
  rw [parts] at h
  obtain ⟨a, first, rest⟩ := h.split
  cases rest with
  | cons step second =>
    refine ⟨ops.take i, ops.drop (i + 1), a, _, parts, ?_, first, step, second⟩
    rw [List.length_take]
    omega

/-- A lambda has no entry yet, and its skip label stands right behind its end. -/
theorem Reads.lambda (finish : t.Finished) {body : LambdaDef} {kind : LambdaKind}
    {skip : Option Label} (found : ops[i]? = some (.lambda body kind skip)) :
    body.entry = none ∧
      ∃ j l, skip = some l ∧ Matches ops i j ∧ ops[j + 1]? = some (.target l) := by
  obtain ⟨before, rest, a, b, rfl, rfl, -, step, second⟩ := h.at found
  cases step with
  | plain plain => cases plain
  | lambda _ entry =>
    obtain ⟨inside, last, after, ⟨ms, due⟩, s', rfl, balanced, -, shut, behind, isClose, -, -⟩ :=
      second.closed rfl finish.marks
    refine ⟨entry, before.length + 1 + inside.length, _, rfl,
      ⟨before, _, inside, last, after, _, rfl, rfl, rfl, rfl, isClose, balanced⟩, ?_⟩
    cases last <;> cases isClose
    cases shut with
    | plain plain => cases plain
    | unlambda =>
      cases behind with
      | nil => obtain ⟨last, due⟩ := finish.due; cases due
      | @cons _ _ _ _ rest next _ =>
        cases next with
        | skip =>
          let opening := Op.lambda body kind (some (.fresh "skip" body.id))
          refine getElem?_of_parts (before ++ opening :: (inside ++ [.unlambda body.id])) rest
            (by simp [opening]) ?_
          simp
          omega

/-- The label at the end of a `try:` form stands right before the end. -/
theorem Reads.attempt (finish : t.Finished) {done : Label} (found : ops[i]? = some (.try done)) :
    ∃ j, Matches ops i j ∧ 0 < j ∧ ops[j - 1]? = some (.target done) := by
  obtain ⟨before, rest, a, b, rfl, rfl, -, step, second⟩ := h.at found
  cases step with
  | plain plain => cases plain
  | «try» =>
    obtain ⟨inside, last, after, ⟨ms, due⟩, s', rfl, balanced, first, shut, behind, isClose, marks, -⟩ :=
      second.closed rfl finish.marks
    refine ⟨before.length + 1 + inside.length,
      ⟨before, _, inside, last, after, _, rfl, rfl, rfl, rfl, isClose, balanced⟩, by omega, ?_⟩
    cases last <;> cases isClose
    cases shut with
    | plain plain => cases plain
    | closeTry done =>
      obtain ⟨same, -⟩ := List.cons.inj marks
      obtain rfl := Mark.try.inj same
      obtain ⟨inside', rfl⟩ := first.last_label rfl
      refine getElem?_of_parts (before ++ .try done :: inside') (.closeTry :: after) (by simp) ?_
      simp
      omega

/-- A loop stands between the label it jumps back to and that jump, and the label behind it
follows. -/
theorem Reads.loop (finish : t.Finished) {op : Op} {done : Label} (found : ops[i]? = some op)
    (loop : op = .for (some done) ∨ op = .while (some done)) :
    ∃ start, 0 < i ∧ ops[i - 1]? = some (.target start) ∧
      ops[i + 1]? = some (.jump start.name (some start)) ∧ ops[i + 2]? = some (.target done) := by
  obtain ⟨before, rest, a, b, rfl, rfl, first, step, second⟩ := h.at found
  have shape : ∃ ms start, a = ⟨ms, .any (some start)⟩ ∧ b = ⟨ms, .back start done⟩ := by
    rcases loop with rfl | rfl <;> cases step with
    | plain plain => cases plain
    | _ => exact ⟨_, _, rfl, rfl⟩
  obtain ⟨ms, start, rfl, rfl⟩ := shape
  obtain ⟨before', rfl⟩ := first.last_label rfl
  cases second with
  | nil => obtain ⟨last, due⟩ := finish.due; cases due
  | cons back rest =>
    cases back
    cases rest with
    | nil => obtain ⟨last, due⟩ := finish.due; cases due
    | @cons _ _ _ _ after last _ =>
      cases last
      let target := Op.target start
      let jump := Op.jump start.name (some start)
      refine ⟨start, by simp, ?_, ?_, ?_⟩
      · exact getElem?_of_parts before' (op :: jump :: .target done :: after) (by simp [jump]) (by simp)
      · exact getElem?_of_parts (before' ++ [target, op]) (.target done :: after) (by simp [target])
          (by simp)
      · exact getElem?_of_parts (before' ++ [target, op, jump]) after (by simp [target, jump])
          (by simp)

/-- A jump to an anonymous label is that of a loop, back to the label in front of it. -/
theorem Reads.back {name : String} {l : Label} (found : ops[i]? = some (.jump name (some l)))
    (anon : l.anon = true) : ∃ op done, 2 ≤ i ∧ ops[i - 2]? = some (.target l) ∧
      ops[i - 1]? = some op ∧ (op = .for (some done) ∨ op = .while (some done)) := by
  obtain ⟨before, rest, a, b, rfl, rfl, first, step, -⟩ := h.at found
  cases step with
  | plain plain => cases plain
  | jump _ named => rw [named] at anon; cases anon
  | back start done =>
    obtain ⟨before', op, rfl, loop⟩ := first.last_loop rfl
    let jump := Op.jump l.name (some l)
    refine ⟨op, done, by simp, ?_, ?_, loop⟩
    · exact getElem?_of_parts before' (op :: jump :: rest) (by simp [jump]) (by simp)
    · exact getElem?_of_parts (before' ++ [.target l]) (jump :: rest) (by simp [jump]) (by simp)

end Whole

end Catena
