/-!
# Types

A type carries its whole history: the template it instantiates, the types it was declared below and
its type arguments are part of the term, so the subtype relation is a function of two types alone.

* `Ty.isa`: the declared edges, closed under reflexivity and transitivity, with two rules more:
  instances of one template are ordered by their arguments, and both `Nil` and `T` lie below
  `Opt<T>`.
* `Ty.ancestors`: a type and everything above it, breadth first.
* `Ty.join`: the common supertype that the element type of a list literal is made of.
-/

namespace Catena

/-- What the values of a type can do beyond being compared and printed. -/
inductive Behavior
  | plain
  | int
  | str
  | wstr
  | bin
  | list
  | table
  | iter
  | func
  | lambda
  | label
  | fiber
  | file
  | socket
  | record (name : String) (fields : List String)
deriving DecidableEq, Repr, Inhabited

namespace Behavior

/-- Values of such a type can be called. -/
def isCallable : Behavior → Bool
  | func | lambda | label | fiber => true
  | _ => false

/-- Values of such a type can be read from and written to. -/
def isStream : Behavior → Bool
  | file | socket => true
  | _ => false

end Behavior

/-- A type. `params` is the number of parameters of a template and 0 for any other type. -/
structure Ty where
  id : Nat
  name : String
  template : Option Ty
  supers : List Ty
  args : List Ty
  params : Nat
  behavior : Behavior

namespace Ty

instance : Inhabited Ty := ⟨⟨0, "", none, [], [], 0, .plain⟩⟩

/-- Types are told apart by their ids. -/
instance : BEq Ty := ⟨fun a b => a.id == b.id⟩

/-- A template that has not been given its arguments. -/
def isTemplate (t : Ty) : Bool :=
  0 < t.params && t.template.isNone

/-- Whether the type instantiates the template with the given name. -/
def instantiates (t : Ty) (template : String) : Bool :=
  match t.template with
  | some raw => raw.name == template
  | none => false

theorem sizeOf_supers_lt (t : Ty) : sizeOf t.supers < sizeOf t := by
  cases t; simp only [mk.sizeOf_spec]; omega

theorem sizeOf_args_lt (t : Ty) : sizeOf t.args < sizeOf t := by
  cases t; simp only [mk.sizeOf_spec]; omega

mutual

/-- The subtype relation. -/
def isa (a b : Ty) : Bool :=
  a.id == b.id || b.name == "Any" ||
    (b.instantiates "Opt" && (a.name == "Nil" || isaFirst a b.args)) ||
    (match a.template, b.template with
      | some s, some t => s.id == t.id && isaEach a.args b.args
      | _, _ => false) ||
    anyIsa a.supers b
termination_by sizeOf a + sizeOf b
decreasing_by
  · have := sizeOf_args_lt b; omega
  · have := sizeOf_args_lt a; have := sizeOf_args_lt b; omega
  · have := sizeOf_supers_lt a; omega

/-- Whether the type lies below the first of a list. -/
def isaFirst (a : Ty) : List Ty → Bool
  | [] => false
  | b :: _ => isa a b
termination_by bs => sizeOf a + sizeOf bs
decreasing_by simp only [List.cons.sizeOf_spec]; omega

/-- Whether two lists are equally long and ordered place by place. -/
def isaEach : List Ty → List Ty → Bool
  | [], [] => true
  | a :: as, b :: bs => isa a b && isaEach as bs
  | _, _ => false
termination_by as bs => sizeOf as + sizeOf bs
decreasing_by all_goals (simp only [List.cons.sizeOf_spec]; omega)

/-- Whether some type of a list lies below `b`. -/
def anyIsa (as : List Ty) (b : Ty) : Bool :=
  match as with
  | [] => false
  | a :: as => isa a b || anyIsa as b
termination_by sizeOf as + sizeOf b
decreasing_by all_goals (simp only [List.cons.sizeOf_spec]; omega)

end

theorem sizeOf_append (as bs : List Ty) : sizeOf (as ++ bs) + 1 = sizeOf as + sizeOf bs := by
  induction as with
  | nil => simp only [List.nil_append, List.nil.sizeOf_spec]; omega
  | cons a as ih => simp only [List.cons_append, List.cons.sizeOf_spec]; omega

/-- Visits the queue front to back, adding what lies right above each type the first time it is
met. -/
def visit (seen : List Nat) : List Ty → List Ty
  | [] => []
  | t :: queue =>
    if seen.contains t.id then visit seen queue
    else t :: visit (t.id :: seen) (queue ++ t.supers)
termination_by queue => sizeOf queue
decreasing_by
  · simp only [List.cons.sizeOf_spec]; omega
  · have := sizeOf_append queue t.supers
    have := sizeOf_supers_lt t
    simp only [List.cons.sizeOf_spec]; omega

/-- The type and everything above it, breadth first, each once. -/
def ancestors (t : Ty) : List Ty :=
  visit [] [t]

/-- A supertype of both: the higher of the two if they are ordered, else the first ancestor of `a`
that lies above `b`, else `any`. -/
def join (any a b : Ty) : Ty :=
  if b.isa a then a
  else if a.isa b then b
  else (a.ancestors.find? fun s => b.isa s).getD any

end Ty

end Catena
