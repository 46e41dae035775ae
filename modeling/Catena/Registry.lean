import Catena.Fault
import Catena.Op
import Catena.Overload

/-!
# The registry

The names an engine knows: types, functions, macros, labels and conversions, and the counter from
which everything that needs an id takes one. Instances of generic types are made on demand and
remembered by name.
-/

namespace Catena

/-- The compile-time forms of the language. -/
inductive Macro
  | func
  | binding
  | struct
  | conv
  | test
  | attempt
  | unrestricted
  | defer
  /-- A keyword that stands for one operation. -/
  | word (op : Op)
  /-- A structured exit, whose keyword may carry a depth. -/
  | exit (kind : ExitKind)
  /-- A form of the embedding program: the texts of the next `take` tokens, as strings. -/
  | host (take : Nat)

namespace Macro

/-- Whether the keyword may end in a number. -/
def takesDepth : Macro → Bool
  | exit _ => true
  | _ => false

/-- The forms every engine starts with. -/
def builtins : List (String × Macro) :=
  [("func:", func), ("let:", binding), ("struct:", struct), ("conv:", conv), ("test:", test),
   ("try:", attempt), ("unsafe:", unrestricted), ("defer:", defer),
   ("true", word (.push (.bool true))), ("false", word (.push (.bool false))),
   ("nil", word (.push .nil)), ("drop", word (.drop 1)), ("check", word (.check none)),
   ("for", word (.for none)), ("while", word (.while none)),
   ("return", exit .return), ("recall", exit .recall), ("yield", exit .yield),
   ("break", exit .break)]

end Macro

/-- The names an engine knows. -/
structure Registry where
  nextId : Nat := 1
  types : Dict String Ty := ∅
  /-- The implementations of each function, newest first. -/
  funcs : Dict String (List Imp) := ∅
  macros : Dict String Macro := ∅
  labels : Dict String Label := ∅
  /-- The conversions by the ids of the two types. -/
  convs : Dict (Nat × Nat) Value := ∅

namespace Registry

instance : Inhabited Registry := ⟨{}⟩

/-- Takes the next id. -/
def freshId (r : Registry) : Nat × Registry :=
  (r.nextId, { r with nextId := r.nextId + 1 })

/-- Makes a type known under its name. -/
def addType (r : Registry) (t : Ty) : Registry :=
  { r with types := r.types.insert t.name t }

/-- The name of an instance. -/
def instanceName (template : Ty) (args : List Ty) : String :=
  template.name ++ "<" ++ String.intercalate "," (args.map (·.name)) ++ ">"

/-- Makes a new instance, with the next id, below its template and `above`. -/
def addInstance (r : Registry) (template : Ty) (args above : List Ty) : Ty × Registry :=
  let (id, r) := r.freshId
  let t : Ty :=
    ⟨id, instanceName template args, some template, template :: above, args, 0, template.behavior⟩
  (t, r.addType t)

/-- The instance of a template that has nothing above it but the template and `above`. -/
def deriveWith (r : Registry) (template : Ty) (args above : List Ty) : Ty × Registry :=
  match r.types.find? (instanceName template args) with
  | some t => (t, r)
  | none => r.addInstance template args above

/-- The `Seq` of an item type. -/
def deriveSeq (r : Registry) (item : Ty) : Ty × Registry :=
  r.deriveWith .seq [item] []

/-- The `Pair` of two types; pairs of ordered types are ordered. -/
def derivePair (r : Registry) (args : List Ty) : Ty × Registry :=
  r.deriveWith .pair args (if args.all fun a => a.isa .cmp then [.cmp] else [])

/-- The instance of a template for a full list of arguments. A list or iterator is a sequence of its
items, a table one of its entries. -/
def derive (r : Registry) (template : Ty) (args : List Ty) : Ty × Registry :=
  match r.types.find? (instanceName template args) with
  | some t => (t, r)
  | none =>
    if template.name == "List" || template.name == "Iter" then
      let (s, r) := r.deriveSeq (args.headD .any)
      r.addInstance template args [s]
    else if template.name == "Table" then
      let (entry, r) := r.derivePair (args.take 2)
      let (s, r) := r.deriveSeq entry
      r.addInstance template args [s]
    else if template.name == "Pair" then r.derivePair args
    else r.addInstance template args []

/-- Arguments left out stand for `Any`. -/
def padArgs (template : Ty) (args : List Ty) : List Ty :=
  args ++ List.replicate (template.params - args.length) .any

/-- The instance of a template, which must be one and must not get too many arguments. -/
def instantiate (r : Registry) (template : Ty) (args : List Ty) : Except Fault (Ty × Registry) :=
  if !template.isTemplate then .error (Fault.notTemplate template.name)
  else if template.params < args.length then
    .error (Fault.genericArity template.name template.params args.length)
  else .ok (r.derive template (padArgs template args))

/-- The instance of the template with a given name. -/
def instantiateNamed (r : Registry) (name : String) (args : List Ty) :
    Except Fault (Ty × Registry) :=
  match r.types.find? name with
  | none => .error (Fault.unknownTemplate name)
  | some template => r.instantiate template args

/-- Declares a type; a name can be used once. -/
def declareType (r : Registry) (name : String) (supers : List Ty) (behavior : Behavior) :
    Except Fault (Ty × Registry) :=
  if r.types.contains name then .error (Fault.typeTaken name)
  else
    let (id, r) := r.freshId
    let t : Ty := ⟨id, name, none, if supers.isEmpty then [.any] else supers, [], 0, behavior⟩
    .ok (t, r.addType t)

/-- Adds an implementation to a function. -/
def addImp (r : Registry) (name : String) (args : List Arg) (safety : Safety) (body : Body) :
    Imp × Registry :=
  let (id, r) := r.freshId
  let imp : Imp := { id, name, args, safety, body }
  (imp, { r with funcs := r.funcs.insert name (imp :: (r.funcs.find? name).getD []) })

/-- Sets the conversion between two types. -/
def addConv (r : Registry) (source target : Ty) (f : Value) : Registry :=
  { r with convs := r.convs.insert (source.id, target.id) f }

/-- The conversion from exactly one type to exactly another. -/
def findConv? (r : Registry) (source target : Ty) : Option Value :=
  r.convs.find? (source.id, target.id)

/-- Refuses labels whose names are taken. -/
def checkLabels (r : Registry) (labels : List Label) : Except Fault Unit :=
  match labels.find? fun l => r.labels.contains l.name with
  | some l => .error (Fault.labelTaken l.name)
  | none => .ok ()

/-- Makes labels known. -/
def addLabels (r : Registry) (labels : List Label) : Registry :=
  { r with labels := labels.foldl (fun d l => d.insert l.name l) r.labels }

/-- Names in order of their code points. -/
def sortedNames (names : List String) : List String :=
  names.mergeSort fun a b => a ≤ b

end Registry

end Catena
