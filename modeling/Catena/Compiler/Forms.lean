import Catena.Compiler.State

/-!
# From tokens to operations

Each token stands for one operation, or begins a form that takes the tokens after it. A form gets
the way to compile a run of tokens up to a closing one (`Block`); each answers the tokens left over.
-/

namespace Catena.Compile

/-- Compiles tokens up to and including the given closing one, or all of them. -/
abbrev Block := Option String → List Token → Compile (List Token)

/-- The next token, which the form begun by `first` needs. -/
def expect (first : Token) (what : String) : List Token → Compile (Token × List Token)
  | t :: ts => return (t, ts)
  | [] => fail ((Fault.expects first.text what).locate first.pos)

/-- A type as written at a token. -/
def typeAt (text : String) (pos : Nat) : Compile Ty :=
  located pos do resolve (← ofExcept (TypeExpr.parse text))

/-- Text with the part after its first `mark`, if there is one. -/
def splitAtMark (mark : Char) (text : String) : String × Option String :=
  let cs := text.toList
  if cs.contains mark then
    (String.ofList (cs.takeWhile (· ≠ mark)), some (String.ofList ((cs.dropWhile (· ≠ mark)).drop 1)))
  else (text, none)

/-! ## Blocks and lambdas -/

/-- A block with a stack of its own, closed by `op`. -/
def ownBlock (block : Block) (closing : String) (op : Op) (ts : List Token) :
    Compile (List Token) := do
  emit (.begin true none)
  let ts ← block (some closing) ts
  emit op
  return ts

/-- The body of a lambda. -/
def lambda (block : Block) (name : Option String) (kind : LambdaKind) (closing : Option String)
    (ts : List Token) : Compile (LambdaDef × List Token) := do
  let body : LambdaDef := { id := ← freshId, name }
  emit (.lambda body kind none)
  let ts ← block closing ts
  emit (.unlambda body.id)
  return (body, ts)

/-- A lambda between braces. -/
def braces (block : Block) (t : Token) : Compile Unit := do
  let ts ← tokens (String.ofList t.inner) (t.pos + 1)
  let _ ← lambda block none .closure none ts

mutual

/-- The operations that make a type. -/
def typeOps : TypeExpr → Compile Unit
  | .named name => emit (.deref name)
  | .generic name args => do
    let id ← freshId
    emit (.param id)
    typeOpsEach args
    emit (.unparam id name)
  | e => fail (Fault.signatureOnly e.text)

/-- The operations that make several types. -/
def typeOpsEach : List TypeExpr → Compile Unit
  | [] => return ()
  | e :: es => do typeOps e; typeOpsEach es

end

/-! ## Definitions -/

/-- The tokens up to a closing one. -/
def takeUntil (first : Token) (closing : String) : List Token → Compile (List Token × List Token)
  | [] => fail ((Fault.expects first.text s!"'{closing}'").locate first.pos)
  | t :: ts => do
    if t.text = closing then return ([], ts)
    let (taken, rest) ← takeUntil first closing ts
    return (t :: taken, rest)

/-- The signature of a function as written, with the place of each argument. -/
def signature (first : Token) : List Token → Compile (List (TypeExpr × Nat) × List Token)
  | [] => fail ((Fault.expects first.text "')'").locate first.pos)
  | t :: ts => do
    if t.text = ")" then return ([], ts)
    let e ← located t.pos (ofExcept (TypeExpr.parse t.text))
    let (es, rest) ← signature first ts
    return ((e, t.pos) :: es, rest)

/-- Refuses a reference to an argument that there is not. -/
def checkReference (arity : Nat) (e : TypeExpr) : Compile Unit :=
  match e with
  | .same n | .argOf n _ =>
    if arity ≤ n then
      fail (Fault.malformed s!"'{e.text}' refers past the {arity} declared argument(s)")
    else return ()
  | _ => return ()

/-- What an argument of so many has to be. -/
def argAt (arity : Nat) (e : TypeExpr) (pos : Nat) : Compile Arg :=
  located pos do
    checkReference arity e
    argOf e

/-- A function behind the bracket that opens its signature. -/
def funcBody (block : Block) (first name : Token) (ts : List Token) : Compile (List Token) := do
  let (exprs, ts) ← signature first ts
  let args ← exprs.mapM fun (e, pos) => argAt exprs.length e pos
  let level := (ts.head?).bind fun t => Safety.ofName? t.text
  let (body, ts) ← lambda block (some name.text) .body (some ";")
    (if level.isSome then ts.drop 1 else ts)
  fun c => .ok ts
    { c with funcs := c.funcs ++ [⟨name.text, args, level.getD .safe, body⟩] }

/-- `func: name (Type …) [level] body ;` -/
def funcForm (block : Block) (first : Token) (ts : List Token) : Compile (List Token) := do
  let (name, ts) ← expect first "a function name" ts
  let (opening, ts) ← expect first "an argument list" ts
  if opening.text ≠ "(" then
    fail ((Fault.malformed s!"'func: {name.text}' expects '(' before its arguments").locate
      opening.pos)
  funcBody block first name ts

/-- `let: name body ;` -/
def bindingForm (block : Block) (first : Token) (ts : List Token) : Compile (List Token) := do
  let (name, ts) ← expect first "a name" ts
  if name.text = ";" || name.isQuoted || name.isBrace then
    fail ((Fault.malformed s!"'{name.text}' is not a valid binding name").locate name.pos)
  let ts ← ownBlock block ";" .close ts
  emit (.bind name.text)
  return ts

/-- The type written behind the name of a field; without one, any value will do. -/
def fieldType (pos : Nat) : Option String → Compile Ty
  | some text => typeAt text pos
  | none => pure .any

/-- The fields of a structure as written, up to the semicolon; `seen` are the names so far. -/
def fields (first : Token) (seen : List String) :
    List Token → Compile (List (String × Ty) × List Token)
  | [] => fail ((Fault.expects first.text "';'").locate first.pos)
  | t :: ts => do
    if t.text = ";" then return ([], ts)
    let (name, type?) := splitAtMark ':' t.text
    let type ← fieldType (t.pos + name.utf8ByteSize + 1) type?
    if name.isEmpty || seen.contains name then
      fail ((Fault.malformed s!"bad or duplicate field '{t.text}'").locate t.pos)
    let (rest, ts) ← fields first (name :: seen) ts
    return ((name, type) :: rest, ts)

/-- The functions of a structure type: one that makes values, and two for each field, to read and
to write it. -/
def structFuncs (t : Ty) (fields : List (String × Ty)) : List (String × List Arg × Safety × Native) :=
  ("new", fields.map (fun f => .type f.2) ++ [.pred (.isType t.id)], .pure,
    .construct t fields.length) ::
  fields.zipIdx.flatMap fun (f, i) =>
    [("." ++ f.1, [.type t], .pure, .field i),
     ("." ++ f.1 ++ "=", [.type t, .type f.2], .const, .setField i)]

/-- Makes the functions of a structure type known. -/
def addStructFuncs : List (String × List Arg × Safety × Native) → Compile Unit
  | [] => return ()
  | (name, args, safety, native) :: rest => do
    alter fun s => (s.addImp name args safety (.native native)).2
    addStructFuncs rest

/-- `struct: Name field field:Type … ;` -/
def structForm (first : Token) (ts : List Token) : Compile (List Token) := do
  let (name, ts) ← expect first "a type name" ts
  let (fs, ts) ← fields first [] ts
  let behavior := .record name.text (fs.map (·.1))
  let (t, shared) ← located name.pos do
    ofExcept (← ask fun s => s.declareType name.text [.struct] behavior)
  alter fun _ => shared
  addStructFuncs (structFuncs t fs)
  return ts

/-- `conv: From To body ;` -/
def convForm (block : Block) (first : Token) (ts : List Token) : Compile (List Token) := do
  let (sourceName, ts) ← expect first "a source type" ts
  let (targetName, ts) ← expect first "a target type" ts
  let source ← typeAt sourceName.text sourceName.pos
  let target ← typeAt targetName.text targetName.pos
  let name := s!"{source.name}->{target.name}"
  let (body, ts) ← lambda block (some name) .body (some ";") ts
  fun c => .ok ts { c with convs := c.convs ++ [⟨source, target, body⟩] }

/-! ## Other forms -/

/-- `test: 'message' body ;` -/
def testForm (block : Block) (first : Token) (ts : List Token) : Compile (List Token) := do
  let (message, ts) ← expect first "a quoted message" ts
  if !message.isQuoted then
    fail ((Fault.expects "test:" "a quoted message").locate message.pos)
  let ts ← ownBlock block ";" .close ts
  emit (.closeTest (String.ofList message.inner))
  return ts

/-- `try: body ;` -/
def tryForm (block : Block) (ts : List Token) : Compile (List Token) := do
  let done := Label.fresh "try" (← freshId)
  emit (.try done)
  let ts ← block (some ";") ts
  emit (.target done)
  emit .closeTry
  return ts

/-- `unsafe: body ;` -/
def unrestrictedForm (block : Block) (ts : List Token) : Compile (List Token) := do
  emit (.begin false (some .unrestricted))
  let ts ← block (some ";") ts
  emit .close
  return ts

/-- `defer: body ;` -/
def deferForm (block : Block) (ts : List Token) : Compile (List Token) := do
  let (_, ts) ← lambda block none .closure (some ";") ts
  emit (.call "defer-call")
  return ts

/-- A keyword with the decimal depth at its end, if there is one. -/
def splitDepth (word : String) : Option (String × Nat) :=
  let cs := word.toList.reverse
  let base := String.ofList (cs.dropWhile Text.isDigit).reverse
  if base.isEmpty then none
  else (Text.index? (cs.takeWhile Text.isDigit).reverse).map (base, ·)

/-- A structured exit; a keyword without a number leaves the innermost. -/
def exitForm (kind : ExitKind) (word : String) : Compile Unit := do
  let depth :=
    match splitDepth word with
    | some (base, depth) => if base = kind.name then depth else 0
    | none => 0
  emit (.exit (.exit kind depth (← freshId)) none)

/-- A form of the embedding program: the next `take` tokens as strings. -/
def hostForm (first : Token) : (take : Nat) → List Token → Compile (List Token)
  | 0, ts => return ts
  | take + 1, ts => do
    let (t, ts) ← expect first "a token" ts
    emit (.push (.str t.text))
    hostForm first take ts

/-- Compiles a form begun by `first`. -/
def form (block : Block) (first : Token) (ts : List Token) : Macro → Compile (List Token)
  | .func => funcForm block first ts
  | .binding => bindingForm block first ts
  | .struct => structForm first ts
  | .conv => convForm block first ts
  | .test => testForm block first ts
  | .attempt => tryForm block ts
  | .unrestricted => unrestrictedForm block ts
  | .defer => deferForm block ts
  | .word op => do emit op; return ts
  | .exit kind => do exitForm kind first.text; return ts
  | .host take => hostForm first take ts

/-- The form a word begins: one of that name, or one that takes a depth. -/
def findForm (word : String) : Compile (Option Macro) :=
  ask fun s =>
    match s.registry.macros.find? word with
    | some m => some m
    | none =>
      (splitDepth word).bind fun (base, _) =>
        (s.registry.macros.find? base).filter Macro.takesDepth

/-! ## Tokens -/

/-- What follows a mark at the front of a word, if anything does. -/
def afterMark? (mark : Char) (word : String) : Option String :=
  match word.toList with
  | c :: d :: cs => if c = mark then some (String.ofList (d :: cs)) else none
  | _ => none

/-- What stands before a mark at the end of a word, if anything does. -/
def beforeMark? (mark : Char) (word : String) : Option String :=
  match word.toList.reverse with
  | c :: d :: cs => if c = mark then some (String.ofList (d :: cs).reverse) else none
  | _ => none

/-- The operation that a word stands for by its shape alone. -/
def wordOp (word : Token) : Option (Except Fault Op) :=
  let text := word.text
  ((afterMark? '@' text).map fun name => .ok (.target (.named name))) <|>
  ((beforeMark? '!' text).map fun name => .ok (.jump name none)) <|>
  ((afterMark? '&' text).map fun name => .ok (.ref name)) <|>
  (if word.isQuoted then some (Literal.string text) else none) <|>
  (if text.startsWith "\\" then some ((Literal.character text).map .push) else none) <|>
  ((afterMark? '#' text).map fun name => .ok (.push (.sym name))) <|>
  (if Literal.startsNumber text then some ((Literal.number text).map .push) else none) <|>
  ((afterMark? '$' text).map fun name => .ok (.get name))

/-- Compiles the form that a token begins. -/
def token (block : Block) (t : Token) (ts : List Token) : Compile (List Token) := do
  if t.isBrace then braces block t; return ts
  else if t.text = "(" then ownBlock block ")" .close ts
  else if t.text = "[" then ownBlock block "]" .closeList ts
  else if t.text = ")" || t.text = "]" then fail (Fault.unmatched t.text)
  else if t.text = ";" then fail Fault.unexpectedSemicolon
  else
    match wordOp t with
    | some op => emit (← ofExcept op); return ts
    | none =>
      if TypeExpr.looksGeneric t.text then
        typeOps (← ofExcept (TypeExpr.parse t.text))
        return ts
      else
        match ← findForm t.text with
        | some m => form block t ts m
        | none => emit (.deref t.text); return ts

/-- Compiles tokens up to and including the closing one, or all of them. Every token of the source
takes one unit of fuel at most, and so does every end. -/
def upTo : (fuel : Nat) → Block
  | 0, _, _ => exhausted
  | _ + 1, none, [] => return []
  | _ + 1, some closing, [] =>
    fail (if closing = ";" then Fault.missingSemicolon else Fault.missingClosing closing)
  | fuel + 1, closing, t :: ts => do
    if closing = some t.text then return ts
    let ts ← located t.pos (token (upTo fuel) t ts)
    upTo fuel closing ts

end Catena.Compile
