import Catena.Compiler.Place
import Catena.Library.Signatures
import Catena.Run.Loop

/-!
# Engines

An engine is a machine whose thread is the main one. A new engine knows the built-in types, the
library and the built-in forms; from then on source text is compiled behind the operations there
are, and run.
-/

namespace Catena

/-- An engine. -/
abbrev Engine := Machine

namespace Engine

/-- A registry with the built-in types and forms. -/
def bootRegistry : Registry :=
  let r := Ty.builtins.foldl Registry.addType {}
  { r with
    nextId := Ty.builtins.length + 1
    macros := Macro.builtins.foldl (fun d m => d.insert m.1 m.2) ∅ }

/-- What the threads of a new engine share. -/
def boot (config : Config) (log : Log.Logger) (host : Host) : Shared :=
  let s : Shared := { config, log, host, registry := bootRegistry }
  let s := s.note .debug Phase.vm.target fun _ => s!"bootstrapped {Ty.builtins.length} builtin types"
  let s := Signature.library.foldl
    (fun s f => (s.addImp f.name f.args f.safety (.native f.native)).2) s
  s.note .debug Phase.vm.target fun _ => "engine ready"

/-- A new engine. -/
def new (config : Config) (log : Log.Logger) (host : Host) : Engine :=
  let (id, s) := (boot config log host).freshId
  { shared := s.note .trace Phase.vm.target fun _ => s!"creating thread {id}"
    thread := { id } }

/-- Lets go of the values on the stack in use. -/
def clear (e : Engine) : Engine :=
  { e with thread := e.thread.modifyStack fun _ => #[] }

end Engine

namespace Run

/-- Makes the functions of a unit known, in order. -/
def defineFuncs : List PendingFunc → Run Unit
  | [] => return ()
  | f :: fs => do
    alterShared fun s => (s.addImp f.name f.args f.safety (.lambda f.body)).2
    defineFuncs fs

/-- Makes the conversions of a unit known, in order. -/
def defineConvs : List PendingConv → Run Unit
  | [] => return ()
  | c :: cs => do
    let f ← newClosure ⟨c.body, ∅⟩
    alterShared fun s => s.addConv c.source c.target f
    defineConvs cs

/-- Compiles text on what the threads share. -/
def compileAt (text : String) (base : Nat) : Run Code := fun m =>
  match Compile.source text base { shared := m.shared } with
  | .ok code c => .ok code { m with shared := c.shared }
  | .error h c => .error h { m with shared := c.shared }

/-- Compiles text behind the operations of the thread and makes known what it defines. Answers where
the new operations begin. -/
def compile (text : String) : Run Nat := do
  let base ← ask (·.ops.size)
  let code ← compileAt text base
  alter fun t => { t with ops := t.ops ++ code.ops.toArray }
  defineFuncs code.funcs
  defineConvs code.convs
  let (id, size) ← ask fun t => (t.id, t.ops.size)
  note .debug fun _ => s!"thread {id} now has {size} ops"
  return base

/-- Runs from a given program counter to the end of the operations. -/
def runFrom (pc : Nat) : Run Unit := do
  alter fun t => { t with pc }
  runAll

/-- Compiles text and runs it. -/
def eval (text : String) : Run Unit := do
  runFrom (← compile text)

end Run

end Catena
