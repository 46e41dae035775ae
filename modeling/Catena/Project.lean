import Catena.Config
import Catena.Json
import Catena.Log.Record

/-!
# Project files

A project file is a JSON text that names the entry source and the settings to run it with. Settings
are objects, or arrays that give the fields in order. A field may be left out if it has a default,
may not be given twice, and unknown fields are skipped.
-/

namespace Catena

/-- What a project file says. -/
structure Project where
  /-- The entry source. -/
  entry : String
  logLevel : Option Log.Level := none
  /-- Compile without running. -/
  compileOnly : Bool := false
  /-- Show the source before running. -/
  showSource : Bool := false
  dumpOps : Bool := false
  config : Config := {}
deriving DecidableEq, Repr

namespace Json

/-- The value of each of the given fields, if it is there. -/
def fields? (names : List String) : Json → Option (List (Option Json))
  | object members => do
    let named ← members.mapM fun m => (textOf? m.1).map fun key => (key, m.2)
    names.mapM fun name =>
      match named.filter fun m => m.1 = name with
      | [] => some none
      | [m] => some (some m.2)
      | _ => none
  | array items =>
    if items.length ≤ names.length then
      some ((List.range names.length).map fun i => items[i]?)
    else none
  | _ => none

/-- A field that has a default. -/
def orDefault {α : Type} (default : α) (read : Json → Option α) : Option Json → Option α
  | none => some default
  | some v => read v

/-- A number from 0 to 2 ^ 64 - 1. -/
def index? : Json → Option Nat
  | number text => Text.index? text
  | _ => none

def bool? : Json → Option Bool
  | bool b => some b
  | _ => none

def text? : Json → Option String
  | string units => textOf? units
  | _ => none

end Json

namespace Log.Level

/-- The level that a project file names. -/
def ofLowerName? (text : String) : Option Level :=
  [trace, debug, info, warn, error].find? fun l => l.name.toLower == text

/-- A level as a project file gives it: its name, or an object with the name as only key, whose value
is null. -/
def ofJson? : Json → Option Level
  | .string units => (Json.textOf? units).bind ofLowerName?
  | .object [(key, .null)] => (Json.textOf? key).bind ofLowerName?
  | _ => none

end Log.Level

/-- Settings of the compiler as a project file gives them. -/
def CompilerConfig.ofJson? (j : Json) : Option CompilerConfig := do
  match ← j.fields? ["max_passes", "fold_constants"] with
  | [passes, fold] =>
    return {
      maxPasses := ← Json.orDefault ({} : CompilerConfig).maxPasses Json.index? passes
      foldConstants := ← Json.orDefault ({} : CompilerConfig).foldConstants Json.bool? fold }
  | _ => none

/-- Limits as a project file gives them. -/
def Limits.ofJson? (j : Json) : Option Limits := do
  let default : Limits := {}
  let names :=
    ["max_stack_size", "max_scope_depth", "poll_set_size", "backoff_min_ms", "backoff_max_ms"]
  match ← j.fields? names with
  | [stack, scopes, poll, backoffMin, backoffMax] =>
    return {
      maxStackSize := ← Json.orDefault default.maxStackSize Json.index? stack
      maxScopeDepth := ← Json.orDefault default.maxScopeDepth Json.index? scopes
      pollSetSize := ← Json.orDefault default.pollSetSize Json.index? poll
      backoffMin := ← Json.orDefault default.backoffMin Json.index? backoffMin
      backoffMax := ← Json.orDefault default.backoffMax Json.index? backoffMax }
  | _ => none

namespace Project

/-- A level that may be null. -/
def level? : Json → Option (Option Log.Level)
  | .null => some none
  | j => (Log.Level.ofJson? j).map some

/-- What a JSON value says about a project. -/
def ofJson? (j : Json) : Option Project := do
  let names :=
    ["entry", "log_level", "compile_only", "show_source", "dump_ops", "compiler", "limits"]
  match ← j.fields? names with
  | [entry, level, compileOnly, showSource, dumpOps, compiler, limits] =>
    return {
      entry := ← (← entry).text?
      logLevel := ← Json.orDefault none level? level
      compileOnly := ← Json.orDefault false Json.bool? compileOnly
      showSource := ← Json.orDefault false Json.bool? showSource
      dumpOps := ← Json.orDefault false Json.bool? dumpOps
      config :=
        { compiler := ← Json.orDefault {} CompilerConfig.ofJson? compiler
          limits := ← Json.orDefault {} Limits.ofJson? limits } }
  | _ => none

/-- Reads a project file. -/
def parse? (text : String) : Option Project :=
  (Json.parse? text).bind ofJson?

end Project

end Catena
