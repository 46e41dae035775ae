import Catena.Engine
import Catena.Log.Config
import Catena.Report

/-!
# Running source text

`execute` runs a text in an engine of its own, `translate` only compiles it, and a session runs one
text after the other in the same engine. Each answers its outcome together with the engine as it is
then, whatever the outcome.
-/

namespace Catena

/-- How source text is run. -/
structure Settings where
  /-- Whether to answer the operations too. -/
  dumpOps : Bool := false
  config : Config := {}
  log : Log.Logger := .silent
deriving Inhabited

/-- Why a text has no outcome. -/
inductive Failure
  | report (r : Report)
  | outOfFuel

namespace Failure

/-- A run that ended early, given how to report its fault. -/
def ofHalt (report : Fault → Report) : Halt → Failure
  | .fault f => .report (report f)
  | .outOfFuel => .outOfFuel

end Failure

namespace Engine

/-- The target of log records about whole executions. -/
def apiTarget : String := "tarn::api"

/-- Logs a message about a whole execution. -/
def note (e : Engine) (level : Log.Level) (message : String) : Engine :=
  { e with shared := e.shared.note level apiTarget fun _ => message }

/-- Compiles a text. Answers where its operations begin. -/
def compile (e : Engine) (source : String) : Except Failure Nat × Engine :=
  match Run.compile source e with
  | .ok base e => (.ok base, e)
  | .error h e => (.error (.ofHalt (Report.ofCompile source) h), e)

/-- Runs the operations from `base` on, which come from the given text. -/
def runFrom (e : Engine) (source : String) (base : Nat) : Except Failure Unit × Engine :=
  match Run.runFrom base e with
  | .ok () e => (.ok (), e)
  | .error h e => (.error (.ofHalt (Report.ofRun source) h), e)

/-- The operations from `base` on, a line each. -/
def listing (e : Engine) (base : Nat) : List String :=
  (e.thread.ops.toList.drop base).map e.shared.store.opText

end Engine

/-- Logs a message before there is an engine. -/
def noteBefore (settings : Settings) (host : Host) (message : String) : Log.Logger × Host :=
  if settings.log.enabled Engine.apiTarget .info then
    settings.log.log host { level := .info, target := Engine.apiTarget, message }
  else (settings.log, host)

/-- Runs a text in an engine of its own. Answers its operations if they are asked for. -/
def execute (settings : Settings) (host : Host) (source : String) :
    Except Failure (Option (List String)) × Engine :=
  let (log, host) := noteBefore settings host "Starting execution"
  match (Engine.new settings.config log host).compile source with
  | (.error f, e) => (.error f, e)
  | (.ok base, e) =>
    let ops := if settings.dumpOps then some (e.listing base) else none
    match e.runFrom source base with
    | (.error f, e) => (.error f, e)
    | (.ok (), e) => (.ok ops, e.note .info "Execution completed")

/-- Compiles a text in an engine of its own. Answers its operations. -/
def translate (settings : Settings) (host : Host) (source : String) :
    Except Failure (List String) × Engine :=
  let (log, host) := noteBefore settings host "Starting compiler"
  match (Engine.new settings.config log host).compile source with
  | (.error f, e) => (.error f, e)
  | (.ok base, e) =>
    let ops := e.listing base
    (.ok ops, e.note .debug s!"compilation completed: ops={ops.length}")

namespace Engine

/-- Compiles and runs one text of a session. Its operations go to the error stream if they are asked
for. -/
def evalText (e : Engine) (dumpOps : Bool) (source : String) : Except Failure Unit × Engine :=
  match e.compile source with
  | (.error f, e) => (.error f, e)
  | (.ok base, e) =>
    let e :=
      if dumpOps then
        let host := (e.listing base).foldl Host.printErrorLine e.shared.host
        { e with shared := { e.shared with host } }
      else e
    e.runFrom source base

end Engine

end Catena
