import Catena.Config
import Catena.Fault
import Catena.Json
import Catena.Text.Lines

/-!
# Reports

A fault as it is shown to whoever wrote the source: which part of the engine found it, and the line
and column where it is known.
-/

namespace Catena

/-- A fault with its phase and place. -/
structure Report where
  phase : Phase
  place : Option Text.Place
  fault : Fault
deriving DecidableEq, Repr

namespace Report

/-- The place of a fault in its source. -/
def locate (source : String) (f : Fault) : Option Text.Place :=
  f.pos.map (Text.position source)

/-- A fault met while source text was compiled. Unbalanced braces and unterminated strings are put
down to the lexer. -/
def ofCompile (source : String) (f : Fault) : Report :=
  let phase :=
    match f.kind with
    | .unbalancedBraces | .unterminatedString => .lexer
    | _ => .compiler
  ⟨phase, locate source f, f⟩

/-- A fault met while a program ran. -/
def ofRun (source : String) (f : Fault) : Report :=
  ⟨.vm, locate source f, f⟩

/-- What kind of error it is, by its phase. -/
def title (r : Report) : String :=
  match r.phase with
  | .lexer => "Lexer error"
  | .compiler => "Compile error"
  | _ => "Runtime error"

/-- The report as a sentence. -/
def text (r : Report) : String :=
  let place := r.place.elim "" fun p => s!"{p.line}:{p.column}: "
  s!"{r.title}: {place}{r.fault.text}"

/-- The report as a command line shows it. -/
def line (r : Report) : String :=
  let place := r.place.elim r.phase.name fun p => s!"{p.line}:{p.column}"
  s!"[{place}] {r.phase.name} error ({r.fault.kind.name}): {r.fault.message}"

/-- Phase and message. -/
def short (r : Report) : String :=
  s!"{r.phase.name}: {r.fault.message}"

/-- The report as a JSON object. -/
def json (r : Report) : String :=
  let number (f : Text.Place → Nat) : String := r.place.elim "null" fun p => toString (f p)
  let fields :=
    [("phase", Json.quote r.phase.name), ("line", number (·.line)), ("column", number (·.column)),
     ("error_kind", Json.quote r.fault.kind.name), ("message", Json.quote r.fault.message)]
  "\x7b" ++ String.intercalate "," (fields.map fun f => Json.quote f.1 ++ ":" ++ f.2) ++ "\x7d"

end Report

end Catena
