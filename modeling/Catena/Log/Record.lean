import Catena.Text.Number

/-!
# Log records

A record has a level, a target (the part of the engine it comes from), a message, the time and
maybe the thread that it is about.
-/

namespace Catena.Log

/-- How much a record matters. -/
inductive Level
  | trace
  | debug
  | info
  | warn
  | error
deriving DecidableEq, Repr, Inhabited

namespace Level

/-- The place of the level in the order. -/
def rank : Level → Nat
  | trace => 0
  | debug => 1
  | info => 2
  | warn => 3
  | error => 4

instance : LE Level := ⟨fun a b => a.rank ≤ b.rank⟩

instance (a b : Level) : Decidable (a ≤ b) := inferInstanceAs (Decidable (a.rank ≤ b.rank))

/-- The word for the level. -/
def name : Level → String
  | trace => "TRACE"
  | debug => "DEBUG"
  | info => "INFO"
  | warn => "WARN"
  | error => "ERROR"

/-- The level with a given rank. -/
def ofRank? (n : Nat) : Option Level :=
  [trace, debug, info, warn, error][n]?

/-- The level a word stands for, in any case; `silent` keeps errors only. -/
def ofName? (text : String) : Option Level :=
  match text.toLower with
  | "trace" => some trace
  | "debug" => some debug
  | "info" => some info
  | "warn" | "warning" => some warn
  | "error" | "silent" => some error
  | _ => none

/-- What is said about a word that stands for no level. -/
def unknownMessage (text : String) : String :=
  s!"Unknown log level: {text}"

end Level

/-- One entry of a log. -/
structure Record where
  /-- Milliseconds since the epoch. -/
  time : Nat := 0
  level : Level
  target : String
  message : String
  thread : Option Nat := none
deriving DecidableEq, Repr

/-- Hours, minutes, seconds and milliseconds of the day. -/
def timeText (ms : Nat) : String :=
  let secs := ms / 1000
  Text.zeroPadded 2 (secs / 3600 % 24) ++ ":" ++ Text.zeroPadded 2 (secs / 60 % 60) ++ ":" ++
    Text.zeroPadded 2 (secs % 60) ++ "." ++ Text.zeroPadded 3 (ms % 1000)

namespace Record

/-- The record without its time. -/
def body (r : Record) : String :=
  let thread :=
    match r.thread with
    | some id => s!" [thread={id}]"
    | none => ""
  s!"{r.level.name} {r.target}{thread}: {r.message}"

/-- The record as one line. -/
def text (r : Record) : String :=
  s!"[{timeText r.time}] {r.body}"

end Record

end Catena.Log
