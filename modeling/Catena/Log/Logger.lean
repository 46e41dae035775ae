import Catena.Host
import Catena.Log.Ring

/-!
# Loggers

A logger has a level, levels for targets that begin in certain ways, and sinks. A record reaches
the sinks when its level is at least the one in force for its target: that of the longest matching
beginning, or the logger's own. A sink may itself be a logger, which filters again.
-/

namespace Catena.Log

/-- Levels for targets, longest beginning first. -/
abbrev Overrides := List (String × Level)

/-- Where records go. -/
inductive Sink
  | stdout
  | stderr
  | file (path : List String)
  | ring (ring : Ring)
  | logger (level : Level) (overrides : Overrides) (sinks : List Sink)

/-- The level in force for a target. -/
def levelFor (level : Level) (overrides : Overrides) (target : String) : Level :=
  match overrides.find? fun o => o.1.isPrefixOf target with
  | some o => o.2
  | none => level

/-- Appends a line to a file. -/
def appendLine (h : Host) (path : List String) (line : String) : Host :=
  let bytes := h.files.bytesAt path ++ Text.Utf8.encode (line ++ "\n")
  { h with files := h.files.insert path (.file bytes) }

mutual

/-- Hands a record to a sink. -/
def Sink.write (r : Record) (h : Host) : Sink → Sink × Host
  | .stdout => (.stdout, h.printLine r.text)
  | .stderr => (.stderr, h.printErrorLine r.text)
  | .file path => (.file path, appendLine h path r.text)
  | .ring ring => (.ring (ring.push r), h)
  | .logger level overrides sinks =>
    if levelFor level overrides r.target ≤ r.level then
      let (sinks, h) := writeEach r h sinks
      (.logger level overrides sinks, h)
    else (.logger level overrides sinks, h)

/-- Hands a record to each of the sinks in turn. -/
def writeEach (r : Record) (h : Host) : List Sink → List Sink × Host
  | [] => ([], h)
  | s :: sinks =>
    let (s, h) := s.write r h
    let (sinks, h) := writeEach r h sinks
    (s :: sinks, h)

end

/-- A logger. -/
structure Logger where
  level : Level
  overrides : Overrides := []
  sinks : List Sink := []

namespace Logger

/-- A logger that writes nothing. -/
def silent : Logger := { level := .error }

instance : Inhabited Logger := ⟨silent⟩

/-- The level in force for a target. -/
def levelFor (l : Logger) (target : String) : Level :=
  Log.levelFor l.level l.overrides target

/-- Whether records of a level and target are let through. -/
def enabled (l : Logger) (target : String) (level : Level) : Bool :=
  decide (l.levelFor target ≤ level)

/-- Puts an override before the first that is shorter. -/
def place (o : String × Level) : Overrides → Overrides
  | [] => [o]
  | o' :: rest =>
    if o'.1.utf8ByteSize < o.1.utf8ByteSize then o :: o' :: rest else o' :: place o rest

/-- Sets the level for targets that begin with `target`. -/
def setTarget (l : Logger) (target : String) (level : Level) : Logger :=
  { l with overrides := place (target, level) (l.overrides.filter fun o => o.1 ≠ target) }

/-- Adds a sink. -/
def addSink (l : Logger) (s : Sink) : Logger :=
  { l with sinks := l.sinks ++ [s] }

/-- Writes a record if its level is let through. -/
def log (l : Logger) (h : Host) (r : Record) : Logger × Host :=
  if l.enabled r.target r.level then
    let (sinks, h) := writeEach { r with time := h.clock } h l.sinks
    ({ l with sinks }, h)
  else (l, h)

/-- The ring that was added last. -/
def ring? (l : Logger) : Option Ring :=
  l.sinks.foldl (fun found s =>
    match s with
    | .ring r => some r
    | _ => found) none

/-- Changes the ring that was added last. -/
def modifyRing (l : Logger) (f : Ring → Ring) : Logger :=
  let rec go : List Sink → List Sink × Bool
    | [] => ([], false)
    | s :: rest =>
      let (rest, found) := go rest
      match s, found with
      | .ring r, false => (.ring (f r) :: rest, true)
      | s, found => (s :: rest, found)
  { l with sinks := (go l.sinks).1 }

/-- The rings of the loggers among the sinks. -/
def chainedRings (l : Logger) : List Ring :=
  l.sinks.filterMap fun s =>
    match s with
    | .logger level overrides sinks => Logger.ring? ⟨level, overrides, sinks⟩
    | _ => none

end Logger

end Catena.Log
