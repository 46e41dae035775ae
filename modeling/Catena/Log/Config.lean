import Catena.Log.Logger

/-!
# Logger configurations

A configuration is a recipe for a logger: its level, the levels of some targets and a list of
outputs. Setting it up opens the log files; one that cannot be opened is left out.
-/

namespace Catena.Log

/-- Where a configured logger writes. -/
inductive Output
  | stdout
  | stderr
  | file (path : String)
  | ring (capacity : Nat)
deriving DecidableEq, Repr

/-- A recipe for a logger. -/
structure Config where
  level : Level
  targets : List (String × Level) := []
  outputs : List Output := []
deriving DecidableEq, Repr

namespace Config

/-- For development: everything but traces, on the screen and in a large ring. -/
def dev : Config := { level := .debug, outputs := [.stdout, .ring 10000] }

/-- For production: warnings and errors, on the error stream and in a ring. -/
def production : Config := { level := .warn, outputs := [.stderr, .ring 1000] }

/-- For tests: no output. -/
def test : Config := { level := .error }

/-- Adds standard output once. -/
def withStdout (c : Config) : Config :=
  if c.outputs.contains .stdout then c else { c with outputs := c.outputs ++ [.stdout] }

/-- Adds the error stream once. -/
def withStderr (c : Config) : Config :=
  if c.outputs.contains .stderr then c else { c with outputs := c.outputs ++ [.stderr] }

/-- Adds a file. -/
def withFile (c : Config) (path : String) : Config :=
  { c with outputs := c.outputs ++ [.file path] }

/-- Adds a ring. -/
def withRing (c : Config) (capacity : Nat) : Config :=
  { c with outputs := c.outputs ++ [.ring capacity] }

/-- Sets the level of a target, in place of an earlier setting. -/
def withTarget (c : Config) (target : String) (level : Level) : Config :=
  { c with targets := (c.targets.filter fun t => t.1 ≠ target) ++ [(target, level)] }

/-- Adds one output to a logger. -/
def addOutput (state : Logger × Host) (o : Output) : Logger × Host :=
  let (l, h) := state
  match o with
  | .stdout => (l.addSink .stdout, h)
  | .stderr => (l.addSink .stderr, h)
  | .ring capacity => (l.addSink (.ring (Ring.new capacity)), h)
  | .file path =>
    match h.files.openFile path .append with
    | .ok (handle, files) => (l.addSink (.file handle.path), { h with files })
    | .error _ => (l, h)

/-- The logger of a configuration. -/
def setUp (c : Config) (h : Host) : Logger × Host :=
  let l : Logger := { level := c.level }
  let l := c.targets.foldl (fun l t => l.setTarget t.1 t.2) l
  c.outputs.foldl addOutput (l, h)

end Config

end Catena.Log
