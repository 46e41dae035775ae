import Catena.Log.Record

/-!
# Command line arguments

Options that set up logging may stand anywhere; one given behind the name of the command counts more
than one given before it. Everything else belongs to a command.
-/

namespace Catena.CommandLine

/-- What the program is asked to do. -/
inductive Command
  | run (file : Option String) (dumpOps showSource : Bool)
  | check (file : Option String) (dumpOps json : Bool)
  | repl (dumpOps : Bool)
deriving DecidableEq, Repr

namespace Command

/-- The command with a given name, without options. -/
def ofName? : String → Option Command
  | "run" => some (run none false false)
  | "check" => some (check none false false)
  | "repl" => some (repl false)
  | _ => none

/-- The command with an option, which it must have and must not have got before. -/
def withFlag? (flag : String) : Command → Option Command
  | run file false showSource =>
    if flag = "--dump-ops" then some (run file true showSource)
    else if flag = "--show-source" && !showSource then some (run file false true) else none
  | run file true false => if flag = "--show-source" then some (run file true true) else none
  | check file false json =>
    if flag = "--dump-ops" then some (check file true json)
    else if flag = "--json" && !json then some (check file false true) else none
  | check file true false => if flag = "--json" then some (check file true true) else none
  | repl false => if flag = "--dump-ops" then some (repl true) else none
  | _ => none

/-- The command with a file, if it takes one and has none. -/
def withFile? (file : String) : Command → Option Command
  | run none dumpOps showSource =>
    if file.isEmpty then none else some (run (some file) dumpOps showSource)
  | check none dumpOps json =>
    if file.isEmpty then none else some (check (some file) dumpOps json)
  | _ => none

end Command

/-- Options about logging. -/
structure Logging where
  level : Option String := none
  /-- Levels of single parts, as given. -/
  parts : List String := []
  format : Option String := none
  file : Option String := none
deriving DecidableEq, Repr

namespace Logging

/-- The options with one more value. Only levels of parts may be given repeatedly. -/
def with? (l : Logging) (name value : String) : Option Logging :=
  match name with
  | "--log-level" => if l.level.isNone then some { l with level := some value } else none
  | "--log" => some { l with parts := l.parts ++ [value] }
  | "--log-format" =>
    if l.format.isNone && ["pretty", "compact", "json"].contains value then
      some { l with format := some value }
    else none
  | "--log-file" =>
    if l.file.isNone && !value.isEmpty then some { l with file := some value } else none
  | _ => none

/-- The names of the options. -/
def names : List String := ["--log-level", "--log", "--log-format", "--log-file"]

/-- The options given before a command and those given behind it. -/
def merge (before after : Logging) : Logging where
  level := after.level.or before.level
  parts := if after.parts.isEmpty then before.parts else after.parts
  format := after.format.or before.format
  file := after.file.or before.file

end Logging

/-- What a list of arguments comes to. -/
inductive Parsed
  | command (logging : Logging) (command : Command)
  | help
  | misuse
deriving DecidableEq, Repr

/-- An argument that is an option: it has a dash in front of something else. -/
def isOption (arg : String) : Bool :=
  arg.startsWith "-" && arg.length > 1

/-- The name and the value of an option with an equals sign. -/
def splitValue (arg : String) : String × Option String :=
  let cs := arg.toList
  if cs.contains '=' then
    (String.ofList (cs.takeWhile (· ≠ '=')), some (String.ofList ((cs.dropWhile (· ≠ '=')).drop 1)))
  else (arg, none)

/-- An option about logging at the front: the options with it, and the arguments left. `none` if
there is no such option or its value is missing or refused. -/
def takeLogging? (l : Logging) : List String → Option (Logging × List String)
  | [] => none
  | arg :: args =>
    let (name, value?) := splitValue arg
    if Logging.names.contains name then
      match value?, args with
      | some value, args => (l.with? name value).map (·, args)
      | none, value :: args =>
        if isOption value then none else (l.with? name value).map (·, args)
      | none, [] => none
    else none

theorem takeLogging?_length {l m : Logging} {args rest : List String}
    (h : takeLogging? l args = some (m, rest)) : rest.length < args.length := by
  unfold takeLogging? at h
  split at h
  · contradiction
  · next arg args =>
    simp only at h
    split at h
    · split at h
      · obtain ⟨_, _, he⟩ := Option.map_eq_some_iff.1 h
        simp only [Prod.mk.injEq] at he
        obtain ⟨_, rfl⟩ := he
        simp
      · split at h
        · contradiction
        · obtain ⟨_, _, he⟩ := Option.map_eq_some_iff.1 h
          simp only [Prod.mk.injEq] at he
          obtain ⟨_, rfl⟩ := he
          simp only [List.length_cons]; omega
      · contradiction
    · contradiction

/-- The files of a command when all arguments left are files. -/
def takeFiles (l : Logging) (c : Command) : List String → Parsed
  | [] => .command l c
  | file :: files =>
    match c.withFile? file with
    | some c => takeFiles l c files
    | none => .misuse

/-- Reads the arguments behind the name of a command; `before` are the options before it. -/
def parseCommand (before after : Logging) (c : Command) (args : List String) : Parsed :=
  match args with
  | [] => .command (before.merge after) c
  | arg :: rest =>
    if arg = "--help" || arg = "-h" then .help
    else if arg = "--" then takeFiles (before.merge after) c rest
    else
      match h : takeLogging? after (arg :: rest) with
      | some (after, left) =>
        have : left.length < rest.length + 1 := takeLogging?_length h
        parseCommand before after c left
      | none =>
        let next := if isOption arg then c.withFlag? arg else c.withFile? arg
        match next with
        | some c => parseCommand before after c rest
        | none => .misuse
termination_by args.length

/-- Reads all arguments. -/
def parse (l : Logging) (args : List String) : Parsed :=
  match args with
  | [] => .misuse
  | arg :: rest =>
    if arg = "--help" || arg = "-h" || arg = "help" then .help
    else
      match h : takeLogging? l (arg :: rest) with
      | some (l, left) =>
        have : left.length < rest.length + 1 := takeLogging?_length h
        parse l left
      | none =>
        match Command.ofName? arg with
        | some c => parseCommand l {} c rest
        | none => .misuse
termination_by args.length

/-! ## Levels -/

/-- The level a word stands for. -/
def level (word : String) : Except String Log.Level :=
  match Log.Level.ofName? word with
  | some l => .ok l
  | none => .error (Log.Level.unknownMessage word)

/-- Refuses a level of a part that is not written as it should be. -/
def checkPart (parts : List String) (directive : String) : Except String Unit := do
  match splitValue directive with
  | (part, some word) =>
    let _ ← level word
    if parts.contains part then return () else throw s!"unknown phase '{part}'"
  | (_, none) => throw s!"expected PHASE=LEVEL, got '{directive}'"

end Catena.CommandLine
