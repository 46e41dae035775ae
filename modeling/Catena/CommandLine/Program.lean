import Catena.CommandLine.Arguments
import Catena.CommandLine.Display
import Catena.Project
import Catena.Session

/-!
# The command line program

`run` executes a source, `check` only compiles it, and `repl` runs the groups of lines it reads one
after the other. Without a file, the source is the entry of the project file. The program is a
function of its arguments, its input and the files; the outcome holds what it printed and the files
as it left them.
-/

namespace Catena.CommandLine

/-- The project file. -/
def projectFile : String := "tarn.json"

/-- What the program leaves behind. -/
structure Outcome where
  code : UInt32
  host : Host

/-- Prints lines. -/
def printLines (h : Host) (lines : List String) : Host :=
  lines.foldl Host.printLine h

/-- Prints lines to the error stream. -/
def printErrorLines (h : Host) (lines : List String) : Host :=
  lines.foldl Host.printErrorLine h

/-- A failure before anything is run. -/
def refuse (h : Host) (message : String) : Outcome :=
  ⟨1, h.printErrorLine s!"Error: {message}"⟩

/-- What is said about a file that cannot be read. -/
def unreadable (path : String) (e : FileError) : String :=
  s!"cannot read '{path}': {e.message}"

/-- Reads a text. -/
def readText (h : Host) (path : String) : Except String String :=
  match h.files.readText path with
  | .ok text => .ok text
  | .error e => .error (unreadable path e)

/-- Reads the project file. -/
def readProject (h : Host) : Except String Project := do
  if !h.files.present projectFile then
    throw s!"未找到 '{projectFile}'\n\n当前目录不是一个 Tarn 项目。\n提示: 创建 '{projectFile}' 文件并指定 'entry' 字段"
  match Project.parse? (← readText h projectFile) with
  | none => throw s!"解析 '{projectFile}' 失败: "
  | some p =>
    if p.entry.isEmpty then throw s!"'{projectFile}' 中的 'entry' 字段不能为空"
    return p

/-- Checks the options about logging and opens the log file, which is made if it is not there. -/
def setUpLogging (h : Host) (l : Logging) : Except String Host := do
  if let some word := l.level then
    let _ ← level word
  for directive in l.parts do
    checkPart (Phase.all.map Phase.name) directive
  match l.file with
  | none => return h
  | some path =>
    match h.files.openFile path .append with
    | .ok (_, files) => return { h with files }
    | .error e => throw (unreadable path e)

/-- How the outcome of a text that failed is printed. -/
def failed (h : Host) (source : String) (json : Bool) : Failure → Outcome
  | .report r =>
    if json then ⟨1, h.printLine r.json⟩ else ⟨1, printErrorLines h (reportLines source r)⟩
  | .outOfFuel => ⟨1, h⟩

/-- Compiles a source and says how many operations it has. -/
def check (h : Host) (settings : Settings) (source : String) (json : Bool) : Outcome :=
  match translate settings h source with
  | (.error f, e) => failed e.shared.host source json f
  | (.ok ops, e) =>
    let h := if settings.dumpOps then printLines e.shared.host (listing ops) else e.shared.host
    let answer :=
      if json then "\x7b\"ok\":true,\"ops\":" ++ toString ops.length ++ "\x7d"
      else s!"ok: {ops.length} operations"
    ⟨0, h.printLine answer⟩

/-- Runs a source and prints the values it leaves. -/
def run (h : Host) (settings : Settings) (source : String) : Outcome :=
  match execute settings h source with
  | (.error f, e) => failed e.shared.host source false f
  | (.ok ops, e) =>
    let h := printLines e.shared.host (ops.elim [] listing)
    let values := e.thread.stack.toList.map e.shared.store.dump
    ⟨0, if values.isEmpty then h else h.printLine (String.intercalate " " values)⟩

/-- Runs a group of lines in a session and prints the value on top. -/
def evalGroup (dumpOps : Bool) (e : Engine) (group : String) : Engine :=
  match e.evalText dumpOps group with
  | (.error f, e) =>
    let outcome := failed e.shared.host group false f
    { e with shared := { e.shared with host := outcome.host } }
  | (.ok (), e) =>
    match e.thread.top? with
    | none => e
    | some v =>
      let line := e.shared.store.dump v ++ " : " ++ v.ty.name
      { e with shared := { e.shared with host := e.shared.host.printLine line } }

/-- Runs the groups of lines of an input in one session. -/
def repl (h : Host) (settings : Settings) (input : Array UInt8) : Outcome :=
  match Text.Utf8.decode? input with
  | none => refuse h (unreadable "<stdin>" .notText)
  | some text =>
    let e := (Text.groups text).foldl (evalGroup settings.dumpOps)
      (Engine.new settings.config settings.log h)
    ⟨0, e.shared.host⟩

/-- The project a command needs: commands on sources need one unless they have a file. -/
def projectOf (h : Host) : Command → Except String (Option Project)
  | .run none .. | .check none .. => (readProject h).map some
  | _ => .ok none

/-- The path of the source of a command. -/
def sourcePath (file : Option String) (project : Option Project) : String :=
  file.getD (project.elim "" (·.entry))

/-- Carries out a command. -/
def carryOut (h : Host) (input : Array UInt8) (project : Option Project) (c : Command) : Outcome :=
  let config := project.elim {} (·.config)
  match c with
  | .run file dumpOps showSource =>
    match readText h (sourcePath file project) with
    | .error message => refuse h message
    | .ok source =>
      let settings : Settings := { dumpOps := dumpOps || project.any (·.dumpOps), config }
      let h :=
        if showSource || project.any (·.showSource) then
          printLines h (["[Source]"] ++ numbered source ++ ["[Execution Result]"])
        else h
      if project.any (·.compileOnly) then check h settings source false
      else run h settings source
  | .check file dumpOps json =>
    match readText h (sourcePath file project) with
    | .error message => refuse h message
    | .ok source => check h { dumpOps, config } source json
  | .repl dumpOps => repl h { dumpOps, config } input

/-- How the program is used. -/
def usage : List String :=
  ["Tarn - a stack-based concatenative language", "", "Usage: tarn [OPTIONS] <COMMAND>", "",
   "Commands:", "  run    Compile and run a source file",
   "  check  Compile a source file without running it", "  repl   Interactive session"]

/-- Whether the program reads its input. -/
def readsInput (args : List String) : Bool :=
  parse {} args matches .command _ (.repl _)

/-- The whole program. -/
def program (args : List String) (input : Array UInt8) (h : Host) : Outcome :=
  match parse {} args with
  | .help => ⟨0, printLines h usage⟩
  | .misuse => ⟨2, printErrorLines h usage⟩
  | .command logging c =>
    match projectOf h c with
    | .error message => refuse h message
    | .ok project =>
      match setUpLogging h logging with
      | .error message => refuse h message
      | .ok h => carryOut h input project c

end Catena.CommandLine
