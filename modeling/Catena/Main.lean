import Catena.CommandLine.Program

/-!
# The executable

Reads the files below the working directory, runs the command line program on them, and writes back
what changed. All decisions are made in `CommandLine.program`.
-/

namespace Catena.Main

/-- Adds directory entries and everything below them to a tree; `names` lead to them. -/
partial def addEntries (names : List String) (entries : Array IO.FS.DirEntry) (t : FileTree) :
    IO FileTree :=
  entries.foldlM (fun t entry => do
    let path := names ++ [entry.fileName]
    match (← entry.path.metadata).type with
    | .dir => addEntries path (← entry.path.readDir) (t.insert path .dir)
    | .file => return t.insert path (.file (← IO.FS.readBinFile entry.path).data)
    | _ => return t) t

/-- The files below the working directory. -/
def readFiles : IO FileTree := do
  addEntries [] (← (← IO.currentDir).readDir) ∅

/-- Writes the files that are new or have changed. -/
def writeFiles (before after : FileTree) : IO Unit := do
  for (path, node) in after.nodes.entries do
    if before.find? path != some node then
      let name := String.intercalate "/" path
      match node with
      | .dir => IO.FS.createDirAll name
      | .file bytes => IO.FS.writeBinFile name ⟨bytes⟩

/-- Everything that can be read from a stream. -/
partial def readAll (input : IO.FS.Stream) (bytes : ByteArray) : IO ByteArray := do
  let chunk ← input.read 65536
  if chunk.isEmpty then return bytes else readAll input (bytes ++ chunk)

end Catena.Main

open Catena in
/-- Runs the program on the arguments, the standard input and the working directory. -/
def main (args : List String) : IO UInt32 := do
  let files ← Main.readFiles
  let input ←
    if CommandLine.readsInput args then Main.readAll (← IO.getStdin) .empty else pure .empty
  let outcome := CommandLine.program args input.data { files }
  Main.writeFiles files outcome.host.files
  (← IO.getStdout).putStr outcome.host.stdout
  (← IO.getStderr).putStr outcome.host.stderr
  return outcome.code
