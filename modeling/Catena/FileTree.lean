import Catena.Dict
import Catena.Text.Utf8

/-!
# Files and directories

The files a program can reach, as a tree below the working directory. Nothing is ever removed, so a
file is known by its path for good. Failures carry the wording and the number of the operating
system.
-/

namespace Catena

/-- Why an operation on files fails. -/
inductive FileError
  | notFound
  | badDescriptor
  | notADirectory
  | isADirectory
  | nameTooLong
  | nulInName
  | notText
deriving DecidableEq, Repr

namespace FileError

def message : FileError → String
  | notFound => "No such file or directory (os error 2)"
  | badDescriptor => "Bad file descriptor (os error 9)"
  | notADirectory => "Not a directory (os error 20)"
  | isADirectory => "Is a directory (os error 21)"
  | nameTooLong => "File name too long (os error 36)"
  | nulInName => "file name contained an unexpected NUL byte"
  | notText => "stream did not contain valid UTF-8"

end FileError

/-- A directory or a file with its bytes. -/
inductive Node
  | dir
  | file (bytes : Array UInt8)
deriving DecidableEq, Repr, Inhabited

/-- The files below the working directory, by the names on the way to them. -/
structure FileTree where
  nodes : Dict (List String) Node
deriving Repr

namespace FileTree

instance : EmptyCollection FileTree := ⟨⟨∅⟩⟩

instance : Inhabited FileTree := ⟨∅⟩

/-- The node at a path of names; the empty path is the working directory. -/
def find? (t : FileTree) (path : List String) : Option Node :=
  if path.isEmpty then some .dir else t.nodes.find? path

/-- Writes a node. -/
def insert (t : FileTree) (path : List String) (node : Node) : FileTree :=
  ⟨t.nodes.insert path node⟩

/-- Makes the directories on the way to a path. -/
def makeParents (t : FileTree) (path : List String) : FileTree :=
  (List.range path.length).foldl (fun t n =>
    let dir := path.take n
    if (t.find? dir).isSome then t else t.insert dir .dir) t

/-- The names in a directory, in order of their bytes. -/
def children (t : FileTree) (dir : List String) : List String :=
  let names := t.nodes.entries.filterMap fun e =>
    if e.1.dropLast = dir then e.1.getLast? else none
  names.mergeSort fun a b => a ≤ b

/-- The names a path is made of, split at slashes. -/
def components (path : String) : List String :=
  (path.splitOn "/").filter fun c => c ≠ "" ∧ c ≠ "."

/-- Follows names from a directory. Each name but the last must lead to a directory; the answer is
the path reached, which may not exist if only its last name is new. -/
def follow (t : FileTree) (here : List String) : List String → Except FileError (List String)
  | [] => .ok here
  | name :: rest =>
    match t.find? here with
    | none => .error .notFound
    | some (.file _) => .error .notADirectory
    | some .dir =>
      if name = ".." then
        if here.isEmpty then .error .notFound else follow t here.dropLast rest
      else if name.utf8ByteSize > 255 then .error .nameTooLong
      else follow t (here ++ [name]) rest

/-- The most bytes of a path. -/
def maxPathSize : Nat := 4095

/-- The path that a text leads to, which may not exist if only its last name is new. -/
def lead (t : FileTree) (path : String) : Except FileError (List String) :=
  if path.toList.contains '\x00' then .error .nulInName
  else if path.isEmpty then .error .notFound
  else if maxPathSize < path.utf8ByteSize then .error .nameTooLong
  else if path.startsWith "/" && !(components path).isEmpty then .error .notFound
  else follow t [] (components path)

/-- The path that a text names. A text that ends in a slash, or in a slash and a dot, names a
directory only. -/
def resolve (t : FileTree) (path : String) : Except FileError (List String) := do
  let found ← t.lead path
  if path.endsWith "/" || path.endsWith "/." then
    match t.find? found with
    | some .dir => .ok found
    | some (.file _) => .error .notADirectory
    | none => .error .notFound
  else .ok found

/-- Whether a text names a directory. -/
def isDir (t : FileTree) (path : String) : Bool :=
  match t.resolve path with
  | .ok p => t.find? p == some .dir
  | .error _ => false

/-- Whether a text names anything. -/
def present (t : FileTree) (path : String) : Bool :=
  match t.resolve path with
  | .ok p => (t.find? p).isSome
  | .error _ => false

/-- The bytes of the file at a path of names. -/
def bytesAt (t : FileTree) (path : List String) : Array UInt8 :=
  match t.find? path with
  | some (.file bytes) => bytes
  | _ => #[]

/-- The text of a file. -/
def readText (t : FileTree) (path : String) : Except FileError String := do
  let p ← t.resolve path
  match t.find? p with
  | none => .error .notFound
  | some .dir => .error .isADirectory
  | some (.file bytes) =>
    match Text.Utf8.decode? bytes with
    | some text => .ok text
    | none => .error .notText

/-- How a file is opened. -/
inductive Mode
  | read
  | write
  | append
  | readWrite
deriving DecidableEq, Repr, Inhabited

namespace Mode

/-- The mode a word stands for. -/
def ofName? (text : String) : Option Mode :=
  match text with
  | "r" => some read
  | "w" => some write
  | "a" => some append
  | "rw" => some readWrite
  | _ => none

def reads : Mode → Bool
  | read | readWrite => true
  | _ => false

def writes : Mode → Bool
  | read => false
  | _ => true

end Mode

/-- An open file: the text it was opened by, its path, its mode and where it reads and writes
next. -/
structure Handle where
  name : String
  path : List String
  mode : Mode
  offset : Nat := 0
deriving DecidableEq, Repr, Inhabited

/-- Opens a file. All modes but reading make it if it is not there, and refuse a text that ends in a
slash; writing empties it. -/
def openFile (t : FileTree) (name : String) (mode : Mode) : Except FileError (Handle × FileTree) := do
  if mode.writes && name.endsWith "/" then
    let _ ← t.lead name
    throw .isADirectory
  let path ← t.resolve name
  let handle : Handle := { name, path, mode }
  match t.find? path with
  | some .dir => if mode.writes then .error .isADirectory else .ok (handle, t)
  | some (.file _) =>
    if mode = .write then .ok (handle, t.insert path (.file #[])) else .ok (handle, t)
  | none => if mode.writes then .ok (handle, t.insert path (.file #[])) else .error .notFound

/-- Reads at most `count` bytes where the handle stands. -/
def readChunk (t : FileTree) (h : Handle) (count : Nat) :
    Except FileError (Array UInt8 × Handle) :=
  if !h.mode.reads then .error .badDescriptor
  else
    match t.find? h.path with
    | some .dir => .error .isADirectory
    | some (.file bytes) =>
      let chunk := bytes.extract h.offset (h.offset + count)
      .ok (chunk, { h with offset := h.offset + chunk.size })
    | none => .ok (#[], h)

/-- The bytes with `data` written over them from `offset` on; a gap is filled with zeros. -/
def overwrite (bytes data : Array UInt8) (offset : Nat) : Array UInt8 :=
  bytes.extract 0 offset ++ Array.replicate (offset - bytes.size) 0 ++ data ++
    bytes.extract (offset + data.size) bytes.size

/-- Writes all bytes where the handle stands, or at the end of the file when it appends. Writing
nothing always succeeds. -/
def writeAll (t : FileTree) (h : Handle) (data : Array UInt8) :
    Except FileError (Handle × FileTree) :=
  if data.isEmpty then .ok (h, t)
  else if !h.mode.writes then .error .badDescriptor
  else
    let bytes := t.bytesAt h.path
    let offset := if h.mode = .append then bytes.size else h.offset
    .ok ({ h with offset := offset + data.size },
      t.insert h.path (.file (overwrite bytes data offset)))

end FileTree

end Catena
