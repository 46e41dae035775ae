import Catena.Library.Collections

/-!
# Files, directories, sockets and printing

The library functions that reach outside the engine.
-/

namespace Catena

namespace Socket

/-- The text after the last colon. -/
def portText? (address : String) : Option (List Char) :=
  if address.toList.contains ':' then
    some (address.toList.reverse.takeWhile (· ≠ ':')).reverse
  else none

/-- A decimal port number, which may have a plus sign. -/
def port? (text : List Char) : Option Nat :=
  let digits :=
    match text with
    | '+' :: ds => ds
    | ds => ds
  (Text.digits? digits).filter (· < 65536)

/-- Refuses a text that is not a host and a port. -/
def checkAddress (address : String) : Except Fault Unit :=
  match portText? address with
  | none => .error (Fault.io "invalid socket address")
  | some text =>
    match port? text with
    | none => .error (Fault.io "invalid port value")
    | some _ => .ok ()

end Socket

namespace Run

/-- Opens the file with a given path in a given mode. -/
def openFile : Run Reply := do
  let word ← popStr
  let path ← popStr
  let mode ← orFail (Fault.fileMode word) (FileTree.Mode.ofName? word)
  let files ← askShared (·.host.files)
  match files.openFile path mode with
  | .error e => fail (Fault.io s!"{path}: {e.message}")
  | .ok (handle, files) =>
    alterShared fun s => { s with host := { s.host with files } }
    let f ← alloc (·.files.size) fun s => { s with files := s.files.push handle }
    push ⟨.file, .file f⟩
    return .next

/-- An iterator over what can be read from a file or socket, a chunk at a time. -/
def readIter : Run Reply := do
  let v ← pop
  match v.ty.behavior, v.payload with
  | .file, .file f => pushIter (.readFile f) .bin
  | .file, _ => fail (Fault.mismatch "File" v.ty.name)
  | .socket, .socket s => pushIter (.readSocket s) .bin
  | .socket, _ => fail (Fault.mismatch "Socket" v.ty.name)
  | _, _ => fail (Fault.mismatch "stream" v.ty.name)

/-- Writes bytes to a file. -/
def writeFile (f : Ref) (bytes : Array UInt8) : Run Unit := do
  let files ← askShared (·.host.files)
  let handle ← askStore fun s => s.files[f]?.getD default
  match files.writeAll handle bytes with
  | .error e => fail (Fault.io e.message)
  | .ok (handle, files) =>
    alterShared fun s =>
      { s with
        host := { s.host with files }
        store := { s.store with files := s.store.files.setIfInBounds f handle } }

/-- The bytes of a value: those of binary data, and otherwise of the value as printed. -/
def bytesOf (v : Value) : Run (Array UInt8) :=
  match v.payload with
  | .bin b => askStore (·.binAt b)
  | _ => askStore fun s => Text.Utf8.encode (s.display v)

/-- Writes bytes to a connection, as many at a time as it takes. -/
def writeSocket (s : Ref) : (fuel : Nat) → List UInt8 → Run Unit
  | _, [] => pure ()
  | 0, _ => exhausted
  | fuel + 1, bytes => do
    if ← askStore (·.listens s) then fail (Fault.io "cannot write to a listening socket")
    match ← askNetwork fun net n => net.write n s bytes with
    | .got 0 => fail (Fault.io "connection closed")
    | .got n => writeSocket s fuel (bytes.drop n)
    | .blocked => writeSocket s fuel bytes
    | .failed message => fail (Fault.io message)

/-- Writes bytes to a stream. -/
def writeTo (target : Value) (bytes : Array UInt8) : Run Unit :=
  match target.ty.behavior, target.payload with
  | .file, .file f => writeFile f bytes
  | .file, _ => fail (Fault.mismatch "File" target.ty.name)
  | .socket, .socket s => writeSocket s stepLimit bytes.toList
  | .socket, _ => fail (Fault.mismatch "Socket" target.ty.name)
  | _, _ => fail (Fault.mismatch "stream" target.ty.name)

/-- Writes a value; the target stays on the stack. -/
def write : Run Reply := do
  let data ← pop
  let target ← peek "write"
  writeTo target (← bytesOf data)
  return .next

def say : Run Reply := do
  let v ← pop
  let line ← askStore fun s => s.display v
  alterShared fun s => { s with host := s.host.printLine line }
  return .next

/-- The entries of a directory, or everything below it. -/
def dir (recursive : Bool) : Run Reply := do
  let path ← popStr
  if !(← askShared fun s => s.host.files.isDir path) then fail (Fault.notDirectory path)
  pushIter (.walkRoot path recursive) .str

/-- The answer of the network, or a fault. -/
def orIo {α : Type} : Except String α → Run α
  | .ok a => return a
  | .error message => fail (Fault.io message)

/-- Waits for connections at an address. -/
def listen : Run Reply := do
  let addr ← popStr
  ofExcept (Socket.checkAddress addr)
  let addr ← orIo (← askNetwork fun net n => net.listen n addr)
  let s ← alloc (·.sockets.size) fun st => { st with sockets := st.sockets.push ⟨addr, true⟩ }
  push ⟨.socket, .socket s⟩
  return .next

/-- An iterator over the connections that a socket is asked for. -/
def acceptIter : Run Reply := do
  let v ← pop
  match v.payload with
  | .socket s =>
    if !(← askStore (·.listens s)) then fail (Fault.mismatch "listening Socket" v.ty.name)
    pushIter (.accept s) .socket
  | _ => fail (Fault.mismatch "listening Socket" v.ty.name)

/-- An iterator that gives the connection to an address. -/
def connectIter : Run Reply := do
  let addr ← popStr
  ofExcept (Socket.checkAddress addr)
  let found ← orIo (← askNetwork fun net n => net.resolve n addr)
  let found ← orFail (Fault.io s!"cannot resolve '{addr}'") found
  pushIter (.connect (some found)) .socket

end Run

end Catena
