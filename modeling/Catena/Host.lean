import Catena.FileTree

/-!
# The host

What an engine touches outside itself: the files it can reach, the network, what it has printed, and
the time that its log records carry.

Nothing is assumed of the network. What it answers may depend on everything that has been asked of
it, which is told by the number of requests there have been.
-/

namespace Catena

/-- What an attempt on a socket comes to that does not wait. -/
inductive Attempt (α : Type)
  | got (a : α)
  | blocked
  | failed (message : String)

/-- What the network answers to its `n`-th request. Sockets go by their number. -/
structure Network where
  /-- The address at which a socket waits for connections. -/
  listen : (n : Nat) → (addr : String) → Except String String
  /-- The address that a host and a port stand for, if there is one. -/
  resolve : (n : Nat) → (addr : String) → Except String (Option String)
  /-- The address of who connects to a socket. -/
  accept : (n socket : Nat) → Attempt String
  /-- The address that a connection was made to. -/
  connect : (n : Nat) → (addr : String) → Attempt String
  /-- The next bytes of a connection, none at its end. -/
  read : (n socket : Nat) → Attempt (List UInt8)
  /-- How many of the bytes a connection takes. -/
  write : (n socket : Nat) → (bytes : List UInt8) → Attempt Nat

/-- A network with nobody else on it. -/
def Network.empty : Network where
  listen _ addr := .ok addr
  resolve _ addr := .ok (some addr)
  accept _ _ := .blocked
  connect _ _ := .failed "connection refused"
  read _ _ := .got []
  write _ _ _ := .got 0

instance : Inhabited Network := ⟨.empty⟩

/-- What lies outside an engine. -/
structure Host where
  files : FileTree := ∅
  stdout : String := ""
  stderr : String := ""
  /-- Milliseconds since the epoch. -/
  clock : Nat := 0
  network : Network := .empty
  /-- How many requests there have been to the network. -/
  requests : Nat := 0
deriving Inhabited

namespace Host

/-- Prints a line. -/
def printLine (h : Host) (line : String) : Host :=
  { h with stdout := h.stdout ++ line ++ "\n" }

/-- Prints a line to the error stream. -/
def printErrorLine (h : Host) (line : String) : Host :=
  { h with stderr := h.stderr ++ line ++ "\n" }

end Host

end Catena
