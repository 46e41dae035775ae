import Catena.Run.Reentry
import Catena.Store.Equality

/-!
# Pulling iterators

Which values can be iterated, and what a pull does to each kind of iterator. An iterator that draws
on others pulls them in turn; those are older, so the depth of a pull is bounded by the number of
iterators there are.
-/

namespace Catena.Run

/-- The iterator over a value. -/
def iterate (v : Value) : Run Ref :=
  let wrong (role : String) : Run Ref := fail (Fault.mismatch role v.ty.name)
  match v.ty.behavior, v.payload with
  | .int, .int n => newIter (.range 0 n)
  | .int, _ => wrong "I64"
  | .str, .str s => newIter (.chars s.toList)
  | .str, _ => wrong "Str"
  | .wstr, .wstr units => newIter (.units units)
  | .wstr, _ => wrong "WStr"
  | .bin, .bin b => newIter (.bytes b 0)
  | .bin, _ => wrong "Bin"
  | .list, .list l => newIter (.items l 0)
  | .list, _ => wrong "List"
  | .table, .table t => newIter (.entries t 0)
  | .table, _ => wrong "Table"
  | .iter, .iter i => return i
  | .iter, _ => wrong "Iter"
  | _, _ => fail (Fault.notIterable v.ty.name)

/-- Sets the cell of an iterator. -/
def setIter (iter : Ref) (cell : IterCell) : Run Unit :=
  alterStore fun s => { s with iters := s.iters.setIfInBounds iter cell }

/-- A pull of one iterator, given how to pull another. -/
abbrev Puller := Ref → Run Pulled

/-- The first item of a source for which the test answers true. -/
def pullWhere (r : Reentry) (pull : Puller) (source : Ref) (test : Value) : Nat → Run Pulled
  | 0 => exhausted
  | fuel + 1 => do
    match ← pull source with
    | .item v =>
      match ← r.call test [v] with
      | some answer =>
        if answer.truthy then return .item v else pullWhere r pull source test fuel
      | none => pullWhere r pull source test fuel
    | other => return other

/-- One round through the sources that are still to be asked (`todo`), with those that had nothing
yet in `kept`, newest first. Answers the item found and the queue for the next round: a source that
gave an item goes to the end of it. -/
def pollRound (pull : Puller) : (todo kept : List Ref) → Run (Option Value × List Ref)
  | [], kept => return (none, kept.reverse)
  | source :: todo, kept => do
    match ← pull source with
    | .item v => return (some v, todo ++ kept.reverse ++ [source])
    | .pending => pollRound pull todo (source :: kept)
    | .done => pollRound pull todo kept

/-- Rounds through the sources until one gives an item or none is left. -/
def pollUntil (pull : Puller) : Nat → List Ref → Run (Option Value × List Ref)
  | 0, _ => exhausted
  | _ + 1, [] => return (none, [])
  | fuel + 1, queue => do
    match ← pollRound pull queue [] with
    | (some v, queue) => return (some v, queue)
    | (none, queue) => pollUntil pull fuel queue

/-- The state of the generator after one more number. -/
def nextSeed (seed : UInt64) : UInt64 :=
  seed * 6364136223846793005 + 1442695040888963407

/-- The entries below directories, depth first: each directory is read when it is met. -/
def walkStep (files : FileTree) (recursive : Bool) : List WalkFrame → Option (String × List WalkFrame)
  | [] => none
  | ⟨path, names⟩ :: frames =>
    match names with
    | [] => walkStep files recursive frames
    | name :: names =>
      let shown := if path.endsWith "/" then path ++ name else path ++ "/" ++ name
      let frames := ⟨path, names⟩ :: frames
      if recursive && files.isDir shown then
        match files.resolve shown with
        | .ok dir => some (shown, ⟨shown, files.children dir⟩ :: frames)
        | .error _ => some (shown, frames)
      else some (shown, frames)

/-- The next entry of a walk. -/
def walk (recursive : Bool) (frames : List WalkFrame) : Run (Pulled × Iterator) := do
  let files ← askShared (·.host.files)
  match walkStep files recursive frames with
  | some (shown, frames) => return (.item (.str shown), .walk frames recursive)
  | none => return (.done, .walk [] recursive)

/-- Asks the network. -/
def askNetwork {α : Type} (request : Network → Nat → α) : Run α := do
  let answer ← askShared fun s => request s.host.network s.host.requests
  alterShared fun s => { s with host := { s.host with requests := s.host.requests + 1 } }
  return answer

/-- A socket that is connected to an address. -/
def newSocket (peer : String) : Run Value := do
  let s ← alloc (·.sockets.size) fun st => { st with sockets := st.sockets.push ⟨peer, false⟩ }
  return ⟨.socket, .socket s⟩

/-- How many bytes are read at once. -/
def chunkSize : Nat := 4096

/-- Pairs what the left side of a `zip` gave with an item of the right one; an item that finds none
yet is held. -/
def pairUp (pull : Puller) (left right : Ref) : Pulled → Run (Pulled × Iterator)
  | .item v => do
    match ← pull right with
    | .item w => return (.item (← pairOf v w), .zip left right none)
    | .pending => return (.pending, .zip left right (some v))
    | .done => return (.done, .zip left right none)
  | other => return (other, .zip left right none)

/-- What a pull does to an iterator, given how to pull those it draws on. -/
def advance (r : Reentry) (pull : Puller) : Iterator → Run (Pulled × Iterator)
  | .range next stop =>
    if next < stop then return (.item (.int next), .range (next + 1) stop)
    else return (.done, .range next stop)
  | .items l i => do
    match ← askStore fun s => (s.listAt l)[i]? with
    | some v => return (.item v, .items l (i + 1))
    | none => return (.done, .items l (i + 1))
  | .entries t i => do
    match ← askStore fun s => (s.tableAt t)[i]? with
    | some (k, v) => return (.item (← pairOf k v), .entries t (i + 1))
    | none => return (.done, .entries t (i + 1))
  | .bytes b i => do
    match ← askStore fun s => (s.binAt b)[i]? with
    | some byte => return (.item (.nat byte.toNat), .bytes b (i + 1))
    | none => return (.done, .bytes b (i + 1))
  | .chars [] => return (.done, .chars [])
  | .chars (c :: cs) => return (.item (.char c), .chars cs)
  | .units [] => return (.done, .units [])
  | .units (u :: us) => return (.item (.wchar u), .units us)
  | .filter source test => do
    return (← pullWhere r pull source test stepLimit, .filter source test)
  | .map source f => do
    match ← pull source with
    | .item v =>
      let w ← orFail (Fault.underflow "map") (← r.call f [v])
      return (.item w, .map source f)
    | other => return (other, .map source f)
  | .zip left right (some v) => pairUp pull left right (.item v)
  | .zip left right none => do pairUp pull left right (← pull left)
  | .random bound seed =>
    let seed := nextSeed seed
    let n := (seed >>> 33).toNat % bound.toInt.toNat
    return (.item (.nat n), .random bound seed)
  | .readFile file => do
    let files ← askShared (·.host.files)
    let handle ← askStore fun s => s.files[file]?.getD default
    match files.readChunk handle chunkSize with
    | .error e => fail (Fault.io e.message)
    | .ok (bytes, handle) =>
      alterStore fun s => { s with files := s.files.setIfInBounds file handle }
      if bytes.isEmpty then return (.done, .readFile file)
      return (.item (← newBin bytes), .readFile file)
  | .readSocket s => do
    if ← askStore (·.listens s) then fail (Fault.io "cannot read from a listening socket")
    match ← askNetwork fun net n => net.read n s with
    | .got [] => return (.done, .readSocket s)
    | .got bytes => return (.item (← newBin bytes.toArray), .readSocket s)
    | .blocked => return (.pending, .readSocket s)
    | .failed message => fail (Fault.io message)
  | .walkRoot path recursive => do
    let files ← askShared (·.host.files)
    match files.resolve path with
    | .ok dir => walk recursive [⟨path, files.children dir⟩]
    | .error e => fail (Fault.io e.message)
  | .walk frames recursive => walk recursive frames
  | .accept s => do
    if !(← askStore (·.listens s)) then return (.done, .accept s)
    match ← askNetwork fun net n => net.accept n s with
    | .got peer => return (.item (← newSocket peer), .accept s)
    | .blocked => return (.pending, .accept s)
    | .failed _ => return (.done, .accept s)
  | .connect none => return (.done, .connect none)
  | .connect (some addr) => do
    match ← askNetwork fun net n => net.connect n addr with
    | .got peer => return (.item (← newSocket peer), .connect none)
    | .blocked => return (.pending, .connect (some addr))
    | .failed _ => return (.done, .connect none)
  | .poll queue => do
    match ← pollUntil pull stepLimit queue with
    | (some v, queue) => return (.item v, .poll queue)
    | (none, queue) => return (.done, .poll queue)
  | .host answers pulls => do
    return (← ofExcept (answers pulls), .host answers (pulls + 1))

/-- Pulls an iterator. One that ended or failed stays at its end. -/
def pullWithin (r : Reentry) : (fuel : Nat) → Ref → Run Pulled
  | 0, _ => exhausted
  | fuel + 1, iter => do
    match ← askStore fun s => s.iters[iter]?.getD .done with
    | .done => return .done
    | .busy => fail Fault.busyIterator
    | .ready it =>
      setIter iter .busy
      match ← attempt (advance r (pullWithin r fuel) it) with
      | .ok (.done, _) => setIter iter .done; return .done
      | .ok (pulled, it) => setIter iter (.ready it); return pulled
      | .error e => setIter iter .done; fail e

/-- Pulls an iterator for its next item. -/
def pull (r : Reentry) (iter : Ref) : Run Pulled := do
  pullWithin r ((← askStore (·.iters.size)) + 1) iter

/-- Pulls an iterator until it has an answer; there is none at its end. -/
def await (r : Reentry) (iter : Ref) : Nat → Run (Option Value)
  | 0 => exhausted
  | fuel + 1 => do
    match ← pull r iter with
    | .item v => return some v
    | .pending => await r iter fuel
    | .done => return none

/-- Adds the items of an iterator to `items` until there are no more. -/
def drainInto (r : Reentry) (iter : Ref) : Nat → Array Value → Run (Array Value)
  | 0, _ => exhausted
  | fuel + 1, items => do
    match ← await r iter stepLimit with
    | some v => drainInto r iter fuel (items.push v)
    | none => return items

/-- All items of a value that can be iterated. -/
def drain (r : Reentry) (seq : Value) : Run (Array Value) := do
  drainInto r (← iterate seq) stepLimit #[]

end Catena.Run
