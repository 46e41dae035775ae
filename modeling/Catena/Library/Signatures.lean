import Catena.Overload
import Catena.Ty.Builtin

/-!
# Signatures of the library

The functions every engine starts with, in the order in which they are added: name, arguments,
safety level and what runs.
-/

namespace Catena

/-- A function before it is added to a registry. -/
structure Signature where
  name : String
  args : List Arg
  safety : Safety
  native : Native

namespace Signature

/-- Arguments that are subtypes of given types. -/
def types (ts : List Ty) : List Arg := ts.map Arg.type

/-- Functions on the value stack as a whole. -/
def stack : List Signature :=
  [⟨"dup", types [.any], .pure, .dup⟩,
   ⟨"swap", types [.any, .any], .pure, .swap⟩,
   ⟨"rot", types [.any, .any, .any], .pure, .rot⟩,
   ⟨"reset", [], .pure, .reset⟩,
   ⟨"stash", [], .pure, .stash⟩,
   ⟨"depth", [], .pure, .depth⟩]

/-- Arithmetic, comparison and negation. -/
def numbers : List Signature :=
  let ints := types [.int, .int]
  let ratios := types [.ratio, .ratio]
  let both := types [.any, .any]
  let ordered := types [.cmp, .cmp]
  [⟨"+", ints, .pure, .intOp .add⟩,
   ⟨"-", ints, .pure, .intOp .sub⟩,
   ⟨"*", ints, .pure, .intOp .mul⟩,
   ⟨"/", ints, .pure, .intOp .div⟩,
   ⟨"mod", ints, .pure, .intOp .mod⟩,
   ⟨"+", ratios, .pure, .ratioOp .add⟩,
   ⟨"-", ratios, .pure, .ratioOp .sub⟩,
   ⟨"*", ratios, .pure, .ratioOp .mul⟩,
   ⟨"/", ratios, .pure, .ratioOp .div⟩,
   ⟨"rat", ints, .pure, .makeRatio⟩,
   ⟨"=", both, .pure, .equal⟩,
   ⟨"==", both, .pure, .same⟩,
   ⟨"<", ordered, .pure, .order .lt⟩,
   ⟨">", ordered, .pure, .order .gt⟩,
   ⟨"<=", ordered, .pure, .order .le⟩,
   ⟨">=", ordered, .pure, .order .ge⟩,
   ⟨"not", types [.any], .pure, .not⟩]

/-- Questions about types. -/
def typing : List Signature :=
  [⟨"type", types [.any], .pure, .typeOf⟩,
   ⟨"isa", types [.type, .type], .pure, .isa⟩,
   ⟨"is", types [.any, .type], .pure, .is⟩]

/-- Calls. -/
def control : List Signature :=
  [⟨"call", types [.any], .pure, .call⟩,
   ⟨"if", types [.any, .any, .any], .pure, .choose⟩,
   ⟨"defer-call", types [.any], .pure, .defer⟩]

/-- Lists, tables, pairs and byte buffers. -/
def collections : List Signature :=
  [⟨"len", types [.seq], .pure, .len⟩,
   ⟨"push", [.type .list, .typeArg 0 0], .const, .push⟩,
   ⟨"pop", types [.list], .const, .pop⟩,
   ⟨"get", types [.list, .int], .pure, .listGet⟩,
   ⟨"get", [.type .table, .typeArg 0 0], .pure, .tableGet⟩,
   ⟨"put", [.type .list, .type .int, .typeArg 0 0], .const, .listPut⟩,
   ⟨"put", [.type .table, .typeArg 0 0, .typeArg 0 1], .const, .tablePut⟩,
   ⟨"pair", types [.any, .any], .pure, .pair⟩,
   ⟨"left", types [.pair], .pure, .left⟩,
   ⟨"right", types [.pair], .pure, .right⟩,
   ⟨"list", types [.any], .safe, .list⟩,
   ⟨"table", types [.any], .safe, .table⟩,
   ⟨"bin", types [.any], .safe, .bin⟩,
   ⟨"bin", types [.str], .pure, .strBin⟩,
   ⟨"str", types [.any], .pure, .str⟩,
   ⟨"str", types [.bin], .pure, .binStr⟩]

/-- Iterators. -/
def iterators : List Signature :=
  [⟨"iter", types [.any], .pure, .iter⟩,
   ⟨"next", types [.iter], .const, .next⟩,
   ⟨"range", types [.int, .int], .pure, .range⟩,
   ⟨"filter", types [.any, .any], .safe, .filter⟩,
   ⟨"map", types [.any, .any], .safe, .map⟩,
   ⟨"zip", types [.any, .any], .pure, .zip⟩,
   ⟨"rand", types [.int], .safe, .rand⟩]

/-- Files, directories and sockets. -/
def inputOutput : List Signature :=
  [⟨"open", types [.str, .str], .unrestricted, .openFile⟩,
   ⟨"read-iter", [.pred .stream], .safe, .readIter⟩,
   ⟨"write", [.pred .stream, .type .any], .unrestricted, .write⟩,
   ⟨"say", types [.any], .safe, .say⟩,
   ⟨"dir", types [.str], .unrestricted, .dir false⟩,
   ⟨"rdir", types [.str], .unrestricted, .dir true⟩,
   ⟨"listen", types [.str], .unrestricted, .listen⟩,
   ⟨"accept-iter", types [.socket], .safe, .acceptIter⟩,
   ⟨"connect-iter", types [.str], .unrestricted, .connectIter⟩,
   ⟨"poll", types [.list], .safe, .poll⟩]

/-- Fibers and threads. -/
def concurrency : List Signature :=
  [⟨"fiber", types [.any], .safe, .fiber⟩,
   ⟨"fiber-done", types [.fiber], .pure, .fiberDone⟩,
   ⟨"thread", types [.any], .safe, .thread⟩,
   ⟨"join", types [.thread], .safe, .join⟩]

/-- Errors as values. -/
def errors : List Signature :=
  [⟨"raise", types [.str], .pure, .raise⟩,
   ⟨"raise", types [.error], .pure, .reraise⟩,
   ⟨"errors", [], .pure, .errors⟩,
   ⟨"error-kind", types [.error], .pure, .errorKind⟩,
   ⟨"error-message", types [.error], .pure, .errorMessage⟩,
   ⟨"clear-errors", types [.sym], .const, .clearErrors⟩]

/-- The whole library. -/
def library : List Signature :=
  stack ++ numbers ++ typing ++ control ++ collections ++ iterators ++ inputOutput ++
    concurrency ++ errors

end Signature

end Catena
