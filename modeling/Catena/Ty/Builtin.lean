import Catena.Ty

/-!
# Built-in types

The types every engine starts with. Their ids are the first that an engine hands out, in the order
of `Ty.builtins`.
-/

namespace Catena.Ty

/-- A type that is neither a template nor an instance of one. -/
def simple (id : Nat) (name : String) (supers : List Ty) (behavior : Behavior := .plain) : Ty :=
  ⟨id, name, none, supers, [], 0, behavior⟩

/-- A template with `params` parameters. -/
def templateOf (id : Nat) (name : String) (params : Nat) (supers : List Ty)
    (behavior : Behavior := .plain) : Ty :=
  ⟨id, name, none, supers, [], params, behavior⟩

def any : Ty := simple 1 "Any" []
def cmp : Ty := simple 2 "Cmp" [any]
def seq : Ty := templateOf 3 "Seq" 1 [any]
def pair : Ty := templateOf 4 "Pair" 2 [any]
def nil : Ty := simple 5 "Nil" [any]
def bool : Ty := simple 6 "Bool" [cmp]
def num : Ty := simple 7 "Num" [cmp]
def int : Ty := simple 8 "I64" [num] .int
def ratio : Ty := simple 9 "Rat" [num]
def char : Ty := simple 10 "Char" [cmp]
def wchar : Ty := simple 11 "WChar" [cmp]
def sym : Ty := simple 12 "Sym" [cmp]
def list : Ty := templateOf 13 "List" 1 [seq] .list
def table : Ty := templateOf 14 "Table" 2 [seq] .table
def opt : Ty := templateOf 15 "Opt" 1 [any]
def iter : Ty := templateOf 16 "Iter" 1 [seq] .iter
def seqChar : Ty := ⟨17, "Seq<Char>", some seq, [seq], [char], 0, .plain⟩
def seqWchar : Ty := ⟨18, "Seq<WChar>", some seq, [seq], [wchar], 0, .plain⟩
def seqInt : Ty := ⟨19, "Seq<I64>", some seq, [seq], [int], 0, .plain⟩
def str : Ty := simple 20 "Str" [cmp, seqChar] .str
def wstr : Ty := simple 21 "WStr" [cmp, seqWchar] .wstr
def bin : Ty := simple 22 "Bin" [seqInt] .bin
def func : Ty := simple 23 "Func" [any] .func
def type : Ty := simple 24 "Type" [any]
def lambda : Ty := simple 25 "Lambda" [any] .lambda
def label : Ty := simple 26 "Label" [any] .label
def struct : Ty := simple 27 "Struct" [any]
def file : Ty := simple 28 "File" [any] .file
def socket : Ty := simple 29 "Socket" [any] .socket
def fiber : Ty := simple 30 "Fiber" [any] .fiber
def thread : Ty := simple 31 "Thread" [any]
def error : Ty := simple 32 "Error" [any]

/-- The built-in types in the order of their ids. -/
def builtins : List Ty :=
  [any, cmp, seq, pair, nil, bool, num, int, ratio, char, wchar, sym, list, table, opt, iter,
   seqChar, seqWchar, seqInt, str, wstr, bin, func, type, lambda, label, struct, file, socket,
   fiber, thread, error]

/-- The type of the items that a sequence of type `t` gives: integers for an integer, which stands
for the numbers below it, and the argument of the nearest `Seq` ancestor otherwise. -/
def elem (t : Ty) : Ty :=
  if t.isa int then int
  else
    match t.ancestors.find? fun a => a.template.any fun raw => raw.id == seq.id with
    | some a => a.args.headD any
    | none => any

end Catena.Ty
