import Catena.Report
import Catena.Text.Number

/-!
# What the command line prints

Reports with the lines around their place, numbered sources and listings of operations, as lists of
lines.
-/

namespace Catena.CommandLine

/-- How many lines are shown before and after the line of a report. -/
def contextLines : Nat := 5

/-- The lines around a place, with a mark below it. A place behind the last line shows nothing. -/
def context (source : String) (place : Text.Place) : List String :=
  let lines := Text.lines source
  if place.line = 0 || lines.length < place.line then []
  else
    let first := max (place.line - contextLines) 1
    let last := min (place.line + contextLines) lines.length
    let width := (toString last).length
    let frame := String.ofList (List.replicate (width + 1) '-') ++ "|--"
    let shown := ((lines.take last).drop (first - 1)).zipIdx first
    let body := shown.flatMap fun (line, n) =>
      let row := Text.padLeft width (toString n) ++ " | " ++ line
      if n = place.line then
        let mark := String.ofList (List.replicate (place.column - 1) ' ') ++ "^"
        [row, Text.padLeft width "" ++ " | " ++ mark]
      else [row]
    [frame] ++ body ++ [frame]

/-- A report with the lines around its place. -/
def reportLines (source : String) (r : Report) : List String :=
  s!"error: {r.line}" :: r.place.elim [] (context source)

/-- A source with line numbers. -/
def numbered (source : String) : List String :=
  (Text.lines source).zipIdx.map fun (line, i) =>
    Text.padLeft 3 (toString (i + 1)) ++ " | " ++ line

/-- A listing of operations. -/
def listing (ops : List String) : List String :=
  "[Operations]" :: ops.zipIdx.map fun (op, pc) => Text.padLeft 5 (toString pc) ++ "  " ++ op

end Catena.CommandLine
