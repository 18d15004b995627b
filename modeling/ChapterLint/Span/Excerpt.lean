import ChapterLint.Failure
import ChapterLint.Span

/-!
# The text under a span

A span cuts a piece out of a document given by its lines. Columns count characters; lines
between the first and the last are taken whole, and all are joined by line feeds.
-/

namespace ChapterLint

/-- The line of the given number, counted from one. -/
def lineAt (lines : List String) (n : UInt32) : Except Failure String :=
  match n.toNat with
  | 0 => .error (.lineOutside 0 lines.length)
  | i + 1 =>
    match lines[i]? with
    | some line => .ok line
    | none => .error (.lineOutside (i + 1) lines.length)

/-- A line from a column on. -/
def lineFrom (line : String) (start : Nat) : String := String.ofList (line.toList.drop start)

/-- The piece of a line between two columns, empty if they are reversed. -/
def lineBetween (line : String) (start stop : Nat) : String :=
  String.ofList ((line.toList.drop start).take (stop - start))

/-- The numbers of the lines strictly between two lines. They are counted up from the first as
machine numbers, so a greatest number would be followed by zero. -/
def linesBetween (first last : UInt32) : List UInt32 :=
  (List.range (last.toNat - (first + 1).toNat)).map fun i => first + 1 + .ofNat i

/-- The text of a document under a span. -/
def Span.excerpt (lines : List String) (s : Span) : Except Failure String := do
  let top ← lineAt lines s.first.line
  if s.first.line = s.last.line then
    return lineBetween top s.first.column.toNat s.last.column.toNat
  let bottom ← lineAt lines s.last.line
  let middle ← (linesBetween s.first.line s.last.line).mapM (lineAt lines)
  return "\n".intercalate
    (lineFrom top s.first.column.toNat :: middle ++ [lineBetween bottom 0 s.last.column.toNat])

end ChapterLint
