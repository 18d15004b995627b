import ChapterLint.Json.Record
import ChapterLint.Json.Scan

/-!
# Positions and spans

A position is a line, counted from one, and a column, counted from zero. A span reaches from
one position to another. Editors count lines from zero: `Span.range` is the span they see.
-/

namespace ChapterLint

/-- A place in a source text. -/
structure Position where
  line : UInt32
  column : UInt32
deriving DecidableEq, Repr, Inhabited

/-- A stretch of a source text. -/
structure Span where
  first : Position
  last : Position
deriving DecidableEq, Repr, Inhabited

/-- A stretch of a source text as editors count, with lines from zero. -/
structure Range where
  first : Position
  last : Position
deriving DecidableEq, Repr, Inhabited

/-- The position as editors count; there is no line before the first. -/
def Position.fromZero (p : Position) : Position :=
  ⟨if p.line = 0 then 0 else p.line - 1, p.column⟩

/-- The span as editors count. -/
def Span.range (s : Span) : Range := ⟨s.first.fromZero, s.last.fromZero⟩

/-! ## Reading -/

/-- The greatest line or column. -/
def greatestCoordinate : Int := Int.pow 2 32 - 1

/-- A line or a column. -/
def readCoordinate (j : Json) : Except Fault UInt32 := do
  let n ← j.asInteger 0 greatestCoordinate .coordinate
  return .ofNat n.toNat

/-- A position, a record of `line` and `column`. -/
def Position.read (place : Record.Place) (j : Json) : Except Fault Position := do
  let (line, column) ← Record.readPair place "SourcePosition"
    { key := "line", read := readCoordinate } { key := "column", read := readCoordinate } j
  return ⟨line, column⟩

/-- A span, a record of `start` and `end`. -/
def Span.read (place : Record.Place) (j : Json) : Except Fault Span := do
  let (first, last) ← Record.readPair place "SourceLocation"
    { key := "start", read := Position.read place } { key := "end", read := Position.read place } j
  return ⟨first, last⟩

/-- A span from a text. -/
def Span.ofText (s : String) : Except Fault Span := readText (Span.read .inText) s

end ChapterLint
