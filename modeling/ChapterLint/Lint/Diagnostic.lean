import ChapterLint.Json.Basic
import ChapterLint.Span

/-!
# Diagnostics and reports

A diagnostic is something a rule has to say about a range of the program. A report is the list
of diagnostics in the order in which they were made.
-/

namespace ChapterLint

/-- How bad a diagnostic is. -/
inductive Severity where
  | error
  | warning
  | information
  | hint
deriving DecidableEq, Repr

namespace Severity

/-- The number that editors know a severity by. -/
def number : Severity → Nat
  | .error => 1
  | .warning => 2
  | .information => 3
  | .hint => 4

end Severity

/-- What a rule has to say about a range. -/
structure Diagnostic where
  message : String
  range : Range
  severity : Severity
  ruleId : String
deriving DecidableEq, Repr

/-- Diagnostics in the order in which they were made. -/
abbrev Report := List Diagnostic

namespace Report

/-- Adds a diagnostic. -/
def add (r : Report) (d : Diagnostic) : Report := r ++ [d]

/-- Adds a diagnostic about a span. -/
def addAt (r : Report) (ruleId message : String) (severity : Severity) (s : Span) : Report :=
  r.add ⟨message, s.range, severity, ruleId⟩

/-- Adds an error about a span. -/
def addError (r : Report) (ruleId message : String) (s : Span) : Report :=
  r.addAt ruleId message .error s

/-- How many errors a report has. -/
def errorCount (r : Report) : Nat := r.countP fun d => d.severity = .error

/-- A report has errors. -/
def hasErrors (r : Report) : Bool := r.any fun d => d.severity = .error

theorem hasErrors_iff (r : Report) : r.hasErrors = true ↔ 0 < r.errorCount := by
  simp [hasErrors, errorCount, List.countP_pos_iff]

end Report

/-! ## Editor form -/

/-- A position as an editor reads it. -/
def Position.toJson (p : Position) : Json :=
  .record [("line", .natural p.line.toNat), ("character", .natural p.column.toNat)]

/-- A range as an editor reads it. -/
def Range.toJson (r : Range) : Json :=
  .record [("start", r.first.toJson), ("end", r.last.toJson)]

/-- A diagnostic as an editor reads it. -/
def Diagnostic.toJson (d : Diagnostic) : Json :=
  .record [("range", d.range.toJson), ("severity", .natural d.severity.number),
    ("code", .text d.ruleId), ("source", .text "source"), ("message", .text d.message)]

/-- A report as an editor reads it. -/
def Report.toJson (r : Report) : Json := .array (r.map Diagnostic.toJson)

end ChapterLint
