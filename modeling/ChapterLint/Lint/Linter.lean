import ChapterLint.Journal
import ChapterLint.Lint.Config
import ChapterLint.Lint.Registry
import ChapterLint.Tree.Reader
import ChapterLint.Tree.Walk

/-!
# Linting

A linter walks a tree depth first and hands each node to the rules registered for its kind. The
diagnostics stand in the order in which the walk meets the nodes, and for one node in the order
of the rules.
-/

namespace ChapterLint

namespace Registry

/-- What a lint has come to. -/
structure Progress where
  report : Report := []
  visited : Nat := 0
  journal : List Event := []

/-- Applies one rule. -/
def applyRule (context : Context) (parent : Option Node) (n : Node) (p : Progress)
    (rule : Rule) : Progress :=
  { p with
    report := rule.check context parent n p.report
    journal := p.journal ++ [.ruleApplied rule.id n.kind] }

/-- Visits one node: applies the rules of its kind that are enabled, in their order. -/
def visit (r : Registry) (config : Config) (context : Context) (parent : Option Node)
    (n : Node) (p : Progress) : Progress :=
  ((r.rulesFor n.kind).filter config.enables).foldl (applyRule context parent n)
    { p with visited := p.visited + 1 }

/-- Walks a whole tree. -/
def apply (r : Registry) (config : Config) (context : Context) (root : Node) :
    Report × List Event :=
  let p := root.walkDeep (r.visit config context) { journal := [.lintStarted context.chapter] }
  (p.report, p.journal ++ [.lintFinished p.visited p.report.length])

/-- Lints a tree with the rules that are enabled by default. -/
def lint (r : Registry) (context : Context) (root : Node) : Report × List Event :=
  r.apply {} context root

/-- Lints the tree of a text. -/
def lintText (r : Registry) (context : Context) (text : String) :
    Except Failure (Report × List Event) := do
  let root ← Node.parse text
  return r.lint context root

/-- The note that there are more errors than the limit. -/
def limitNote (count limit : Nat) : Diagnostic :=
  { message := "Too many errors (" ++ toString count ++ "), limit is " ++ toString limit
    range := ⟨⟨0, 0⟩, ⟨0, 0⟩⟩
    severity := .information
    ruleId := "error-limit" }

/-- Adds a note to a report with more errors than the limit. -/
def noteLimit (config : Config) (report : Report) : Report :=
  match config.errorLimit with
  | some limit =>
    if limit < report.errorCount then report.add (limitNote report.errorCount limit)
    else report
  | none => report

/-- Lints a tree as a configuration asks. -/
def lintWith (r : Registry) (config : Config) (context : Context) (root : Node) :
    Report × List Event :=
  let (report, journal) := r.apply config context root
  (noteLimit config report, journal)

end Registry

end ChapterLint
