import ChapterLint.Context
import ChapterLint.Lint.Diagnostic
import ChapterLint.Tree.Node

/-!
# Rules

A rule is bound to one kind of node. It is handed such a node with its parent and the context,
and may add to the report. Most rules look at the node and the context alone and name what they
find there: `Rule.ofFindings` makes a rule from these.
-/

namespace ChapterLint

/-- A rule of the linter. -/
structure Rule where
  id : String
  description : String
  kind : NodeKind
  severity : Severity := .error
  enabledByDefault : Bool := true
  check : Context → Option Node → Node → Report → Report

namespace Rule

/-- Adds what was found, under the rule's name and severity. -/
def addFindings (id : String) (severity : Severity) (findings : List (String × Span))
    (r : Report) : Report :=
  r ++ findings.map fun f => ⟨f.1, f.2.range, severity, id⟩

/-- A rule that reports what it finds at a node as errors. -/
def ofFindings (id description : String) (kind : NodeKind)
    (findings : Context → Node → List (String × Span)) : Rule where
  id := id
  description := description
  kind := kind
  check context _ n r := addFindings id .error (findings context n) r

end Rule

end ChapterLint
