import ChapterLint.Context
import ChapterLint.Text.Quoted
import ChapterLint.Tree.Kind

/-!
# The journal

What the library reports about its own work while it answers a request.
-/

namespace ChapterLint

/-- How much an entry of the journal matters. -/
inductive Level where
  | trace
  | debug
  | warn
  | error
deriving DecidableEq, Repr

/-- Something worth an entry. -/
inductive Event where
  | lintStarted (chapter : Chapter)
  | ruleApplied (id : String) (kind : NodeKind)
  | lintFinished (visited : Nat) (reported : Nat)
  | parameterSkipped (kind : NodeKind) (function : String)
  | symbolsCollected (visited : Nat) (collected : Nat)
  | failed (text : String)
deriving DecidableEq, Repr

namespace Event

/-- The level of an event. -/
def level : Event → Level
  | .ruleApplied .. => .trace
  | .lintStarted .. | .lintFinished .. | .symbolsCollected .. => .debug
  | .parameterSkipped .. => .warn
  | .failed .. => .error

/-- The wording of an event. -/
def text : Event → String
  | .lintStarted chapter => "linting program for " ++ chapter.name
  | .ruleApplied id kind => "applying rule '" ++ id ++ "' to " ++ kind.name
  | .lintFinished visited reported =>
    "visited " ++ toString visited ++ " nodes, " ++ toString reported ++ " diagnostics reported"
  | .parameterSkipped kind function =>
    "skipping " ++ kind.name ++ " parameter of '" ++ function ++ "'"
  | .symbolsCollected visited collected =>
    "visited " ++ toString visited ++ " nodes, collected " ++ toString collected ++ " symbols"
  | .failed text => quoted text

end Event

end ChapterLint
