import ChapterLint.Json.Fault
import ChapterLint.Text.Utf8

/-!
# Failures

What can go wrong when a host asks for something, and the one wording of each.
-/

namespace ChapterLint

/-- Why a request fails. -/
inductive Failure where
  | malformedTree (detail : String)
  | notText (detail : String)
  | noInput (what : String)
  | unknownChapter (n : Int)
  | lineOutside (line : Nat) (lines : Nat)
  | badPattern (detail : String)
  | unwritable (detail : String)
deriving DecidableEq, Repr

namespace Failure

/-- The failure of a document that is no syntax tree. -/
def ofFault (f : Fault) : Failure := .malformedTree (f.message?.getD "")

/-- The failure of bytes that are no text. -/
def ofBytes (f : Utf8.Fault) : Failure := .notText f.message

/-- The wording of a failure. -/
def message : Failure → String
  | .malformedTree detail => "Malformed syntax tree: " ++ detail
  | .notText detail => "UTF-8 conversion error: " ++ detail
  | .noInput what => "A null pointer was passed for " ++ what
  | .unknownChapter n => unknownChapterMessage n
  | .lineOutside line lines =>
    "Line " ++ toString line ++ " is outside of the document (" ++ toString lines ++ " lines)"
  | .badPattern detail => "Failed to build search pattern: " ++ detail
  | .unwritable detail => "Failed to serialize result: " ++ detail

end Failure

end ChapterLint
