import ChapterLint.Json.Record
import ChapterLint.Json.Scan
import ChapterLint.Lint.Rule

/-!
# Configurations

A host may switch rules off by their names and limit the number of errors.
-/

namespace ChapterLint

/-- What a host asks of the linter. The names are sorted and distinct. -/
structure Config where
  disabledRules : List String := []
  errorLimit : Option Nat := none
deriving DecidableEq, Repr

namespace Config

/-- Puts a name among sorted distinct ones. -/
def insertName (name : String) : List String → List String
  | [] => [name]
  | n :: ns =>
    if name = n then n :: ns
    else if name < n then name :: n :: ns
    else n :: insertName name ns

/-- The sorted distinct names of a list. -/
def namesOf (names : List String) : List String :=
  names.foldl (fun ns name => insertName name ns) []

/-- A rule is to be applied. -/
def enables (c : Config) (rule : Rule) : Bool :=
  rule.enabledByDefault && !c.disabledRules.contains rule.id

/-- The greatest limit. -/
def greatestCount : Int := Int.pow 2 64 - 1

/-- A limit, a count. -/
def readLimit (j : Json) : Except Fault Nat := do
  let n ← j.asInteger 0 greatestCount .count
  return n.toNat

/-- A configuration, a record of `disabledRules` and `errorLimit`; both may be left out. -/
def read (place : Record.Place) (j : Json) : Except Fault Config := do
  let (names, limit) ← Record.readPair place "LintConfig"
    { key := "disabledRules", read := Json.asList Json.asText, absent := some [] }
    { key := "errorLimit", read := Json.asOption readLimit, absent := some none } j
  return ⟨namesOf names, limit⟩

/-- A configuration from a text. -/
def ofText (s : String) : Except Fault Config := readText (read .inText) s

end Config

end ChapterLint
