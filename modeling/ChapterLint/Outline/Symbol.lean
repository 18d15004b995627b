import ChapterLint.Context
import ChapterLint.Lint.Diagnostic

/-!
# Symbols

A symbol is a declared name, with the range of its declaration and the range to select. Editors
show symbols and completions by numbers of their own.
-/

namespace ChapterLint

/-- How a name is declared. -/
inductive DeclarationKind where
  | imported
  | function
  | reassignable
  | constant
  | parameter
deriving DecidableEq, Repr

/-- A declared name. -/
structure Symbol where
  name : String
  kind : DeclarationKind
  range : Range
  selection : Range
deriving DecidableEq, Repr

/-- How an editor shows a symbol. -/
inductive SymbolIcon where
  | nameSpace
  | function
  | variable
  | constant
deriving DecidableEq, Repr

namespace SymbolIcon

/-- The number that editors know an icon by. -/
def number : SymbolIcon → Nat
  | .nameSpace => 3
  | .function => 12
  | .variable => 13
  | .constant => 14

end SymbolIcon

/-- How a declared name is shown. Parameters cannot be assigned to before the third chapter. -/
def DeclarationKind.icon (context : Context) : DeclarationKind → SymbolIcon
  | .imported => .nameSpace
  | .function => .function
  | .reassignable => .variable
  | .constant => .constant
  | .parameter =>
    match context.chapter with
    | .source1 | .source2 => .constant
    | .source3 | .source4 => .variable

/-- The number that editors know the completion of a name by, given how it was introduced. -/
def completionNumber (word : String) : Nat :=
  if word = "const" then 21
  else if word = "let" then 6
  else if word = "import" then 9
  else 1

/-- A symbol as an editor reads it. -/
def Symbol.toJson (context : Context) (s : Symbol) : Json :=
  .record [("name", .text s.name), ("kind", .natural (s.kind.icon context).number),
    ("range", s.range.toJson), ("selectionRange", s.selection.toJson)]

end ChapterLint
