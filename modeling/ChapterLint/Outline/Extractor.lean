import ChapterLint.Journal
import ChapterLint.Outline.Symbol
import ChapterLint.Tree.Walk

/-!
# Extractors

An extractor is bound to one kind of node and takes results out of such nodes, with entries for
the journal. `collect` runs extractors over a whole tree, breadth first. The shipped extractors
find the names that a program declares.
-/

namespace ChapterLint

/-- What takes results out of nodes of one kind. -/
structure Extractor (α : Type) where
  kind : NodeKind
  extract : Node → List α × List Event

namespace Extractor

variable {α : Type}

/-- What a collection has come to. -/
structure Progress (α : Type) where
  results : List α := []
  visited : Nat := 0
  journal : List Event := []

/-- Runs one extractor. -/
def run (n : Node) (p : Progress α) (e : Extractor α) : Progress α :=
  let (results, journal) := e.extract n
  { p with results := p.results ++ results, journal := p.journal ++ journal }

/-- Visits one node: runs the extractors of its kind in their order. -/
def visit (es : List (Extractor α)) (n : Node) (p : Progress α) : Progress α :=
  (es.filter fun e => e.kind = n.kind).foldl (run n) { p with visited := p.visited + 1 }

/-- Runs extractors over a whole tree. -/
def collect (root : Node) (es : List (Extractor α)) : List α × List Event :=
  let p := root.walkWide (visit es) {}
  (p.results, p.journal ++ [.symbolsCollected p.visited p.results.length])

end Extractor

/-! ## Declared names -/

namespace Symbol

/-- How the variables of a declaration are declared. -/
def variableKind : VariableKind → DeclarationKind
  | .var | .let => .reassignable
  | .const => .constant

/-- The variables of a variable declaration. -/
def ofVariables : Node → List Symbol × List Event
  | .variableDeclaration declarations kind _ =>
    (declarations.map fun d => ⟨d.id.name, variableKind kind, d.span.range, d.id.span.range⟩, [])
  | _ => ([], [])

/-- A parameter, if it is a plain name. -/
def ofParameter? : Node → Option Symbol
  | .identifier id => some ⟨id.name, .parameter, id.span.range, id.span.range⟩
  | _ => none

/-- The entry for a parameter that is no plain name. -/
def skipped? (function : String) : Node → Option Event
  | .identifier _ => none
  | n => some (.parameterSkipped n.kind function)

/-- The parameters of a function declaration, then the function. -/
def ofFunction : Node → List Symbol × List Event
  | .functionDeclaration id params _ span =>
    (params.filterMap ofParameter? ++ [⟨id.name, .function, span.range, id.span.range⟩],
      params.filterMap (skipped? id.name))
  | _ => ([], [])

/-- A named import, shown at the whole import declaration. -/
def ofSpecifier? (declaration : Span) : Node → Option Symbol
  | .importSpecifier imported _ s =>
    some ⟨imported.name, .imported, declaration.range, s.range⟩
  | _ => none

/-- The named imports of an import declaration. -/
def ofImport : Node → List Symbol × List Event
  | .importDeclaration specifiers s => (specifiers.filterMap (ofSpecifier? s), [])
  | _ => ([], [])

end Symbol

namespace Extractor

/-- The extractor of variables. -/
def variableNames : Extractor Symbol := ⟨.variableDeclaration, Symbol.ofVariables⟩

/-- The extractor of functions and their parameters. -/
def functionNames : Extractor Symbol := ⟨.functionDeclaration, Symbol.ofFunction⟩

/-- The extractor of imports. -/
def importNames : Extractor Symbol := ⟨.importDeclaration, Symbol.ofImport⟩

/-- The shipped extractors. -/
def shipped : List (Extractor Symbol) := [variableNames, functionNames, importNames]

end Extractor

/-- The names that a program declares. -/
def Node.symbols (root : Node) : List Symbol × List Event :=
  Extractor.collect root Extractor.shipped

/-- The outline of a program as an editor reads it. -/
def Node.outline (context : Context) (root : Node) : Json × List Event :=
  let (symbols, journal) := root.symbols
  (.array (symbols.map (Symbol.toJson context)), journal)

end ChapterLint
