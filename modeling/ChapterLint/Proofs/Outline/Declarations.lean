import ChapterLint.Proofs.Outline.Levels
import ChapterLint.Proofs.Tree.Spans

/-!
# What a program declares

The three shipped extractors are bound to different kinds of nodes, so what they take out of a node
is what the node declares: the variables of a variable declaration, a function after its parameters,
the named imports of an import. A declaration knows its span and that of the name to select; the
symbols of a program are its declarations level by level, with ranges made from the spans at the
very end (`Node.symbols_eq`). `Node.Declares` names the four ways in which a node declares
something; both spans of a declaration are spans of the tree (`EverySpan.of_mem_declarations`).
-/

namespace ChapterLint

/-- A declared name, where it is declared and what to select there. -/
structure Declaration where
  name : String
  kind : DeclarationKind
  span : Span
  selection : Span
deriving DecidableEq, Repr

namespace Declaration

/-- The symbol of a declaration. -/
def symbol (d : Declaration) : Symbol := ⟨d.name, d.kind, d.span.range, d.selection.range⟩

/-- A parameter, if it is a plain name. -/
def ofParameter? : Node → Option Declaration
  | .identifier id => some ⟨id.name, .parameter, id.span, id.span⟩
  | _ => none

/-- A named import, declared by the whole import declaration. -/
def ofSpecifier? (whole : Span) : Node → Option Declaration
  | .importSpecifier imported _ s => some ⟨imported.name, .imported, whole, s⟩
  | _ => none

theorem map_symbol_ofParameter? (n : Node) :
    (ofParameter? n).map symbol = Symbol.ofParameter? n := by
  cases n <;> rfl

theorem map_symbol_ofSpecifier? (whole : Span) (n : Node) :
    (ofSpecifier? whole n).map symbol = Symbol.ofSpecifier? whole n := by
  cases n <;> rfl

end Declaration

namespace Node

/-- What a node declares. -/
def declarations : Node → List Declaration
  | .variableDeclaration ds kind _ =>
    ds.map fun d => ⟨d.id.name, Symbol.variableKind kind, d.span, d.id.span⟩
  | .functionDeclaration id params _ s =>
    params.filterMap Declaration.ofParameter? ++ [⟨id.name, .function, s, id.span⟩]
  | .importDeclaration specifiers s => specifiers.filterMap (Declaration.ofSpecifier? s)
  | _ => []

/-- The ways in which a node declares a name. -/
inductive Declares : Node → Declaration → Prop
  | declarator {ds : List (Declarator Node)} {kind : VariableKind} {s : Span} {d : Declarator Node}
      (hd : d ∈ ds) :
      Declares (.variableDeclaration ds kind s)
        ⟨d.id.name, Symbol.variableKind kind, d.span, d.id.span⟩
  | parameter {id : Identifier} {params : List Node} {body : Node} {s : Span} {p : Identifier}
      (hp : .identifier p ∈ params) :
      Declares (.functionDeclaration id params body s) ⟨p.name, .parameter, p.span, p.span⟩
  | function {id : Identifier} {params : List Node} {body : Node} {s : Span} :
      Declares (.functionDeclaration id params body s) ⟨id.name, .function, s, id.span⟩
  | imported {specifiers : List Node} {s : Span} {imported name : Identifier} {t : Span}
      (ht : .importSpecifier imported name t ∈ specifiers) :
      Declares (.importDeclaration specifiers s) ⟨imported.name, .imported, s, t⟩

theorem declares_of_mem_declarations {n : Node} {d : Declaration} (h : d ∈ n.declarations) :
    n.Declares d := by
  cases n with
  | variableDeclaration ds kind s =>
    obtain ⟨x, hx, rfl⟩ := List.mem_map.1 h
    exact .declarator hx
  | functionDeclaration id params body s =>
    rcases List.mem_append.1 h with h | h
    · obtain ⟨p, hp, hd⟩ := List.mem_filterMap.1 h
      cases p with
      | identifier p => cases hd; exact .parameter hp
      | _ => cases hd
    · obtain rfl := List.mem_singleton.1 h
      exact .function
  | importDeclaration specifiers s =>
    obtain ⟨p, hp, hd⟩ := List.mem_filterMap.1 h
    cases p with
    | importSpecifier imported name t => cases hd; exact .imported hp
    | _ => cases hd
  | _ => cases h

/-- The shipped extractors take out of a node what it declares. -/
theorem resultsAt_shipped (n : Node) :
    Extractor.resultsAt Extractor.shipped n = n.declarations.map Declaration.symbol := by
  cases n with
  | variableDeclaration ds kind s =>
    have hresults : Extractor.resultsAt Extractor.shipped (.variableDeclaration ds kind s) =
        (Symbol.ofVariables (.variableDeclaration ds kind s)).1 := List.append_nil _
    rw [hresults, Symbol.ofVariables, declarations, List.map_map]
    rfl
  | functionDeclaration id params body s =>
    have hresults : Extractor.resultsAt Extractor.shipped (.functionDeclaration id params body s) =
        (Symbol.ofFunction (.functionDeclaration id params body s)).1 := List.append_nil _
    rw [hresults, Symbol.ofFunction, declarations, List.map_append, List.map_filterMap,
      funext Declaration.map_symbol_ofParameter?]
    rfl
  | importDeclaration specifiers s =>
    have hresults : Extractor.resultsAt Extractor.shipped (.importDeclaration specifiers s) =
        (Symbol.ofImport (.importDeclaration specifiers s)).1 := List.append_nil _
    rw [hresults, Symbol.ofImport, declarations, List.map_filterMap,
      funext (Declaration.map_symbol_ofSpecifier? s)]
  | _ => rfl

/-- **The symbols of a program are its declarations**, in the order of the breadth-first walk. -/
theorem symbols_eq (root : Node) :
    root.symbols.1 = (root.wideOrder.flatMap declarations).map Declaration.symbol := by
  rw [symbols, Extractor.results_collect, List.map_flatMap, funext resultsAt_shipped]

/-! ## Where declarations are -/

theorem EverySpan.of_declares {P : Span → Prop} {n : Node} (h : n.EverySpan P) {d : Declaration}
    (hd : n.Declares d) : P d.span ∧ P d.selection := by
  have hown := h.here
  cases hd with
  | @declarator ds kind s d hd =>
    have hspans : ∀ t ∈ [d.span, d.id.span], P t := fun t ht =>
      hown t (List.mem_append_left _ (List.mem_flatMap.2 ⟨d, hd, ht⟩))
    exact ⟨hspans _ (.head _), hspans _ (.tail _ (.head _))⟩
  | parameter hp =>
    have hparam := EverySpan.span (h.cell "params" rfl (List.mem_map_of_mem hp)) rfl
    exact ⟨hparam, hparam⟩
  | function => exact ⟨h.span rfl, hown _ (.head _)⟩
  | imported ht =>
    have hspecifier := EverySpan.span (h.cell "specifiers" rfl (List.mem_map_of_mem ht)) rfl
    exact ⟨h.span rfl, hspecifier⟩

/-- Every declaration in a tree is made by a node that the walks visit. -/
theorem exists_declares_of_mem {root : Node} {d : Declaration}
    (h : d ∈ root.wideOrder.flatMap declarations) : ∃ n ∈ root.nodes, n.Declares d := by
  obtain ⟨n, hn, hd⟩ := List.mem_flatMap.1 h
  exact ⟨n, (wideOrder_perm_nodes root).mem_iff.1 hn, declares_of_mem_declarations hd⟩

theorem EverySpan.of_mem_declarations {P : Span → Prop} {root : Node} (h : root.EverySpan P)
    {d : Declaration} (hd : d ∈ root.wideOrder.flatMap declarations) :
    P d.span ∧ P d.selection := by
  obtain ⟨n, hn, hd⟩ := exists_declares_of_mem hd
  exact EverySpan.of_declares (h.of_mem_nodes hn) hd

end Node

end ChapterLint
