import ChapterLint.Proofs.Outline.Declarations

/-!
# Declarations are conserved

Nothing that a program declares gets lost on the way to its symbols, and nothing is added. Every
variable, every function, every named import and every parameter that is a plain name becomes one
symbol; every other parameter leaves one warning in the journal instead. So symbols and warnings
together account for all parameters.

A walk passes each node once (`Node.wideOrder_perm_nodes`), and at a node the symbols and the
warnings are those of its own declarations (`map_declarations`, `entriesAt_shipped`). The rest is a
sum over the nodes.
-/

namespace ChapterLint

/-! ## The journal of a collection -/

namespace Extractor

variable {α : Type}

/-- What extractors put into the journal at one node. -/
def entriesAt (es : List (Extractor α)) (n : Node) : List Event :=
  (es.filter fun e => e.kind = n.kind).flatMap fun e => (e.extract n).2

theorem journal_visit (es : List (Extractor α)) (n : Node) (p : Progress α) :
    (visit es n p).journal = p.journal ++ entriesAt es n := by
  unfold visit
  exact append_foldl Progress.journal (run n) (fun _ _ _ => rfl) _

/-- The journal of a collection has the entries of the nodes, then the count. -/
theorem journal_collect (root : Node) (es : List (Extractor α)) :
    ∃ visited collected, (collect root es).2 =
      root.wideOrder.flatMap (entriesAt es) ++ [.symbolsCollected visited collected] := by
  have hjournal :
      (root.walkWide (visit es) {}).journal = root.wideOrder.flatMap (entriesAt es) := by
    rw [Node.walkWide_eq_foldl]
    exact append_foldl Progress.journal _ (fun n _ p => journal_visit es n p) _
  refine ⟨(root.walkWide (visit es) {}).visited, (root.walkWide (visit es) {}).results.length, ?_⟩
  rw [collect, hjournal]

end Extractor

namespace Node

/-! ## What is declared -/

/-- The names of the variables that a node declares: constants by `const`, and by `let` and `var`
what may be assigned again. -/
def declaredVariables : Node → List (DeclarationKind × Identifier)
  | .variableDeclaration ds .const _ => ds.map fun d => (.constant, d.id)
  | .variableDeclaration ds .let _ => ds.map fun d => (.reassignable, d.id)
  | .variableDeclaration ds .var _ => ds.map fun d => (.reassignable, d.id)
  | _ => []

/-- The name of the function that a node declares. -/
def declaredFunctions : Node → List Identifier
  | .functionDeclaration id _ _ _ => [id]
  | _ => []

/-- The parameters of the function that a node declares, each with the name of the function. -/
def declaredParameters : Node → List (Identifier × Node)
  | .functionDeclaration id params _ _ => params.map fun p => (id, p)
  | _ => []

/-- The specifiers of the import declaration that a node is. -/
def importSpecifiers : Node → List Node
  | .importDeclaration specifiers _ => specifiers
  | _ => []

/-- The name that a node is, if it is one. -/
def plainName? : Node → Option Identifier
  | .identifier id => some id
  | _ => none

/-- The name that an import specifier takes from the other module, if it names it. -/
def importedName? : Node → Option Identifier
  | .importSpecifier imported _ _ => some imported
  | _ => none

/-- What a node declares, sorted by how it is declared. -/
theorem map_declarations (n : Node) :
    (n.declarations.map fun d => (d.kind, d.name)) =
      n.declaredVariables.map (fun v => (v.1, v.2.name)) ++
        ((n.declaredParameters.filterMap fun p => p.2.plainName?).map
            fun id => (.parameter, id.name)) ++
        n.declaredFunctions.map (fun id => (.function, id.name)) ++
        (n.importSpecifiers.filterMap importedName?).map fun id => (.imported, id.name) := by
  cases n with
  | variableDeclaration ds kind s =>
    cases kind <;>
      simp [declarations, declaredVariables, declaredParameters, declaredFunctions,
        importSpecifiers, Symbol.variableKind]
  | functionDeclaration id params body s =>
    have hparameter : ∀ p : Node, (Declaration.ofParameter? p).map (fun d => (d.kind, d.name)) =
        p.plainName?.map fun id => (.parameter, id.name) := by
      intro p
      cases p <;> rfl
    simp [declarations, declaredVariables, declaredParameters, declaredFunctions, importSpecifiers,
      List.map_filterMap, hparameter, List.filterMap_map]
  | importDeclaration specifiers s =>
    have hspecifier : ∀ p : Node, (Declaration.ofSpecifier? s p).map (fun d => (d.kind, d.name)) =
        p.importedName?.map fun id => (.imported, id.name) := by
      intro p
      cases p <;> rfl
    simp [declarations, declaredVariables, declaredParameters, declaredFunctions, importSpecifiers,
      List.map_filterMap, hspecifier]
  | _ => rfl

/-- The warning for a parameter that is no plain name. -/
def skipWarning? (p : Identifier × Node) : Option Event :=
  if p.2.kind = .identifier then none else some (.parameterSkipped p.2.kind p.1.name)

theorem skipped?_eq (id : Identifier) (p : Node) :
    Symbol.skipped? id.name p = skipWarning? (id, p) := by
  cases p <;> rfl

/-- At a node the shipped extractors warn of parameters. -/
theorem entriesAt_shipped (n : Node) :
    Extractor.entriesAt Extractor.shipped n = n.declaredParameters.filterMap skipWarning? := by
  cases n with
  | functionDeclaration id params body s =>
    have hentries : Extractor.entriesAt Extractor.shipped (.functionDeclaration id params body s) =
        params.filterMap (Symbol.skipped? id.name) := List.append_nil _
    rw [hentries, declaredParameters, List.filterMap_map, funext (skipped?_eq id)]
    rfl
  | _ => rfl

/-- Every parameter is a plain name or is skipped. -/
theorem length_parameters (ps : List (Identifier × Node)) :
    (ps.filterMap fun p => p.2.plainName?).length + (ps.filterMap skipWarning?).length =
      ps.length := by
  induction ps with
  | nil => rfl
  | cons p ps ih =>
    obtain ⟨id, p⟩ := p
    rw [List.filterMap_cons, List.filterMap_cons, List.length_cons, ← ih]
    cases p with
    | identifier => exact Nat.add_right_comm _ 1 _
    | _ => rfl

/-! ## Sums over the nodes -/

/-- The symbols of a tree by their kinds and names, sorted by how they are declared. -/
theorem map_symbols_perm (root : Node) :
    (root.symbols.1.map fun x => (x.kind, x.name)).Perm
      ((root.nodes.flatMap declaredVariables).map (fun v => (v.1, v.2.name)) ++
        ((root.nodes.flatMap declaredParameters).filterMap fun p => p.2.plainName?).map
          (fun id => (.parameter, id.name)) ++
        (root.nodes.flatMap declaredFunctions).map (fun id => (.function, id.name)) ++
        ((root.nodes.flatMap importSpecifiers).filterMap importedName?).map
          fun id => (.imported, id.name)) := by
  have hsymbols : (root.symbols.1.map fun x => (x.kind, x.name)) =
      root.wideOrder.flatMap fun n => n.declarations.map fun d => (d.kind, d.name) := by
    rw [symbols_eq, List.map_map, List.map_flatMap]
    rfl
  rw [hsymbols, funext map_declarations]
  simp only [List.map_flatMap, List.filterMap_flatMap]
  refine ((wideOrder_perm_nodes root).flatMap_right _).trans ?_
  refine (List.flatMap_append_perm _ _ _).symm.trans (.append_right _ ?_)
  refine (List.flatMap_append_perm _ _ _).symm.trans (.append_right _ ?_)
  exact (List.flatMap_append_perm _ _ _).symm

/-- No variable is a parameter. -/
theorem fst_ne_parameter {n : Node} {v : DeclarationKind × Identifier}
    (h : v ∈ n.declaredVariables) : v.1 ≠ .parameter := by
  unfold declaredVariables at h
  split at h
  case h_4 => cases h
  all_goals
    obtain ⟨d, -, rfl⟩ := List.mem_map.1 h
    simp

/-- The symbols of parameters are those of the parameters that are plain names. -/
theorem countP_parameter_symbols (root : Node) :
    (root.symbols.1.countP fun x => x.kind = .parameter) =
      ((root.nodes.flatMap declaredParameters).filterMap fun p => p.2.plainName?).length := by
  have hcount := (map_symbols_perm root).countP_eq fun x => x.1 = .parameter
  have hvariables :
      (root.nodes.flatMap declaredVariables).countP (fun v => v.1 = .parameter) = 0 := by
    refine List.countP_eq_zero.2 fun v hv => ?_
    obtain ⟨n, -, hn⟩ := List.mem_flatMap.1 hv
    simpa using fst_ne_parameter hn
  simpa [List.countP_map, Function.comp_def, hvariables] using hcount

theorem level_of_skipWarning? {p : Identifier × Node} {e : Event} (h : skipWarning? p = some e) :
    e.level = .warn := by
  unfold skipWarning? at h
  split_ifs at h
  cases h
  rfl

/-- The warnings of a collection are those of the parameters that are skipped. -/
theorem filter_warn_perm (root : Node) :
    (root.symbols.2.filter fun e => e.level = .warn).Perm
      ((root.nodes.flatMap declaredParameters).filterMap skipWarning?) := by
  obtain ⟨visited, collected, hjournal⟩ :=
    Extractor.journal_collect root Extractor.shipped
  have hwarn : ∀ e ∈ root.wideOrder.flatMap (Extractor.entriesAt Extractor.shipped),
      decide (e.level = .warn) = true := by
    intro e he
    obtain ⟨n, -, he⟩ := List.mem_flatMap.1 he
    rw [entriesAt_shipped] at he
    obtain ⟨p, -, hp⟩ := List.mem_filterMap.1 he
    exact decide_eq_true (level_of_skipWarning? hp)
  rw [symbols, hjournal, List.filter_append, List.filter_eq_self.2 hwarn,
    funext entriesAt_shipped, List.filterMap_flatMap]
  have hlast : List.filter (fun e : Event => decide (e.level = .warn))
      [.symbolsCollected visited collected] = [] := rfl
  rw [hlast, List.append_nil]
  exact (wideOrder_perm_nodes root).flatMap_right _

/-- **Declarations are conserved.** Over the nodes on the walks through a tree, the symbols are, up
to their order, one for each variable of a declaration, constant or not as its word says, one for
each parameter that is a plain name, one for each function and one for each named import, with the
name declared; what is imported goes under its name in the other module. The warnings are one for
each other parameter, with its kind and its function. So symbols and warnings together account for
all parameters. -/
theorem symbols_account_for_declarations (root : Node) :
    (root.symbols.1.map fun x => (x.kind, x.name)).Perm
        ((root.nodes.flatMap declaredVariables).map (fun v => (v.1, v.2.name)) ++
          ((root.nodes.flatMap declaredParameters).filterMap fun p => p.2.plainName?).map
            (fun id => (.parameter, id.name)) ++
          (root.nodes.flatMap declaredFunctions).map (fun id => (.function, id.name)) ++
          ((root.nodes.flatMap importSpecifiers).filterMap importedName?).map
            fun id => (.imported, id.name)) ∧
      (root.symbols.2.filter fun e => e.level = .warn).Perm
        ((root.nodes.flatMap declaredParameters).filterMap skipWarning?) ∧
      (root.symbols.1.countP fun x => x.kind = .parameter) +
          (root.symbols.2.countP fun e => e.level = .warn) =
        (root.nodes.flatMap declaredParameters).length := by
  refine ⟨map_symbols_perm root, filter_warn_perm root, ?_⟩
  rw [countP_parameter_symbols, List.countP_eq_length_filter, (filter_warn_perm root).length_eq]
  exact length_parameters _

end Node

end ChapterLint
