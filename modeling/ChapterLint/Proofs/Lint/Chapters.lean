import ChapterLint.Proofs.Lint.Filter
import ChapterLint.Proofs.Lint.Findings
import ChapterLint.Proofs.Outline.Declarations
import ChapterLint.Proofs.Session.Entries

/-!
# What a context decides

A context has a chapter and a variant, and an analysis asks it one question: whether the chapter is
before the third. The rules ask it by the order of the chapters (`Node.findings_congr`), the icons
by a list of them (`DeclarationKind.icon_parameter`), and both draw the line at the same place. So
two contexts with the same answer cannot be told apart by a lint, by a configured lint or by an
outline.

Contexts with different answers still have the same outline but for icons. An outline is read as one
entry for each declaration, and only the icon of a parameter depends on the context
(`DeclarationKind.icon_eq_of_ne_parameter`).
-/

namespace ChapterLint

/-- Two contexts are on the same side of the third chapter. -/
def Context.SameSide (c c' : Context) : Prop :=
  c.chapter.number < 3 ↔ c'.chapter.number < 3

theorem Context.SameSide.beforeSource3_eq {c c' : Context} (h : c.SameSide c') :
    c.chapter.beforeSource3 = c'.chapter.beforeSource3 :=
  decide_eq_decide.2 h

/-! ## Findings -/

namespace Rule

variable {c c' : Context} (h : c.chapter.beforeSource3 = c'.chapter.beforeSource3)

include h

theorem breakFindings_congr : breakFindings c = breakFindings c' := by
  funext n
  cases n with
  | breakStatement s => rw [breakFindings, breakFindings, h]
  | _ => rfl

theorem continueFindings_congr : continueFindings c = continueFindings c' := by
  funext n
  cases n with
  | continueStatement s => rw [continueFindings, continueFindings, h]
  | _ => rfl

theorem ifFindings_congr : ifFindings c = ifFindings c' := by
  funext n
  cases n with
  | ifStatement test consequent alternate s => rw [ifFindings, ifFindings, h]
  | _ => rfl

theorem memberFindings_congr : memberFindings c = memberFindings c' := by
  funext n
  cases n with
  | memberExpression object index computed s => rw [memberFindings, memberFindings, h]
  | _ => rfl

end Rule

/-- At every node the rules find the same on the same side. -/
theorem Node.findings_congr {c c' : Context} (h : c.SameSide c') :
    Node.findings c = Node.findings c' := by
  have hside := h.beforeSource3_eq
  funext n
  unfold Node.findings
  rw [Rule.breakFindings_congr hside, Rule.continueFindings_congr hside,
    Rule.ifFindings_congr hside, Rule.memberFindings_congr hside]

namespace Registry

theorem lint_builtin_congr {c c' : Context} (h : c.SameSide c') (root : Node) :
    (builtin.lint c root).1 = (builtin.lint c' root).1 := by
  rw [lint_builtin, lint_builtin, Node.findings_congr h]

theorem lintWith_builtin_congr {c c' : Context} (h : c.SameSide c') (config : Config)
    (root : Node) : (builtin.lintWith config c root).1 = (builtin.lintWith config c' root).1 := by
  have hplain : (builtin.apply {} c root).1 = (builtin.apply {} c' root).1 :=
    lint_builtin_congr h root
  have happly : (builtin.apply config c root).1 = (builtin.apply config c' root).1 := by
    rw [apply_eq_filter Rule.builtin_appends_signs, hplain,
      ← apply_eq_filter Rule.builtin_appends_signs]
  exact congrArg (noteLimit config) happly

end Registry

/-! ## Icons -/

namespace DeclarationKind

/-- The list of chapters is cut where their order is. -/
theorem icon_parameter (c : Context) :
    parameter.icon c = if c.chapter.beforeSource3 then .constant else .variable := by
  obtain ⟨chapter, variant⟩ := c
  cases chapter <;> rfl

theorem icon_congr {c c' : Context} (h : c.SameSide c') (k : DeclarationKind) :
    k.icon c = k.icon c' := by
  cases k with
  | parameter => rw [icon_parameter, icon_parameter, h.beforeSource3_eq]
  | _ => rfl

theorem icon_eq_of_ne_parameter {k : DeclarationKind} (hk : k ≠ .parameter) (c c' : Context) :
    k.icon c = k.icon c' := by
  cases k with
  | parameter => exact absurd rfl hk
  | _ => rfl

end DeclarationKind

theorem Node.outline_congr {c c' : Context} (h : c.SameSide c') (root : Node) :
    root.outline c = root.outline c' := by
  have hsymbol : Symbol.toJson c = Symbol.toJson c' := by
    funext s
    unfold Symbol.toJson
    rw [s.kind.icon_congr h]
  unfold Node.outline
  rw [hsymbol]

/-- An outline is read as one entry for each symbol. -/
theorem Node.read_outline (c : Context) (root : Node) :
    Json.asList OutlineEntry.read (root.outline c).1 =
      .ok (root.symbols.1.map (OutlineEntry.ofSymbol c)) :=
  (IsDocument.map (Symbol.isDocument_toJson c) root.symbols.1).read_eq

/-- A symbol that is a parameter comes from a parameter of a function declaration. -/
theorem Node.exists_parameter_of_mem_symbols {root : Node} {s : Symbol}
    (hs : s ∈ root.symbols.1) (hkind : s.kind = .parameter) :
    ∃ id params body span p, root.Reaches (.functionDeclaration id params body span) ∧
      .identifier p ∈ params ∧ s = ⟨p.name, .parameter, p.span.range, p.span.range⟩ := by
  rw [Node.symbols_eq] at hs
  obtain ⟨d, hd, rfl⟩ := List.mem_map.1 hs
  obtain ⟨n, hn, hdeclares⟩ := Node.exists_declares_of_mem hd
  have hreaches := Node.mem_nodes_iff_reaches.1 hn
  cases hdeclares with
  | @declarator ds kind s x hx => cases kind <;> cases hkind
  | parameter hp => exact ⟨_, _, _, _, _, hreaches, hp, rfl⟩
  | function => cases hkind
  | imported ht => cases hkind

/-- **A context decides by its side of the third chapter alone.** Contexts on the same side, of
whatever variants, give the same lint, the same lint under any configuration and the same outline.
In any two contexts the outline has as many entries, with the same names, ranges and selections in
the same order; an entry can differ in its kind only if it shows a parameter of a function. -/
theorem Context.lint_outline_congr :
    (∀ (c c' : Context), (c.chapter.number < 3 ↔ c'.chapter.number < 3) →
      ∀ (root : Node) (config : Config),
        (Registry.builtin.lint c root).1 = (Registry.builtin.lint c' root).1 ∧
        (Registry.builtin.lintWith config c root).1 =
          (Registry.builtin.lintWith config c' root).1 ∧
        root.outline c = root.outline c') ∧
    ∀ (c c' : Context) (root : Node), ∃ entries entries' : List OutlineEntry,
      Json.asList OutlineEntry.read (root.outline c).1 = .ok entries ∧
      Json.asList OutlineEntry.read (root.outline c').1 = .ok entries' ∧
      entries.length = entries'.length ∧
      ∀ (i : Nat) (e e' : OutlineEntry), entries[i]? = some e → entries'[i]? = some e' →
        e.name = e'.name ∧ e.range = e'.range ∧ e.selection = e'.selection ∧
        (e.kind ≠ e'.kind → ∃ id params body span p,
          root.Reaches (.functionDeclaration id params body span) ∧ .identifier p ∈ params ∧
            root.symbols.1[i]? = some ⟨p.name, .parameter, p.span.range, p.span.range⟩) := by
  refine ⟨fun c c' h root config => ?_, fun c c' root => ?_⟩
  · exact ⟨Registry.lint_builtin_congr h root, Registry.lintWith_builtin_congr h config root,
      root.outline_congr h⟩
  · refine ⟨_, _, root.read_outline c, root.read_outline c', by simp, fun i e e' he he' => ?_⟩
    rw [List.getElem?_map, Option.map_eq_some_iff] at he he'
    obtain ⟨s, hs, rfl⟩ := he
    obtain ⟨s', hs', rfl⟩ := he'
    obtain rfl : s = s' := Option.some_inj.1 (hs.symm.trans hs')
    refine ⟨rfl, rfl, rfl, fun hkind => ?_⟩
    have hparameter : s.kind = .parameter := by
      by_contra hne
      exact hkind (congrArg (fun icon => (SymbolIcon.number icon : Int))
        (DeclarationKind.icon_eq_of_ne_parameter hne c c'))
    obtain ⟨id, params, body, span, p, hreaches, hp, rfl⟩ :=
      Node.exists_parameter_of_mem_symbols (List.mem_of_getElem? hs) hparameter
    exact ⟨id, params, body, span, p, hreaches, hp, hs⟩

/-- The third chapter and the fourth, in different variants, are on the same side. The second one is
not, but its outline has as many entries. -/
theorem Context.lint_outline_congr_parameter :
    let s : Span := ⟨⟨1, 0⟩, ⟨1, 9⟩⟩
    let root : Node := .functionDeclaration ⟨"f", s⟩ [.identifier ⟨"x", s⟩] (.breakStatement s) s
    (∀ config : Config,
      (Registry.builtin.lintWith config ⟨.source3, .typed⟩ root).1 =
        (Registry.builtin.lintWith config ⟨.source4, .native⟩ root).1) ∧
      ∃ entries entries' : List OutlineEntry,
        Json.asList OutlineEntry.read (root.outline ⟨.source2, .default⟩).1 = .ok entries ∧
        Json.asList OutlineEntry.read (root.outline ⟨.source3, .typed⟩).1 = .ok entries' ∧
        entries.length = entries'.length := by
  intro s root
  have hside : Chapter.source3.number < 3 ↔ Chapter.source4.number < 3 := by decide
  refine ⟨fun config => ?_, ?_⟩
  · exact (lint_outline_congr.1 ⟨.source3, .typed⟩ ⟨.source4, .native⟩ hside root config).2.1
  · obtain ⟨entries, entries', hread, hread', hlength, -⟩ :=
      lint_outline_congr.2 ⟨.source2, .default⟩ ⟨.source3, .typed⟩ root
    exact ⟨entries, entries', hread, hread', hlength⟩

end ChapterLint
