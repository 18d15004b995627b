import ChapterLint.Proofs.Lint.Findings
import ChapterLint.Proofs.Outline.Declarations

/-!
# Ranges inside ranges

A parser gives spans that lie inside each other as the parts of a program do. Editors rely on the
same of the ranges that they are told: what is selected of a symbol lies in its range, and all
ranges lie in that of the program.

1. Positions are ordered by line, then by column. Counting lines from zero keeps the order, but only
   of lines that were counted from one: the lines zero and one become the same
   (`Position.fromZero_le_fromZero`).
2. `Node.components` lists what stands directly in a node. In a well nested tree the span of every
   node on the walk lies in that of the root (`WellNested.exists_within`): a step of the walk leads
   to a component or, past a declared variable, to a component of one.
3. What is shown is the span of a node on the walk, or of a component of one.
-/

namespace ChapterLint

/-! ## The order of positions -/

namespace Position

/-- A position comes before another or is the same: its line comes first, then its column. -/
instance : LE Position := ⟨fun p q => p.line < q.line ∨ p.line = q.line ∧ p.column ≤ q.column⟩

variable {p q r : Position}

theorem le_def : p ≤ q ↔ p.line < q.line ∨ p.line = q.line ∧ p.column ≤ q.column := Iff.rfl

instance (p q : Position) : Decidable (p ≤ q) := decidable_of_iff _ le_def.symm

theorem le_refl (p : Position) : p ≤ p := .inr ⟨rfl, UInt32.le_refl _⟩

theorem le_trans (h : p ≤ q) (h' : q ≤ r) : p ≤ r := by
  rw [le_def] at h h' ⊢
  rcases h with hline | ⟨hline, hcolumn⟩
  · rcases h' with hline' | ⟨hline', -⟩
    · exact .inl (UInt32.lt_trans hline hline')
    · exact .inl (hline' ▸ hline)
  · rcases h' with hline' | ⟨hline', hcolumn'⟩
    · exact .inl (hline ▸ hline')
    · exact .inr ⟨hline.trans hline', UInt32.le_trans hcolumn hcolumn'⟩

/-- Lines counted from one keep their order. -/
theorem fromZero_le_fromZero (hp : 1 ≤ p.line) (hq : 1 ≤ q.line) (h : p ≤ q) :
    p.fromZero ≤ q.fromZero := by
  rw [fromZero_of_one_le hp, fromZero_of_one_le hq, le_def]
  rcases h with hline | ⟨hline, hcolumn⟩
  · have hlt : p.line - 1 < q.line - 1 := by
      rw [UInt32.lt_iff_toNat_lt, UInt32.toNat_sub_of_le _ _ hp, UInt32.toNat_sub_of_le _ _ hq]
      have hpos : 1 ≤ p.line.toNat := hp
      have hnat : p.line.toNat < q.line.toNat := hline
      show p.line.toNat - 1 < q.line.toNat - 1
      omega
    exact .inl hlt
  · exact .inr ⟨congrArg (· - 1) hline, hcolumn⟩

-- a line zero would not do
example : (⟨0, 9⟩ : Position) ≤ ⟨1, 0⟩ ∧
    ¬ (⟨0, 9⟩ : Position).fromZero ≤ (⟨1, 0⟩ : Position).fromZero := by decide

end Position

/-- A span lies inside another. -/
def Span.Within (s t : Span) : Prop := t.first ≤ s.first ∧ s.last ≤ t.last

/-- A range lies inside another. -/
def Range.Within (r t : Range) : Prop := t.first ≤ r.first ∧ r.last ≤ t.last

instance (s t : Span) : Decidable (s.Within t) := inferInstanceAs (Decidable (_ ∧ _))

instance (r t : Range) : Decidable (r.Within t) := inferInstanceAs (Decidable (_ ∧ _))

namespace Span

theorem Within.refl (s : Span) : s.Within s := ⟨Position.le_refl _, Position.le_refl _⟩

theorem Within.trans {s t u : Span} (h : s.Within t) (h' : t.Within u) : s.Within u :=
  ⟨Position.le_trans h'.1 h.1, Position.le_trans h.2 h'.2⟩

theorem Within.range {s t : Span} (h : s.Within t) (hs : s.FromOne) (ht : t.FromOne) :
    s.range.Within t.range :=
  ⟨Position.fromZero_le_fromZero ht.1 hs.1 h.1, Position.fromZero_le_fromZero hs.2 ht.2 h.2⟩

end Span

/-! ## Components -/

/-- What stands directly in a content of a node, with what it is a component of, by their spans. The
variables of a declaration come between the node and their names and initial values. -/
def Content.components (whole : Span) : (c : Content) → c.type → List (Span × Span)
  | .identifier, id => [(id.span, whole)]
  | .optionalIdentifier, id => id.toList.map fun id => (id.span, whole)
  | .declarators, ds => ds.flatMap fun d =>
    (d.span, whole) :: (d.id.span, d.span) ::
      (d.init.bind Node.span?).toList.map fun t => (t, d.span)
  | c, x => (c.cells x).filterMap fun o => (o.bind Node.span?).map fun t => (t, whole)

/-- The components in all fields. -/
def Content.componentsOf (whole : Span) : (fs : List (Field Content)) → Tuple Content.type fs →
    List (Span × Span)
  | [], () => []
  | f :: fs, (x, rest) => f.sort.components whole x ++ componentsOf whole fs rest

/-- What stands directly in a node, with what it is a component of. The names in an import specifier
may stand elsewhere. -/
def Node.components : Node → List (Span × Span)
  | .importSpecifier .. | .importDefaultSpecifier .. | .importNamespaceSpecifier .. => []
  | n => n.span?.toList.flatMap fun s => Content.componentsOf s n.kind.fields n.contents

/-- A node in a content is a component, or a component of one. -/
theorem Content.mem_components_of_mem_cells {c : Content} {x : c.type} {m : Node} {s t : Span}
    (hm : some m ∈ c.cells x) (ht : m.span? = some t) :
    (t, s) ∈ c.components s x ∨
      ∃ u, (t, u) ∈ c.components s x ∧ (u, s) ∈ c.components s x := by
  cases c with
  | declarators =>
    right
    obtain ⟨d, hd, hinit⟩ := List.mem_map.1 hm
    refine ⟨d.span, List.mem_flatMap.2 ⟨d, hd, ?_⟩, List.mem_flatMap.2 ⟨d, hd, .head _⟩⟩
    rw [hinit, Option.bind_some, ht]
    exact .tail _ (.tail _ (.head _))
  | node | optionalNode | nodes | elements =>
    left
    refine List.mem_filterMap.2 ⟨some m, hm, ?_⟩
    rw [Option.bind_some, ht]
    rfl
  | _ => cases hm

theorem Content.mem_componentsOf_of_mem_cellsOf {fs : List (Field Content)}
    {xs : Tuple Content.type fs} {c : String × List (Option Node)} {m : Node} {s t : Span}
    (hc : c ∈ cellsOf fs xs) (hm : some m ∈ c.2) (ht : m.span? = some t) :
    (t, s) ∈ componentsOf s fs xs ∨
      ∃ u, (t, u) ∈ componentsOf s fs xs ∧ (u, s) ∈ componentsOf s fs xs := by
  induction fs with
  | nil => cases hc
  | cons f fs ih =>
    obtain ⟨x, rest⟩ := xs
    rcases List.mem_cons.1 hc with rfl | hc
    · rcases mem_components_of_mem_cells hm ht with hts | ⟨u, htu, hus⟩
      · exact .inl (List.mem_append_left _ hts)
      · exact .inr ⟨u, List.mem_append_left _ htu, List.mem_append_left _ hus⟩
    · rcases ih hc with hts | ⟨u, htu, hus⟩
      · exact .inl (List.mem_append_right _ hts)
      · exact .inr ⟨u, List.mem_append_right _ htu, List.mem_append_right _ hus⟩

namespace Node

/-- Every component in a tree lies inside what it is a component of. -/
def WellNested : Node → Prop := Everywhere fun n => ∀ c ∈ n.components, c.1.Within c.2

theorem exists_span?_of_mem_children {n c : Node} (h : c ∈ n.children) :
    ∃ s, n.span? = some s := by
  cases n with
  | unknown => cases h
  | _ => exact ⟨_, rfl⟩

/-- A node that holds another is no specifier. -/
theorem components_eq {n m : Node} {c : String × List (Option Node)} {s : Span} (hc : c ∈ n.cells)
    (hm : some m ∈ c.2) (hs : n.span? = some s) :
    n.components = Content.componentsOf s n.kind.fields n.contents := by
  cases n with
  | importSpecifier | importDefaultSpecifier | importNamespaceSpecifier =>
    have hempty : c.2 = [] := by
      clear hm
      revert c
      simp [cells, kind, contents, Content.cellsOf, Content.cells]
    rw [hempty] at hm
    cases hm
  | unknown => cases hs
  | _ =>
    obtain rfl := Option.some_inj.1 hs
    exact List.append_nil _

namespace WellNested

variable {root n m : Node} {s t : Span}

/-- A node in a field of another lies inside it. -/
theorem below_within (h : n.WellNested) {step : Step} (hm : n.below? step = some m)
    (hs : n.span? = some s) (ht : m.span? = some t) : t.Within s := by
  obtain ⟨c, hc, hm⟩ := exists_mem_cells_of_below? hm
  have hhere : ∀ x ∈ Content.componentsOf s n.kind.fields n.contents, x.1.Within x.2 := by
    rw [← components_eq hc hm hs]
    exact h.here
  rcases Content.mem_componentsOf_of_mem_cellsOf hc hm ht with hts | ⟨u, htu, hus⟩
  · exact hhere _ hts
  · exact (hhere _ htu).trans (hhere _ hus)

/-- The nodes on the walk lie inside the root. -/
theorem exists_within (h : root.WellNested) (hm : m ∈ root.nodes) (ht : m.span? = some t) :
    ∃ s, root.span? = some s ∧ t.Within s := by
  induction root using childrenInduction with
  | step root ih =>
    rw [nodes_eq] at hm
    rcases List.mem_cons.1 hm with rfl | hm
    · exact ⟨t, ht, .refl t⟩
    · obtain ⟨c, hc, hm⟩ := List.mem_flatMap.1 hm
      obtain ⟨u, hu, htu⟩ := ih c hc (h.child hc) hm
      obtain ⟨s, hs⟩ := exists_span?_of_mem_children hc
      obtain ⟨step, hstep⟩ := exists_below?_of_mem_children hc
      exact ⟨s, hs, htu.trans (h.below_within hstep hs hu)⟩

/-- What a node declares lies inside the node, and what is to be selected inside that. -/
theorem declares_within (h : n.WellNested) {d : Declaration} (hd : n.Declares d) :
    d.selection.Within d.span ∧ ∃ s, n.span? = some s ∧ d.span.Within s := by
  cases hd with
  | @declarator ds kind s d hd =>
    have hcomponents : ∀ c ∈ Content.components s .declarators ds, c.1.Within c.2 :=
      fun c hc => h.here c (List.mem_append_left _ (List.mem_append_left _ hc))
    have hname : d.id.span.Within d.span :=
      hcomponents _ (List.mem_flatMap.2 ⟨d, hd, .tail _ (.head _)⟩)
    have hvariable : d.span.Within s := hcomponents _ (List.mem_flatMap.2 ⟨d, hd, .head _⟩)
    exact ⟨hname, s, rfl, hvariable⟩
  | @parameter id params body s p hp =>
    obtain ⟨step, hstep⟩ := exists_below?_of_lookup (n := .functionDeclaration id params body s)
      "params" rfl (List.mem_map_of_mem hp)
    exact ⟨.refl _, s, rfl, h.below_within hstep rfl rfl⟩
  | @function id params body s =>
    have hname : id.span.Within s := h.here (id.span, s) (.head _)
    exact ⟨hname, s, rfl, .refl s⟩
  | @imported specifiers s imported name t ht =>
    obtain ⟨step, hstep⟩ := exists_below?_of_lookup (n := .importDeclaration specifiers s)
      "specifiers" rfl (List.mem_map_of_mem ht)
    exact ⟨h.below_within hstep rfl rfl, s, rfl, .refl s⟩

end WellNested

/-- **What editors are told lies inside the program.** Let the lines of a tree be counted from one
and its spans be nested as its components are. Then in every context each symbol of its outline
has its selection inside its range and its range inside that of the root, and so has each diagnostic
of the built-in rules. -/
theorem ranges_within {root : Node} (hlines : root.EverySpan Span.FromOne)
    (hnested : root.WellNested) (context : Context) :
    (root.outline context).1 = .array (root.symbols.1.map (Symbol.toJson context)) ∧
      (∀ x ∈ root.symbols.1, x.selection.Within x.range ∧
        ∃ s, root.span? = some s ∧ x.range.Within s.range) ∧
      ∀ d ∈ (Registry.builtin.lint context root).1,
        ∃ s, root.span? = some s ∧ d.range.Within s.range := by
  refine ⟨rfl, ?_, ?_⟩
  · intro x hx
    rw [symbols_eq] at hx
    obtain ⟨d, hd, rfl⟩ := List.mem_map.1 hx
    obtain ⟨hspan, hselection⟩ := hlines.of_mem_declarations hd
    obtain ⟨n, hn, hdeclares⟩ := exists_declares_of_mem hd
    obtain ⟨hinner, t, ht, hdt⟩ :=
      WellNested.declares_within (hnested.of_mem_nodes hn) hdeclares
    obtain ⟨s, hs, hts⟩ := hnested.exists_within hn ht
    exact ⟨hinner.range hselection hspan, s, hs, (hdt.trans hts).range hspan (hlines.span hs)⟩
  · intro d hd
    rw [Registry.lint_builtin] at hd
    obtain ⟨x, hx, rfl⟩ := List.mem_map.1 hd
    obtain ⟨n, hn, ht⟩ := exists_span?_of_mem_findings hx
    obtain ⟨s, hs, hts⟩ := hnested.exists_within hn ht
    exact ⟨s, hs, hts.range (hlines.of_mem_findings hx) (hlines.span hs)⟩

/-- A function on two lines, with two symbols and a diagnostic. -/
theorem ranges_within_breakFunction :
    let whole : Span := ⟨⟨1, 0⟩, ⟨2, 6⟩⟩
    let root := breakFunction ⟨⟨1, 9⟩, ⟨1, 10⟩⟩ ⟨⟨1, 11⟩, ⟨1, 12⟩⟩ ⟨⟨2, 0⟩, ⟨2, 6⟩⟩ whole
    let report := (Registry.builtin.lint ⟨.source1, .default⟩ root).1
    root.EverySpan Span.FromOne ∧ root.WellNested ∧
      root.symbols.1.map Symbol.name = ["x", "f"] ∧
      report.map Diagnostic.ruleId = ["break-statement"] ∧
      (∀ x ∈ root.symbols.1, x.selection.Within x.range ∧ x.range.Within whole.range) ∧
      ∀ d ∈ report, d.range.Within whole.range := by
  intro whole root report
  have hlines : root.EverySpan Span.FromOne :=
    everywhere_breakFunction (by decide) (by decide) (by decide)
  have hnested : root.WellNested := everywhere_breakFunction (by decide) (by decide) (by decide)
  obtain ⟨-, hsymbols, hlint⟩ := ranges_within hlines hnested ⟨.source1, .default⟩
  refine ⟨hlines, hnested, ?_, ?_, fun x hx => ?_, fun d hd => ?_⟩
  · rw [symbols_eq, wideOrder_breakFunction]
    decide
  · rw [Registry.map_ruleId_lint_builtin, nodes_breakFunction]
    decide
  · obtain ⟨hselection, s, hs, hx⟩ := hsymbols x hx
    obtain rfl := Option.some_inj.1 hs
    exact ⟨hselection, hx⟩
  · obtain ⟨s, hs, hd⟩ := hlint d hd
    obtain rfl := Option.some_inj.1 hs
    exact hd

end Node

end ChapterLint
