import ChapterLint.Proofs.Lint.Findings
import ChapterLint.Proofs.Outline.Declarations

/-!
# Moving a program down

When a program is moved down by some lines, for instance because text is put before it, its reports
and its outline move with it and change in nothing else.

1. No decision depends on a span: if the spans of a tree are replaced, whatever by, then findings
   and declarations are the same but for their spans (`findings_mapSpans`,
   `declarations_mapSpans`).
2. The spans that they show are spans of the tree (`EverySpan.of_mem_findings`,
   `EverySpan.of_mem_declarations`), nodes without a span and parameters included.
3. Each of these becomes a range once, at the end, and this commutes with moving lines, where the
   lines are counted from one and none is moved beyond the last that can be told
   (`Span.range_shift`).
-/

namespace ChapterLint

/-! ## Other spans -/

/-- The finding with its span replaced. -/
def Finding.mapSpan (f : Span → Span) (x : Finding) : Finding := { x with span := f x.span }

/-- The declaration with its spans replaced. -/
def Declaration.mapSpans (f : Span → Span) (d : Declaration) : Declaration :=
  { d with span := f d.span, selection := f d.selection }

section OtherSpans

variable (f : Span → Span)

namespace Rule

variable (context : Context) (n : Node)

theorem breakFindings_mapSpans :
    breakFindings context (n.mapSpans f) = (breakFindings context n).map fun x => (x.1, f x.2) := by
  cases n with
  | breakStatement s =>
    rw [Node.mapSpans, breakFindings, breakFindings, apply_ite (List.map _)]
    rfl
  | _ => rfl

theorem continueFindings_mapSpans :
    continueFindings context (n.mapSpans f) =
      (continueFindings context n).map fun x => (x.1, f x.2) := by
  cases n with
  | continueStatement s =>
    rw [Node.mapSpans, continueFindings, continueFindings, apply_ite (List.map _)]
    rfl
  | _ => rfl

theorem ifFindings_mapSpans :
    ifFindings context (n.mapSpans f) = (ifFindings context n).map fun x => (x.1, f x.2) := by
  cases n with
  | ifStatement test consequent alternate s =>
    have hspan : (consequent.mapSpans f).span?.getD (f s) = f (consequent.span?.getD s) := by
      rw [Node.span?_mapSpans, Option.getD_map]
    have hbranch : ((alternate.map (Node.mapSpans f)).any fun n => n.kind ≠ .blockStatement) =
        alternate.any fun n => n.kind ≠ .blockStatement := by
      cases alternate <;> simp
    simp only [Node.mapSpans, ifFindings, Node.mapSpansOption_eq_map, Option.isNone_map,
      Node.kind_mapSpans, hspan, hbranch, List.map_append, apply_ite (List.map _), List.map_cons,
      List.map_nil]
  | _ => rfl

theorem wrongIndex?_mapSpans : wrongIndex? (n.mapSpans f) = wrongIndex? n := by
  cases n with
  | unaryExpression operator argument s =>
    cases argument <;> rfl
  | _ => rfl

theorem memberFindings_mapSpans :
    memberFindings context (n.mapSpans f) =
      (memberFindings context n).map fun x => (x.1, f x.2) := by
  cases n with
  | memberExpression object index computed s =>
    rw [Node.mapSpans, memberFindings, memberFindings, wrongIndex?_mapSpans]
    split_ifs
    · rfl
    · rfl
    · cases wrongIndex? index with
      | none => rfl
      | some got =>
        dsimp only
        rw [Node.span?_mapSpans, Option.getD_map]
        rfl
  | _ => rfl

end Rule

namespace Node

/-- Findings follow the spans of the tree. -/
theorem findings_mapSpans (context : Context) (n : Node) :
    (n.mapSpans f).findings context = (n.findings context).map (Finding.mapSpan f) := by
  have hsigned : ∀ (id : String) (found : List (String × Span)),
      Finding.signed id (found.map fun x => (x.1, f x.2)) =
        (Finding.signed id found).map (Finding.mapSpan f) := by
    intro id found
    rw [Finding.signed, Finding.signed, List.map_map, List.map_map]
    rfl
  simp only [findings, Rule.breakFindings_mapSpans, Rule.continueFindings_mapSpans,
    Rule.ifFindings_mapSpans, Rule.memberFindings_mapSpans, hsigned, List.map_append]

theorem ofParameter?_mapSpans (n : Node) :
    Declaration.ofParameter? (n.mapSpans f) =
      (Declaration.ofParameter? n).map (Declaration.mapSpans f) := by
  cases n <;> rfl

theorem ofSpecifier?_mapSpans (s : Span) (n : Node) :
    Declaration.ofSpecifier? (f s) (n.mapSpans f) =
      (Declaration.ofSpecifier? s n).map (Declaration.mapSpans f) := by
  cases n <;> rfl

/-- Declarations follow the spans of the tree. -/
theorem declarations_mapSpans (n : Node) :
    (n.mapSpans f).declarations = n.declarations.map (Declaration.mapSpans f) := by
  cases n with
  | variableDeclaration ds kind s =>
    rw [mapSpans, mapSpansDeclarators_eq_map, declarations, declarations, List.map_map,
      List.map_map]
    rfl
  | functionDeclaration id params body s =>
    rw [mapSpans, mapSpansList_eq_map, declarations, declarations, List.filterMap_map,
      List.map_append, List.map_filterMap]
    refine congrArg₂ _ (congrArg₂ _ ?_ rfl) rfl
    funext p
    exact ofParameter?_mapSpans f p
  | importDeclaration specifiers s =>
    rw [mapSpans, mapSpansList_eq_map, declarations, declarations, List.filterMap_map,
      List.map_filterMap]
    refine congrArg₂ _ ?_ rfl
    funext p
    exact ofSpecifier?_mapSpans f s p
  | _ => rfl

end Node

end OtherSpans

/-! ## Moving down -/

/-- The position some lines further down. -/
def Position.shift (k : Nat) (p : Position) : Position := ⟨p.line + .ofNat k, p.column⟩

/-- The span some lines further down. -/
def Span.shift (k : Nat) (s : Span) : Span := ⟨s.first.shift k, s.last.shift k⟩

/-- The range some lines further down. -/
def Range.shift (k : Nat) (r : Range) : Range := ⟨r.first.shift k, r.last.shift k⟩

/-- The diagnostic some lines further down. -/
def Diagnostic.shift (k : Nat) (d : Diagnostic) : Diagnostic := { d with range := d.range.shift k }

/-- The symbol some lines further down. -/
def Symbol.shift (k : Nat) (s : Symbol) : Symbol :=
  { s with range := s.range.shift k, selection := s.selection.shift k }

/-- The tree some lines further down. -/
def Node.shift (k : Nat) (n : Node) : Node := n.mapSpans (Span.shift k)

/-- The lines of a span can be moved down without going beyond the last line that can be told. -/
def Span.HasRoom (k : Nat) (s : Span) : Prop :=
  s.first.line.toNat + k < UInt32.size ∧ s.last.line.toNat + k < UInt32.size

instance (k : Nat) (s : Span) : Decidable (s.HasRoom k) := inferInstanceAs (Decidable (_ ∧ _))

theorem Position.fromZero_shift {k : Nat} {p : Position} (hline : 1 ≤ p.line)
    (hroom : p.line.toNat + k < UInt32.size) : (p.shift k).fromZero = p.fromZero.shift k := by
  have hpos : 1 ≤ p.line.toNat := hline
  have hroom : p.line.toNat + k < 4294967296 := hroom
  have hsum : (p.line + .ofNat k).toNat = p.line.toNat + k := by
    rw [UInt32.toNat_add, UInt32.toNat_ofNat']
    omega
  have hmoved : 1 ≤ (p.shift k).line := by
    show 1 ≤ (p.line + .ofNat k).toNat
    omega
  rw [fromZero_of_one_le hline, fromZero_of_one_le hmoved, shift, shift]
  congr 1
  grind

/-- Lines are moved before or after they are counted from zero. -/
theorem Span.range_shift {k : Nat} {s : Span} (hlines : s.FromOne) (hroom : s.HasRoom k) :
    (s.shift k).range = s.range.shift k := by
  rw [range, range, Range.shift, ← Position.fromZero_shift hlines.1 hroom.1,
    ← Position.fromZero_shift hlines.2 hroom.2]
  rfl

namespace Node

variable {t : Node} {k : Nat}

theorem lint_shift (h : t.EverySpan fun s => (s.shift k).range = s.range.shift k)
    (context : Context) :
    (Registry.builtin.lint context (t.shift k)).1 =
      (Registry.builtin.lint context t).1.map (Diagnostic.shift k) := by
  rw [Registry.lint_builtin, Registry.lint_builtin, shift, nodes_mapSpans, List.flatMap_map,
    List.map_map]
  simp only [findings_mapSpans]
  rw [← List.map_flatMap, List.map_map]
  refine List.map_congr_left fun x hx => ?_
  have hrange := h.of_mem_findings hx
  show Diagnostic.mk _ (x.span.shift k).range _ _ = _
  rw [hrange]
  rfl

theorem symbols_shift (h : t.EverySpan fun s => (s.shift k).range = s.range.shift k) :
    (t.shift k).symbols.1 = t.symbols.1.map (Symbol.shift k) := by
  rw [symbols_eq, symbols_eq, shift, wideOrder_mapSpans, List.flatMap_map, List.map_map]
  simp only [declarations_mapSpans]
  rw [← List.map_flatMap, List.map_map]
  refine List.map_congr_left fun d hd => ?_
  obtain ⟨hspan, hselection⟩ := h.of_mem_declarations hd
  show Symbol.mk _ _ (d.span.shift k).range (d.selection.shift k).range = _
  rw [hspan, hselection]
  rfl

/-- **Reports and outlines move with the program.** Let the lines of a tree be counted from one, and
move it down by some lines so that all lines can still be told. Then the report of the built-in
rules, in every context, is the old one with every range moved down, and so is the outline with the
ranges and the selections of its symbols. The spans of the moved tree are the old ones moved down,
wherever they stand. -/
theorem lint_outline_shift (hlines : t.EverySpan Span.FromOne)
    (hroom : t.EverySpan (Span.HasRoom k)) (context : Context) :
    (Registry.builtin.lint context (t.shift k)).1 =
        (Registry.builtin.lint context t).1.map (Diagnostic.shift k) ∧
      (t.shift k).symbols.1 = t.symbols.1.map (Symbol.shift k) ∧
      (t.outline context).1 = .array (t.symbols.1.map (Symbol.toJson context)) ∧
      ((t.shift k).outline context).1 =
        .array ((t.symbols.1.map (Symbol.shift k)).map (Symbol.toJson context)) ∧
      ∀ P, (t.shift k).EverySpan P ↔ t.EverySpan fun s => P (s.shift k) := by
  have hrange : t.EverySpan fun s => (s.shift k).range = s.range.shift k :=
    fun place n hn s hs => Span.range_shift (hlines place n hn s hs) (hroom place n hn s hs)
  have hsymbols := symbols_shift hrange
  refine ⟨lint_shift hrange context, hsymbols, rfl, ?_, fun P => everySpan_mapSpans _ t⟩
  rw [← hsymbols]
  rfl

/-- A function moved down to the last line that can be told. -/
theorem lint_outline_shift_lastLine :
    let s : Span := ⟨⟨1, 0⟩, ⟨2, 9⟩⟩
    let moved : Range := ⟨⟨4294967293, 0⟩, ⟨4294967294, 9⟩⟩
    let t := breakFunction s s s s
    let context : Context := ⟨.source1, .default⟩
    t.EverySpan Span.FromOne ∧ t.EverySpan (Span.HasRoom 4294967293) ∧
      (Registry.builtin.lint context (t.shift 4294967293)).1.map Diagnostic.range = [moved] ∧
      (t.shift 4294967293).symbols.1 =
        [⟨"x", .parameter, moved, moved⟩, ⟨"f", .function, moved, moved⟩] := by
  intro s moved t context
  have hlines : t.EverySpan Span.FromOne :=
    everywhere_breakFunction (by decide) (by decide) (by decide)
  have hroom : t.EverySpan (Span.HasRoom 4294967293) :=
    everywhere_breakFunction (by decide) (by decide) (by decide)
  obtain ⟨hlint, hsymbols, -⟩ := lint_outline_shift hlines hroom context
  refine ⟨hlines, hroom, ?_, ?_⟩
  · rw [hlint, Registry.lint_builtin, nodes_breakFunction]
    decide
  · rw [hsymbols, symbols_eq, wideOrder_breakFunction]
    decide

end Node

end ChapterLint
