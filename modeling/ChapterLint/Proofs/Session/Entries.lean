import ChapterLint.Proofs.Session.Answer
import ChapterLint.Proofs.Tree.Document

/-!
# What an editor reads

An answer is the text of a list of records: the symbols of an outline, or the diagnostics of a
report. An editor reads the records back by the rules for all documents, without knowing how they
were written. `OutlineEntry.read` and `ReportEntry.read` are such readers, and
`step_document_read_back` says that they find what was written, item for item, whatever characters
the names and the messages hold.
-/

namespace ChapterLint

/-! ## Records of an editor -/

/-- A position as an editor writes it, a record of `line` and `character`. -/
def Position.ofEditor (j : Json) : Except Fault Position := do
  let (line, column) ← Record.readPair .inText "Position"
    { key := "line", read := readCoordinate } { key := "character", read := readCoordinate } j
  return ⟨line, column⟩

/-- A range, a record of `start` and `end`. -/
def Range.ofEditor (j : Json) : Except Fault Range := do
  let (first, last) ← Record.readPair .inText "Range"
    { key := "start", read := Position.ofEditor } { key := "end", read := Position.ofEditor } j
  return ⟨first, last⟩

/-- What the fields of an editor's records hold. -/
inductive EditorPart where
  | text
  | number
  | range

/-- The type of a part. -/
@[reducible]
def EditorPart.type : EditorPart → Type
  | .text => String
  | .number => Int
  | .range => Range

/-- How the parts are read; none may be absent. -/
def EditorPart.reader : Contents EditorPart.type where
  read
    | .text => Json.asText
    | .number => Json.asInteger (-Context.greatestInteger - 1) Context.greatestInteger .integer
    | .range => Range.ofEditor
  absent _ := none

/-- An entry of an outline. -/
structure OutlineEntry where
  name : String
  kind : Int
  range : Range
  selection : Range
deriving DecidableEq, Repr

/-- An entry of a report. -/
structure ReportEntry where
  range : Range
  severity : Int
  code : String
  source : String
  message : String
deriving DecidableEq, Repr

namespace OutlineEntry

/-- An entry, a record of its name, the number of its kind and its ranges. -/
def read (j : Json) : Except Fault OutlineEntry := do
  let (name, kind, range, selection, ()) ← Record.read EditorPart.reader .inText "DocumentSymbol"
    [⟨"name", .text⟩, ⟨"kind", .number⟩, ⟨"range", .range⟩, ⟨"selectionRange", .range⟩] j
  return ⟨name, kind, range, selection⟩

/-- The entry of a symbol. -/
def ofSymbol (context : Context) (s : Symbol) : OutlineEntry :=
  ⟨s.name, (s.kind.icon context).number, s.range, s.selection⟩

end OutlineEntry

namespace ReportEntry

/-- An entry, a record of its range, the number of its severity and its texts. -/
def read (j : Json) : Except Fault ReportEntry := do
  let (range, severity, code, source, message, ()) ← Record.read EditorPart.reader .inText
    "Diagnostic" [⟨"range", .range⟩, ⟨"severity", .number⟩, ⟨"code", .text⟩, ⟨"source", .text⟩,
      ⟨"message", .text⟩] j
  return ⟨range, severity, code, source, message⟩

/-- The entry of a diagnostic. -/
def ofDiagnostic (d : Diagnostic) : ReportEntry :=
  ⟨d.range, d.severity.number, d.ruleId, "source", d.message⟩

end ReportEntry

/-! ## Documents of entries -/

theorem Position.isDocument_toJson (p : Position) :
    IsDocument Position.ofEditor p.toJson p := by
  have h := IsDocument.pair (f := { key := "line", read := readCoordinate })
    (g := { key := "character", read := readCoordinate }) (by decide)
    (isDocument_coordinate p.line) (isDocument_coordinate p.column) .inText "Position"
  exact h.bind rfl

theorem Range.isDocument_toJson (r : Range) : IsDocument Range.ofEditor r.toJson r := by
  have h := IsDocument.pair (f := { key := "start", read := Position.ofEditor })
    (g := { key := "end", read := Position.ofEditor }) (by decide) r.first.isDocument_toJson
    r.last.isDocument_toJson .inText "Range"
  exact h.bind rfl

theorem isDocument_number {n : Nat} (h : n < 2 ^ 63) :
    IsDocument (EditorPart.reader.read .number) (.natural n) (n : Int) := by
  have hgreatest : Context.greatestInteger = 2 ^ 63 - 1 := rfl
  exact .integer ⟨by omega, by omega⟩ ⟨by omega, by omega⟩ .integer

theorem SymbolIcon.number_lt (i : SymbolIcon) : i.number < 2 ^ 63 := by cases i <;> decide

theorem Severity.number_lt (s : Severity) : s.number < 2 ^ 63 := by cases s <;> decide

theorem Symbol.isDocument_toJson (context : Context) (s : Symbol) :
    IsDocument OutlineEntry.read (s.toJson context) (.ofSymbol context s) := by
  have horder : Record.InOrder EditorPart.reader
      [⟨"name", .text⟩, ⟨"kind", .number⟩, ⟨"range", .range⟩, ⟨"selectionRange", .range⟩]
      [("name", .text s.name), ("kind", .natural (s.kind.icon context).number),
        ("range", s.range.toJson), ("selectionRange", s.selection.toJson)]
      (s.name, ((s.kind.icon context).number : Int), s.range, s.selection, ()) :=
    ⟨rfl, .text s.name, rfl, isDocument_number (s.kind.icon context).number_lt, rfl,
      s.range.isDocument_toJson, rfl, s.selection.isDocument_toJson, trivial⟩
  exact (IsDocument.record (by decide) horder .inText "DocumentSymbol").bind rfl

theorem Diagnostic.isDocument_toJson (d : Diagnostic) :
    IsDocument ReportEntry.read d.toJson (.ofDiagnostic d) := by
  have horder : Record.InOrder EditorPart.reader
      [⟨"range", .range⟩, ⟨"severity", .number⟩, ⟨"code", .text⟩, ⟨"source", .text⟩,
        ⟨"message", .text⟩]
      [("range", d.range.toJson), ("severity", .natural d.severity.number),
        ("code", .text d.ruleId), ("source", .text "source"), ("message", .text d.message)]
      (d.range, (d.severity.number : Int), d.ruleId, "source", d.message, ()) :=
    ⟨rfl, d.range.isDocument_toJson, rfl, isDocument_number d.severity.number_lt, rfl,
      .text d.ruleId, rfl, .text "source", rfl, .text d.message, trivial⟩
  exact (IsDocument.record (by decide) horder .inText "Diagnostic").bind rfl

/-- A list is written item for item. -/
theorem IsDocument.map {α β : Type} {read : Json → Except Fault β} {write : α → Json} {f : α → β}
    (h : ∀ x, IsDocument read (write x) (f x)) (xs : List α) :
    IsDocument (Json.asList read) (.array (xs.map write)) (xs.map f) := by
  induction xs with
  | nil => exact .nil
  | cons x xs ih => exact (h x).cons ih

theorem Node.readText_outline (context : Context) (root : Node) :
    readText (Json.asList OutlineEntry.read) (root.outline context).1.toText =
      .ok (root.symbols.1.map (.ofSymbol context)) :=
  (IsDocument.map (Symbol.isDocument_toJson context) _).readText_toText

theorem Report.readText_toJson (report : Report) :
    readText (Json.asList ReportEntry.read) report.toJson.toText =
      .ok (report.map .ofDiagnostic) :=
  (IsDocument.map Diagnostic.isDocument_toJson report).readText_toText

/-! ## Answers -/

namespace Session

/-- A text that is a tree is answered in every session. -/
theorem step_document_of_parse (s : Session) {text : String} {root : Node}
    (hroot : Node.parse text = .ok root) (question : Question) (c : Chapter) :
    (s.step (.document question (some (Utf8.encode text)) c.number)).1 =
      some (reply question { chapter := c } root).1.toText := by
  have hzero := Utf8.zero_notMem_encode (Node.zero_notMem_of_parse hroot)
  rw [s.step_document_of_ok (answer_of_parse hzero hroot question c)]

/-- **An editor reads what was found.** Take the bytes of a text that is a tree, and a chapter. The
answer about the outline is read as one entry for each symbol of the tree, in their order, with its
name, the number of its kind and its ranges. The answer about the lint is read as one entry for each
diagnostic of the text, in their order, with its range, the number of its severity, the id of its
rule and its message. -/
theorem step_document_read_back (s : Session) {text : String} {root : Node}
    (hroot : Node.parse text = .ok root) (c : Chapter) :
    (∃ out, (s.step (.document .outline (some (Utf8.encode text)) c.number)).1 = some out ∧
      readText (Json.asList OutlineEntry.read) out =
        .ok (root.symbols.1.map (.ofSymbol { chapter := c }))) ∧
    ∃ out report journal,
      (s.step (.document .lint (some (Utf8.encode text)) c.number)).1 = some out ∧
        Registry.builtin.lintText { chapter := c } text = .ok (report, journal) ∧
        readText (Json.asList ReportEntry.read) out = .ok (report.map .ofDiagnostic) := by
  refine ⟨⟨_, s.step_document_of_parse hroot .outline c, ?_⟩,
    ⟨_, _, _, s.step_document_of_parse hroot .lint c, bind_eq_ok_iff.2 ⟨root, hroot, rfl⟩, ?_⟩⟩
  · exact root.readText_outline { chapter := c }
  · exact Report.readText_toJson _

/-- The constant declaration of a name of a zero character and a quote. -/
def oddDeclaration : Node :=
  .variableDeclaration [⟨⟨"\x00\"", ⟨⟨1, 6⟩, ⟨1, 8⟩⟩⟩, none, ⟨⟨1, 6⟩, ⟨1, 12⟩⟩⟩] .const
    ⟨⟨1, 0⟩, ⟨1, 13⟩⟩

theorem parse_oddDeclaration :
    Node.parse (oddDeclaration.text fun _ => Node.templateTag) = .ok oddDeclaration := by
  have hplain : oddDeclaration.EveryLiteral Value.Plain :=
    .of_cells (by simp [oddDeclaration])
      (by simp [oddDeclaration, Node.cells, Node.kind, Node.contents, Content.cellsOf,
        Content.cells])
  have hdocument := Node.isDocument_root (fun _ => Node.templateTag)
    (Node.isDocument_document _ oddDeclaration hplain)
  rw [Node.parse, Node.ofText, Node.text, hdocument.readText_toText]
  rfl

/-- The name is read back as it was, and shown as a constant in its first line. -/
theorem step_document_read_back_oddDeclaration :
    let text := oddDeclaration.text fun _ => Node.templateTag
    Node.parse text = .ok oddDeclaration ∧
      ∃ out, (step {} (.document .outline (some (Utf8.encode text)) 2)).1 = some out ∧
        readText (Json.asList OutlineEntry.read) out =
          .ok [⟨"\x00\"", 14, ⟨⟨0, 6⟩, ⟨0, 12⟩⟩, ⟨⟨0, 6⟩, ⟨0, 8⟩⟩⟩] := by
  intro text
  obtain ⟨⟨out, hout, hread⟩, -⟩ := step_document_read_back {} parse_oddDeclaration .source2
  have hsymbols : oddDeclaration.symbols.1 =
      [⟨"\x00\"", .constant, ⟨⟨0, 6⟩, ⟨0, 12⟩⟩, ⟨⟨0, 6⟩, ⟨0, 8⟩⟩⟩] := by
    unfold Node.symbols Extractor.collect Node.walkWide
    rw [Node.walkQueue]
    show Extractor.Progress.results (Node.walkQueue _ [] _) = _
    rw [Node.walkQueue]
    rfl
  rw [hsymbols] at hread
  exact ⟨parse_oddDeclaration, out, hout, hread⟩

end Session

end ChapterLint
