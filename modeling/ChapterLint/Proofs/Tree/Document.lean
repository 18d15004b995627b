import ChapterLint.Proofs.Tree.Literals
import ChapterLint.Proofs.Tree.Objects

/-!
# Documents of trees

`Node.document` writes a tree as a document in its canonical form: each record is an object with its
fields in their order, a node has its tag first, what is absent is `null`. An unknown node says
nothing about itself, so its tag is chosen, any but the names of the other kinds (`Tags`). The
document is spelled out kind by kind here, and does not depend on the tables that the reader uses.

`Node.isDocument_document` goes through the tree once and says that the document is read as the
tree. Since a document is read back from its text (`Json.ofText_toText`), so is a tree.
-/

namespace ChapterLint

open Record (values)

/-! ## Positions, spans and names -/

/-- The document of a position. -/
def Position.document (p : Position) : Json :=
  .record [("line", .natural p.line.toNat), ("column", .natural p.column.toNat)]

/-- The document of a span. -/
def Span.document (s : Span) : Json :=
  .record [("start", s.first.document), ("end", s.last.document)]

/-- The document of a name. -/
def Identifier.document (id : Identifier) : Json :=
  .record [("name", .text id.name), ("loc", id.span.document)]

/-- The document of the word of a variable declaration. -/
def VariableKind.document : VariableKind → Json
  | .var => .text "var"
  | .let => .text "let"
  | .const => .text "const"

theorem isDocument_coordinate (n : UInt32) : IsDocument readCoordinate (.natural n.toNat) n := by
  have hlt : n.toNat < 2 ^ 32 := n.toNat_lt
  have hgreatest : greatestCoordinate = 2 ^ 32 - 1 := rfl
  have h : IsDocument (Json.asInteger 0 greatestCoordinate .coordinate) (.natural n.toNat)
      (n.toNat : Int) :=
    .integer ⟨by omega, by omega⟩ ⟨by omega, by omega⟩ _
  exact h.bind (congrArg Except.ok UInt32.ofNat_toNat)

theorem Position.isDocument_document (place : Record.Place) (p : Position) :
    IsDocument (Position.read place) p.document p := by
  have h := IsDocument.pair (f := { key := "line", read := readCoordinate })
    (g := { key := "column", read := readCoordinate }) (by decide) (isDocument_coordinate p.line)
    (isDocument_coordinate p.column) place "SourcePosition"
  exact h.bind rfl

theorem Span.isDocument_document (place : Record.Place) (s : Span) :
    IsDocument (Span.read place) s.document s := by
  have h := IsDocument.pair (f := { key := "start", read := Position.read place })
    (g := { key := "end", read := Position.read place }) (by simp)
    (s.first.isDocument_document place) (s.last.isDocument_document place) place "SourceLocation"
  exact h.bind rfl

theorem Identifier.isDocument_document (id : Identifier) :
    IsDocument Identifier.read id.document id := by
  have h := IsDocument.pair (f := { key := "name", read := Json.asText })
    (g := { key := "loc", read := Span.read .inDocument }) (by decide) (.text id.name)
    (id.span.isDocument_document .inDocument) .inDocument "Identifier"
  exact h.bind rfl

theorem Identifier.isDocument_option (id : Option Identifier) :
    IsDocument (Json.asOption Identifier.read) ((id.map Identifier.document).getD .null) id := by
  cases id with
  | none => exact .absent
  | some id =>
    refine .present (fun x hx => ?_) id.isDocument_document
    obtain ⟨p, hp, -⟩ := bind_eq_ok_iff.1 hx
    obtain ⟨xs, hxs, -⟩ := bind_eq_ok_iff.1 hp
    exact Json.refuse_ne_ok _ _ _ hxs

theorem VariableKind.isDocument_document (v : VariableKind) :
    IsDocument VariableKind.read v.document v := by
  cases v <;> exact ⟨rfl, rfl⟩

/-! ## Nodes -/

/-- A tag that names no kind but the unknown one. -/
structure ForeignTag where
  name : String
  foreign : ∀ k : NodeKind, k ≠ .unknown → name ≠ k.name

theorem ForeignTag.ofName_name (tag : ForeignTag) : NodeKind.ofName tag.name = .unknown := by
  rw [NodeKind.ofName]
  cases hfind : NodeKind.all.find? fun k => k.name = tag.name with
  | none => rfl
  | some k =>
    have hname : k.name = tag.name := by simpa using List.find?_some hfind
    by_contra hne
    exact tag.foreign k hne hname.symm

/-- The tags of the unknown nodes of a tree, by their places. -/
abbrev Tags : Type := List Step → ForeignTag

/-- The tags below a step. -/
def Tags.below (tags : Tags) (field : String) (index : Nat) : Tags :=
  fun place => tags (⟨field, index⟩ :: place)

namespace Node

mutual

/-- The document of a node. -/
def document (tags : Tags) : Node → Json
  | .program body s =>
    .record [("type", .text "Program"), ("body", .array (documents tags "body" 0 body)),
      ("loc", s.document)]
  | .blockStatement body s =>
    .record [("type", .text "BlockStatement"), ("body", .array (documents tags "body" 0 body)),
      ("loc", s.document)]
  | .expressionStatement expression s =>
    .record [("type", .text "ExpressionStatement"),
      ("expression", document (tags.below "expression" 0) expression), ("loc", s.document)]
  | .ifStatement test consequent alternate s =>
    .record [("type", .text "IfStatement"), ("test", document (tags.below "test" 0) test),
      ("consequent", document (tags.below "consequent" 0) consequent),
      ("alternate", optionDocument (tags.below "alternate" 0) alternate), ("loc", s.document)]
  | .whileStatement test body s =>
    .record [("type", .text "WhileStatement"), ("test", document (tags.below "test" 0) test),
      ("body", document (tags.below "body" 0) body), ("loc", s.document)]
  | .forStatement init test update body s =>
    .record [("type", .text "ForStatement"), ("init", optionDocument (tags.below "init" 0) init),
      ("test", optionDocument (tags.below "test" 0) test),
      ("update", optionDocument (tags.below "update" 0) update),
      ("body", document (tags.below "body" 0) body), ("loc", s.document)]
  | .returnStatement argument s =>
    .record [("type", .text "ReturnStatement"),
      ("argument", optionDocument (tags.below "argument" 0) argument), ("loc", s.document)]
  | .breakStatement s => .record [("type", .text "BreakStatement"), ("loc", s.document)]
  | .continueStatement s => .record [("type", .text "ContinueStatement"), ("loc", s.document)]
  | .debuggerStatement s => .record [("type", .text "DebuggerStatement"), ("loc", s.document)]
  | .functionDeclaration id params body s =>
    .record [("type", .text "FunctionDeclaration"), ("id", id.document),
      ("params", .array (documents tags "params" 0 params)),
      ("body", document (tags.below "body" 0) body), ("loc", s.document)]
  | .functionExpression id params body s =>
    .record [("type", .text "FunctionExpression"), ("id", (id.map Identifier.document).getD .null),
      ("params", .array (documents tags "params" 0 params)),
      ("body", document (tags.below "body" 0) body), ("loc", s.document)]
  | .arrowFunctionExpression params body s =>
    .record [("type", .text "ArrowFunctionExpression"),
      ("params", .array (documents tags "params" 0 params)),
      ("body", document (tags.below "body" 0) body), ("loc", s.document)]
  | .variableDeclaration declarations kind s =>
    .record [("type", .text "VariableDeclaration"),
      ("declarations", .array (declaratorDocuments tags 0 declarations)), ("kind", kind.document),
      ("loc", s.document)]
  | .variableDeclarator ⟨id, init, s⟩ =>
    .record [("type", .text "VariableDeclarator"), ("id", id.document),
      ("init", optionDocument (tags.below "init" 0) init), ("loc", s.document)]
  | .identifier id =>
    .record [("type", .text "Identifier"), ("name", .text id.name), ("loc", id.span.document)]
  | .literal value s =>
    .record [("type", .text "Literal"), ("value", value.document), ("loc", s.document)]
  | .unaryExpression operator argument s =>
    .record [("type", .text "UnaryExpression"), ("operator", .text operator),
      ("argument", document (tags.below "argument" 0) argument), ("loc", s.document)]
  | .binaryExpression operator left right s =>
    .record [("type", .text "BinaryExpression"), ("operator", .text operator),
      ("left", document (tags.below "left" 0) left),
      ("right", document (tags.below "right" 0) right), ("loc", s.document)]
  | .logicalExpression operator left right s =>
    .record [("type", .text "LogicalExpression"), ("operator", .text operator),
      ("left", document (tags.below "left" 0) left),
      ("right", document (tags.below "right" 0) right), ("loc", s.document)]
  | .assignmentExpression operator left right s =>
    .record [("type", .text "AssignmentExpression"), ("operator", .text operator),
      ("left", document (tags.below "left" 0) left),
      ("right", document (tags.below "right" 0) right), ("loc", s.document)]
  | .conditionalExpression test consequent alternate s =>
    .record [("type", .text "ConditionalExpression"), ("test", document (tags.below "test" 0) test),
      ("consequent", document (tags.below "consequent" 0) consequent),
      ("alternate", document (tags.below "alternate" 0) alternate), ("loc", s.document)]
  | .callExpression callee arguments s =>
    .record [("type", .text "CallExpression"), ("callee", document (tags.below "callee" 0) callee),
      ("arguments", .array (documents tags "arguments" 0 arguments)), ("loc", s.document)]
  | .newExpression callee arguments s =>
    .record [("type", .text "NewExpression"), ("callee", document (tags.below "callee" 0) callee),
      ("arguments", .array (documents tags "arguments" 0 arguments)), ("loc", s.document)]
  | .arrayExpression elements s =>
    .record [("type", .text "ArrayExpression"),
      ("elements", .array (elementDocuments tags 0 elements)), ("loc", s.document)]
  | .memberExpression object index computed s =>
    .record [("type", .text "MemberExpression"),
      ("object", document (tags.below "object" 0) object),
      ("property", document (tags.below "property" 0) index), ("computed", .bool computed),
      ("loc", s.document)]
  | .objectExpression properties s =>
    .record [("type", .text "ObjectExpression"),
      ("properties", .array (documents tags "properties" 0 properties)), ("loc", s.document)]
  | .property key value s =>
    .record [("type", .text "Property"), ("key", document (tags.below "key" 0) key),
      ("value", document (tags.below "value" 0) value), ("loc", s.document)]
  | .importDeclaration specifiers s =>
    .record [("type", .text "ImportDeclaration"),
      ("specifiers", .array (documents tags "specifiers" 0 specifiers)), ("loc", s.document)]
  | .importSpecifier imported name s =>
    .record [("type", .text "ImportSpecifier"), ("imported", imported.document),
      ("local", name.document), ("loc", s.document)]
  | .importDefaultSpecifier name s =>
    .record [("type", .text "ImportDefaultSpecifier"), ("local", name.document),
      ("loc", s.document)]
  | .importNamespaceSpecifier name s =>
    .record [("type", .text "ImportNamespaceSpecifier"), ("local", name.document),
      ("loc", s.document)]
  | .unknown => .record [("type", .text (tags []).name)]

/-- The document of a node that may be absent. -/
def optionDocument (tags : Tags) : Option Node → Json
  | none => .null
  | some n => document tags n

/-- The documents of the nodes of a field, from the given index on. -/
def documents (tags : Tags) (field : String) (index : Nat) : List Node → List Json
  | [] => []
  | n :: ns => document (tags.below field index) n :: documents tags field (index + 1) ns

/-- The documents of the elements of an array, from the given index on. -/
def elementDocuments (tags : Tags) (index : Nat) : List (Option Node) → List Json
  | [] => []
  | o :: os =>
    optionDocument (tags.below "elements" index) o :: elementDocuments tags (index + 1) os

/-- The documents of the variables of a declaration, from the given index on. -/
def declaratorDocuments (tags : Tags) (index : Nat) : List (Declarator Node) → List Json
  | [] => []
  | ⟨id, init, s⟩ :: ds =>
    .record [("id", id.document), ("init", optionDocument (tags.below "declarations" index) init),
      ("loc", s.document)] :: declaratorDocuments tags (index + 1) ds

end

/-- The text of a tree. -/
def text (tags : Tags) (n : Node) : String := (n.document tags).toText

/-! ## Values of literals -/

mutual

/-- The tree with the value of each literal replaced. -/
def mapValues (f : Value → Value) : Node → Node
  | .program body s => .program (mapValuesList f body) s
  | .blockStatement body s => .blockStatement (mapValuesList f body) s
  | .expressionStatement expression s => .expressionStatement (mapValues f expression) s
  | .ifStatement test consequent alternate s =>
    .ifStatement (mapValues f test) (mapValues f consequent) (mapValuesOption f alternate) s
  | .whileStatement test body s => .whileStatement (mapValues f test) (mapValues f body) s
  | .forStatement init test update body s =>
    .forStatement (mapValuesOption f init) (mapValuesOption f test) (mapValuesOption f update)
      (mapValues f body) s
  | .returnStatement argument s => .returnStatement (mapValuesOption f argument) s
  | .functionDeclaration id params body s =>
    .functionDeclaration id (mapValuesList f params) (mapValues f body) s
  | .functionExpression id params body s =>
    .functionExpression id (mapValuesList f params) (mapValues f body) s
  | .arrowFunctionExpression params body s =>
    .arrowFunctionExpression (mapValuesList f params) (mapValues f body) s
  | .variableDeclaration declarations kind s =>
    .variableDeclaration (mapValuesDeclarators f declarations) kind s
  | .variableDeclarator ⟨id, init, s⟩ => .variableDeclarator ⟨id, mapValuesOption f init, s⟩
  | .literal value s => .literal (f value) s
  | .unaryExpression operator argument s => .unaryExpression operator (mapValues f argument) s
  | .binaryExpression operator left right s =>
    .binaryExpression operator (mapValues f left) (mapValues f right) s
  | .logicalExpression operator left right s =>
    .logicalExpression operator (mapValues f left) (mapValues f right) s
  | .assignmentExpression operator left right s =>
    .assignmentExpression operator (mapValues f left) (mapValues f right) s
  | .conditionalExpression test consequent alternate s =>
    .conditionalExpression (mapValues f test) (mapValues f consequent) (mapValues f alternate) s
  | .callExpression callee arguments s =>
    .callExpression (mapValues f callee) (mapValuesList f arguments) s
  | .newExpression callee arguments s =>
    .newExpression (mapValues f callee) (mapValuesList f arguments) s
  | .arrayExpression elements s => .arrayExpression (mapValuesElements f elements) s
  | .memberExpression object index computed s =>
    .memberExpression (mapValues f object) (mapValues f index) computed s
  | .objectExpression properties s => .objectExpression (mapValuesList f properties) s
  | .property key value s => .property (mapValues f key) (mapValues f value) s
  | .importDeclaration specifiers s => .importDeclaration (mapValuesList f specifiers) s
  | n => n

/-- The same for a node that may be absent. -/
def mapValuesOption (f : Value → Value) : Option Node → Option Node
  | none => none
  | some n => some (mapValues f n)

/-- The same for a list of nodes. -/
def mapValuesList (f : Value → Value) : List Node → List Node
  | [] => []
  | n :: ns => mapValues f n :: mapValuesList f ns

/-- The same for the elements of an array. -/
def mapValuesElements (f : Value → Value) : List (Option Node) → List (Option Node)
  | [] => []
  | o :: os => mapValuesOption f o :: mapValuesElements f os

/-- The same for the variables of a declaration. -/
def mapValuesDeclarators (f : Value → Value) : List (Declarator Node) → List (Declarator Node)
  | [] => []
  | ⟨id, init, s⟩ :: ds => ⟨id, mapValuesOption f init, s⟩ :: mapValuesDeclarators f ds

end

/-- Every literal of a tree has a value of the given sort. -/
def EveryLiteral (P : Value → Prop) (root : Node) : Prop :=
  ∀ place v s, root.at? place = some (.literal v s) → P v

namespace EveryLiteral

variable {P : Value → Prop} {n : Node}

theorem value {v : Value} {s : Span} (h : (Node.literal v s).EveryLiteral P) : P v := h [] v s rfl

/-- The literals below a node are literals of the node. -/
theorem of_cell (h : n.EveryLiteral P) (key : String) {os : List (Option Node)}
    (hkey : n.cells.lookup key = some os) {m : Node} (hm : some m ∈ os) : m.EveryLiteral P := by
  obtain ⟨step, hbelow⟩ := exists_below?_of_lookup key hkey hm
  intro place v s hat
  refine h (step :: place) v s ?_
  rw [at?, hbelow, Option.bind_some, hat]

/-- The literals of a node are itself and those below it. -/
theorem of_cells (hself : ∀ v s, n = .literal v s → P v)
    (hcells : ∀ c ∈ n.cells, ∀ m, some m ∈ c.2 → m.EveryLiteral P) : n.EveryLiteral P := by
  intro place v s hat
  cases place with
  | nil => exact hself v s (Option.some_inj.1 hat)
  | cons step place =>
    rw [at?, Option.bind_eq_some_iff] at hat
    obtain ⟨m, hbelow, hat⟩ := hat
    obtain ⟨c, hc, hm⟩ := exists_mem_cells_of_below? hbelow
    exact hcells c hc m hm place v s hat

theorem node (h : n.EveryLiteral P) (key : String) {m : Node}
    (hkey : n.cells.lookup key = some [some m]) : m.EveryLiteral P :=
  h.of_cell key hkey List.mem_cons_self

theorem option (h : n.EveryLiteral P) (key : String) {o : Option Node}
    (hkey : n.cells.lookup key = some [o]) : ∀ m ∈ o, m.EveryLiteral P := by
  rintro m rfl
  exact h.node key hkey

theorem list (h : n.EveryLiteral P) (key : String) {ns : List Node}
    (hkey : n.cells.lookup key = some (ns.map some)) : ∀ m ∈ ns, m.EveryLiteral P :=
  fun _ hm => h.of_cell key hkey (List.mem_map_of_mem hm)

theorem elements (h : n.EveryLiteral P) (key : String) {os : List (Option Node)}
    (hkey : n.cells.lookup key = some os) : ∀ o ∈ os, ∀ m ∈ o, m.EveryLiteral P := by
  rintro o ho m rfl
  exact h.of_cell key hkey ho

theorem declarators (h : n.EveryLiteral P) (key : String) {ds : List (Declarator Node)}
    (hkey : n.cells.lookup key = some (ds.map Declarator.init)) :
    ∀ d ∈ ds, ∀ m ∈ d.init, m.EveryLiteral P :=
  fun _ hd => h.elements key hkey _ (List.mem_map_of_mem hd)

end EveryLiteral

/-! ## Reading back -/

theorem read_null_ne_ok (n : Node) : read .null ≠ .ok n := Json.refuse_ne_ok _ _ _

/-- A node is written with its tag and then its fields in their order. -/
theorem isDocument_node {n : Node} {tag : String} (htag : NodeKind.ofName tag = n.kind)
    {ms : List (String × Json)}
    (h : Record.InOrder (Content.reader read) n.kind.fields ms n.contents) :
    IsDocument read (.record (("type", .text tag) :: ms)) n := by
  have hread : readTag (.text tag) = .ok n.kind := htag ▸ rfl
  have hnone : values tagKey (ms.map fun m => (some m.1, m.2)) = [] := by
    refine Record.values_eq_nil fun hmem => tagKey_notMem_keys n.kind ?_
    rw [NodeKind.keys, ← h.map_fst]
    simpa using hmem
  refine ⟨h.membersPlain, read_object_eq_ok_iff.2 ⟨.text tag, n.kind, n.contents, ?_, hread, ?_, ?_,
    n.build_contents.symm⟩⟩
  · exact (Record.values_cons_self tagKey _ _).trans (by rw [hnone])
  · exact Record.passable_cons_iff.2 ⟨⟨tagKey, rfl, fun _ => rfl⟩, h.passable⟩
  · refine (Tuple.all_congr fun f hf x => ?_).1 (h.all_holds (keys_nodup n.kind))
    have hne : tagKey ≠ f.key := fun he => tagKey_notMem_keys n.kind (he ▸ List.mem_map_of_mem hf)
    rw [List.map_cons, Record.values_cons_of_ne fun he => hne (Option.some_inj.1 he)]

theorem isDocument_span (s : Span) : IsDocument (Span.read .inDocument) s.document s :=
  s.isDocument_document .inDocument

/-- A variable of a declaration is written like a node of its kind, without a tag. -/
theorem isDocument_declarator (id : Identifier) {j : Json} {init : Option Node} (s : Span)
    (h : IsDocument (Json.asOption read) j init) :
    IsDocument (Declarator.read read)
      (.record [("id", id.document), ("init", j), ("loc", s.document)]) ⟨id, init, s⟩ := by
  have horder : Record.InOrder (Declarator.parts read)
      [⟨"id", .id⟩, ⟨"init", .init⟩, ⟨"loc", .span⟩]
      [("id", id.document), ("init", j), ("loc", s.document)] (id, init, s, ()) :=
    ⟨rfl, id.isDocument_document, rfl, h, rfl, isDocument_span s, trivial⟩
  have hrecord := IsDocument.record (by decide) horder .inDocument "VariableDeclarator"
  exact hrecord.bind rfl

mutual

/-- A tree whose literals have plain values is read back from its document. -/
theorem isDocument_document (tags : Tags) : ∀ n : Node, n.EveryLiteral Value.Plain →
    IsDocument read (n.document tags) (n.mapValues Value.sorted)
  | .program body s, h => by
    rw [document, mapValues]
    exact isDocument_node rfl ⟨rfl, isDocument_list _ "body" 0 body (h.list "body" rfl),
      rfl, isDocument_span s, trivial⟩
  | .blockStatement body s, h => by
    rw [document, mapValues]
    exact isDocument_node rfl ⟨rfl, isDocument_list _ "body" 0 body (h.list "body" rfl),
      rfl, isDocument_span s, trivial⟩
  | .expressionStatement expression s, h => by
    rw [document, mapValues]
    exact isDocument_node rfl ⟨rfl, isDocument_document _ expression (h.node "expression" rfl),
      rfl, isDocument_span s, trivial⟩
  | .ifStatement test consequent alternate s, h => by
    rw [document, mapValues]
    exact isDocument_node rfl ⟨rfl, isDocument_document _ test (h.node "test" rfl),
      rfl, isDocument_document _ consequent (h.node "consequent" rfl),
      rfl, isDocument_option _ alternate (h.option "alternate" rfl), rfl, isDocument_span s,
      trivial⟩
  | .whileStatement test body s, h => by
    rw [document, mapValues]
    exact isDocument_node rfl ⟨rfl, isDocument_document _ test (h.node "test" rfl),
      rfl, isDocument_document _ body (h.node "body" rfl), rfl, isDocument_span s, trivial⟩
  | .forStatement init test update body s, h => by
    rw [document, mapValues]
    exact isDocument_node rfl ⟨rfl, isDocument_option _ init (h.option "init" rfl),
      rfl, isDocument_option _ test (h.option "test" rfl),
      rfl, isDocument_option _ update (h.option "update" rfl),
      rfl, isDocument_document _ body (h.node "body" rfl), rfl, isDocument_span s, trivial⟩
  | .returnStatement argument s, h => by
    rw [document, mapValues]
    exact isDocument_node rfl ⟨rfl, isDocument_option _ argument (h.option "argument" rfl),
      rfl, isDocument_span s, trivial⟩
  | .breakStatement s, _ => by
    rw [document]
    exact isDocument_node rfl ⟨rfl, isDocument_span s, trivial⟩
  | .continueStatement s, _ => by
    rw [document]
    exact isDocument_node rfl ⟨rfl, isDocument_span s, trivial⟩
  | .debuggerStatement s, _ => by
    rw [document]
    exact isDocument_node rfl ⟨rfl, isDocument_span s, trivial⟩
  | .functionDeclaration id params body s, h => by
    rw [document, mapValues]
    exact isDocument_node rfl ⟨rfl, id.isDocument_document,
      rfl, isDocument_list _ "params" 0 params (h.list "params" rfl),
      rfl, isDocument_document _ body (h.node "body" rfl), rfl, isDocument_span s, trivial⟩
  | .functionExpression id params body s, h => by
    rw [document, mapValues]
    exact isDocument_node rfl ⟨rfl, Identifier.isDocument_option id,
      rfl, isDocument_list _ "params" 0 params (h.list "params" rfl),
      rfl, isDocument_document _ body (h.node "body" rfl), rfl, isDocument_span s, trivial⟩
  | .arrowFunctionExpression params body s, h => by
    rw [document, mapValues]
    exact isDocument_node rfl ⟨rfl, isDocument_list _ "params" 0 params (h.list "params" rfl),
      rfl, isDocument_document _ body (h.node "body" rfl), rfl, isDocument_span s, trivial⟩
  | .variableDeclaration declarations kind s, h => by
    rw [document, mapValues]
    exact isDocument_node rfl ⟨
      rfl, isDocument_declarators _ 0 declarations (h.declarators "declarations" rfl),
      rfl, kind.isDocument_document, rfl, isDocument_span s, trivial⟩
  | .variableDeclarator ⟨id, init, s⟩, h => by
    rw [document, mapValues]
    exact isDocument_node rfl ⟨rfl, id.isDocument_document,
      rfl, isDocument_option _ init (h.option "init" rfl), rfl, isDocument_span s, trivial⟩
  | .identifier ⟨name, s⟩, _ => by
    rw [document]
    exact isDocument_node rfl ⟨rfl, .text name, rfl, isDocument_span s, trivial⟩
  | .literal value s, h => by
    rw [document, mapValues]
    exact isDocument_node rfl ⟨rfl, h.value.isDocument, rfl, isDocument_span s, trivial⟩
  | .unaryExpression operator argument s, h => by
    rw [document, mapValues]
    exact isDocument_node rfl ⟨rfl, .text operator,
      rfl, isDocument_document _ argument (h.node "argument" rfl), rfl, isDocument_span s,
      trivial⟩
  | .binaryExpression operator left right s, h => by
    rw [document, mapValues]
    exact isDocument_node rfl ⟨rfl, .text operator,
      rfl, isDocument_document _ left (h.node "left" rfl),
      rfl, isDocument_document _ right (h.node "right" rfl), rfl, isDocument_span s, trivial⟩
  | .logicalExpression operator left right s, h => by
    rw [document, mapValues]
    exact isDocument_node rfl ⟨rfl, .text operator,
      rfl, isDocument_document _ left (h.node "left" rfl),
      rfl, isDocument_document _ right (h.node "right" rfl), rfl, isDocument_span s, trivial⟩
  | .assignmentExpression operator left right s, h => by
    rw [document, mapValues]
    exact isDocument_node rfl ⟨rfl, .text operator,
      rfl, isDocument_document _ left (h.node "left" rfl),
      rfl, isDocument_document _ right (h.node "right" rfl), rfl, isDocument_span s, trivial⟩
  | .conditionalExpression test consequent alternate s, h => by
    rw [document, mapValues]
    exact isDocument_node rfl ⟨rfl, isDocument_document _ test (h.node "test" rfl),
      rfl, isDocument_document _ consequent (h.node "consequent" rfl),
      rfl, isDocument_document _ alternate (h.node "alternate" rfl), rfl, isDocument_span s,
      trivial⟩
  | .callExpression callee arguments s, h => by
    rw [document, mapValues]
    exact isDocument_node rfl ⟨rfl, isDocument_document _ callee (h.node "callee" rfl),
      rfl, isDocument_list _ "arguments" 0 arguments (h.list "arguments" rfl),
      rfl, isDocument_span s, trivial⟩
  | .newExpression callee arguments s, h => by
    rw [document, mapValues]
    exact isDocument_node rfl ⟨rfl, isDocument_document _ callee (h.node "callee" rfl),
      rfl, isDocument_list _ "arguments" 0 arguments (h.list "arguments" rfl),
      rfl, isDocument_span s, trivial⟩
  | .arrayExpression elements s, h => by
    rw [document, mapValues]
    exact isDocument_node rfl ⟨rfl, isDocument_elements _ 0 elements (h.elements "elements" rfl),
      rfl, isDocument_span s, trivial⟩
  | .memberExpression object index computed s, h => by
    rw [document, mapValues]
    exact isDocument_node rfl ⟨rfl, isDocument_document _ object (h.node "object" rfl),
      rfl, isDocument_document _ index (h.node "property" rfl), rfl, .flag computed,
      rfl, isDocument_span s, trivial⟩
  | .objectExpression properties s, h => by
    rw [document, mapValues]
    exact isDocument_node rfl ⟨
      rfl, isDocument_list _ "properties" 0 properties (h.list "properties" rfl),
      rfl, isDocument_span s, trivial⟩
  | .property key value s, h => by
    rw [document, mapValues]
    exact isDocument_node rfl ⟨rfl, isDocument_document _ key (h.node "key" rfl),
      rfl, isDocument_document _ value (h.node "value" rfl), rfl, isDocument_span s, trivial⟩
  | .importDeclaration specifiers s, h => by
    rw [document, mapValues]
    exact isDocument_node rfl ⟨
      rfl, isDocument_list _ "specifiers" 0 specifiers (h.list "specifiers" rfl),
      rfl, isDocument_span s, trivial⟩
  | .importSpecifier imported name s, _ => by
    rw [document]
    exact isDocument_node rfl ⟨rfl, imported.isDocument_document, rfl, name.isDocument_document,
      rfl, isDocument_span s, trivial⟩
  | .importDefaultSpecifier name s, _ => by
    rw [document]
    exact isDocument_node rfl ⟨rfl, name.isDocument_document, rfl, isDocument_span s, trivial⟩
  | .importNamespaceSpecifier name s, _ => by
    rw [document]
    exact isDocument_node rfl ⟨rfl, name.isDocument_document, rfl, isDocument_span s, trivial⟩
  | .unknown, _ => by
    rw [document]
    exact isDocument_node (n := .unknown) (tags []).ofName_name trivial

theorem isDocument_option (tags : Tags) : ∀ o : Option Node,
    (∀ m ∈ o, m.EveryLiteral Value.Plain) →
      IsDocument (Json.asOption read) (optionDocument tags o) (mapValuesOption Value.sorted o)
  | none, _ => .absent
  | some n, h => .present read_null_ne_ok (isDocument_document tags n (h n rfl))

theorem isDocument_list (tags : Tags) (field : String) (index : Nat) : ∀ ns : List Node,
    (∀ m ∈ ns, m.EveryLiteral Value.Plain) →
      IsDocument (Json.asList read) (.array (documents tags field index ns))
        (mapValuesList Value.sorted ns)
  | [], _ => .nil
  | n :: ns, h => by
    obtain ⟨hn, hns⟩ := List.forall_mem_cons.1 h
    rw [documents, mapValuesList]
    exact .cons (isDocument_document _ n hn) (isDocument_list tags field (index + 1) ns hns)

theorem isDocument_elements (tags : Tags) (index : Nat) : ∀ os : List (Option Node),
    (∀ o ∈ os, ∀ m ∈ o, m.EveryLiteral Value.Plain) →
      IsDocument (Json.asList (Json.asOption read)) (.array (elementDocuments tags index os))
        (mapValuesElements Value.sorted os)
  | [], _ => .nil
  | o :: os, h => by
    obtain ⟨ho, hos⟩ := List.forall_mem_cons.1 h
    rw [elementDocuments, mapValuesElements]
    exact .cons (isDocument_option _ o ho) (isDocument_elements tags (index + 1) os hos)

theorem isDocument_declarators (tags : Tags) (index : Nat) : ∀ ds : List (Declarator Node),
    (∀ d ∈ ds, ∀ m ∈ d.init, m.EveryLiteral Value.Plain) →
      IsDocument (Json.asList (Declarator.read read)) (.array (declaratorDocuments tags index ds))
        (mapValuesDeclarators Value.sorted ds)
  | [], _ => .nil
  | ⟨id, init, s⟩ :: ds, h => by
    obtain ⟨hd, hds⟩ := List.forall_mem_cons.1 h
    rw [declaratorDocuments, mapValuesDeclarators]
    exact .cons (isDocument_declarator id s (isDocument_option _ init hd))
      (isDocument_declarators tags (index + 1) ds hds)

end

theorem exists_document_eq (tags : Tags) (n : Node) :
    ∃ tag ms, n.document tags = .record (("type", .text tag) :: ms) := by
  cases n <;> exact ⟨_, _, rfl⟩

/-- A document of a node is one of a root. -/
theorem isDocument_root {t : Node} (tags : Tags) {n : Node}
    (h : IsDocument read (t.document tags) n) : IsDocument readRoot (t.document tags) n := by
  refine ⟨h.isPlain, readRoot_eq_ok_iff.2 ⟨?_, Json.isSound_of_isPlain h.isPlain, h.read_eq⟩⟩
  obtain ⟨tag, ms, hdocument⟩ := exists_document_eq tags t
  rw [hdocument] at h ⊢
  obtain ⟨tag', -, -, hone, -⟩ := read_object_eq_ok_iff.1 h.read_eq
  have hcons := (Record.values_cons_self tagKey (.text tag) _).symm.trans hone
  exact ⟨tag, hone.trans (by rw [(List.cons.inj hcons).1])⟩

/-- **A tree is read back from its text.** Let the literals of a tree have values built from `null`,
truth values, strings, integers of 64 bits, arrays, and objects with distinct keys. Then the text of
the tree is read as the tree, with the objects in its literals sorted, which are the same maps. -/
theorem parse_text {t : Node} (h : t.EveryLiteral Value.Plain) (tags : Tags) :
    Node.parse (t.text tags) = .ok (t.mapValues Value.sorted) ∧
      t.EveryLiteral fun v => v.sorted.Same v := by
  have hdocument := isDocument_root tags (isDocument_document tags t h)
  refine ⟨?_, fun place v s hat => (h place v s hat).same_sorted⟩
  rw [parse, ofText, text, hdocument.readText_toText]
  rfl

/-- An object with a number, and with an array under another key. -/
def smallValue : Value :=
  .object [("a", .number (.integer (-7))), ("b", .array [.null, .string "\n"])]

theorem plain_smallValue : smallValue.Plain := by
  refine .object (by decide) (List.forall_mem_cons.2 ⟨.integer ⟨by decide, by decide⟩, ?_⟩)
  refine List.forall_mem_singleton.2 (.array (List.forall_mem_cons.2 ⟨.null, ?_⟩))
  exact List.forall_mem_singleton.2 (.string _)

/-- A statement with an object, beside a node of no known kind. -/
def smallTree : Node :=
  .program [.expressionStatement (.literal smallValue default) default, .unknown]
    ⟨⟨1, 0⟩, ⟨2, 4294967295⟩⟩

/-- A tag of no known kind. -/
def templateTag : ForeignTag where
  name := "TemplateLiteral"
  foreign := by intro k; cases k <;> decide

/-- The small tree is read back from its text as it was. -/
theorem parse_text_smallTree :
    smallTree.EveryLiteral Value.Plain ∧
      Node.parse (smallTree.text fun _ => templateTag) = .ok smallTree := by
  have hliteral : (Node.literal smallValue default).EveryLiteral Value.Plain :=
    .of_cells (fun v s h => (Node.literal.inj h).1 ▸ plain_smallValue)
      (by simp [cells, kind, contents, Content.cellsOf, Content.cells])
  have hunknown : Node.unknown.EveryLiteral Value.Plain :=
    .of_cells (by simp) (by simp [cells, kind, contents, Content.cellsOf])
  have hstatement :
      (Node.expressionStatement (.literal smallValue default) default).EveryLiteral Value.Plain :=
    .of_cells (by simp)
      (by simpa [cells, kind, contents, Content.cellsOf, Content.cells] using hliteral)
  have hplain : smallTree.EveryLiteral Value.Plain :=
    .of_cells (by simp [smallTree])
      (by simpa [smallTree, cells, kind, contents, Content.cellsOf, Content.cells]
        using ⟨hstatement, hunknown⟩)
  exact ⟨hplain, (parse_text hplain fun _ => templateTag).1⟩

end Node

end ChapterLint
