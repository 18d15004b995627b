import ChapterLint.Tree.Node

/-!
# The fields of nodes

Each kind of node is a record with the fields listed here, in this order. `NodeKind.build`
makes a node from the contents of its fields and `Node.contents` gives them back; the two are
inverse to each other.
-/

namespace ChapterLint

/-- What a field of a node holds. -/
inductive Content where
  | node
  | optionalNode
  | nodes
  | elements
  | identifier
  | optionalIdentifier
  | declarators
  | variableKind
  | text
  | flag
  | value
  | span
deriving DecidableEq, Repr

/-- The type of a content. -/
@[reducible]
def Content.type : Content → Type
  | .node => Node
  | .optionalNode => Option Node
  | .nodes => List Node
  | .elements => List (Option Node)
  | .identifier => Identifier
  | .optionalIdentifier => Option Identifier
  | .declarators => List (Declarator Node)
  | .variableKind => VariableKind
  | .text => String
  | .flag => Bool
  | .value => Value
  | .span => Span

/-- What a content stands for where its field is left out. The others must not be. -/
def Content.absent : (c : Content) → Option c.type
  | .optionalNode => some none
  | .optionalIdentifier => some none
  | .value => some .null
  | _ => none

/-- The fields of a node of each kind. -/
@[reducible]
def NodeKind.fields : NodeKind → List (Field Content)
  | .program | .blockStatement => [⟨"body", .nodes⟩, ⟨"loc", .span⟩]
  | .expressionStatement => [⟨"expression", .node⟩, ⟨"loc", .span⟩]
  | .ifStatement =>
    [⟨"test", .node⟩, ⟨"consequent", .node⟩, ⟨"alternate", .optionalNode⟩, ⟨"loc", .span⟩]
  | .whileStatement => [⟨"test", .node⟩, ⟨"body", .node⟩, ⟨"loc", .span⟩]
  | .forStatement =>
    [⟨"init", .optionalNode⟩, ⟨"test", .optionalNode⟩, ⟨"update", .optionalNode⟩,
      ⟨"body", .node⟩, ⟨"loc", .span⟩]
  | .returnStatement => [⟨"argument", .optionalNode⟩, ⟨"loc", .span⟩]
  | .breakStatement | .continueStatement | .debuggerStatement => [⟨"loc", .span⟩]
  | .functionDeclaration =>
    [⟨"id", .identifier⟩, ⟨"params", .nodes⟩, ⟨"body", .node⟩, ⟨"loc", .span⟩]
  | .functionExpression =>
    [⟨"id", .optionalIdentifier⟩, ⟨"params", .nodes⟩, ⟨"body", .node⟩, ⟨"loc", .span⟩]
  | .arrowFunctionExpression => [⟨"params", .nodes⟩, ⟨"body", .node⟩, ⟨"loc", .span⟩]
  | .variableDeclaration =>
    [⟨"declarations", .declarators⟩, ⟨"kind", .variableKind⟩, ⟨"loc", .span⟩]
  | .variableDeclarator => [⟨"id", .identifier⟩, ⟨"init", .optionalNode⟩, ⟨"loc", .span⟩]
  | .identifier => [⟨"name", .text⟩, ⟨"loc", .span⟩]
  | .literal => [⟨"value", .value⟩, ⟨"loc", .span⟩]
  | .unaryExpression => [⟨"operator", .text⟩, ⟨"argument", .node⟩, ⟨"loc", .span⟩]
  | .binaryExpression | .logicalExpression | .assignmentExpression =>
    [⟨"operator", .text⟩, ⟨"left", .node⟩, ⟨"right", .node⟩, ⟨"loc", .span⟩]
  | .conditionalExpression =>
    [⟨"test", .node⟩, ⟨"consequent", .node⟩, ⟨"alternate", .node⟩, ⟨"loc", .span⟩]
  | .callExpression | .newExpression =>
    [⟨"callee", .node⟩, ⟨"arguments", .nodes⟩, ⟨"loc", .span⟩]
  | .arrayExpression => [⟨"elements", .elements⟩, ⟨"loc", .span⟩]
  | .memberExpression =>
    [⟨"object", .node⟩, ⟨"property", .node⟩, ⟨"computed", .flag⟩, ⟨"loc", .span⟩]
  | .objectExpression => [⟨"properties", .nodes⟩, ⟨"loc", .span⟩]
  | .property => [⟨"key", .node⟩, ⟨"value", .node⟩, ⟨"loc", .span⟩]
  | .importDeclaration => [⟨"specifiers", .nodes⟩, ⟨"loc", .span⟩]
  | .importSpecifier =>
    [⟨"imported", .identifier⟩, ⟨"local", .identifier⟩, ⟨"loc", .span⟩]
  | .importDefaultSpecifier | .importNamespaceSpecifier =>
    [⟨"local", .identifier⟩, ⟨"loc", .span⟩]
  | .unknown => []

/-- The contents of all fields of a node of the given kind. -/
abbrev NodeKind.Contents (k : NodeKind) : Type := Tuple Content.type k.fields

/-- The node with the given contents. -/
def NodeKind.build : (k : NodeKind) → k.Contents → Node
  | .program, (body, s, ()) => .program body s
  | .blockStatement, (body, s, ()) => .blockStatement body s
  | .expressionStatement, (expression, s, ()) => .expressionStatement expression s
  | .ifStatement, (test, consequent, alternate, s, ()) =>
    .ifStatement test consequent alternate s
  | .whileStatement, (test, body, s, ()) => .whileStatement test body s
  | .forStatement, (init, test, update, body, s, ()) => .forStatement init test update body s
  | .returnStatement, (argument, s, ()) => .returnStatement argument s
  | .breakStatement, (s, ()) => .breakStatement s
  | .continueStatement, (s, ()) => .continueStatement s
  | .debuggerStatement, (s, ()) => .debuggerStatement s
  | .functionDeclaration, (id, params, body, s, ()) => .functionDeclaration id params body s
  | .functionExpression, (id, params, body, s, ()) => .functionExpression id params body s
  | .arrowFunctionExpression, (params, body, s, ()) => .arrowFunctionExpression params body s
  | .variableDeclaration, (declarations, kind, s, ()) => .variableDeclaration declarations kind s
  | .variableDeclarator, (id, init, s, ()) => .variableDeclarator ⟨id, init, s⟩
  | .identifier, (name, s, ()) => .identifier ⟨name, s⟩
  | .literal, (value, s, ()) => .literal value s
  | .unaryExpression, (operator, argument, s, ()) => .unaryExpression operator argument s
  | .binaryExpression, (operator, left, right, s, ()) => .binaryExpression operator left right s
  | .logicalExpression, (operator, left, right, s, ()) =>
    .logicalExpression operator left right s
  | .assignmentExpression, (operator, left, right, s, ()) =>
    .assignmentExpression operator left right s
  | .conditionalExpression, (test, consequent, alternate, s, ()) =>
    .conditionalExpression test consequent alternate s
  | .callExpression, (callee, arguments, s, ()) => .callExpression callee arguments s
  | .newExpression, (callee, arguments, s, ()) => .newExpression callee arguments s
  | .arrayExpression, (elements, s, ()) => .arrayExpression elements s
  | .memberExpression, (object, index, computed, s, ()) => .memberExpression object index computed s
  | .objectExpression, (properties, s, ()) => .objectExpression properties s
  | .property, (key, value, s, ()) => .property key value s
  | .importDeclaration, (specifiers, s, ()) => .importDeclaration specifiers s
  | .importSpecifier, (imported, name, s, ()) => .importSpecifier imported name s
  | .importDefaultSpecifier, (name, s, ()) => .importDefaultSpecifier name s
  | .importNamespaceSpecifier, (name, s, ()) => .importNamespaceSpecifier name s
  | .unknown, () => .unknown

/-- The contents of the fields of a node. -/
def Node.contents : (n : Node) → n.kind.Contents
  | .program body s => (body, s, ())
  | .blockStatement body s => (body, s, ())
  | .expressionStatement expression s => (expression, s, ())
  | .ifStatement test consequent alternate s => (test, consequent, alternate, s, ())
  | .whileStatement test body s => (test, body, s, ())
  | .forStatement init test update body s => (init, test, update, body, s, ())
  | .returnStatement argument s => (argument, s, ())
  | .breakStatement s => (s, ())
  | .continueStatement s => (s, ())
  | .debuggerStatement s => (s, ())
  | .functionDeclaration id params body s => (id, params, body, s, ())
  | .functionExpression id params body s => (id, params, body, s, ())
  | .arrowFunctionExpression params body s => (params, body, s, ())
  | .variableDeclaration declarations kind s => (declarations, kind, s, ())
  | .variableDeclarator d => (d.id, d.init, d.span, ())
  | .identifier id => (id.name, id.span, ())
  | .literal value s => (value, s, ())
  | .unaryExpression operator argument s => (operator, argument, s, ())
  | .binaryExpression operator left right s => (operator, left, right, s, ())
  | .logicalExpression operator left right s => (operator, left, right, s, ())
  | .assignmentExpression operator left right s => (operator, left, right, s, ())
  | .conditionalExpression test consequent alternate s => (test, consequent, alternate, s, ())
  | .callExpression callee arguments s => (callee, arguments, s, ())
  | .newExpression callee arguments s => (callee, arguments, s, ())
  | .arrayExpression elements s => (elements, s, ())
  | .memberExpression object index computed s => (object, index, computed, s, ())
  | .objectExpression properties s => (properties, s, ())
  | .property key value s => (key, value, s, ())
  | .importDeclaration specifiers s => (specifiers, s, ())
  | .importSpecifier imported name s => (imported, name, s, ())
  | .importDefaultSpecifier name s => (name, s, ())
  | .importNamespaceSpecifier name s => (name, s, ())
  | .unknown => ()

theorem Node.build_contents (n : Node) : n.kind.build n.contents = n := by cases n <;> rfl

theorem NodeKind.kind_build (k : NodeKind) (c : k.Contents) : (k.build c).kind = k := by
  cases k <;> rfl

end ChapterLint
