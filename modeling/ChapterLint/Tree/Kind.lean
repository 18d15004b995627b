/-!
# Kinds of nodes

The kinds of nodes of a syntax tree, in the order in which a document may number them.
-/

namespace ChapterLint

/-- The kind of a node. -/
inductive NodeKind where
  | program
  | blockStatement
  | expressionStatement
  | ifStatement
  | whileStatement
  | forStatement
  | returnStatement
  | breakStatement
  | continueStatement
  | debuggerStatement
  | functionDeclaration
  | functionExpression
  | arrowFunctionExpression
  | variableDeclaration
  | variableDeclarator
  | identifier
  | literal
  | unaryExpression
  | binaryExpression
  | logicalExpression
  | assignmentExpression
  | conditionalExpression
  | callExpression
  | newExpression
  | arrayExpression
  | memberExpression
  | objectExpression
  | property
  | importDeclaration
  | importSpecifier
  | importDefaultSpecifier
  | importNamespaceSpecifier
  | unknown
deriving DecidableEq, Repr

namespace NodeKind

/-- All kinds in their order. -/
def all : List NodeKind :=
  [.program, .blockStatement, .expressionStatement, .ifStatement, .whileStatement,
    .forStatement, .returnStatement, .breakStatement, .continueStatement, .debuggerStatement,
    .functionDeclaration, .functionExpression, .arrowFunctionExpression, .variableDeclaration,
    .variableDeclarator, .identifier, .literal, .unaryExpression, .binaryExpression,
    .logicalExpression, .assignmentExpression, .conditionalExpression, .callExpression,
    .newExpression, .arrayExpression, .memberExpression, .objectExpression, .property,
    .importDeclaration, .importSpecifier, .importDefaultSpecifier, .importNamespaceSpecifier,
    .unknown]

/-- The name of a kind, which is also its tag in documents. -/
def name : NodeKind → String
  | .program => "Program"
  | .blockStatement => "BlockStatement"
  | .expressionStatement => "ExpressionStatement"
  | .ifStatement => "IfStatement"
  | .whileStatement => "WhileStatement"
  | .forStatement => "ForStatement"
  | .returnStatement => "ReturnStatement"
  | .breakStatement => "BreakStatement"
  | .continueStatement => "ContinueStatement"
  | .debuggerStatement => "DebuggerStatement"
  | .functionDeclaration => "FunctionDeclaration"
  | .functionExpression => "FunctionExpression"
  | .arrowFunctionExpression => "ArrowFunctionExpression"
  | .variableDeclaration => "VariableDeclaration"
  | .variableDeclarator => "VariableDeclarator"
  | .identifier => "Identifier"
  | .literal => "Literal"
  | .unaryExpression => "UnaryExpression"
  | .binaryExpression => "BinaryExpression"
  | .logicalExpression => "LogicalExpression"
  | .assignmentExpression => "AssignmentExpression"
  | .conditionalExpression => "ConditionalExpression"
  | .callExpression => "CallExpression"
  | .newExpression => "NewExpression"
  | .arrayExpression => "ArrayExpression"
  | .memberExpression => "MemberExpression"
  | .objectExpression => "ObjectExpression"
  | .property => "Property"
  | .importDeclaration => "ImportDeclaration"
  | .importSpecifier => "ImportSpecifier"
  | .importDefaultSpecifier => "ImportDefaultSpecifier"
  | .importNamespaceSpecifier => "ImportNamespaceSpecifier"
  | .unknown => "Unknown"

/-- The kind of a tag; a tag that names no kind is of the unknown one. -/
def ofName (s : String) : NodeKind := (all.find? fun k => k.name = s).getD .unknown

/-- The kind at a place of the order; places beyond it are of the unknown kind. -/
def ofIndex (i : Nat) : NodeKind := all[i]?.getD .unknown

theorem mem_all (k : NodeKind) : k ∈ all := by cases k <;> decide

theorem ofName_name (k : NodeKind) : ofName k.name = k := by cases k <;> rfl

/-- The name of the record that a node of the kind is written as. -/
def recordName : NodeKind → String
  | .logicalExpression | .assignmentExpression => name .binaryExpression
  | .newExpression => name .callExpression
  | .importDefaultSpecifier | .importNamespaceSpecifier => "ImportLocalSpecifier"
  | k => k.name

end NodeKind

end ChapterLint
