import ChapterLint.Span
import ChapterLint.Tree.Kind
import ChapterLint.Tree.Value

/-!
# Syntax trees

A node has a constructor for each kind. Every node but the unknown ones knows its span.
`Node.children` are the nodes below it that matter to an analysis: parameters and import
specifiers are not among them.
-/

namespace ChapterLint

/-- A name and where it stands. -/
structure Identifier where
  name : String
  span : Span
deriving DecidableEq, Repr, Inhabited

/-- The word that a variable declaration begins with. -/
inductive VariableKind where
  | var
  | let
  | const
deriving DecidableEq, Repr

/-- One variable of a declaration, with its initial value of type `α`. -/
structure Declarator (α : Type) where
  id : Identifier
  init : Option α
  span : Span
deriving Repr

/-- A node of a syntax tree. -/
inductive Node where
  | program (body : List Node) (span : Span)
  | blockStatement (body : List Node) (span : Span)
  | expressionStatement (expression : Node) (span : Span)
  | ifStatement (test consequent : Node) (alternate : Option Node) (span : Span)
  | whileStatement (test body : Node) (span : Span)
  | forStatement (init test update : Option Node) (body : Node) (span : Span)
  | returnStatement (argument : Option Node) (span : Span)
  | breakStatement (span : Span)
  | continueStatement (span : Span)
  | debuggerStatement (span : Span)
  | functionDeclaration (id : Identifier) (params : List Node) (body : Node) (span : Span)
  | functionExpression (id : Option Identifier) (params : List Node) (body : Node) (span : Span)
  | arrowFunctionExpression (params : List Node) (body : Node) (span : Span)
  | variableDeclaration (declarations : List (Declarator Node)) (kind : VariableKind)
      (span : Span)
  | variableDeclarator (declarator : Declarator Node)
  | identifier (id : Identifier)
  | literal (value : Value) (span : Span)
  | unaryExpression (operator : String) (argument : Node) (span : Span)
  | binaryExpression (operator : String) (left right : Node) (span : Span)
  | logicalExpression (operator : String) (left right : Node) (span : Span)
  | assignmentExpression (operator : String) (left right : Node) (span : Span)
  | conditionalExpression (test consequent alternate : Node) (span : Span)
  | callExpression (callee : Node) (arguments : List Node) (span : Span)
  | newExpression (callee : Node) (arguments : List Node) (span : Span)
  | arrayExpression (elements : List (Option Node)) (span : Span)
  | memberExpression (object property : Node) (computed : Bool) (span : Span)
  | objectExpression (properties : List Node) (span : Span)
  | property (key value : Node) (span : Span)
  | importDeclaration (specifiers : List Node) (span : Span)
  | importSpecifier (imported name : Identifier) (span : Span)
  | importDefaultSpecifier (name : Identifier) (span : Span)
  | importNamespaceSpecifier (name : Identifier) (span : Span)
  | unknown
deriving Repr, Inhabited

namespace Node

/-- The kind of a node. -/
def kind : Node → NodeKind
  | .program .. => .program
  | .blockStatement .. => .blockStatement
  | .expressionStatement .. => .expressionStatement
  | .ifStatement .. => .ifStatement
  | .whileStatement .. => .whileStatement
  | .forStatement .. => .forStatement
  | .returnStatement .. => .returnStatement
  | .breakStatement .. => .breakStatement
  | .continueStatement .. => .continueStatement
  | .debuggerStatement .. => .debuggerStatement
  | .functionDeclaration .. => .functionDeclaration
  | .functionExpression .. => .functionExpression
  | .arrowFunctionExpression .. => .arrowFunctionExpression
  | .variableDeclaration .. => .variableDeclaration
  | .variableDeclarator .. => .variableDeclarator
  | .identifier .. => .identifier
  | .literal .. => .literal
  | .unaryExpression .. => .unaryExpression
  | .binaryExpression .. => .binaryExpression
  | .logicalExpression .. => .logicalExpression
  | .assignmentExpression .. => .assignmentExpression
  | .conditionalExpression .. => .conditionalExpression
  | .callExpression .. => .callExpression
  | .newExpression .. => .newExpression
  | .arrayExpression .. => .arrayExpression
  | .memberExpression .. => .memberExpression
  | .objectExpression .. => .objectExpression
  | .property .. => .property
  | .importDeclaration .. => .importDeclaration
  | .importSpecifier .. => .importSpecifier
  | .importDefaultSpecifier .. => .importDefaultSpecifier
  | .importNamespaceSpecifier .. => .importNamespaceSpecifier
  | .unknown => .unknown

/-- Where a node stands. -/
def span? : Node → Option Span
  | .program _ s | .blockStatement _ s | .expressionStatement _ s | .ifStatement _ _ _ s
  | .whileStatement _ _ s | .forStatement _ _ _ _ s | .returnStatement _ s
  | .breakStatement s | .continueStatement s | .debuggerStatement s
  | .functionDeclaration _ _ _ s | .functionExpression _ _ _ s | .arrowFunctionExpression _ _ s
  | .variableDeclaration _ _ s | .literal _ s | .unaryExpression _ _ s
  | .binaryExpression _ _ _ s | .logicalExpression _ _ _ s | .assignmentExpression _ _ _ s
  | .conditionalExpression _ _ _ s | .callExpression _ _ s | .newExpression _ _ s
  | .arrayExpression _ s | .memberExpression _ _ _ s | .objectExpression _ s
  | .property _ _ s | .importDeclaration _ s | .importSpecifier _ _ s
  | .importDefaultSpecifier _ s | .importNamespaceSpecifier _ s => some s
  | .variableDeclarator d => some d.span
  | .identifier id => some id.span
  | .unknown => none

/-- The nodes below a node that an analysis visits, in the order of the visit. A conditional
expression gives its alternate before its consequent, a call its arguments before its callee. -/
def children : Node → List Node
  | .program body _ | .blockStatement body _ => body
  | .expressionStatement expression _ => [expression]
  | .ifStatement test consequent alternate _ => test :: consequent :: alternate.toList
  | .whileStatement test body _ => [test, body]
  | .forStatement init test update body _ =>
    init.toList ++ test.toList ++ update.toList ++ [body]
  | .returnStatement argument _ => argument.toList
  | .functionDeclaration _ _ body _ | .functionExpression _ _ body _
  | .arrowFunctionExpression _ body _ => [body]
  | .variableDeclaration declarations _ _ => declarations.flatMap fun d => d.init.toList
  | .variableDeclarator d => d.init.toList
  | .unaryExpression _ argument _ => [argument]
  | .binaryExpression _ left right _ | .logicalExpression _ left right _
  | .assignmentExpression _ left right _ => [left, right]
  | .conditionalExpression test consequent alternate _ => [test, alternate, consequent]
  | .callExpression callee arguments _ | .newExpression callee arguments _ =>
    arguments ++ [callee]
  | .arrayExpression elements _ => elements.flatMap Option.toList
  | .memberExpression object index _ _ => [object, index]
  | .objectExpression properties _ => properties
  | .property key value _ => [key, value]
  | .breakStatement .. | .continueStatement .. | .debuggerStatement .. | .identifier ..
  | .literal .. | .importDeclaration .. | .importSpecifier .. | .importDefaultSpecifier ..
  | .importNamespaceSpecifier .. | .unknown => []

/-! ## Sizes -/

/-- The size of a list of nodes taken together. -/
noncomputable def totalSize : List Node → Nat
  | [] => 0
  | n :: ns => sizeOf n + totalSize ns

@[simp] theorem totalSize_nil : totalSize [] = 0 := rfl

@[simp] theorem totalSize_cons (n : Node) (ns : List Node) :
    totalSize (n :: ns) = sizeOf n + totalSize ns := rfl

@[simp] theorem totalSize_append (ns ms : List Node) :
    totalSize (ns ++ ms) = totalSize ns + totalSize ms := by
  induction ns with
  | nil => simp
  | cons n ns ih => rw [List.cons_append, totalSize_cons, totalSize_cons, ih, Nat.add_assoc]

theorem totalSize_lt (ns : List Node) : totalSize ns < sizeOf ns := by
  induction ns with
  | nil => simp
  | cons n ns ih => simp; omega

theorem totalSize_toList_le (o : Option Node) : totalSize o.toList ≤ sizeOf o := by
  cases o <;> simp

theorem totalSize_elements_lt (es : List (Option Node)) :
    totalSize (es.flatMap Option.toList) < sizeOf es := by
  induction es with
  | nil => simp
  | cons o es ih =>
    have h := totalSize_toList_le o
    rw [List.flatMap_cons, totalSize_append, List.cons.sizeOf_spec]
    omega

theorem totalSize_declarations_lt (ds : List (Declarator Node)) :
    totalSize (ds.flatMap fun d => d.init.toList) < sizeOf ds := by
  induction ds with
  | nil => simp
  | cons d ds ih =>
    have h := totalSize_toList_le d.init
    obtain ⟨_, _, _⟩ := d
    simp at h ⊢
    omega

/-- The children of a node are together smaller than the node. -/
theorem totalSize_children_lt (n : Node) : totalSize n.children < sizeOf n := by
  have hl := totalSize_lt
  have ho := totalSize_toList_le
  cases n with
  | program body _ => have := hl body; simp [children]; omega
  | blockStatement body _ => have := hl body; simp [children]; omega
  | ifStatement _ _ alternate _ => have := ho alternate; simp [children]; omega
  | forStatement init test update _ _ =>
    have := ho init; have := ho test; have := ho update; simp [children]; omega
  | returnStatement argument _ => have := ho argument; simp [children]; omega
  | variableDeclaration ds _ _ =>
    have := totalSize_declarations_lt ds; simp [children]; omega
  | variableDeclarator d =>
    have h := ho d.init
    obtain ⟨_, _, _⟩ := d
    simp [children] at h ⊢
    omega
  | callExpression _ arguments _ => have := hl arguments; simp [children]; omega
  | newExpression _ arguments _ => have := hl arguments; simp [children]; omega
  | arrayExpression es _ =>
    have := totalSize_elements_lt es
    rw [children, Node.arrayExpression.sizeOf_spec]
    omega
  | objectExpression properties _ => have := hl properties; simp [children]; omega
  | _ => simp [children] <;> omega

end Node

end ChapterLint
