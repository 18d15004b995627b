import ChapterLint.Lint.Rule

/-!
# The built-in rules

Four rules keep programs to the language of their chapter. Before the third chapter there are no
loops to leave, no arrays and no one-armed conditionals; in every chapter branches have braces.
-/

namespace ChapterLint

namespace Rule

/-- What is wrong with leaving a loop. -/
def breakFindings (context : Context) : Node → List (String × Span)
  | .breakStatement s =>
    if context.chapter.beforeSource3 then [("Break statements are not allowed", s)] else []
  | _ => []

/-- Loops are left from the third chapter on. -/
def breakStatement : Rule :=
  ofFindings "break-statement" "Disallows break statements before chapter 3"
    .breakStatement breakFindings

/-- What is wrong with going on with a loop. -/
def continueFindings (context : Context) : Node → List (String × Span)
  | .continueStatement s =>
    if context.chapter.beforeSource3 then [("Continue statements are not allowed", s)] else []
  | _ => []

/-- Loops are gone on with from the third chapter on. -/
def continueStatement : Rule :=
  ofFindings "continue-statement" "Disallows continue statements before chapter 3"
    .continueStatement continueFindings

/-- What is wrong with a conditional: three checks, each on its own. -/
def ifFindings (context : Context) : Node → List (String × Span)
  | .ifStatement _ consequent alternate s =>
    (if context.chapter.beforeSource3 && alternate.isNone then
      [("Missing \"else\" in \"if-else\" statement", consequent.span?.getD s)] else [])
    ++ (if consequent.kind ≠ .blockStatement then
      [("Missing curly braces around if", s)] else [])
    ++ (if alternate.any fun n => n.kind ≠ .blockStatement then
      [("Missing curly braces around else", s)] else [])
  | _ => []

/-- Both branches have braces, and before the third chapter there are two. -/
def ifStatement : Rule :=
  ofFindings "if-statement"
    "Requires an else branch before chapter 3 and braces around both branches"
    .ifStatement ifFindings

/-- What an index is instead of a non-negative integer, if it is seen to be a wrong constant. -/
def wrongIndex? : Node → Option String
  | .identifier id => if id.name = "undefined" then some "undefined" else none
  | .literal value _ =>
    match value, value.number? with
    | .null, none => some "null"
    | value, none => some value.typeName
    | _, some x => if x.isSafeInteger then none else some "float"
  | .unaryExpression operator (.literal value _) _ =>
    if operator = "-" && value.number?.isSome then some "negative number" else none
  | _ => none

/-- What is wrong with a member access: the first of three checks that fails. -/
def memberFindings (context : Context) : Node → List (String × Span)
  | .memberExpression _ index computed s =>
    if !computed then [("No dot abbreviations", s)]
    else if context.chapter.beforeSource3 then
      [("Member access expressions are not allowed", s)]
    else
      match wrongIndex? index with
      | some got =>
        [("Expected non negative integer as array index, got " ++ got ++ ".",
          index.span?.getD s)]
      | none => []
  | _ => []

/-- Members are accessed from the third chapter on, by index, and not by a wrong constant. -/
def memberExpression : Rule :=
  ofFindings "member-expression"
    "Disallows dot access and member access before chapter 3, and checks literal array indices"
    .memberExpression memberFindings

/-- The built-in rules in their order. -/
def builtin : List Rule := [breakStatement, continueStatement, ifStatement, memberExpression]

end Rule

end ChapterLint
