import ChapterLint.Json.Fault

/-!
# Values of literals

A literal holds any JSON value. Its objects map keys to values: the members are sorted by key,
and of a repeated key the last value counts.
-/

namespace ChapterLint

/-- The value of a literal. -/
inductive Value where
  | null
  | bool (b : Bool)
  | number (n : Number)
  | string (s : String)
  | array (items : List Value)
  | object (members : List (String × Value))
deriving Repr, Inhabited

namespace Value

/-- Puts a value under a key, keeping the keys sorted by their code points. -/
def insert (key : String) (v : Value) : List (String × Value) → List (String × Value)
  | [] => [(key, v)]
  | (k, w) :: ms =>
    if key = k then (k, v) :: ms
    else if key < k then (key, v) :: (k, w) :: ms
    else (k, w) :: insert key v ms

mutual

/-- The value of a document. -/
def ofJson : Json → Except Fault Value
  | .null => .ok .null
  | .bool b => .ok (.bool b)
  | .number n =>
    match n.number? with
    | some x => .ok (.number x)
    | none => .error .notJson
  | .string (some s) => .ok (.string s)
  | .string none => .error .notJson
  | .array items => do
    let vs ← ofItems items
    return .array vs
  | .object members => do
    let ms ← ofMembers members []
    return .object ms
  | .cut => .error .notJson

/-- The values of items. -/
def ofItems : List Json → Except Fault (List Value)
  | [] => .ok []
  | j :: js => do
    let v ← ofJson j
    let vs ← ofItems js
    return v :: vs

/-- The values of members, put under their keys one after the other. -/
def ofMembers : List (Option String × Json) → List (String × Value) →
    Except Fault (List (String × Value))
  | [], ms => .ok ms
  | (none, _) :: _, _ => .error .notJson
  | (some k, j) :: js, ms => do
    let v ← ofJson j
    ofMembers js (insert k v ms)

end

/-- The type that a program would find a value to have. -/
def typeName : Value → String
  | .null | .array _ | .object _ => "object"
  | .bool _ => "boolean"
  | .number _ => "number"
  | .string _ => "string"

/-- The binary number that a numeric value is computed with. -/
def number? : Value → Option Binary64
  | .number n => some n.toBinary64
  | _ => none

end Value

end ChapterLint
