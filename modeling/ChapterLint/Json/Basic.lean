import ChapterLint.Json.Numeral

/-!
# JSON documents

A document is kept as it is written: members in their order, repeated keys, numerals digit for
digit. A text that stops being JSON is kept as far as it goes, and `cut` stands where it stops.
A string that is no text, because it holds half of a surrogate pair alone, is `none`.
-/

namespace ChapterLint

/-- A JSON document, possibly cut short. -/
inductive Json where
  | null
  | bool (b : Bool)
  | number (n : Numeral)
  | string (s : Option String)
  | array (items : List Json)
  | object (members : List (Option String × Json))
  | cut
deriving Inhabited, Repr

namespace Json

mutual

/-- Nothing is cut short, whatever the scalars stand for. -/
def isWhole : Json → Bool
  | .array items => areWhole items
  | .object members => membersWhole members
  | .cut => false
  | _ => true

/-- All items are whole. -/
def areWhole : List Json → Bool
  | [] => true
  | j :: js => isWhole j && areWhole js

/-- All members are whole. -/
def membersWhole : List (Option String × Json) → Bool
  | [] => true
  | (_, j) :: ms => isWhole j && membersWhole ms

end

mutual

/-- Nothing is cut short, every numeral stands for a number and every string is text. -/
def isSound : Json → Bool
  | .number n => n.number?.isSome
  | .string s => s.isSome
  | .array items => areSound items
  | .object members => membersSound members
  | .cut => false
  | _ => true

/-- All items are sound. -/
def areSound : List Json → Bool
  | [] => true
  | j :: js => isSound j && areSound js

/-- All members are sound, and their keys are text. -/
def membersSound : List (Option String × Json) → Bool
  | [] => true
  | (k, j) :: ms => k.isSome && isSound j && membersSound ms

end

mutual

/-- How many arrays and objects lie inside each other at most. -/
def depth : Json → Nat
  | .array items => depths items + 1
  | .object members => memberDepths members + 1
  | _ => 0

/-- The greatest depth of the items. -/
def depths : List Json → Nat
  | [] => 0
  | j :: js => max (depth j) (depths js)

/-- The greatest depth of the members. -/
def memberDepths : List (Option String × Json) → Nat
  | [] => 0
  | (_, j) :: ms => max (depth j) (memberDepths ms)

end

/-- A string of text. -/
def text (s : String) : Json := .string (some s)

/-- A plain number. -/
def natural (n : Nat) : Json := .number (.ofInt n)

/-- An object with the given keys and values. -/
def record (members : List (String × Json)) : Json :=
  .object (members.map fun m => (some m.1, m.2))

end Json

end ChapterLint
