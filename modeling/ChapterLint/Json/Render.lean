import ChapterLint.Json.Basic

/-!
# Writing JSON text

Documents are written without blanks. Quotes, backslashes and control characters are escaped,
everything else stands as it is.
-/

namespace ChapterLint

namespace Json

/-- A character of a string. -/
def renderChar (c : Char) : List Char :=
  if c = '"' then ['\\', '"']
  else if c = '\\' then ['\\', '\\']
  else if c = '\x08' then ['\\', 'b']
  else if c = '\t' then ['\\', 't']
  else if c = '\n' then ['\\', 'n']
  else if c = '\x0c' then ['\\', 'f']
  else if c = '\r' then ['\\', 'r']
  else if c.toNat < 0x20 then
    ['\\', 'u', '0', '0', Nat.digitChar (c.toNat / 16), Nat.digitChar (c.toNat % 16)]
  else [c]

/-- A string; one that is no text is written as half of a surrogate pair. -/
def renderString : Option String → List Char
  | some s => '"' :: s.toList.flatMap renderChar ++ ['"']
  | none => "\"\\ud800\"".toList

/-- A numeral. -/
def renderNumeral (n : Numeral) : List Char :=
  (if n.negative then ['-'] else []) ++ Nat.toDigits 10 n.whole
    ++ (if n.fraction.isEmpty then [] else '.' :: n.fraction.map Nat.digitChar)
    ++ match n.exponent with
      | none => []
      | some (.ofNat e) => 'e' :: Nat.toDigits 10 e
      | some (.negSucc e) => 'e' :: '-' :: Nat.toDigits 10 (e + 1)

mutual

/-- The characters of a document; nothing is written for what was cut. -/
def render : Json → List Char
  | .null => "null".toList
  | .bool true => "true".toList
  | .bool false => "false".toList
  | .number n => renderNumeral n
  | .string s => renderString s
  | .array items => '[' :: renderItems items
  | .object members => '{' :: renderMembers members
  | .cut => []

/-- The items of an array up to its end. -/
def renderItems : List Json → List Char
  | [] => [']']
  | [j] => render j ++ [']']
  | j :: js => render j ++ ',' :: renderItems js

/-- The members of an object up to its end. -/
def renderMembers : List (Option String × Json) → List Char
  | [] => ['}']
  | [(k, j)] => renderString k ++ ':' :: render j ++ ['}']
  | (k, j) :: ms => renderString k ++ ':' :: render j ++ ',' :: renderMembers ms

end

/-- The text of a document. -/
def toText (j : Json) : String := String.ofList j.render

end Json

end ChapterLint
