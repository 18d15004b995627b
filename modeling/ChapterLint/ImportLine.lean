/-!
# Existing import lines

A program imports from a module by a line with `import { … } from "module";` in it. An editor
that adds a name to such an import has to find the first line that has one. White space between the
words is that of all characters with the white-space property.
-/

namespace ChapterLint

/-- The ranges of the white-space characters, ascending, both ends included. -/
def blankRanges : List (Nat × Nat) :=
  [(0x9, 0xD), (0x20, 0x20), (0x85, 0x85), (0xA0, 0xA0), (0x1680, 0x1680), (0x2000, 0x200A),
   (0x2028, 0x2029), (0x202F, 0x202F), (0x205F, 0x205F), (0x3000, 0x3000)]

/-- A white-space character. -/
def isBlank (c : Char) : Bool :=
  blankRanges.any fun r => r.1 ≤ c.toNat && c.toNat ≤ r.2

namespace ImportLine

/-- The lines of a text, split at line feeds only. -/
def lines : List Char → List (List Char)
  | [] => [[]]
  | c :: cs =>
    if c = '\n' then [] :: lines cs
    else
      match lines cs with
      | [] => [[c]]
      | l :: ls => (c :: l) :: ls

/-- What follows a word at the start of a text. -/
def afterWord? (word : String) (cs : List Char) : Option (List Char) :=
  word.toList.isPrefixOf? cs

/-- What follows the blanks at the start of a text. -/
def afterBlanks (cs : List Char) : List Char := cs.dropWhile isBlank

/-- What follows one of the two quotes at the start of a text. -/
def afterQuote? : List Char → Option (List Char)
  | c :: cs => if c = '"' ∨ c = '\x27' then some cs else none
  | [] => none

/-- A text starts with an import from the module. No part of it can be read in two ways, so
nothing has to be tried again. -/
def startsImport (module : String) (cs : List Char) : Bool :=
  Option.isSome do
    let cs ← afterWord? "import" cs
    let cs ← afterWord? "\x7b" (afterBlanks cs)
    let cs ← afterWord? "\x7d" (cs.dropWhile (· ≠ '\x7d'))
    let cs ← afterWord? "from" (afterBlanks cs)
    let cs ← afterQuote? (afterBlanks cs)
    let cs ← afterWord? module cs
    let cs ← afterQuote? cs
    afterWord? ";" cs

/-- A line has an import from the module somewhere in it. -/
def hasImport (module : String) : List Char → Bool
  | [] => startsImport module []
  | c :: cs => startsImport module (c :: cs) || hasImport module cs

/-- The first line, counted from zero, that has an import from the module. -/
def find? (code module : String) : Option Nat :=
  (lines code.toList).findIdx? (hasImport module)

end ImportLine

end ChapterLint
