import ChapterLint.Json.Record
import ChapterLint.Json.Scan

/-!
# Chapters, variants and contexts

The language is taught in four chapters, each with more of it than the one before, and in
several variants. A context says which of them a program is written for.
-/

namespace ChapterLint

/-- A chapter of the language. -/
inductive Chapter where
  | source1
  | source2
  | source3
  | source4
deriving DecidableEq, Repr

namespace Chapter

/-- The number of a chapter. -/
def number : Chapter → Nat
  | .source1 => 1
  | .source2 => 2
  | .source3 => 3
  | .source4 => 4

/-- The chapter of a number. -/
def ofInt? (n : Int) : Option Chapter :=
  if n = 1 then some .source1
  else if n = 2 then some .source2
  else if n = 3 then some .source3
  else if n = 4 then some .source4
  else none

theorem ofInt?_number (c : Chapter) : ofInt? c.number = some c := by cases c <;> rfl

theorem ofInt?_eq_some {n : Int} {c : Chapter} (h : ofInt? n = some c) : n = c.number := by
  unfold ofInt? at h
  split at h
  · cases h; assumption
  split at h
  · cases h; assumption
  split at h
  · cases h; assumption
  split at h
  · cases h; assumption
  · cases h

/-- The name of a chapter. -/
def name (c : Chapter) : String := "Source" ++ toString c.number

/-- Loops, assignment and arrays come with the third chapter. -/
def beforeSource3 (c : Chapter) : Bool := c.number < 3

end Chapter

/-- A variant of the language. -/
inductive Variant where
  | default
  | typed
  | native
  | explicit
deriving DecidableEq, Repr

namespace Variant

/-- All variants. -/
def all : List Variant := [.default, .typed, .native, .explicit]

/-- A variant as documents write it. -/
def key : Variant → String
  | .default => "default"
  | .typed => "typed"
  | .native => "native"
  | .explicit => "explicit"

/-- A variant as messages name it. -/
def name : Variant → String
  | .default => "Default"
  | .typed => "Typed"
  | .native => "Native"
  | .explicit => "Explicit"

/-- The variant that documents write so. -/
def ofKey (s : String) : Except Fault Variant :=
  match all.find? fun v => v.key = s with
  | some v => .ok v
  | none => .error (.unknownChoice s (all.map key))

/-- A variant is written as its key, or as an object with that one key and nothing in it. -/
def read : Json → Except Fault Variant
  | .string (some s) => ofKey s
  | .object ((some k, j) :: rest) => do
    let v ← ofKey k
    match ← j.found with
    | .null => if rest.isEmpty then return v else throw .notJson
    | u => throw (.wrongKind u .nothing)
  | _ => .error .notJson

end Variant

/-- What a program is written for. -/
structure Context where
  chapter : Chapter
  variant : Variant := .default
deriving DecidableEq, Repr

namespace Context

/-- The same chapter in another variant. -/
def withVariant (c : Context) (v : Variant) : Context := { c with variant := v }

/-- The greatest integer of 64 bits. -/
def greatestInteger : Int := Int.pow 2 63 - 1

/-- A chapter, written as its number. -/
def readChapter (j : Json) : Except Fault Chapter := do
  let n ← j.asInteger (-greatestInteger - 1) greatestInteger .integer
  match Chapter.ofInt? n with
  | some c => return c
  | none => throw (.unknownChapter n)

/-- A context, a record of `chapter` and `variant`, which may be left out. -/
def read (place : Record.Place) (j : Json) : Except Fault Context := do
  let (chapter, variant) ← Record.readPair place "Context"
    { key := "chapter", read := readChapter }
    { key := "variant", read := Variant.read, absent := some .default } j
  return ⟨chapter, variant⟩

/-- A context from a text. -/
def ofText (s : String) : Except Fault Context := readText (read .inText) s

end Context

end ChapterLint
