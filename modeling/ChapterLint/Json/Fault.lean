import ChapterLint.Decimal.Shortest
import ChapterLint.Json.Basic
import ChapterLint.Text.Quoted

/-!
# Faults of documents

A document that cannot be read has one fault, the first one met. A text that is not JSON has
no further wording; every other fault names what stood in the document and what should have.
-/

namespace ChapterLint

/-- What stood in the document. -/
inductive Found where
  | null
  | bool (b : Bool)
  | number (n : Number)
  | text (s : String)
  | array
  | object
deriving DecidableEq, Repr

/-- What should have stood there. -/
inductive Expected where
  | coordinate
  | integer
  | count
  | text
  | flag
  | list
  | record (name : String)
  | node
  | tag
  | choice
  | nothing
  | singleMember
deriving DecidableEq, Repr

/-- Why a document cannot be read. -/
inductive Fault where
  | notJson
  | missing (field : String)
  | repeated (field : String)
  | wrongKind (found : Found) (expected : Expected)
  | wrongValue (found : Found) (expected : Expected)
  | unknownChoice (name : String) (choices : List String)
  | tooShort (index : Nat) (record : String) (size : Nat)
  | tooLong (present : Nat) (size : Nat)
  | unknownChapter (n : Int)
deriving DecidableEq, Repr

/-! ## Wording -/

/-- Real numbers are positional as long as the first digit is within five places after the
point or sixteen before it; otherwise their exponent has a sign. -/
def Found.layout : Decimal.Layout := ⟨-5, 15, "+"⟩

/-- The text of a real number; zero has a sign too. -/
def Found.real (x : Binary64) : String :=
  (if x.negative then "-" else "")
    ++ if x.units = 0 then "0.0" else (Decimal.shortest x.units).text layout

example : Found.real ⟨false, Binary64.ofNat 1⟩ = "1.0" := by decide +kernel

example : Found.real ⟨true, 0⟩ = "-0.0" := by decide +kernel

example : Found.real ⟨false, Binary64.ofNat (10 ^ 16)⟩ = "1e+16" := by decide +kernel

example : Found.real ⟨false, 1⟩ = "5e-324" := by decide +kernel

/-- The wording of what was found. -/
def Found.message : Found → String
  | .null => "null"
  | .bool b => "boolean `" ++ (if b then "true" else "false") ++ "`"
  | .number (.integer n) => "integer `" ++ toString n ++ "`"
  | .number (.real x) => "floating point `" ++ Found.real x ++ "`"
  | .text s => "string " ++ quoted s
  | .array => "sequence"
  | .object => "map"

/-- The wording of what was expected. -/
def Expected.message : Expected → String
  | .coordinate => "u32"
  | .integer => "i64"
  | .count => "usize"
  | .text => "a string"
  | .flag => "a boolean"
  | .list => "a sequence"
  | .record name => "struct " ++ name
  | .node => "internally tagged enum Node"
  | .tag => "variant identifier"
  | .choice => "string or map"
  | .nothing => "unit"
  | .singleMember => "map with a single key"

/-- A count of elements. -/
def elementCount (n : Nat) : String := toString n ++ if n = 1 then " element" else " elements"

/-- A name between marks. -/
def marked (s : String) : String := "`" ++ s ++ "`"

/-- The wording of an unknown chapter. -/
def unknownChapterMessage (n : Int) : String := "Unknown chapter: " ++ toString n

/-- The wording of a fault, if it has any. -/
def Fault.message? : Fault → Option String
  | .notJson => none
  | .missing f => some ("missing field " ++ marked f)
  | .repeated f => some ("duplicate field " ++ marked f)
  | .wrongKind u e => some ("invalid type: " ++ u.message ++ ", expected " ++ e.message)
  | .wrongValue u e => some ("invalid value: " ++ u.message ++ ", expected " ++ e.message)
  | .unknownChoice v cs =>
    some ("unknown variant " ++ marked v ++ ", expected one of "
      ++ ", ".intercalate (cs.map marked))
  | .tooShort i r n =>
    some ("invalid length " ++ toString i ++ ", expected struct " ++ r ++ " with "
      ++ elementCount n)
  | .tooLong n size =>
    some ("invalid length " ++ toString n ++ ", expected " ++ elementCount size
      ++ " in sequence")
  | .unknownChapter n => some (unknownChapterMessage n)

/-! ## What stands in a document -/

/-- What a document is, seen from outside. A scalar has to be sound to be seen; arrays and
objects are recognised where they begin. -/
def Json.found : Json → Except Fault Found
  | .null => .ok .null
  | .bool b => .ok (.bool b)
  | .number n =>
    match n.number? with
    | some x => .ok (.number x)
    | none => .error .notJson
  | .string (some s) => .ok (.text s)
  | .string none => .error .notJson
  | .array _ => .ok .array
  | .object _ => .ok .object
  | .cut => .error .notJson

/-- Refuses a document of the wrong kind. -/
def Json.refuse {α : Type} (j : Json) (e : Expected) : Except Fault α := do
  let u ← j.found
  throw (.wrongKind u e)

/-- An integer from `low` to `high`. -/
def Json.asInteger (low high : Int) (e : Expected) (j : Json) : Except Fault Int := do
  match ← j.found with
  | .number (.integer n) =>
    if low ≤ n ∧ n ≤ high then pure n else throw (.wrongValue (.number (.integer n)) e)
  | u => throw (.wrongKind u e)

/-- A string. -/
def Json.asText (j : Json) : Except Fault String := do
  match ← j.found with
  | .text s => pure s
  | u => throw (.wrongKind u .text)

/-- A truth value. -/
def Json.asFlag (j : Json) : Except Fault Bool := do
  match ← j.found with
  | .bool b => pure b
  | u => throw (.wrongKind u .flag)

/-- A list, each item read in its turn. -/
def Json.asList {α : Type} (read : Json → Except Fault α) (j : Json) : Except Fault (List α) :=
  match j with
  | .array items => items.mapM read
  | j => j.refuse .list

/-- A value that may be absent, written `null`. -/
def Json.asOption {α : Type} (read : Json → Except Fault α) (j : Json) :
    Except Fault (Option α) :=
  match j with
  | .null => pure none
  | j => some <$> read j

end ChapterLint
