import ChapterLint.Json.Fault

/-!
# Records in documents

A record is written as an object, whose members may stand in any order among unknown ones, or
as the array of its fields' contents in their order. The fields of a record are data: a list of
keys, each with the sort of its content. What a record holds is one content for each field.

1. `Record.ofMembers` takes the members in the order of the text: the first fault met counts,
   and only then is the first missing field looked for.
2. `Record.ofItems` takes the items in the order of the fields.
-/

namespace ChapterLint

/-- A field of a record: its key and the sort of its content. -/
structure Field (ι : Type) where
  key : String
  sort : ι

/-- How contents of each sort are read, and what an absent one stands for, if it may be. -/
structure Contents {ι : Type} (type : ι → Type) where
  read : (i : ι) → Json → Except Fault (type i)
  absent : (i : ι) → Option (type i)

/-- One content for each field. -/
@[reducible]
def Tuple {ι : Type} (type : ι → Type) : List (Field ι) → Type
  | [] => Unit
  | f :: fs => type f.sort × Tuple type fs

namespace Record

variable {ι : Type} {type : ι → Type}

/-- The contents found so far. -/
abbrev Slots (type : ι → Type) (fs : List (Field ι)) : Type :=
  Tuple (fun i => Option (type i)) fs

/-- No content has been found. -/
def Slots.empty : (fs : List (Field ι)) → Slots type fs
  | [] => ()
  | _ :: fs => (none, empty fs)

/-- Takes one member. A known key must not come twice, which is seen before its content; an
unknown one is skipped, as long as the text goes on behind it. -/
def take (c : Contents type) (key : String) (j : Json) :
    (fs : List (Field ι)) → Slots type fs → Except Fault (Slots type fs)
  | [], () => if j.isWhole then .ok () else .error .notJson
  | f :: fs, (slot, rest) =>
    if f.key = key then
      match slot with
      | some _ => .error (.repeated key)
      | none => do
        let x ← c.read f.sort j
        return (some x, rest)
    else do
      let rest ← take c key j fs rest
      return (slot, rest)

/-- Takes the members in their order. -/
def takeAll (c : Contents type) (fs : List (Field ι)) :
    List (Option String × Json) → Slots type fs → Except Fault (Slots type fs)
  | [], slots => .ok slots
  | (none, _) :: _, _ => .error .notJson
  | (some key, j) :: ms, slots => do
    let slots ← take c key j fs slots
    takeAll c fs ms slots

/-- The contents of all fields, the absent ones filled in. -/
def complete (c : Contents type) :
    (fs : List (Field ι)) → Slots type fs → Except Fault (Tuple type fs)
  | [], () => .ok ()
  | f :: fs, (slot, rest) =>
    match slot.or (c.absent f.sort) with
    | none => .error (.missing f.key)
    | some x => do
      let rest ← complete c fs rest
      return (x, rest)

/-- A record from the members of an object. -/
def ofMembers (c : Contents type) (fs : List (Field ι)) (ms : List (Option String × Json)) :
    Except Fault (Tuple type fs) := do
  let slots ← takeAll c fs ms (Slots.empty fs)
  complete c fs slots

/-- Takes items for the fields from the given index on, and gives back the items left over. -/
def takeItems (c : Contents type) (name : String) (size : Nat) :
    (fs : List (Field ι)) → (index : Nat) → List Json →
      Except Fault (Tuple type fs × List Json)
  | [], _, items => .ok ((), items)
  | f :: fs, index, [] =>
    match c.absent f.sort with
    | none => .error (.tooShort index name size)
    | some x => do
      let (rest, left) ← takeItems c name size fs (index + 1) []
      return ((x, rest), left)
  | f :: fs, index, j :: items => do
    let x ← c.read f.sort j
    let (rest, left) ← takeItems c name size fs (index + 1) items
    return ((x, rest), left)

/-- Where a record stands decides what a surplus item is: inside a document that has been read
it is counted, in a text that is being read it is no JSON for the record. -/
inductive Place where
  | inDocument
  | inText
deriving DecidableEq, Repr

/-- The fault of surplus items. -/
def Place.surplus (present size : Nat) : Place → Fault
  | .inDocument => .tooLong present size
  | .inText => .notJson

/-- A record from the items of an array. -/
def ofItems (c : Contents type) (place : Place) (name : String) (fs : List (Field ι))
    (items : List Json) : Except Fault (Tuple type fs) := do
  let (tuple, left) ← takeItems c name fs.length fs 0 items
  if left.isEmpty then return tuple else throw (place.surplus items.length fs.length)

/-- A record in either form. -/
def read (c : Contents type) (place : Place) (name : String) (fs : List (Field ι)) :
    Json → Except Fault (Tuple type fs)
  | .array items => ofItems c place name fs items
  | .object ms => ofMembers c fs ms
  | j => j.refuse (.record name)

/-! ## Records of two fields -/

/-- A field with its reader. -/
structure Part (α : Type) where
  key : String
  read : Json → Except Fault α
  absent : Option α := none

/-- The two contents of a pair. -/
@[reducible]
def PairType (α β : Type) : Bool → Type
  | false => α
  | true => β

/-- How the two contents of a pair are read. -/
def pairContents {α β : Type} (f : Part α) (g : Part β) : Contents (PairType α β) where
  read
    | false => f.read
    | true => g.read
  absent
    | false => f.absent
    | true => g.absent

/-- A record of two fields in either form. -/
def readPair {α β : Type} (place : Place) (name : String) (f : Part α) (g : Part β)
    (j : Json) : Except Fault (α × β) := do
  let (a, b, ()) ← read (pairContents f g) place name [⟨f.key, false⟩, ⟨g.key, true⟩] j
  return (a, b)

end Record

end ChapterLint
