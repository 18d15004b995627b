import ChapterLint.Failure
import ChapterLint.Json.Scan
import ChapterLint.Tree.Fields

/-!
# Syntax trees from documents

A node is a record with a tag that names its kind. In an object the tag is the member `type`,
which may stand anywhere; in an array it is the first item. A tag may also number the kind,
except at the root.

1. `Node.readWith` reads one node, given a reader for the nodes below it.
2. `Node.read` reads a whole tree; the depth of the document bounds the nesting.
3. `Node.ofText` reads a text. Faults of the root's tag are found while the root is being read,
   and so before any later text that is not JSON; all other faults come after the whole root.
-/

namespace ChapterLint

/-- A name with its span, a record of `name` and `loc`. -/
def Identifier.read (j : Json) : Except Fault Identifier := do
  let (name, span) ← Record.readPair .inDocument "Identifier"
    { key := "name", read := Json.asText } { key := "loc", read := Span.read .inDocument } j
  return ⟨name, span⟩

namespace VariableKind

/-- All words. -/
def all : List VariableKind := [.var, .let, .const]

/-- The word as documents write it. -/
def key : VariableKind → String
  | .var => "var"
  | .let => "let"
  | .const => "const"

/-- The kind that documents write so. -/
def ofKey (s : String) : Except Fault VariableKind :=
  match all.find? fun v => v.key = s with
  | some v => .ok v
  | none => .error (.unknownChoice s (all.map key))

/-- A kind is written as its word, or as an object with that one key and nothing in it: `null`
or an empty object. -/
def read (j : Json) : Except Fault VariableKind :=
  match j with
  | .string (some s) => ofKey s
  | .object [(some k, v)] => do
    let kind ← ofKey k
    match v with
    | .null | .object [] => return kind
    | v => v.refuse .nothing
  | .object _ => .error (.wrongValue .object .singleMember)
  | j => j.refuse .choice

end VariableKind

/-- What the fields of a declarator hold. -/
inductive Declarator.Part where
  | id
  | init
  | span

/-- The type of a part of a declarator. -/
@[reducible]
def Declarator.Part.type : Declarator.Part → Type
  | .id => Identifier
  | .init => Option Node
  | .span => Span

/-- How the parts of a declarator are read. -/
def Declarator.parts (node : Json → Except Fault Node) : Contents Declarator.Part.type where
  read
    | .id => Identifier.read
    | .init => Json.asOption node
    | .span => Span.read .inDocument
  absent
    | .init => some none
    | _ => none

/-- A declarator, a record like a node of its kind, but without a tag. -/
def Declarator.read (node : Json → Except Fault Node) (j : Json) :
    Except Fault (Declarator Node) := do
  let (id, init, span, ()) ← Record.read (Declarator.parts node) .inDocument
    "VariableDeclarator" [⟨"id", .id⟩, ⟨"init", .init⟩, ⟨"loc", .span⟩] j
  return ⟨id, init, span⟩

/-- How the contents of fields are read, given a reader for nodes. -/
def Content.reader (node : Json → Except Fault Node) : Contents Content.type where
  read
    | .node => node
    | .optionalNode => Json.asOption node
    | .nodes => Json.asList node
    | .elements => Json.asList (Json.asOption node)
    | .identifier => Identifier.read
    | .optionalIdentifier => Json.asOption Identifier.read
    | .declarators => Json.asList (Declarator.read node)
    | .variableKind => VariableKind.read
    | .text => Json.asText
    | .flag => Json.asFlag
    | .value => Value.ofJson
    | .span => Span.read .inDocument
  absent := Content.absent

namespace Node

/-- The key of a node's tag. -/
def tagKey : String := "type"

/-- The kind that a tag names or numbers. -/
def readTag (j : Json) : Except Fault NodeKind := do
  match ← j.found with
  | .text s => return .ofName s
  | .number (.integer n) =>
    if 0 ≤ n then return .ofIndex n.toNat
    else throw (.wrongKind (.number (.integer n)) .tag)
  | u => throw (.wrongKind u .tag)

/-- Parts the tag from the other members, given a tag found before. -/
def takeTag (found : Option NodeKind) :
    List (Option String × Json) →
      Except Fault (NodeKind × List (Option String × Json))
  | [] =>
    match found with
    | some k => .ok (k, [])
    | none => .error (.missing tagKey)
  | (none, _) :: _ => .error .notJson
  | (some key, j) :: ms =>
    if key = tagKey then
      match found with
      | some _ => .error (.repeated tagKey)
      | none => do
        let k ← readTag j
        takeTag (some k) ms
    else do
      let (k, rest) ← takeTag found ms
      return (k, (some key, j) :: rest)

/-- Reads a node, given a reader for the nodes below it. -/
def readWith (node : Json → Except Fault Node) : Json → Except Fault Node
  | .array [] => .error (.missing tagKey)
  | .array (tag :: items) => do
    let k ← readTag tag
    let c ← Record.ofItems (Content.reader node) .inDocument k.recordName k.fields items
    return k.build c
  | .object ms => do
    let (k, rest) ← takeTag none ms
    let c ← Record.ofMembers (Content.reader node) k.fields rest
    return k.build c
  | j => j.refuse .node

/-- Reads a node with at most the given nesting. -/
def readWithin : Nat → Json → Except Fault Node
  | 0 => fun j => readWith (fun _ => .error .notJson) j
  | n + 1 => fun j => readWith (readWithin n) j

/-- Reads a node. -/
def read (j : Json) : Except Fault Node := readWithin j.depth j

/-! ## The root -/

/-- The root's tag has to be a string. -/
def checkRootTag (j : Json) : Except Fault Unit := do
  match ← j.found with
  | .text _ => return ()
  | u => throw (.wrongKind u .tag)

/-- Looks for the faults of the root's tag among its members, in the order of the text. -/
def checkRootMembers (found : Bool) : List (Option String × Json) → Except Fault Unit
  | [] => .ok ()
  | (none, _) :: _ => .error .notJson
  | (some key, j) :: ms =>
    if key = tagKey then
      if found then .error (.repeated tagKey)
      else do
        checkRootTag j
        checkRootMembers true ms
    else if j.isSound then checkRootMembers found ms
    else .error .notJson

/-- Looks for the faults that are found while the root is being read. -/
def checkRoot : Json → Except Fault Unit
  | .array [] => .ok ()
  | .array (tag :: _) => checkRootTag tag
  | .object ms => checkRootMembers false ms
  | j => j.refuse .node

/-- Reads the root of a tree. -/
def readRoot (j : Json) : Except Fault Node := do
  checkRoot j
  if j.isSound then read j else throw .notJson

/-- Reads the tree of a text. -/
def ofText (s : String) : Except Fault Node := readText readRoot s

/-- The tree of a text, or the failure of the request that brought it. -/
def parse (s : String) : Except Failure Node := (ofText s).mapError .ofFault

end Node

end ChapterLint
