import ChapterLint.Lint.Builtin

/-!
# Registries of rules

A registry holds rules in the order in which their names were first registered; registering a
name again replaces its rule. Beside the rules it keeps, for each kind of node, the places of the
rules bound to it, in ascending order.
-/

namespace ChapterLint

/-- A registry of rules. -/
structure Registry where
  rules : List Rule
  places : NodeKind → List Nat

namespace Registry

/-- The registry without rules. -/
def empty : Registry := ⟨[], fun _ => []⟩

/-- Puts a place among ascending ones. -/
def insertPlace (i : Nat) (places : List Nat) : List Nat :=
  places.takeWhile (· < i) ++ i :: places.dropWhile (· < i)

/-- Changes the places of one kind. -/
def changePlaces (places : NodeKind → List Nat) (k : NodeKind) (f : List Nat → List Nat) :
    NodeKind → List Nat :=
  fun k' => if k' = k then f (places k') else places k'

/-- Moves a place from one kind to another. -/
def movePlace (places : NodeKind → List Nat) (i : Nat) (source target : NodeKind) :
    NodeKind → List Nat :=
  if source = target then places
  else changePlaces (changePlaces places source (·.filter (· ≠ i))) target (insertPlace i)

/-- Registers a rule. A rule of the same name is replaced where it stands. -/
def register (r : Registry) (rule : Rule) : Registry :=
  match r.rules.findIdx? (fun old => old.id = rule.id) with
  | some i =>
    { rules := r.rules.set i rule
      places :=
        match r.rules[i]? with
        | some old => movePlace r.places i old.kind rule.kind
        | none => r.places }
  | none =>
    { rules := r.rules ++ [rule]
      places := changePlaces r.places rule.kind (· ++ [r.rules.length]) }

/-- Registers rules one after the other. -/
def ofList (rules : List Rule) : Registry := rules.foldl register empty

/-- The registry of the built-in rules. -/
def builtin : Registry := ofList Rule.builtin

/-- The rule of a name. -/
def find? (r : Registry) (id : String) : Option Rule := r.rules.find? fun rule => rule.id = id

/-- The rules bound to a kind, in their order. -/
def rulesFor (r : Registry) (k : NodeKind) : List Rule :=
  (r.places k).filterMap fun i => r.rules[i]?

end Registry

end ChapterLint
