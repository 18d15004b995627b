import ChapterLint.Proofs.Tree.Place

/-!
# The spans of a tree

Spans stand in three kinds of places: every node but the unknown ones has one, and so do the names
and the variables that a node holds. `Node.ownSpans` lists the spans of one node by its fields.
What holds at every place of a tree (`Node.Everywhere`) holds at the places below every node in it,
the parameters and import specifiers that the walks pass by among them; `Node.EverySpan` says
something of all spans of a tree in this way.

`Node.mapSpans` replaces every span (`everySpan_mapSpans`) and leaves the rest of the tree alone.
Hence it keeps the kind of a node, and it commutes with whatever goes through the tree by its
children: the nodes of the new tree are the new nodes, depth first (`nodes_mapSpans`) and breadth
first (`wideOrder_mapSpans`).
-/

namespace ChapterLint

/-- A line that is counted from one is counted down by one. -/
theorem Position.fromZero_of_one_le {p : Position} (h : 1 ≤ p.line) :
    p.fromZero = ⟨p.line - 1, p.column⟩ := by
  have hne : p.line ≠ 0 := fun h0 => absurd (h0 ▸ h) (by decide)
  rw [fromZero, if_neg hne]

/-- The lines of a span are counted from one. -/
def Span.FromOne (s : Span) : Prop := 1 ≤ s.first.line ∧ 1 ≤ s.last.line

instance (s : Span) : Decidable s.FromOne := inferInstanceAs (Decidable (_ ∧ _))

/-! ## Spans by fields -/

/-- The spans that a content has outside of the nodes in it. -/
def Content.spans : (c : Content) → c.type → List Span
  | .identifier, id => [id.span]
  | .optionalIdentifier, id => id.toList.map Identifier.span
  | .declarators, ds => ds.flatMap fun d => [d.span, d.id.span]
  | .span, s => [s]
  | .node, _ | .optionalNode, _ | .nodes, _ | .elements, _ | .variableKind, _ | .text, _
  | .flag, _ | .value, _ => []

/-- The spans of all fields. -/
def Content.spansOf : (fs : List (Field Content)) → Tuple Content.type fs → List Span
  | [], () => []
  | f :: fs, (x, rest) => f.sort.spans x ++ spansOf fs rest

namespace Node

/-- The spans of a node, without those of the nodes below it. -/
def ownSpans (n : Node) : List Span := Content.spansOf n.kind.fields n.contents

theorem mem_ownSpans_of_span? {n : Node} {s : Span} (h : n.span? = some s) : s ∈ n.ownSpans := by
  cases n with
  | unknown => cases h
  | _ =>
    obtain rfl := Option.some_inj.1 h
    simp [ownSpans, kind, contents, Content.spansOf, Content.spans]

/-! ## All places -/

/-- Something holds of the node at every place of a tree. -/
def Everywhere (P : Node → Prop) (root : Node) : Prop :=
  ∀ place n, root.at? place = some n → P n

/-- Something holds of every span of a tree. -/
def EverySpan (P : Span → Prop) : Node → Prop := Everywhere fun n => ∀ s ∈ n.ownSpans, P s

namespace Everywhere

variable {P : Node → Prop} {n m : Node}

theorem here (h : n.Everywhere P) : P n := h [] n rfl

/-- The places below a node are places of the node. -/
theorem below (h : n.Everywhere P) {step : Step} (hm : n.below? step = some m) :
    m.Everywhere P := by
  intro place l hl
  refine h (step :: place) l ?_
  rw [at?, hm, Option.bind_some, hl]

theorem child (h : n.Everywhere P) (hm : m ∈ n.children) : m.Everywhere P := by
  obtain ⟨step, hstep⟩ := exists_below?_of_mem_children hm
  exact h.below hstep

theorem cell (h : n.Everywhere P) (key : String) {os : List (Option Node)}
    (hkey : n.cells.lookup key = some os) (hm : some m ∈ os) : m.Everywhere P := by
  obtain ⟨step, hstep⟩ := exists_below?_of_lookup key hkey hm
  exact h.below hstep

theorem of_mem_nodes (h : n.Everywhere P) (hm : m ∈ n.nodes) : m.Everywhere P := by
  induction n using childrenInduction with
  | step n ih =>
    rw [nodes_eq] at hm
    rcases List.mem_cons.1 hm with rfl | hm
    · exact h
    · obtain ⟨c, hc, hm⟩ := List.mem_flatMap.1 hm
      exact ih c hc (h.child hc) hm

/-- What holds of a node and everywhere in its fields holds everywhere. -/
theorem of_cells (hhere : P n) (hcells : ∀ c ∈ n.cells, ∀ m, some m ∈ c.2 → m.Everywhere P) :
    n.Everywhere P := by
  intro place l hl
  cases place with
  | nil =>
    obtain rfl := Option.some_inj.1 hl
    exact hhere
  | cons step place =>
    rw [at?, Option.bind_eq_some_iff] at hl
    obtain ⟨m, hbelow, hl⟩ := hl
    obtain ⟨c, hc, hm⟩ := exists_mem_cells_of_below? hbelow
    exact hcells c hc m hm place l hl

end Everywhere

/-- A function `f` with a parameter `x` and a `break` for its body. -/
def breakFunction (name param body whole : Span) : Node :=
  .functionDeclaration ⟨"f", name⟩ [.identifier ⟨"x", param⟩] (.breakStatement body) whole

theorem everywhere_breakFunction {P : Node → Prop} {name param body whole : Span}
    (hparam : P (.identifier ⟨"x", param⟩)) (hbody : P (.breakStatement body))
    (hhere : P (breakFunction name param body whole)) :
    (breakFunction name param body whole).Everywhere P := by
  have hparam : (Node.identifier ⟨"x", param⟩).Everywhere P :=
    .of_cells hparam (by simp [cells, kind, contents, Content.cellsOf, Content.cells])
  have hbody : (Node.breakStatement body).Everywhere P :=
    .of_cells hbody (by simp [cells, kind, contents, Content.cellsOf, Content.cells])
  refine .of_cells hhere ?_
  simpa [breakFunction, cells, kind, contents, Content.cellsOf, Content.cells]
    using ⟨hparam, hbody⟩

theorem nodes_breakFunction (name param body whole : Span) :
    (breakFunction name param body whole).nodes =
      [breakFunction name param body whole, .breakStatement body] := by
  simp [breakFunction, nodes_eq, children]

theorem wideOrder_breakFunction (name param body whole : Span) :
    (breakFunction name param body whole).wideOrder =
      [breakFunction name param body whole, .breakStatement body] := by
  simp [breakFunction, wideOrder, queued, children]

theorem EverySpan.span {P : Span → Prop} {n : Node} (h : n.EverySpan P) {s : Span}
    (hs : n.span? = some s) : P s :=
  h.here s (mem_ownSpans_of_span? hs)

end Node

/-! ## Replacing spans -/

/-- The name with its span replaced. -/
def Identifier.mapSpan (f : Span → Span) (id : Identifier) : Identifier := ⟨id.name, f id.span⟩

namespace Node

mutual

/-- The tree with every span replaced. -/
def mapSpans (f : Span → Span) : Node → Node
  | .program body s => .program (mapSpansList f body) (f s)
  | .blockStatement body s => .blockStatement (mapSpansList f body) (f s)
  | .expressionStatement expression s => .expressionStatement (mapSpans f expression) (f s)
  | .ifStatement test consequent alternate s =>
    .ifStatement (mapSpans f test) (mapSpans f consequent) (mapSpansOption f alternate) (f s)
  | .whileStatement test body s => .whileStatement (mapSpans f test) (mapSpans f body) (f s)
  | .forStatement init test update body s =>
    .forStatement (mapSpansOption f init) (mapSpansOption f test) (mapSpansOption f update)
      (mapSpans f body) (f s)
  | .returnStatement argument s => .returnStatement (mapSpansOption f argument) (f s)
  | .breakStatement s => .breakStatement (f s)
  | .continueStatement s => .continueStatement (f s)
  | .debuggerStatement s => .debuggerStatement (f s)
  | .functionDeclaration id params body s =>
    .functionDeclaration (id.mapSpan f) (mapSpansList f params) (mapSpans f body) (f s)
  | .functionExpression id params body s =>
    .functionExpression (id.map (Identifier.mapSpan f)) (mapSpansList f params) (mapSpans f body)
      (f s)
  | .arrowFunctionExpression params body s =>
    .arrowFunctionExpression (mapSpansList f params) (mapSpans f body) (f s)
  | .variableDeclaration declarations kind s =>
    .variableDeclaration (mapSpansDeclarators f declarations) kind (f s)
  | .variableDeclarator ⟨id, init, s⟩ =>
    .variableDeclarator ⟨id.mapSpan f, mapSpansOption f init, f s⟩
  | .identifier id => .identifier (id.mapSpan f)
  | .literal value s => .literal value (f s)
  | .unaryExpression operator argument s => .unaryExpression operator (mapSpans f argument) (f s)
  | .binaryExpression operator left right s =>
    .binaryExpression operator (mapSpans f left) (mapSpans f right) (f s)
  | .logicalExpression operator left right s =>
    .logicalExpression operator (mapSpans f left) (mapSpans f right) (f s)
  | .assignmentExpression operator left right s =>
    .assignmentExpression operator (mapSpans f left) (mapSpans f right) (f s)
  | .conditionalExpression test consequent alternate s =>
    .conditionalExpression (mapSpans f test) (mapSpans f consequent) (mapSpans f alternate) (f s)
  | .callExpression callee arguments s =>
    .callExpression (mapSpans f callee) (mapSpansList f arguments) (f s)
  | .newExpression callee arguments s =>
    .newExpression (mapSpans f callee) (mapSpansList f arguments) (f s)
  | .arrayExpression elements s => .arrayExpression (mapSpansElements f elements) (f s)
  | .memberExpression object index computed s =>
    .memberExpression (mapSpans f object) (mapSpans f index) computed (f s)
  | .objectExpression properties s => .objectExpression (mapSpansList f properties) (f s)
  | .property key value s => .property (mapSpans f key) (mapSpans f value) (f s)
  | .importDeclaration specifiers s => .importDeclaration (mapSpansList f specifiers) (f s)
  | .importSpecifier imported name s =>
    .importSpecifier (imported.mapSpan f) (name.mapSpan f) (f s)
  | .importDefaultSpecifier name s => .importDefaultSpecifier (name.mapSpan f) (f s)
  | .importNamespaceSpecifier name s => .importNamespaceSpecifier (name.mapSpan f) (f s)
  | .unknown => .unknown

/-- The same for a node that may be absent. -/
def mapSpansOption (f : Span → Span) : Option Node → Option Node
  | none => none
  | some n => some (mapSpans f n)

/-- The same for a list of nodes. -/
def mapSpansList (f : Span → Span) : List Node → List Node
  | [] => []
  | n :: ns => mapSpans f n :: mapSpansList f ns

/-- The same for the elements of an array. -/
def mapSpansElements (f : Span → Span) : List (Option Node) → List (Option Node)
  | [] => []
  | o :: os => mapSpansOption f o :: mapSpansElements f os

/-- The same for the variables of a declaration. -/
def mapSpansDeclarators (f : Span → Span) : List (Declarator Node) → List (Declarator Node)
  | [] => []
  | ⟨id, init, s⟩ :: ds =>
    ⟨id.mapSpan f, mapSpansOption f init, f s⟩ :: mapSpansDeclarators f ds

end

variable (f : Span → Span)

@[simp] theorem mapSpansOption_eq_map (o : Option Node) :
    mapSpansOption f o = o.map (mapSpans f) := by
  cases o <;> rw [mapSpansOption] <;> rfl

@[simp] theorem mapSpansList_eq_map (ns : List Node) :
    mapSpansList f ns = ns.map (mapSpans f) := by
  induction ns with
  | nil => rw [mapSpansList, List.map_nil]
  | cons n ns ih => rw [mapSpansList, ih, List.map_cons]

@[simp] theorem mapSpansElements_eq_map (os : List (Option Node)) :
    mapSpansElements f os = os.map (Option.map (mapSpans f)) := by
  induction os with
  | nil => rw [mapSpansElements, List.map_nil]
  | cons o os ih => rw [mapSpansElements, mapSpansOption_eq_map, ih, List.map_cons]

@[simp] theorem mapSpansDeclarators_eq_map (ds : List (Declarator Node)) :
    mapSpansDeclarators f ds = ds.map fun d =>
      ⟨d.id.mapSpan f, d.init.map (mapSpans f), f d.span⟩ := by
  induction ds with
  | nil => rw [mapSpansDeclarators, List.map_nil]
  | cons d ds ih => rw [mapSpansDeclarators, mapSpansOption_eq_map, ih, List.map_cons]

@[simp] theorem kind_mapSpans (n : Node) : (n.mapSpans f).kind = n.kind := by
  cases n <;> rw [mapSpans] <;> rfl

@[simp] theorem span?_mapSpans (n : Node) : (n.mapSpans f).span? = n.span?.map f := by
  cases n <;> rw [mapSpans] <;> rfl

@[simp] theorem children_mapSpans (n : Node) :
    (n.mapSpans f).children = n.children.map (mapSpans f) := by
  cases n <;> simp [mapSpans, children, List.flatMap_map, List.map_flatMap, Option.toList_map]

theorem ownSpans_mapSpans (n : Node) : (n.mapSpans f).ownSpans = n.ownSpans.map f := by
  cases n with
  | functionExpression id params body s =>
    cases id <;>
      simp [mapSpans, ownSpans, kind, contents, Content.spansOf, Content.spans, Identifier.mapSpan]
  | _ =>
    simp [mapSpans, ownSpans, kind, contents, Content.spansOf, Content.spans, Identifier.mapSpan,
      List.flatMap_map, List.map_flatMap]

theorem cells_mapSpans (n : Node) :
    (n.mapSpans f).cells = n.cells.map fun c => (c.1, c.2.map (Option.map (mapSpans f))) := by
  cases n <;> simp [mapSpans, cells, kind, contents, Content.cellsOf, Content.cells]

theorem below?_mapSpans (n : Node) (step : Step) :
    (n.mapSpans f).below? step = (n.below? step).map (mapSpans f) := by
  rw [below?, below?, cells_mapSpans]
  generalize n.cells = cs
  induction cs with
  | nil => rfl
  | cons c cs ih =>
    obtain ⟨key, os⟩ := c
    rw [List.map_cons, List.lookup_cons, List.lookup_cons]
    cases step.field == key with
    | true =>
      dsimp only
      rw [Option.bind_some, Option.bind_some, List.getElem?_map]
      cases os[step.index]? <;> rfl
    | false => exact ih

theorem at?_mapSpans (n : Node) (place : List Step) :
    (n.mapSpans f).at? place = (n.at? place).map (mapSpans f) := by
  induction place generalizing n with
  | nil => rfl
  | cons step place ih =>
    rw [at?, at?, below?_mapSpans]
    cases n.below? step with
    | none => rfl
    | some m => exact ih m

/-- Every span is replaced, wherever it stands. -/
theorem everySpan_mapSpans {P : Span → Prop} (n : Node) :
    (n.mapSpans f).EverySpan P ↔ n.EverySpan fun s => P (f s) := by
  constructor
  · intro h place m hm s hs
    have hat : (n.mapSpans f).at? place = some (m.mapSpans f) := by rw [at?_mapSpans, hm]; rfl
    refine h place _ hat (f s) ?_
    rw [ownSpans_mapSpans]
    exact List.mem_map_of_mem hs
  · intro h place m hm s hs
    rw [at?_mapSpans, Option.map_eq_some_iff] at hm
    obtain ⟨m, hm, rfl⟩ := hm
    rw [ownSpans_mapSpans] at hs
    obtain ⟨t, ht, rfl⟩ := List.mem_map.1 hs
    exact h place m hm t ht

theorem nodes_mapSpans (n : Node) : (n.mapSpans f).nodes = n.nodes.map (mapSpans f) := by
  induction n using childrenInduction with
  | step n ih =>
    rw [nodes_eq, nodes_eq n, children_mapSpans, List.map_cons, List.flatMap_map, List.map_flatMap]
    exact congrArg _ (List.flatMap_congr ih)

theorem queued_mapSpans (queue : List Node) :
    queued (queue.map (mapSpans f)) = (queued queue).map (mapSpans f) := by
  fun_induction queued queue with
  | case1 => rw [List.map_nil, queued]
  | case2 n rest ih =>
    rw [List.map_cons, queued, children_mapSpans, ← List.map_append, ih, List.map_cons]

theorem wideOrder_mapSpans (n : Node) :
    (n.mapSpans f).wideOrder = n.wideOrder.map (mapSpans f) := queued_mapSpans f [n]

end Node

end ChapterLint
