import ChapterLint.Tree.Node

/-!
# Walks over trees

A walk visits a node and all nodes below it and carries a state along. `Node.walkDeep` goes
depth first, a node before its children, and keeps the nodes still to come on a stack.
`Node.walkWide` goes breadth first and keeps them in a queue. Both end because the children of
a node are together smaller than the node.
-/

namespace ChapterLint

namespace Node

variable {σ : Type}

/-- The size of a stack of nodes with their parents. -/
noncomputable def stackSize (stack : List (Option Node × Node)) : Nat :=
  totalSize (stack.map Prod.snd)

/-- Visits the nodes of a stack, each with all nodes below it before the next. -/
def walkStack (visit : Option Node → Node → σ → σ) : List (Option Node × Node) → σ → σ
  | [], s => s
  | (parent, n) :: rest, s =>
    walkStack visit (n.children.map (fun c => (some n, c)) ++ rest) (visit parent n s)
termination_by stack => stackSize stack
decreasing_by
  have h := totalSize_children_lt n
  have hc : List.map (Prod.snd ∘ fun c => ((some n, c) : Option Node × Node)) n.children
      = n.children := by simp [Function.comp_def]
  simp only [stackSize, List.map_append, List.map_map, hc, totalSize_append, List.map_cons,
    totalSize_cons]
  omega

/-- Visits a tree depth first, each node with its parent. -/
def walkDeep (visit : Option Node → Node → σ → σ) (root : Node) (s : σ) : σ :=
  walkStack visit [(none, root)] s

/-- Visits the nodes of a queue, and all nodes below them behind the whole queue. -/
def walkQueue (visit : Node → σ → σ) : List Node → σ → σ
  | [], s => s
  | n :: rest, s => walkQueue visit (rest ++ n.children) (visit n s)
termination_by queue => totalSize queue
decreasing_by
  have h := totalSize_children_lt n
  simp only [totalSize_append, totalSize_cons]
  omega

/-- Visits a tree breadth first. -/
def walkWide (visit : Node → σ → σ) (root : Node) (s : σ) : σ := walkQueue visit [root] s

end Node

end ChapterLint
