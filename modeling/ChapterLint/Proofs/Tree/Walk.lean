import Mathlib.Data.List.Perm.Basic
import Mathlib.Logic.Function.Iterate
import ChapterLint.Tree.Walk

/-!
# What the walks visit

A walk is settled by the sequence of its visits, whatever a visit does to the state. So what a walk
does is a fold over its visits; `append_foldl`, `count_foldl` and `part_foldl` say what a fold does
to a part of the state from what each step does to it.

1. `Node.nodes` lists a node and all nodes below it, a node before its children; `Node.visits`
   lists them with their parents, and `Node.pending` those of a whole stack. The depth-first walk
   of a stack visits what is pending on it (`walkStack_eq_foldl`). Hence the walk of a tree is the
   plain recursion `Node.visitDeep` (`walkDeep_eq_visitDeep`).
2. `Node.queued` lists the nodes as they leave a queue, `Node.wideOrder` those of a tree
   (`walkQueue_eq_foldl`). They are the nodes of the tree in another order
   (`wideOrder_perm_nodes`).
3. `turnStack` and `turnQueue` are single turns of the two loops. Each loop takes off, turn by
   turn, the nodes listed (`getLast?_turnStack_iterate`, `head?_turnQueue_iterate`), and ends
   after as many turns as there are nodes (`turnStack_iterate_root`, `turnQueue_iterate_root`).
4. `Node.level` are the nodes of a tree at one depth. In the middle of the breadth-first walk the
   queue holds the rest of a level and the children of what has left (`queued_append`). Hence the
   walk goes level by level (`exists_wideOrder_eq_flatMap_level`).
-/

namespace ChapterLint

/-! ## Steps of a loop -/

section Steps

variable {σ β γ : Type} {bs : List β}

/-- Steps that each append something append it one after the other. -/
theorem append_foldl (part : σ → List γ) (step : σ → β → σ) {added : β → List γ}
    (h : ∀ b ∈ bs, ∀ s, part (step s b) = part s ++ added b) (s : σ) :
    part (bs.foldl step s) = part s ++ bs.flatMap added := by
  induction bs generalizing s with
  | nil => simp
  | cons b bs ih =>
    obtain ⟨hb, hbs⟩ := List.forall_mem_cons.1 h
    rw [List.foldl_cons, ih hbs, hb, List.append_assoc, List.flatMap_cons]

/-- Steps that each count one more count as many as there are. -/
theorem count_foldl (count : σ → Nat) (step : σ → β → σ)
    (h : ∀ s b, count (step s b) = count s + 1) (s : σ) :
    count (bs.foldl step s) = count s + bs.length := by
  induction bs generalizing s with
  | nil => rfl
  | cons b bs ih =>
    rw [List.foldl_cons, ih, h, List.length_cons]
    omega

/-- Steps that leave a part of the state alone leave it alone together. -/
theorem part_foldl (part : σ → γ) (step : σ → β → σ) (h : ∀ s b, part (step s b) = part s)
    (s : σ) :
    part (bs.foldl step s) = part s := by
  induction bs generalizing s with
  | nil => rfl
  | cons b bs ih => rw [List.foldl_cons, ih, h]

end Steps

namespace Node

variable {σ : Type}

/-! ## Children -/

theorem sizeOf_le_totalSize {c : Node} {ns : List Node} (h : c ∈ ns) :
    sizeOf c ≤ totalSize ns := by
  induction ns with
  | nil => cases h
  | cons n ns ih =>
    rw [totalSize_cons]
    rcases List.mem_cons.1 h with rfl | h
    · omega
    · have := ih h
      omega

theorem sizeOf_lt_of_mem_children {n c : Node} (h : c ∈ n.children) : sizeOf c < sizeOf n :=
  Nat.lt_of_le_of_lt (sizeOf_le_totalSize h) (totalSize_children_lt n)

/-- What passes from the children of a node to the node holds of every node. -/
@[elab_as_elim]
theorem childrenInduction {P : Node → Prop} (step : ∀ n, (∀ c ∈ n.children, P c) → P n)
    (n : Node) : P n :=
  step n fun c _ => childrenInduction step c
termination_by sizeOf n
decreasing_by
  rename_i h
  exact sizeOf_lt_of_mem_children h

/-- A node and all nodes below it, a node before its children. -/
def nodes (n : Node) : List Node := n :: n.children.attach.flatMap fun c => nodes c.1
termination_by sizeOf n
decreasing_by exact sizeOf_lt_of_mem_children c.2

theorem nodes_eq (n : Node) : n.nodes = n :: n.children.flatMap nodes := by
  rw [nodes, List.flatMap_subtype (g := nodes) (fun _ _ => rfl), List.unattach_attach]

/-- A node and all nodes below it, each with its parent. -/
def visits (parent : Option Node) (n : Node) : List (Option Node × Node) :=
  (parent, n) :: n.children.attach.flatMap fun c => visits (some n) c.1
termination_by sizeOf n
decreasing_by exact sizeOf_lt_of_mem_children c.2

theorem visits_eq (parent : Option Node) (n : Node) :
    visits parent n = (parent, n) :: n.children.flatMap (visits (some n)) := by
  rw [visits, List.flatMap_subtype (g := visits (some n)) (fun _ _ => rfl), List.unattach_attach]

theorem map_snd_visits (parent : Option Node) (n : Node) :
    (visits parent n).map Prod.snd = n.nodes := by
  induction n using childrenInduction generalizing parent with
  | step n ih =>
    rw [visits_eq, nodes_eq, List.map_cons, List.map_flatMap]
    exact congrArg (n :: ·) (List.flatMap_congr fun c hc => ih c hc (some n))

/-! ## Depth first -/

/-- Visits a node, then its children one after the other, each with all nodes below it. -/
def visitDeep (visit : Option Node → Node → σ → σ) (parent : Option Node) (n : Node) (s : σ) : σ :=
  n.children.attach.foldl (fun s c => visitDeep visit (some n) c.1 s) (visit parent n s)
termination_by sizeOf n
decreasing_by exact sizeOf_lt_of_mem_children c.2

theorem visitDeep_eq (visit : Option Node → Node → σ → σ) (parent : Option Node) (n : Node)
    (s : σ) :
    visitDeep visit parent n s =
      n.children.foldl (fun s c => visitDeep visit (some n) c s) (visit parent n s) := by
  rw [visitDeep, List.foldl_subtype (g := fun s c => visitDeep visit (some n) c s)
    (fun _ _ _ => rfl), List.unattach_attach]

/-- The recursion is settled by the sequence of its visits. -/
theorem visitDeep_eq_foldl (visit : Option Node → Node → σ → σ) (parent : Option Node) (n : Node)
    (s : σ) :
    visitDeep visit parent n s =
      (visits parent n).foldl (fun s v => visit v.1 v.2 s) s := by
  induction n using childrenInduction generalizing parent s with
  | step n ih =>
    rw [visitDeep_eq, visits_eq, List.foldl_cons, List.foldl_flatMap]
    exact List.foldl_ext _ _ _ fun s c hc => ih c hc (some n) s

/-- What a stack has still to visit: its entries one after the other, each with all nodes below
it. The pending siblings of every ancestor are among the entries, each with its own parent. -/
def pending (stack : List (Option Node × Node)) : List (Option Node × Node) :=
  stack.flatMap fun v => visits v.1 v.2

/-- The children of the top go before the rest of the stack. -/
theorem pending_cons (parent : Option Node) (n : Node) (rest : List (Option Node × Node)) :
    pending ((parent, n) :: rest) =
      (parent, n) :: pending (n.children.map (fun c => (some n, c)) ++ rest) := by
  unfold pending
  rw [List.flatMap_cons, visits_eq, List.flatMap_append, List.flatMap_map, List.cons_append]

theorem pending_root (root : Node) : pending [(none, root)] = visits none root :=
  List.flatMap_singleton _ _

/-- The walk of a stack is settled by what the stack has to visit. -/
theorem walkStack_eq_foldl (visit : Option Node → Node → σ → σ)
    (stack : List (Option Node × Node)) (s : σ) :
    walkStack visit stack s = (pending stack).foldl (fun s v => visit v.1 v.2 s) s := by
  fun_induction walkStack visit stack s with
  | case1 s => rfl
  | case2 parent n rest s ih => rw [ih, pending_cons, List.foldl_cons]

theorem walkDeep_eq_foldl (visit : Option Node → Node → σ → σ) (root : Node) (s : σ) :
    root.walkDeep visit s = (visits none root).foldl (fun s v => visit v.1 v.2 s) s := by
  rw [walkDeep, walkStack_eq_foldl, pending_root]

/-- The walk with a stack is the recursion. -/
theorem walkDeep_eq_visitDeep (visit : Option Node → Node → σ → σ) (root : Node) (s : σ) :
    root.walkDeep visit s = root.visitDeep visit none s := by
  rw [walkDeep_eq_foldl, visitDeep_eq_foldl]

/-- One turn of the depth-first loop, on a stack whose top is its last entry: takes the top off,
visits it, and puts its children on, the last one first. -/
def turnStack (visit : Option Node → Node → σ → σ) :
    List (Option Node × Node) × σ → List (Option Node × Node) × σ
  | (stack, s) =>
    match stack.getLast? with
    | none => (stack, s)
    | some (parent, n) =>
      (stack.dropLast ++ n.children.reverse.map (fun c => (some n, c)), visit parent n s)

theorem turnStack_concat (visit : Option Node → Node → σ → σ) (rest : List (Option Node × Node))
    (parent : Option Node) (n : Node) (s : σ) :
    turnStack visit (rest.reverse ++ [(parent, n)], s) =
      ((n.children.map (fun c => (some n, c)) ++ rest).reverse, visit parent n s) := by
  simp [turnStack]

/-- The loop empties the stack in as many turns as there are visits, and leaves what the walk
leaves. -/
theorem turnStack_iterate (visit : Option Node → Node → σ → σ)
    (stack : List (Option Node × Node)) (s : σ) :
    (turnStack visit)^[(pending stack).length] (stack.reverse, s) =
      ([], walkStack visit stack s) := by
  fun_induction walkStack visit stack s with
  | case1 s => rfl
  | case2 parent n rest s ih =>
    rw [pending_cons, List.length_cons, Function.iterate_succ_apply, List.reverse_cons,
      turnStack_concat]
    exact ih

/-- What each turn takes off the stack. -/
theorem getLast?_turnStack_iterate (visit : Option Node → Node → σ → σ)
    (stack : List (Option Node × Node)) (s : σ) (i : Nat) :
    ((turnStack visit)^[i] (stack.reverse, s)).1.getLast? = (pending stack)[i]? := by
  induction i generalizing stack s with
  | zero =>
    cases stack with
    | nil => rfl
    | cons v rest => rw [pending_cons]; simp
  | succ i ih =>
    rw [Function.iterate_succ_apply]
    cases stack with
    | nil => exact ih [] s
    | cons v rest =>
      rw [List.reverse_cons, turnStack_concat, ih, pending_cons, List.getElem?_cons_succ]

theorem turnStack_iterate_root (visit : Option Node → Node → σ → σ) (root : Node) (s : σ) :
    (turnStack visit)^[root.nodes.length] ([(none, root)], s) = ([], root.walkDeep visit s) := by
  have h := turnStack_iterate visit [(none, root)] s
  rwa [pending_root, ← List.length_map Prod.snd, map_snd_visits] at h

theorem getLast?_turnStack_iterate_root (visit : Option Node → Node → σ → σ) (root : Node)
    (s : σ) (i : Nat) :
    ((turnStack visit)^[i] ([(none, root)], s)).1.getLast?.map Prod.snd = root.nodes[i]? := by
  have h := getLast?_turnStack_iterate visit [(none, root)] s i
  rw [pending_root] at h
  rw [← map_snd_visits none root, List.getElem?_map, ← h]
  rfl

/-! ## Breadth first -/

/-- The nodes in the order in which they leave a queue. -/
def queued : List Node → List Node
  | [] => []
  | n :: rest => n :: queued (rest ++ n.children)
termination_by queue => totalSize queue
decreasing_by
  have h := totalSize_children_lt n
  rw [totalSize_append, totalSize_cons]
  omega

/-- The nodes of a tree in the order in which the breadth-first walk visits them. -/
def wideOrder (root : Node) : List Node := queued [root]

/-- A walk is settled by the sequence of its visits. -/
theorem walkQueue_eq_foldl (visit : Node → σ → σ) (queue : List Node) (s : σ) :
    walkQueue visit queue s = (queued queue).foldl (fun s n => visit n s) s := by
  fun_induction walkQueue visit queue s with
  | case1 s => rw [queued]; rfl
  | case2 n rest s ih => rw [ih, queued, List.foldl_cons]

theorem walkWide_eq_foldl (visit : Node → σ → σ) (root : Node) (s : σ) :
    root.walkWide visit s = root.wideOrder.foldl (fun s n => visit n s) s :=
  walkQueue_eq_foldl visit [root] s

theorem queued_perm (queue : List Node) : (queued queue).Perm (queue.flatMap nodes) := by
  fun_induction queued queue with
  | case1 => exact .refl _
  | case2 n rest ih =>
    refine (ih.cons n).trans ?_
    rw [List.flatMap_append, List.flatMap_cons, nodes_eq, List.cons_append]
    exact List.perm_append_comm.cons n

/-- The breadth-first walk meets the nodes of the tree, each as often as it occurs. -/
theorem wideOrder_perm_nodes (root : Node) : root.wideOrder.Perm root.nodes := by
  have h := queued_perm [root]
  rwa [List.flatMap_singleton] at h

/-- One turn of the breadth-first loop: takes the first node off the queue, visits it, and puts
its children behind the others. -/
def turnQueue (visit : Node → σ → σ) : List Node × σ → List Node × σ
  | ([], s) => ([], s)
  | (n :: rest, s) => (rest ++ n.children, visit n s)

/-- The loop empties the queue in as many turns as there are visits, and leaves what the walk
leaves. -/
theorem turnQueue_iterate (visit : Node → σ → σ) (queue : List Node) (s : σ) :
    (turnQueue visit)^[(queued queue).length] (queue, s) = ([], walkQueue visit queue s) := by
  fun_induction walkQueue visit queue s with
  | case1 s => rw [queued]; rfl
  | case2 n rest s ih =>
    rw [queued, List.length_cons, Function.iterate_succ_apply]
    exact ih

/-- What each turn takes off the queue. -/
theorem head?_turnQueue_iterate (visit : Node → σ → σ) (queue : List Node) (s : σ) (i : Nat) :
    ((turnQueue visit)^[i] (queue, s)).1.head? = (queued queue)[i]? := by
  induction i generalizing queue s with
  | zero =>
    cases queue with
    | nil => rw [queued]; rfl
    | cons n rest => rw [queued]; rfl
  | succ i ih =>
    rw [Function.iterate_succ_apply]
    cases queue with
    | nil => rw [turnQueue, ih, queued]; rfl
    | cons n rest => rw [turnQueue, ih, queued, List.getElem?_cons_succ]

theorem turnQueue_iterate_root (visit : Node → σ → σ) (root : Node) (s : σ) :
    (turnQueue visit)^[root.nodes.length] ([root], s) = ([], root.walkWide visit s) := by
  rw [← (wideOrder_perm_nodes root).length_eq]
  exact turnQueue_iterate visit [root] s

/-! ## Levels -/

/-- The nodes of a tree at a depth, from left to right. -/
def level (n : Node) : Nat → List Node
  | 0 => [n]
  | d + 1 => (n.level d).flatMap children

/-- A front part of a queue leaves first; its children come behind the whole queue. -/
theorem queued_append (front back : List Node) :
    queued (front ++ back) = front ++ queued (back ++ front.flatMap children) := by
  induction front generalizing back with
  | nil => simp
  | cons n front ih =>
    rw [List.cons_append, queued, List.append_assoc, ih, List.append_assoc, List.flatMap_cons,
      List.cons_append]

/-- When the levels above a depth have left, the queue holds the level of that depth. -/
theorem wideOrder_eq_append_queued (n : Node) (d : Nat) :
    n.wideOrder = (List.range d).flatMap n.level ++ queued (n.level d) := by
  induction d with
  | zero => rfl
  | succ d ih =>
    have h := queued_append (n.level d) []
    rw [List.append_nil, List.nil_append] at h
    rw [ih, h, List.range_succ, List.flatMap_append, List.flatMap_singleton, List.append_assoc]
    rfl

theorem totalSize_flatMap_children (ns : List Node) :
    totalSize (ns.flatMap children) + ns.length ≤ totalSize ns := by
  induction ns with
  | nil => simp
  | cons n ns ih =>
    have h := totalSize_children_lt n
    rw [List.flatMap_cons, totalSize_append, totalSize_cons, List.length_cons]
    omega

theorem totalSize_level (n : Node) (d : Nat) :
    n.level d = [] ∨ totalSize (n.level d) + d ≤ sizeOf n := by
  induction d with
  | zero => right; simp [level]
  | succ d ih =>
    by_cases hn : n.level d = []
    · left; simp [level, hn]
    · right
      have hsize := ih.resolve_left hn
      have hlen := List.length_pos_iff.2 hn
      have hsum := totalSize_flatMap_children (n.level d)
      rw [level]
      omega

/-- A tree has finitely many levels. -/
theorem exists_level_eq_nil (n : Node) : ∃ depth, ∀ d, n.level (depth + d) = [] := by
  refine ⟨sizeOf n, fun d => ?_⟩
  induction d with
  | zero =>
    rcases totalSize_level n (sizeOf n) with h | h
    · exact h
    · have hsum := totalSize_flatMap_children (n.level (sizeOf n))
      exact List.length_eq_zero_iff.1 (by rw [Nat.add_zero]; omega)
  | succ d ih => rw [← Nat.add_assoc, level, ih, List.flatMap_nil]

/-- The walk visits one level after the other. -/
theorem exists_wideOrder_eq_flatMap_level (n : Node) :
    ∃ depth, (∀ d, n.level (depth + d) = []) ∧
      n.wideOrder = (List.range depth).flatMap n.level := by
  obtain ⟨depth, h⟩ := exists_level_eq_nil n
  refine ⟨depth, h, ?_⟩
  rw [wideOrder_eq_append_queued n depth, show n.level depth = [] from h 0, queued,
    List.append_nil]

end Node

end ChapterLint
