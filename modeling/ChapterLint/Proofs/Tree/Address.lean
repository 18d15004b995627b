import ChapterLint.Proofs.Tree.Walk

/-!
# Subtrees in the order of the walk

Equal nodes may stand in several places of a tree, so a place is told by its address: the numbers of
the children that are taken on the way down from the root (`Node.descendant?`). A node is inside
another one if its address goes on from the address of the other. Preorder is the order of words on
addresses: a node comes before what is inside it, and what is inside a child comes before what is
inside a later one.

1. Every subtree is a block of the nodes in the order of the walk: before it stands what the walk
   visits on the way there (`Node.before`), then all of the subtree
   (`exists_nodes_eq_append`).
2. Of two nodes, neither inside the other, the one whose address is less is through, with all that
   is inside it, when the walk comes to the other (`exists_before_eq_append`).
-/

namespace ChapterLint

namespace Node

/-- The node at an address: each number says which child is taken next. -/
def descendant? : Node → List Nat → Option Node
  | n, [] => some n
  | n, i :: p => n.children[i]?.bind fun c => c.descendant? p

/-- The nodes that the walk visits before it comes to an address: those on the way, each with the
children, and all that is inside them, that stand before the one taken. -/
def before : Node → List Nat → List Node
  | _, [] => []
  | n, i :: p =>
    n :: (n.children.take i).flatMap nodes ++ n.children[i]?.elim [] fun c => c.before p

theorem descendant?_cons {n m : Node} {i : Nat} {p : List Nat} :
    n.descendant? (i :: p) = some m ↔
      ∃ c, n.children[i]? = some c ∧ c.descendant? p = some m :=
  Option.bind_eq_some_iff

theorem before_cons {n c : Node} {i : Nat} (h : n.children[i]? = some c) (p : List Nat) :
    n.before (i :: p) = n :: (n.children.take i).flatMap nodes ++ c.before p := by
  rw [before, h, Option.elim_some]

/-- The nodes with an address are those that the walk visits. -/
theorem mem_nodes_iff_exists_descendant? {root n : Node} :
    n ∈ root.nodes ↔ ∃ p, root.descendant? p = some n := by
  induction root using childrenInduction with
  | step root ih =>
    rw [nodes_eq, List.mem_cons, List.mem_flatMap]
    constructor
    · rintro (rfl | ⟨c, hc, hn⟩)
      · exact ⟨[], rfl⟩
      · obtain ⟨i, hi⟩ := List.mem_iff_getElem?.1 hc
        obtain ⟨p, hp⟩ := (ih c hc).1 hn
        exact ⟨i :: p, descendant?_cons.2 ⟨c, hi, hp⟩⟩
    · rintro ⟨p, hp⟩
      cases p with
      | nil => exact .inl (Option.some_inj.1 hp).symm
      | cons i p =>
        obtain ⟨c, hi, hn⟩ := descendant?_cons.1 hp
        have hc := List.mem_of_getElem? hi
        exact .inr ⟨c, hc, (ih c hc).2 ⟨p, hn⟩⟩

/-- One of several nodes parts what is visited in them. -/
theorem flatMap_nodes_eq_append {ns : List Node} {i : Nat} {c : Node} (h : ns[i]? = some c) :
    ns.flatMap nodes =
      (ns.take i).flatMap nodes ++ c.nodes ++ (ns.drop (i + 1)).flatMap nodes := by
  obtain ⟨hi, rfl⟩ := List.getElem?_eq_some_iff.1 h
  have hparts : ns = ns.take i ++ ns[i] :: ns.drop (i + 1) := by
    rw [← List.drop_eq_getElem_cons hi, List.take_append_drop]
  calc ns.flatMap nodes = (ns.take i ++ ns[i] :: ns.drop (i + 1)).flatMap nodes := by
        rw [← hparts]
    _ = _ := by rw [List.flatMap_append, List.flatMap_cons, List.append_assoc]

/-- **A subtree is visited in one go.** -/
theorem exists_nodes_eq_append {root n : Node} {p : List Nat} (h : root.descendant? p = some n) :
    ∃ after, root.nodes = root.before p ++ n.nodes ++ after := by
  induction p generalizing root with
  | nil =>
    cases h
    exact ⟨[], (List.append_nil _).symm⟩
  | cons i p ih =>
    obtain ⟨c, hc, hn⟩ := descendant?_cons.1 h
    obtain ⟨after, hafter⟩ := ih hn
    refine ⟨after ++ (root.children.drop (i + 1)).flatMap nodes, ?_⟩
    rw [nodes_eq, flatMap_nodes_eq_append hc, hafter, before_cons hc]
    simp only [List.cons_append, List.append_assoc]

/-- **Subtrees are visited in preorder.** -/
theorem exists_before_eq_append {root n : Node} {p q : List Nat}
    (h : root.descendant? p = some n) (hlt : p < q) (hapart : ¬ p <+: q) :
    ∃ between, root.before q = root.before p ++ n.nodes ++ between := by
  induction p generalizing root q with
  | nil => exact absurd List.nil_prefix hapart
  | cons i p ih =>
    obtain ⟨c, hc, hn⟩ := descendant?_cons.1 h
    cases q with
    | nil => exact absurd hlt (List.not_lt_nil _)
    | cons j q =>
      rcases List.cons_lt_cons_iff.1 hlt with hij | ⟨rfl, hrest⟩
      · -- the child that leads to `n` is among those before the one that `q` takes
        have htake : (root.children.take j)[i]? = some c := by
          rw [List.getElem?_take_of_lt hij, hc]
        obtain ⟨after, hafter⟩ := exists_nodes_eq_append hn
        have hsplit := flatMap_nodes_eq_append htake
        rw [List.take_take, Nat.min_eq_left (Nat.le_of_lt hij), hafter] at hsplit
        rw [before, hsplit, before_cons hc]
        simp only [List.cons_append, List.append_assoc]
        exact ⟨_, rfl⟩
      · obtain ⟨between, hbetween⟩ := ih hn hrest fun hprefix =>
          hapart (List.cons_prefix_cons.2 ⟨rfl, hprefix⟩)
        refine ⟨between, ?_⟩
        rw [before_cons hc, before_cons hc, hbetween]
        simp only [List.cons_append, List.append_assoc]

end Node

end ChapterLint
