import Mathlib.Data.List.Perm.Basic
import ChapterLint.Proofs.Tree.Walk
import ChapterLint.Tree.Fields

/-!
# Places in a tree

A place in a tree is a path from the root: each step of it names a field and a place among the
nodes that the field holds. The fields are those of the records that nodes are written as
(`NodeKind.fields`), so the places do not depend on what the walks take for the children of a node.

1. `Node.at?` is the node at a place. A place is open if no step on the way goes through the field
   `params`, which functions have, or `specifiers`, which imports have (`Node.OpenPlace`).
2. `map_snd_openSlots_perm`: the nodes in the open fields of a node are its children, each once.
   This is the one statement that goes through the kinds of nodes.
3. `Node.openPlaces` lists the open places of a tree, each once (`openPlaces_nodup`,
   `mem_openPlaces`). Their nodes are those that the walks visit (`map_snd_openPlaces_perm`).
-/

namespace ChapterLint

/-- The nodes that a content may hold, in their order; a hole or an absent node is `none`. -/
def Content.cells : (c : Content) → c.type → List (Option Node)
  | .node, n => [some n]
  | .optionalNode, o => [o]
  | .nodes, ns => ns.map some
  | .elements, es => es
  | .declarators, ds => ds.map Declarator.init
  | .identifier, _ | .optionalIdentifier, _ | .variableKind, _ | .text, _ | .flag, _ | .value, _
  | .span, _ => []

/-- The cells of each field. -/
def Content.cellsOf : (fs : List (Field Content)) → Tuple Content.type fs →
    List (String × List (Option Node))
  | [], () => []
  | f :: fs, (x, rest) => (f.key, f.sort.cells x) :: cellsOf fs rest

/-- A step from a node to one that a field of it holds. -/
structure Step where
  field : String
  index : Nat
deriving DecidableEq, Repr

/-- A field that holds neither the parameters of a function nor the specifiers of an import. -/
def openField (key : String) : Bool := key ≠ "params" ∧ key ≠ "specifiers"

/-- The steps through cells, each with the node that it leads to. -/
def Step.through (cs : List (String × List (Option Node))) : List (Step × Node) :=
  cs.flatMap fun c => c.2.zipIdx.filterMap fun o => o.1.map fun m => (⟨c.1, o.2⟩, m)

namespace Node

/-- The cells of each field of a node. -/
def cells (n : Node) : List (String × List (Option Node)) :=
  Content.cellsOf n.kind.fields n.contents

/-- The node that a step leads to. -/
def below? (n : Node) (s : Step) : Option Node :=
  (n.cells.lookup s.field).bind fun os => os[s.index]?.join

/-- The node at a place. -/
def at? : Node → List Step → Option Node
  | n, [] => some n
  | n, s :: p => (n.below? s).bind fun m => m.at? p

/-- A place of a tree that no parameter and no specifier is on the way to. -/
def OpenPlace (root : Node) (p : List Step) : Prop :=
  (root.at? p).isSome ∧ ∀ s ∈ p, openField s.field

/-- The open steps from a node, each with the node that it leads to. -/
def openSlots (n : Node) : List (Step × Node) :=
  Step.through (n.cells.filter fun c => openField c.1)

end Node

/-! ## Steps -/

namespace Step

theorem mem_through {cs : List (String × List (Option Node))} {s : Step} {m : Node} :
    (s, m) ∈ through cs ↔ ∃ os, (s.field, os) ∈ cs ∧ os[s.index]? = some (some m) := by
  simp only [through, List.mem_flatMap, List.mem_filterMap, Option.map_eq_some_iff, Prod.mk.injEq]
  constructor
  · rintro ⟨⟨key, os⟩, hc, ⟨o, i⟩, ho, _, rfl, rfl, rfl⟩
    exact ⟨os, hc, List.mem_zipIdx_iff_getElem?.1 ho⟩
  · rintro ⟨os, hc, ho⟩
    have hidx : (some m, s.index) ∈ os.zipIdx := List.mem_zipIdx_iff_getElem?.2 ho
    exact ⟨(s.field, os), hc, _, hidx, m, rfl, rfl, rfl⟩

/-- No step is listed twice. -/
theorem through_nodup {cs : List (String × List (Option Node))} (h : (cs.map Prod.fst).Nodup) :
    ((through cs).map Prod.fst).Nodup := by
  rw [List.Nodup, List.pairwise_map, through, List.pairwise_flatMap]
  constructor
  · rintro ⟨key, os⟩ -
    have hidx : os.zipIdx.Pairwise fun a b => a.2 < b.2 := by
      rw [← List.pairwise_map, List.zipIdx_map_snd]
      exact List.pairwise_lt_range'
    rw [List.pairwise_filterMap]
    refine hidx.imp fun {a b} hab x hx y hy hxy => ?_
    obtain ⟨_, -, rfl⟩ := Option.map_eq_some_iff.1 hx
    obtain ⟨_, -, rfl⟩ := Option.map_eq_some_iff.1 hy
    exact Nat.ne_of_lt hab (congrArg Step.index hxy)
  · have hkeys : cs.Pairwise fun a b => a.1 ≠ b.1 := List.pairwise_map.1 h
    refine hkeys.imp fun {a b} hab x hx y hy hxy => ?_
    obtain ⟨_, -, ho⟩ := List.mem_filterMap.1 hx
    obtain ⟨_, -, rfl⟩ := Option.map_eq_some_iff.1 ho
    obtain ⟨_, -, ho⟩ := List.mem_filterMap.1 hy
    obtain ⟨_, -, rfl⟩ := Option.map_eq_some_iff.1 ho
    exact hab (congrArg Step.field hxy)

theorem map_snd_through (cs : List (String × List (Option Node))) :
    (through cs).map Prod.snd = cs.flatMap fun c => c.2.flatMap Option.toList := by
  rw [through, List.map_flatMap]
  refine List.flatMap_congr fun c _ => ?_
  have hfst : (fun o : Option Node × Nat =>
      (o.1.map fun m => ((⟨c.1, o.2⟩, m) : Step × Node)).map Prod.snd) = id ∘ Prod.fst := by
    funext o
    rw [Option.map_map]
    exact Option.map_id'
  rw [List.map_filterMap, hfst, ← List.filterMap_map, List.zipIdx_map_fst,
    List.filterMap_eq_flatMap_toList]
  rfl

end Step

namespace Node

theorem map_fst_cellsOf (fs : List (Field Content)) (x : Tuple Content.type fs) :
    (Content.cellsOf fs x).map Prod.fst = fs.map Field.key := by
  induction fs with
  | nil => rfl
  | cons f fs ih =>
    obtain ⟨x, rest⟩ := x
    rw [Content.cellsOf, List.map_cons, List.map_cons, ih]

theorem keys_nodup (k : NodeKind) : (k.fields.map Field.key).Nodup := by
  cases k <;> decide

theorem map_fst_cells_nodup (n : Node) : (n.cells.map Prod.fst).Nodup := by
  rw [cells, map_fst_cellsOf]
  exact keys_nodup n.kind

theorem lookup_eq_some_iff_mem {cs : List (String × List (Option Node))}
    (h : (cs.map Prod.fst).Nodup) (key : String) (os : List (Option Node)) :
    cs.lookup key = some os ↔ (key, os) ∈ cs := by
  induction cs with
  | nil => simp
  | cons c cs ih =>
    obtain ⟨hc, hcs⟩ := List.nodup_cons.1 h
    obtain ⟨k, os'⟩ := c
    rw [List.lookup_cons, List.mem_cons, Prod.mk.injEq, ← ih hcs]
    by_cases hkey : key = k
    · subst hkey
      have hnone : cs.lookup key ≠ some os := fun hl =>
        hc (List.mem_map.2 ⟨_, (ih hcs).1 hl, rfl⟩)
      simp only [beq_self_eq_true, Option.some_inj, hnone, or_false, true_and]
      exact eq_comm
    · simp [hkey, beq_false_of_ne hkey]

/-- The open steps are those that lead to a node through an open field. -/
theorem mem_openSlots {n m : Node} {s : Step} :
    (s, m) ∈ n.openSlots ↔ n.below? s = some m ∧ openField s.field := by
  rw [openSlots, Step.mem_through, below?, Option.bind_eq_some_iff]
  constructor
  · rintro ⟨os, hc, ho⟩
    obtain ⟨hc, hopen⟩ := List.mem_filter.1 hc
    refine ⟨⟨os, (lookup_eq_some_iff_mem (map_fst_cells_nodup n) _ _).2 hc, ?_⟩, hopen⟩
    exact Option.join_eq_some_iff.2 ho
  · rintro ⟨⟨os, hc, ho⟩, hopen⟩
    have hc := (lookup_eq_some_iff_mem (map_fst_cells_nodup n) _ _).1 hc
    exact ⟨os, List.mem_filter.2 ⟨hc, hopen⟩, Option.join_eq_some_iff.1 ho⟩

/-- What a field holds is reached by a step. -/
theorem exists_below?_of_lookup {n m : Node} (key : String) {os : List (Option Node)}
    (hkey : n.cells.lookup key = some os) (hm : some m ∈ os) : ∃ step, n.below? step = some m := by
  obtain ⟨index, hindex⟩ := List.mem_iff_getElem?.1 hm
  refine ⟨⟨key, index⟩, ?_⟩
  rw [below?, hkey, Option.bind_some, hindex]
  rfl

theorem exists_mem_cells_of_below? {n m : Node} {step : Step} (h : n.below? step = some m) :
    ∃ c ∈ n.cells, some m ∈ c.2 := by
  rw [below?, Option.bind_eq_some_iff] at h
  obtain ⟨os, hos, hm⟩ := h
  have hc := (lookup_eq_some_iff_mem (map_fst_cells_nodup n) _ _).1 hos
  exact ⟨_, hc, List.mem_of_getElem? (Option.join_eq_some_iff.1 hm)⟩

theorem openSlots_nodup (n : Node) : (n.openSlots.map Prod.fst).Nodup :=
  Step.through_nodup ((map_fst_cells_nodup n).sublist (List.filter_sublist.map _))

/-- The nodes in the open fields of a node are its children. -/
theorem map_snd_openSlots_perm (n : Node) : (n.openSlots.map Prod.snd).Perm n.children := by
  rw [openSlots, Step.map_snd_through]
  cases n with
  | conditionalExpression test consequent alternate _ =>
    exact (List.Perm.swap alternate consequent []).cons test
  | callExpression callee arguments _ | newExpression callee arguments _ =>
    refine .trans (.of_eq ?_) (List.perm_append_singleton callee arguments).symm
    simp [cells, kind, contents, Content.cellsOf, Content.cells, openField, List.flatMap_map]
  | _ =>
    apply List.Perm.of_eq
    simp [cells, kind, contents, Content.cellsOf, Content.cells, openField, children,
      List.flatMap_map]

theorem exists_below?_of_mem_children {n c : Node} (h : c ∈ n.children) :
    ∃ step, n.below? step = some c := by
  obtain ⟨⟨step, m⟩, hslot, rfl⟩ := List.mem_map.1 ((map_snd_openSlots_perm n).mem_iff.2 h)
  exact ⟨step, (mem_openSlots.1 hslot).1⟩

theorem mem_children_of_mem_openSlots {n : Node} {c : Step × Node} (h : c ∈ n.openSlots) :
    c.2 ∈ n.children :=
  (map_snd_openSlots_perm n).mem_iff.1 (List.mem_map.2 ⟨c, h, rfl⟩)

/-! ## Places -/

/-- The open places of a tree, each with the node that stands there. -/
def openPlaces (n : Node) : List (List Step × Node) :=
  ([], n) :: n.openSlots.attach.flatMap fun c =>
    (openPlaces c.1.2).map fun q => (c.1.1 :: q.1, q.2)
termination_by sizeOf n
decreasing_by exact sizeOf_lt_of_mem_children (mem_children_of_mem_openSlots c.2)

theorem openPlaces_eq (n : Node) :
    n.openPlaces = ([], n) :: n.openSlots.flatMap fun c =>
      c.2.openPlaces.map fun q => (c.1 :: q.1, q.2) := by
  rw [openPlaces, List.flatMap_subtype
    (g := fun c => c.2.openPlaces.map fun q => (c.1 :: q.1, q.2)) (fun _ _ => rfl),
    List.unattach_attach]

/-- The list has exactly the open places. -/
theorem mem_openPlaces {n m : Node} {p : List Step} :
    (p, m) ∈ n.openPlaces ↔ n.at? p = some m ∧ ∀ s ∈ p, openField s.field := by
  induction p generalizing n with
  | nil =>
    rw [openPlaces_eq, at?, Option.some_inj]
    simp [eq_comm (a := m)]
  | cons s p ih =>
    rw [openPlaces_eq, at?, Option.bind_eq_some_iff, List.forall_mem_cons]
    constructor
    · intro hmem
      rcases List.mem_cons.1 hmem with he | hmem
      · cases he
      obtain ⟨⟨s', c⟩, hc, hmem⟩ := List.mem_flatMap.1 hmem
      obtain ⟨⟨q, m'⟩, hq, he⟩ := List.mem_map.1 hmem
      cases he
      obtain ⟨hbelow, hopen⟩ := mem_openSlots.1 hc
      obtain ⟨hat, hrest⟩ := ih.1 hq
      exact ⟨⟨c, hbelow, hat⟩, hopen, hrest⟩
    · rintro ⟨⟨c, hbelow, hat⟩, hopen, hrest⟩
      have hc : (s, c) ∈ n.openSlots := mem_openSlots.2 ⟨hbelow, hopen⟩
      refine List.mem_cons_of_mem _ (List.mem_flatMap.2 ⟨(s, c), hc, ?_⟩)
      exact List.mem_map.2 ⟨(p, m), ih.2 ⟨hat, hrest⟩, rfl⟩

/-- No open place is listed twice. -/
theorem openPlaces_nodup (n : Node) : (n.openPlaces.map Prod.fst).Nodup := by
  induction n using childrenInduction with
  | step n ih =>
    rw [openPlaces_eq, List.map_cons, List.nodup_cons, List.map_flatMap, List.Nodup,
      List.pairwise_flatMap]
    refine ⟨by simp, fun c hc => ?_, ?_⟩
    · have hbelow := ih c.2 (mem_children_of_mem_openSlots hc)
      rw [List.map_map, List.pairwise_map]
      refine (List.pairwise_map.1 hbelow).imp fun {a b} hab he => ?_
      exact hab (List.cons.inj he).2
    · -- places that begin with different steps differ
      refine (List.pairwise_map.1 (openSlots_nodup n)).imp fun {a b} hab p hp q hq he => ?_
      simp only [List.map_map, List.mem_map, Function.comp_apply] at hp hq
      obtain ⟨_, -, rfl⟩ := hp
      obtain ⟨_, -, rfl⟩ := hq
      exact hab (List.cons.inj he).1

/-- The nodes at the open places are the nodes of the tree that the walks visit. -/
theorem map_snd_openPlaces_perm (n : Node) : (n.openPlaces.map Prod.snd).Perm n.nodes := by
  induction n using childrenInduction with
  | step n ih =>
    rw [openPlaces_eq, nodes_eq, List.map_cons, List.map_flatMap]
    refine List.Perm.cons n ?_
    have hbelow : (n.openSlots.flatMap fun c =>
        (c.2.openPlaces.map fun q => (c.1 :: q.1, q.2)).map Prod.snd).Perm
          (n.openSlots.flatMap fun c => c.2.nodes) := by
      refine List.Perm.flatMap_left _ fun c hc => ?_
      rw [List.map_map]
      exact ih c.2 (mem_children_of_mem_openSlots hc)
    refine hbelow.trans ?_
    rw [← List.flatMap_map]
    exact (map_snd_openSlots_perm n).flatMap_right _

theorem mem_map_fst_openPlaces {root : Node} {p : List Step} :
    p ∈ root.openPlaces.map Prod.fst ↔ root.OpenPlace p := by
  rw [OpenPlace, Option.isSome_iff_exists, ← exists_and_right, List.mem_map]
  constructor
  · rintro ⟨⟨p, m⟩, hm, rfl⟩
    exact ⟨m, mem_openPlaces.1 hm⟩
  · rintro ⟨m, hm⟩
    exact ⟨(p, m), mem_openPlaces.2 hm, rfl⟩

/-- Nodes that are those of a tree, in whatever order, stand at its open places in some order. -/
theorem exists_places {root : Node} {ns : List Node} (h : ns.Perm root.nodes) :
    ∃ ps : List (List Step), ps.Perm (root.openPlaces.map Prod.fst) ∧
      ps.map root.at? = ns.map some := by
  have hperm : ns.Perm (root.openPlaces.map Prod.snd) :=
    h.trans (map_snd_openPlaces_perm root).symm
  obtain ⟨places, rfl, hplaces⟩ :=
    (congrFun₂ (List.eq_map_comp_perm Prod.snd) ns root.openPlaces).mpr hperm
  refine ⟨places.map Prod.fst, hplaces.map _, ?_⟩
  rw [List.map_map, List.map_map]
  refine List.map_congr_left fun q hq => ?_
  exact (mem_openPlaces.1 (hplaces.mem_iff.1 hq)).1

end Node

end ChapterLint
