import ChapterLint.Lint.Linter
import ChapterLint.Outline.Extractor
import ChapterLint.Proofs.Tree.Place

/-!
# What linting and collecting reach

Linting goes through a tree depth first, collecting breadth first. Both visit every node of the
tree outside parameters and import specifiers, each exactly once, and both put the number of these
nodes into the journal.
-/

namespace ChapterLint

namespace Registry

variable (r : Registry) (config : Config) (context : Context)

theorem visited_visit (parent : Option Node) (n : Node) (p : Progress) :
    (r.visit config context parent n p).visited = p.visited + 1 := by
  unfold visit
  exact part_foldl Progress.visited (applyRule context parent n) (fun _ _ => rfl) _

theorem visited_walkDeep (root : Node) (p : Progress) :
    (root.walkDeep (r.visit config context) p).visited = p.visited + root.nodes.length := by
  rw [Node.walkDeep_eq_foldl, ← Node.map_snd_visits none root, List.length_map]
  exact count_foldl Progress.visited _ (fun p (v : Option Node × Node) =>
    r.visited_visit config context v.1 v.2 p) p

/-- The last entry of a lint's journal counts the nodes. -/
theorem getLast?_journal_apply (root : Node) :
    (r.apply config context root).2.getLast? =
      some (.lintFinished root.nodes.length (r.apply config context root).1.length) := by
  have h := visited_walkDeep r config context root { journal := [.lintStarted context.chapter] }
  rw [Nat.zero_add] at h
  rw [← h, apply, List.getLast?_concat]

end Registry

namespace Extractor

variable {α : Type} (es : List (Extractor α))

theorem visited_visit (n : Node) (p : Progress α) : (visit es n p).visited = p.visited + 1 := by
  unfold visit
  exact part_foldl Progress.visited (run n) (fun _ _ => rfl) _

theorem visited_walkWide (root : Node) (p : Progress α) :
    (root.walkWide (visit es) p).visited = p.visited + root.nodes.length := by
  rw [Node.walkWide_eq_foldl, ← (Node.wideOrder_perm_nodes root).length_eq]
  exact count_foldl Progress.visited _ (fun p n => visited_visit es n p) p

/-- The last entry of a collection's journal counts the nodes. -/
theorem getLast?_journal_collect (root : Node) :
    (collect root es).2.getLast? =
      some (.symbolsCollected root.nodes.length (collect root es).1.length) := by
  have h := visited_walkWide es root {}
  rw [Nat.zero_add] at h
  rw [← h, collect, List.getLast?_concat]

end Extractor

/-- **Both walks reach everything once.** The nodes that a lint takes off its stack and those that
a collection takes off its queue are the same up to their order. Each of them stands at one open
place of the tree and each open place belongs to one of them. The loops end when all are taken off;
what they leave is what the lint and the collection answer, and the journals of both count the open
places. -/
theorem Node.walks_visit_open_places (root : Node) :
    ∃ deep wide : List (List Step),
      deep.Nodup ∧ (∀ p, p ∈ deep ↔ root.OpenPlace p) ∧ wide.Perm deep ∧
      deep.map root.at? = root.nodes.map some ∧
      wide.map root.at? = root.wideOrder.map some ∧
      root.wideOrder.Perm root.nodes ∧
      (∀ (r : Registry) (config : Config) (context : Context),
        (∀ p i, ((turnStack (r.visit config context))^[i] ([(none, root)], p)).1.getLast?.map
          Prod.snd = root.nodes[i]?) ∧
        (∃ q, (turnStack (r.visit config context))^[deep.length]
            ([(none, root)], { journal := [.lintStarted context.chapter] }) = ([], q) ∧
          r.apply config context root =
            (q.report, q.journal ++ [.lintFinished q.visited q.report.length])) ∧
        (r.apply config context root).2.getLast? =
          some (.lintFinished deep.length (r.apply config context root).1.length)) ∧
      ∀ (α : Type) (es : List (Extractor α)),
        (∀ p i, ((turnQueue (Extractor.visit es))^[i] ([root], p)).1.head? = root.wideOrder[i]?) ∧
        (∃ q, (turnQueue (Extractor.visit es))^[deep.length] ([root], {}) = ([], q) ∧
          Extractor.collect root es =
            (q.results, q.journal ++ [.symbolsCollected q.visited q.results.length])) ∧
        (Extractor.collect root es).2.getLast? =
          some (.symbolsCollected deep.length (Extractor.collect root es).1.length) := by
  obtain ⟨deep, hdeep, hdeepAt⟩ := exists_places (List.Perm.refl root.nodes)
  obtain ⟨wide, hwide, hwideAt⟩ := exists_places (wideOrder_perm_nodes root)
  have hlen : deep.length = root.nodes.length := by
    have h := congrArg List.length hdeepAt
    rwa [List.length_map, List.length_map] at h
  refine ⟨deep, wide, hdeep.nodup_iff.2 (openPlaces_nodup root), fun p => ?_,
    hwide.trans hdeep.symm, hdeepAt, hwideAt, wideOrder_perm_nodes root, ?_, ?_⟩
  · rw [hdeep.mem_iff, mem_map_fst_openPlaces]
  · intro r config context
    rw [hlen]
    exact ⟨getLast?_turnStack_iterate_root _ root, ⟨_, turnStack_iterate_root _ root _, rfl⟩,
      r.getLast?_journal_apply config context root⟩
  · intro α es
    rw [hlen]
    exact ⟨head?_turnQueue_iterate _ [root], ⟨_, turnQueue_iterate_root _ root _, rfl⟩,
      Extractor.getLast?_journal_collect es root⟩

end ChapterLint
