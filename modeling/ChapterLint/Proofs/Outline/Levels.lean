import ChapterLint.Outline.Extractor
import ChapterLint.Proofs.Tree.Walk

/-!
# Collections by levels

A collection takes its results from the levels of the tree, one after the other: first the root,
then its children, then theirs. Within a level the nodes stand from left to right, and each gives
what the extractors bound to its kind take out of it, in the order of the extractors
(`Extractor.resultsAt`).
-/

namespace ChapterLint

namespace Extractor

variable {α : Type}

/-- What extractors take out of one node. -/
def resultsAt (es : List (Extractor α)) (n : Node) : List α :=
  (es.filter fun e => e.kind = n.kind).flatMap fun e => (e.extract n).1

theorem results_foldl_run (n : Node) (es : List (Extractor α)) (p : Progress α) :
    (es.foldl (run n) p).results = p.results ++ es.flatMap fun e => (e.extract n).1 :=
  append_foldl Progress.results (run n) (fun _ _ _ => rfl) p

theorem results_visit (es : List (Extractor α)) (n : Node) (p : Progress α) :
    (visit es n p).results = p.results ++ resultsAt es n := by
  rw [visit, results_foldl_run]
  rfl

theorem results_foldl_visit (es : List (Extractor α)) (ns : List Node) (p : Progress α) :
    (ns.foldl (fun p n => visit es n p) p).results = p.results ++ ns.flatMap (resultsAt es) :=
  append_foldl Progress.results _ (fun n _ p => results_visit es n p) p

/-- The results of a collection are those of the nodes in the order of the walk. -/
theorem results_collect (root : Node) (es : List (Extractor α)) :
    (collect root es).1 = root.wideOrder.flatMap (resultsAt es) := by
  show (root.walkWide (visit es) {}).results = _
  rw [Node.walkWide_eq_foldl, results_foldl_visit, List.nil_append]

/-- **Collections go by levels.** For every tree and all extractors the loop over the queue ends,
after one turn for each node, with an empty queue, and its results are those of the levels, of
which all but finitely many are empty. -/
theorem collect_eq_flatMap_level (root : Node) (es : List (Extractor α)) :
    ∃ depth, (∀ d, root.level (depth + d) = []) ∧
      (∃ q, (Node.turnQueue (visit es))^[root.nodes.length] ([root], {}) = ([], q) ∧
        q.results = (collect root es).1) ∧
      (collect root es).1 =
        (List.range depth).flatMap fun d => (root.level d).flatMap (resultsAt es) := by
  obtain ⟨depth, hempty, horder⟩ := Node.exists_wideOrder_eq_flatMap_level root
  refine ⟨depth, hempty, ⟨_, Node.turnQueue_iterate_root (visit es) root {}, rfl⟩, ?_⟩
  calc (collect root es).1 = root.wideOrder.flatMap (resultsAt es) := results_collect root es
    _ = ((List.range depth).flatMap root.level).flatMap (resultsAt es) := by rw [horder]
    _ = (List.range depth).flatMap fun d => (root.level d).flatMap (resultsAt es) :=
      List.flatMap_assoc

end Extractor

end ChapterLint
