import Mathlib.Data.List.Sort
import ChapterLint.Proofs.Outline.Levels

/-!
# Extractors together and in another order

A collection runs all its extractors in one walk, so at every node the results of some of them come
between those of others. Taken apart, two lists of extractors still give the same results as
together: at each node what they give is put one behind the other, and the rest is a matter of
order.

Extractors of different kinds never meet at a node. Hence a list of extractors may be reordered as
long as those of each kind keep their order (`Reorders`). The same extractor may stand in a list
more than once, so an order is told by places and not by the extractors themselves. What a
collection sees of a list are its parts by kind, and these are the same (`Reorders.filter_kind`).
-/

namespace ChapterLint

namespace Extractor

variable {α : Type} {es es' : List (Extractor α)}

/-! ## Reordering -/

/-- Two lists hold the same extractors in different orders that agree on those of each kind: every
place of the one list belongs to a place of the other with the same extractor, and of two extractors
of the same kind the one that comes first in the one list comes first in the other. -/
def Reorders (es es' : List (Extractor α)) : Prop :=
  ∃ place : Fin es.length ≃ Fin es'.length, (∀ i, es'.get (place i) = es.get i) ∧
    ∀ i j, i < j → (es.get i).kind = (es.get j).kind → place i < place j

/-- The places of the extractors of a kind, in their order. -/
def placesOf (es : List (Extractor α)) (k : NodeKind) : List (Fin es.length) :=
  (List.finRange es.length).filter fun i => (es.get i).kind = k

theorem mem_placesOf {k : NodeKind} {i : Fin es.length} :
    i ∈ placesOf es k ↔ (es.get i).kind = k := by
  simp [placesOf]

theorem sortedLT_placesOf (es : List (Extractor α)) (k : NodeKind) : (placesOf es k).SortedLT :=
  ((List.sortedLT_finRange es.length).pairwise.filter _).sortedLT

theorem filter_kind_eq_map_get (es : List (Extractor α)) (k : NodeKind) :
    (es.filter fun e => e.kind = k) = (placesOf es k).map es.get := by
  conv_lhs => rw [← List.map_get_finRange es]
  rw [List.filter_map]
  rfl

/-- The places of a kind go over into those of the other list, in their order. -/
theorem map_placesOf {place : Fin es.length ≃ Fin es'.length}
    (hsame : ∀ i, es'.get (place i) = es.get i)
    (horder : ∀ i j, i < j → (es.get i).kind = (es.get j).kind → place i < place j)
    (k : NodeKind) : (placesOf es k).map place = placesOf es' k := by
  have hsorted : ((placesOf es k).map place).SortedLT := by
    refine (List.pairwise_map.2 ?_).sortedLT
    refine (sortedLT_placesOf es k).pairwise.imp_of_mem fun {i j} hi hj hij => ?_
    exact horder i j hij ((mem_placesOf.1 hi).trans (mem_placesOf.1 hj).symm)
  refine hsorted.eq_of_mem_iff (sortedLT_placesOf es' k) fun i => ?_
  rw [List.mem_map, mem_placesOf]
  constructor
  · rintro ⟨j, hj, rfl⟩
    rw [hsame]
    exact mem_placesOf.1 hj
  · intro hi
    refine ⟨place.symm i, mem_placesOf.2 ?_, place.apply_symm_apply i⟩
    rw [← hsame, place.apply_symm_apply]
    exact hi

theorem Reorders.filter_kind (h : Reorders es es') (k : NodeKind) :
    (es.filter fun e => e.kind = k) = es'.filter fun e => e.kind = k := by
  obtain ⟨place, hsame, horder⟩ := h
  rw [filter_kind_eq_map_get, filter_kind_eq_map_get, ← map_placesOf hsame horder k, List.map_map]
  exact List.map_congr_left fun i _ => (hsame i).symm

theorem Reorders.visit_eq (h : Reorders es es') : visit es = visit es' := by
  funext n p
  unfold visit
  rw [h.filter_kind]

/-! ## Putting together -/

theorem resultsAt_append (es es' : List (Extractor α)) (n : Node) :
    resultsAt (es ++ es') n = resultsAt es n ++ resultsAt es' n := by
  unfold resultsAt
  rw [List.filter_append, List.flatMap_append]

/-- **Extractors together and in another order.** Two lists of extractors, one behind the other,
give on every tree what they give one by one, up to the order of the results. A list of extractors
in another order that agrees on those of each kind gives the same results in the same order, and the
same journal. -/
theorem collect_append_perm :
    (∀ (root : Node) (es es' : List (Extractor α)),
        (collect root (es ++ es')).1.Perm ((collect root es).1 ++ (collect root es').1)) ∧
      ∀ (root : Node) (es es' : List (Extractor α)),
        Reorders es es' → collect root es = collect root es' := by
  refine ⟨fun root es es' => ?_, fun root es es' h => ?_⟩
  · rw [results_collect, results_collect, results_collect, funext (resultsAt_append es es')]
    exact (List.flatMap_append_perm _ _ _).symm
  · unfold collect
    rw [h.visit_eq]

/-- The extractor of variables stands twice in a list, before and behind that of functions, and then
twice behind it. Both lists find the variable of a declaration twice, as the two extractors do one
by one. -/
theorem collect_append_perm_variableTwice :
    let span : Span := ⟨⟨1, 4⟩, ⟨1, 5⟩⟩
    let root : Node := .variableDeclaration [⟨⟨"x", span⟩, none, span⟩] .let span
    let es := [variableNames, functionNames, variableNames]
    let es' := [functionNames, variableNames, variableNames]
    Reorders es es' ∧ collect root es = collect root es' ∧
      (collect root es).1.map Symbol.name = ["x", "x"] ∧
      (collect root es).1.Perm
        ((collect root [variableNames]).1 ++ (collect root [functionNames, variableNames]).1) := by
  intro span root es es'
  have hsame : ∀ i : Fin 3, es'.get (Equiv.swap 0 1 i) = es.get i
    | 0 => rfl
    | 1 => rfl
    | 2 => rfl
  have hreorders : Reorders es es' := ⟨Equiv.swap (0 : Fin 3) 1, hsame, by decide⟩
  refine ⟨hreorders, collect_append_perm.2 root es es' hreorders, ?_,
    collect_append_perm.1 root [variableNames] [functionNames, variableNames]⟩
  have hwide : root.wideOrder = [root] := by
    simp [root, Node.wideOrder, Node.queued, Node.children]
  rw [results_collect, hwide]
  rfl

end Extractor

end ChapterLint
