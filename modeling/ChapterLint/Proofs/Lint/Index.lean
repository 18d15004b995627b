import Mathlib.Data.List.Induction
import Mathlib.Data.List.Sort
import ChapterLint.Lint.Registry

/-!
# The index of a registry

A registry finds the rules bound to a kind through the places it keeps for that kind.
`Registry.Indexed` says that the places are right: for every kind they are, in ascending order,
the places of exactly the rules bound to it. Registering a rule keeps this up in its three cases:
a new name, a known name with the same kind, a known name that moves to another kind
(`Indexed.register`). The move puts a place where it belongs only because the places of the new
kind ascend.

Hence in every registry the rules found for a kind are the registered rules bound to it, in the
order of all rules (`Indexed.rulesFor_eq_filter`).
-/

namespace ChapterLint

namespace Registry

/-! ## Ascending places -/

@[simp] theorem insertPlace_nil (i : Nat) : insertPlace i [] = [i] := rfl

theorem insertPlace_cons (i j : Nat) (js : List Nat) :
    insertPlace i (j :: js) = if j < i then j :: insertPlace i js else i :: j :: js := by
  unfold insertPlace
  by_cases h : j < i
  · simp [h]
  · simp [h]

theorem mem_insertPlace {i j : Nat} {js : List Nat} :
    j ∈ insertPlace i js ↔ j = i ∨ j ∈ js := by
  induction js with
  | nil => simp
  | cons k js ih =>
    rw [insertPlace_cons]
    split_ifs
    · rw [List.mem_cons, ih, List.mem_cons]
      exact or_left_comm
    · exact List.mem_cons

/-- A new place keeps ascending places ascending. -/
theorem insertPlace_ascending {i : Nat} {js : List Nat} (h : js.Pairwise (· < ·)) (hi : i ∉ js) :
    (insertPlace i js).Pairwise (· < ·) := by
  induction js with
  | nil => exact List.pairwise_singleton _ _
  | cons k js ih =>
    obtain ⟨hk, hjs⟩ := List.pairwise_cons.1 h
    rw [insertPlace_cons]
    split_ifs with hki
    · refine List.pairwise_cons.2 ⟨fun j hj => ?_, ih hjs fun hm => hi (List.mem_cons_of_mem _ hm)⟩
      rcases mem_insertPlace.1 hj with rfl | hj
      · exact hki
      · exact hk j hj
    · have hik : i < k := by
        have : k ≠ i := fun he => hi (he ▸ List.mem_cons_self)
        omega
      refine List.pairwise_cons.2 ⟨fun j hj => ?_, h⟩
      rcases List.mem_cons.1 hj with rfl | hj
      · exact hik
      · exact Nat.lt_trans hik (hk j hj)

/-! ## Changes of the index -/

section Move

variable {places : NodeKind → List Nat} {i : Nat} {source target k : NodeKind}

theorem movePlace_target (h : source ≠ target) :
    movePlace places i source target target = insertPlace i (places target) := by
  simp [movePlace, changePlaces, h, h.symm]

theorem movePlace_source (h : source ≠ target) :
    movePlace places i source target source = (places source).filter (· ≠ i) := by
  simp [movePlace, changePlaces, h]

theorem movePlace_other (hs : k ≠ source) (ht : k ≠ target) :
    movePlace places i source target k = places k := by
  unfold movePlace
  split_ifs
  · rfl
  · simp [changePlaces, hs, ht]

/-- After a move the place stands with its new kind, and every other place where it stood. -/
theorem mem_movePlace (hi : ∀ k, i ∈ places k ↔ source = k) (j : Nat) :
    j ∈ movePlace places i source target k ↔ if j = i then target = k else j ∈ places k := by
  by_cases hst : source = target
  · rw [movePlace, if_pos hst]
    split_ifs with hj
    · rw [hj, hi, hst]
    · rfl
  by_cases hk : k = target
  · rw [hk, movePlace_target hst, mem_insertPlace]
    split_ifs with hj
    · simp [hj]
    · simp [hj]
  by_cases hks : k = source
  · rw [hks, movePlace_source hst]
    split_ifs with hj
    · simp [hj, Ne.symm hst]
    · simp [hj]
  · rw [movePlace_other hks hk]
    split_ifs with hj
    · rw [hj, hi]
      exact ⟨fun he => absurd he.symm hks, fun he => absurd he.symm hk⟩
    · rfl

/-- A move keeps the places of every kind ascending. -/
theorem movePlace_ascending (h : ∀ k, (places k).Pairwise (· < ·))
    (hi : ∀ k, i ∈ places k ↔ source = k) (k : NodeKind) :
    (movePlace places i source target k).Pairwise (· < ·) := by
  by_cases hst : source = target
  · rw [movePlace, if_pos hst]
    exact h k
  by_cases hk : k = target
  · rw [hk, movePlace_target hst]
    exact insertPlace_ascending (h target) fun hm => hst ((hi target).1 hm)
  by_cases hks : k = source
  · rw [hks, movePlace_source hst]
    exact (h source).filter _
  · rw [movePlace_other hks hk]
    exact h k

end Move

/-! ## The invariant -/

/-- The index of a registry is right: names are distinct, and the places kept for a kind are, in
ascending order, those of the rules bound to it. -/
structure Indexed (r : Registry) : Prop where
  ids_nodup : (r.rules.map Rule.id).Nodup
  ascending : ∀ k, (r.places k).Pairwise (· < ·)
  mem_places : ∀ k i, i ∈ r.places k ↔ r.rules[i]?.map Rule.kind = some k

theorem indexed_empty : empty.Indexed where
  ids_nodup := List.nodup_nil
  ascending _ := List.Pairwise.nil
  mem_places _ _ := by simp [empty]

/-- A name registered for the first time is put behind the others. -/
theorem register_of_fresh {r : Registry} {rule : Rule} (h : rule.id ∉ r.rules.map Rule.id) :
    r.register rule =
      { rules := r.rules ++ [rule]
        places := changePlaces r.places rule.kind (· ++ [r.rules.length]) } := by
  have hnone : r.rules.findIdx? (fun old => old.id = rule.id) = none := by
    rw [List.findIdx?_eq_none_iff]
    intro old hold
    exact decide_eq_false fun he => h (List.mem_map.2 ⟨old, hold, he⟩)
  rw [register, hnone]

/-- A known name keeps its place; the place moves to the kind of the new rule. -/
theorem exists_register_of_known {r : Registry} {rule : Rule}
    (h : rule.id ∈ r.rules.map Rule.id) :
    ∃ i old, r.rules[i]? = some old ∧ old.id = rule.id ∧
      r.register rule =
        { rules := r.rules.set i rule
          places := movePlace r.places i old.kind rule.kind } := by
  obtain ⟨old, hold, hid⟩ := List.mem_map.1 h
  obtain ⟨i, hi⟩ : ∃ i, r.rules.findIdx? (fun old => old.id = rule.id) = some i := by
    rw [← Option.isSome_iff_exists, List.findIdx?_isSome, List.any_eq_true]
    exact ⟨old, hold, decide_eq_true hid⟩
  obtain ⟨hlt, hp, -⟩ := List.findIdx?_eq_some_iff_getElem.1 hi
  refine ⟨i, r.rules[i], List.getElem?_eq_getElem hlt, of_decide_eq_true hp, ?_⟩
  rw [register, hi]
  simp only [List.getElem?_eq_getElem hlt]

theorem ids_register_of_fresh {r : Registry} {rule : Rule} (h : rule.id ∉ r.rules.map Rule.id) :
    (r.register rule).rules.map Rule.id = r.rules.map Rule.id ++ [rule.id] := by
  rw [register_of_fresh h, List.map_append, List.map_singleton]

theorem ids_register_of_known {r : Registry} {rule : Rule} (h : rule.id ∈ r.rules.map Rule.id) :
    (r.register rule).rules.map Rule.id = r.rules.map Rule.id := by
  obtain ⟨i, old, hold, hsame, heq⟩ := exists_register_of_known h
  have hget : (r.rules.map Rule.id)[i]? = some rule.id := by
    rw [List.getElem?_map, hold, Option.map_some, hsame]
  obtain ⟨hi, hval⟩ := List.getElem?_eq_some_iff.1 hget
  rw [heq, List.map_set, ← hval, List.set_getElem_self]

/-- A list is read off place by place. -/
theorem filterMap_getElem?_range {α : Type} (l : List α) :
    (List.range l.length).filterMap (fun i => l[i]?) = l := by
  induction l using List.reverseRecOn with
  | nil => rfl
  | append_singleton l a ih =>
    have hfront : (List.range l.length).filterMap (fun i => (l ++ [a])[i]?) =
        (List.range l.length).filterMap (fun i => l[i]?) :=
      List.filterMap_congr fun i hi => List.getElem?_append_left (List.mem_range.1 hi)
    rw [List.length_append, List.length_singleton, List.range_succ, List.filterMap_append, hfront,
      ih]
    simp

namespace Indexed

variable {r : Registry} {rule : Rule}

theorem lt_length (h : r.Indexed) {k : NodeKind} {i : Nat} (hi : i ∈ r.places k) :
    i < r.rules.length := by
  have hk := (h.mem_places k i).1 hi
  obtain ⟨old, hold, -⟩ := Option.map_eq_some_iff.1 hk
  exact (List.getElem?_eq_some_iff.1 hold).1

theorem register_fresh (h : r.Indexed) (hid : rule.id ∉ r.rules.map Rule.id) :
    (r.register rule).Indexed := by
  rw [register_of_fresh hid]
  refine ⟨?_, fun k => ?_, fun k i => ?_⟩
  · rw [List.map_append, List.map_singleton, ← List.concat_eq_append]
    exact h.ids_nodup.concat hid
  · dsimp only [changePlaces]
    split_ifs
    · refine List.pairwise_append.2 ⟨h.ascending k, List.pairwise_singleton _ _, ?_⟩
      intro i hi j hj
      rw [List.mem_singleton.1 hj]
      exact h.lt_length hi
    · exact h.ascending k
  · have hlast : r.rules.length ∉ r.places k := fun hm => Nat.lt_irrefl _ (h.lt_length hm)
    have hi := h.mem_places k i
    dsimp only [changePlaces]
    by_cases hlen : i = r.rules.length
    · subst hlen
      rw [List.getElem?_concat_length, Option.map_some, Option.some_inj]
      split_ifs with hk
      · simp [hk]
      · simp [hlast, Ne.symm hk]
    · have hget : (r.rules ++ [rule])[i]? = r.rules[i]? := by
        rcases Nat.lt_or_gt_of_ne hlen with hlt | hgt
        · exact List.getElem?_append_left hlt
        · have hout : (r.rules ++ [rule]).length ≤ i := by
            rw [List.length_append, List.length_singleton]
            exact hgt
          rw [List.getElem?_eq_none hout, List.getElem?_eq_none hgt.le]
      rw [hget, ← hi]
      split_ifs
      · simp [hlen]
      · rfl

theorem register_known (h : r.Indexed) (hid : rule.id ∈ r.rules.map Rule.id) :
    (r.register rule).Indexed := by
  obtain ⟨i, old, hold, -, heq⟩ := exists_register_of_known hid
  have hlt : i < r.rules.length := (List.getElem?_eq_some_iff.1 hold).1
  have hplace : ∀ k, i ∈ r.places k ↔ old.kind = k := fun k => by
    rw [h.mem_places, hold, Option.map_some, Option.some_inj]
  have hids : ((r.register rule).rules.map Rule.id).Nodup := by
    rw [ids_register_of_known hid]
    exact h.ids_nodup
  rw [heq] at hids ⊢
  refine ⟨hids, fun k => movePlace_ascending h.ascending hplace k, fun k j => ?_⟩
  · rw [mem_movePlace hplace, List.getElem?_set]
    by_cases hj : j = i
    · rw [if_pos hj, if_pos hj.symm, if_pos (hj ▸ hlt), Option.map_some, Option.some_inj]
    · rw [if_neg hj, if_neg (Ne.symm hj)]
      exact h.mem_places k j

/-- Registering a rule keeps the index right. -/
theorem register (h : r.Indexed) (rule : Rule) : (r.register rule).Indexed := by
  by_cases hid : rule.id ∈ r.rules.map Rule.id
  · exact h.register_known hid
  · exact h.register_fresh hid

theorem foldl_register (h : r.Indexed) (rules : List Rule) :
    (rules.foldl Registry.register r).Indexed := by
  induction rules generalizing r with
  | nil => exact h
  | cons rule rules ih => exact ih (h.register rule)

/-! ## What is found for a kind -/

theorem places_eq (h : r.Indexed) (k : NodeKind) :
    r.places k =
      (List.range r.rules.length).filter fun i => r.rules[i]?.map Rule.kind = some k := by
  refine (h.ascending k).eq_of_mem_iff (List.pairwise_lt_range.filter _) fun i => ?_
  rw [List.mem_filter, List.mem_range, decide_eq_true_iff, ← h.mem_places]
  exact ⟨fun hi => ⟨h.lt_length hi, hi⟩, And.right⟩

/-- The rules found for a kind are the rules bound to it, in their order. -/
theorem rulesFor_eq_filter (h : r.Indexed) (k : NodeKind) :
    r.rulesFor k = r.rules.filter fun rule => rule.kind = k := by
  rw [rulesFor, h.places_eq, List.filterMap_filter]
  conv_rhs => rw [← filterMap_getElem?_range r.rules, List.filter_filterMap]
  refine List.filterMap_congr fun i _ => ?_
  cases r.rules[i]? with
  | none => simp
  | some rule => simp [Option.filter]

theorem ids_rulesFor_nodup (h : r.Indexed) (k : NodeKind) :
    ((r.rulesFor k).map Rule.id).Nodup := by
  rw [h.rulesFor_eq_filter]
  exact h.ids_nodup.sublist (List.filter_sublist.map _)

end Indexed

theorem indexed_ofList (rules : List Rule) : (ofList rules).Indexed :=
  indexed_empty.foldl_register rules

theorem indexed_builtin : builtin.Indexed := indexed_ofList Rule.builtin

/-- **The index is exact.** Whatever is registered, with new or known names, of the same or
another kind: the rules found for a kind are the rules bound to it, in the order of all rules and
each once, through places that ascend and lie inside the rules. -/
theorem rulesFor_foldl_register (start : Registry) (hstart : start = empty ∨ start = builtin)
    (rules : List Rule) (k : NodeKind) :
    let r := rules.foldl register start
    r.rulesFor k = (r.rules.filter fun rule => rule.kind = k) ∧
      ((r.rulesFor k).map Rule.id).Nodup ∧
      (∀ i ∈ r.places k, i < r.rules.length) ∧
      (r.places k).Pairwise (· < ·) := by
  intro r
  have h : r.Indexed := by
    rcases hstart with rfl | rfl
    · exact indexed_empty.foldl_register rules
    · exact indexed_builtin.foldl_register rules
  exact ⟨h.rulesFor_eq_filter k, h.ids_rulesFor_nodup k, fun _ hi => h.lt_length hi,
    h.ascending k⟩

/-- A built-in rule that is moved to the kind of a later one is found before it. -/
theorem rulesFor_moved_break :
    let moved : Rule := { Rule.breakStatement with kind := .ifStatement }
    let r := [moved].foldl register builtin
    r.rulesFor .ifStatement = [moved, Rule.ifStatement] ∧ r.places .ifStatement = [0, 2] ∧
      ∀ i ∈ r.places .ifStatement, i < r.rules.length := by
  intro moved r
  obtain ⟨hfilter, -, hinside, -⟩ :=
    rulesFor_foldl_register builtin (.inr rfl) [moved] .ifStatement
  exact ⟨hfilter.trans rfl, rfl, hinside⟩

end Registry

end ChapterLint
