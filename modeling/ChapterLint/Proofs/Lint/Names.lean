import Mathlib.Data.List.Nodup
import ChapterLint.Proofs.Lint.Index

/-!
# The names of a registry

A registry keeps its rules in one list and looks a name up from the front. Seen through the names it
is a map that remembers when each name came first:

1. registering a rule binds its name and no other (`Indexed.find?_register`), and puts the name
   behind the others only if it is new (`ids_register_of_fresh`, `ids_register_of_known`);
2. hence, after any rules, a name is bound to the last rule registered under it (`find?_ofList`),
   and the names stand in the order of their first registration (`ids_ofList_ascending`).

That a lookup finds the rule that a later registration replaces rests on the names being distinct.
-/

namespace ChapterLint

namespace Registry

/-- The last of some rules with a name. -/
def lastNamed? (rules : List Rule) (id : String) : Option Rule :=
  (rules.filter fun rule => rule.id = id).getLast?

theorem lastNamed?_concat (rules : List Rule) (rule : Rule) (id : String) :
    lastNamed? (rules ++ [rule]) id = if rule.id = id then some rule else lastNamed? rules id := by
  unfold lastNamed?
  rw [List.filter_append]
  split_ifs with h
  · rw [List.filter_cons_of_pos (by simpa using h), List.filter_nil, List.getLast?_concat]
  · rw [List.filter_cons_of_neg (by simpa using h), List.filter_nil, List.append_nil]

/-! ## One registration -/

/-- A known name is replaced in the middle of the rules. -/
theorem exists_split_of_known {r : Registry} {rule : Rule} (h : rule.id ∈ r.rules.map Rule.id) :
    ∃ front old back, r.rules = front ++ old :: back ∧ old.id = rule.id ∧
      (r.register rule).rules = front ++ rule :: back := by
  obtain ⟨i, old, hold, hsame, heq⟩ := exists_register_of_known h
  obtain ⟨hlt, hget⟩ := List.getElem?_eq_some_iff.1 hold
  refine ⟨r.rules.take i, old, r.rules.drop (i + 1), ?_, hsame, ?_⟩
  · rw [← hget, List.getElem_cons_drop, List.take_append_drop]
  · rw [heq, List.set_eq_take_append_cons_drop, if_pos hlt]

theorem mem_rules_register (r : Registry) (rule : Rule) : rule ∈ (r.register rule).rules := by
  by_cases hknown : rule.id ∈ r.rules.map Rule.id
  · obtain ⟨front, old, back, -, -, hregister⟩ := exists_split_of_known hknown
    rw [hregister]
    exact List.mem_append_right _ List.mem_cons_self
  · rw [register_of_fresh hknown]
    exact List.mem_append_right _ List.mem_cons_self

/-- A registration leaves the other names as they are. -/
theorem find?_register_of_ne (r : Registry) {rule : Rule} {id : String} (h : rule.id ≠ id) :
    (r.register rule).find? id = r.find? id := by
  unfold find?
  by_cases hknown : rule.id ∈ r.rules.map Rule.id
  · obtain ⟨front, old, back, hsplit, hsame, hregister⟩ := exists_split_of_known hknown
    have hold : old.id ≠ id := fun he => h (hsame.symm.trans he)
    rw [hregister, hsplit, List.find?_append, List.find?_append,
      List.find?_cons_of_neg (by simpa using h), List.find?_cons_of_neg (by simpa using hold)]
  · rw [register_of_fresh hknown, List.find?_append, List.find?_cons_of_neg (by simpa using h),
      List.find?_nil, Option.or_none]

namespace Indexed

variable {r : Registry} {rule : Rule}

/-- Every rule is found under its own name. -/
theorem find?_id (h : r.Indexed) (hrule : rule ∈ r.rules) : r.find? rule.id = some rule := by
  obtain ⟨front, back, hsplit⟩ := List.append_of_mem hrule
  have hnodup := h.ids_nodup
  rw [hsplit, List.map_append, List.map_cons] at hnodup
  have hfront : front.find? (fun other => other.id = rule.id) = none := by
    rw [List.find?_eq_none]
    intro other hother hid
    have hmem : rule.id ∈ front.map Rule.id := List.mem_map.2 ⟨other, hother, of_decide_eq_true hid⟩
    exact (List.nodup_append.1 hnodup).2.2 _ hmem _ List.mem_cons_self rfl
  unfold find?
  rw [hsplit, List.find?_append, hfront, List.find?_cons_of_pos (by simp), Option.none_or]

/-- A registration binds one name. -/
theorem find?_register (h : r.Indexed) (rule : Rule) (id : String) :
    (r.register rule).find? id = if rule.id = id then some rule else r.find? id := by
  split_ifs with hid
  · rw [← hid]
    exact (h.register rule).find?_id (mem_rules_register r rule)
  · exact find?_register_of_ne r hid

end Indexed

/-! ## Any number of registrations -/

theorem ofList_concat (rules : List Rule) (rule : Rule) :
    ofList (rules ++ [rule]) = (ofList rules).register rule := List.foldl_concat ..

theorem find?_ofList (rules : List Rule) (id : String) :
    (ofList rules).find? id = lastNamed? rules id := by
  induction rules using List.reverseRecOn with
  | nil => rfl
  | append_singleton rules rule ih =>
    rw [ofList_concat, (indexed_ofList rules).find?_register, lastNamed?_concat, ih]

theorem mem_ids_ofList (rules : List Rule) (id : String) :
    id ∈ (ofList rules).rules.map Rule.id ↔ id ∈ rules.map Rule.id := by
  induction rules using List.reverseRecOn with
  | nil => exact Iff.rfl
  | append_singleton rules rule ih =>
    rw [ofList_concat, List.map_append, List.map_singleton, List.mem_append, List.mem_singleton,
      ← ih]
    by_cases hknown : rule.id ∈ (ofList rules).rules.map Rule.id
    · rw [ids_register_of_known hknown]
      exact ⟨.inl, fun h => h.elim (fun hm => hm) fun he => he ▸ hknown⟩
    · rw [ids_register_of_fresh hknown, List.mem_append, List.mem_singleton]

/-- The names stand in the order in which each of them was registered first. -/
theorem ids_ofList_ascending (rules : List Rule) :
    ((ofList rules).rules.map Rule.id).Pairwise fun a b =>
      (rules.map Rule.id).idxOf a < (rules.map Rule.id).idxOf b := by
  induction rules using List.reverseRecOn with
  | nil => exact List.Pairwise.nil
  | append_singleton rules rule ih =>
    -- a name that was there before is first where it was
    have hold : ∀ id ∈ (ofList rules).rules.map Rule.id,
        ((rules ++ [rule]).map Rule.id).idxOf id = (rules.map Rule.id).idxOf id := by
      intro id hid
      rw [List.map_append]
      exact List.idxOf_append_of_mem ((mem_ids_ofList rules id).1 hid)
    have hbefore : ((ofList rules).rules.map Rule.id).Pairwise fun a b =>
        ((rules ++ [rule]).map Rule.id).idxOf a < ((rules ++ [rule]).map Rule.id).idxOf b := by
      refine ih.imp_of_mem fun {a b} ha hb hab => ?_
      rw [hold a ha, hold b hb]
      exact hab
    rw [ofList_concat]
    by_cases hknown : rule.id ∈ (ofList rules).rules.map Rule.id
    · rw [ids_register_of_known hknown]
      exact hbefore
    · rw [ids_register_of_fresh hknown]
      refine List.pairwise_append.2 ⟨hbefore, List.pairwise_singleton _ _, fun a ha b hb => ?_⟩
      have hlast : ((rules ++ [rule]).map Rule.id).idxOf rule.id = rules.length := by
        have hnew : rule.id ∉ rules.map Rule.id := fun hm => hknown ((mem_ids_ofList _ _).2 hm)
        rw [List.map_append, List.idxOf_append_of_notMem hnew, List.map_singleton,
          List.idxOf_cons_self, List.length_map, Nat.add_zero]
      rw [List.mem_singleton.1 hb, hold a ha, hlast, ← List.length_map Rule.id]
      exact List.idxOf_lt_length_of_mem ((mem_ids_ofList rules a).1 ha)

/-- **A registry is a map in the order of first insertion.** After any registrations, the rules
list each registered name once, in the order of the first registrations; each is the last rule
registered under its name; and a name is looked up as the last rule registered under it, or as
nothing if there is none. -/
theorem ofList_ordered_map (rules : List Rule) :
    let r := rules.foldl register empty
    let names := rules.map Rule.id
    (∀ id, (r.rules.map Rule.id).count id = if id ∈ names then 1 else 0) ∧
      ((r.rules.map Rule.id).Pairwise fun a b => names.idxOf a < names.idxOf b) ∧
      (∀ rule ∈ r.rules, lastNamed? rules rule.id = some rule) ∧
      ∀ id, r.find? id = lastNamed? rules id := by
  intro r names
  have hr : r.Indexed := indexed_ofList rules
  refine ⟨fun id => ?_, ids_ofList_ascending rules, fun rule hrule => ?_, find?_ofList rules⟩
  · rw [hr.ids_nodup.count]
    exact if_congr (mem_ids_ofList rules id) rfl rfl
  · exact (find?_ofList rules rule.id).symm.trans (hr.find?_id hrule)

end Registry

end ChapterLint
