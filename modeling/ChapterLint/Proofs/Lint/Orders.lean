import ChapterLint.Proofs.Lint.Filter
import ChapterLint.Proofs.Lint.Names

/-!
# Orders of registration

Rules with distinct names stand in a registry in the order in which they were registered, and that
order decides at which places of the index each of them stands. What a lint finds at a node comes
only from the rules of the node's kind, in their order. So rules that only append find the same in
every order, up to the order in which they say it (`apply_perm`), and exactly the same when the
orders agree on the rules of each kind (`apply_eq_of_agrees`).

Two orders agree on the rules of a kind if whichever of two such rules comes first in the one comes
first in the other. For distinct rules this makes the two sequences of the kind equal
(`filter_kind_eq`).
-/

namespace ChapterLint

/-- Two orders of distinct things are the same if they agree on every pair. -/
theorem eq_of_perm_of_pairs {α : Type} {l l' : List α} (hperm : l.Perm l') (hnodup : l'.Nodup)
    (hpairs : ∀ a b, [a, b].Sublist l → [a, b].Sublist l') : l = l' := by
  induction l generalizing l' with
  | nil => exact hperm.nil_eq
  | cons a l ih =>
    cases l' with
    | nil => exact hperm.eq_nil
    | cons b l' =>
      obtain ⟨hb, hnodup'⟩ := List.nodup_cons.1 hnodup
      -- otherwise the first of the one order would come before the first of the other
      have hab : a = b := by
        by_contra hne
        have hmem : b ∈ l := by
          have hbl : b ∈ a :: l := hperm.mem_iff.2 List.mem_cons_self
          exact (List.mem_cons.1 hbl).resolve_left (Ne.symm hne)
        have hpair : [a, b].Sublist (b :: l') :=
          hpairs a b ((List.singleton_sublist.2 hmem).cons_cons a)
        have hlater : [a, b].Sublist l' := hpair.of_cons_of_ne hne
        exact hb (hlater.subset (by simp))
      subst hab
      have ha : a ∉ l := (List.nodup_cons.1 (hperm.nodup_iff.2 hnodup)).1
      rw [ih hperm.cons_inv hnodup' fun c d hcd => ?_]
      have hne : c ≠ a := fun he => ha (he ▸ hcd.subset List.mem_cons_self)
      exact (hpairs c d (hcd.cons a)).of_cons_of_ne hne

namespace Registry

/-- Two orders of rules agree on the rules of each kind: of two rules of a kind, the one that comes
first in the one order comes first in the other. -/
def Agrees (rules rules' : List Rule) : Prop :=
  ∀ a b, a.kind = b.kind → [a, b].Sublist rules → [a, b].Sublist rules'

variable {rules rules' : List Rule} {config : Config} {context : Context}

/-! ## Distinct names -/

/-- Rules with distinct names are registered one behind the other. -/
theorem rules_ofList (h : (rules.map Rule.id).Nodup) : (ofList rules).rules = rules := by
  induction rules using List.reverseRecOn with
  | nil => rfl
  | append_singleton rules rule ih =>
    rw [List.map_append, List.map_singleton] at h
    obtain ⟨hfront, -, hapart⟩ := List.nodup_append.1 h
    have hnew : rule.id ∉ (ofList rules).rules.map Rule.id := by
      rw [ih hfront]
      intro hmem
      exact hapart _ hmem _ List.mem_cons_self rfl
    rw [ofList_concat, register_of_fresh hnew, ih hfront]

theorem rulesFor_ofList (h : (rules.map Rule.id).Nodup) (k : NodeKind) :
    (ofList rules).rulesFor k = rules.filter fun rule => rule.kind = k := by
  rw [(indexed_ofList rules).rulesFor_eq_filter, rules_ofList h]

theorem apply_ofList (hids : (rules.map Rule.id).Nodup) (happends : ∀ rule ∈ rules, rule.Appends)
    (root : Node) :
    ((ofList rules).apply config context root).1 =
      (Node.visits none root).flatMap fun v => (ofList rules).additions config context v.1 v.2 := by
  refine apply_eq_flatMap ?_ root
  rw [rules_ofList hids]
  exact happends

/-- A limit counts errors, in whatever order they come. -/
theorem noteLimit_perm {report report' : Report} (h : report.Perm report') :
    (noteLimit config report).Perm (noteLimit config report') := by
  have hcount : report.errorCount = report'.errorCount := h.countP_eq _
  rw [noteLimit_eq_append, noteLimit_eq_append, hcount]
  exact h.append_right _

/-! ## Two orders -/

section Orders

variable (hperm : rules.Perm rules') (hids : (rules.map Rule.id).Nodup)

include hperm hids

theorem ids_nodup_of_perm : (rules'.map Rule.id).Nodup := (hperm.map Rule.id).nodup_iff.1 hids

theorem additions_perm (parent : Option Node) (n : Node) :
    ((ofList rules).additions config context parent n).Perm
      ((ofList rules').additions config context parent n) := by
  unfold additions
  rw [rulesFor_ofList hids, rulesFor_ofList (ids_nodup_of_perm hperm hids)]
  exact ((hperm.filter _).filter _).flatMap_right _

/-- The rules of a kind come in the same order. -/
theorem filter_kind_eq (hagrees : Agrees rules rules') (k : NodeKind) :
    (rules.filter fun rule => rule.kind = k) = rules'.filter fun rule => rule.kind = k := by
  have hnodup : rules'.Nodup := (ids_nodup_of_perm hperm hids).of_map _
  refine eq_of_perm_of_pairs (hperm.filter _) (hnodup.filter _) fun a b hab => ?_
  have hkind : ∀ rule ∈ [a, b], rule.kind = k := by
    intro rule hrule
    simpa using List.of_mem_filter (hab.subset hrule)
  have hsame : a.kind = b.kind := by
    rw [hkind a (by simp), hkind b (by simp)]
  have hpair : [a, b].Sublist rules' := hagrees a b hsame (hab.trans List.filter_sublist)
  have hfilter := hpair.filter fun rule => rule.kind = k
  rwa [List.filter_eq_self.2 fun rule hrule => decide_eq_true (hkind rule hrule)] at hfilter

theorem additions_eq_of_agrees (hagrees : Agrees rules rules') (parent : Option Node) (n : Node) :
    (ofList rules).additions config context parent n =
      (ofList rules').additions config context parent n := by
  unfold additions
  rw [rulesFor_ofList hids, rulesFor_ofList (ids_nodup_of_perm hperm hids),
    filter_kind_eq hperm hids hagrees]

variable (happends : ∀ rule ∈ rules, rule.Appends)

include happends

theorem apply_ofList_of_perm (root : Node) :
    ((ofList rules').apply config context root).1 =
      (Node.visits none root).flatMap fun v =>
        (ofList rules').additions config context v.1 v.2 :=
  apply_ofList (ids_nodup_of_perm hperm hids)
    (fun rule hrule => happends rule (hperm.mem_iff.2 hrule)) root

theorem apply_perm (root : Node) :
    ((ofList rules).apply config context root).1.Perm
      ((ofList rules').apply config context root).1 := by
  rw [apply_ofList hids happends, apply_ofList_of_perm hperm hids happends]
  exact List.Perm.flatMap_left _ fun v _ => additions_perm hperm hids v.1 v.2

theorem apply_eq_of_agrees (hagrees : Agrees rules rules') (root : Node) :
    ((ofList rules).apply config context root).1 =
      ((ofList rules').apply config context root).1 := by
  rw [apply_ofList hids happends, apply_ofList_of_perm hperm hids happends]
  exact List.flatMap_congr fun v _ => additions_eq_of_agrees hperm hids hagrees v.1 v.2

theorem lintWith_eq_of_agrees (hagrees : Agrees rules rules') (root : Node) :
    ((ofList rules).lintWith config context root).1 =
      ((ofList rules').lintWith config context root).1 :=
  congrArg (noteLimit config) (apply_eq_of_agrees hperm hids happends hagrees root)

end Orders

/-- Where no two rules share a kind there is nothing to agree on. -/
theorem agrees_of_nodup_kinds (h : (rules.map Rule.kind).Nodup) : Agrees rules rules' := by
  intro a b hkind hab
  have hne : [a, b].Pairwise fun a b => a.kind ≠ b.kind := (List.pairwise_map.1 h).sublist hab
  exact absurd hkind (List.rel_of_pairwise_cons hne List.mem_cons_self)

/-- **The order of registration.** Take rules with distinct names that only append, whatever has
been reported. Registered in two orders they give, for every configuration, context and tree, the
same diagnostics up to their order; and in the same order too if the two orders agree on the rules
of each kind, hence always if no two rules share a kind. The built-in rules are such. -/
theorem lintWith_ofList_perm :
    (∀ rules rules' : List Rule, rules.Perm rules' → (rules.map Rule.id).Nodup →
        (∀ rule ∈ rules, rule.Appends) → ∀ (config : Config) (context : Context) (root : Node),
          let report := ((ofList rules).lintWith config context root).1
          let report' := ((ofList rules').lintWith config context root).1
          report.Perm report' ∧ (Agrees rules rules' → report = report') ∧
            ((rules.map Rule.kind).Nodup → report = report')) ∧
      ∀ rules', Rule.builtin.Perm rules' →
        ∀ (config : Config) (context : Context) (root : Node),
          (builtin.lintWith config context root).1 =
            ((ofList rules').lintWith config context root).1 := by
  refine ⟨?_, ?_⟩
  · intro rules rules' hperm hids happends config context root report report'
    have hreports : report.Perm report' := noteLimit_perm (apply_perm hperm hids happends root)
    refine ⟨hreports, fun hagrees => ?_, fun hkinds => ?_⟩
    · exact lintWith_eq_of_agrees hperm hids happends hagrees root
    · exact lintWith_eq_of_agrees hperm hids happends (agrees_of_nodup_kinds hkinds) root
  · intro rules' hperm config context root
    have hids : (Rule.builtin.map Rule.id).Nodup := by decide
    have hkinds : (Rule.builtin.map Rule.kind).Nodup := by decide
    have happends : ∀ rule ∈ Rule.builtin, rule.Appends := fun rule hrule =>
      (Rule.builtin_appends_signs rule hrule).1
    exact lintWith_eq_of_agrees hperm hids happends (agrees_of_nodup_kinds hkinds) root

/-- Two rules on `break` in orders that do not agree: the reports are reorderings of each other and
not the same. -/
theorem lintWith_ofList_perm_twoBreaks :
    let again := Rule.ofFindings "break-again" "" .breakStatement Rule.breakFindings
    let rules := [Rule.breakStatement, Rule.ifStatement, again]
    let rules' := [again, Rule.breakStatement, Rule.ifStatement]
    let context : Context := ⟨.source1, .default⟩
    let root : Node := .breakStatement ⟨⟨1, 0⟩, ⟨1, 6⟩⟩
    let report := ((ofList rules).lintWith {} context root).1
    let report' := ((ofList rules').lintWith {} context root).1
    (rules.Perm rules' ∧ (rules.map Rule.id).Nodup ∧ ∀ rule ∈ rules, rule.Appends) ∧
      report.map Diagnostic.ruleId = ["break-statement", "break-again"] ∧
      report'.map Diagnostic.ruleId = ["break-again", "break-statement"] ∧ report.Perm report' := by
  intro again rules rules' context root report report'
  have hperm : rules.Perm rules' :=
    ((List.Perm.swap again Rule.ifStatement []).cons _).trans (.swap again Rule.breakStatement _)
  have hids : (rules.map Rule.id).Nodup := by decide
  have happends : ∀ rule ∈ rules, rule.Appends := by
    intro rule hrule
    simp only [rules, List.mem_cons, List.not_mem_nil, or_false] at hrule
    rcases hrule with rfl | rfl | rfl
    all_goals exact Rule.ofFindings_appends
  obtain ⟨hreports, -, -⟩ := lintWith_ofList_perm.1 rules rules' hperm hids happends {} context root
  have hvisits : Node.visits none root = [(none, root)] := by
    simp [root, Node.visits_eq, Node.children]
  have hreport : report = (ofList rules).additions {} context none root := by
    show ((ofList rules).apply {} context root).1 = _
    rw [apply_ofList hids happends, hvisits, List.flatMap_singleton]
  have hreport' : report' = (ofList rules').additions {} context none root := by
    show ((ofList rules').apply {} context root).1 = _
    rw [apply_ofList_of_perm hperm hids happends, hvisits, List.flatMap_singleton]
  refine ⟨⟨hperm, hids, happends⟩, ?_, ?_, hreports⟩
  · rw [hreport]
    decide +kernel
  · rw [hreport']
    decide +kernel

end Registry

end ChapterLint
