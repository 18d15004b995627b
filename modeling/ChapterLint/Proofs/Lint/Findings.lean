import Mathlib.Data.List.Flatten
import ChapterLint.Proofs.Lint.Sublanguage
import ChapterLint.Proofs.Tree.Spans

/-!
# What the built-in rules find

The built-in rules look at a node and the context alone, and each is silent at the nodes of all
kinds but its own. So what they add at a visit is the list of their findings there, one rule after
the other (`additions_builtin`), and a whole lint is the list of the findings at the nodes of the
tree in the order of the walk (`lint_builtin`). A finding knows the span that it is about; ranges
are made from spans at the very end, by `Finding.diagnostic`.

The chapter decides only whether a check is made. Checks are dropped with the third chapter, and a
check that is new there stands in the place of one that is dropped. So from a chapter to a later one
no rule finds more at a node (`map_ruleId_findings_sublist`), and a report loses diagnostics or
keeps them, but never gains one.
-/

namespace ChapterLint

/-- Something that a rule has found. -/
structure Finding where
  ruleId : String
  message : String
  span : Span
deriving DecidableEq, Repr

namespace Finding

/-- The diagnostic of a finding. -/
def diagnostic (f : Finding) : Diagnostic := ⟨f.message, f.span.range, .error, f.ruleId⟩

/-- What the rule of the given name has found. -/
def signed (id : String) (found : List (String × Span)) : List Finding :=
  found.map fun f => ⟨id, f.1, f.2⟩

theorem map_ruleId_signed (id : String) (found : List (String × Span)) :
    (signed id found).map ruleId = List.replicate found.length id := by
  rw [signed, List.map_map]
  exact List.map_const'

end Finding

/-- What the built-in rules find at a node. -/
def Node.findings (context : Context) (n : Node) : List Finding :=
  Finding.signed "break-statement" (Rule.breakFindings context n)
    ++ Finding.signed "continue-statement" (Rule.continueFindings context n)
    ++ Finding.signed "if-statement" (Rule.ifFindings context n)
    ++ Finding.signed "member-expression" (Rule.memberFindings context n)

/-! ## Lints as lists of findings -/

/-- What contributes nothing may be left out. -/
theorem flatMap_filter_of_silent {α β : Type} {p : α → Bool} {f : α → List β} {xs : List α}
    (h : ∀ x ∈ xs, p x = false → f x = []) : (xs.filter p).flatMap f = xs.flatMap f := by
  induction xs with
  | nil => rfl
  | cons x xs ih =>
    obtain ⟨hx, hxs⟩ := List.forall_mem_cons.1 h
    rw [List.flatMap_cons, ← ih hxs]
    cases hp : p x with
    | true => rw [List.filter_cons_of_pos hp, List.flatMap_cons]
    | false => rw [List.filter_cons_of_neg (by simp [hp]), hx hp, List.nil_append]

namespace Rule

variable {context : Context} {parent : Option Node} {n : Node}

theorem check_ofFindings (id description : String) (kind : NodeKind)
    (findings : Context → Node → List (String × Span)) :
    (ofFindings id description kind findings).check context parent n [] =
      (Finding.signed id (findings context n)).map Finding.diagnostic := by
  rw [Finding.signed, List.map_map]
  rfl

theorem ofFindings_silent_of_ne {id description : String} {kind : NodeKind}
    {findings : Context → Node → List (String × Span)}
    (h : n.kind ≠ kind → findings context n = []) :
    let rule := ofFindings id description kind findings
    n.kind ≠ rule.kind → rule.check context parent n [] = [] := by
  intro rule hkind
  rw [check_ofFindings, h hkind]
  rfl

/-- Each built-in rule is silent at the nodes of other kinds. -/
theorem builtin_silent_of_ne :
    ∀ rule ∈ builtin, n.kind ≠ rule.kind → rule.check context parent n [] = [] := by
  simp only [builtin, List.forall_mem_cons, List.not_mem_nil, false_implies, implies_true, and_true]
  refine ⟨ofFindings_silent_of_ne ?_, ofFindings_silent_of_ne ?_, ofFindings_silent_of_ne ?_,
    ofFindings_silent_of_ne ?_⟩
  · exact fun h => breakFindings_eq_nil_iff.2 fun _ => h
  · exact fun h => continueFindings_eq_nil_iff.2 fun _ => h
  · exact fun h => ifFindings_eq_nil_iff.2 fun _ _ _ _ he => absurd (he ▸ rfl) h
  · exact fun h => memberFindings_eq_nil_iff.2 fun _ _ _ _ he => absurd (he ▸ rfl) h

theorem builtin_enabled : ∀ rule ∈ builtin, ({} : Config).enables rule = true := by
  simp only [builtin, List.forall_mem_cons, List.not_mem_nil, false_implies, implies_true, and_true]
  exact ⟨rfl, rfl, rfl, rfl⟩

end Rule

namespace Registry

/-- At a node of any kind the built-in rules add what they find there. -/
theorem additions_builtin (context : Context) (parent : Option Node) (n : Node) :
    builtin.additions {} context parent n = (n.findings context).map Finding.diagnostic := by
  have hrules : (builtin.rulesFor n.kind).filter ({} : Config).enables =
      Rule.builtin.filter fun rule => rule.kind = n.kind := by
    rw [indexed_builtin.rulesFor_eq_filter]
    refine List.filter_eq_self.2 fun rule hrule => ?_
    exact Rule.builtin_enabled rule (List.mem_of_mem_filter hrule)
  have hsilent : ∀ rule ∈ Rule.builtin, decide (rule.kind = n.kind) = false →
      rule.check context parent n [] = [] := by
    intro rule hrule hkind
    exact Rule.builtin_silent_of_ne rule hrule (Ne.symm (of_decide_eq_false hkind))
  rw [additions, hrules, flatMap_filter_of_silent hsilent]
  simp only [Rule.builtin, Rule.breakStatement, Rule.continueStatement, Rule.ifStatement,
    Rule.memberExpression, Rule.check_ofFindings, Node.findings, List.flatMap_cons,
    List.flatMap_nil, List.append_nil, List.map_append, List.append_assoc]

/-- **A lint lists findings.** The report of the built-in rules is what they find at the nodes of
the tree, in the order of the walk. -/
theorem lint_builtin (context : Context) (root : Node) :
    (builtin.lint context root).1 =
      (root.nodes.flatMap (Node.findings context)).map Finding.diagnostic := by
  have happends : ∀ rule ∈ builtin.rules, rule.Appends :=
    fun rule hrule => (Rule.builtin_appends_signs rule hrule).1
  rw [lint, apply_eq_flatMap happends, ← Node.map_snd_visits none root, List.flatMap_map,
    List.map_flatMap]
  exact List.flatMap_congr fun v _ => additions_builtin context v.1 v.2

end Registry

/-! ## Where findings are -/

/-- A node, or one of its children, has the span. -/
def Node.Shows (n : Node) (s : Span) : Prop :=
  n.span? = some s ∨ ∃ c ∈ n.children, c.span? = some s

/-- The span of a child, or else that of the node. -/
theorem Node.shows_getD {n c : Node} {s : Span} (hs : n.span? = some s) (hc : c ∈ n.children) :
    n.Shows (c.span?.getD s) := by
  cases hspan : c.span? with
  | none => exact .inl hs
  | some t => exact .inr ⟨c, hc, hspan⟩

namespace Rule

variable {context : Context} {n : Node}

theorem shows_of_mem_breakFindings : ∀ x ∈ breakFindings context n, n.Shows x.2 := by
  cases n with
  | breakStatement s =>
    unfold breakFindings
    split_ifs
    · exact List.forall_mem_singleton.2 (.inl rfl)
    · exact List.forall_mem_nil _
  | _ => exact List.forall_mem_nil _

theorem shows_of_mem_continueFindings : ∀ x ∈ continueFindings context n, n.Shows x.2 := by
  cases n with
  | continueStatement s =>
    unfold continueFindings
    split_ifs
    · exact List.forall_mem_singleton.2 (.inl rfl)
    · exact List.forall_mem_nil _
  | _ => exact List.forall_mem_nil _

theorem shows_of_mem_ifFindings : ∀ x ∈ ifFindings context n, n.Shows x.2 := by
  cases n with
  | ifStatement test consequent alternate s =>
    intro x hx
    rw [ifFindings, List.mem_append, List.mem_append] at hx
    simp only [List.mem_ite_nil_right, List.mem_singleton] at hx
    rcases hx with (⟨-, rfl⟩ | ⟨-, rfl⟩) | ⟨-, rfl⟩
    · exact Node.shows_getD rfl (by simp [Node.children])
    · exact .inl rfl
    · exact .inl rfl
  | _ => exact List.forall_mem_nil _

theorem shows_of_mem_memberFindings : ∀ x ∈ memberFindings context n, n.Shows x.2 := by
  cases n with
  | memberExpression object index computed s =>
    unfold memberFindings
    dsimp only
    split_ifs
    · exact List.forall_mem_singleton.2 (.inl rfl)
    · exact List.forall_mem_singleton.2 (.inl rfl)
    · cases wrongIndex? index with
      | none => exact List.forall_mem_nil _
      | some got =>
        exact List.forall_mem_singleton.2 (Node.shows_getD rfl (by simp [Node.children]))
  | _ => exact List.forall_mem_nil _

end Rule

namespace Node

theorem shows_of_mem_findings {context : Context} {n : Node} {x : Finding}
    (h : x ∈ n.findings context) : n.Shows x.span := by
  have hsigned : ∀ {id : String} {found : List (String × Span)},
      (∀ y ∈ found, n.Shows y.2) → x ∈ Finding.signed id found → n.Shows x.span := by
    intro id found hfound hx
    obtain ⟨y, hy, rfl⟩ := List.mem_map.1 hx
    exact hfound y hy
  simp only [findings, List.mem_append] at h
  rcases h with ((h | h) | h) | h
  · exact hsigned Rule.shows_of_mem_breakFindings h
  · exact hsigned Rule.shows_of_mem_continueFindings h
  · exact hsigned Rule.shows_of_mem_ifFindings h
  · exact hsigned Rule.shows_of_mem_memberFindings h

/-- Every finding in a tree has the span of a node that the walk visits. -/
theorem exists_span?_of_mem_findings {context : Context} {root : Node} {x : Finding}
    (h : x ∈ root.nodes.flatMap (findings context)) :
    ∃ n ∈ root.nodes, n.span? = some x.span := by
  obtain ⟨n, hn, hx⟩ := List.mem_flatMap.1 h
  rcases shows_of_mem_findings hx with hspan | ⟨c, hc, hspan⟩
  · exact ⟨n, hn, hspan⟩
  · exact ⟨c, mem_nodes_of_mem_children hn hc, hspan⟩

theorem EverySpan.of_mem_findings {P : Span → Prop} {root : Node} (h : root.EverySpan P)
    {context : Context} {x : Finding} (hx : x ∈ root.nodes.flatMap (findings context)) :
    P x.span := by
  obtain ⟨n, hn, hspan⟩ := exists_span?_of_mem_findings hx
  exact EverySpan.span (h.of_mem_nodes hn) hspan

end Node

/-! ## Later chapters -/

/-- From a chapter to a later one, nothing changes for the rules, or the third chapter begins. -/
theorem Chapter.beforeSource3_cases {c c' : Chapter} (h : c.number ≤ c'.number) :
    c'.beforeSource3 = c.beforeSource3 ∨ (c.beforeSource3 = true ∧ c'.beforeSource3 = false) := by
  revert h
  cases c <;> cases c' <;> decide

namespace Rule

variable {context context' : Context} (h : context.chapter.number ≤ context'.chapter.number)
  (n : Node)

include h

theorem length_breakFindings_le :
    (breakFindings context' n).length ≤ (breakFindings context n).length := by
  cases n with
  | breakStatement s =>
    rcases Chapter.beforeSource3_cases h with hsame | ⟨hearly, hlate⟩
    · rw [breakFindings, breakFindings, hsame]
    · simp [breakFindings, hearly, hlate]
  | _ => exact Nat.le_refl _

theorem length_continueFindings_le :
    (continueFindings context' n).length ≤ (continueFindings context n).length := by
  cases n with
  | continueStatement s =>
    rcases Chapter.beforeSource3_cases h with hsame | ⟨hearly, hlate⟩
    · rw [continueFindings, continueFindings, hsame]
    · simp [continueFindings, hearly, hlate]
  | _ => exact Nat.le_refl _

/-- The check for a missing branch is dropped, the checks for braces stay. -/
theorem length_ifFindings_le :
    (ifFindings context' n).length ≤ (ifFindings context n).length := by
  cases n with
  | ifStatement test consequent alternate s =>
    rcases Chapter.beforeSource3_cases h with hsame | ⟨hearly, hlate⟩
    · rw [ifFindings, ifFindings, hsame]
    · simp [ifFindings, hearly, hlate]
  | _ => exact Nat.le_refl _

/-- A wrong index is found only where the access itself was found before. -/
theorem length_memberFindings_le :
    (memberFindings context' n).length ≤ (memberFindings context n).length := by
  cases n with
  | memberExpression object index computed s =>
    rcases Chapter.beforeSource3_cases h with hsame | ⟨hearly, hlate⟩
    · rw [memberFindings, memberFindings, hsame]
    · cases computed with
      | false => simp [memberFindings]
      | true => cases hwrong : wrongIndex? index <;> simp [memberFindings, hearly, hlate, hwrong]
  | _ => exact Nat.le_refl _

end Rule

/-- At each node, what a later chapter finds is less of the same rules. -/
theorem Node.map_ruleId_findings_sublist {context context' : Context}
    (h : context.chapter.number ≤ context'.chapter.number) (n : Node) :
    ((n.findings context').map Finding.ruleId).Sublist
      ((n.findings context).map Finding.ruleId) := by
  have hrule : ∀ (id : String) {found found' : List (String × Span)},
      found'.length ≤ found.length → ((Finding.signed id found').map Finding.ruleId).Sublist
        ((Finding.signed id found).map Finding.ruleId) := by
    intro id found found' hlength
    rw [Finding.map_ruleId_signed, Finding.map_ruleId_signed]
    exact (List.replicate_sublist_replicate id).2 hlength
  simp only [findings, List.map_append]
  refine List.Sublist.append (List.Sublist.append (List.Sublist.append ?_ ?_) ?_) ?_
  · exact hrule _ (Rule.length_breakFindings_le h n)
  · exact hrule _ (Rule.length_continueFindings_le h n)
  · exact hrule _ (Rule.length_ifFindings_le h n)
  · exact hrule _ (Rule.length_memberFindings_le h n)

namespace Registry

theorem map_ruleId_lint_builtin (context : Context) (root : Node) :
    (builtin.lint context root).1.map Diagnostic.ruleId =
      root.nodes.flatMap fun n => (n.findings context).map Finding.ruleId := by
  rw [lint_builtin, List.map_map, List.map_flatMap]
  rfl

/-- **Later chapters are never stricter.** Lint a tree in a chapter and in one that is no earlier.
The rules that report in the later chapter are, report by report and in their order, among those
that report in the earlier one. So a program that is clean in a chapter is clean in every later
one. -/
theorem map_ruleId_lint_sublist {context context' : Context}
    (h : context.chapter.number ≤ context'.chapter.number) (root : Node) :
    ((builtin.lint context' root).1.map Diagnostic.ruleId).Sublist
        ((builtin.lint context root).1.map Diagnostic.ruleId) ∧
      ((builtin.lint context root).1 = [] → (builtin.lint context' root).1 = []) := by
  have hsublist : ((builtin.lint context' root).1.map Diagnostic.ruleId).Sublist
      ((builtin.lint context root).1.map Diagnostic.ruleId) := by
    rw [map_ruleId_lint_builtin, map_ruleId_lint_builtin]
    exact List.Sublist.flatMap_right _ fun n _ => n.map_ruleId_findings_sublist h
  refine ⟨hsublist, fun hclean => ?_⟩
  rw [hclean] at hsublist
  exact List.map_eq_nil_iff.1 (List.sublist_nil.1 hsublist)

/-- A conditional with one branch, a `break`, that asks for a member by a wrong index: the third
chapter allows the branch to be alone and the `break`, and blames the index, not the access. -/
theorem map_ruleId_lint_sublist_breakIf :
    let s : Span := ⟨⟨1, 0⟩, ⟨1, 9⟩⟩
    let access : Node := .memberExpression .unknown (.literal .null s) true s
    let root : Node := .ifStatement access (.breakStatement s) none s
    let early : Context := ⟨.source2, .default⟩
    let late : Context := ⟨.source3, .typed⟩
    early.chapter.number ≤ late.chapter.number ∧
      (builtin.lint late root).1.map Diagnostic.ruleId = ["if-statement", "member-expression"] ∧
      ["if-statement", "member-expression"].Sublist
        ((builtin.lint early root).1.map Diagnostic.ruleId) := by
  intro s access root early late
  have hchapter : early.chapter.number ≤ late.chapter.number := by decide
  have hlate : (builtin.lint late root).1.map Diagnostic.ruleId =
      ["if-statement", "member-expression"] := by
    have hnodes : root.nodes = [root, access, .unknown, .literal .null s, .breakStatement s] := by
      simp [root, access, Node.nodes_eq, Node.children]
    rw [map_ruleId_lint_builtin, hnodes]
    rfl
  exact ⟨hchapter, hlate, hlate ▸ (map_ruleId_lint_sublist hchapter root).1⟩

end Registry

end ChapterLint
