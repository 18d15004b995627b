import ChapterLint.Proofs.Lint.Filter
import ChapterLint.Proofs.Lint.Findings
import ChapterLint.Proofs.Tree.Address

/-!
# Subtrees report on their own

Without a limit on errors, what the built-in rules report in a tree is what they report at one node
after the other, in the order of the walk (`lintWith_builtin`). What they report at a node depends
neither on its parent nor on earlier reports. So the report on a subtree is a block of the report
on the tree: the subtree is visited in one go (`Node.exists_nodes_eq_append`), and the block begins
behind what is reported before the walk comes to it (`blockAt_lintWith`). Blocks of subtrees that
are apart follow each other in the order of their addresses, and the report on a program is that on
one statement after the other.
-/

namespace ChapterLint

/-- The report stands in another one, without a gap, from a place on. -/
def Report.BlockAt (part whole : Report) (start : Nat) : Prop :=
  ∃ before after, whole = before ++ part ++ after ∧ before.length = start

namespace Node

/-- What is reported at a node by the built-in rules that are not disabled. -/
def remarks (config : Config) (context : Context) (n : Node) : Report :=
  ((n.findings context).map Finding.diagnostic).filter fun d => d.ruleId ∉ config.disabledRules

/-- What is reported before the walk comes to an address. -/
def remarksBefore (config : Config) (context : Context) (root : Node) (p : List Nat) : Report :=
  (root.before p).flatMap (remarks config context)

theorem reaches_iff_exists_descendant? {root n : Node} :
    root.Reaches n ↔ ∃ p, root.descendant? p = some n := by
  rw [← mem_nodes_iff_reaches, mem_nodes_iff_exists_descendant?]

end Node

namespace Registry

section NoLimit

variable {config : Config} (hlimit : config.errorLimit = none) (context : Context)

include hlimit

/-- Without a limit, the report lists the remarks at the nodes of the tree. -/
theorem lintWith_builtin (root : Node) :
    (builtin.lintWith config context root).1 =
      root.nodes.flatMap (Node.remarks config context) := by
  have hplain : (builtin.apply {} context root).1 =
      (root.nodes.flatMap (Node.findings context)).map Finding.diagnostic :=
    lint_builtin context root
  calc (builtin.lintWith config context root).1
      = noteLimit config (builtin.apply config context root).1 := rfl
    _ = (builtin.apply config context root).1 := by rw [noteLimit, hlimit]
    _ = root.nodes.flatMap (Node.remarks config context) := by
      rw [apply_eq_filter Rule.builtin_appends_signs, hplain, List.map_flatMap,
        List.filter_flatMap]
      rfl

/-- The report on a subtree stands behind what is reported before the walk comes there. -/
theorem blockAt_lintWith {root n : Node} {p : List Nat} (h : root.descendant? p = some n) :
    Report.BlockAt (builtin.lintWith config context n).1 (builtin.lintWith config context root).1
      (root.remarksBefore config context p).length := by
  obtain ⟨after, hafter⟩ := Node.exists_nodes_eq_append h
  refine ⟨_, after.flatMap (Node.remarks config context), ?_, rfl⟩
  rw [lintWith_builtin hlimit, lintWith_builtin hlimit, hafter, List.flatMap_append,
    List.flatMap_append]
  rfl

/-- When the walk comes to a node, it has reported all on the subtrees that are apart from it and
have a lesser address. -/
theorem length_remarksBefore_le {root n : Node} {p q : List Nat}
    (h : root.descendant? p = some n) (hlt : p < q) (hapart : ¬ p <+: q) :
    (root.remarksBefore config context p).length +
        (builtin.lintWith config context n).1.length ≤
      (root.remarksBefore config context q).length := by
  obtain ⟨between, hbetween⟩ := Node.exists_before_eq_append h hlt hapart
  unfold Node.remarksBefore
  rw [lintWith_builtin hlimit, hbetween, List.flatMap_append, List.flatMap_append,
    List.length_append, List.length_append]
  omega

/-- No rule is about programs: the report is that on one statement after the other. -/
theorem lintWith_program (body : List Node) (s : Span) :
    (builtin.lintWith config context (.program body s)).1 =
      body.flatMap fun n => (builtin.lintWith config context n).1 := by
  have hself : Node.remarks config context (.program body s) = [] := rfl
  simp only [lintWith_builtin hlimit]
  rw [Node.nodes_eq, List.flatMap_cons, hself, List.nil_append, List.flatMap_assoc]
  rfl

end NoLimit

/-- **Subtrees report in blocks, in preorder.** Lint a tree with the built-in rules, in any context
and configuration without a limit on errors. The nodes that are reached are those with an address,
and each address has a place in the report from which on the report on its subtree alone stands
there. Of two addresses neither of which begins the other, the block of the one that comes first in
preorder ends where that of the other begins, or before. The report on a program is that on the
first part of its body and then that on the rest, wherever the body is parted. -/
theorem lintWith_blocks_in_preorder {config : Config} (hlimit : config.errorLimit = none)
    (context : Context) :
    let report n := (builtin.lintWith config context n).1
    (∀ root : Node, (∀ n, root.Reaches n ↔ ∃ p, root.descendant? p = some n) ∧
      ∃ start : List Nat → Nat,
        (∀ p n, root.descendant? p = some n → (report n).BlockAt (report root) (start p)) ∧
        ∀ p q n m, root.descendant? p = some n → root.descendant? q = some m →
          p < q → ¬ p <+: q → start p + (report n).length ≤ start q) ∧
      ∀ (body body' : List Node) (s s₁ s₂ : Span),
        report (.program (body ++ body') s) =
          report (.program body s₁) ++ report (.program body' s₂) := by
  intro report
  refine ⟨fun root => ⟨fun n => Node.reaches_iff_exists_descendant?, ?_⟩, ?_⟩
  · refine ⟨fun p => (root.remarksBefore config context p).length, ?_, ?_⟩
    · intro p n hp
      exact blockAt_lintWith hlimit context hp
    · intro p q n m hp _ hlt hapart
      exact length_remarksBefore_le hlimit context hp hlt hapart
  · intro body body' s s₁ s₂
    simp only [report, lintWith_program hlimit, List.flatMap_append]

/-- A call whose argument holds a `break` and whose callee is a member with a dot, in the first
chapter. The walk comes to the argument before it comes to the callee, and so do the reports. -/
theorem lintWith_blocks_in_preorder_call :
    let s : Span := ⟨⟨1, 0⟩, ⟨1, 9⟩⟩
    let callee : Node := .memberExpression .unknown .unknown false s
    let argument : Node := .arrowFunctionExpression []
      (.blockStatement [.breakStatement s, .continueStatement s] s) s
    let root : Node := .program [.debuggerStatement s, .callExpression callee [argument] s] s
    let config : Config := ⟨["continue-statement"], none⟩
    let report n := (builtin.lintWith config ⟨.source1, .default⟩ n).1
    config.errorLimit = none ∧
      root.descendant? [1, 0] = some argument ∧ root.descendant? [1, 1] = some callee ∧
      [1, 0] < [1, 1] ∧ ¬ [1, 0] <+: [1, 1] ∧
      (report argument).map Diagnostic.ruleId = ["break-statement"] ∧
      ∃ i j, (report argument).BlockAt (report root) i ∧ (report callee).BlockAt (report root) j ∧
        i < j := by
  intro s callee argument root config report
  have hlimit : config.errorLimit = none := rfl
  have hargument : (report argument).map Diagnostic.ruleId = ["break-statement"] := by
    have hnodes : argument.nodes = [argument,
        .blockStatement [.breakStatement s, .continueStatement s] s, .breakStatement s,
        .continueStatement s] := by
      simp [argument, Node.nodes_eq, Node.children]
    simp only [report]
    rw [lintWith_builtin hlimit, hnodes]
    decide +kernel
  have hlength : (report argument).length = 1 := by
    rw [← List.length_map Diagnostic.ruleId, hargument]
    rfl
  obtain ⟨start, hblock, horder⟩ :=
    ((lintWith_blocks_in_preorder hlimit ⟨.source1, .default⟩).1 root).2
  have hle : start [1, 0] + (report argument).length ≤ start [1, 1] :=
    horder [1, 0] [1, 1] argument callee rfl rfl (by decide) (by decide)
  refine ⟨hlimit, rfl, rfl, by decide, by decide, hargument, start [1, 0], start [1, 1],
    hblock _ _ rfl, hblock _ _ rfl, ?_⟩
  omega

end Registry

end ChapterLint
