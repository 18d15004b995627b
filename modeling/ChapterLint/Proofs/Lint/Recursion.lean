import ChapterLint.Lint.Linter
import ChapterLint.Proofs.Lint.Index
import ChapterLint.Proofs.Tree.Walk

/-!
# Linting as a recursion

What a lint reports is what a plain recursion over the tree reports: `Registry.checkNode` runs
the enabled rules bound to a node's kind, in their order, on what has been reported so far, and
`Node.visitDeep` does this for a node and then for its children. Rules may look at the parent and
at the report, so the two agree on the whole sequence of calls, not only on what each of them adds.

The lint itself keeps a stack and finds rules through an index. `report_visit` takes the index
away, `report_walkDeep` the stack.
-/

namespace ChapterLint

namespace Registry

/-- Runs on a node, in their order, the rules that are bound to its kind, enabled by default and
not disabled by name. -/
def checkNode (rules : List Rule) (config : Config) (context : Context) (parent : Option Node)
    (n : Node) (report : Report) : Report :=
  (rules.filter fun rule =>
    rule.kind = n.kind ∧ rule.enabledByDefault ∧ rule.id ∉ config.disabledRules).foldl
      (fun report rule => rule.check context parent n report) report

variable {r : Registry} {config : Config} {context : Context}

theorem enables_iff (rule : Rule) :
    config.enables rule = true ↔ rule.enabledByDefault ∧ rule.id ∉ config.disabledRules := by
  simp [Config.enables]

theorem report_foldl_applyRule (parent : Option Node) (n : Node) (rules : List Rule)
    (p : Progress) :
    (rules.foldl (applyRule context parent n) p).report =
      rules.foldl (fun report rule => rule.check context parent n report) p.report :=
  (List.foldl_hom Progress.report fun _ _ => rfl).symm

/-- One visit reports what the rules bound to the kind report. -/
theorem report_visit (h : r.Indexed) (parent : Option Node) (n : Node) (p : Progress) :
    (r.visit config context parent n p).report =
      checkNode r.rules config context parent n p.report := by
  have hrules : (r.rulesFor n.kind).filter config.enables = r.rules.filter fun rule =>
      rule.kind = n.kind ∧ rule.enabledByDefault ∧ rule.id ∉ config.disabledRules := by
    rw [h.rulesFor_eq_filter, List.filter_filter]
    refine List.filter_congr fun rule _ => ?_
    rw [Bool.eq_iff_iff, Bool.and_eq_true, enables_iff, decide_eq_true_iff, decide_eq_true_iff,
      and_comm]
  rw [visit, report_foldl_applyRule, hrules, checkNode]

/-- A walk reports what the recursion reports, whatever was reported before. -/
theorem report_walkDeep (h : r.Indexed) (root : Node) (p : Progress) :
    (root.walkDeep (r.visit config context) p).report =
      root.visitDeep (checkNode r.rules config context) none p.report := by
  rw [Node.walkDeep_eq_visitDeep, Node.visitDeep_eq_foldl, Node.visitDeep_eq_foldl]
  exact (List.foldl_hom Progress.report fun p v => (report_visit h v.1 v.2 p).symm).symm

/-- **The loop is the recursion.** For every registry, which is what registering rules one after
the other makes, every configuration, context and tree, and whatever was reported before: the loop
over the stack ends, after one turn for each node, with an empty stack, and its report is that of
the recursion from the root. -/
theorem apply_eq_visitDeep (rules : List Rule) (config : Config) (context : Context)
    (root : Node) (p : Progress) :
    let r := ofList rules
    let check := checkNode r.rules config context
    (∃ q, (Node.turnStack (r.visit config context))^[root.nodes.length] ([(none, root)], p) =
        ([], q) ∧ q.report = root.visitDeep check none p.report) ∧
      (r.apply config context root).1 = root.visitDeep check none [] := by
  intro r check
  have h : r.Indexed := indexed_ofList rules
  have hend := Node.turnStack_iterate_root (r.visit config context) root p
  exact ⟨⟨_, hend, report_walkDeep h root p⟩, report_walkDeep h root _⟩

end Registry

end ChapterLint
