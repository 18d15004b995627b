import ChapterLint.Proofs.Lint.Recursion

/-!
# Rules that only append

Most rules add to the report without looking at it. `Rule.Appends` says so: what the rule adds is
what it would report alone. When all rules of a registry are of this kind, a lint is a list
comprehension: each visit of the walk contributes what its rules add there, and the report is the
concatenation of the contributions (`Registry.apply_eq_flatMap`).

A rule signs what it adds if every diagnostic bears the rule's name (`Rule.Signs`). The rules made
from findings do both, hence the built-in ones.
-/

namespace ChapterLint

namespace Rule

/-- The rule only appends, and what it appends does not depend on the report. -/
def Appends (rule : Rule) : Prop :=
  ∀ context parent n report,
    rule.check context parent n report = report ++ rule.check context parent n []

/-- What the rule reports alone bears the rule's name. -/
def Signs (rule : Rule) : Prop :=
  ∀ context parent n, ∀ d ∈ rule.check context parent n [], d.ruleId = rule.id

variable {id description : String} {kind : NodeKind}
  {findings : Context → Node → List (String × Span)}

theorem ofFindings_appends : (ofFindings id description kind findings).Appends :=
  fun _ _ _ _ => rfl

theorem ofFindings_signs : (ofFindings id description kind findings).Signs := by
  intro context parent n d hd
  obtain ⟨f, -, rfl⟩ := List.mem_map.1 hd
  rfl

theorem builtin_appends_signs : ∀ rule ∈ builtin, rule.Appends ∧ rule.Signs := by
  simp only [builtin, List.forall_mem_cons, List.not_mem_nil, false_implies, implies_true, and_true]
  exact ⟨⟨ofFindings_appends, ofFindings_signs⟩, ⟨ofFindings_appends, ofFindings_signs⟩,
    ⟨ofFindings_appends, ofFindings_signs⟩, ⟨ofFindings_appends, ofFindings_signs⟩⟩

/-- Rules that append, applied one after the other, append one after the other. -/
theorem foldl_check_of_appends {rules : List Rule} (h : ∀ rule ∈ rules, rule.Appends)
    (context : Context) (parent : Option Node) (n : Node) (report : Report) :
    rules.foldl (fun report rule => rule.check context parent n report) report =
      report ++ rules.flatMap fun rule => rule.check context parent n [] :=
  append_foldl (fun report => report) _ (fun rule hrule => h rule hrule context parent n) report

end Rule

namespace Registry

variable {r : Registry} {config : Config} {context : Context}

theorem mem_rules_of_mem_rulesFor {rule : Rule} {k : NodeKind} (h : rule ∈ r.rulesFor k) :
    rule ∈ r.rules := by
  obtain ⟨i, -, hi⟩ := List.mem_filterMap.1 h
  exact List.mem_of_getElem? hi

/-- What the enabled rules of a node's kind add there. -/
def additions (r : Registry) (config : Config) (context : Context) (parent : Option Node)
    (n : Node) : Report :=
  ((r.rulesFor n.kind).filter config.enables).flatMap fun rule => rule.check context parent n []

theorem report_visit_eq_append (h : ∀ rule ∈ r.rules, rule.Appends) (parent : Option Node)
    (n : Node) (p : Progress) :
    (r.visit config context parent n p).report =
      p.report ++ r.additions config context parent n := by
  have hrules : ∀ rule ∈ (r.rulesFor n.kind).filter config.enables, rule.Appends :=
    fun rule hrule => h rule (mem_rules_of_mem_rulesFor (List.mem_of_mem_filter hrule))
  rw [visit, report_foldl_applyRule, Rule.foldl_check_of_appends hrules, additions]

theorem report_foldl_visit_eq_append (h : ∀ rule ∈ r.rules, rule.Appends)
    (vs : List (Option Node × Node)) (p : Progress) :
    (vs.foldl (fun p v => r.visit config context v.1 v.2 p) p).report =
      p.report ++ vs.flatMap fun v => r.additions config context v.1 v.2 :=
  append_foldl Progress.report _ (fun v _ p => report_visit_eq_append h v.1 v.2 p) p

/-- The report of rules that append is what they add at one visit after the other. -/
theorem apply_eq_flatMap (h : ∀ rule ∈ r.rules, rule.Appends) (root : Node) :
    (r.apply config context root).1 =
      (Node.visits none root).flatMap fun v => r.additions config context v.1 v.2 := by
  rw [apply, Node.walkDeep_eq_foldl, report_foldl_visit_eq_append h, List.nil_append]

end Registry

end ChapterLint
