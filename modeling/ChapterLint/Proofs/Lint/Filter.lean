import ChapterLint.Proofs.Lint.Appending

/-!
# Configurations as filters

A configuration switches rules off before they run. When every rule appends and signs what it
appends, this is the same as running all rules and dropping the diagnostics signed with a disabled
name afterwards: at one visit (`additions_eq_filter`), and hence over the whole walk
(`apply_eq_filter`). The limit then counts the errors that are left.
-/

namespace ChapterLint

namespace Registry

variable {r : Registry} {config : Config} {context : Context}

theorem enables_default (rule : Rule) : ({} : Config).enables rule = rule.enabledByDefault := by
  simp [Config.enables]

/-- Of the rules enabled by default, a configuration drops those with a disabled name. -/
theorem filter_enables (rules : List Rule) :
    rules.filter config.enables =
      (rules.filter ({} : Config).enables).filter fun rule =>
        rule.id ∉ config.disabledRules := by
  rw [List.filter_filter]
  refine List.filter_congr fun rule _ => ?_
  rw [Bool.eq_iff_iff, enables_iff, Bool.and_eq_true, enables_default, decide_eq_true_iff, and_comm]

/-- Rules are left out with all they add. -/
theorem flatMap_filter_of_signs {rules : List Rule} (h : ∀ rule ∈ rules, rule.Signs)
    (disabled : List String) (parent : Option Node) (n : Node) :
    (rules.filter fun rule => rule.id ∉ disabled).flatMap
        (fun rule => rule.check context parent n []) =
      (rules.flatMap fun rule => rule.check context parent n []).filter fun d =>
        d.ruleId ∉ disabled := by
  induction rules with
  | nil => rfl
  | cons rule rules ih =>
    obtain ⟨hrule, hrules⟩ := List.forall_mem_cons.1 h
    have hsigned := hrule context parent n
    rw [List.flatMap_cons, List.filter_append, ← ih hrules]
    by_cases hid : rule.id ∈ disabled
    · have hnone : (rule.check context parent n []).filter (fun d => d.ruleId ∉ disabled) = [] := by
        refine List.filter_eq_nil_iff.2 fun d hd => ?_
        rw [hsigned d hd]
        simpa using hid
      rw [List.filter_cons_of_neg (by simpa using hid), hnone, List.nil_append]
    · have hall : (rule.check context parent n []).filter (fun d => d.ruleId ∉ disabled) =
          rule.check context parent n [] := by
        refine List.filter_eq_self.2 fun d hd => ?_
        rw [hsigned d hd]
        simpa using hid
      rw [List.filter_cons_of_pos (by simpa using hid), hall, List.flatMap_cons]

/-- At one visit, a configuration drops what bears a disabled name. -/
theorem additions_eq_filter (h : ∀ rule ∈ r.rules, rule.Signs) (parent : Option Node) (n : Node) :
    r.additions config context parent n =
      (r.additions {} context parent n).filter fun d => d.ruleId ∉ config.disabledRules := by
  have hrules : ∀ rule ∈ (r.rulesFor n.kind).filter ({} : Config).enables, rule.Signs :=
    fun rule hrule => h rule (mem_rules_of_mem_rulesFor (List.mem_of_mem_filter hrule))
  rw [additions, filter_enables, flatMap_filter_of_signs hrules, additions]

/-- Over a whole walk, a configuration drops what bears a disabled name. -/
theorem apply_eq_filter (h : ∀ rule ∈ r.rules, rule.Appends ∧ rule.Signs) (root : Node) :
    (r.apply config context root).1 =
      (r.apply {} context root).1.filter fun d => d.ruleId ∉ config.disabledRules := by
  have happends : ∀ rule ∈ r.rules, rule.Appends := fun rule hrule => (h rule hrule).1
  have hsigns : ∀ rule ∈ r.rules, rule.Signs := fun rule hrule => (h rule hrule).2
  rw [apply_eq_flatMap happends, apply_eq_flatMap happends, List.filter_flatMap]
  exact List.flatMap_congr fun v _ => additions_eq_filter hsigns v.1 v.2

/-- What a limit adds to a report with a number of errors: one note of severity `information`,
signed `error-limit`, that gives the number, if there are more errors than the limit. -/
def limitNotes (limit : Option Nat) (errors : Nat) : Report :=
  match limit with
  | none => []
  | some limit =>
    if errors ≤ limit then []
    else
      [{ message := "Too many errors (" ++ toString errors ++ "), limit is " ++ toString limit
         range := ⟨⟨0, 0⟩, ⟨0, 0⟩⟩
         severity := .information
         ruleId := "error-limit" }]

theorem noteLimit_eq_append (config : Config) (report : Report) :
    noteLimit config report = report ++ limitNotes config.errorLimit report.errorCount := by
  unfold noteLimit limitNotes
  cases config.errorLimit with
  | none => exact (List.append_nil report).symm
  | some limit =>
    dsimp only
    by_cases h : limit < report.errorCount
    · rw [if_pos h, if_neg (Nat.not_le.2 h)]
      rfl
    · rw [if_neg h, if_pos (Nat.le_of_not_lt h), List.append_nil]

/-- **Configuring is filtering.** The built-in rules only append, under their own name and whatever
has been reported. For all registries of such rules, a configured lint is the plain lint without
the diagnostics that bear a disabled name, in their order, and behind them the note of the limit on
the errors that are left. -/
theorem lintWith_eq_filter_append_notes :
    (∀ rule ∈ builtin.rules, rule.Appends ∧ rule.Signs) ∧
      ∀ r : Registry, (∀ rule ∈ r.rules, rule.Appends ∧ rule.Signs) →
        ∀ (config : Config) (context : Context) (root : Node),
          let kept : Report := (r.lint context root).1.filter fun d =>
            d.ruleId ∉ config.disabledRules
          (r.lintWith config context root).1 =
            kept ++ limitNotes config.errorLimit kept.errorCount := by
  refine ⟨Rule.builtin_appends_signs, fun r h config context root => ?_⟩
  intro kept
  have hkept : (r.apply config context root).1 = kept := apply_eq_filter h root
  calc (r.lintWith config context root).1 = noteLimit config (r.apply config context root).1 := rfl
    _ = kept ++ limitNotes config.errorLimit kept.errorCount := by
      rw [hkept, noteLimit_eq_append]

/-- A conditional without braces around a `break` in the first chapter, linted without the rule on
`break` and with one error allowed. -/
theorem lintWith_bare_conditional :
    let s : Span := ⟨⟨1, 0⟩, ⟨1, 9⟩⟩
    let root : Node := .ifStatement .unknown (.breakStatement s) (some .unknown) s
    let config : Config := ⟨["break-statement"], some 1⟩
    (∀ rule ∈ builtin.rules, rule.Appends ∧ rule.Signs) ∧
      (builtin.lintWith config ⟨.source1, .default⟩ root).1.map Diagnostic.ruleId =
        ["if-statement", "if-statement", "error-limit"] := by
  intro s root config
  have hrules := Rule.builtin_appends_signs
  have hvisits : Node.visits none root =
      [(none, root), (some root, .unknown), (some root, .breakStatement s),
        (some root, .unknown)] := by
    simp [root, Node.visits_eq, Node.children]
  refine ⟨hrules, ?_⟩
  rw [lintWith_eq_filter_append_notes.2 builtin hrules, lint,
    apply_eq_flatMap fun rule hrule => (hrules rule hrule).1, hvisits]
  decide +kernel

end Registry

end ChapterLint
