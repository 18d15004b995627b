import ChapterLint.Proofs.Lint.Appending

/-!
# The language of a chapter

The built-in rules accept exactly one language for each chapter. `InSublanguage` says which, by
what may stand at the nodes that an analysis reaches (`Node.Reaches`): branches have braces
everywhere; before the third chapter nothing leaves or goes on with a loop, no members are accessed
and every conditional has two branches; from the third chapter on members are accessed by an index
that is no wrong constant (`AllowedIndex`).

A report is empty if no visit adds to it (`lint_builtin_eq_nil_iff`), and a visit adds nothing if
each of the four rules finds nothing at the node, whatever its kind
(`additions_builtin_eq_nil_iff`).
-/

namespace ChapterLint

/-- The nodes of a tree that an analysis reaches: the root, and the children of those reached. -/
inductive Node.Reaches (root : Node) : Node → Prop
  | root : Reaches root root
  | child {n c : Node} : Reaches root n → c ∈ n.children → Reaches root c

/-- The index of a member access is no constant that is seen not to be a non-negative integer:
neither `undefined`, nor a literal other than a number that is a safe integer, nor a numeric
literal with a minus sign. -/
structure AllowedIndex (index : Node) : Prop where
  not_undefined : ∀ s, index ≠ .identifier ⟨"undefined", s⟩
  literal : ∀ value s, index = .literal value s →
    ∃ m, value = .number m ∧ m.toBinary64.isSafeInteger
  not_negated : ∀ m s s', index ≠ .unaryExpression "-" (.literal (.number m) s) s'

/-- The program is written in the language of the chapter. -/
structure InSublanguage (chapter : Chapter) (root : Node) : Prop where
  braces : ∀ test consequent alternate s,
    root.Reaches (.ifStatement test consequent alternate s) →
      consequent.kind = .blockStatement ∧ ∀ n ∈ alternate, n.kind = .blockStatement
  early : chapter.number < 3 → ∀ n, root.Reaches n →
    n.kind ≠ .breakStatement ∧ n.kind ≠ .continueStatement ∧ n.kind ≠ .memberExpression ∧
      ∀ test consequent s, n ≠ .ifStatement test consequent none s
  late : 3 ≤ chapter.number → ∀ object index computed s,
    root.Reaches (.memberExpression object index computed s) →
      computed = true ∧ AllowedIndex index

/-! ## Reached nodes -/

namespace Node

theorem mem_nodes_self (n : Node) : n ∈ n.nodes := by
  rw [nodes_eq]
  exact List.mem_cons_self

theorem mem_nodes_of_mem_children {root n c : Node} (h : n ∈ root.nodes) (hc : c ∈ n.children) :
    c ∈ root.nodes := by
  induction root using childrenInduction with
  | step root ih =>
    rw [nodes_eq] at h ⊢
    rcases List.mem_cons.1 h with rfl | h
    · exact List.mem_cons_of_mem _ (List.mem_flatMap.2 ⟨c, hc, mem_nodes_self c⟩)
    · obtain ⟨b, hb, hn⟩ := List.mem_flatMap.1 h
      exact List.mem_cons_of_mem _ (List.mem_flatMap.2 ⟨b, hb, ih b hb hn⟩)

theorem Reaches.trans {root n m : Node} (h : root.Reaches n) (hm : n.Reaches m) :
    root.Reaches m := by
  induction hm with
  | root => exact h
  | child _ hc ih => exact ih.child hc

theorem reaches_of_mem_nodes {root n : Node} (h : n ∈ root.nodes) : root.Reaches n := by
  induction root using childrenInduction with
  | step root ih =>
    rw [nodes_eq] at h
    rcases List.mem_cons.1 h with rfl | h
    · exact .root
    · obtain ⟨c, hc, hn⟩ := List.mem_flatMap.1 h
      exact (Reaches.child .root hc).trans (ih c hc hn)

/-- The walks visit the nodes that are reached. -/
theorem mem_nodes_iff_reaches {root n : Node} : n ∈ root.nodes ↔ root.Reaches n := by
  refine ⟨reaches_of_mem_nodes, fun h => ?_⟩
  induction h with
  | root => exact mem_nodes_self root
  | child _ hc ih => exact mem_nodes_of_mem_children ih hc

end Node

/-! ## What the rules find -/

namespace Rule

variable {context : Context} {n : Node}

theorem breakFindings_eq_nil_iff :
    breakFindings context n = [] ↔ (context.chapter.number < 3 → n.kind ≠ .breakStatement) := by
  cases n <;> simp [breakFindings, Node.kind, Chapter.beforeSource3]

theorem continueFindings_eq_nil_iff :
    continueFindings context n = [] ↔
      (context.chapter.number < 3 → n.kind ≠ .continueStatement) := by
  cases n <;> simp [continueFindings, Node.kind, Chapter.beforeSource3]

theorem ifFindings_eq_nil_iff :
    ifFindings context n = [] ↔
      ∀ test consequent alternate s, n = .ifStatement test consequent alternate s →
        (context.chapter.number < 3 → alternate ≠ none) ∧ consequent.kind = .blockStatement ∧
          ∀ m ∈ alternate, m.kind = .blockStatement := by
  cases n with
  | ifStatement test consequent alternate s =>
    have hnode : ifFindings context (.ifStatement test consequent alternate s) = [] ↔
        (context.chapter.number < 3 → alternate ≠ none) ∧ consequent.kind = .blockStatement ∧
          ∀ m ∈ alternate, m.kind = .blockStatement := by
      cases alternate <;> simp [ifFindings, Chapter.beforeSource3]
    exact hnode.trans ⟨fun h _ _ _ _ he => by cases he; exact h, fun h => h _ _ _ _ rfl⟩
  | _ => simp [ifFindings]

theorem wrongIndex?_eq_none_iff : wrongIndex? n = none ↔ AllowedIndex n := by
  constructor
  · intro h
    refine ⟨?_, ?_, ?_⟩
    · rintro s rfl
      simp [wrongIndex?] at h
    · rintro value s rfl
      cases value <;> simp [wrongIndex?, Value.number?, Value.typeName] at h ⊢
      exact h
    · rintro m s s' rfl
      simp [wrongIndex?, Value.number?] at h
  · rintro ⟨hundefined, hliteral, hnegated⟩
    cases n with
    | identifier id =>
      have hname : id.name ≠ "undefined" := fun he => hundefined id.span (by rw [← he])
      simp [wrongIndex?, hname]
    | literal value s =>
      obtain ⟨m, rfl, hsafe⟩ := hliteral value s rfl
      simp [wrongIndex?, Value.number?, hsafe]
    | unaryExpression operator argument s =>
      cases argument with
      | literal value s' =>
        by_cases hop : operator = "-"
        · subst hop
          cases value with
          | number m => exact absurd rfl (hnegated m s' s)
          | _ => rfl
        · simp [wrongIndex?, hop]
      | _ => rfl
    | _ => rfl

theorem memberFindings_eq_nil_iff :
    memberFindings context n = [] ↔
      ∀ object index computed s, n = .memberExpression object index computed s →
        3 ≤ context.chapter.number ∧ computed = true ∧ AllowedIndex index := by
  cases n with
  | memberExpression object index computed s =>
    have hnode : memberFindings context (.memberExpression object index computed s) = [] ↔
        3 ≤ context.chapter.number ∧ computed = true ∧ AllowedIndex index := by
      rw [← wrongIndex?_eq_none_iff]
      unfold memberFindings Chapter.beforeSource3
      by_cases hearly : context.chapter.number < 3
      · cases computed <;> simp [hearly]
      · cases computed <;> cases hwrong : wrongIndex? index <;> simp [hwrong, hearly]
        omega
    exact hnode.trans ⟨fun h _ _ _ _ he => by cases he; exact h, fun h => h _ _ _ _ rfl⟩
  | _ => simp [memberFindings]

/-- A rule made from findings adds nothing at a node of its kind if it finds nothing. Where it
finds nothing at nodes of other kinds, the kind does not matter. -/
theorem ofFindings_silent_iff {id description : String} {kind : NodeKind}
    {findings : Context → Node → List (String × Span)} {parent : Option Node}
    (h : n.kind ≠ kind → findings context n = []) :
    let rule := ofFindings id description kind findings
    (rule.enabledByDefault → rule.kind = n.kind → rule.check context parent n [] = []) ↔
      findings context n = [] := by
  intro rule
  have hcheck : rule.check context parent n [] = [] ↔ findings context n = [] :=
    List.map_eq_nil_iff
  rw [hcheck]
  refine ⟨fun hrule => ?_, fun hnone _ _ => hnone⟩
  by_cases hkind : n.kind = kind
  · exact hrule rfl hkind.symm
  · exact h hkind

/-- The four rules find nothing at a node. -/
def NoFindings (context : Context) (n : Node) : Prop :=
  breakFindings context n = [] ∧ continueFindings context n = [] ∧ ifFindings context n = [] ∧
    memberFindings context n = []

end Rule

namespace Registry

theorem additions_eq_nil_iff {r : Registry} (h : r.Indexed) (context : Context)
    (parent : Option Node) (n : Node) :
    r.additions {} context parent n = [] ↔
      ∀ rule ∈ r.rules, rule.enabledByDefault → rule.kind = n.kind →
        rule.check context parent n [] = [] := by
  rw [additions, h.rulesFor_eq_filter, List.flatMap_eq_nil_iff]
  simp only [List.mem_filter, decide_eq_true_iff, enables_iff, List.not_mem_nil,
    not_false_eq_true, and_true, and_imp]
  exact ⟨fun H rule hr he hk => H rule hr hk he, fun H rule hr hk he => H rule hr he hk⟩

/-- The built-in rules add nothing at a node if none of them finds anything there; a rule finds
nothing at nodes of other kinds. -/
theorem additions_builtin_eq_nil_iff (context : Context) (parent : Option Node) (n : Node) :
    builtin.additions {} context parent n = [] ↔ Rule.NoFindings context n := by
  have hbreak : n.kind ≠ .breakStatement → Rule.breakFindings context n = [] :=
    fun h => Rule.breakFindings_eq_nil_iff.2 fun _ => h
  have hcontinue : n.kind ≠ .continueStatement → Rule.continueFindings context n = [] :=
    fun h => Rule.continueFindings_eq_nil_iff.2 fun _ => h
  have hif : n.kind ≠ .ifStatement → Rule.ifFindings context n = [] :=
    fun h => Rule.ifFindings_eq_nil_iff.2 fun _ _ _ _ he => absurd (he ▸ rfl) h
  have hmember : n.kind ≠ .memberExpression → Rule.memberFindings context n = [] :=
    fun h => Rule.memberFindings_eq_nil_iff.2 fun _ _ _ _ he => absurd (he ▸ rfl) h
  have hrules : builtin.rules = Rule.builtin := rfl
  rw [additions_eq_nil_iff indexed_builtin, hrules, Rule.NoFindings]
  simp only [Rule.builtin, List.forall_mem_cons, List.not_mem_nil, false_implies, implies_true,
    and_true]
  exact and_congr (Rule.ofFindings_silent_iff hbreak) (and_congr
    (Rule.ofFindings_silent_iff hcontinue) (and_congr (Rule.ofFindings_silent_iff hif)
      (Rule.ofFindings_silent_iff hmember)))

theorem lint_builtin_eq_nil_iff (context : Context) (root : Node) :
    (builtin.lint context root).1 = [] ↔ ∀ n, root.Reaches n → Rule.NoFindings context n := by
  have happends : ∀ rule ∈ builtin.rules, rule.Appends :=
    fun rule hrule => (Rule.builtin_appends_signs rule hrule).1
  rw [lint, apply_eq_flatMap happends, List.flatMap_eq_nil_iff]
  simp only [additions_builtin_eq_nil_iff, ← Node.mem_nodes_iff_reaches,
    ← Node.map_snd_visits none root, List.forall_mem_map]

/-- **One language for each chapter.** The built-in rules report nothing exactly for the programs
written in the language of the chapter. -/
theorem lint_eq_nil_iff_inSublanguage (context : Context) (root : Node) :
    (builtin.lint context root).1 = [] ↔ InSublanguage context.chapter root := by
  rw [lint_builtin_eq_nil_iff]
  simp only [Rule.NoFindings, Rule.breakFindings_eq_nil_iff, Rule.continueFindings_eq_nil_iff,
    Rule.ifFindings_eq_nil_iff, Rule.memberFindings_eq_nil_iff]
  constructor
  · intro h
    refine ⟨?_, ?_, ?_⟩
    · intro test consequent alternate s hn
      exact ((h _ hn).2.2.1 _ _ _ _ rfl).2
    · intro hearly n hn
      obtain ⟨hbreak, hcontinue, hif, hmember⟩ := h n hn
      refine ⟨hbreak hearly, hcontinue hearly, ?_, ?_⟩
      · intro hkind
        cases n with
        | memberExpression object index computed s =>
          have hlate := (hmember _ _ _ _ rfl).1
          omega
        | _ => cases hkind
      · rintro test consequent s rfl
        exact (hif _ _ _ _ rfl).1 hearly rfl
    · intro _ object index computed s hn
      exact ((h _ hn).2.2.2 _ _ _ _ rfl).2
  · rintro ⟨hbraces, hearly, hlate⟩ n hn
    refine ⟨fun hc => (hearly hc n hn).1, fun hc => (hearly hc n hn).2.1, ?_, ?_⟩
    · rintro test consequent alternate s rfl
      refine ⟨?_, hbraces _ _ _ _ hn⟩
      rintro hc rfl
      exact (hearly hc _ hn).2.2.2 _ _ _ rfl
    · rintro object index computed s rfl
      have hc : 3 ≤ context.chapter.number :=
        Nat.le_of_not_lt fun hc => (hearly hc _ hn).2.2.1 rfl
      exact ⟨hc, hlate hc _ _ _ _ hn⟩

end Registry

end ChapterLint
