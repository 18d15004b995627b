import ChapterLint.Lint.Builtin
import ChapterLint.Proofs.Json.Integers
import ChapterLint.Proofs.Tree.Document
import ChapterLint.Proofs.Tree.Parts

/-!
# Integers as indices

From the third chapter on an index that is written as an integer is reported as a float exactly if
its magnitude is above `2 ^ 53 - 1`, although the integer is rounded to a binary number before it is
looked at. This goes for integers of any number of digits, up to the first one that the reader
cannot keep in range (`Numeral.firstOverflow`). From there on the text is no tree and nothing is
looked at.

The sign is not looked at. A minus sign before a literal is an operator, and an index of this form
is always reported, but the value of a literal can be negative itself. Such an integer is no index
in the sense of the message (`Rule.IsIndex`), and still nothing is reported as long as its magnitude
is safe (`Number.isSafeInteger_integer_iff`).
-/

namespace ChapterLint

/-- A number is the value of a literal if it is in range. -/
theorem Value.ofJson_number_iff {x : Numeral} {v : Value} :
    Value.ofJson (.number x) = .ok v ↔ ∃ m, x.number? = some m ∧ v = .number m := by
  rw [Value.ofJson]
  cases x.number? with
  | none => simp
  | some m => simp [eq_comm]

/-- An integer is seen to be safe by its magnitude. -/
theorem Number.isSafeInteger_integer_iff (n : Int) :
    (integer n).toBinary64.isSafeInteger = true ↔ n.natAbs ≤ 2 ^ 53 - 1 := by
  apply Binary64.isSafeInteger_iff_le
  · intro hn
    exact Binary64.ofNat_eq (by omega)
  · intro hn
    exact Binary64.le_ofNat hn

theorem NumberToken.IsInteger.numeral_eq {x : NumberToken} (h : x.IsInteger) :
    x.numeral = ⟨x.negative, x.whole, [], none⟩ := by
  rw [numeral, h.1, h.2]
  rfl

/-- A text with a place for the index of an access is a tree exactly if the number there is in
range. It is then the same access by this number. -/
theorem Node.parse_index_iff {T : Template} {x₀ : NumberToken} {object : Node} {v : Value}
    {s s' : Span}
    (ht : parse (T.text x₀) = .ok (.memberExpression object (.literal v s) true s'))
    (hplace : HoleAt .value (.shape (.record .node)) T.document [.field "property", .field "value"])
    (x : NumberToken) (t : Node) :
    parse (T.text x) = .ok t ↔ ∃ m, x.numeral.number? = some m ∧
      t = .memberExpression object (.literal (.number m) s) true s' := by
  have hread : ∀ scalar, ScalarSort.value.read (.number x.numeral) = .ok scalar ↔
      ∃ v, Value.ofJson (.number x.numeral) = .ok v ∧ scalar = .value v := fun _ => fmap_eq_ok_iff
  rw [parse_text_iff ht hplace]
  simp only [hread, Value.ofJson_number_iff]
  constructor
  · rintro ⟨_, ⟨_, ⟨m, hm, rfl⟩, rfl⟩, rfl⟩
    exact ⟨m, hm, rfl⟩
  · rintro ⟨m, hm, rfl⟩
    exact ⟨_, ⟨_, ⟨m, hm, rfl⟩, rfl⟩, rfl⟩

namespace Rule

/-- What is reported about an index that is no safe integer. -/
def floatIndex (s : Span) : Diagnostic :=
  ⟨"Expected non negative integer as array index, got float.", s.range, .error,
    "member-expression"⟩

/-- A number as an index is looked at as a binary number. -/
theorem check_numberIndex {context : Context} (hchapter : 3 ≤ context.chapter.number)
    (parent : Option Node) (object : Node) (m : Number) (s s' : Span) (report : Report) :
    memberExpression.check context parent
        (.memberExpression object (.literal (.number m) s) true s') report =
      report ++ if m.toBinary64.isSafeInteger then [] else [floatIndex s] := by
  have hlate : context.chapter.beforeSource3 = false := decide_eq_false (Nat.not_lt.2 hchapter)
  have hwrong : wrongIndex? (.literal (.number m) s) =
      if m.toBinary64.isSafeInteger then none else some "float" := rfl
  show report ++ (memberFindings _ _).map _ = _
  unfold memberFindings
  dsimp only
  rw [hlate, if_neg nofun, if_neg nofun, hwrong]
  split_ifs <;> rfl

/-- **An integer as an index.** Let a text be read, with some number in a place of it, as an access
by an index, the index being the literal whose value is in this place. With an integer of any length
and sign there, the text is a tree exactly if the integer is below the first one that is out of
range, and then, from the third chapter on, the index is reported as a float exactly if the
magnitude of the integer is above `2 ^ 53 - 1`. -/
theorem check_integer_index {T : Template} {x₀ : NumberToken} {object : Node} {v : Value}
    {s s' : Span}
    (ht : Node.parse (T.text x₀) = .ok (.memberExpression object (.literal v s) true s'))
    (hplace : HoleAt .value (.shape (.record .node)) T.document [.field "property", .field "value"])
    (context : Context) (hchapter : 3 ≤ context.chapter.number) (parent : Option Node)
    (report : Report) {x : NumberToken} (hx : x.IsInteger) :
    (x.whole < Numeral.firstOverflow → ∃ m,
      Node.parse (T.text x) = .ok (.memberExpression object (.literal (.number m) s) true s') ∧
        memberExpression.check context parent
            (.memberExpression object (.literal (.number m) s) true s') report =
          report ++ if x.whole ≤ 2 ^ 53 - 1 then [] else [floatIndex s]) ∧
      (Numeral.firstOverflow ≤ x.whole → ∀ t, Node.parse (T.text x) ≠ .ok t) := by
  have hiff := Node.parse_index_iff ht hplace x
  simp only [hx.numeral_eq] at hiff
  constructor
  · intro hin
    obtain ⟨m, hm⟩ :=
      Option.isSome_iff_exists.1 ((Numeral.number?_isSome_iff x.negative x.whole).2 hin)
    refine ⟨m, (hiff _).2 ⟨m, hm, rfl⟩, ?_⟩
    rw [check_numberIndex hchapter]
    simp only [Numeral.isSafeInteger_iff hm]
  · intro hout t hparse
    obtain ⟨m, hm, -⟩ := (hiff t).1 hparse
    have hin : x.whole < Numeral.firstOverflow :=
      (Numeral.number?_isSome_iff _ _).1 (Option.isSome_iff_exists.2 ⟨m, hm⟩)
    exact absurd hout (Nat.not_le.2 hin)

/-- The members of an access `a[…]` before its index. -/
def accessMembers : List (Option String × Json) :=
  [(some "type", .text "MemberExpression"),
    (some "object", .record [("type", .text "Identifier"), ("name", .text "a"),
      ("loc", Span.document ⟨⟨1, 0⟩, ⟨1, 1⟩⟩)])]

/-- The members of an access `a[…]` behind its index. -/
def accessRest : List (Option String × Json) :=
  [(some "computed", .bool true), (some "loc", Span.document ⟨⟨1, 0⟩, ⟨1, 4⟩⟩)]

/-- The document of an access `a[…]`, the index being a literal of the given value. -/
def accessDocument (value : Json) : Json :=
  .object (accessMembers ++ (some "property", .object ([(some "type", .text "Literal")] ++
    (some "value", value) :: [(some "loc", Span.document ⟨⟨1, 2⟩, ⟨1, 3⟩⟩)])) :: accessRest)

set_option maxRecDepth 4000 in
/-- The text of an access `a[…]`, with a place for the value of the index. -/
def accessTemplate : Template where
  before := '{' ::
      accessMembers.flatMap (fun m => Json.renderString m.1 ++ ':' :: m.2.render ++ [','])
    ++ Json.renderString (some "property") ++ [':', '{']
    ++ Json.renderString (some "type") ++ ':' :: Json.renderString (some "Literal")
    ++ ',' :: Json.renderString (some "value") ++ [':']
  after := ',' :: Json.renderMembers [(some "loc", Span.document ⟨⟨1, 2⟩, ⟨1, 3⟩⟩)]
    ++ ',' :: Json.renderMembers accessRest
  stack := [.member [(some "type", .text "Literal")] (some "value"),
    .member accessMembers.reverse (some "property")]
  awaits := ⟨nofun, .inl rfl⟩
  ends := by rintro _ ⟨⟩; rfl

set_option maxRecDepth 4000 in
theorem run_accessTemplate (value : Json) :
    (Scan.put value accessTemplate.stack).run accessTemplate.after =
      .complete (accessDocument value) := by
  rfl

theorem holeAt_accessTemplate :
    HoleAt .value (.shape (.record .node)) accessTemplate.document
      [.field "property", .field "value"] := by
  have hdocument : accessTemplate.document = accessDocument .cut := by
    rw [Template.document, run_accessTemplate]
    rfl
  rw [hdocument]
  refine .member (f := ⟨"property", some (.record .node), false⟩) _ _ (by decide) ?_ rfl
    (.member (f := ⟨"value", none, true⟩) _ _ (by decide) ?_ rfl .here)
  · exact .tail _ (.head _)
  · exact .head _

/-- The access `a[…]` with a literal as its index. -/
def access (v : Value) : Node :=
  .memberExpression (.identifier ⟨"a", ⟨⟨1, 0⟩, ⟨1, 1⟩⟩⟩) (.literal v ⟨⟨1, 2⟩, ⟨1, 3⟩⟩) true
    ⟨⟨1, 0⟩, ⟨1, 4⟩⟩

theorem parse_accessTemplate :
    Node.parse (accessTemplate.text ⟨false, 0, [], none⟩) =
      .ok (access (.number (.integer 0))) := by
  rw [Node.parse_eq_ok_iff, Json.ofText, accessTemplate.run_text_eq (List.cons_ne_nil _ _),
    run_accessTemplate]
  exact ⟨rfl, rfl⟩

/-- The greatest safe integer is a good index in the third chapter. The next one is reported, and so
it is with a sign. -/
theorem check_integer_index_access :
    let check v := memberExpression.check { chapter := .source3 } none (access v) []
    (∃ m, Node.parse (accessTemplate.text ⟨false, 9007199254740991, [], none⟩) =
        .ok (access (.number m)) ∧ check (.number m) = []) ∧
      (∃ m, Node.parse (accessTemplate.text ⟨false, 9007199254740992, [], none⟩) =
        .ok (access (.number m)) ∧ check (.number m) = [floatIndex ⟨⟨1, 2⟩, ⟨1, 3⟩⟩]) ∧
      ∃ m, Node.parse (accessTemplate.text ⟨true, 9007199254740992, [], none⟩) =
        .ok (access (.number m)) ∧ check (.number m) = [floatIndex ⟨⟨1, 2⟩, ⟨1, 3⟩⟩] := by
  have hindex := fun (x : NumberToken) (hx : x.IsInteger) =>
    check_integer_index parse_accessTemplate holeAt_accessTemplate
      { chapter := .source3 } (Nat.le_refl 3) none [] hx
  exact ⟨(hindex _ ⟨rfl, rfl⟩).1 (by decide +kernel), (hindex _ ⟨rfl, rfl⟩).1 (by decide +kernel),
    (hindex _ ⟨rfl, rfl⟩).1 (by decide +kernel)⟩

/-- The greatest binary number, which is whole. -/
def greatestFinite : Nat := (Nat.pow 2 53 - 1) * Nat.pow 2 971

/-- The greatest binary number is no safe integer, but as an index it is not reported: from its
digits it does not come to a binary number in range, and so the text is no tree. -/
theorem parse_greatestFinite_index :
    2 ^ 53 - 1 < greatestFinite ∧
      Binary64.ofNat greatestFinite = greatestFinite * Binary64.one ∧
      greatestFinite * Binary64.one < Binary64.limit ∧
      Node.parse (accessTemplate.text ⟨false, 0, [], none⟩) = .ok (access (.number (.integer 0))) ∧
      ∀ t, Node.parse (accessTemplate.text ⟨false, greatestFinite, [], none⟩) ≠ .ok t := by
  have hnone : (NumberToken.numeral ⟨false, greatestFinite, [], none⟩).number? = none := by
    decide +kernel
  refine ⟨by decide +kernel, by decide +kernel, by decide +kernel, parse_accessTemplate, ?_⟩
  intro t ht
  obtain ⟨m, hm, -⟩ := (Node.parse_index_iff parse_accessTemplate holeAt_accessTemplate _ t).1 ht
  rw [hnone] at hm
  cases hm

/-! ## Signs -/

/-- What the message asks of an index: an integer that is not negative, up to the greatest safe
one. -/
def IsIndex (n : Int) : Prop := 0 ≤ n ∧ n ≤ 2 ^ 53 - 1

/-- A negative integer whose magnitude is safe. -/
def SafeNegative (n : Int) : Prop := -(2 ^ 53 - 1) ≤ n ∧ n < 0

theorem natAbs_le_iff (n : Int) : n.natAbs ≤ 2 ^ 53 - 1 ↔ IsIndex n ∨ SafeNegative n := by
  unfold IsIndex SafeNegative
  omega

/-- **Which integers pass as an index.** Let the index of an access be a literal whose value is an
integer, in the third chapter or a later one. The rule is silent exactly if the integer is what the
message asks for, or is negative with a safe magnitude. All other integers, the lesser ones and the
greater ones, are reported once, at the index. -/
theorem check_whole_index (context : Context) (hchapter : 3 ≤ context.chapter.number)
    (parent : Option Node) (object : Node) (n : Int) (s s' : Span) (report : Report) :
    let checked := memberExpression.check context parent
      (.memberExpression object (.literal (.number (.integer n)) s) true s') report
    (checked = report ↔ IsIndex n ∨ SafeNegative n) ∧
      (¬ (IsIndex n ∨ SafeNegative n) → checked = report ++ [floatIndex s]) := by
  intro checked
  have hchecked : checked =
      report ++ if (Number.integer n).toBinary64.isSafeInteger then [] else [floatIndex s] :=
    check_numberIndex hchapter parent object (.integer n) s s' report
  rw [← natAbs_le_iff, ← Number.isSafeInteger_integer_iff, hchecked]
  by_cases hsafe : (Number.integer n).toBinary64.isSafeInteger = true
  · simp [hsafe]
  · simp [hsafe]

/-- The greatest safe integer passes. The next one is reported, and so are the greatest and the
least one of 64 bits. -/
theorem check_whole_index_access :
    let context : Context := { chapter := .source4 }
    let checked n := memberExpression.check context none (access (.number (.integer n))) []
    3 ≤ context.chapter.number ∧ checked (2 ^ 53 - 1) = [] ∧
      ∀ n ∈ [2 ^ 53, 2 ^ 64 - 1, -2 ^ 63], checked n = [floatIndex ⟨⟨1, 2⟩, ⟨1, 3⟩⟩] := by
  intro context checked
  have hchapter : 3 ≤ context.chapter.number := by decide
  have hindex := fun n : Int => check_whole_index context hchapter none
    (.identifier ⟨"a", ⟨⟨1, 0⟩, ⟨1, 1⟩⟩⟩) n ⟨⟨1, 2⟩, ⟨1, 3⟩⟩ ⟨⟨1, 0⟩, ⟨1, 4⟩⟩ []
  refine ⟨hchapter, (hindex _).1.2 (.inl ⟨by decide, by decide⟩), fun n hn => (hindex n).2 ?_⟩
  rw [← natAbs_le_iff]
  revert n
  decide

/-- The index `-1`, as the value of a literal, is no index in the sense of the message. The text is
a tree, and in the third chapter nothing is reported. With the minus sign as an operator the same
index is reported. -/
theorem check_negative_literal_silent :
    let context : Context := { chapter := .source3 }
    let s : Span := ⟨⟨1, 2⟩, ⟨1, 3⟩⟩
    let negated : Node := .unaryExpression "-" (.literal (.number (.integer 1)) s) s
    Node.parse (accessTemplate.text ⟨true, 1, [], none⟩) =
        .ok (access (.number (.integer (-1)))) ∧
      ¬ IsIndex (-1) ∧
      memberExpression.check context none (access (.number (.integer (-1)))) [] = [] ∧
      memberExpression.check context none (.memberExpression .unknown negated true s) [] =
        [⟨"Expected non negative integer as array index, got negative number.", s.range, .error,
          "member-expression"⟩] := by
  intro context s negated
  have hnumber : (NumberToken.numeral ⟨true, 1, [], none⟩).number? = some (.integer (-1)) := by
    decide +kernel
  have hsafe : (Number.integer (-1)).toBinary64.isSafeInteger = true :=
    (Number.isSafeInteger_integer_iff (-1)).2 (by decide)
  have hchapter : 3 ≤ context.chapter.number := Nat.le_refl 3
  refine ⟨?_, fun h => absurd h.1 (by decide), ?_, rfl⟩
  · rw [Node.parse_index_iff parse_accessTemplate holeAt_accessTemplate]
    exact ⟨_, hnumber, rfl⟩
  · unfold access
    rw [check_numberIndex hchapter, if_pos hsafe]
    rfl

end Rule

end ChapterLint
