import ChapterLint.Proofs.Tree.Document
import ChapterLint.Proofs.Tree.Parts

/-!
# Lines and columns

A number is read as a line or a column if it is written with digits alone and fits 32 bits, and then
as what it says. A number with a sign, a fraction or an exponent is refused whatever its value, and
one that is too great is never cut down to 32 bits, however many digits it has.

The way from the digits to the coordinate goes through the numbers of 64 bits and the binary
numbers. Only a plain numeral stands for an integer at all (`Numeral.eq_ofInt_of_number?`), so the
coordinates are the plain numerals of 32 bits (`readCoordinate_number_iff`).
`Node.parse_coordinate_iff` says so for every coordinate of every tree, in the text that it is read
from.
-/

namespace ChapterLint

/-- Only the numeral of an integer stands for it. -/
theorem Numeral.eq_ofInt_of_number? {x : Numeral} {n : Int} (h : x.number? = some (.integer n)) :
    x = .ofInt n := by
  obtain ⟨negative, whole, fraction, exponent⟩ := x
  have hplain : ∀ b : Bool, isPlain ⟨b, whole, fraction, exponent⟩ = true →
      fraction = [] ∧ exponent = none := by
    intro b hb
    simpa [isPlain] using hb
  unfold number? at h
  split_ifs at h with hnatural hnegative
  · simp only [Bool.and_eq_true, Bool.not_eq_true'] at hnatural
    obtain ⟨⟨hp, rfl⟩, -⟩ := hnatural
    obtain ⟨rfl, rfl⟩ := hplain _ hp
    cases h
    simp [ofInt]
  · simp only [Bool.and_eq_true, decide_eq_true_iff] at hnegative
    obtain ⟨⟨⟨hp, rfl⟩, hpos⟩, -⟩ := hnegative
    obtain ⟨rfl, rfl⟩ := hplain _ hp
    cases h
    simp [ofInt, hpos]
  · obtain ⟨units, -, hreal⟩ := Option.map_eq_some_iff.1 h
    cases hreal

theorem Json.found_of_asInteger {low high : Int} {e : Expected} {j : Json} {n : Int}
    (h : j.asInteger low high e = .ok n) :
    j.found = .ok (.number (.integer n)) ∧ low ≤ n ∧ n ≤ high := by
  obtain ⟨u, hu, h⟩ := bind_eq_ok_iff.1 h
  split at h
  · split_ifs at h with hrange
    obtain rfl := pure_eq_ok_iff.1 h
    exact ⟨hu, hrange⟩
  · cases h

/-- The numerals that are read as coordinates. -/
theorem readCoordinate_number_iff {x : Numeral} {v : UInt32} :
    readCoordinate (.number x) = .ok v ↔ x = .ofInt v.toNat := by
  constructor
  · intro h
    obtain ⟨n, hn, hv⟩ := bind_eq_ok_iff.1 h
    obtain rfl := pure_eq_ok_iff.1 hv
    obtain ⟨hfound, hlow, hhigh⟩ := Json.found_of_asInteger hn
    have hgreatest : greatestCoordinate = 2 ^ 32 - 1 := rfl
    have hlt : n.toNat < 2 ^ 32 := by omega
    have hvalue : ((UInt32.ofNat n.toNat).toNat : Int) = n := by
      rw [UInt32.toNat_ofNat_of_lt' hlt]
      omega
    rw [hvalue]
    cases hnumber : x.number? with
    | none =>
      rw [Json.found, hnumber] at hfound
      cases hfound
    | some y =>
      rw [Json.found, hnumber] at hfound
      cases hfound
      exact Numeral.eq_ofInt_of_number? hnumber
  · rintro rfl
    exact (isDocument_coordinate v).read_eq

/-- The numbers whose numeral is that of a natural number. -/
theorem NumberToken.numeral_eq_ofInt_iff {y : NumberToken} {n : Nat} :
    y.numeral = .ofInt n ↔ y.IsPlain ∧ n = y.whole := by
  obtain ⟨negative, whole, fraction, power⟩ := y
  simp only [numeral, Numeral.ofInt, IsPlain, Numeral.mk.injEq, Int.natAbs_natCast,
    List.map_eq_nil_iff, Option.map_eq_none_iff,
    decide_eq_false (Int.not_lt.2 (Int.natCast_nonneg n))]
  tauto

namespace Node

/-- **A coordinate is what its digits say.** Let a text be read as a tree, and take a line or a
column that is read somewhere in it. With any other number in its place, the text is read as a tree
exactly if the number is written with digits alone and is at most `2 ^ 32 - 1`. The tree is then the
same, but for this line or column, which is the number. -/
theorem parse_coordinate_iff {T : Template} {x : NumberToken} {t : Node}
    (ht : parse (T.text x) = .ok t) {path : List Turn}
    (hplace : HoleAt .coordinate (.shape (.record .node)) T.document path) (y : NumberToken)
    (t' : Node) :
    parse (T.text y) = .ok t' ↔
      y.IsPlain ∧ y.whole ≤ 2 ^ 32 - 1 ∧
        ∃ v : UInt32, v.toNat = y.whole ∧ t' = t.put (.coordinate v) path := by
  have hread : ∀ scalar, ScalarSort.coordinate.read (.number y.numeral) = .ok scalar ↔
      ∃ v : UInt32, y.numeral = .ofInt v.toNat ∧ scalar = .coordinate v := by
    intro scalar
    simp only [← readCoordinate_number_iff]
    exact fmap_eq_ok_iff
  rw [parse_text_iff ht hplace]
  simp only [hread, NumberToken.numeral_eq_ofInt_iff]
  constructor
  · rintro ⟨_, ⟨v, ⟨hplain, hv⟩, rfl⟩, rfl⟩
    have hlt := v.toNat_lt
    exact ⟨hplain, by omega, v, hv, rfl⟩
  · rintro ⟨hplain, -, v, hv, rfl⟩
    exact ⟨_, ⟨v, ⟨hplain, hv⟩, rfl⟩, rfl⟩

/-- The text of a `break` in the first line, with a place for the line where it ends. -/
def breakTemplate : Template where
  before := ['['] ++ Json.renderString (some "BreakStatement") ++
    [',', '[', '[', '1', ',', '0', ']', ',', '[']
  after := [' ', ',', '6', ']', ']', ']']
  stack := [.array [], .array [.array [.natural 1, .natural 0]], .array [.text "BreakStatement"]]
  awaits := ⟨nofun, .inr rfl⟩
  ends := by rintro _ ⟨⟩; rfl

theorem holeAt_breakTemplate :
    HoleAt .coordinate (.shape (.record .node)) breakTemplate.document
      [.field "loc", .field "end", .field "line"] := by
  have hdocument : breakTemplate.document = .array [.text "BreakStatement",
      .array [.array [.natural 1, .natural 0], .array [.cut, .natural 6]]] := rfl
  have hposition : HoleAt .coordinate (.shape (.record .position)) (.array [.cut, .natural 6])
      [.field "line"] :=
    .column (f := ⟨"line", none, false⟩) [] [.natural 6] (by decide) rfl rfl .here
  have hspan : HoleAt .coordinate (.shape (.record .span))
      (.array [.array [.natural 1, .natural 0], .array [.cut, .natural 6]])
      [.field "end", .field "line"] :=
    .column (f := ⟨"end", some (.record .position), false⟩) [.array [.natural 1, .natural 0]] []
      (by decide) rfl rfl hposition
  rw [hdocument]
  exact .column (f := ⟨"loc", some (.record .span), false⟩) [.text "BreakStatement"] []
    (by decide) rfl rfl hspan

/-- The greatest line is taken as it is. One that is greater by one is refused, and so is one with a
sign or with an exponent. -/
theorem parse_coordinate_break :
    parse (breakTemplate.text ⟨false, 1, [], none⟩) = .ok (.breakStatement ⟨⟨1, 0⟩, ⟨1, 6⟩⟩) ∧
      parse (breakTemplate.text ⟨false, 4294967295, [], none⟩) =
        .ok (.breakStatement ⟨⟨1, 0⟩, ⟨4294967295, 6⟩⟩) ∧
      (∀ t, parse (breakTemplate.text ⟨false, 4294967296, [], none⟩) ≠ .ok t) ∧
      (∀ t, parse (breakTemplate.text ⟨true, 0, [], none⟩) ≠ .ok t) ∧
      ∀ t, parse (breakTemplate.text ⟨false, 1, [], some ⟨false, none, 0, []⟩⟩) ≠ .ok t := by
  have hparse : parse (breakTemplate.text ⟨false, 1, [], none⟩) =
      .ok (.breakStatement ⟨⟨1, 0⟩, ⟨1, 6⟩⟩) := by
    have hofText : Json.ofText (breakTemplate.text ⟨false, 1, [], none⟩) =
        ⟨.array [.text "BreakStatement",
          .array [.array [.natural 1, .natural 0], .array [.natural 1, .natural 6]]], false⟩ := by
      rw [Json.ofText, breakTemplate.run_text_eq (List.cons_ne_nil _ _)]
      rfl
    rw [parse_eq_ok_iff, hofText]
    exact ⟨rfl, rfl⟩
  have hiff := parse_coordinate_iff hparse holeAt_breakTemplate
  refine ⟨hparse, ?_, fun t ht => ?_, fun t ht => ?_, fun t ht => ?_⟩
  · exact (hiff _ _).2 ⟨⟨rfl, rfl, rfl⟩, by decide, 4294967295, rfl, rfl⟩
  · exact absurd ((hiff _ t).1 ht).2.1 (by decide)
  · exact absurd ((hiff _ t).1 ht).1.1 (by decide)
  · exact absurd ((hiff _ t).1 ht).1.2.2 (Option.some_ne_none _)

end Node

end ChapterLint
