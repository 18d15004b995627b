import ChapterLint.Json.Numeral
import ChapterLint.Proofs.Decimal.Rounding

/-!
# Numerals of integers

The numeral of an integer, of any number of digits, comes to its binary number on one of three ways:
through a number of 64 bits without a sign, through one with a sign, or from its leading digits and
a power of ten. All three are rounded, and all three keep apart what is below `2 ^ 53` and what is
not (`isSafeInteger_iff`).

The third way is also where numerals get out of range. The product of the leading digits with the
power of ten is rounded once for each factor and once more, so the first numeral that is out of
range is not far from the greatest binary number, but below it (`number?_isSome_iff`).
-/

namespace ChapterLint

open Binary64

/-- A power of ten takes a magnitude out of range. -/
theorem Binary64.scale_eq_none_iff {f e : Nat} :
    scale f (.ofNat e) = none ↔
      f ≠ 0 ∧ (greatestPower < e ∨ limit ≤ product f (powerOfTen e)) := by
  unfold scale
  dsimp only
  split_ifs with hf he hx
  · simp [hf]
  · simp [hf, he]
  · simp [he, hx]
  · simp [hf, Nat.not_lt.1 hx]

theorem Binary64.eq_product_of_scale {f e x : Nat} (hf : f ≠ 0)
    (h : scale f (.ofNat e) = some x) : x = product f (powerOfTen e) := by
  unfold scale at h
  dsimp only at h
  rw [if_neg hf] at h
  split_ifs at h
  exact (Option.some_inj.1 h).symm

namespace Numeral

/-! ## Leading digits -/

/-- The leading digits fit 64 bits, the others are those that follow, and if there are others, the
leading digits are as many as fit. -/
theorem leadingDigits_spec (n : Nat) :
    (leadingDigits n).1 ≤ greatestWord ∧
      (leadingDigits n).1 * 10 ^ (leadingDigits n).2 ≤ n ∧
      n < ((leadingDigits n).1 + 1) * 10 ^ (leadingDigits n).2 ∧
      ((leadingDigits n).2 = 0 ∨ greatestWord / 10 ≤ (leadingDigits n).1) := by
  fun_induction leadingDigits n with
  | case1 n hfits => simp [hfits]
  | case2 n hbig m k hrest ih =>
    rw [hrest] at ih
    obtain ⟨hm, hle, hlt, hmost⟩ := ih
    dsimp only at hm hle hlt hmost ⊢
    refine ⟨hm, ?_, ?_, .inr ?_⟩
    · rw [Nat.pow_succ, ← Nat.mul_assoc]
      exact (Nat.le_div_iff_mul_le (by decide)).1 hle
    · rw [Nat.pow_succ, ← Nat.mul_assoc]
      exact (Nat.div_lt_iff_lt_mul (by decide)).1 hlt
    · rcases hmost with rfl | hmost
      · rw [Nat.pow_zero, Nat.mul_one] at hle hlt
        have hdigits : m = n / 10 := by omega
        rw [hdigits]
        exact Nat.div_le_div_right (Nat.le_of_not_le hbig)
      · exact hmost

/-- The leading digits of a number of 54 bits or more are not below `2 ^ 53` either. -/
theorem le_leadingDigits {n : Nat} (h : 2 ^ 53 ≤ n) : 2 ^ 53 ≤ (leadingDigits n).1 := by
  obtain ⟨-, -, hlt, hzero | hmost⟩ := leadingDigits_spec n
  · rw [hzero, Nat.pow_zero, Nat.mul_one] at hlt
    omega
  · exact Nat.le_trans (by decide) hmost

theorem ofNat_leadingDigits_ne_zero {n : Nat} (h : 2 ^ 53 ≤ n) : ofNat (leadingDigits n).1 ≠ 0 := by
  have hle := le_ofNat (le_leadingDigits h)
  have hone := Binary64.one_pos
  omega

theorem magnitude?_eq (negative : Bool) (n : Nat) :
    magnitude? ⟨negative, n, [], none⟩ =
      scale (ofNat (leadingDigits n).1) (.ofNat (leadingDigits n).2) := by
  have hexponent : (((leadingDigits n).2 : Int) - (0 : Nat) + (none : Option Int).getD 0) =
      .ofNat (leadingDigits n).2 := by simp
  rw [← hexponent]
  rfl

/-! ## The range -/

/-- The first whole number whose numeral is out of range. The greatest binary number is a little
greater. -/
def firstOverflow : Nat := 17976931348623156225 * 10 ^ 289

variable {m k : Nat}

/-- What is below the first number out of range stays in range. -/
theorem product_lt_limit (hfits : m ≤ greatestWord) (hmost : k = 0 ∨ greatestWord / 10 ≤ m)
    (h : m * 10 ^ k < firstOverflow) :
    k ≤ greatestPower ∧ product (ofNat m) (powerOfTen k) < limit := by
  have hk : k ≤ 289 := by
    by_contra hgreat
    have hm : greatestWord / 10 ≤ m := hmost.resolve_left (by omega)
    have hbound : ∀ e ≤ k, greatestWord / 10 * Nat.pow 10 e ≤ m * 10 ^ k :=
      fun e he => Nat.mul_le_mul hm (Nat.pow_le_pow_right (by decide) he)
    have hleast : firstOverflow ≤ greatestWord / 10 * Nat.pow 10 290 := by decide +kernel
    refine absurd h (Nat.not_lt.2 (hleast.trans ?_))
    apply hbound
    omega
  refine ⟨hk.trans (by decide), ?_⟩
  rcases Nat.lt_or_eq_of_le hk with hlt | rfl
  · have hlimit : product (ofNat greatestWord) (powerOfTen 288) < limit := by decide +kernel
    refine (product_mono (ofNat_mono hfits) (powerOfTen_mono ?_)).trans_lt hlimit
    omega
  · have hlimit : product (ofNat 17976931348623156224) (powerOfTen 289) < limit := by
      decide +kernel
    have hm : m < 17976931348623156225 := by
      unfold firstOverflow at h
      exact Nat.lt_of_mul_lt_mul_right h
    refine (product_mono (ofNat_mono ?_) (Nat.le_refl _)).trans_lt hlimit
    omega

/-- What is not below it is out of range. -/
theorem limit_le_product (hfits : m ≤ greatestWord) (hmost : k = 0 ∨ greatestWord / 10 ≤ m)
    (h : firstOverflow < (m + 1) * 10 ^ k) :
    greatestPower < k ∨ limit ≤ product (ofNat m) (powerOfTen k) := by
  have hk : 289 ≤ k := by
    by_contra hsmall
    have hbound : ∀ e, k ≤ e → (m + 1) * 10 ^ k ≤ (greatestWord + 1) * Nat.pow 10 e :=
      fun e he => Nat.mul_le_mul (Nat.succ_le_succ hfits) (Nat.pow_le_pow_right (by decide) he)
    have hgreatest : (greatestWord + 1) * Nat.pow 10 288 ≤ firstOverflow := by decide +kernel
    refine absurd h (Nat.not_lt.2 (Nat.le_trans ?_ hgreatest))
    apply hbound
    omega
  rcases Nat.lt_or_eq_of_le hk with hgreat | rfl
  · have hlimit : limit ≤ product (ofNat (greatestWord / 10)) (powerOfTen 290) := by
      decide +kernel
    have hm : greatestWord / 10 ≤ m := hmost.resolve_left (by omega)
    exact .inr (hlimit.trans (product_mono (ofNat_mono hm) (powerOfTen_mono hgreat)))
  · have hlimit : limit ≤ product (ofNat 17976931348623156225) (powerOfTen 289) := by
      decide +kernel
    have hm : 17976931348623156225 < m + 1 := by
      unfold firstOverflow at h
      exact Nat.lt_of_mul_lt_mul_right h
    exact .inr (hlimit.trans (product_mono (ofNat_mono (Nat.le_of_lt_succ hm)) (Nat.le_refl _)))

theorem magnitude?_eq_none_iff (negative : Bool) (n : Nat) :
    magnitude? ⟨negative, n, [], none⟩ = none ↔ firstOverflow ≤ n := by
  obtain ⟨hfits, hle, hlt, hmost⟩ := leadingDigits_spec n
  rw [magnitude?_eq, scale_eq_none_iff]
  constructor
  · rintro ⟨-, hout⟩
    by_contra hn
    obtain ⟨hk, hin⟩ := product_lt_limit hfits hmost (hle.trans_lt (Nat.lt_of_not_le hn))
    rcases hout with hgreat | hlimit
    · omega
    · exact absurd hin (Nat.not_lt.2 hlimit)
  · intro hn
    have hsafe : 2 ^ 53 ≤ n := Nat.le_trans (by decide +kernel) hn
    exact ⟨ofNat_leadingDigits_ne_zero hsafe, limit_le_product hfits hmost (hn.trans_lt hlt)⟩

/-- **The numerals of integers that are in range.** -/
theorem number?_isSome_iff (negative : Bool) (n : Nat) :
    (number? ⟨negative, n, [], none⟩).isSome = true ↔ n < firstOverflow := by
  have hword : greatestWord < firstOverflow := by decide +kernel
  have hsigned : Nat.pow 2 63 < firstOverflow := by decide +kernel
  unfold number?
  split_ifs with hnatural hnegative
  · simp only [Bool.and_eq_true, decide_eq_true_iff] at hnatural
    simp [hnatural.2.trans_lt hword]
  · simp only [Bool.and_eq_true, decide_eq_true_iff] at hnegative
    simp [hnegative.2.trans_lt hsigned]
  · rw [Option.isSome_map, ← Nat.not_le, ← magnitude?_eq_none_iff negative,
      Option.isSome_iff_ne_none]

/-! ## Safe integers -/

/-- An integer below `2 ^ 53` comes to its own binary number, whatever its sign. -/
theorem units_eq {negative : Bool} {n : Nat} {x : Number} (hn : n ≤ 2 ^ 53 - 1)
    (h : number? ⟨negative, n, [], none⟩ = some x) : x.toBinary64.units = n * one := by
  have hexact : ofNat n = n * one := ofNat_eq (by omega)
  unfold number? at h
  split_ifs at h with hnatural hnegative
  · cases h
    exact hexact
  · cases h
    show ofNat (-(n : Int)).natAbs = n * one
    rw [Int.natAbs_neg, Int.natAbs_natCast, hexact]
  · -- only the negative zero is left
    obtain rfl : negative = true := by
      by_contra hpositive
      have hword : n ≤ greatestWord := hn.trans (by decide)
      exact hnatural (by simp [isPlain, Bool.eq_false_of_not_eq_true hpositive, hword])
    obtain rfl : n = 0 := by
      by_contra hne
      have hbound : n ≤ Nat.pow 2 63 := hn.trans (by decide)
      exact hnegative (by simp [isPlain, Nat.pos_of_ne_zero hne, hbound])
    have hzero : magnitude? ⟨true, 0, [], none⟩ = some 0 := by decide +kernel
    rw [hzero] at h
    cases h
    exact (Nat.zero_mul one).symm

/-- An integer from `2 ^ 53` on comes to a binary number from there on. -/
theorem le_units {negative : Bool} {n : Nat} {x : Number} (hn : 2 ^ 53 ≤ n)
    (h : number? ⟨negative, n, [], none⟩ = some x) : 2 ^ 53 * one ≤ x.toBinary64.units := by
  unfold number? at h
  split_ifs at h with hnatural hnegative
  · cases h
    exact le_ofNat hn
  · cases h
    show 2 ^ 53 * one ≤ ofNat (-(n : Int)).natAbs
    rw [Int.natAbs_neg, Int.natAbs_natCast]
    exact le_ofNat hn
  · obtain ⟨units, hunits, rfl⟩ := Option.map_eq_some_iff.1 h
    rw [magnitude?_eq] at hunits
    show 2 ^ 53 * one ≤ units
    rw [eq_product_of_scale (ofNat_leadingDigits_ne_zero hn) hunits]
    exact le_product (le_ofNat (le_leadingDigits hn)) (one_le_powerOfTen _)

/-- **Being safe is seen before and after rounding alike.** The numeral of an integer stands for a
safe integer exactly if the integer is safe. -/
theorem isSafeInteger_iff {negative : Bool} {n : Nat} {x : Number}
    (h : number? ⟨negative, n, [], none⟩ = some x) :
    x.toBinary64.isSafeInteger = true ↔ n ≤ 2 ^ 53 - 1 :=
  isSafeInteger_iff_le (fun hn => units_eq hn h) fun hn => le_units hn h

end Numeral

end ChapterLint
