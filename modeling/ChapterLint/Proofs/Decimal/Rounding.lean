import Mathlib.Tactic.Ring
import ChapterLint.Decimal.Binary64

/-!
# Rounding keeps the order

Whole numbers that differ may be rounded to the same magnitude, but never in the wrong order
(`round_mono`): between two powers of two the magnitudes are the multiples of one step, and the
powers of two are magnitudes themselves. Whole numbers up to `2 ^ 53` are magnitudes (`ofNat_eq`).
So a whole number is rounded to `2 ^ 53` or above exactly if it is not below it, and a product of
such a magnitude with one of at least one stays there (`le_product`).
-/

namespace ChapterLint

namespace Binary64

/-! ## The nearest whole number -/

theorem div_le_nearest (num den : Nat) : num / den ≤ nearest num den := by
  unfold nearest
  dsimp only
  split_ifs <;> omega

theorem nearest_le_succ (num den : Nat) : nearest num den ≤ num / den + 1 := by
  unfold nearest
  dsimp only
  split_ifs <;> omega

theorem le_nearest {num den m : Nat} (hden : 0 < den) (h : m * den ≤ num) : m ≤ nearest num den :=
  ((Nat.le_div_iff_mul_le hden).2 h).trans (div_le_nearest num den)

theorem nearest_le {num den m : Nat} (hden : 0 < den) (h : num < m * den) :
    nearest num den ≤ m :=
  (nearest_le_succ num den).trans ((Nat.div_lt_iff_lt_mul hden).2 h)

theorem nearest_mono {num num' : Nat} (h : num ≤ num') (den : Nat) :
    nearest num den ≤ nearest num' den := by
  rcases Nat.lt_or_eq_of_le (Nat.div_le_div_right (c := den) h) with hlt | heq
  · exact (nearest_le_succ num den).trans (hlt.trans_le (div_le_nearest num' den))
  · -- the same whole part, so the remainders are in order
    have hrest : num % den ≤ num' % den := by
      have hnum := Nat.div_add_mod num den
      have hnum' := Nat.div_add_mod num' den
      rw [heq] at hnum
      omega
    unfold nearest
    dsimp only
    rw [heq]
    split_ifs <;> omega

/-! ## Magnitudes -/

/-- Behind its place a count of units has at most 53 binary digits. -/
theorem lt_pow_place (units : Nat) : units < 2 ^ (53 + place units) := by
  have hlog := Nat.lt_log2_self (n := units)
  refine hlog.trans_le (Nat.pow_le_pow_right (by decide) ?_)
  unfold place
  omega

/-- If its place is not the last one, it has as many. -/
theorem pow_place_le {units : Nat} (h : 0 < place units) : 2 ^ (52 + place units) ≤ units := by
  unfold place at h ⊢
  have hne : units ≠ 0 := by
    rintro rfl
    simp at h
  have hexponent : 52 + (units.log2 - 52) = units.log2 := by omega
  rw [hexponent]
  exact Nat.log2_self_le hne

theorem place_mono {units units' : Nat} (h : units ≤ units') : place units ≤ place units' := by
  unfold place
  rcases Nat.eq_zero_or_pos units with rfl | hpos
  · simp
  · have hle : units.log2 < units'.log2 + 1 :=
      (Nat.log2_lt (by omega)).2 (h.trans_lt Nat.lt_log2_self)
    omega

theorem round_eq (num den : Nat) :
    round num den =
      nearest num (den * 2 ^ place (num / den)) * 2 ^ place (num / den) := rfl

theorem round_le {num den : Nat} (hden : 0 < den) :
    round num den ≤ 2 ^ (53 + place (num / den)) := by
  have hstep := Nat.two_pow_pos (place (num / den))
  have hlt : num < 2 ^ 53 * (den * 2 ^ place (num / den)) := by
    have hlt := (Nat.div_lt_iff_lt_mul hden).1 (lt_pow_place (num / den))
    rw [Nat.pow_add] at hlt
    calc num < 2 ^ 53 * 2 ^ place (num / den) * den := hlt
      _ = 2 ^ 53 * (den * 2 ^ place (num / den)) := by ring
  rw [round_eq, Nat.pow_add]
  exact Nat.mul_le_mul_right _ (nearest_le (Nat.mul_pos hden hstep) hlt)

theorem le_round {num den : Nat} (hden : 0 < den) (hplace : 0 < place (num / den)) :
    2 ^ (52 + place (num / den)) ≤ round num den := by
  have hstep := Nat.two_pow_pos (place (num / den))
  have hle : 2 ^ 52 * (den * 2 ^ place (num / den)) ≤ num := by
    have hle := (Nat.le_div_iff_mul_le hden).1 (pow_place_le hplace)
    rw [Nat.pow_add] at hle
    calc 2 ^ 52 * (den * 2 ^ place (num / den)) = 2 ^ 52 * 2 ^ place (num / den) * den := by ring
      _ ≤ num := hle
  rw [round_eq, Nat.pow_add]
  exact Nat.mul_le_mul_right _ (le_nearest (Nat.mul_pos hden hstep) hle)

/-- **Rounding keeps the order.** -/
theorem round_mono {num num' den : Nat} (hden : 0 < den) (h : num ≤ num') :
    round num den ≤ round num' den := by
  have hplace := place_mono (Nat.div_le_div_right (c := den) h)
  rcases Nat.lt_or_eq_of_le hplace with hlt | heq
  · -- a power of two lies between
    have hbetween : 2 ^ (53 + place (num / den)) ≤ 2 ^ (52 + place (num' / den)) :=
      Nat.pow_le_pow_right (by decide) (by omega)
    exact ((round_le hden).trans hbetween).trans (le_round hden (by omega))
  · rw [round_eq, round_eq, heq]
    exact Nat.mul_le_mul_right _ (nearest_mono h _)

/-- What is a multiple of its own step is not rounded. -/
theorem round_eq_self {units den : Nat} (hden : 0 < den) (h : 2 ^ place units ∣ units) :
    round (units * den) den = units := by
  obtain ⟨m, hm⟩ := h
  have hstep := Nat.two_pow_pos (place units)
  have hunits : units * den = m * (den * 2 ^ place units) := by
    calc units * den = 2 ^ place units * m * den := by rw [← hm]
      _ = m * (den * 2 ^ place units) := by ring
  rw [round_eq, Nat.mul_div_cancel _ hden, hunits, nearest_mul_self (Nat.mul_pos hden hstep),
    Nat.mul_comm, ← hm]

/-! ## Whole numbers -/

theorem one_pos : 0 < one := by
  have hpow : ∀ e, 0 < Nat.pow 2 e := Nat.two_pow_pos
  unfold one
  apply hpow

theorem ofNat_mono {m n : Nat} (h : m ≤ n) : ofNat m ≤ ofNat n :=
  round_mono Nat.one_pos (Nat.mul_le_mul_right one h)

theorem powerOfTen_mono {k l : Nat} (h : k ≤ l) : powerOfTen k ≤ powerOfTen l :=
  ofNat_mono (Nat.pow_le_pow_right (by decide) h)

theorem product_mono {a a' b b' : Nat} (ha : a ≤ a') (hb : b ≤ b') : product a b ≤ product a' b' :=
  round_mono one_pos (Nat.mul_le_mul ha hb)

/-- With 53 binary digits before the zeros, or with one behind 53 zeros, a count of units is a
multiple of its step. -/
theorem two_pow_place_dvd {n : Nat} (h : n ≤ 2 ^ 53) (e : Nat) :
    2 ^ place (n * 2 ^ e) ∣ n * 2 ^ e := by
  rcases Nat.lt_or_eq_of_le h with hlt | rfl
  · have hplace : place (n * 2 ^ e) ≤ e := by
      unfold place
      rcases Nat.eq_zero_or_pos n with rfl | hpos
      · simp
      · have hne : n * 2 ^ e ≠ 0 := Nat.ne_of_gt (Nat.mul_pos hpos (Nat.two_pow_pos e))
        have hbelow : n * 2 ^ e < 2 ^ (53 + e) := by
          rw [Nat.pow_add]
          exact Nat.mul_lt_mul_of_pos_right hlt (Nat.two_pow_pos e)
        have hlog := (Nat.log2_lt hne).2 hbelow
        omega
    exact Dvd.dvd.mul_left (Nat.pow_dvd_pow 2 hplace) n
  · rw [← Nat.pow_add, place, Nat.log2_two_pow]
    exact Nat.pow_dvd_pow 2 (by omega)

theorem two_pow_place_mul_one_dvd {n : Nat} (h : n ≤ 2 ^ 53) : 2 ^ place (n * one) ∣ n * one := by
  have hpow : ∀ e, 2 ^ place (n * Nat.pow 2 e) ∣ n * Nat.pow 2 e := two_pow_place_dvd h
  unfold one
  apply hpow

/-- Whole numbers up to `2 ^ 53` are not rounded. -/
theorem ofNat_eq {n : Nat} (h : n ≤ 2 ^ 53) : ofNat n = n * one := by
  have hround := round_eq_self Nat.one_pos (two_pow_place_mul_one_dvd h)
  rwa [Nat.mul_one] at hround

theorem le_ofNat {n : Nat} (h : 2 ^ 53 ≤ n) : 2 ^ 53 * one ≤ ofNat n :=
  ofNat_eq (Nat.le_refl _) ▸ ofNat_mono h

theorem one_le_powerOfTen (k : Nat) : one ≤ powerOfTen k := by
  have hzero : powerOfTen 0 = one := by
    have hpow : Nat.pow 10 0 = 1 := rfl
    rw [powerOfTen, hpow, ofNat_eq (by decide), Nat.one_mul]
  exact hzero ▸ powerOfTen_mono (Nat.zero_le k)

/-- A magnitude from `2 ^ 53` on stays there if it is multiplied. -/
theorem le_product {a b : Nat} (ha : 2 ^ 53 * one ≤ a) (hb : one ≤ b) :
    2 ^ 53 * one ≤ product a b := by
  have hself : product (2 ^ 53 * one) one = 2 ^ 53 * one :=
    round_eq_self one_pos (two_pow_place_mul_one_dvd (Nat.le_refl _))
  exact hself ▸ product_mono ha hb

/-- Being a safe integer is lost at `2 ^ 53`. -/
theorem isSafeInteger_eq_false {x : Binary64} (h : 2 ^ 53 * one ≤ x.units) :
    x.isSafeInteger = false := by
  have hsafe : greatestSafe * one < 2 ^ 53 * one :=
    Nat.mul_lt_mul_of_pos_right (by decide) one_pos
  rw [isSafeInteger, Bool.and_eq_false_iff]
  exact .inr (decide_eq_false (Nat.not_le.2 (hsafe.trans_le h)))

theorem isSafeInteger_eq_true {x : Binary64} {n : Nat} (hn : n ≤ 2 ^ 53 - 1)
    (h : x.units = n * one) : x.isSafeInteger = true := by
  have hsafe : n * one ≤ greatestSafe * one := Nat.mul_le_mul_right one hn
  rw [isSafeInteger, isInteger, h, Nat.mul_mod_left, Bool.and_eq_true]
  exact ⟨rfl, decide_eq_true hsafe⟩

/-- A number that comes from a whole one, exactly below `2 ^ 53` and without falling below from
there on, is safe exactly if the whole one is. -/
theorem isSafeInteger_iff_le {x : Binary64} {n : Nat} (hexact : n ≤ 2 ^ 53 - 1 → x.units = n * one)
    (hgreat : 2 ^ 53 ≤ n → 2 ^ 53 * one ≤ x.units) : x.isSafeInteger = true ↔ n ≤ 2 ^ 53 - 1 := by
  constructor
  · intro hsafe
    by_contra hn
    have hle := hgreat (by omega)
    rw [isSafeInteger_eq_false hle] at hsafe
    cases hsafe
  · intro hn
    exact isSafeInteger_eq_true hn (hexact hn)

end Binary64

end ChapterLint
