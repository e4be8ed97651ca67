import Federation.Number.Binary64
import Mathlib.Algebra.Order.Field.Rat
import Mathlib.Algebra.Order.Field.Power
import Mathlib.Tactic.FieldSimp
import Mathlib.Tactic.Linarith
import Mathlib.Tactic.NormNum
import Mathlib.Tactic.Ring

/-!
# Rounding to 53 bits

A ratio is rounded to a multiple of a power of two, and the error is at most half of that power.  So
the result is no further from the ratio than one part in 2^53, and a ratio under `limit` is always
rounded to a finite number.

* `Binary64.magnitude_bounds`     the power of two in front of a ratio;
* `Binary64.exists_ofRatio`       a ratio under the limit is rounded;
* `Binary64.size_ofRatio_le`      how far up it is rounded;
* `Binary64.exists_div`, `Binary64.exists_mul`, `Binary64.exists_powerOfTen`
-/

namespace Federation.Binary64

/-- the magnitude of a number -/
def size (x : Binary64) : ℚ := x.mantissa * 2 ^ x.exponent

theorem size_nonneg (x : Binary64) : 0 ≤ x.size :=
  mul_nonneg (Nat.cast_nonneg _) (zpow_pos two_pos _).le

/-- at most 53 bits, and no greater exponent than that of the greatest numbers -/
structure IsFinite (x : Binary64) : Prop where
  mantissa_lt : x.mantissa < 2 * leastFull
  exponent_le : x.exponent ≤ maxExponent

/-- what is half a unit above the greatest number is too large -/
def limit : ℚ := (2 ^ 53 - 1 / 2) * 2 ^ maxExponent

theorem zpow_maxExponent : (2 : ℚ) ^ maxExponent = 2 ^ (971 : ℕ) := zpow_natCast 2 971

theorem cast_leastFull : (leastFull : ℚ) = 2 ^ 52 := by norm_num [leastFull]

theorem IsFinite.size_lt {x : Binary64} (h : x.IsFinite) : x.size < limit := by
  have hm : (x.mantissa : ℚ) + 1 ≤ 2 ^ 53 := by
    have hlt : x.mantissa + 1 ≤ 2 ^ 53 := h.mantissa_lt
    exact_mod_cast hlt
  calc x.size ≤ x.mantissa * 2 ^ maxExponent :=
        mul_le_mul_of_nonneg_left (zpow_le_zpow_right₀ one_le_two h.exponent_le) (Nat.cast_nonneg _)
    _ < limit := mul_lt_mul_of_pos_right (by linarith) (zpow_pos two_pos _)

/-! ## ratios -/

theorem scaled_pos (n : Nat) (e : Int) : 0 < (scaled n e).2 := by
  rw [scaled]
  split
  · exact Nat.one_pos
  · exact Nat.pow_pos (by decide)

theorem zpow_toNat {b : ℚ} {e : Int} (h : 0 ≤ e) : b ^ e.toNat = b ^ e := by
  rw [← zpow_natCast, Int.toNat_of_nonneg h]

theorem zpow_neg_toNat {b : ℚ} {e : Int} (h : ¬0 ≤ e) : (b ^ (-e).toNat)⁻¹ = b ^ e := by
  rw [zpow_toNat (by omega), zpow_neg, inv_inv]

theorem scaled_div (n : Nat) (e : Int) : ((scaled n e).1 : ℚ) / (scaled n e).2 = n * 2 ^ e := by
  rw [scaled]
  split
  · next h =>
    have hcast : ((n * Nat.pow 2 e.toNat : Nat) : ℚ) = n * 2 ^ e.toNat := by
      exact_mod_cast rfl
    rw [hcast, zpow_toNat h, Nat.cast_one, div_one]
  · next h =>
    have hcast : ((Nat.pow 2 (-e).toNat : Nat) : ℚ) = 2 ^ (-e).toNat := Nat.cast_pow 2 _
    rw [hcast, div_eq_mul_inv, zpow_neg_toNat h]

theorem ratio_div (x : Binary64) : (x.ratio.1 : ℚ) / x.ratio.2 = x.size := scaled_div _ _

theorem magnitude_eq (num den : Nat) : magnitude num den =
    if (scaled 1 (num.log2 - den.log2)).1 * den ≤ num * (scaled 1 (num.log2 - den.log2)).2
    then (num.log2 : Int) - den.log2 else num.log2 - den.log2 - 1 := rfl

theorem guess_le_iff {num den : Nat} {e : Int} (hd : den ≠ 0) :
    (scaled 1 e).1 * den ≤ num * (scaled 1 e).2 ↔ (2 : ℚ) ^ e ≤ num / den := by
  have hq : (0 : ℚ) < (scaled 1 e).2 := Nat.cast_pos.2 (scaled_pos 1 e)
  have hscaled := scaled_div 1 e
  rw [Nat.cast_one, one_mul] at hscaled
  rw [← hscaled, div_le_div_iff₀ hq (Nat.cast_pos.2 (Nat.pos_of_ne_zero hd))]
  exact_mod_cast Iff.rfl

theorem magnitude_bounds {num den : Nat} (hn : num ≠ 0) (hd : den ≠ 0) :
    (2 : ℚ) ^ magnitude num den ≤ num / den ∧ (num : ℚ) / den < 2 ^ (magnitude num den + 1) := by
  have hden : (0 : ℚ) < den := Nat.cast_pos.2 (Nat.pos_of_ne_zero hd)
  have hnum : (2 : ℚ) ^ num.log2 ≤ num ∧ (num : ℚ) < 2 ^ (num.log2 + 1) :=
    ⟨by exact_mod_cast Nat.log2_self_le hn, by exact_mod_cast Nat.lt_log2_self⟩
  have hlog : (2 : ℚ) ^ den.log2 ≤ den ∧ (den : ℚ) < 2 ^ (den.log2 + 1) :=
    ⟨by exact_mod_cast Nat.log2_self_le hd, by exact_mod_cast Nat.lt_log2_self⟩
  have hpow : (2 : ℚ) ^ ((num.log2 : Int) - den.log2) = 2 ^ num.log2 / 2 ^ den.log2 := by
    rw [zpow_sub₀ two_ne_zero, zpow_natCast, zpow_natCast]
  have hlow : (2 : ℚ) ^ ((num.log2 : Int) - den.log2 - 1) ≤ num / den := by
    rw [zpow_sub_one₀ two_ne_zero, hpow, le_div_iff₀ hden]
    rw [div_mul_eq_mul_div, div_mul_eq_mul_div, div_le_iff₀ (by positivity)]
    have h := mul_le_mul hnum.1 hlog.2.le hden.le (by positivity)
    rw [pow_succ] at h
    linarith
  have hhigh : (num : ℚ) / den < 2 ^ ((num.log2 : Int) - den.log2 + 1) := by
    rw [zpow_add_one₀ two_ne_zero, hpow, div_lt_iff₀ hden, div_mul_eq_mul_div, div_mul_eq_mul_div,
      lt_div_iff₀ (by positivity)]
    have h := mul_lt_mul hnum.2 hlog.1 (by positivity) (by positivity)
    rw [pow_succ] at h
    linarith
  rw [magnitude_eq]
  split
  · next h => exact ⟨(guess_le_iff hd).1 h, hhigh⟩
  · next h =>
    rw [Int.sub_add_cancel]
    exact ⟨hlow, not_le.1 fun hle => h ((guess_le_iff hd).2 hle)⟩

/-! ## rounding -/

theorem roundEven_bounds (num : Nat) {den : Nat} (hd : den ≠ 0) :
    (roundEven num den : ℚ) ≤ num / den + 1 / 2 ∧ (num : ℚ) / den ≤ roundEven num den + 1 / 2 := by
  have hden : (0 : ℚ) < den := Nat.cast_pos.2 (Nat.pos_of_ne_zero hd)
  have hsum := Nat.div_add_mod num den
  have hnat : 2 * (den * roundEven num den) ≤ 2 * num + den ∧
      2 * num ≤ 2 * (den * roundEven num den) + den := by
    have hlt := Nat.mod_lt num (Nat.pos_of_ne_zero hd)
    rw [roundEven]
    split
    · omega
    split
    · rw [Nat.mul_add]
      omega
    · rcases Nat.mod_two_eq_zero_or_one (num / den) with h | h
      · rw [h, Nat.add_zero]
        omega
      · rw [h, Nat.mul_add]
        omega
  have hcast : (2 * (den * roundEven num den) : ℚ) ≤ 2 * num + den ∧
      (2 * num : ℚ) ≤ 2 * (den * roundEven num den) + den := by exact_mod_cast hnat
  constructor
  · rw [div_add' _ _ _ hden.ne', le_div_iff₀ hden]
    linarith [hcast.1]
  · rw [div_le_iff₀ hden]
    linarith [hcast.2]

/-- the multiple of `2 ^ e` nearest to a ratio, as a number -/
def rounded (m : Nat) (e : Int) : Binary64 :=
  if m = 2 * leastFull then ⟨false, leastFull, e + 1⟩ else ⟨false, m, e⟩

theorem size_rounded (m : Nat) (e : Int) : (rounded m e).size = m * 2 ^ e := by
  rw [rounded]
  split
  · next h =>
    rw [h, size, zpow_add_one₀ two_ne_zero, Nat.cast_mul]
    ring
  · rfl

/-- the exponent of the last place of the number that a ratio is rounded to -/
def lastPlace (num den : Nat) : Int := max minExponent (magnitude num den - 52)

variable {num den : Nat} {r : Binary64}

theorem exists_rounded (hn : num ≠ 0) (hd : den ≠ 0) :
    ∃ m : Nat, (m : ℚ) ≤ num / den * 2 ^ (-lastPlace num den) + 1 / 2 ∧
      num / den * 2 ^ (-lastPlace num den) ≤ (m : ℚ) + 1 / 2 ∧
      ofRatio num den = if maxExponent < (rounded m (lastPlace num den)).exponent then none
        else some (rounded m (lastPlace num den)) := by
  have hpos := scaled_pos num (-lastPlace num den)
  have hbounds := roundEven_bounds (scaled num (-lastPlace num den)).1
    (Nat.mul_ne_zero hpos.ne' hd)
  rw [Nat.cast_mul, ← div_div, scaled_div, ← div_mul_eq_mul_div] at hbounds
  refine ⟨_, hbounds.1, hbounds.2, ?_⟩
  rw [ofRatio, if_neg hn]
  rfl

/-- under a limit that is not a multiple of the last place a ratio is not rounded beyond it -/
theorem le_of_le_add_half {m n : Nat} {v : ℚ} (hm : (m : ℚ) ≤ v + 1 / 2) (hv : v < n + 1 / 2) :
    m ≤ n := by
  have hlt : (m : ℚ) < n + 1 := by linarith
  exact Nat.le_of_lt_succ (by exact_mod_cast hlt)

theorem scaled_lt (hn : num ≠ 0) (hd : den ≠ 0) :
    (num : ℚ) / den * 2 ^ (-lastPlace num den) < 2 ^ 53 := by
  have hle : magnitude num den + 1 ≤ 53 + lastPlace num den := by
    have h := le_max_right minExponent (magnitude num den - 52)
    rw [lastPlace]
    omega
  calc (num : ℚ) / den * 2 ^ (-lastPlace num den)
      < 2 ^ (magnitude num den + 1) * 2 ^ (-lastPlace num den) :=
        mul_lt_mul_of_pos_right (magnitude_bounds hn hd).2 (zpow_pos two_pos _)
    _ ≤ 2 ^ (53 + lastPlace num den) * 2 ^ (-lastPlace num den) :=
        mul_le_mul_of_nonneg_right (zpow_le_zpow_right₀ one_le_two hle) (zpow_pos two_pos _).le
    _ = 2 ^ 53 := by
        rw [← zpow_add₀ two_ne_zero, add_neg_cancel_right]
        rfl

theorem isFinite_ofRatio (hd : den ≠ 0) (h : ofRatio num den = some r) : r.IsFinite := by
  by_cases hn : num = 0
  · rw [ofRatio, if_pos hn] at h
    cases h
    exact ⟨by decide, by decide⟩
  obtain ⟨m, hm, -, he⟩ := exists_rounded hn hd
  have hle : m ≤ 2 * leastFull := by
    refine le_of_le_add_half hm ((scaled_lt hn hd).trans ?_)
    rw [Nat.cast_mul, cast_leastFull]
    norm_num
  rw [he] at h
  split at h
  · cases h
  · next hexp =>
    cases h
    refine ⟨?_, not_lt.1 hexp⟩
    rw [rounded]
    split
    · show leastFull < 2 * leastFull
      decide
    · next hne => exact lt_of_le_of_ne hle hne

theorem lastPlace_le (hn : num ≠ 0) (hd : den ≠ 0) (h : (num : ℚ) / den < limit) :
    lastPlace num den ≤ maxExponent := by
  have hlt : (2 : ℚ) ^ magnitude num den < 2 ^ (1024 : Int) := by
    refine ((magnitude_bounds hn hd).1.trans_lt h).trans ?_
    have hpow : (2 : ℚ) ^ (1024 : Int) = 2 ^ 53 * 2 ^ maxExponent := by
      rw [zpow_maxExponent, ← pow_add]
      rfl
    rw [limit, hpow]
    exact mul_lt_mul_of_pos_right (by norm_num) (zpow_pos two_pos _)
  have hmag := (zpow_lt_zpow_iff_right₀ one_lt_two).1 hlt
  rw [lastPlace, maxExponent, minExponent]
  omega

theorem exists_ofRatio (hd : den ≠ 0) (h : (num : ℚ) / den < limit) :
    ∃ r, ofRatio num den = some r := by
  by_cases hn : num = 0
  · exact ⟨zero, by rw [ofRatio, if_pos hn]⟩
  obtain ⟨m, hm, -, he⟩ := exists_rounded hn hd
  have hplace := lastPlace_le hn hd h
  refine ⟨_, he.trans (if_neg ?_)⟩
  rw [rounded]
  split
  · next hfull =>
    rcases hplace.lt_or_eq with hlt | heq
    · exact not_lt.2 (Int.add_one_le_iff.2 hlt)
    · have hv : (num : ℚ) / den * 2 ^ (-lastPlace num den) < (2 * leastFull - 1 : Nat) + 1 / 2 := by
        rw [heq, zpow_neg, ← div_eq_mul_inv, div_lt_iff₀ (zpow_pos two_pos _)]
        refine h.trans_eq ?_
        rw [limit]
        norm_num [leastFull]
      have hle := le_of_le_add_half hm hv
      rw [hfull] at hle
      exact absurd hle (by decide)
  · exact not_lt.2 hplace

/-! ## ratios that are at least one -/

theorem lastPlace_of_one_le (hn : num ≠ 0) (hd : den ≠ 0) (h : (1 : ℚ) ≤ num / den) :
    lastPlace num den = magnitude num den - 52 := by
  have hlt : (2 : ℚ) ^ (0 : Int) < 2 ^ (magnitude num den + 1) := by
    rw [zpow_zero]
    exact h.trans_lt (magnitude_bounds hn hd).2
  have hmag := (zpow_lt_zpow_iff_right₀ one_lt_two).1 hlt
  rw [lastPlace, minExponent]
  omega

theorem ne_zero_of_one_le (h : (1 : ℚ) ≤ num / den) : num ≠ 0 := by
  rintro rfl
  rw [Nat.cast_zero, zero_div] at h
  exact absurd h (by norm_num)

theorem exists_size_ofRatio (hd : den ≠ 0) (h : (1 : ℚ) ≤ num / den)
    (hr : ofRatio num den = some r) : ∃ m : Nat, r.size = m * 2 ^ lastPlace num den ∧
      (m : ℚ) ≤ num / den * 2 ^ (-lastPlace num den) + 1 / 2 ∧
      num / den * 2 ^ (-lastPlace num den) ≤ (m : ℚ) + 1 / 2 := by
  obtain ⟨m, hm, hm', he⟩ := exists_rounded (ne_zero_of_one_le h) hd
  rw [he] at hr
  split at hr
  · cases hr
  · cases hr
    exact ⟨m, size_rounded _ _, hm, hm'⟩

/-- it is rounded up by at most one part in 2^53 -/
theorem size_ofRatio_le (hd : den ≠ 0) (h : (1 : ℚ) ≤ num / den) (hr : ofRatio num den = some r) :
    r.size ≤ num / den * (1 + 1 / 2 ^ 53) := by
  obtain ⟨m, hsize, hm, -⟩ := exists_size_ofRatio hd h hr
  have hn := ne_zero_of_one_le h
  have hpos : (0 : ℚ) < 2 ^ lastPlace num den := zpow_pos two_pos _
  have hunit : (2 : ℚ) ^ lastPlace num den ≤ num / den / 2 ^ 52 := by
    rw [lastPlace_of_one_le hn hd h, zpow_sub₀ two_ne_zero]
    exact div_le_div_of_nonneg_right (magnitude_bounds hn hd).1 (by norm_num)
  calc r.size = m * 2 ^ lastPlace num den := hsize
    _ ≤ (num / den * 2 ^ (-lastPlace num den) + 1 / 2) * 2 ^ lastPlace num den :=
        mul_le_mul_of_nonneg_right hm hpos.le
    _ = num / den + 2 ^ lastPlace num den / 2 := by
        rw [add_mul, mul_assoc, ← zpow_add₀ two_ne_zero, neg_add_cancel, zpow_zero]
        ring
    _ ≤ num / den * (1 + 1 / 2 ^ 53) := by linarith

theorem one_le_size_ofRatio (hd : den ≠ 0) (h : (1 : ℚ) ≤ num / den)
    (hr : ofRatio num den = some r) : 1 ≤ r.size := by
  obtain ⟨m, hsize, -, hm⟩ := exists_size_ofRatio hd h hr
  have hn := ne_zero_of_one_le h
  have hplace := lastPlace_of_one_le hn hd h
  have hmag : 0 ≤ magnitude num den := by
    have hlt : (2 : ℚ) ^ (0 : Int) < 2 ^ (magnitude num den + 1) := by
      rw [zpow_zero]
      exact h.trans_lt (magnitude_bounds hn hd).2
    have hpow := (zpow_lt_zpow_iff_right₀ one_lt_two).1 hlt
    omega
  have hfull : (2 : ℚ) ^ 52 ≤ num / den * 2 ^ (-lastPlace num den) := by
    calc (2 : ℚ) ^ 52 = 2 ^ magnitude num den * 2 ^ (-lastPlace num den) := by
          rw [← zpow_add₀ two_ne_zero, hplace, neg_sub, add_sub_cancel]
          rfl
      _ ≤ num / den * 2 ^ (-lastPlace num den) :=
          mul_le_mul_of_nonneg_right (magnitude_bounds hn hd).1 (zpow_pos two_pos _).le
  have hle : 2 ^ 52 ≤ m := by
    have hlt : (2 ^ 52 : ℚ) < m + 1 := by linarith
    exact Nat.le_of_lt_succ (by exact_mod_cast hlt)
  calc (1 : ℚ) ≤ 2 ^ magnitude num den := one_le_zpow₀ one_le_two hmag
    _ = 2 ^ 52 * 2 ^ lastPlace num den := by
        rw [hplace, zpow_sub₀ two_ne_zero]
        exact (mul_div_cancel₀ _ (by norm_num)).symm
    _ ≤ m * 2 ^ lastPlace num den :=
        mul_le_mul_of_nonneg_right (by exact_mod_cast hle) (zpow_pos two_pos _).le
    _ = r.size := hsize.symm

/-! ## products, quotients and powers of ten -/

variable {x y z : Binary64}

theorem exists_mul (h : x.size * y.size < limit) : ∃ z, x.mul y = some z := by
  refine exists_ofRatio (Nat.mul_ne_zero (scaled_pos _ _).ne' (scaled_pos _ _).ne') ?_
  rwa [Nat.cast_mul, Nat.cast_mul, mul_div_mul_comm, ratio_div, ratio_div]

theorem exists_div (hx : x.IsFinite) (hy : 1 ≤ y.size) : ∃ z, x.div y = some z ∧ z.IsFinite := by
  have hnum : y.ratio.1 ≠ 0 := by
    intro h
    rw [← ratio_div, h, Nat.cast_zero, zero_div] at hy
    exact absurd hy (by norm_num)
  have hden : x.ratio.2 * y.ratio.1 ≠ 0 := Nat.mul_ne_zero (scaled_pos _ _).ne' hnum
  have hlt : ((x.ratio.1 * y.ratio.2 : Nat) : ℚ) / (x.ratio.2 * y.ratio.1 : Nat) < limit := by
    rw [Nat.cast_mul, Nat.cast_mul, mul_div_mul_comm, ratio_div, ← inv_div, ratio_div]
    refine lt_of_le_of_lt ?_ hx.size_lt
    exact mul_le_of_le_one_right x.size_nonneg (inv_le_one_of_one_le₀ hy)
  obtain ⟨z, hz⟩ := exists_ofRatio hden hlt
  exact ⟨z, hz, isFinite_ofRatio hden hz⟩

theorem limit_lt : limit < 10 ^ 309 := by
  have hnat : 18014398509481983 * 2 ^ 971 < 10 ^ 309 * 2 := by decide +kernel
  have hcast : ((18014398509481983 * 2 ^ 971 : Nat) : ℚ) < (10 ^ 309 * 2 : Nat) :=
    Nat.cast_lt.2 hnat
  simp only [Nat.cast_mul, Nat.cast_pow, Nat.cast_ofNat] at hcast
  rw [limit, zpow_maxExponent]
  generalize (10 : ℚ) ^ 309 = t at hcast ⊢
  generalize (2 : ℚ) ^ 971 = u at hcast ⊢
  linarith

theorem powerOfTen_lt : (10 : ℚ) ^ 308 < limit := by
  have hnat : 10 ^ 308 * 2 < 18014398509481983 * 2 ^ 971 := by decide +kernel
  have hcast : ((10 ^ 308 * 2 : Nat) : ℚ) < (18014398509481983 * 2 ^ 971 : Nat) :=
    Nat.cast_lt.2 hnat
  simp only [Nat.cast_mul, Nat.cast_pow, Nat.cast_ofNat] at hcast
  rw [limit, zpow_maxExponent]
  generalize (10 : ℚ) ^ 308 = t at hcast ⊢
  generalize (2 : ℚ) ^ 971 = u at hcast ⊢
  linarith

theorem exists_powerOfTen {n : Nat} (hn : n ≤ 308) : ∃ y, powerOfTen n = some y ∧
    1 ≤ y.size ∧ y.size ≤ 10 ^ n * (1 + 1 / 2 ^ 53) := by
  have hcast : ((Nat.pow 10 n : Nat) : ℚ) / (1 : Nat) = 10 ^ n := by
    rw [Nat.cast_one, div_one]
    exact Nat.cast_pow 10 n
  have hone : (1 : ℚ) ≤ (Nat.pow 10 n : Nat) / (1 : Nat) := by
    rw [hcast]
    exact one_le_pow₀ (by norm_num)
  have hlt : ((Nat.pow 10 n : Nat) : ℚ) / (1 : Nat) < limit := by
    rw [hcast]
    exact (pow_le_pow_right₀ (by norm_num) hn).trans_lt powerOfTen_lt
  obtain ⟨y, hy⟩ := exists_ofRatio Nat.one_ne_zero hlt
  have hle := size_ofRatio_le Nat.one_ne_zero hone hy
  rw [hcast] at hle
  exact ⟨y, hy, one_le_size_ofRatio Nat.one_ne_zero hone hy, hle⟩

end Federation.Binary64
