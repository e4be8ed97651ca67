import Federation.Proofs.Number.Rounding
import Federation.Proofs.Text.Decimal

/-!
# The size of shortest decimals

The shortest decimal of a number lies between the bounds within which ratios round to it, so it is
no more than half a unit above the number.  It has at most as many digits as fit into 64 bits.

* `Binary64.shortest_le`   both bounds.
-/

namespace Federation.Binary64

/-! ## grids -/

def scaledTen (place : Int) : Nat × Nat :=
  if 0 ≤ place then (Nat.pow 10 place.toNat, 1) else (1, Nat.pow 10 (-place).toNat)

theorem scaledTen_pos (place : Int) : 0 < (scaledTen place).2 := by
  rw [scaledTen]
  split
  · exact Nat.one_pos
  · exact Nat.pow_pos (by decide)

theorem scaledTen_div (place : Int) :
    ((scaledTen place).1 : ℚ) / (scaledTen place).2 = 10 ^ place := by
  have hcast : ∀ n, ((Nat.pow 10 n : Nat) : ℚ) = 10 ^ n := fun n => Nat.cast_pow 10 n
  rw [scaledTen]
  split
  · next h => rw [hcast, zpow_toNat h, Nat.cast_one, div_one]
  · next h => rw [hcast, Nat.cast_one, one_div, zpow_neg_toNat h]

/-- `n` steps lie within the bounds, which are counted in quarters -/
def isInside (even : Prop) [Decidable even] (low high quarter step n : Nat) : Bool :=
  if even then low * quarter ≤ n * step && n * step ≤ high * quarter
  else low * quarter < n * step && n * step < high * quarter

/-- of the neighbours `d` and `d + 1` the better one that is inside -/
def better (inside : Nat → Bool) (below above d : Nat) : Option Nat :=
  match inside d && 0 < d, inside (d + 1) with
  | false, false => none
  | true, false => some d
  | false, true => some (d + 1)
  | true, true =>
    if below < above then some d
    else if above < below then some (d + 1)
    else some (d + d % 2)

def steps (x : Binary64) (place : Int) : Nat × Nat :=
  ((scaledTen place).1 * (scaled 1 (x.exponent - 2)).2,
    (scaled 1 (x.exponent - 2)).1 * (scaledTen place).2)

theorem onGrid_eq (x : Binary64) (place : Int) : x.onGrid place =
    let (step, quarter) := x.steps place
    let d := x.quarters.2.1 * quarter / step
    better (isInside (x.mantissa % 2 = 0) x.quarters.1 x.quarters.2.2 quarter step)
      (x.quarters.2.1 * quarter - d * step) ((d + 1) * step - x.quarters.2.1 * quarter) d := rfl

theorem inside_of_better {inside : Nat → Bool} {below above d n : Nat}
    (h : better inside below above d = some n) : inside n = true := by
  rw [better] at h
  split at h
  · cases h
  · next hd _ =>
    cases h
    exact (Bool.and_eq_true_iff.1 hd).1
  · next hd =>
    cases h
    exact hd
  · next hd hd' =>
    have hd := (Bool.and_eq_true_iff.1 hd).1
    split at h
    · cases h
      exact hd
    split at h
    · cases h
      exact hd'
    · cases h
      rcases Nat.mod_two_eq_zero_or_one d with h | h
      · rwa [h]
      · rwa [h]

theorem le_of_isInside {even : Prop} [Decidable even] {low high quarter step n : Nat}
    (h : isInside even low high quarter step n = true) : n * step ≤ high * quarter := by
  rw [isInside] at h
  split at h
  · exact of_decide_eq_true (Bool.and_eq_true_iff.1 h).2
  · exact (of_decide_eq_true (Bool.and_eq_true_iff.1 h).2).le

/-- half a unit above the number -/
def upper (x : Binary64) : ℚ := (x.mantissa + 1 / 2) * 2 ^ x.exponent

variable {x : Binary64} {place : Int} {d : Nat}

theorem le_of_onGrid (h : x.onGrid place = some d) : (d : ℚ) * 10 ^ place ≤ x.upper := by
  rw [onGrid_eq] at h
  have hle : d * ((scaledTen place).1 * (scaled 1 (x.exponent - 2)).2) ≤
      (4 * x.mantissa + 2) * ((scaled 1 (x.exponent - 2)).1 * (scaledTen place).2) :=
    le_of_isInside (inside_of_better h)
  have hten : (0 : ℚ) < (scaledTen place).2 := Nat.cast_pos.2 (scaledTen_pos place)
  have htwo : (0 : ℚ) < (scaled 1 (x.exponent - 2)).2 := Nat.cast_pos.2 (scaled_pos _ _)
  have hunit := scaled_div 1 (x.exponent - 2)
  have hcast : (d : ℚ) * ((scaledTen place).1 * (scaled 1 (x.exponent - 2)).2) ≤
      (4 * x.mantissa + 2) * ((scaled 1 (x.exponent - 2)).1 * (scaledTen place).2) := by
    exact_mod_cast hle
  calc (d : ℚ) * 10 ^ place
      = d * ((scaledTen place).1 * (scaled 1 (x.exponent - 2)).2) /
          ((scaledTen place).2 * (scaled 1 (x.exponent - 2)).2) := by
        rw [← scaledTen_div, mul_div_assoc, mul_div_mul_right _ _ htwo.ne']
    _ ≤ (4 * x.mantissa + 2) * ((scaled 1 (x.exponent - 2)).1 * (scaledTen place).2) /
          ((scaledTen place).2 * (scaled 1 (x.exponent - 2)).2) :=
        div_le_div_of_nonneg_right hcast (mul_pos hten htwo).le
    _ = (4 * x.mantissa + 2) * 2 ^ (x.exponent - 2) := by
        rw [mul_comm ((scaled 1 (x.exponent - 2)).1 : ℚ), mul_div_assoc,
          mul_div_mul_left _ _ hten.ne', hunit, Nat.cast_one, one_mul]
    _ = x.upper := by
        rw [upper, zpow_sub₀ two_ne_zero]
        ring

theorem upper_nonneg (x : Binary64) : 0 ≤ x.upper :=
  mul_nonneg (add_nonneg (Nat.cast_nonneg _) (by norm_num)) (zpow_pos two_pos _).le

theorem search_le (x : Binary64) (n : Nat) (top : Int) {d : Nat} {place : Int}
    (h : x.search top n = (d, place)) : (d : ℚ) * 10 ^ place ≤ x.upper ∧ top - n ≤ place := by
  induction n generalizing top with
  | zero =>
    rw [search] at h
    cases h
    refine ⟨?_, by omega⟩
    cases hgrid : x.onGrid place with
    | none =>
      rw [Option.getD_none, Nat.cast_zero, zero_mul]
      exact x.upper_nonneg
    | some d => exact le_of_onGrid hgrid
  | succ n ih =>
    rw [search] at h
    split at h
    · next hgrid =>
      cases h
      exact ⟨le_of_onGrid hgrid, by omega⟩
    · obtain ⟨hle, hplace⟩ := ih (top - 1) h
      exact ⟨hle, by omega⟩

theorem dropZeros_eq (n d : Nat) (place : Int) {d' : Nat} {place' : Int}
    (h : dropZeros place d n = (d', place')) :
    (d' : ℚ) * 10 ^ place' = d * 10 ^ place ∧ d' ≤ d := by
  induction n generalizing d place with
  | zero =>
    cases h
    exact ⟨rfl, le_refl _⟩
  | succ n ih =>
    rw [dropZeros] at h
    split at h
    · next hzero =>
      obtain ⟨heq, hle⟩ := ih _ _ h
      have hd : d = d / 10 * 10 := by omega
      refine ⟨?_, hle.trans (Nat.div_le_self _ _)⟩
      rw [heq, zpow_add_one₀ (by norm_num : (10 : ℚ) ≠ 0), mul_comm ((10 : ℚ) ^ place), ← mul_assoc]
      congr 1
      exact_mod_cast hd.symm
    · cases h
      exact ⟨rfl, le_refl _⟩

/-! ## the number of digits -/

theorem lt_decimalPlace (num : Nat) {den : Nat} (hd : den ≠ 0) :
    (num : ℚ) / den < 10 ^ (decimalPlace num den + 1) := by
  have hden : (0 : ℚ) < den := Nat.cast_pos.2 (Nat.pos_of_ne_zero hd)
  have hneg : ∀ g : Nat, (10 : ℚ) ^ (-(g : Int)) = (10 ^ g)⁻¹ := fun g => by
    rw [zpow_neg, zpow_natCast]
  rw [decimalPlace]
  split
  · have hlt := (Nat.div_lt_iff_lt_mul (Nat.pos_of_ne_zero hd)).1
      (Decimal.lt_pow_length (num / den))
    rw [Int.sub_add_cancel, zpow_natCast, div_lt_iff₀ hden]
    exact_mod_cast hlt
  · next hle =>
    have hlen := Decimal.length_mono (not_le.1 hle).le
    set a := (Nat.toDigits 10 num).length with ha
    set b := (Nat.toDigits 10 den).length with hb
    have hpos : (0 : ℚ) < 10 ^ (b - a) := by positivity
    dsimp only
    split
    · have hlt : num * 10 ^ (b - a) < den * 10 := by
        calc num * 10 ^ (b - a) < 10 ^ a * 10 ^ (b - a) :=
              Nat.mul_lt_mul_of_pos_right (Decimal.lt_pow_length num) (Nat.pow_pos (by decide))
          _ = 10 ^ b := by rw [← Nat.pow_add, Nat.add_sub_cancel' hlen]
          _ ≤ den * 10 := Decimal.pow_length_le hd
      rw [zpow_add_one₀ (by norm_num), hneg, div_lt_iff₀ hden, mul_assoc, ← div_eq_inv_mul,
        lt_div_iff₀ hpos, mul_comm 10]
      exact_mod_cast hlt
    · next hlt =>
      rw [Int.sub_add_cancel, hneg, div_lt_iff₀ hden, ← div_eq_inv_mul, lt_div_iff₀ hpos]
      exact_mod_cast not_le.1 hlt

/-- the shortest decimal is no more than half a unit above the number -/
theorem shortest_le (x : Binary64) {d : Nat} {place : Int} (h : x.shortest = (d, place)) :
    (d : ℚ) * 10 ^ place ≤ x.upper ∧ d ≤ Decimal.max64 := by
  rw [shortest] at h
  split at h
  · cases h
    rw [Nat.cast_zero, zero_mul]
    exact ⟨x.upper_nonneg, Nat.zero_le _⟩
  · next hm =>
    rcases hsearch : x.search (decimalPlace x.ratio.1 x.ratio.2) 17 with ⟨d₁, place₁⟩
    rw [hsearch] at h
    obtain ⟨hle, hplace⟩ := search_le x 17 _ hsearch
    obtain ⟨heq, hd⟩ := dropZeros_eq 20 d₁ place₁ h
    refine ⟨heq ▸ hle, hd.trans ?_⟩
    -- the search goes down 17 places from the first digit, so 18 digits and a half are the most
    have hlt := lt_decimalPlace x.ratio.1 (scaled_pos x.mantissa x.exponent).ne'
    rw [← ratio] at hlt
    rw [ratio_div] at hlt
    set p := decimalPlace x.ratio.1 x.ratio.2
    have hone : (1 : ℚ) ≤ x.mantissa := by exact_mod_cast Nat.one_le_iff_ne_zero.2 hm
    have hupper : x.upper ≤ 3 / 2 * x.size := by
      rw [upper, size, ← mul_assoc]
      exact mul_le_mul_of_nonneg_right (by linarith) (zpow_pos two_pos _).le
    have hp : (0 : ℚ) < 10 ^ (p - 17) := zpow_pos (by norm_num) _
    have hsum : (d₁ : ℚ) * 10 ^ (p - 17) < 3 / 2 * 10 ^ 18 * 10 ^ (p - 17) := by
      calc (d₁ : ℚ) * 10 ^ (p - 17) ≤ d₁ * 10 ^ place₁ :=
            mul_le_mul_of_nonneg_left (zpow_le_zpow_right₀ (by norm_num) hplace)
              (Nat.cast_nonneg _)
        _ ≤ 3 / 2 * x.size := hle.trans hupper
        _ < 3 / 2 * 10 ^ (p + 1) := mul_lt_mul_of_pos_left hlt (by norm_num)
        _ = 3 / 2 * 10 ^ 18 * 10 ^ (p - 17) := by
            rw [show p + 1 = 18 + (p - 17) by omega, zpow_add₀ (by norm_num), mul_assoc]
            rfl
    have hbound : (d₁ : ℚ) < 3 / 2 * 10 ^ 18 := lt_of_mul_lt_mul_right hsum hp.le
    have hmax : (d₁ : ℚ) ≤ Decimal.max64 := by
      rw [Decimal.max64]
      exact hbound.le.trans (by norm_num)
    exact_mod_cast hmax

end Federation.Binary64
