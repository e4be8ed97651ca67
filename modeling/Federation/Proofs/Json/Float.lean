import Federation.Json.Printer
import Federation.Proofs.Json.Numeral
import Federation.Proofs.Number.Shortest

/-!
# Reading the text of a number

What a number is written as can always be read, though a float need not be the same again.  Its
digits fit into 64 bits, and scaling them stays finite: by a negative power of ten it goes down, and
by a positive one it does not go over the limit, since the decimal is at most half a unit above the
float.  The two greatest floats are too near to the limit for that, and are computed.

* `Json.exists_scale_shortest`   the shortest decimal of a finite float can be scaled;
* `Json.isReadable_decimal`, `Json.isReadable_scientific`
                                 the two layouts;
* `Json.Number.IsProper.readable`
                                 every number that a value can have.
-/

namespace Federation.Json

open Decimal (digitByte digitsText numeral digits)
open Binary64 (IsFinite limit)

/-! ## scaling -/

theorem exists_scaleDown {x : Binary64} (hx : x.IsFinite) {last : Nat} (hlast : last ≤ 308)
    (n : Nat) : ∃ y, scaleDown x last n = some y := by
  induction n generalizing x with
  | zero =>
    obtain ⟨p, hp, hone, -⟩ := Binary64.exists_powerOfTen hlast
    obtain ⟨y, hy, -⟩ := Binary64.exists_div hx hone
    exact ⟨y, by rw [scaleDown, hp, Option.bind_some, hy]⟩
  | succ n ih =>
    rw [scaleDown]
    split
    · exact ⟨x, rfl⟩
    · obtain ⟨p, hp, hone, -⟩ := Binary64.exists_powerOfTen (n := step) (le_refl _)
      obtain ⟨y, hy, hfinite⟩ := Binary64.exists_div hx hone
      rw [hp, Option.bind_some, hy, Option.bind_some]
      exact ih hfinite

variable {m d : Nat} {e place : Int} {x y : Binary64}

/-- two and a half units under the power of two above the greatest float -/
def safe : ℚ := (2 ^ 53 - 5 / 2) * 2 ^ Binary64.maxExponent

theorem safe_lt : safe < limit :=
  mul_lt_mul_of_pos_right (by norm_num) (zpow_pos two_pos _)

theorem max64_le_safe : (Decimal.max64 : ℚ) ≤ safe := by
  rw [safe, Binary64.zpow_maxExponent, Decimal.max64]
  calc ((18446744073709551615 : Nat) : ℚ) ≤ (2 ^ 53 - 5 / 2) * 2 ^ 12 := by norm_num
    _ ≤ (2 ^ 53 - 5 / 2) * 2 ^ 971 :=
        mul_le_mul_of_nonneg_left (pow_le_pow_right₀ one_le_two (by decide)) (by norm_num)

theorem exists_ofDigits (hm : m ≤ Decimal.max64) : ∃ y, Binary64.ofRatio m 1 = some y ∧
    y.IsFinite ∧ (m ≠ 0 → y.size ≤ m * (1 + 1 / 2 ^ 53)) := by
  have hcast : (m : ℚ) ≤ Decimal.max64 := by exact_mod_cast hm
  have hlt : (m : ℚ) / (1 : Nat) < limit := by
    rw [Nat.cast_one, div_one]
    exact (hcast.trans max64_le_safe).trans_lt safe_lt
  obtain ⟨y, hy⟩ := Binary64.exists_ofRatio Nat.one_ne_zero hlt
  refine ⟨y, hy, Binary64.isFinite_ofRatio Nat.one_ne_zero hy, fun hne => ?_⟩
  have hone : (1 : ℚ) ≤ m / (1 : Nat) := by
    rw [Nat.cast_one, div_one]
    exact_mod_cast Nat.one_le_iff_ne_zero.2 hne
  have hle := Binary64.size_ofRatio_le Nat.one_ne_zero hone hy
  rwa [Nat.cast_one, div_one] at hle

/-- the errors of two roundings do not go over the limit -/
theorem safe_rounded_lt : safe * (1 + 1 / 2 ^ 53) ^ 2 < limit := by
  rw [safe, limit, mul_right_comm]
  exact mul_lt_mul_of_pos_right (by norm_num) (zpow_pos two_pos _)

theorem le_of_pow_le {e : Int} (h : (10 : ℚ) ^ e ≤ limit) : e ≤ 308 := by
  have hlt : (10 : ℚ) ^ e < 10 ^ (309 : Int) := by
    rw [zpow_ofNat]
    exact h.trans_lt Binary64.limit_lt
  have he := (zpow_lt_zpow_iff_right₀ (by norm_num)).1 hlt
  omega

theorem exists_scale (hm : m ≤ Decimal.max64) (h : e < 0 ∨ (m : ℚ) * 10 ^ e ≤ safe) :
    ∃ y, scale m e = some y := by
  obtain ⟨x, hx, hfinite, hsize⟩ := exists_ofDigits hm
  rw [scale, hx, Option.bind_some]
  by_cases he : e < 0
  · rw [if_pos he]
    refine exists_scaleDown hfinite ?_ _
    rw [step]
    omega
  have hle := h.resolve_left he
  rw [if_neg he]
  split
  · exact ⟨x, rfl⟩
  · next hmantissa =>
    have hm : m ≠ 0 := by
      rintro rfl
      rw [Binary64.ofRatio, if_pos rfl] at hx
      cases hx
      exact hmantissa rfl
    have hone : (1 : ℚ) ≤ m := by exact_mod_cast Nat.one_le_iff_ne_zero.2 hm
    have hpow : (10 : ℚ) ^ e ≤ m * 10 ^ e :=
      le_mul_of_one_le_left (zpow_pos (by norm_num) _).le hone
    have hsmall : e.toNat ≤ 308 := by
      have he' := le_of_pow_le ((hpow.trans hle).trans safe_lt.le)
      omega
    obtain ⟨p, hp, -, hten⟩ := Binary64.exists_powerOfTen hsmall
    rw [if_neg (show ¬step < e.toNat from Nat.not_lt.2 hsmall), hp, Option.bind_some]
    refine Binary64.exists_mul ?_
    calc x.size * p.size
        ≤ (m * (1 + 1 / 2 ^ 53)) * (10 ^ e.toNat * (1 + 1 / 2 ^ 53)) :=
          mul_le_mul (hsize hm) hten (Binary64.size_nonneg p) (by positivity)
      _ = m * 10 ^ e * (1 + 1 / 2 ^ 53) ^ 2 := by
          rw [Binary64.zpow_toNat (not_lt.1 he)]
          ring
      _ ≤ safe * (1 + 1 / 2 ^ 53) ^ 2 := mul_le_mul_of_nonneg_right hle (by norm_num)
      _ < limit := safe_rounded_lt

theorem exists_scale_nonpos (hm : m ≤ Decimal.max64) : ∀ e ≤ 0, ∃ y, scale m e = some y := by
  intro e he
  refine exists_scale hm ((lt_or_eq_of_le he).imp_right fun hzero => ?_)
  have hcast : (m : ℚ) ≤ Decimal.max64 := by exact_mod_cast hm
  rw [hzero, zpow_zero, mul_one]
  exact hcast.trans max64_le_safe

theorem exists_scale_greatest : ∀ negative : Bool, ∀ k < 2,
    (scale (Binary64.mk negative (2 * Binary64.leastFull - 1 - k) 971).shortest.1
      (Binary64.mk negative (2 * Binary64.leastFull - 1 - k) 971).shortest.2).isSome = true := by
  decide +kernel

theorem mantissa_add_one_le (hx : x.IsFinite) : (x.mantissa : ℚ) + 1 ≤ 2 ^ 53 := by
  have hlt : x.mantissa + 1 ≤ 2 ^ 53 := hx.mantissa_lt
  exact_mod_cast hlt

theorem upper_le_safe (hx : x.IsFinite)
    (h : ∀ k < 2, x ≠ ⟨x.negative, 2 * Binary64.leastFull - 1 - k, 971⟩) : x.upper ≤ safe := by
  have hm := mantissa_add_one_le hx
  have hpos : (0 : ℚ) < 2 ^ Binary64.maxExponent := zpow_pos two_pos _
  rw [Binary64.upper, safe]
  rcases hx.exponent_le.lt_or_eq with hlt | heq
  · have hle : (2 : ℚ) ^ x.exponent * 2 ≤ 2 ^ Binary64.maxExponent := by
      rw [← zpow_add_one₀ two_ne_zero]
      exact zpow_le_zpow_right₀ one_le_two hlt
    have hnonneg : (0 : ℚ) ≤ x.mantissa + 1 / 2 := add_nonneg (Nat.cast_nonneg _) (by norm_num)
    generalize (2 : ℚ) ^ Binary64.maxExponent = u at hpos hle ⊢
    calc (x.mantissa + 1 / 2) * (2 : ℚ) ^ x.exponent ≤ (x.mantissa + 1 / 2) * (u / 2) :=
          mul_le_mul_of_nonneg_left (by linarith) hnonneg
      _ = (x.mantissa + 1 / 2) / 2 * u := by ring
      _ ≤ (2 ^ 53 - 5 / 2) * u := mul_le_mul_of_nonneg_right (by linarith) hpos.le
  · have hne : ∀ k < 2, x.mantissa ≠ 2 * Binary64.leastFull - 1 - k := fun k hk hm =>
      h k hk (by rw [← hm, ← show x.exponent = 971 from heq])
    have hsmall : x.mantissa + 3 ≤ 2 ^ 53 := by
      have h₀ := hne 0 (by decide)
      have h₁ := hne 1 (by decide)
      have hlt := hx.mantissa_lt
      rw [Binary64.leastFull] at h₀ h₁ hlt
      omega
    have hcast : (x.mantissa : ℚ) + 3 ≤ 2 ^ 53 := by exact_mod_cast hsmall
    rw [heq]
    exact mul_le_mul_of_nonneg_right (by linarith) hpos.le

/-- the shortest decimal of a finite float can be scaled -/
theorem exists_scale_shortest (hx : x.IsFinite) (h : x.shortest = (d, place)) :
    ∃ y, scale d place = some y := by
  by_cases hgreatest : ∃ k < 2, x = ⟨x.negative, 2 * Binary64.leastFull - 1 - k, 971⟩
  · obtain ⟨k, hk, hx⟩ := hgreatest
    have hsome := exists_scale_greatest x.negative k hk
    rw [← hx, h] at hsome
    exact Option.isSome_iff_exists.1 hsome
  · obtain ⟨hle, hd⟩ := x.shortest_le h
    refine exists_scale hd (.inr (hle.trans (upper_le_safe hx fun k hk he => ?_)))
    exact hgreatest ⟨k, hk, he⟩

/-! ## layouts -/

/-- the text of a number behind its sign, readable in front of anything that it could not go on
with -/
def IsReadable (negative : Bool) (text : Bytes) : Prop :=
  ∃ (first : Fin 10) (more : Bytes) (x : Number), text = digitByte first.val :: more ∧
    ∀ rest, Closes rest → Reads (number negative) text rest x

variable {negative : Bool} {ds es : List (Fin 10)}

theorem noDigit_point (text rest : Bytes) : NoDigit (byte '.' :: text ++ rest) :=
  fun _ hb => Option.some.inj hb ▸ (by decide)

theorem noDigit_exponent (text rest : Bytes) : NoDigit (byte 'e' :: text ++ rest) :=
  fun _ hb => Option.some.inj hb ▸ (by decide)

theorem exists_digitsText (hds : IsInteger ds) (text : Bytes) :
    ∃ (first : Fin 10) (more : Bytes), digitsText ds ++ text = digitByte first.val :: more := by
  obtain ⟨d, ds, rfl⟩ := hds.head
  exact ⟨d, digitsText ds ++ text, rfl⟩

theorem numeral_front_le (h : numeral (ds ++ es) ≤ Decimal.max64) : numeral ds ≤ Decimal.max64 :=
  Nat.le_trans (numeral_le_append ds es) h

theorem isReadable_decimal (hds : IsInteger ds) (hne : es ≠ [])
    (hle : numeral (ds ++ es) ≤ Decimal.max64) :
    IsReadable negative (digitsText ds ++ byte '.' :: digitsText es) := by
  obtain ⟨first, more, htext⟩ := exists_digitsText hds (byte '.' :: digitsText es)
  obtain ⟨y, hy⟩ := exists_scale_nonpos hle (0 - es.length) (by omega)
  refine ⟨first, more, signed negative y, htext, fun rest hrest => ?_⟩
  refine reads_number hds (numeral_front_le hle) (noDigit_point _ _) (reads_numberEnd_point ?_)
  rw [Decimal.numeral_append] at hle hy
  rw [← List.append_nil (digitsText es)]
  exact reads_fraction hne hle hrest.noDigit (reads_floatEnd hy hrest)

/-- the digits behind the first one, with the point before them -/
def afterFirst (es : List (Fin 10)) : Bytes := if es = [] then [] else byte '.' :: digitsText es

theorem isReadable_scientific {first : Fin 10} (hfirst : first ≠ 0)
    (hle : numeral (first :: es) ≤ Decimal.max64) {text : Bytes}
    (h : ∃ y, ∀ rest, Closes rest →
      Reads (exponent negative (numeral (first :: es)) (0 - es.length)) (byte 'e' :: text) rest
        (signed negative y)) :
    IsReadable negative (digitByte first.val :: (afterFirst es ++ byte 'e' :: text)) := by
  obtain ⟨y, hy⟩ := h
  refine ⟨first, _, signed negative y, rfl, fun rest hrest => ?_⟩
  have hint : IsInteger [first] := .cons hfirst []
  have hfront : numeral [first] ≤ Decimal.max64 :=
    numeral_front_le (show numeral ([first] ++ es) ≤ _ from hle)
  rw [afterFirst]
  split
  · next hnil =>
    subst hnil
    exact reads_number hint hle (noDigit_exponent _ _) (reads_numberEnd_exponent (hy rest hrest))
  · next hne =>
    refine reads_number hint hfront (noDigit_point _ _) (reads_numberEnd_point ?_)
    have hsum : numeral [first] * 10 ^ es.length + numeral es = numeral (first :: es) :=
      (Decimal.numeral_append [first] es).symm
    rw [← hsum] at hle hy
    exact reads_fraction hne hle (noDigit_exponent _ _) (reads_floatEnd_exponent (hy rest hrest))

/-! ## the text of a float -/

def frontText : List Char → List Char
  | [] => []
  | [c] => [c]
  | c :: rest => c :: '.' :: rest

/-- the text of the decimal `d · 10 ^ place` -/
def floatText (d : Nat) (place : Int) : List Char :=
  let digits := Nat.toDigits 10 d
  let top : Int := place + digits.length - 1
  if d = 0 then "0.0".toList
  else if 0 ≤ top ∧ top ≤ 15 then
    if 0 ≤ place then digits ++ List.replicate place.toNat '0' ++ ['.', '0']
    else
      let whole := (top + 1).toNat
      digits.take whole ++ '.' :: digits.drop whole
  else if -5 ≤ top ∧ top < 0 then
    ['0', '.'] ++ List.replicate (-top - 1).toNat '0' ++ digits
  else
    frontText digits ++ (if top < 0 then ['e', '-'] else ['e', '+']) ++ Nat.toDigits 10 top.natAbs

theorem renderFloat_eq (x : Binary64) : renderFloat x = String.ofList
    (if x.negative then '-' :: floatText x.shortest.1 x.shortest.2
      else floatText x.shortest.1 x.shortest.2) := rfl

theorem encodeChars_zeros (n : Nat) :
    Utf8.encodeChars (List.replicate n '0') = digitsText (List.replicate n 0) := by
  have hdigit : ∀ c ∈ List.replicate n '0', c.isDigit = true := fun c hc => by
    rw [List.eq_of_mem_replicate hc]
    rfl
  rw [Decimal.encodeChars_digits hdigit, List.map_replicate]
  rfl

theorem IsInteger.append_digits (hd : d ≠ 0) (es : List (Fin 10)) : IsInteger (digits d ++ es) := by
  obtain ⟨first, ds, hds, hfirst⟩ := Decimal.exists_first hd
  rw [hds, List.cons_append]
  exact .cons hfirst _

theorem IsInteger.take_digits (hd : d ≠ 0) {n : Nat} (hn : n ≠ 0) :
    IsInteger ((digits d).take n) := by
  obtain ⟨first, ds, hds, hfirst⟩ := Decimal.exists_first hd
  obtain ⟨k, rfl⟩ := Nat.exists_eq_succ_of_ne_zero hn
  rw [hds, List.take_succ_cons]
  exact .cons hfirst _

theorem isReadable_whole (hd : d ≠ 0) {k : Nat} (hk : k + (digits d).length ≤ 16) :
    IsReadable negative (Utf8.encodeChars
      (Nat.toDigits 10 d ++ List.replicate k '0' ++ ['.', '0'])) := by
  have htext : Utf8.encodeChars (Nat.toDigits 10 d ++ List.replicate k '0' ++ ['.', '0']) =
      digitsText (digits d ++ List.replicate k 0) ++ byte '.' :: digitsText [0] := by
    rw [Utf8.encodeChars_append, Utf8.encodeChars_append, Decimal.encodeChars_toDigits,
      encodeChars_zeros, digitsText, digitsText, digitsText, List.map_append]
    rfl
  rw [htext]
  refine isReadable_decimal (.append_digits hd _) (List.cons_ne_nil _ _) ?_
  have hvalue : numeral (digits d ++ List.replicate k 0 ++ [0]) = d * 10 ^ k * 10 := by
    rw [Decimal.numeral_append, Decimal.numeral_append, Decimal.numeral_zeros,
      Decimal.numeral_digits, List.length_replicate]
    rfl
  have hlt : d * 10 ^ k < 10 ^ 16 := by
    calc d * 10 ^ k < 10 ^ (digits d).length * 10 ^ k := by
          rw [Decimal.length_digits]
          exact Nat.mul_lt_mul_of_pos_right (Decimal.lt_pow_length d) (Nat.pow_pos (by decide))
      _ = 10 ^ ((digits d).length + k) := (Nat.pow_add _ _ _).symm
      _ ≤ 10 ^ 16 := Nat.pow_le_pow_right (by decide) (by omega)
  rw [hvalue, Decimal.max64]
  omega

theorem isReadable_split (hd : d ≠ 0) (hle : d ≤ Decimal.max64) {n : Nat} (hn : n ≠ 0)
    (hlt : n < (digits d).length) : IsReadable negative (Utf8.encodeChars
      ((Nat.toDigits 10 d).take n ++ '.' :: (Nat.toDigits 10 d).drop n)) := by
  have hall := Decimal.isDigit_toDigits d
  have htext : Utf8.encodeChars ((Nat.toDigits 10 d).take n ++ '.' :: (Nat.toDigits 10 d).drop n) =
      digitsText ((digits d).take n) ++ byte '.' :: digitsText ((digits d).drop n) := by
    rw [Utf8.encodeChars_append, Utf8.encodeChars_cons,
      Decimal.encodeChars_digits fun c hc => hall c (List.mem_of_mem_take hc),
      Decimal.encodeChars_digits fun c hc => hall c (List.mem_of_mem_drop hc),
      List.map_take, List.map_drop]
    rfl
  rw [htext]
  refine isReadable_decimal (.take_digits hd hn) (List.ne_nil_of_length_pos ?_) ?_
  · rw [List.length_drop]
    omega
  · rwa [List.take_append_drop, Decimal.numeral_digits]

theorem isReadable_small (hd : d ≠ 0) (hle : d ≤ Decimal.max64) (k : Nat) :
    IsReadable negative (Utf8.encodeChars
      (['0', '.'] ++ List.replicate k '0' ++ Nat.toDigits 10 d)) := by
  have htext : Utf8.encodeChars (['0', '.'] ++ List.replicate k '0' ++ Nat.toDigits 10 d) =
      digitsText [0] ++ byte '.' :: digitsText (List.replicate k 0 ++ digits d) := by
    rw [Utf8.encodeChars_append, Utf8.encodeChars_append, Decimal.encodeChars_toDigits,
      encodeChars_zeros, digitsText, digitsText, digitsText, digitsText, List.map_append]
    rfl
  rw [htext]
  refine isReadable_decimal .zero ?_ ?_
  · obtain ⟨first, ds, hds, -⟩ := Decimal.exists_first hd
    rw [hds]
    exact List.append_ne_nil_of_right_ne_nil _ (List.cons_ne_nil _ _)
  · show numeral (List.replicate (k + 1) 0 ++ digits d) ≤ Decimal.max64
    rwa [Decimal.numeral_append, Decimal.numeral_zeros, Nat.zero_mul, Nat.zero_add,
      Decimal.numeral_digits]

theorem encodeChars_frontText {c : Char} {cs : List Char} (h : ∀ b ∈ c :: cs, b.isDigit = true) :
    Utf8.encodeChars (frontText (c :: cs)) =
      digitByte (Decimal.digitOf c).val :: afterFirst (cs.map Decimal.digitOf) := by
  have hall := Decimal.encodeChars_digits h
  obtain ⟨hc, hcs⟩ := List.forall_mem_cons.1 h
  cases cs with
  | nil => exact hall
  | cons c' cs =>
    have hfirst : Utf8.encodeChars [c] = digitsText ([c].map Decimal.digitOf) :=
      Decimal.encodeChars_digits (List.forall_mem_singleton.2 hc)
    have hne : (c' :: cs).map Decimal.digitOf ≠ [] := List.cons_ne_nil _ _
    show Utf8.encodeChars ([c] ++ '.' :: (c' :: cs)) = _
    rw [Utf8.encodeChars_append, hfirst, Utf8.encodeChars_cons, Decimal.encodeChars_digits hcs,
      afterFirst, if_neg hne]
    rfl

theorem upper_le_limit (hx : x.IsFinite) : x.upper ≤ limit := by
  have hm := mantissa_add_one_le hx
  exact mul_le_mul (by linarith) (zpow_le_zpow_right₀ one_le_two hx.exponent_le)
    (zpow_pos two_pos _).le (by norm_num)

/-- the exponent of a finite float has at most three digits -/
theorem top_le (hx : x.IsFinite) (h : x.shortest = (d, place)) (hd : d ≠ 0) :
    place + (digits d).length - 1 ≤ 308 := by
  have hten : (10 : ℚ) ≠ 0 := by norm_num
  have hlen : (10 : ℚ) ^ (digits d).length ≤ d * 10 := by
    rw [Decimal.length_digits]
    exact_mod_cast Decimal.pow_length_le hd
  refine le_of_pow_le (le_trans ?_ ((x.shortest_le h).1.trans (upper_le_limit hx)))
  rw [zpow_sub_one₀ hten, zpow_add₀ hten, zpow_natCast, mul_comm ((10 : ℚ) ^ place), mul_right_comm]
  refine mul_le_mul_of_nonneg_right ?_ (zpow_pos (by norm_num) _).le
  rwa [← div_eq_mul_inv, div_le_iff₀ (by norm_num)]

theorem isReadable_exponent (hx : x.IsFinite) (h : x.shortest = (d, place)) (hd : d ≠ 0)
    {top : Int} (htop : top = place + (digits d).length - 1) (hne : top ≠ 0) :
    IsReadable negative (Utf8.encodeChars (frontText (Nat.toDigits 10 d) ++
      (if top < 0 then ['e', '-'] else ['e', '+']) ++ Nat.toDigits 10 top.natAbs)) := by
  obtain ⟨-, hle⟩ := x.shortest_le h
  obtain ⟨first, es, hes, hfirst⟩ := Decimal.exists_first hd
  obtain ⟨g, gs, hgs, -⟩ := Decimal.exists_first (Int.natAbs_ne_zero.2 hne)
  have hvalue : numeral (first :: es) = d := by rw [← hes, Decimal.numeral_digits]
  have hexponent : numeral (g :: gs) = top.natAbs := by rw [← hgs, Decimal.numeral_digits]
  have hfront : Utf8.encodeChars (frontText (Nat.toDigits 10 d)) =
      digitByte first.val :: afterFirst es := by
    have hdigit := Decimal.isDigit_toDigits d
    rw [digits] at hes
    cases hcs : Nat.toDigits 10 d with
    | nil =>
      rw [hcs] at hes
      cases hes
    | cons c cs =>
      rw [hcs] at hes hdigit
      rw [encodeChars_frontText hdigit]
      obtain ⟨rfl, rfl⟩ := List.cons.inj hes
      rfl
  have hmark : Utf8.encodeChars (if top < 0 then ['e', '-'] else ['e', '+']) =
      [byte 'e', if top < 0 then byte '-' else byte '+'] := by
    split
    · rfl
    · rfl
  rw [Utf8.encodeChars_append, Utf8.encodeChars_append, hfront, hmark,
    Decimal.encodeChars_toDigits, hgs, List.append_assoc, List.cons_append]
  refine isReadable_scientific hfirst (hvalue ▸ hle) ?_
  rw [hvalue]
  by_cases hneg : top < 0
  · rw [if_pos hneg]
    exact reads_exponent_down g gs (by omega) (exists_scale_nonpos hle)
  · rw [if_neg hneg]
    have hsmall := top_le hx h hd
    obtain ⟨y, hy⟩ := exists_scale_shortest hx h
    refine ⟨y, fun rest hrest => reads_exponent_up g gs ?_ ?_ hrest⟩
    · rw [hexponent, maxExponent]
      omega
    · have hplace : (0 : Int) - es.length + numeral (g :: gs) = place := by
        rw [hes, List.length_cons] at htop
        rw [hexponent]
        omega
      rw [hplace]
      exact hy

theorem isReadable_floatText (hx : x.IsFinite) (h : x.shortest = (d, place)) :
    IsReadable negative (Utf8.encodeChars (floatText d place)) := by
  have hlen : (Nat.toDigits 10 d).length = (digits d).length := (Decimal.length_digits d).symm
  obtain ⟨-, hle⟩ := x.shortest_le h
  rw [floatText]
  dsimp only
  rw [hlen]
  split
  · exact isReadable_decimal .zero (List.cons_ne_nil 0 []) (Nat.zero_le _)
  next hd =>
  split
  · next htop =>
    split
    · next hplace => exact isReadable_whole hd (by omega)
    · next hplace => exact isReadable_split hd hle (by omega) (by omega)
  · split
    · exact isReadable_small hd hle _
    · next hbelow => exact isReadable_exponent hx h hd rfl (by omega)

/-! ## numbers -/

inductive Number.IsProper : Number → Prop where
  | natural {n : Nat} (h : n ≤ Decimal.max64) : IsProper (.natural n)
  | negative {n : Nat} (h : 1 ≤ n ∧ n ≤ maxNegative) : IsProper (.negative n)
  | float {x : Binary64} (h : x.IsFinite) : IsProper (.float x)

theorem encode_render (n : Nat) : Utf8.encode (Decimal.render n) = digitsText (digits n) := by
  rw [Decimal.render, Utf8.encode_ofList, Decimal.encodeChars_toDigits]

theorem isInteger_digits (n : Nat) : IsInteger (digits n) := by
  by_cases hn : n = 0
  · subst hn
    exact .zero
  · obtain ⟨first, ds, hds, hfirst⟩ := Decimal.exists_first hn
    rw [hds]
    exact .cons hfirst ds

theorem isReadable_integer {n : Nat} (hn : n ≤ Decimal.max64) {result : Number}
    (h : ∀ rest, Closes rest → Reads (numberEnd negative n) [] rest result) :
    IsReadable negative (digitsText (digits n)) := by
  obtain ⟨first, more, htext⟩ := exists_digitsText (isInteger_digits n) []
  rw [List.append_nil] at htext
  refine ⟨first, more, result, htext, fun rest hrest => ?_⟩
  rw [← List.append_nil (digitsText (digits n))]
  rw [← Decimal.numeral_digits n] at hn h
  exact reads_number (isInteger_digits n) hn hrest.noDigit (h rest hrest)

/-- whatever a number is written as can be read -/
theorem Number.IsProper.readable {n : Number} (h : n.IsProper) : ∃ negative text,
    Utf8.encode n.render = signText negative ++ text ∧ IsReadable negative text := by
  cases h with
  | natural h =>
    exact ⟨false, _, encode_render _, isReadable_integer h fun rest => reads_numberEnd_natural⟩
  | negative h =>
    refine ⟨true, _, ?_, isReadable_integer (Nat.le_trans h.2 (by decide))
      fun rest => reads_numberEnd_negative h⟩
    rw [render, Utf8.encode_append, encode_render]
    rfl
  | @float x h =>
    refine ⟨x.negative, _, ?_, isReadable_floatText h (Prod.eta x.shortest).symm⟩
    rw [render, renderFloat_eq, Utf8.encode_ofList]
    cases x.negative with
    | false => rfl
    | true => rfl

end Federation.Json
