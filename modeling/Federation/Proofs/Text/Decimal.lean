import Federation.Proofs.Text.Utf8
import Federation.Text.Decimal
import Mathlib.Tactic.Ring

/-!
# Reading decimal numerals

A numeral is digits, with a `+` before them or without, and the reader accepts those whose value
stays within 64 bits.

* `Decimal.readFrom_eq_ok_iff`   digits behind a value;
* `Decimal.read_eq_ok_iff`       numerals.
-/

namespace Federation.Decimal

theorem value?_eq (d : Char) :
    value? d = if d.isDigit then some (d.toNat - '0'.toNat) else none := by
  rw [value?]
  simp only [Char.isDigit, Bool.and_eq_true, decide_eq_true_eq]
  rfl

theorem le_ofDigitChars (ds : List Char) (n : Nat) : n ≤ Nat.ofDigitChars 10 ds n := by
  rw [Nat.ofDigitChars_eq_ofDigitChars_zero]
  exact Nat.le_add_right_of_le (Nat.le_mul_of_pos_left n (Nat.pow_pos (by decide)))

/-- the value grows with every digit, so a bound on the whole is one on each part -/
theorem readFrom_eq_ok_iff {ds : List Char} {n v : Nat} (hn : n ≤ max64) :
    readFrom n ds = .ok v ↔
      (∀ d ∈ ds, d.isDigit = true) ∧ Nat.ofDigitChars 10 ds n = v ∧ v ≤ max64 := by
  induction ds generalizing n with
  | nil =>
    rw [readFrom_nil, Nat.ofDigitChars_nil]
    constructor
    · intro h
      cases h
      exact ⟨nofun, rfl, hn⟩
    · rintro ⟨-, rfl, -⟩
      rfl
  | cons d ds ih =>
    rw [readFrom, value?_eq, List.forall_mem_cons, Nat.ofDigitChars_cons, Nat.mul_comm 10]
    by_cases hd : d.isDigit = true
    · rw [if_pos hd]
      dsimp only
      by_cases hle : n * 10 + (d.toNat - '0'.toNat) ≤ max64
      · rw [if_neg (Nat.not_lt.2 hle), ih hle]
        exact ⟨fun ⟨hds, hv⟩ => ⟨⟨hd, hds⟩, hv⟩, fun ⟨⟨_, hds⟩, hv⟩ => ⟨hds, hv⟩⟩
      · rw [if_pos (Nat.not_le.1 hle)]
        constructor
        · exact fun h => (nomatch h)
        · rintro ⟨-, rfl, hv⟩
          exact absurd (Nat.le_trans (le_ofDigitChars ds _) hv) hle
    · rw [if_neg hd]
      exact ⟨fun h => (nomatch h), fun h => absurd h.1.1 hd⟩

/-- digits of a value within 64 bits, with a `+` before them or without -/
structure IsNumeral (cs : List Char) (n : Nat) : Prop where
  written : ∃ ds : List Char, (cs = ds ∨ cs = '+' :: ds) ∧ ds ≠ [] ∧
    (∀ d ∈ ds, d.isDigit = true) ∧ Nat.ofDigitChars 10 ds 0 = n
  le_max : n ≤ max64

theorem read_eq_ok_iff {s : String} {n : Nat} : read s = .ok n ↔ IsNumeral s.toList n := by
  have hplus : ('+').isDigit = false := by decide
  rw [read]
  split
  · next hs =>
    constructor
    · exact fun h => (nomatch h)
    · rintro ⟨⟨ds, hcs | hcs, hne, -⟩, -⟩
      · exact absurd (hcs.symm.trans hs) hne
      · rw [hs] at hcs
        cases hcs
  · next hs =>
    constructor
    · exact fun h => (nomatch h)
    · rintro ⟨⟨ds, hcs | hcs, hne, hds, -⟩, -⟩
      · rw [hs] at hcs
        subst hcs
        have h := hds '+' List.mem_cons_self
        rw [hplus] at h
        cases h
      · rw [hs] at hcs
        cases hcs
        exact absurd rfl hne
  · next cs hne hs =>
    rw [readFrom_eq_ok_iff (Nat.zero_le _), hs]
    constructor
    · rintro ⟨hds, hv, hle⟩
      exact ⟨⟨cs, .inr rfl, hne, hds, hv⟩, hle⟩
    · rintro ⟨⟨ds, hcs | hcs, -, hds, hv⟩, hle⟩
      · subst hcs
        have h := hds '+' List.mem_cons_self
        rw [hplus] at h
        cases h
      · cases hcs
        exact ⟨hds, hv, hle⟩
  · next hnil hplus' hcons =>
    rw [readFrom_eq_ok_iff (Nat.zero_le _)]
    constructor
    · rintro ⟨hds, hv, hle⟩
      exact ⟨⟨s.toList, .inl rfl, hnil, hds, hv⟩, hle⟩
    · rintro ⟨⟨ds, hcs | hcs, -, hds, hv⟩, hle⟩
      · rw [hcs]
        exact ⟨hds, hv, hle⟩
      · exact absurd hcs (hcons ds)

/-! ## digits as bytes -/

def digitByte (d : Nat) : UInt8 := UInt8.ofNat (48 + d)

/-- the bytes of digits -/
def digitsText (ds : List (Fin 10)) : List UInt8 := ds.map fun d => digitByte d.val

theorem digitsText_cons (d : Fin 10) (ds : List (Fin 10)) :
    digitsText (d :: ds) = digitByte d.val :: digitsText ds := rfl

/-- the value of digits -/
def numeral (ds : List (Fin 10)) : Nat := ds.foldl (fun n d => n * 10 + d.val) 0

theorem numeral_append (ds es : List (Fin 10)) :
    numeral (ds ++ es) = numeral ds * 10 ^ es.length + numeral es := by
  have hacc : ∀ (es : List (Fin 10)) (n : Nat),
      es.foldl (fun n d => n * 10 + d.val) n = n * 10 ^ es.length + numeral es := by
    intro es
    induction es with
    | nil => exact fun n => (Nat.mul_one n).symm
    | cons e es ih =>
      intro n
      rw [numeral, List.foldl_cons, List.foldl_cons, ih, ih (0 * 10 + e.val), List.length_cons,
        Nat.pow_succ]
      ring
  rw [numeral, List.foldl_append, hacc es]
  rfl

theorem numeral_cons (d : Fin 10) (ds : List (Fin 10)) :
    numeral (d :: ds) = d.val * 10 ^ ds.length + numeral ds := by
  have h := numeral_append [d] ds
  have hone : numeral [d] = d.val := by rw [numeral, List.foldl_cons, List.foldl_nil, Nat.zero_mul,
    Nat.zero_add]
  rw [hone] at h
  exact h

theorem numeral_zeros (n : Nat) : numeral (List.replicate n 0) = 0 := by
  induction n with
  | zero => rfl
  | succ n ih =>
    rw [List.replicate_succ, numeral_cons, ih]
    exact Nat.zero_mul _

/-! A reader of digits keeps the value `n` of those that it has read, and the digits `ds` that come
next make it `n * 10 ^ ds.length + numeral ds`. -/

theorem behind_nil (n : Nat) : n * 10 ^ ([] : List (Fin 10)).length + numeral [] = n :=
  Nat.mul_one n

theorem behind_cons (n : Nat) (d : Fin 10) (ds : List (Fin 10)) :
    n * 10 ^ (d :: ds).length + numeral (d :: ds) =
      (n * 10 + d.val) * 10 ^ ds.length + numeral ds := by
  rw [numeral_cons, List.length_cons, Nat.pow_succ]
  ring

theorem le_behind (n : Nat) (ds : List (Fin 10)) : n ≤ n * 10 ^ ds.length + numeral ds :=
  Nat.le_add_right_of_le (Nat.le_mul_of_pos_right _ (Nat.pow_pos (by decide)))

theorem numeral_lt (ds : List (Fin 10)) : numeral ds < 10 ^ ds.length := by
  induction ds with
  | nil => exact Nat.one_pos
  | cons d ds ih =>
    have hd := Nat.mul_le_mul_right (10 ^ ds.length) (Nat.le_of_lt_succ d.isLt)
    rw [numeral_cons, List.length_cons, Nat.pow_succ]
    omega

theorem toNat_digitByte (d : Fin 10) : (digitByte d.val).toNat = 48 + d.val := by
  have h := d.isLt
  rw [digitByte, UInt8.toNat_ofNat', Nat.mod_eq_of_lt (by omega)]

theorem digitByte_injective {d e : Fin 10} (h : digitByte d.val = digitByte e.val) : d = e := by
  have hnat := congrArg UInt8.toNat h
  rw [toNat_digitByte, toNat_digitByte] at hnat
  exact Fin.ext (by omega)

theorem digitsText_injective {ds es : List (Fin 10)} (h : digitsText ds = digitsText es) :
    ds = es :=
  (List.map_inj_right fun _ _ => digitByte_injective).1 h

theorem length_digitsText (ds : List (Fin 10)) : (digitsText ds).length = ds.length :=
  List.length_map _

theorem exists_digits {p : UInt8 → Bool} (hp : ∀ b, p b = true ↔ ∃ d : Fin 10, b = digitByte d.val)
    (bs : List UInt8) : ∃ ds rest, bs = digitsText ds ++ rest ∧ bs.takeWhile p = digitsText ds ∧
      ∀ b ∈ rest.head?, p b = false := by
  induction bs with
  | nil => exact ⟨[], [], rfl, rfl, nofun⟩
  | cons b bs ih =>
    cases hb : p b with
    | false =>
      refine ⟨[], b :: bs, rfl, List.takeWhile_cons_of_neg (by rw [hb]; decide), ?_⟩
      intro b' hb'
      cases hb'
      exact hb
    | true =>
      obtain ⟨d, rfl⟩ := (hp b).1 hb
      obtain ⟨ds, rest, hbs, htake, hrest⟩ := ih
      refine ⟨d :: ds, rest, congrArg _ hbs, ?_, hrest⟩
      rw [List.takeWhile_cons_of_pos hb, htake]
      rfl

theorem takeWhile_digits {p : UInt8 → Bool}
    (hp : ∀ b, p b = true ↔ ∃ d : Fin 10, b = digitByte d.val) (ds : List (Fin 10))
    {rest : List UInt8} (h : ∀ b ∈ rest.head?, p b = false) :
    (digitsText ds ++ rest).takeWhile p = digitsText ds := by
  have hds : ∀ b ∈ digitsText ds, p b = true := fun b hb => by
    obtain ⟨d, -, rfl⟩ := List.mem_map.1 hb
    exact (hp _).2 ⟨d, rfl⟩
  rw [List.takeWhile_append_of_pos hds]
  cases rest with
  | nil => rw [List.takeWhile_nil, List.append_nil]
  | cons b rest =>
    rw [List.takeWhile_cons_of_neg (by rw [h b rfl]; decide), List.append_nil]

/-! ## the digits of a number -/

theorem lt_pow_length (n : Nat) : n < 10 ^ (Nat.toDigits 10 n).length :=
  (Nat.length_toDigits_le_iff (by decide) Nat.length_toDigits_pos).1 (le_refl _)

theorem pow_length_le {n : Nat} (hn : n ≠ 0) : 10 ^ (Nat.toDigits 10 n).length ≤ n * 10 := by
  obtain ⟨k, hk⟩ := Nat.exists_eq_succ_of_ne_zero
    (Nat.length_toDigits_pos (b := 10) (n := n)).ne'
  rw [hk, Nat.pow_succ]
  refine Nat.mul_le_mul_right 10 ?_
  cases k with
  | zero => exact Nat.one_le_iff_ne_zero.2 hn
  | succ k =>
    by_contra hlt
    have hle := (Nat.length_toDigits_le_iff (b := 10) (by decide) (Nat.succ_pos k)).2
      (not_le.1 hlt)
    omega

theorem length_mono {m n : Nat} (h : m ≤ n) :
    (Nat.toDigits 10 m).length ≤ (Nat.toDigits 10 n).length :=
  (Nat.length_toDigits_le_iff (by decide) Nat.length_toDigits_pos).2
    (h.trans_lt (lt_pow_length n))

def digitOf (c : Char) : Fin 10 := Fin.ofNat 10 (c.toNat - 48)

def digits (n : Nat) : List (Fin 10) := (Nat.toDigits 10 n).map digitOf

theorem length_digits (n : Nat) : (digits n).length = (Nat.toDigits 10 n).length :=
  List.length_map _

theorem toNat_of_isDigit {c : Char} (h : c.isDigit = true) : 48 ≤ c.toNat ∧ c.toNat ≤ 57 := by
  rw [Char.isDigit, Bool.and_eq_true, decide_eq_true_eq, decide_eq_true_eq] at h
  exact h

theorem val_digitOf {c : Char} (h : c.isDigit = true) : (digitOf c).val = c.toNat - 48 := by
  have hc := toNat_of_isDigit h
  exact Nat.mod_eq_of_lt (by omega)

variable {cs : List Char}

theorem encodeChars_digits (h : ∀ c ∈ cs, c.isDigit = true) :
    Utf8.encodeChars cs = digitsText (cs.map digitOf) := by
  have hascii : ∀ c ∈ cs, c.toNat ≤ 0x7F := fun c hc =>
    Nat.le_trans (toNat_of_isDigit (h c hc)).2 (by decide)
  rw [Utf8.encodeChars_of_ascii hascii, digitsText, List.map_map]
  refine List.map_congr_left fun c hc => ?_
  have hlow := (toNat_of_isDigit (h c hc)).1
  rw [Function.comp_apply, digitByte, val_digitOf (h c hc), Nat.add_sub_cancel' hlow]

theorem isDigit_toDigits (n : Nat) : ∀ c ∈ Nat.toDigits 10 n, c.isDigit = true :=
  fun _ hc => Nat.isDigit_of_mem_toDigits (by decide) (by decide) hc

theorem encodeChars_toDigits (n : Nat) :
    Utf8.encodeChars (Nat.toDigits 10 n) = digitsText (digits n) :=
  encodeChars_digits (isDigit_toDigits n)

theorem numeral_digits (n : Nat) : numeral (digits n) = n := by
  have hfold : ∀ (cs : List Char), (∀ c ∈ cs, c.isDigit = true) → ∀ k,
      (cs.map digitOf).foldl (fun k d => k * 10 + d.val) k = Nat.ofDigitChars 10 cs k := by
    intro cs
    induction cs with
    | nil => exact fun _ _ => rfl
    | cons c cs ih =>
      intro h k
      obtain ⟨hc, hcs⟩ := List.forall_mem_cons.1 h
      rw [List.map_cons, List.foldl_cons, ih hcs, Nat.ofDigitChars_cons, val_digitOf hc,
        Nat.mul_comm]
      rfl
  rw [numeral, digits, hfold _ (isDigit_toDigits n),
    Nat.ofDigitChars_toDigits (by decide) (by decide)]

theorem exists_first {n : Nat} (hn : n ≠ 0) : ∃ d ds, digits n = d :: ds ∧ d ≠ 0 := by
  cases hds : digits n with
  | nil =>
    have hlen := length_digits n
    rw [hds] at hlen
    exact absurd hlen.symm Nat.length_toDigits_pos.ne'
  | cons d ds =>
    refine ⟨d, ds, rfl, ?_⟩
    rintro rfl
    have hlt := numeral_lt ds
    have hle := pow_length_le hn
    have hvalue := numeral_digits n
    rw [hds, numeral_cons] at hvalue
    rw [← length_digits, hds, List.length_cons, Nat.pow_succ] at hle
    have hzero : (0 : Fin 10).val * 10 ^ ds.length = 0 := Nat.zero_mul _
    omega

end Federation.Decimal
