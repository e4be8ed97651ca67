import Federation.Proofs.Text.Decimal
import Federation.Proofs.Text.Reading
import Federation.Proofs.Time.Calendar
import Mathlib.Tactic.Ring

/-!
# How timestamps are written

A timestamp is written from a day of the calendar, a time of day, a fraction of any length and a
zone.  `Written.instant` is the point in time that is meant, counted along the calendar, and the
reader accepts just what is written so.

* `Timestamp.parts_eq_ok_iff`   the parts of a timestamp, from left to right;
* `Timestamp.endsMonth_iff`     where a second `60` may stand;
* `Timestamp.read_eq_ok_iff`    the texts that are accepted;
* `Timestamp.Written.instant_congr`
                                what may be different in them, and the instant be the same;
* `Timestamp.denotes_iff`       and the instant that each of them denotes.
-/

namespace Federation.Timestamp

open Decimal (digitByte digitsText numeral numeral_append numeral_cons numeral_lt)

/-! ## numerals -/

/-- the last `n` digits of `k` -/
def digitBytes : Nat → Nat → Bytes
  | 0, _ => []
  | n + 1, k => digitByte (k / 10 ^ n % 10) :: digitBytes n k

theorem digit?_digitByte : ∀ d < 10, digit? (digitByte d) = some d := by decide

theorem digit?_eq_some_iff {b : UInt8} {d : Nat} :
    digit? b = some d ↔ d < 10 ∧ b = digitByte d := by
  constructor
  · intro h
    unfold digit? at h
    split at h
    · next hb =>
      obtain ⟨hlow, hhigh⟩ := hb
      rw [UInt8.le_iff_toNat_le] at hlow hhigh
      simp only [UInt8.reduceToNat] at hlow hhigh
      obtain rfl := Option.some.inj h
      refine ⟨by omega, ?_⟩
      rw [digitByte, Nat.add_sub_cancel' hlow, UInt8.ofNat_toNat]
    · cases h
  · rintro ⟨hd, rfl⟩
    exact digit?_digitByte d hd

theorem digitBytes_add (n k m : Nat) : digitBytes n (m * 10 ^ n + k) = digitBytes n k := by
  induction n generalizing m with
  | zero => rfl
  | succ n ih =>
    have hsum : m * 10 ^ (n + 1) + k = m * 10 * 10 ^ n + k := by
      rw [Nat.pow_succ, Nat.mul_comm (10 ^ n), Nat.mul_assoc]
    have hdigit : (m * 10 * 10 ^ n + k) / 10 ^ n % 10 = k / 10 ^ n % 10 := by
      rw [Nat.mul_comm, Nat.mul_add_div (Nat.pow_pos (by decide))]
      omega
    rw [digitBytes, digitBytes, hsum, hdigit, ih]

/-! ## parts in sequence -/

theorem unless_eq_ok_iff {β : Type} {p : Part β} {bs rest : Bytes} {b : β} {c : Prop} [Decidable c]
    {fault : Fault} : (if c then refuse fault else p) bs = .ok (b, rest) ↔
      ¬c ∧ p bs = .ok (b, rest) := by
  rw [ite_apply]
  exact guarded_eq_ok_iff

section
variable {bs rest : Bytes}

theorem digitsFrom_eq_ok_iff (name : String) (n acc v : Nat) :
    digitsFrom name acc n bs = .ok (v, rest) ↔
      ∃ k < 10 ^ n, bs = digitBytes n k ++ rest ∧ v = acc * 10 ^ n + k := by
  induction n generalizing acc bs with
  | zero =>
    rw [digitsFrom, pure_eq_ok_iff]
    constructor
    · rintro ⟨rfl, rfl⟩
      exact ⟨0, Nat.one_pos, rfl, (Nat.mul_one _).symm⟩
    · rintro ⟨k, hk, rfl, rfl⟩
      refine ⟨?_, rfl⟩
      omega
  | succ n ih =>
    constructor
    · intro h
      cases bs with
      | nil => cases h
      | cons b bs =>
        rw [digitsFrom] at h
        dsimp only at h
        cases hd : digit? b with
        | none =>
          rw [hd] at h
          cases h
        | some d =>
          rw [hd] at h
          obtain ⟨hlt, rfl⟩ := digit?_eq_some_iff.1 hd
          obtain ⟨k, hk, rfl, rfl⟩ := (ih _).1 h
          have hdigit : (d * 10 ^ n + k) / 10 ^ n % 10 = d := by
            rw [Nat.mul_comm, Nat.mul_add_div (Nat.pow_pos (by decide)), Nat.div_eq_of_lt hk]
            omega
          refine ⟨d * 10 ^ n + k, ?_, ?_, ?_⟩
          · have hle := Nat.mul_le_mul_right (10 ^ n) (Nat.le_of_lt_succ hlt)
            rw [Nat.pow_succ]
            omega
          · rw [digitBytes, hdigit, digitBytes_add]
            rfl
          · rw [Nat.pow_succ, Nat.add_mul, Nat.mul_assoc, Nat.mul_comm 10, Nat.add_assoc]
    · rintro ⟨k, hk, rfl, rfl⟩
      have hlt : k / 10 ^ n < 10 := by
        rw [Nat.div_lt_iff_lt_mul (Nat.pow_pos (by decide)), Nat.mul_comm, ← Nat.pow_succ]
        exact hk
      have hd : k / 10 ^ n % 10 = k / 10 ^ n := Nat.mod_eq_of_lt hlt
      rw [digitBytes, hd, List.cons_append, digitsFrom]
      dsimp only
      rw [digit?_digitByte _ hlt]
      refine (ih _).2 ⟨k % 10 ^ n, Nat.mod_lt _ (Nat.pow_pos (by decide)), ?_, ?_⟩
      · conv =>
          lhs
          rw [← Nat.div_add_mod k (10 ^ n), Nat.mul_comm, digitBytes_add]
      · conv =>
          lhs
          rw [← Nat.div_add_mod k (10 ^ n)]
        rw [Nat.pow_succ, Nat.add_mul, Nat.mul_assoc, Nat.mul_comm 10,
          Nat.mul_comm (10 ^ n) (k / 10 ^ n), Nat.add_assoc]

theorem digits_eq_ok_iff {name : String} {n k : Nat} : digits name n bs = .ok (k, rest) ↔
    k < 10 ^ n ∧ bs = digitBytes n k ++ rest := by
  rw [digits, digitsFrom_eq_ok_iff]
  constructor
  · rintro ⟨k', hk, rfl, rfl⟩
    rw [Nat.zero_mul, Nat.zero_add]
    exact ⟨hk, rfl⟩
  · rintro ⟨hk, rfl⟩
    exact ⟨k, hk, rfl, by rw [Nat.zero_mul, Nat.zero_add]⟩

theorem mark_eq_ok_iff {c : Char} {u : Unit} :
    mark c bs = .ok (u, rest) ↔ bs = UInt8.ofNat c.toNat :: rest := by
  cases bs with
  | nil =>
    constructor
    · intro h
      cases h
    · intro h
      cases h
  | cons b bs =>
    rw [mark]
    by_cases h : b = UInt8.ofNat c.toNat
    · rw [if_pos h, h]
      constructor
      · intro h
        cases h
        rfl
      · intro h
        cases h
        rfl
    · rw [if_neg h]
      constructor
      · intro h'
        cases h'
      · intro h'
        cases h'
        exact absurd rfl h

theorem separator_eq_ok_iff {u : Unit} : separator bs = .ok (u, rest) ↔ ∃ b, bs = b :: rest := by
  cases bs with
  | nil =>
    constructor
    · intro h
      cases h
    · rintro ⟨_, h⟩
      cases h
  | cons b bs =>
    constructor
    · intro h
      cases h
      exact ⟨b, rfl⟩
    · rintro ⟨_, h⟩
      cases h
      rfl

end

/-! ## fractions -/

/-- the nanoseconds of a fraction, those that are begun not counted -/
def nanos (ds : List (Fin 10)) : Nat := numeral ds * 10 ^ 9 / 10 ^ ds.length

def fractionBytes : List (Fin 10) → Bytes
  | [] => []
  | d :: ds => 0x2E :: digitsText (d :: ds)

theorem nanos_append_zeros (ds : List (Fin 10)) (n : Nat) :
    nanos (ds ++ List.replicate n 0) = nanos ds := by
  rw [nanos, nanos, numeral_append, Decimal.numeral_zeros, List.length_append,
    List.length_replicate, Nat.add_zero, Nat.pow_add, Nat.mul_right_comm,
    Nat.mul_div_mul_right _ _ (Nat.pow_pos (by decide))]

theorem fractionValue_zero (ds : List Nat) : fractionValue 0 ds = 0 := by
  induction ds with
  | nil => rfl
  | cons d ds ih => rw [fractionValue, Nat.zero_div, ih, Nat.mul_zero]

theorem fractionValue_pow (ds : List (Fin 10)) (j : Nat) :
    fractionValue (10 ^ j) (ds.map Fin.val) = numeral ds * 10 ^ (j + 1) / 10 ^ ds.length := by
  induction ds generalizing j with
  | nil =>
    have hzero : numeral [] = 0 := rfl
    rw [hzero, Nat.zero_mul, Nat.zero_div]
    rfl
  | cons d ds ih =>
    have hpos : 0 < 10 ^ ds.length := Nat.pow_pos (by decide)
    have hrest : fractionValue (10 ^ j / 10) (ds.map Fin.val)
        = numeral ds * 10 ^ j / 10 ^ ds.length := by
      cases j with
      | zero =>
        rw [Nat.pow_zero, Nat.mul_one, Nat.div_eq_of_lt (numeral_lt ds)]
        exact fractionValue_zero _
      | succ j => rw [Nat.pow_succ 10 j, Nat.mul_div_cancel _ (by decide), ih, Nat.pow_succ]
    have hsum : (d.val * 10 ^ ds.length + numeral ds) * 10 ^ (j + 1)
        = (10 ^ ds.length * (d.val * 10 ^ j) + numeral ds * 10 ^ j) * 10 := by
      rw [Nat.pow_succ]
      ring
    rw [List.map_cons, fractionValue, hrest, numeral_cons, List.length_cons, hsum,
      Nat.pow_succ 10 ds.length, Nat.mul_div_mul_right _ _ (by decide), Nat.mul_add_div hpos]

section
variable {bs rest : Bytes}

theorem digit?_isSome_iff (b : UInt8) :
    (digit? b).isSome = true ↔ ∃ d : Fin 10, b = digitByte d.val := by
  rw [Option.isSome_iff_exists]
  constructor
  · rintro ⟨d, hd⟩
    obtain ⟨hlt, rfl⟩ := digit?_eq_some_iff.1 hd
    exact ⟨⟨d, hlt⟩, rfl⟩
  · rintro ⟨d, rfl⟩
    exact ⟨d.val, digit?_digitByte _ d.isLt⟩

theorem filterMap_digits (ds : List (Fin 10)) :
    (digitsText ds).filterMap digit? = ds.map Fin.val := by
  induction ds with
  | nil => rfl
  | cons d ds ih =>
    rw [digitsText, List.map_cons, List.filterMap_cons, digit?_digitByte _ d.isLt]
    exact congrArg _ ih

theorem fraction_dot {d : Fin 10} {ds : List (Fin 10)}
    (h : bs.takeWhile (fun b => (digit? b).isSome) = digitsText (d :: ds)) :
    fraction (0x2E :: bs) = .ok (nanos (d :: ds), bs.drop (d :: ds).length) := by
  have hvalue := fractionValue_pow (d :: ds) 8
  rw [← filterMap_digits] at hvalue
  have hlen := Decimal.length_digitsText (d :: ds)
  simp only [fraction, h, digitsText, List.map_cons] at hvalue hlen ⊢
  rw [nanos, hlen]
  exact congrArg (fun v => Except.ok (v, _)) hvalue

theorem fraction_none (h : bs.head? ≠ some 0x2E) : fraction bs = .ok (0, bs) := by
  cases bs with
  | nil => rfl
  | cons b bs =>
    unfold fraction
    split
    · next heq =>
      cases heq
      exact absurd rfl h
    · rfl

theorem fraction_of_layout (ds : List (Fin 10))
    (h : ∀ b ∈ rest.head?, digit? b = none ∧ b ≠ 0x2E) :
    fraction (fractionBytes ds ++ rest) = .ok (nanos ds, rest) := by
  cases ds with
  | nil => exact fraction_none fun hdot => (h 0x2E hdot).2 rfl
  | cons d ds =>
    have hstop : ∀ b ∈ rest.head?, (digit? b).isSome = false := fun b hb => by
      rw [(h b hb).1]
      rfl
    have htake := Decimal.takeWhile_digits digit?_isSome_iff (d :: ds) hstop
    rw [fractionBytes, List.cons_append, fraction_dot htake, ← Decimal.length_digitsText,
      List.drop_left]

theorem exists_fraction {v : Nat} (h : fraction bs = .ok (v, rest)) :
    ∃ ds, bs = fractionBytes ds ++ rest ∧ v = nanos ds := by
  by_cases hdot : bs.head? = some 0x2E
  · obtain ⟨tail, rfl⟩ : ∃ tail, bs = 0x2E :: tail := List.head?_eq_some_iff.1 hdot
    obtain ⟨ds, behind, htail, hds, -⟩ := Decimal.exists_digits digit?_isSome_iff tail
    cases ds with
    | nil =>
      simp only [fraction, hds, digitsText, List.map_nil] at h
      cases h
    | cons d ds =>
      rw [fraction_dot hds, htail, ← Decimal.length_digitsText, List.drop_left] at h
      cases h
      exact ⟨d :: ds, congrArg _ htail, rfl⟩
  · rw [fraction_none hdot] at h
    cases h
    exact ⟨[], rfl, rfl⟩

end

/-! ## zones -/

inductive Zone where
  | utc (capital : Bool)
  | ahead (hours : Fin 24) (minutes : Fin 60)
  | behind (hours : Fin 24) (minutes : Fin 60)

namespace Zone

def clock (hours : Fin 24) (minutes : Fin 60) : Bytes :=
  digitBytes 2 hours.val ++ UInt8.ofNat ':'.toNat :: digitBytes 2 minutes.val

def bytes : Zone → Bytes
  | .utc capital => [if capital then 0x5A else 0x7A]
  | .ahead hours minutes => 0x2B :: clock hours minutes
  | .behind hours minutes => 0x2D :: clock hours minutes

/-- minutes ahead of UTC -/
def offset : Zone → Int
  | .utc _ => 0
  | .ahead hours minutes => (hours.val * 60 + minutes.val : Nat)
  | .behind hours minutes => -(hours.val * 60 + minutes.val : Nat)

theorem offset_bounds (z : Zone) : -1439 ≤ z.offset ∧ z.offset ≤ 1439 := by
  cases z with
  | utc =>
    simp only [offset]
    omega
  | ahead hours minutes | behind hours minutes =>
    have := hours.isLt
    have := minutes.isLt
    simp only [offset]
    omega

theorem head_bytes (z : Zone) (rest : Bytes) :
    ∀ b ∈ (z.bytes ++ rest).head?, digit? b = none ∧ b ≠ 0x2E := by
  intro b hb
  cases z with
  | utc capital =>
    cases capital <;>
    · cases hb
      decide
  | ahead hours minutes | behind hours minutes =>
    cases hb
    decide

end Zone

section
variable {bs rest : Bytes}

theorem signed_eq_ok_iff {sign o : Int} : offsetPart.signed sign bs = .ok (o, rest) ↔
    ∃ hours minutes, bs = Zone.clock hours minutes ++ rest ∧
      o = sign * (hours.val * 60 + minutes.val : Nat) := by
  simp only [offsetPart.signed, bind_eq_ok_iff, unless_eq_ok_iff, digits_eq_ok_iff, mark_eq_ok_iff,
    pure_eq_ok_iff]
  constructor
  · rintro ⟨hours, _, ⟨-, rfl⟩, hle, -, _, rfl, minutes, _, ⟨-, rfl⟩, hle', rfl, rfl⟩
    refine ⟨⟨hours, by omega⟩, ⟨minutes, by omega⟩, ?_, rfl⟩
    rw [Zone.clock, List.append_assoc, List.cons_append]
  · rintro ⟨⟨hours, hle⟩, ⟨minutes, hle'⟩, rfl, rfl⟩
    rw [Zone.clock, List.append_assoc, List.cons_append]
    exact ⟨hours, _, ⟨by omega, rfl⟩, by omega, (), _, rfl, minutes, _, ⟨by omega, rfl⟩, by omega,
      rfl, rfl⟩

theorem offsetPart_eq_ok_iff {o : Int} : offsetPart bs = .ok (o, rest) ↔
    ∃ z : Zone, bs = z.bytes ++ rest ∧ o = z.offset := by
  constructor
  · intro h
    unfold offsetPart at h
    split at h
    · cases h
      exact ⟨.utc true, rfl, rfl⟩
    · cases h
      exact ⟨.utc false, rfl, rfl⟩
    · obtain ⟨hours, minutes, rfl, rfl⟩ := signed_eq_ok_iff.1 h
      exact ⟨.ahead hours minutes, rfl, Int.one_mul _⟩
    · obtain ⟨hours, minutes, rfl, rfl⟩ := signed_eq_ok_iff.1 h
      exact ⟨.behind hours minutes, rfl, Int.neg_one_mul _⟩
    · cases h
  · rintro ⟨z, rfl, rfl⟩
    cases z with
    | utc capital =>
      cases capital with
      | true => rfl
      | false => rfl
    | ahead hours minutes =>
      exact signed_eq_ok_iff.2 ⟨hours, minutes, rfl, (Int.one_mul _).symm⟩
    | behind hours minutes =>
      exact signed_eq_ok_iff.2 ⟨hours, minutes, rfl, (Int.neg_one_mul _).symm⟩

/-! ## all parts -/

/-- the parts of a timestamp in their order -/
def layout (year month day : Nat) (separator : UInt8) (hour minute second : Nat)
    (fraction : List (Fin 10)) (zone : Zone) : Bytes :=
  digitBytes 4 year ++ UInt8.ofNat '-'.toNat :: (digitBytes 2 month ++ UInt8.ofNat '-'.toNat ::
    (digitBytes 2 day ++ separator :: (digitBytes 2 hour ++ UInt8.ofNat ':'.toNat ::
      (digitBytes 2 minute ++ UInt8.ofNat ':'.toNat :: (digitBytes 2 second ++
        (fractionBytes fraction ++ zone.bytes))))))

theorem parts_eq_ok_iff {t : Timestamp} : parts bs = .ok (t, []) ↔
    (t.year < 10 ^ 4 ∧ t.month < 10 ^ 2 ∧ t.month ≠ 0 ∧ t.day < 10 ^ 2 ∧ t.hour < 10 ^ 2 ∧
      t.minute < 10 ^ 2 ∧ t.second < 10 ^ 2) ∧
    ∃ separator fraction zone, t.nanosecond = nanos fraction ∧ t.offset = zone.offset ∧
      bs = layout t.year t.month t.day separator t.hour t.minute t.second fraction zone := by
  simp only [parts, bind_eq_ok_iff, unless_eq_ok_iff, digits_eq_ok_iff, mark_eq_ok_iff,
    separator_eq_ok_iff, offsetPart_eq_ok_iff, pure_eq_ok_iff]
  constructor
  · rintro ⟨year, _, ⟨hy, rfl⟩, -, _, rfl, month, _, ⟨hm, rfl⟩, hzero, -, _, rfl, day, _, ⟨hd, rfl⟩,
      -, _, ⟨separator, rfl⟩, hour, _, ⟨hh, rfl⟩, -, _, rfl, minute, _, ⟨hn, rfl⟩, -, _, rfl,
      second, _, ⟨hs, rfl⟩, nanosecond, _, hfraction, _, _, ⟨zone, rfl, rfl⟩, rfl, rfl⟩
    obtain ⟨fraction, rfl, rfl⟩ := exists_fraction hfraction
    refine ⟨⟨hy, hm, hzero, hd, hh, hn, hs⟩, separator, fraction, zone, rfl, rfl, ?_⟩
    rw [List.append_nil, layout]
  · rintro ⟨⟨hy, hm, hzero, hd, hh, hn, hs⟩, separator, fraction, zone, hnanos, hoffset, rfl⟩
    have hhead := zone.head_bytes []
    rw [List.append_nil] at hhead
    refine ⟨t.year, _, ⟨hy, rfl⟩, (), _, rfl, t.month, _, ⟨hm, rfl⟩, hzero, (), _, rfl, t.day, _,
      ⟨hd, rfl⟩, (), _, ⟨separator, rfl⟩, t.hour, _, ⟨hh, rfl⟩, (), _, rfl, t.minute, _, ⟨hn, rfl⟩,
      (), _, rfl, t.second, _, ⟨hs, rfl⟩, nanos fraction, _, fraction_of_layout fraction hhead,
      zone.offset, [], ⟨zone, (List.append_nil _).symm, rfl⟩, ?_, rfl⟩
    rw [← hnanos, ← hoffset]

/-! ## the values of the parts -/

theorem check_eq_ok_iff {t t' : Timestamp} : check t = .ok t' ↔
    (t.month ≤ 12 ∧ 1 ≤ t.day ∧ t.day ≤ monthLength t.year t.month ∧ t.hour ≤ 23 ∧
      t.minute ≤ 59) ∧
    (t.second ≤ 59 ∧ t' = t ∨
      t.second = 60 ∧ t' = { t with second := 59, nanosecond := 999999999 } ∧
        t'.endsMonth = true) := by
  unfold check
  by_cases hs : t.second = 60
  · simp only [hs, if_true, guarded_eq_ok_iff, Except.ok.injEq]
    constructor
    · rintro ⟨hm, hd, hh, hn, -, hleap, rfl⟩
      exact ⟨⟨by omega, by omega, by omega, by omega, by omega⟩,
        .inr ⟨trivial, rfl, by simpa using hleap⟩⟩
    · rintro ⟨⟨hm, hd, hd', hh, hn⟩, ⟨hlt, -⟩ | ⟨-, rfl, hleap⟩⟩
      · exact absurd hlt (by decide)
      · exact ⟨by omega, by omega, by omega, by omega, by omega, by simpa using hleap, rfl⟩
  · simp only [hs, if_false, guarded_eq_ok_iff, Except.ok.injEq]
    constructor
    · rintro ⟨hm, hd, hh, hn, hs', -, rfl⟩
      exact ⟨⟨by omega, by omega, by omega, by omega, by omega⟩, .inl ⟨by omega, rfl⟩⟩
    · rintro ⟨⟨hm, hd, hd', hh, hn⟩, ⟨hlt, rfl⟩ | ⟨hf, -⟩⟩
      · exact ⟨by omega, by omega, by omega, by omega, by omega, fun h => h.1, rfl⟩
      · exact hf.elim

end

/-! ## what is written, and what it means -/

def utcMinute (date : Date) (hour minute : Nat) (zone : Zone) : Int :=
  (date.number * 24 + hour) * 60 + minute - zone.offset

/-- whether a month ends with that minute -/
def EndsMonth (minute : Int) : Prop := ∃ d : Date, d.day = 1 ∧ minute + 1 = d.number * 1440

/-- what a timestamp is written from; but where a month ends in UTC, the seconds of a minute are
sixty -/
structure Written where
  date : Date
  separator : UInt8
  hour : Nat
  minute : Nat
  second : Nat
  fraction : List (Fin 10)
  zone : Zone
  year_le : date.year ≤ 9999
  hour_le : hour ≤ 23
  minute_le : minute ≤ 59
  second_le : second ≤ 60
  leap : second = 60 → EndsMonth (utcMinute date hour minute zone)

namespace Written

def bytes (w : Written) : Bytes :=
  layout w.date.year w.date.month w.date.day w.separator w.hour w.minute w.second w.fraction w.zone

/-- the nanoseconds from the start of 1970 in UTC; a second `60` is the last nanosecond before the
next minute, whatever its fraction -/
def instant (w : Written) : Int :=
  if w.second = 60 then (utcMinute w.date w.hour w.minute w.zone + 1) * 60 * 10 ^ 9 - 1
  else (utcMinute w.date w.hour w.minute w.zone * 60 + w.second) * 10 ^ 9 + nanos w.fraction

def raw (w : Written) : Timestamp :=
  ⟨w.date.year, w.date.month, w.date.day, w.hour, w.minute, w.second, nanos w.fraction,
    w.zone.offset⟩

def stamp (w : Written) : Timestamp :=
  if w.second = 60 then { w.raw with second := 59, nanosecond := 999999999 } else w.raw

theorem stamp_of_leap {w : Written} (h : w.second = 60) :
    w.stamp = { w.raw with second := 59, nanosecond := 999999999 } := if_pos h

theorem stamp_of_ne {w : Written} (h : w.second ≠ 60) : w.stamp = w.raw := if_neg h

theorem stamp_instant (w : Written) : w.stamp.instant = w.instant := by
  by_cases h : w.second = 60
  · have hday : w.stamp.dayNumber = w.date.number := by
      rw [stamp_of_leap h]
      exact dayNumber_eq _ _ rfl rfl rfl
    rw [Timestamp.instant, unixSecond, hday, instant, if_pos h, stamp_of_leap h, utcMinute, raw,
      Clock.second]
    push_cast
    ring
  · have hday : w.stamp.dayNumber = w.date.number := by
      rw [stamp_of_ne h]
      exact dayNumber_eq _ _ rfl rfl rfl
    rw [Timestamp.instant, unixSecond, hday, instant, if_neg h, stamp_of_ne h, utcMinute, raw,
      Clock.second]
    push_cast
    ring

end Written

/-- where in the calendar the second `59` of the last minute of a month may stand -/
theorem endsMonth_iff {t : Timestamp} {d : Date} {zone : Zone} (hd : t.dayNumber = d.number)
    (hday : t.day = d.day) (hlen : monthLength t.year t.month = monthLength d.year d.month)
    (hh : t.hour ≤ 23) (hm : t.minute ≤ 59) (hs : t.second = 59) (ho : t.offset = zone.offset) :
    t.endsMonth = true ↔ EndsMonth (utcMinute d t.hour t.minute zone) := by
  have hzone := zone.offset_bounds
  have hnumber := d.number_next
  have hone := d.next_day_eq_one_iff
  have hunix : t.unixSecond = utcMinute d t.hour t.minute zone * 60 + 59 := by
    rw [unixSecond, hd, hs, ho, utcMinute]
    push_cast
    ring
  have hlow : d.number * 1440 - 1439 ≤ utcMinute d t.hour t.minute zone := by
    rw [utcMinute]
    omega
  have hhigh : utcMinute d t.hour t.minute zone < d.number * 1440 + 2879 := by
    rw [utcMinute]
    omega
  generalize utcMinute d t.hour t.minute zone = u at hunix hlow hhigh ⊢
  simp only [endsMonth, hunix, hd, hday, hlen, Bool.and_eq_true, decide_eq_true_eq, EndsMonth]
  constructor
  · rintro ⟨hlast, hwhich⟩
    by_cases hneg : (u * 60 + 59) / 86400 - d.number < 0
    · rw [if_pos hneg, decide_eq_true_eq] at hwhich
      exact ⟨d, hwhich, by omega⟩
    · have hzero : (u * 60 + 59) / 86400 - d.number = 0 := by omega
      rw [if_neg hneg, if_pos hzero, decide_eq_true_eq] at hwhich
      exact ⟨d.next, hone.2 hwhich, by omega⟩
  · rintro ⟨e, he, hu⟩
    refine ⟨by omega, ?_⟩
    have hcases : e.number = d.number ∨ e.number = d.next.number := by omega
    rcases hcases with h | h
    · obtain rfl := Date.number_injective h
      rw [if_pos (by omega), decide_eq_true_eq]
      exact he
    · obtain rfl := Date.number_injective h
      rw [if_neg (by omega), if_pos (by omega), decide_eq_true_eq]
      exact hone.1 he

theorem read_eq_ok_iff {text : String} {t : Timestamp} :
    read text = .ok t ↔ ∃ w : Written, Utf8.encode text = w.bytes ∧ w.stamp = t := by
  have hread : read text = .ok t ↔ ∃ t₀, parts (Utf8.encode text) = .ok (t₀, []) ∧
      check t₀ = .ok t := by
    rw [read]
    rcases parts (Utf8.encode text) with fault | ⟨t₀, _ | ⟨b, rest⟩⟩
    · exact ⟨fun h => (nomatch h), fun ⟨_, h, _⟩ => (nomatch h)⟩
    · constructor
      · exact fun h => ⟨t₀, rfl, h⟩
      · rintro ⟨_, h, h'⟩
        cases h
        exact h'
    · exact ⟨fun h => (nomatch h), fun ⟨_, h, _⟩ => (nomatch h)⟩
  simp only [hread, parts_eq_ok_iff, check_eq_ok_iff]
  constructor
  · rintro ⟨⟨year, month, day, hour, minute, second, nanosecond, offset⟩,
      ⟨⟨hy, hm, hzero, hd, hh, hn, hs⟩, separator, fraction, zone, rfl, rfl, hbytes⟩,
      ⟨hm', hd', hd'', hh', hn'⟩, hsecond⟩
    let d : Date := ⟨year, month, day, Nat.pos_of_ne_zero hzero, hm', hd', hd''⟩
    rcases hsecond with ⟨hs', rfl⟩ | ⟨hs', rfl, hends⟩
    · have hne : second ≠ 60 := fun h => absurd (h ▸ hs' : 60 ≤ 59) (by decide)
      exact ⟨⟨d, separator, hour, minute, second, fraction, zone, Nat.le_of_lt_succ hy, hh', hn',
        Nat.le_succ_of_le hs', fun h => absurd h hne⟩, hbytes, Written.stamp_of_ne hne⟩
    · obtain rfl : second = 60 := hs'
      let t : Timestamp := ⟨year, month, day, hour, minute, 59, 999999999, zone.offset⟩
      have hleap := (endsMonth_iff (t := t) (d := d) (dayNumber_eq t d rfl rfl rfl) rfl rfl
        hh' hn' rfl rfl).1 hends
      exact ⟨⟨d, separator, hour, minute, 60, fraction, zone, Nat.le_of_lt_succ hy, hh', hn',
        Nat.le_refl 60, fun _ => hleap⟩, hbytes, Written.stamp_of_leap rfl⟩
  · rintro ⟨w, hbytes, rfl⟩
    have hm := w.date.one_le_month
    have hm' := w.date.month_le
    have hd := w.date.one_le_day
    have hd' := w.date.day_le
    have hlen := monthLength_le w.date.year w.date.month
    have hy := w.year_le
    have hh := w.hour_le
    have hn := w.minute_le
    have hs := w.second_le
    refine ⟨w.raw, ⟨?_, w.separator, w.fraction, w.zone, rfl, rfl, hbytes⟩,
      ⟨hm', hd, hd', hh, hn⟩, ?_⟩
    · simp only [Written.raw]
      omega
    by_cases h : w.second = 60
    · refine .inr ⟨h, Written.stamp_of_leap h, ?_⟩
      rw [Written.stamp_of_leap h]
      exact (endsMonth_iff (t := { w.raw with second := 59, nanosecond := 999999999 }) (d := w.date)
        (dayNumber_eq _ _ rfl rfl rfl) rfl rfl hh hn rfl rfl).2 (w.leap h)
    · exact .inl ⟨by simp only [Written.raw]; omega, Written.stamp_of_ne h⟩

/-- the same second in UTC, with zeros behind its fraction or without, is the same instant -/
theorem Written.instant_congr {x y : Written}
    (hm : utcMinute x.date x.hour x.minute x.zone = utcMinute y.date y.hour y.minute y.zone)
    (hs : x.second = y.second) {n : Nat} (hf : y.fraction = x.fraction ++ List.replicate n 0) :
    x.instant = y.instant := by
  rw [instant, instant, hm, hs, hf, nanos_append_zeros]

/-- the text is a timestamp for the instant -/
def Denotes (text : String) (instant : Int) : Prop :=
  ∃ w : Written, Utf8.encode text = w.bytes ∧ w.instant = instant

theorem denotes_iff {text : String} {instant : Int} :
    Denotes text instant ↔ ∃ t, read text = .ok t ∧ t.instant = instant := by
  constructor
  · rintro ⟨w, hw, rfl⟩
    exact ⟨w.stamp, read_eq_ok_iff.2 ⟨w, hw, rfl⟩, w.stamp_instant⟩
  · rintro ⟨t, ht, rfl⟩
    obtain ⟨w, hw, rfl⟩ := read_eq_ok_iff.1 ht
    exact ⟨w, hw, w.stamp_instant.symm⟩

/-- the first minutes of March, behind the end of a leap day -/
example : (read "2024-03-01T00:30:00+01:00").map instant
    = (read "2024-02-29t23:30:00.000z").map instant := by cbv

end Federation.Timestamp
