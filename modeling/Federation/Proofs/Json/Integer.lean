import Federation.Json.Reader
import Federation.Proofs.Text.Blank
import Federation.Proofs.Text.Decimal
import Federation.Proofs.Text.Reading

/-!
# Integers in JSON texts

A number keeps its value exactly if it is written as an integer of 64 bits, without a sign, a
fraction or an exponent, and as soon as there is one of these it is a float or negative.

* `Json.exists_number`   the digits of a number, and what becomes of them;
* `Json.natural_iff`     which values are natural numbers.
-/

namespace Federation.Json

open Decimal (digitByte digitsText numeral)

/-! ## readers go forward -/

section
variable {α : Type}

/-- the reader stops behind some of the bytes -/
def Advances (r : Reader α) : Prop := ∀ c a c', r c = .ok (a, c') → ∃ n, c' = c.advance n

theorem Cursor.advance_advance (c : Cursor) (m n : Nat) :
    (c.advance m).advance n = c.advance (m + n) := by
  rw [advance, advance, advance, List.drop_drop, Nat.add_assoc]

theorem advances_look : Advances look := by
  intro c b c' h
  cases h
  exact ⟨0, rfl⟩

theorem advances_take (n : Nat) : Advances (take n) := by
  intro c b c' h
  cases h
  exact ⟨n, rfl⟩

end

/-- the reader goes forward, and what it returns is a float -/
def Floats (r : Reader Number) : Prop :=
  ∀ c x c', r c = .ok (x, c') → (∃ f, x = .float f) ∧ ∃ n, c' = c.advance n

theorem Floats.bind {α : Type} {r : Reader α} {f : α → Reader Number} (hr : Advances r)
    (hf : ∀ a, Floats (f a)) : Floats (r >>= f) := by
  intro c x c' h
  obtain ⟨a, c₁, h₁, h₂⟩ := bind_eq_ok_iff.1 h
  obtain ⟨m, rfl⟩ := hr _ _ _ h₁
  obtain ⟨hx, n, rfl⟩ := hf a _ _ _ h₂
  exact ⟨hx, m + n, c.advance_advance m n⟩

theorem floats_fail (f : Cursor → Fault) : Floats (fail f) := fun _ _ _ h => nomatch h

/-! ## digits -/

theorem isDigit_iff (b : UInt8) : isDigit b = true ↔ ∃ d : Fin 10, b = digitByte d.val := by
  rw [isDigit, Bool.and_eq_true, decide_eq_true_eq, decide_eq_true_eq]
  constructor
  · rintro ⟨hlow, hhigh⟩
    rw [UInt8.le_iff_toNat_le] at hlow hhigh
    simp only [UInt8.reduceToNat] at hlow hhigh
    refine ⟨⟨b.toNat - 48, by omega⟩, ?_⟩
    rw [digitByte, Nat.add_sub_cancel' hlow, UInt8.ofNat_toNat]
  · rintro ⟨d, rfl⟩
    rw [UInt8.le_iff_toNat_le, UInt8.le_iff_toNat_le, Decimal.toNat_digitByte]
    simp only [UInt8.reduceToNat]
    omega

theorem isDigit_digitByte (d : Fin 10) : isDigit (digitByte d.val) = true :=
  (isDigit_iff _).2 ⟨d, rfl⟩

theorem toNat_sub_digitByte (d : Fin 10) : (digitByte d.val).toNat - 48 = d.val := by
  rw [Decimal.toNat_digitByte, Nat.add_sub_cancel_left]

/-- what stops the digits of 64 bits: a byte that is no digit, or the first digit too many -/
def Stops (n : Nat) (full : Bool) (rest : Bytes) : Prop :=
  match full with
  | false => ∀ b ∈ rest.head?, isDigit b = false
  | true => ∃ (d : Fin 10) (more : Bytes), rest = digitByte d.val :: more ∧
    Decimal.max64 < n * 10 + d.val

theorem exists_digits64 (bs : Bytes) {n : Nat} (hn : n ≤ Decimal.max64) (o : Nat) :
    ∃ (ds : List (Fin 10)) (full : Bool) (rest : Bytes), bs = digitsText ds ++ rest ∧
      digits64 n o bs = (n * 10 ^ ds.length + numeral ds, full, ⟨o + ds.length, rest⟩) ∧
      n * 10 ^ ds.length + numeral ds ≤ Decimal.max64 ∧
      Stops (n * 10 ^ ds.length + numeral ds) full rest := by
  induction bs generalizing n o with
  | nil =>
    refine ⟨[], false, [], rfl, ?_, (Decimal.behind_nil n).trans_le hn, nofun⟩
    rw [digits64, Decimal.behind_nil]
    rfl
  | cons b bs ih =>
    have hle := (Decimal.behind_nil n).trans_le hn
    rw [digits64]
    cases hb : isDigit b with
    | false =>
      refine ⟨[], false, b :: bs, rfl, ?_, hle, fun b' hb' => ?_⟩
      · rw [if_neg (by decide), Decimal.behind_nil]
        rfl
      · cases hb'
        exact hb
    | true =>
      obtain ⟨d, rfl⟩ := (isDigit_iff b).1 hb
      rw [if_pos rfl, toNat_sub_digitByte]
      dsimp only
      by_cases hd : Decimal.max64 < n * 10 + d.val
      · refine ⟨[], true, digitByte d.val :: bs, rfl, ?_, hle, d, bs, rfl, ?_⟩
        · rw [if_pos hd, Decimal.behind_nil]
          rfl
        · rw [Decimal.behind_nil]
          exact hd
      · obtain ⟨ds, full, rest, rfl, hds, hle, hstops⟩ := ih (Nat.not_lt.1 hd) (o + 1)
        rw [← Decimal.behind_cons] at hds hle hstops
        refine ⟨d :: ds, full, rest, rfl, ?_, hle, hstops⟩
        rw [if_neg hd, hds, List.length_cons, Nat.add_right_comm, ← Nat.add_assoc]

theorem advance_digits {c : Cursor} {ds : List (Fin 10)} {more : Bytes}
    (h : c.rest = digitsText ds ++ more) : c.advance ds.length = ⟨c.offset + ds.length, more⟩ := by
  rw [Cursor.advance, h, ← Decimal.length_digitsText, List.drop_left]

theorem exists_skipWhile (p : UInt8 → Bool) (c : Cursor) : ∃ n, c.skipWhile p = c.advance n :=
  ⟨_, rfl⟩

theorem exists_skipDigits (c : Cursor) : ∃ ds more, c.rest = digitsText ds ++ more ∧
    c.skipWhile isDigit = c.advance ds.length ∧ ∀ b ∈ more.head?, isDigit b = false := by
  obtain ⟨ds, more, hbs, htake, hmore⟩ := Decimal.exists_digits isDigit_iff c.rest
  refine ⟨ds, more, hbs, ?_, hmore⟩
  rw [Cursor.skipWhile, htake, Decimal.length_digitsText]

/-! ## floats -/

theorem exists_exponentDigits (bs : Bytes) (n o : Nat) :
    ∃ k, (exponentDigits n o bs).2 = ⟨o + k, bs.drop k⟩ := by
  induction bs generalizing n o with
  | nil => exact ⟨0, rfl⟩
  | cons b bs ih =>
    rw [exponentDigits]
    cases isDigit b with
    | false => exact ⟨0, rfl⟩
    | true =>
      rw [if_pos rfl]
      dsimp only
      by_cases hd : maxExponent < n * 10 + (b.toNat - 48)
      · exact ⟨1, by rw [if_pos hd]; rfl⟩
      · obtain ⟨k, hk⟩ := ih (n * 10 + (b.toNat - 48)) (o + 1)
        refine ⟨k + 1, ?_⟩
        rw [if_neg hd, hk, List.drop_succ_cons, Nat.add_right_comm, Nat.add_assoc]

theorem float_eq_ok {negative : Bool} {m : Nat} {e : Int} {c c' : Cursor} {x : Number}
    (h : float negative m e c = .ok (x, c')) : (∃ f, x = .float f) ∧ c' = c := by
  rw [float] at h
  cases hs : scale m e with
  | none =>
    rw [hs] at h
    cases h
  | some y =>
    rw [hs] at h
    cases h
    exact ⟨⟨_, rfl⟩, rfl⟩

def exponentTail (negative : Bool) (m : Nat) (start : Int) (down : Prop) [Decidable down]
    (first : Nat) : Reader Number := fun c =>
  match exponentDigits first c.offset c.rest with
  | (some e, c) => float negative m (if down then start - e else start + e) c
  | (none, c) =>
    if m ≠ 0 ∧ !down then .error (c.here .numberOutOfRange)
    else .ok (.float { Binary64.zero with negative := negative }, c.skipWhile isDigit)

def exponentValue (negative : Bool) (m : Nat) (start : Int) (down : Prop) [Decidable down] :
    Reader Number := do
  match ← look with
  | none => fail (·.here .endInValue)
  | some b =>
    take 1
    if !isDigit b then fail (·.here .badNumber)
    else exponentTail negative m start down (b.toNat - 48)

theorem floats_exponentTail (negative : Bool) (m : Nat) (start : Int) (down : Prop)
    [Decidable down] (first : Nat) : Floats (exponentTail negative m start down first) := by
  intro c x c' h
  rw [exponentTail] at h
  obtain ⟨k, hk⟩ := exists_exponentDigits c.rest first c.offset
  rcases hdigits : exponentDigits first c.offset c.rest with ⟨_ | e, c₁⟩
  · rw [hdigits] at hk h
    obtain ⟨-, h⟩ := guarded_eq_ok_iff.1 h
    cases h
    obtain rfl : c₁ = c.advance k := hk
    exact ⟨⟨_, rfl⟩, _, Cursor.advance_advance _ _ _⟩
  · rw [hdigits] at hk h
    obtain ⟨hx, rfl⟩ := float_eq_ok h
    exact ⟨hx, k, hk⟩

theorem floats_exponentValue (negative : Bool) (m : Nat) (start : Int) (down : Prop)
    [Decidable down] : Floats (exponentValue negative m start down) := by
  refine .bind advances_look fun b? => ?_
  cases b? with
  | none => exact floats_fail _
  | some b =>
    refine .bind (advances_take 1) fun _ => ?_
    split
    · exact floats_fail _
    · exact floats_exponentTail _ _ _ _ _

theorem floats_exponent {negative : Bool} {m : Nat} {start : Int} {c c' : Cursor} {x : Number}
    (h : exponent negative m start c = .ok (x, c')) :
    (∃ f, x = .float f) ∧ ∃ n, c' = c.advance (n + 1) := by
  have htail : Floats (do
      let sign ← look
      if sign = some (byte '-') || sign = some (byte '+') then take 1
      exponentValue negative m start (sign = some (byte '-'))) := by
    refine .bind advances_look fun sign => ?_
    dsimp only
    split
    · exact .bind (advances_take 1) fun _ => floats_exponentValue _ _ _ _
    · exact floats_exponentValue _ _ _ _
  obtain ⟨_, c₁, h₁, h⟩ := bind_eq_ok_iff.1 h
  cases h₁
  obtain ⟨hx, n, rfl⟩ := htail _ _ _ h
  refine ⟨hx, n, ?_⟩
  rw [Cursor.advance_advance, Nat.add_comm]

/-- what may follow the digits of an integer, and makes it a float -/
def marks : Bytes := [byte '.', byte 'e', byte 'E']

def GoesOn (c c' : Cursor) : Prop :=
  ∃ n, c' = c.advance n ∧ ∃ b ∈ marks, ∃ more, c.rest.take n = b :: more

theorem goesOn_of_mark {c c' : Cursor} {b : UInt8} (hb : c.rest.head? = some b) (hmark : b ∈ marks)
    (h : ∃ n, c' = c.advance (n + 1)) : GoesOn c c' := by
  obtain ⟨n, rfl⟩ := h
  obtain ⟨rest, hrest⟩ := List.head?_eq_some_iff.1 hb
  exact ⟨n + 1, rfl, b, hmark, rest.take n, by rw [hrest, List.take_succ_cons]⟩

theorem floats_floatEnd {negative : Bool} {m : Nat} {e : Int} {c c' : Cursor} {x : Number}
    (h : floatEnd negative m e c = .ok (x, c')) :
    (∃ f, x = .float f) ∧ (c' = c ∨ GoesOn c c') := by
  obtain ⟨_, _, h₁, h⟩ := bind_eq_ok_iff.1 h
  cases h₁
  by_cases hmark : c.rest.head? = some (byte 'e') ∨ c.rest.head? = some (byte 'E')
  · rw [if_pos (by simpa using hmark)] at h
    obtain ⟨hx, hc⟩ := floats_exponent h
    rcases hmark with hb | hb
    · exact ⟨hx, .inr (goesOn_of_mark hb (by decide) hc)⟩
    · exact ⟨hx, .inr (goesOn_of_mark hb (by decide) hc)⟩
  · rw [if_neg (by simpa using hmark)] at h
    obtain ⟨hx, hc⟩ := float_eq_ok h
    exact ⟨hx, .inl hc⟩

theorem advance_of_goesOn {c c' : Cursor} (h : c' = c ∨ GoesOn c c') : ∃ n, c' = c.advance n := by
  rcases h with rfl | ⟨n, rfl, -⟩
  · exact ⟨0, rfl⟩
  · exact ⟨n, rfl⟩

theorem floats_fraction {negative : Bool} {m : Nat} (hm : m ≤ Decimal.max64) {before : Int}
    {c c' : Cursor} {x : Number} (h : fraction negative m before c = .ok (x, c')) :
    (∃ f, x = .float f) ∧ ∃ n, c' = c.advance (n + 1) := by
  obtain ⟨ds, full, rest, hrest, hdigits, -⟩ :=
    exists_digits64 (c.advance 1).rest hm (c.advance 1).offset
  have hcursor : (⟨(c.advance 1).offset + ds.length, rest⟩ : Cursor)
      = (c.advance 1).advance ds.length := by
    rw [Cursor.advance.eq_1 (c.advance 1), hrest, ← Decimal.length_digitsText, List.drop_left]
  have hall : ∀ k n, (((c.advance 1).advance ds.length).advance k).advance n
      = c.advance (ds.length + k + n + 1) := fun k n => by
    rw [Cursor.advance_advance, Cursor.advance_advance, Cursor.advance_advance]
    congr 1
    omega
  rw [fraction] at h
  dsimp only at h
  rw [hdigits] at h
  dsimp only at h
  split at h
  · obtain ⟨hx, hc⟩ := floats_floatEnd h
    obtain ⟨n, rfl⟩ := advance_of_goesOn hc
    obtain ⟨k, hk⟩ := exists_skipWhile isDigit ⟨(c.advance 1).offset + ds.length, rest⟩
    refine ⟨hx, ds.length + k + n, ?_⟩
    rw [hk, hcursor]
    exact hall k n
  · obtain ⟨-, h⟩ := guarded_eq_ok_iff.1 h
    obtain ⟨hx, hc⟩ := floats_floatEnd h
    obtain ⟨n, rfl⟩ := advance_of_goesOn hc
    refine ⟨hx, ds.length + 0 + n, ?_⟩
    rw [hcursor]
    exact hall 0 n

/-! ## numbers -/

/-- what becomes of digits of the value `m`, and where the reader stops behind them -/
inductive Outcome (negative : Bool) (m : Nat) (c : Cursor) : Number → Cursor → Prop where
  | natural (hn : negative = false) (hm : m ≤ Decimal.max64) : Outcome negative m c (.natural m) c
  | goesOn {x : Number} {c' : Cursor} (hx : ∀ n, x ≠ .natural n) (h : GoesOn c c') :
    Outcome negative m c x c'
  | whole {x : Number} (hx : ∀ n, x ≠ .natural n) (h : negative = true ∨ Decimal.max64 < m) :
    Outcome negative m c x c

theorem ne_natural {x : Number} (h : ∃ f, x = .float f) : ∀ n, x ≠ .natural n := by
  obtain ⟨f, rfl⟩ := h
  exact fun n => nofun

theorem outcome_numberEnd {negative : Bool} {m : Nat} (hm : m ≤ Decimal.max64) {c c' : Cursor}
    {x : Number} (h : numberEnd negative m c = .ok (x, c')) : Outcome negative m c x c' := by
  obtain ⟨_, _, h₁, h⟩ := bind_eq_ok_iff.1 h
  cases h₁
  split at h
  · next hb =>
    obtain ⟨hx, hc⟩ := floats_fraction hm h
    exact .goesOn (ne_natural hx) (goesOn_of_mark hb (by decide) hc)
  split at h
  · next hb =>
    obtain ⟨hx, hc⟩ := floats_exponent h
    rcases hb' : c.rest.head? with _ | b
    · rw [hb'] at hb
      cases hb
    · refine .goesOn (ne_natural hx) (goesOn_of_mark hb' ?_ hc)
      rw [hb'] at hb
      simp only [Option.some.injEq, Bool.or_eq_true, decide_eq_true_eq] at hb
      rcases hb with rfl | rfl
      · decide
      · decide
  cases negative with
  | false =>
    obtain ⟨rfl, rfl⟩ := pure_eq_ok_iff.1 h
    exact .natural rfl hm
  | true =>
    rw [if_neg (by decide)] at h
    split at h
    · obtain ⟨rfl, rfl⟩ := pure_eq_ok_iff.1 h
      exact .whole (fun n => nofun) (.inl rfl)
    · obtain ⟨hx, rfl⟩ := float_eq_ok h
      exact .whole (ne_natural hx) (.inl rfl)

theorem numeral_le_append (ds es : List (Fin 10)) : numeral ds ≤ numeral (ds ++ es) := by
  rw [Decimal.numeral_append]
  exact Nat.le_add_right_of_le (Nat.le_mul_of_pos_right _ (Nat.pow_pos (by decide)))

/-- the digit that leaves 64 bits is one of those that are skipped -/
theorem max64_lt_numeral {ds es : List (Fin 10)} {rest more : Bytes}
    (hstops : Stops (numeral ds) true rest) (hrest : rest = digitsText es ++ more)
    (hmore : ∀ b ∈ more.head?, isDigit b = false) : Decimal.max64 < numeral (ds ++ es) := by
  obtain ⟨d, rest', rfl, hlt⟩ := hstops
  cases es with
  | nil =>
    have hdigit := hmore (digitByte d.val) (by rw [← (show _ = more from hrest)]; rfl)
    rw [isDigit_digitByte] at hdigit
    cases hdigit
  | cons e es =>
    obtain rfl := Decimal.digitByte_injective (List.cons.inj hrest).1
    have hone : numeral (ds ++ [d]) = numeral ds * 10 + d.val := by
      rw [Decimal.numeral_append, Decimal.numeral_cons]
      exact congrArg (numeral ds * 10 + ·) (Nat.mul_one _)
    have hall : ds ++ d :: es = ds ++ [d] ++ es := (List.append_cons _ _ _)
    rw [hall]
    exact Nat.lt_of_lt_of_le (hone ▸ hlt) (numeral_le_append _ es)

theorem exists_integer {negative : Bool} {first : Fin 10} {c c' : Cursor} {x : Number}
    (h : integer negative first.val c = .ok (x, c')) : ∃ ds more, c.rest = digitsText ds ++ more ∧
      Outcome negative (numeral (first :: ds)) (c.advance ds.length) x c' := by
  have hfirst : first.val ≤ Decimal.max64 :=
    Nat.le_trans (Nat.le_of_lt first.isLt) (by decide)
  obtain ⟨ds, full, rest, hrest, hdigits, hle, hstops⟩ := exists_digits64 c.rest hfirst c.offset
  rw [← Decimal.numeral_cons] at hdigits hle hstops
  rw [integer, hdigits, ← advance_digits hrest] at h
  dsimp only at h
  cases full with
  | false => exact ⟨ds, rest, hrest, outcome_numberEnd hle h⟩
  | true =>
    rw [if_pos rfl] at h
    obtain ⟨es, more, hes, hskip, hmore⟩ := exists_skipDigits (c.advance ds.length)
    have hrest' : rest = digitsText es ++ more := by
      rw [← hes, advance_digits hrest]
    have hlarge := max64_lt_numeral hstops hrest' hmore
    have hcursor : (c.advance ds.length).skipWhile isDigit = c.advance (ds ++ es).length := by
      rw [hskip, Cursor.advance_advance, List.length_append]
    have hall : c.rest = digitsText (ds ++ es) ++ more := by
      rw [hrest, hrest', digitsText, digitsText, digitsText, List.map_append, List.append_assoc]
    refine ⟨ds ++ es, more, hall, ?_⟩
    rw [hcursor] at h
    split at h
    · next hb =>
      obtain ⟨hx, hc⟩ := floats_fraction hle h
      exact .goesOn (ne_natural hx) (goesOn_of_mark hb (by decide) hc)
    · obtain ⟨hx, rfl | hc⟩ := floats_floatEnd h
      · exact .whole (ne_natural hx) (.inr hlarge)
      · exact .goesOn (ne_natural hx) hc

/-- the digits of an integer: no zero stands before another digit -/
inductive IsInteger : List (Fin 10) → Prop where
  | zero : IsInteger [0]
  | cons {d : Fin 10} (hd : d ≠ 0) (ds : List (Fin 10)) : IsInteger (d :: ds)

theorem exists_number {negative : Bool} {c c' : Cursor} {x : Number}
    (h : number negative c = .ok (x, c')) : ∃ ds more, IsInteger ds ∧
      c.rest = digitsText ds ++ more ∧
      Outcome negative (numeral ds) (c.advance ds.length) x c' := by
  obtain ⟨_, _, h₁, h⟩ := bind_eq_ok_iff.1 h
  cases h₁
  rcases hrest : c.rest with _ | ⟨b, rest⟩
  · rw [hrest] at h
    cases h
  rw [hrest] at h
  obtain ⟨_, _, h₁, h⟩ := bind_eq_ok_iff.1 h
  cases h₁
  by_cases hzero : b = byte '0'
  · rw [if_pos hzero] at h
    obtain ⟨_, _, h₁, h⟩ := bind_eq_ok_iff.1 h
    cases h₁
    by_cases hdigit : ((c.advance 1).rest.head?.any isDigit) = true
    · rw [if_pos hdigit] at h
      cases h
    · rw [if_neg hdigit] at h
      refine ⟨[0], rest, .zero, hzero ▸ rfl, outcome_numberEnd (Nat.zero_le _) h⟩
  · rw [if_neg hzero] at h
    by_cases hdigit : isDigit b = true
    · rw [if_pos hdigit] at h
      obtain ⟨d, rfl⟩ := (isDigit_iff b).1 hdigit
      rw [toNat_sub_digitByte] at h
      obtain ⟨ds, more, hds, hout⟩ := exists_integer h
      have hd : d ≠ 0 := by
        rintro rfl
        exact hzero rfl
      have hcursor : (c.advance 1).advance ds.length = c.advance (d :: ds).length := by
        rw [Cursor.advance_advance, List.length_cons, Nat.add_comm]
      have hrest' : (c.advance 1).rest = rest := by
        rw [Cursor.advance, hrest]
        rfl
      rw [hrest'] at hds
      refine ⟨d :: ds, more, .cons hd ds, ?_, hcursor ▸ hout⟩
      rw [hds]
      rfl
    · rw [if_neg hdigit] at h
      cases h

/-! ## values -/

/-- the bytes between two cursors -/
def Cursor.upTo (c c' : Cursor) : Bytes := c.rest.take (c'.offset - c.offset)

theorem Cursor.upTo_advance (c : Cursor) (n : Nat) : c.upTo (c.advance n) = c.rest.take n := by
  rw [upTo, advance, Nat.add_sub_cancel_left]

theorem take_add_advance (c : Cursor) (m n : Nat) :
    c.rest.take (m + n) = c.rest.take m ++ (c.advance m).rest.take n := List.take_add

theorem scalar_cases {b : UInt8} {c c' : Cursor} {v : Value} (h : scalar b c = .ok (v, c')) :
    (b = byte 'n' ∧ v = .null) ∨ (∃ x, v = .bool x) ∨
    (b = byte '-' ∧ ∃ x, v = .number x ∧ number true (c.advance 1) = .ok (x, c')) ∨
    (isDigit b = true ∧ ∃ x, v = .number x ∧ number false c = .ok (x, c')) ∨
    ∃ s, v = .string s := by
  have hword : ∀ {u : Value} {w : List Char},
      (do take 1; word w; pure u : Reader Value) c = .ok (v, c') → v = u := fun hw => by
    obtain ⟨_, _, -, hw⟩ := bind_eq_ok_iff.1 hw
    obtain ⟨_, _, -, hw⟩ := bind_eq_ok_iff.1 hw
    exact (pure_eq_ok_iff.1 hw).1.symm
  rw [scalar] at h
  by_cases hn : b = byte 'n'
  · rw [if_pos hn] at h
    exact .inl ⟨hn, hword h⟩
  rw [if_neg hn] at h
  by_cases ht : b = byte 't'
  · rw [if_pos ht] at h
    exact .inr (.inl ⟨true, hword h⟩)
  rw [if_neg ht] at h
  by_cases hf : b = byte 'f'
  · rw [if_pos hf] at h
    exact .inr (.inl ⟨false, hword h⟩)
  rw [if_neg hf] at h
  by_cases hm : b = byte '-'
  · rw [if_pos hm] at h
    obtain ⟨_, _, h₁, h⟩ := bind_eq_ok_iff.1 h
    cases h₁
    obtain ⟨x, hx, rfl⟩ := map_eq_ok_iff.1 h
    exact .inr (.inr (.inl ⟨hm, x, rfl, hx⟩))
  rw [if_neg hm] at h
  by_cases hd : isDigit b = true
  · rw [if_pos hd] at h
    obtain ⟨x, hx, rfl⟩ := map_eq_ok_iff.1 h
    exact .inr (.inr (.inr (.inl ⟨hd, x, rfl, hx⟩)))
  rw [if_neg hd] at h
  by_cases hq : b = byte '"'
  · rw [if_pos hq] at h
    obtain ⟨_, _, h₁, h⟩ := bind_eq_ok_iff.1 h
    obtain ⟨s, _, rfl⟩ := map_eq_ok_iff.1 h
    exact .inr (.inr (.inr (.inr ⟨s, rfl⟩)))
  · rw [if_neg hq] at h
    cases h

/-- a value behind blanks: an array with its items behind its bracket, an object with its members
behind its brace, or a scalar -/
theorem value_cases {depth : Nat} {c c' : Cursor} {v : Value} (h : value depth c = .ok (v, c')) :
    (∃ d items body, depth = d + 1 ∧ (c.skipWhile isSpace).rest = byte '[' :: body ∧
      list (value d) ((c.skipWhile isSpace).advance 1) = .ok (items, c') ∧ v = .array items) ∨
    (∃ d ms body, depth = d + 1 ∧ (c.skipWhile isSpace).rest = byte '\x7b' :: body ∧
      members (value d) ((c.skipWhile isSpace).advance 1) = .ok (ms, c') ∧
      v = .object (ofList ms)) ∨
    ∃ b more, (c.skipWhile isSpace).rest = b :: more ∧ b ≠ byte '[' ∧ b ≠ byte '\x7b' ∧
      scalar b (c.skipWhile isSpace) = .ok (v, c') := by
  rw [value.eq_def] at h
  obtain ⟨_, _, h₁, h⟩ := bind_eq_ok_iff.1 h
  cases h₁
  rcases hrest : (c.skipWhile isSpace).rest with _ | ⟨b, more⟩
  · rw [hrest] at h
    cases h
  rw [hrest] at h
  dsimp only [List.head?_cons] at h
  by_cases hlist : b = byte '['
  · rw [if_pos hlist] at h
    cases depth with
    | zero => cases h
    | succ depth =>
      obtain ⟨_, _, h₁, h⟩ := bind_eq_ok_iff.1 h
      cases h₁
      obtain ⟨items, hitems, rfl⟩ := map_eq_ok_iff.1 h
      exact .inl ⟨depth, items, more, rfl, hlist ▸ rfl, hitems, rfl⟩
  rw [if_neg hlist] at h
  by_cases hobject : b = byte '\x7b'
  · rw [if_pos hobject] at h
    cases depth with
    | zero => cases h
    | succ depth =>
      obtain ⟨_, _, h₁, h⟩ := bind_eq_ok_iff.1 h
      cases h₁
      obtain ⟨ms, hms, rfl⟩ := map_eq_ok_iff.1 h
      exact .inr (.inl ⟨depth, ms, more, rfl, hobject ▸ rfl, hms, rfl⟩)
  rw [if_neg hobject] at h
  exact .inr (.inr ⟨b, more, rfl, hlist, hobject, h⟩)

theorem scalar_of_value {depth : Nat} {c c' : Cursor} {v : Value}
    (h : value depth c = .ok (v, c')) (ha : ∀ items, v ≠ .array items)
    (ho : ∀ ms, v ≠ .object ms) : ∃ b more, (c.skipWhile isSpace).rest = b :: more ∧
      scalar b (c.skipWhile isSpace) = .ok (v, c') := by
  rcases value_cases h with ⟨_, items, _, -, -, -, rfl⟩ | ⟨_, ms, _, -, -, -, rfl⟩ |
    ⟨b, more, hrest, -, -, h⟩
  · exact absurd rfl (ha items)
  · exact absurd rfl (ho _)
  · exact ⟨b, more, hrest, h⟩

theorem value_eq_scalar (depth : Nat) {c : Cursor} {b : UInt8} {more : Bytes}
    (h : (c.skipWhile isSpace).rest = b :: more) (ha : b ≠ byte '[') (ho : b ≠ byte '\x7b') :
    value depth c = scalar b (c.skipWhile isSpace) := by
  rw [value.eq_def]
  show (match (c.skipWhile isSpace).rest.head? with
    | none => _
    | some b => _ : Reader Value) (c.skipWhile isSpace) = _
  rw [h]
  dsimp only [List.head?_cons]
  rw [if_neg ha, if_neg ho]

theorem rest_skipWhile (p : UInt8 → Bool) (c : Cursor) :
    (c.skipWhile p).rest = c.rest.dropWhile p := by
  have h : (c.rest.takeWhile p ++ c.rest.dropWhile p).drop (c.rest.takeWhile p).length
      = c.rest.dropWhile p := List.drop_left
  rwa [List.takeWhile_append_dropWhile] at h

theorem skipWhile_skipWhile (c : Cursor) :
    (c.skipWhile isSpace).skipWhile isSpace = c.skipWhile isSpace := by
  have hnone : (c.skipWhile isSpace).rest.takeWhile isSpace = [] := by
    rw [rest_skipWhile]
    cases h : c.rest.dropWhile isSpace with
    | nil => rfl
    | cons b more =>
      have hb := List.head?_dropWhile_not isSpace c.rest
      rw [h] at hb
      exact List.takeWhile_cons_of_neg (by rw [show isSpace b = false from hb]; decide)
  rw [Cursor.skipWhile, hnone]
  rfl

theorem value_skipWhile (depth : Nat) (c : Cursor) :
    value depth (c.skipWhile isSpace) = value depth c := by
  have hpeek : peek (c.skipWhile isSpace) = peek c := by
    rw [peek, peek, skipWhile_skipWhile]
  rw [value.eq_def]
  exact bind_congr_at hpeek _

theorem head_of_null {depth : Nat} {c c' : Cursor} (h : value depth c = .ok (.null, c')) :
    (c.skipWhile isSpace).rest.head? = some (byte 'n') := by
  obtain ⟨b, more, hrest, hscalar⟩ := scalar_of_value h nofun nofun
  rcases scalar_cases hscalar with ⟨rfl, -⟩ | ⟨_, hv⟩ | ⟨-, _, hv, -⟩ | ⟨-, _, hv, -⟩ | ⟨_, hv⟩
  · rw [hrest]
    rfl
  · cases hv
  · cases hv
  · cases hv
  · cases hv

theorem number_of_value {depth : Nat} {c c' : Cursor} {x : Number}
    (h : value depth c = .ok (.number x, c')) :
    (∃ more, (c.skipWhile isSpace).rest = byte '-' :: more ∧
      number true ((c.skipWhile isSpace).advance 1) = .ok (x, c')) ∨
    number false (c.skipWhile isSpace) = .ok (x, c') := by
  obtain ⟨b, more, hrest, hscalar⟩ := scalar_of_value h nofun nofun
  rcases scalar_cases hscalar with ⟨-, hv⟩ | ⟨_, hv⟩ | ⟨rfl, _, hv, hx⟩ | ⟨-, _, hv, hx⟩ | ⟨_, hv⟩
  · cases hv
  · cases hv
  · cases hv
    exact .inl ⟨more, hrest, hx⟩
  · cases hv
    exact .inr hx
  · cases hv

theorem Outcome.advance {negative : Bool} {m : Nat} {c c' : Cursor} {x : Number}
    (h : Outcome negative m c x c') : ∃ n, c' = c.advance n := by
  cases h with
  | natural => exact ⟨0, rfl⟩
  | goesOn _ h => exact advance_of_goesOn (.inr h)
  | whole => exact ⟨0, rfl⟩

theorem Cursor.upTo_self (c : Cursor) : c.upTo c = [] := by rw [upTo, Nat.sub_self, List.take_zero]

theorem Outcome.head {negative : Bool} {m : Nat} {c c' : Cursor} {x : Number}
    (h : Outcome negative m c x c') : ∀ b ∈ (c.upTo c').head?, b ∈ marks := by
  cases h with
  | natural =>
    rw [Cursor.upTo_self]
    nofun
  | goesOn _ hgoes =>
    obtain ⟨k, rfl, b, hb, more, htake⟩ := hgoes
    intro b' hb'
    rw [Cursor.upTo_advance, htake] at hb'
    cases hb'
    exact hb
  | whole =>
    rw [Cursor.upTo_self]
    nofun

/-- without a sign, the digits are a natural number just if nothing follows and they stay within 64
bits -/
theorem Outcome.natural_iff {m : Nat} {c c' : Cursor} {x : Number}
    (h : Outcome false m c x c') {n : Nat} :
    x = .natural n ↔ c.upTo c' = [] ∧ m = n ∧ n ≤ Decimal.max64 := by
  cases h with
  | natural _ hm =>
    constructor
    · intro hx
      cases hx
      exact ⟨Cursor.upTo_self c, rfl, hm⟩
    · rintro ⟨-, rfl, -⟩
      rfl
  | goesOn hx hgoes =>
    obtain ⟨k, rfl, b, hb, more, htake⟩ := hgoes
    rw [Cursor.upTo_advance, htake]
    exact ⟨fun he => absurd he (hx n), fun he => absurd he.1 (List.cons_ne_nil _ _)⟩
  | whole hx hlarge =>
    have hlarge := hlarge.resolve_left (by decide)
    refine ⟨fun he => absurd he (hx n), ?_⟩
    rintro ⟨-, rfl, hle⟩
    exact absurd hle (Nat.not_le.2 hlarge)

theorem Outcome.ne_natural {m : Nat} {c c' : Cursor} {x : Number} (h : Outcome true m c x c')
    (n : Nat) : x ≠ .natural n := by
  cases h with
  | natural hn => cases hn
  | goesOn hx => exact hx n
  | whole hx => exact hx n

theorem isSpace_digitByte : ∀ d : Fin 10, isSpace (digitByte d.val) = false := by decide

theorem IsInteger.head {ds : List (Fin 10)} (h : IsInteger ds) :
    ∃ d ds', ds = d :: ds' := by
  cases h with
  | zero => exact ⟨0, [], rfl⟩
  | @cons d _ ds' => exact ⟨d, ds', rfl⟩

theorem upTo_skipWhile (c : Cursor) (n : Nat) : c.upTo ((c.skipWhile isSpace).advance n)
    = c.rest.takeWhile isSpace ++ (c.skipWhile isSpace).rest.take n := by
  have hfront : c.rest.take (c.rest.takeWhile isSpace).length = c.rest.takeWhile isSpace := by
    have h : (c.rest.takeWhile isSpace ++ c.rest.dropWhile isSpace).take
        (c.rest.takeWhile isSpace).length = c.rest.takeWhile isSpace := List.take_left
    rwa [List.takeWhile_append_dropWhile] at h
  rw [Cursor.skipWhile, Cursor.advance_advance, Cursor.upTo_advance, take_add_advance, hfront]

theorem isSpace_of_mem_takeWhile (bs : Bytes) : ∀ b ∈ bs.takeWhile isSpace, isSpace b = true :=
  fun _ hb => List.mem_takeWhile_imp hb

theorem eq_of_behind_blanks {gap gap' s t : Bytes} (hg : ∀ b ∈ gap, isSpace b = true)
    (hg' : ∀ b ∈ gap', isSpace b = true) (hs : ∀ b ∈ s.head?, isSpace b = false)
    (ht : ∀ b ∈ t.head?, isSpace b = false) (h : gap ++ s = gap' ++ t) : s = t := by
  rw [← Text.dropWhile_front hg hs, h, Text.dropWhile_front hg' ht]

theorem IsInteger.isSpace_head {ds : List (Fin 10)} (h : IsInteger ds) (more : Bytes) :
    ∀ b ∈ (digitsText ds ++ more).head?, isSpace b = false := by
  obtain ⟨d, ds', rfl⟩ := h.head
  intro b hb
  cases hb
  exact isSpace_digitByte d

theorem not_mem_digitsText {b : UInt8} (hb : b = byte '-' ∨ b ∈ marks) (ds : List (Fin 10)) :
    b ∉ digitsText ds := by
  have hne : ∀ b ∈ byte '-' :: marks, ∀ d : Fin 10, digitByte d.val ≠ b :=
    Utf8.forall_of_all (by decide)
  intro hmem
  obtain ⟨d, -, hd⟩ := List.mem_map.1 hmem
  exact hne b (List.mem_cons.2 hb) d hd

theorem Outcome.eq_nil {negative : Bool} {m : Nat} {c c' : Cursor} {x : Number}
    (h : Outcome negative m c x c') {ds es : List (Fin 10)}
    (he : digitsText ds ++ c.upTo c' = digitsText es) : c.upTo c' = [] := by
  cases hrest : c.upTo c' with
  | nil => rfl
  | cons b more =>
    have hmark := h.head b (by rw [hrest]; rfl)
    have hmem : b ∈ digitsText es := by
      rw [← he, hrest]
      exact List.mem_append_right _ List.mem_cons_self
    exact absurd hmem (not_mem_digitsText (.inr hmark) es)

/-- a value is a natural number just if it is written as an integer of 64 bits without a sign -/
theorem natural_iff {depth : Nat} {c c' : Cursor} {x : Number}
    (h : value depth c = .ok (.number x, c')) {n : Nat} :
    x = .natural n ↔ ∃ gap ds, (∀ b ∈ gap, isSpace b = true) ∧ IsInteger ds ∧
      c.upTo c' = gap ++ digitsText ds ∧ numeral ds = n ∧ n ≤ Decimal.max64 := by
  have hgap := isSpace_of_mem_takeWhile c.rest
  have hhead : ∀ {ds : List (Fin 10)}, IsInteger ds →
      ∀ b ∈ (digitsText ds).head?, isSpace b = false := fun {ds} hi =>
    List.append_nil (digitsText ds) ▸ hi.isSpace_head []
  rcases number_of_value h with ⟨more, hrest, hnumber⟩ | hnumber
  · obtain ⟨ds, tail, hi, hds, hout⟩ := exists_number hnumber
    refine ⟨fun hx => absurd hx (hout.ne_natural n), ?_⟩
    rintro ⟨gap, es, hg, hi', htext, -⟩
    obtain ⟨k, rfl⟩ := hout.advance
    rw [Cursor.advance_advance, Cursor.advance_advance, upTo_skipWhile, hrest, Nat.add_comm 1,
      List.take_succ_cons] at htext
    have hsame := eq_of_behind_blanks hgap hg (fun b hb => by cases hb; decide) (hhead hi') htext
    exact absurd (hsame ▸ List.mem_cons_self) (not_mem_digitsText (.inl rfl) es)
  · obtain ⟨ds, tail, hi, hds, hout⟩ := exists_number hnumber
    have htext : c.upTo c' = c.rest.takeWhile isSpace ++ (digitsText ds ++
        ((c.skipWhile isSpace).advance ds.length).upTo c') := by
      obtain ⟨k, rfl⟩ := hout.advance
      rw [Cursor.upTo_advance, Cursor.advance_advance, upTo_skipWhile, take_add_advance, hds,
        ← Decimal.length_digitsText, List.take_left]
    rw [hout.natural_iff]
    constructor
    · rintro ⟨hend, hn, hle⟩
      rw [hend, List.append_nil] at htext
      exact ⟨_, ds, hgap, hi, htext, hn, hle⟩
    · rintro ⟨gap, es, hg, hi', htext', hn, hle⟩
      rw [htext] at htext'
      have hsame := eq_of_behind_blanks hgap hg (hi.isSpace_head _) (hhead hi') htext'
      have hend := hout.eq_nil hsame
      rw [hend, List.append_nil] at hsame
      obtain rfl := Decimal.digitsText_injective hsame
      exact ⟨hend, hn, hle⟩

end Federation.Json
