import Federation.Proofs.Json.Integer
import Federation.Proofs.Json.Readback

/-!
# Reading numbers back

A number is read digit by digit, so what is known of its digits, of its fraction and of its exponent
gives the whole of it.  It ends in front of any byte that it could not go on with.

* `Json.reads_number`         the digits in front;
* `Json.reads_fraction`       a fraction;
* `Json.reads_exponent_up`, `Json.reads_exponent_down`
                              an exponent with its sign;
* `Json.reads_value_number`   a number as a value.
-/

namespace Federation.Json

open Decimal (digitByte digitsText numeral)

def NoDigit (rest : Bytes) : Prop := ∀ b ∈ rest.head?, isDigit b = false

theorem Closes.noDigit {rest : Bytes} (h : Closes rest) : NoDigit rest := fun b hb => (h b hb).1

theorem Closes.not_point {rest : Bytes} (h : Closes rest) : ¬rest.head? = some (byte '.') :=
  fun hb => (h _ hb).2.1 rfl

theorem Closes.not_exponent {rest : Bytes} (h : Closes rest) :
    ¬(decide (rest.head? = some (byte 'e')) || decide (rest.head? = some (byte 'E'))) = true := by
  rw [Bool.or_eq_true, decide_eq_true_eq, decide_eq_true_eq]
  rintro (hb | hb)
  · exact (h _ hb).2.2.1 rfl
  · exact (h _ hb).2.2.2 rfl

variable {tail rest : Bytes} {negative : Bool} {m : Nat} {x : Number} {y : Binary64}

theorem reads_look_head (rest : Bytes) : Reads look [] rest rest.head? := fun _ => rfl

/-! ## digits -/

theorem digits64_digits (ds : List (Fin 10)) (hrest : NoDigit rest) {n : Nat}
    (h : n * 10 ^ ds.length + numeral ds ≤ Decimal.max64) (o : Nat) :
    digits64 n o (digitsText ds ++ rest) =
      (n * 10 ^ ds.length + numeral ds, false, ⟨o + ds.length, rest⟩) := by
  induction ds generalizing n o with
  | nil =>
    show digits64 n o rest = _
    rw [Decimal.behind_nil]
    cases rest with
    | nil => rfl
    | cons b rest =>
      rw [digits64, if_neg (by rw [hrest b rfl]; decide)]
      rfl
  | cons d ds ih =>
    rw [Decimal.behind_cons] at h ⊢
    rw [Decimal.digitsText_cons, List.cons_append, digits64, if_pos (isDigit_digitByte d),
      toNat_sub_digitByte]
    dsimp only
    rw [if_neg (Nat.not_lt.2 (Nat.le_trans (Decimal.le_behind _ ds) h)), ih h, List.length_cons,
      Nat.add_right_comm, ← Nat.add_assoc]

theorem exponentDigits_cons (d : Fin 10) (bs : Bytes) (n o : Nat) :
    exponentDigits n o (digitByte d.val :: bs) =
      if maxExponent < n * 10 + d.val then (none, ⟨o + 1, bs⟩)
      else exponentDigits (n * 10 + d.val) (o + 1) bs := by
  rw [exponentDigits, if_pos (isDigit_digitByte d), toNat_sub_digitByte]

theorem exponentDigits_of_le (ds : List (Fin 10)) (hrest : NoDigit rest) {n : Nat}
    (h : n * 10 ^ ds.length + numeral ds ≤ maxExponent) (o : Nat) :
    exponentDigits n o (digitsText ds ++ rest) =
      (some (n * 10 ^ ds.length + numeral ds), ⟨o + ds.length, rest⟩) := by
  induction ds generalizing n o with
  | nil =>
    show exponentDigits n o rest = _
    rw [Decimal.behind_nil]
    cases rest with
    | nil => rfl
    | cons b rest =>
      rw [exponentDigits, if_neg (by rw [hrest b rfl]; decide)]
      rfl
  | cons d ds ih =>
    rw [Decimal.behind_cons] at h ⊢
    rw [Decimal.digitsText_cons, List.cons_append, exponentDigits_cons,
      if_neg (Nat.not_lt.2 (Nat.le_trans (Decimal.le_behind _ ds) h)), ih h, List.length_cons,
      Nat.add_right_comm, ← Nat.add_assoc]

theorem exponentDigits_of_lt (ds : List (Fin 10)) (hrest : NoDigit rest) {n : Nat}
    (hn : n ≤ maxExponent) (h : maxExponent < n * 10 ^ ds.length + numeral ds) (o : Nat) :
    ∃ c, exponentDigits n o (digitsText ds ++ rest) = (none, c) ∧
      c.skipWhile isDigit = ⟨o + ds.length, rest⟩ := by
  induction ds generalizing n o with
  | nil =>
    rw [Decimal.behind_nil] at h
    exact absurd hn (Nat.not_le.2 h)
  | cons d ds ih =>
    have hend : o + (d :: ds).length = o + 1 + ds.length := by
      rw [List.length_cons, Nat.add_right_comm, ← Nat.add_assoc]
    rw [Decimal.behind_cons] at h
    rw [Decimal.digitsText_cons, List.cons_append, exponentDigits_cons, hend]
    by_cases hlarge : maxExponent < n * 10 + d.val
    · rw [if_pos hlarge]
      refine ⟨_, rfl, ?_⟩
      rw [Cursor.skipWhile, Decimal.takeWhile_digits isDigit_iff ds hrest, Cursor.advance,
        List.drop_left, Decimal.length_digitsText]
    · rw [if_neg hlarge]
      exact ih (Nat.not_lt.1 hlarge) h _

/-! ## floats -/

def signed (negative : Bool) (y : Binary64) : Number := .float { y with negative := negative }

theorem reads_float {e : Int} (h : scale m e = some y) (rest : Bytes) :
    Reads (float negative m e) [] rest (signed negative y) := by
  intro o
  rw [float, h]
  rfl

theorem reads_floatEnd {e : Int} (h : scale m e = some y) (hrest : Closes rest) :
    Reads (floatEnd negative m e) [] rest (signed negative y) := by
  refine (reads_look_head rest).bind_nil ?_
  rw [if_neg hrest.not_exponent]
  exact reads_float h rest

theorem reads_floatEnd_exponent {e : Int} {text : Bytes}
    (h : Reads (exponent negative m e) (byte 'e' :: text) rest x) :
    Reads (floatEnd negative m e) (byte 'e' :: text) rest x := by
  refine (reads_look _ _).bind_nil ?_
  rw [if_pos (by decide)]
  exact h

theorem reads_fraction {ds : List (Fin 10)} (hne : ds ≠ []) {before : Int}
    (hle : m * 10 ^ ds.length + numeral ds ≤ Decimal.max64) (htail : NoDigit (tail ++ rest))
    (h : Reads (floatEnd negative (m * 10 ^ ds.length + numeral ds) (before - ds.length))
      tail rest x) :
    Reads (fraction negative m before) (byte '.' :: (digitsText ds ++ tail)) rest x := by
  intro o
  have hmoved : o + 1 + ds.length ≠ o + 1 := by
    have hpos := List.length_pos_iff.2 hne
    omega
  have hstart : Cursor.advance ⟨o, byte '.' :: (digitsText ds ++ tail) ++ rest⟩ 1
      = ⟨o + 1, digitsText ds ++ (tail ++ rest)⟩ :=
    congrArg (Cursor.mk (o + 1)) (List.append_assoc _ _ _)
  have hend : o + (byte '.' :: (digitsText ds ++ tail)).length
      = o + 1 + ds.length + tail.length := by
    rw [List.length_cons, List.length_append, Decimal.length_digitsText]
    omega
  rw [fraction, hstart, hend]
  dsimp only
  rw [digits64_digits ds htail hle]
  dsimp only
  rw [if_neg (by decide), if_neg hmoved, Nat.add_sub_cancel_left]
  exact h _

/-! ## exponents -/

theorem reads_exponent {mark : UInt8} (down : Bool)
    (hmark : mark = if down then byte '-' else byte '+') {start : Int} {text : Bytes}
    (h : Reads (exponentValue negative m start (down = true)) text rest x) :
    Reads (exponent negative m start) (byte 'e' :: mark :: text) rest x := by
  refine .behind ((reads_look mark _).bind_nil ?_)
  subst hmark
  cases down with
  | false =>
    show Reads (take 1 >>= fun _ => exponentValue negative m start _) _ _ _
    exact .behind h
  | true =>
    show Reads (take 1 >>= fun _ => exponentValue negative m start _) _ _ _
    exact .behind h

theorem reads_exponentValue {start : Int} {down : Prop} [Decidable down] (d : Fin 10) {text : Bytes}
    (h : Reads (exponentTail negative m start down d.val) text rest x) :
    Reads (exponentValue negative m start down) (digitByte d.val :: text) rest x := by
  refine (reads_look _ _).bind_nil ?_
  show Reads (take 1 >>= _) _ _ _
  refine .behind ?_
  rw [isDigit_digitByte, toNat_sub_digitByte, if_neg (by decide)]
  exact h

theorem reads_exponent_up (d : Fin 10) (ds : List (Fin 10)) {start : Int}
    (hle : numeral (d :: ds) ≤ maxExponent) (hs : scale m (start + numeral (d :: ds)) = some y)
    (hrest : Closes rest) : Reads (exponent negative m start)
      (byte 'e' :: byte '+' :: digitsText (d :: ds)) rest (signed negative y) := by
  rw [Decimal.numeral_cons] at hle hs
  rw [Decimal.digitsText_cons]
  refine reads_exponent false rfl (reads_exponentValue d fun o => ?_)
  rw [exponentTail]
  dsimp only
  rw [exponentDigits_of_le ds hrest.noDigit hle, Decimal.length_digitsText]
  exact reads_float hs rest _

theorem reads_exponent_down (d : Fin 10) (ds : List (Fin 10)) {start : Int} (hstart : start ≤ 0)
    (hs : ∀ e ≤ 0, ∃ y, scale m e = some y) : ∃ y, ∀ rest, Closes rest →
      Reads (exponent negative m start) (byte 'e' :: byte '-' :: digitsText (d :: ds)) rest
        (signed negative y) := by
  have hfirst : d.val ≤ maxExponent := Nat.le_trans (Nat.le_of_lt d.isLt) (by decide)
  rw [Decimal.digitsText_cons]
  by_cases hle : d.val * 10 ^ ds.length + numeral ds ≤ maxExponent
  · obtain ⟨y, hy⟩ := hs (start - (d.val * 10 ^ ds.length + numeral ds : Nat)) (by omega)
    refine ⟨y, fun rest hrest => ?_⟩
    refine reads_exponent true rfl (reads_exponentValue d fun o => ?_)
    rw [exponentTail]
    dsimp only
    rw [exponentDigits_of_le ds hrest.noDigit hle, Decimal.length_digitsText]
    exact reads_float hy rest _
  · refine ⟨Binary64.zero, fun rest hrest => ?_⟩
    refine reads_exponent true rfl (reads_exponentValue d fun o => ?_)
    obtain ⟨c, hdigits, hskip⟩ :=
      exponentDigits_of_lt ds hrest.noDigit hfirst (Nat.not_le.1 hle) o
    rw [exponentTail]
    dsimp only
    rw [hdigits, Decimal.length_digitsText, ← hskip]
    dsimp only
    rw [if_neg (by simp)]
    rfl

/-! ## numbers -/

theorem reads_numberEnd_natural (hrest : Closes rest) :
    Reads (numberEnd false m) [] rest (.natural m) := by
  refine (reads_look_head rest).bind_nil ?_
  rw [if_neg hrest.not_point, if_neg hrest.not_exponent]
  exact Reads.pure _ _

theorem reads_numberEnd_negative (hm : 1 ≤ m ∧ m ≤ maxNegative) (hrest : Closes rest) :
    Reads (numberEnd true m) [] rest (.negative m) := by
  refine (reads_look_head rest).bind_nil ?_
  rw [if_neg hrest.not_point, if_neg hrest.not_exponent, if_neg (by decide), if_pos hm]
  exact Reads.pure _ _

theorem reads_numberEnd_point {text : Bytes}
    (h : Reads (fraction negative m 0) (byte '.' :: text) rest x) :
    Reads (numberEnd negative m) (byte '.' :: text) rest x := by
  refine (reads_look _ _).bind_nil ?_
  rw [if_pos rfl]
  exact h

theorem reads_numberEnd_exponent {text : Bytes}
    (h : Reads (exponent negative m 0) (byte 'e' :: text) rest x) :
    Reads (numberEnd negative m) (byte 'e' :: text) rest x := by
  refine (reads_look _ _).bind_nil ?_
  rw [if_neg (by decide), if_pos (by decide)]
  exact h

/-- the digits in front of a point, an exponent or the end -/
theorem reads_number {ds : List (Fin 10)} (hds : IsInteger ds) (hle : numeral ds ≤ Decimal.max64)
    (htail : NoDigit (tail ++ rest)) (h : Reads (numberEnd negative (numeral ds)) tail rest x) :
    Reads (number negative) (digitsText ds ++ tail) rest x := by
  cases hds with
  | zero =>
    have hno : ¬(tail ++ rest).head?.any isDigit = true := by
      cases hb : (tail ++ rest).head? with
      | none => decide
      | some b =>
        rw [Option.any_some, htail b hb]
        decide
    show Reads (number negative) (byte '0' :: tail) rest x
    refine (reads_look _ _).bind_nil ?_
    show Reads (take 1 >>= _) _ _ _
    refine .behind ((reads_look_head _).bind_nil ?_)
    rw [if_neg hno]
    exact h
  | @cons d hd ds =>
    have hzero : digitByte d.val ≠ byte '0' :=
      fun he => hd (Decimal.digitByte_injective (e := 0) he)
    rw [Decimal.digitsText_cons, List.cons_append]
    refine (reads_look _ _).bind_nil ?_
    show Reads (take 1 >>= _) _ _ _
    refine .behind ?_
    rw [if_neg hzero, if_pos (isDigit_digitByte d), toNat_sub_digitByte]
    rw [Decimal.numeral_cons] at hle h
    intro o
    rw [integer, List.append_assoc, digits64_digits ds htail hle]
    dsimp only
    rw [if_neg (by decide), List.length_append, Decimal.length_digitsText, ← Nat.add_assoc]
    exact h _

/-! ## values -/

def signText (negative : Bool) : Bytes := if negative then [byte '-'] else []

theorem reads_value_number (depth : Nat) {d : Fin 10} {text : Bytes}
    (h : Reads (number negative) (digitByte d.val :: text) rest x) :
    Reads (value depth) (signText negative ++ digitByte d.val :: text) rest (.number x) := by
  have hfirst : ∀ d : Fin 10, isSpace (digitByte d.val) = false ∧ digitByte d.val ≠ byte '[' ∧
      digitByte d.val ≠ byte '\x7b' ∧ digitByte d.val ≠ byte 'n' ∧ digitByte d.val ≠ byte 't' ∧
      digitByte d.val ≠ byte 'f' ∧ digitByte d.val ≠ byte '-' := by decide
  rw [value.eq_def]
  cases negative with
  | true =>
    refine (reads_peek_here (by decide) _).bind_nil ?_
    show Reads (take 1 >>= _) _ _ _
    exact .behind (h.map Value.number)
  | false =>
    obtain ⟨hspace, hlist, hobject, hn, ht, hf, hm⟩ := hfirst d
    refine (reads_peek_here hspace _).bind_nil ?_
    dsimp only
    rw [if_neg hlist, if_neg hobject, scalar, if_neg hn, if_neg ht, if_neg hf, if_neg hm,
      if_pos (isDigit_digitByte d)]
    exact h.map Value.number

end Federation.Json
