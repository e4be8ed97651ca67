import Federation.Proofs.Json.Alongside
import Federation.Proofs.Json.Integer

/-!
# Scalars that are passed over

A value that nobody asks for is passed over, not decoded.  A number or a string that can be read can
be passed over too, and the cursor comes to the same place, though an escape that stands for half a
pair is a step of its own, and no number is too large.

* `Json.Passes`                       readers that stop at the same places;
* `Json.skipString_of_stringBytes`    a string;
* `Json.passes_number`                a number;
* `Json.passes_scalar`                any value that is no container.
-/

namespace Federation.Json

/-! ## readers beside each other -/

section
variable {α β : Type}

/-- `s` passes over whatever `r` reads -/
def Passes (s : Reader Unit) (r : Reader α) : Prop := ∀ c a c', r c = .ok (a, c') → s c = .ok ((), c')

variable {s s' : Reader Unit} {r : Reader α}

theorem passes_fail (s : Reader Unit) (fault : Cursor → Fault) : Passes s (fail fault : Reader α) :=
  fun _ _ _ h => nomatch h

theorem passes_pure (a : α) : Passes (pure ()) (pure a) := by
  intro c b c' h
  obtain ⟨-, rfl⟩ := pure_eq_ok_iff.1 h
  rfl

theorem Passes.map {g : α → β} (h : Passes s r) : Passes s (g <$> r) := by
  intro c b c' hr
  obtain ⟨a, ha, -⟩ := map_eq_ok_iff.1 hr
  exact h c a c' ha

theorem Passes.behind {q : Reader β} {t : β → Reader Unit} {f : β → Reader α}
    (h : ∀ b, Passes (t b) (f b)) : Passes (q >>= t) (q >>= f) := by
  intro c a c' hr
  obtain ⟨b, c₁, hq, hf⟩ := bind_eq_ok_iff.1 hr
  exact bind_eq_ok_iff.2 ⟨b, c₁, hq, h b c₁ a c' hf⟩

theorem Passes.ite {p : Prop} [Decidable p] {r' : Reader α} (h : p → Passes s r)
    (h' : ¬p → Passes s' r') : Passes (if p then s else s') (if p then r else r') := by
  by_cases hp : p
  · rw [if_pos hp, if_pos hp]
    exact h hp
  · rw [if_neg hp, if_neg hp]
    exact h' hp

theorem Advances.bind {q : Reader β} {f : β → Reader α} (hq : Advances q)
    (h : ∀ b, Advances (f b)) : Advances (q >>= f) := by
  intro c a c' hr
  obtain ⟨b, c₁, h₁, h₂⟩ := bind_eq_ok_iff.1 hr
  obtain ⟨m, rfl⟩ := hq c b c₁ h₁
  obtain ⟨n, rfl⟩ := h b _ a c' h₂
  exact ⟨m + n, c.advance_advance m n⟩

theorem advances_fail (fault : Cursor → Fault) : Advances (fail fault : Reader α) :=
  fun _ _ _ h => nomatch h

theorem advances_pure (a : α) : Advances (pure a) := by
  intro c b c' h
  obtain ⟨-, rfl⟩ := pure_eq_ok_iff.1 h
  exact ⟨0, rfl⟩

theorem advances_peek : Advances peek := by
  intro c b? c' h
  cases h
  exact ⟨_, rfl⟩

theorem Advances.length_le (h : Advances r) {c c' : Cursor} {a : α} (hr : r c = .ok (a, c')) :
    c'.rest.length ≤ c.rest.length := by
  obtain ⟨n, rfl⟩ := h c a c' hr
  rw [Cursor.advance, List.length_drop]
  exact Nat.sub_le _ _

end

/-! ## strings -/

theorem byte_ofNat (b : UInt8) : byte (Char.ofNat b.toNat) = b := by
  have hlt := b.toNat_lt
  have hvalid : b.toNat.isValidChar := .inl (by omega)
  have h : (Char.ofNat b.toNat).toNat = b.toNat := by
    rw [Char.ofNat, dif_pos hvalid]
    rfl
  rw [byte, h, UInt8.ofNat_toNat]

theorem advances_hexQuad : Advances hexQuad := by
  intro c n c' h
  rw [hexQuad] at h
  split at h
  · next hrest =>
    dsimp only at h
    split at h
    · cases h
      exact ⟨4, by rw [Cursor.advance, hrest]; rfl⟩
    · cases h
  · cases h

theorem advances_skipEscape : Advances skipEscape := by
  refine advances_look.bind fun b? => ?_
  cases b? with
  | none => exact advances_fail _
  | some b =>
    refine (advances_take 1).bind fun _ => ?_
    split
    · exact advances_pure _
    split
    · exact advances_hexQuad.bind fun _ => advances_pure _
    · exact advances_fail _

theorem escapeMark_eq_ok {b : UInt8} {c c' : Cursor} (h : escapeMark b c = .ok ((), c')) :
    c.rest.head? = some b ∧ c' = c.advance 1 := by
  obtain ⟨b?, _, h₁, h⟩ := bind_eq_ok_iff.1 h
  cases h₁
  cases hb : c.rest.head? with
  | none =>
    rw [hb] at h
    cases h
  | some b' =>
    rw [hb] at h
    obtain ⟨_, _, h₁, h⟩ := bind_eq_ok_iff.1 h
    cases h₁
    split at h
    · next he =>
      obtain ⟨-, rfl⟩ := pure_eq_ok_iff.1 h
      exact ⟨congrArg some he, rfl⟩
    · cases h

theorem skipEscape_of_letter {c : Cursor} {b : UInt8} (hb : c.rest.head? = some b)
    (h : (['"', '\\', '/', 'b', 'f', 'n', 'r', 't'].any (byte · == b)) = true) :
    skipEscape c = .ok ((), c.advance 1) := by
  rw [skipEscape]
  refine bind_eq_ok_iff.2 ⟨some b, c, by rw [look, hb], bind_eq_ok_iff.2 ⟨(), _, rfl, ?_⟩⟩
  rw [if_pos h]
  rfl

theorem skipEscape_of_hexQuad {c c' : Cursor} {n : Nat} (hb : c.rest.head? = some (byte 'u'))
    (h : hexQuad (c.advance 1) = .ok (n, c')) : skipEscape c = .ok ((), c') := by
  rw [skipEscape]
  refine bind_eq_ok_iff.2 ⟨some (byte 'u'), c, by rw [look, hb],
    bind_eq_ok_iff.2 ⟨(), _, rfl, ?_⟩⟩
  rw [if_neg (by decide), if_pos rfl]
  exact bind_eq_ok_iff.2 ⟨n, c', h, rfl⟩

/-- what a `\u` escape reads: four digits, and four more behind another `\u` if they are half a
pair -/
theorem unicodeEscape_eq_ok {c c' : Cursor} {ch : Char} (h : unicodeEscape c = .ok (ch, c')) :
    ∃ n c₁, hexQuad c = .ok (n, c₁) ∧ (c' = c₁ ∨ ∃ low, c₁.rest.head? = some (byte '\\') ∧
      (c₁.advance 1).rest.head? = some (byte 'u') ∧
      hexQuad ((c₁.advance 1).advance 1) = .ok (low, c')) := by
  obtain ⟨n, c₁, hn, h⟩ := bind_eq_ok_iff.1 h
  refine ⟨n, c₁, hn, ?_⟩
  split at h
  · cases h
  split at h
  · exact .inl (pure_eq_ok_iff.1 h).2.symm
  · obtain ⟨_, c₂, hfirst, h⟩ := bind_eq_ok_iff.1 h
    obtain ⟨hback, rfl⟩ := escapeMark_eq_ok hfirst
    obtain ⟨_, c₃, hsecond, h⟩ := bind_eq_ok_iff.1 h
    obtain ⟨hmark, rfl⟩ := escapeMark_eq_ok hsecond
    obtain ⟨low, c₄, hlow, h⟩ := bind_eq_ok_iff.1 h
    split at h
    · cases h
    · obtain ⟨-, rfl⟩ := pure_eq_ok_iff.1 h
      exact .inr ⟨low, hback, hmark, hlow⟩

/-- an escape is passed over in one step, and a pair of them in two -/
theorem skipEscape_of_escaped {c c' : Cursor} {ch : Char} (h : escaped c = .ok (ch, c')) :
    skipEscape c = .ok ((), c') ∨ ∃ c₁, skipEscape c = .ok ((), c₁) ∧
      c₁.rest.head? = some (byte '\\') ∧ skipEscape (c₁.advance 1) = .ok ((), c') := by
  obtain ⟨b?, _, h₁, h⟩ := bind_eq_ok_iff.1 h
  cases h₁
  cases hb : c.rest.head? with
  | none =>
    rw [hb] at h
    cases h
  | some b =>
    rw [hb] at h
    obtain ⟨_, _, h₁, hletters⟩ := bind_eq_ok_iff.1 h
    cases h₁
    have hbyte := byte_ofNat b
    generalize Char.ofNat b.toNat = d at hletters hbyte
    subst hbyte
    have hletter : ∀ {x : Char}, (pure x : Reader Char) (c.advance 1) = .ok (ch, c') →
        (['"', '\\', '/', 'b', 'f', 'n', 'r', 't'].any (byte · == byte d)) = true →
        skipEscape c = .ok ((), c') := fun hx hd => by
      obtain ⟨-, rfl⟩ := pure_eq_ok_iff.1 hx
      exact skipEscape_of_letter hb hd
    split at hletters
    case h_9 =>
      obtain ⟨n, c₁, hn, rfl | ⟨low, hback, hmark, hlow⟩⟩ := unicodeEscape_eq_ok hletters
      · exact .inl (skipEscape_of_hexQuad hb hn)
      · exact .inr ⟨c₁, skipEscape_of_hexQuad hb hn, hback, skipEscape_of_hexQuad hmark hlow⟩
    case h_10 => cases hletters
    all_goals exact .inl (hletter hletters (by decide))

section
variable {c c' : Cursor} {n : Nat}

theorem skipString_quote (h : c.rest.head? = some (byte '"')) :
    skipString (n + 1) c = .ok ((), c.advance 1) := by
  rw [skipString]
  refine bind_eq_ok_iff.2 ⟨some (byte '"'), c, by rw [look, h], ?_⟩
  dsimp only
  rw [if_neg (by decide)]
  exact bind_eq_ok_iff.2 ⟨(), _, rfl, by rw [if_pos rfl]; rfl⟩

theorem skipString_escape (h : c.rest.head? = some (byte '\\'))
    (hskip : skipEscape (c.advance 1) = .ok ((), c')) :
    skipString (n + 1) c = skipString n c' := by
  rw [skipString, bind_of_ok (by rw [look, h] : look c = .ok (some (byte '\\'), c))]
  dsimp only
  rw [if_neg (by decide), bind_of_ok (rfl : take 1 c = .ok ((), c.advance 1)), if_neg (by decide),
    if_pos rfl]
  exact bind_of_ok hskip _

theorem skipString_plain {b : UInt8} (h : c.rest.head? = some b) (hq : b ≠ byte '"')
    (hb : b ≠ byte '\\') (hc : ¬b < 0x20) :
    skipString (n + 1) c = skipString n (c.advance 1) := by
  rw [skipString, bind_of_ok (by rw [look, h] : look c = .ok (some b, c))]
  dsimp only
  rw [if_neg hc, bind_of_ok (rfl : take 1 c = .ok ((), c.advance 1)), if_neg hq, if_neg hb]

theorem length_advance {b : UInt8} (h : c.rest.head? = some b) :
    (c.advance 1).rest.length + 1 = c.rest.length := by
  obtain ⟨more, hrest⟩ := List.head?_eq_some_iff.1 h
  rw [Cursor.advance, hrest]
  rfl

end

/-- a string that can be read is passed over, with a step for each byte at most -/
theorem skipString_of_stringBytes {n : Nat} {c c' : Cursor} {bs : Bytes}
    (h : stringBytes n c = .ok (bs, c')) {m : Nat} (hm : c.rest.length < m) :
    skipString m c = .ok ((), c') := by
  induction n generalizing c bs m with
  | zero => cases h
  | succ n ih =>
    obtain ⟨b?, _, h₁, h⟩ := bind_eq_ok_iff.1 h
    cases h₁
    cases hb : c.rest.head? with
    | none =>
      rw [hb] at h
      cases h
    | some b =>
      rw [hb] at h
      obtain ⟨_, _, h₁, h⟩ := bind_eq_ok_iff.1 h
      cases h₁
      have hlen := length_advance hb
      obtain ⟨m, rfl⟩ : ∃ m', m = m' + 1 := ⟨m - 1, by omega⟩
      split at h
      · next hq =>
        obtain ⟨-, rfl⟩ := pure_eq_ok_iff.1 h
        exact skipString_quote (hq ▸ hb)
      split at h
      · next hback =>
        obtain ⟨ch, c₂, hch, h⟩ := bind_eq_ok_iff.1 h
        obtain ⟨more, c₃, hmore, h⟩ := bind_eq_ok_iff.1 h
        obtain ⟨-, rfl⟩ := pure_eq_ok_iff.1 h
        rcases skipEscape_of_escaped hch with hskip | ⟨c₁, hskip, hback₁, hskip₁⟩
        · have hle := advances_skipEscape.length_le hskip
          rw [skipString_escape (hback ▸ hb) hskip]
          exact ih hmore (by omega)
        · have hle := advances_skipEscape.length_le hskip
          have hlen₁ := length_advance hback₁
          have hle₁ := advances_skipEscape.length_le hskip₁
          obtain ⟨m, rfl⟩ : ∃ m', m = m' + 1 := ⟨m - 1, by omega⟩
          rw [skipString_escape (hback ▸ hb) hskip, skipString_escape hback₁ hskip₁]
          exact ih hmore (by omega)
      split at h
      · cases h
      · next hq hback hcontrol =>
        obtain ⟨more, c₂, hmore, h⟩ := bind_eq_ok_iff.1 h
        obtain ⟨-, rfl⟩ := pure_eq_ok_iff.1 h
        rw [skipString_plain hb hq hback hcontrol]
        exact ih hmore (by omega)

theorem skipString_of_stringTail {c c' : Cursor} {s : String} (h : stringTail c = .ok (s, c'))
    {m : Nat} (hm : c.rest.length < m) : skipString m c = .ok ((), c') := by
  rw [stringTail] at h
  split at h
  · cases h
  · next bs c₁ hbytes =>
    split at h
    · cases h
      exact skipString_of_stringBytes hbytes hm
    · cases h

theorem advances_skipString (n : Nat) : Advances (skipString n) := by
  induction n with
  | zero => exact advances_fail _
  | succ n ih =>
    refine advances_look.bind fun b? => ?_
    cases b? with
    | none => exact advances_fail _
    | some b =>
      dsimp only
      split
      · exact advances_fail _
      refine (advances_take 1).bind fun _ => ?_
      split
      · exact advances_pure _
      split
      · exact advances_skipEscape.bind fun _ => ih
      · exact ih

/-! ## numbers -/

theorem skipWhile_cons {p : UInt8 → Bool} {b : UInt8} (hb : p b = true) (o : Nat) (rest : Bytes) :
    (⟨o, b :: rest⟩ : Cursor).skipWhile p = (⟨o + 1, rest⟩ : Cursor).skipWhile p := by
  rw [Cursor.skipWhile, List.takeWhile_cons_of_pos hb, List.length_cons, Nat.add_comm,
    ← Cursor.advance_advance]
  rfl

theorem skipWhile_self {p : UInt8 → Bool} {c : Cursor} (h : ∀ b ∈ c.rest.head?, p b = false) :
    c.skipWhile p = c := by
  have hnone : c.rest.takeWhile p = [] := by
    cases hrest : c.rest with
    | nil => rfl
    | cons b rest =>
      rw [hrest] at h
      rw [List.takeWhile_cons_of_neg (by rw [h b rfl]; decide)]
  rw [Cursor.skipWhile, hnone]
  rfl

theorem skipWhile_exponentDigits (bs : Bytes) (n o : Nat) :
    (exponentDigits n o bs).2.skipWhile isDigit = (⟨o, bs⟩ : Cursor).skipWhile isDigit ∧
    ((exponentDigits n o bs).1.isSome = true →
      (exponentDigits n o bs).2 = (⟨o, bs⟩ : Cursor).skipWhile isDigit) := by
  induction bs generalizing n o with
  | nil => exact ⟨rfl, fun _ => rfl⟩
  | cons b bs ih =>
    rw [exponentDigits]
    cases hb : isDigit b with
    | false =>
      have hself : (⟨o, b :: bs⟩ : Cursor).skipWhile isDigit = ⟨o, b :: bs⟩ :=
        skipWhile_self fun b' hb' => by
          cases hb'
          exact hb
      rw [if_neg (by decide)]
      exact ⟨rfl, fun _ => hself.symm⟩
    | true =>
      rw [if_pos rfl, skipWhile_cons hb]
      dsimp only
      split
      · exact ⟨rfl, fun h => absurd h Bool.false_ne_true⟩
      · exact ih _ _

theorem skipWhile_digits64 (bs : Bytes) (n o : Nat) {m : Nat} {full : Bool} {c : Cursor}
    (h : digits64 n o bs = (m, full, c)) :
    c.skipWhile isDigit = (⟨o, bs⟩ : Cursor).skipWhile isDigit ∧
    (full = false → c = (⟨o, bs⟩ : Cursor).skipWhile isDigit) ∧
    (full = true ∨ c.offset ≠ o → bs.head?.any isDigit = true) := by
  induction bs generalizing n o with
  | nil =>
    cases h
    exact ⟨rfl, fun _ => rfl, fun h => absurd rfl (h.resolve_left Bool.false_ne_true)⟩
  | cons b bs ih =>
    rw [digits64] at h
    cases hb : isDigit b with
    | false =>
      have hself : (⟨o, b :: bs⟩ : Cursor).skipWhile isDigit = ⟨o, b :: bs⟩ :=
        skipWhile_self fun b' hb' => by
          cases hb'
          exact hb
      rw [hb, if_neg (by decide)] at h
      cases h
      exact ⟨rfl, fun _ => hself.symm, fun h => absurd rfl (h.resolve_left Bool.false_ne_true)⟩
    | true =>
      rw [hb, if_pos rfl] at h
      dsimp only at h
      rw [skipWhile_cons hb]
      split at h
      · cases h
        exact ⟨skipWhile_cons hb _ _, fun h => absurd h.symm Bool.false_ne_true, fun _ => hb⟩
      · obtain ⟨hskip, hfull, -⟩ := ih _ _ h
        exact ⟨hskip, hfull, fun _ => hb⟩

section
variable {negative : Bool} {m : Nat}

theorem passes_exponentTail (start : Int) (down : Prop) [Decidable down] (first : Nat) :
    Passes skipDigits (exponentTail negative m start down first) := by
  intro c x c' h
  obtain ⟨hskip, hall⟩ := skipWhile_exponentDigits c.rest first c.offset
  rw [exponentTail] at h
  rw [skipDigits]
  rcases hdigits : exponentDigits first c.offset c.rest with ⟨_ | e, c₁⟩
  · rw [hdigits] at h hskip
    obtain ⟨-, h⟩ := guarded_eq_ok_iff.1 h
    cases h
    exact congrArg (fun c => Except.ok ((), c)) hskip.symm
  · rw [hdigits] at h hall
    obtain ⟨-, rfl⟩ := float_eq_ok h
    exact congrArg (fun c => Except.ok ((), c)) (hall rfl).symm

def skipExponentValue : Reader Unit := do
  match ← look with
  | none => fail (·.here .badNumber)
  | some b =>
    take 1
    if isDigit b then skipDigits else fail (·.here .badNumber)

theorem passes_exponentValue (start : Int) (down : Prop) [Decidable down] :
    Passes skipExponentValue (exponentValue negative m start down) := by
  refine .behind fun b? => ?_
  cases b? with
  | none => exact passes_fail _ _
  | some b =>
    refine .behind fun _ => ?_
    cases hb : isDigit b with
    | false => exact passes_fail _ _
    | true => exact passes_exponentTail start down _

theorem passes_exponent (start : Int) : Passes skipExponent (exponent negative m start) := by
  refine .behind fun _ => .behind fun sign => ?_
  have hvalue : Passes skipExponentValue (exponentValue negative m start (sign = some (byte '-'))) :=
    passes_exponentValue start _
  dsimp only
  exact .ite (fun _ => .behind fun _ => hvalue) fun _ => hvalue

def skipFloatEnd : Reader Unit := do
  let b ← look
  if b = some (byte 'e') || b = some (byte 'E') then skipExponent else pure ()

theorem passes_float (e : Int) : Passes (pure ()) (float negative m e) := by
  intro c x c' h
  obtain ⟨-, rfl⟩ := float_eq_ok h
  rfl

theorem passes_floatEnd (e : Int) : Passes skipFloatEnd (floatEnd negative m e) :=
  .behind fun _ => .ite (fun _ => passes_exponent e) fun _ => passes_float e

def skipFraction : Reader Unit := do
  take 1
  let digit ← look
  if !digit.any isDigit then fail (·.ahead .badNumber)
  else
    skipDigits
    skipFloatEnd

theorem skipFraction_of_digit {c c' : Cursor} (hdigit : (c.advance 1).rest.head?.any isDigit = true)
    (h : skipFloatEnd ((c.advance 1).skipWhile isDigit) = .ok ((), c')) :
    skipFraction c = .ok ((), c') := by
  rw [skipFraction]
  refine bind_eq_ok_iff.2 ⟨(), _, rfl, bind_eq_ok_iff.2 ⟨_, _, rfl, ?_⟩⟩
  rw [hdigit, if_neg (by decide)]
  exact bind_eq_ok_iff.2 ⟨(), _, rfl, h⟩

theorem passes_fraction (before : Int) : Passes skipFraction (fraction negative m before) := by
  intro c x c' h
  rw [fraction] at h
  rcases hdigits : digits64 m (c.advance 1).offset (c.advance 1).rest with ⟨m', full, c₁⟩
  obtain ⟨hskip, hall, hdigit⟩ := skipWhile_digits64 _ _ _ hdigits
  rw [hdigits] at h
  dsimp only at h
  cases full with
  | true =>
    refine skipFraction_of_digit (hdigit (.inl rfl)) ?_
    have htail := passes_floatEnd _ _ _ _ h
    rwa [hskip] at htail
  | false =>
    rw [if_neg (by decide)] at h
    obtain ⟨hne, h⟩ := guarded_eq_ok_iff.1 h
    obtain rfl := hall rfl
    exact skipFraction_of_digit (hdigit (.inr hne)) (passes_floatEnd _ _ _ _ h)

theorem skipNumberEnd_of_point {c : Cursor} (h : c.rest.head? = some (byte '.')) :
    skipNumberEnd true c = skipFraction c := by
  have hlook : look c = .ok (c.rest.head?, c) := rfl
  rw [skipNumberEnd, bind_of_ok hlook]
  rw [h, if_pos (by decide)]
  rfl

theorem skipNumberEnd_of_not_point {c : Cursor} (h : c.rest.head? ≠ some (byte '.')) :
    skipNumberEnd true c = skipFloatEnd c := by
  have hlook : look c = .ok (c.rest.head?, c) := rfl
  rw [skipNumberEnd, skipFloatEnd, bind_of_ok hlook, bind_of_ok hlook, if_neg (by simpa using h)]

theorem passes_numberEnd : Passes (skipNumberEnd true) (numberEnd negative m) := by
  intro c x c' h
  obtain ⟨_, _, h₁, h⟩ := bind_eq_ok_iff.1 h
  cases h₁
  by_cases hpoint : c.rest.head? = some (byte '.')
  · rw [if_pos hpoint] at h
    rw [skipNumberEnd_of_point hpoint]
    exact passes_fraction 0 c x c' h
  · rw [if_neg hpoint] at h
    rw [skipNumberEnd_of_not_point hpoint]
    refine bind_eq_ok_iff.2 ⟨_, c, rfl, ?_⟩
    split at h
    · next hmark =>
      rw [if_pos hmark]
      exact passes_exponent 0 c x c' h
    · next hmark =>
      rw [if_neg hmark]
      split at h
      · exact passes_pure _ c x c' h
      split at h
      · exact passes_pure _ c x c' h
      · exact passes_float 0 c x c' h

theorem passes_integer (first : Nat) :
    Passes (do skipDigits; skipNumberEnd true) (integer negative first) := by
  intro c x c' h
  rw [integer] at h
  rcases hdigits : digits64 first c.offset c.rest with ⟨m, full, c₁⟩
  obtain ⟨hskip, hall, -⟩ := skipWhile_digits64 _ _ _ hdigits
  rw [hdigits] at h
  dsimp only at h
  refine bind_eq_ok_iff.2 ⟨(), c.skipWhile isDigit, rfl, ?_⟩
  cases full with
  | true =>
    rw [if_pos rfl, hskip] at h
    by_cases hpoint : (c.skipWhile isDigit).rest.head? = some (byte '.')
    · rw [skipNumberEnd_of_point hpoint]
      rw [if_pos hpoint] at h
      exact passes_fraction _ _ _ _ h
    · rw [skipNumberEnd_of_not_point hpoint]
      rw [if_neg hpoint] at h
      exact passes_floatEnd _ _ _ _ h
  | false =>
    rw [if_neg (by decide)] at h
    obtain rfl := hall rfl
    exact passes_numberEnd _ _ _ h

end

theorem passes_number (negative : Bool) : Passes skipNumber (number negative) := by
  refine .behind fun b? => ?_
  cases b? with
  | none => exact passes_fail _ _
  | some b =>
    refine .behind fun _ => .ite (fun _ => .behind fun digit => ?_) fun _ => ?_
    · exact .ite (fun _ => passes_fail _ _) fun _ => passes_numberEnd
    · exact .ite (fun _ => passes_integer _) fun _ => passes_fail _ _

theorem length_lt_of_number {negative : Bool} {c c' : Cursor} {x : Number}
    (h : number negative c = .ok (x, c')) : c'.rest.length < c.rest.length := by
  obtain ⟨ds, more, hds, hrest, houtcome⟩ := exists_number h
  obtain ⟨n, rfl⟩ := houtcome.advance
  obtain ⟨d, ds, rfl⟩ := hds.head
  rw [Cursor.advance_advance, Cursor.advance, List.length_drop, hrest, List.length_append,
    Decimal.length_digitsText, List.length_cons]
  omega

/-! ## scalars -/

theorem advances_word (ws : List Char) : Advances (word ws) := by
  induction ws with
  | nil => exact advances_pure _
  | cons w ws ih =>
    refine advances_look.bind fun b? => ?_
    cases b? with
    | none => exact advances_fail _
    | some b =>
      refine (advances_take 1).bind fun _ => ?_
      split
      · exact ih
      · exact advances_fail _

theorem passes_word (ws : List Char) (v : Value) :
    Passes (word ws) (do word ws; pure v) := by
  intro c a c' h
  obtain ⟨_, c₁, hword, h⟩ := bind_eq_ok_iff.1 h
  obtain ⟨-, rfl⟩ := pure_eq_ok_iff.1 h
  exact hword

theorem passes_stringTail : Passes (fun c => skipString (c.rest.length + 1) c) stringTail :=
  fun _ _ _ h => skipString_of_stringTail h (Nat.lt_succ_self _)

theorem passes_scalar (b : UInt8) : Passes (skipScalar b) (scalar b) :=
  .ite (fun _ => .behind fun _ => passes_word _ _) fun _ =>
  .ite (fun _ => .behind fun _ => passes_word _ _) fun _ =>
  .ite (fun _ => .behind fun _ => passes_word _ _) fun _ =>
  .ite (fun _ => .behind fun _ => (passes_number true).map) fun _ =>
  .ite (fun _ => (passes_number false).map) fun _ =>
  .ite (fun _ => .behind fun _ => passes_stringTail.map) fun _ => passes_fail _ _

theorem length_lt_of_scalar {b : UInt8} {c c' : Cursor} {v : Value} (hb : c.rest.head? = some b)
    (h : scalar b c = .ok (v, c')) : c'.rest.length < c.rest.length := by
  have hlen := length_advance hb
  have hbehind : ∀ {α : Type} {r : Reader α} {a : α}, Advances r →
      (do take 1; r : Reader α) c = .ok (a, c') → c'.rest.length < c.rest.length := by
    intro α r a hr h
    obtain ⟨_, _, h₁, h⟩ := bind_eq_ok_iff.1 h
    cases h₁
    have hle := hr.length_le h
    omega
  have hword : ∀ {ws : List Char} {u : Value}, Advances (do word ws; pure u : Reader Value) :=
    fun {ws u} => (advances_word ws).bind fun _ => advances_pure u
  rw [scalar] at h
  split at h
  · exact hbehind hword h
  split at h
  · exact hbehind hword h
  split at h
  · exact hbehind hword h
  split at h
  · obtain ⟨_, _, h₁, h⟩ := bind_eq_ok_iff.1 h
    cases h₁
    obtain ⟨x, hx, -⟩ := map_eq_ok_iff.1 h
    have hlt := length_lt_of_number hx
    omega
  split at h
  · obtain ⟨x, hx, -⟩ := map_eq_ok_iff.1 h
    exact length_lt_of_number hx
  split at h
  · obtain ⟨_, _, h₁, h⟩ := bind_eq_ok_iff.1 h
    cases h₁
    obtain ⟨s, hs, -⟩ := map_eq_ok_iff.1 h
    have hle := (advances_skipString _).length_le (passes_stringTail _ _ _ hs)
    omega
  · cases h

end Federation.Json
