import Federation.Encoding.Base64
import Federation.Proofs.Text.Utf8

/-!
# Reading base 64 back

The reader gathers symbols in stretches of eight, the writer puts out groups of four.  So whenever
the reader comes to the start of a group, it holds no group, one or two (`Held`), and what is still
to come is read as the bytes that it was written for.

* `Base64.decodeFrom_symbols`   the reader at the start of a group;
* `Base64.decode_encode`        all bytes are read back as they were.
-/

namespace Federation.Base64

/-! ## symbols -/

def Symbol.char : Symbol → Char
  | .value n => digit n
  | .padding => '='

def Symbol.byte (s : Symbol) : UInt8 := UInt8.ofNat s.char.toNat

/-- six bits, or nothing -/
def Symbol.Fits : Symbol → Prop
  | .value n => n < 64
  | .padding => True

theorem digit_fits : ∀ n < 64, (digit n).toNat ≤ 0x7F ∧
    isBlank (UInt8.ofNat (digit n).toNat) = false ∧
    (symbol (UInt8.ofNat (digit n).toNat)).toOption = some (.value n) := by decide

section
variable {s : Symbol}

theorem Symbol.Fits.ascii (h : s.Fits) : s.char.toNat ≤ 0x7F := by
  cases s with
  | value n => exact (digit_fits n h).1
  | padding => decide

theorem Symbol.Fits.isBlank (h : s.Fits) : isBlank s.byte = false := by
  cases s with
  | value n => exact (digit_fits n h).2.1
  | padding => decide

theorem Symbol.Fits.symbol (h : s.Fits) : symbol s.byte = .ok s := by
  have hread : (Base64.symbol s.byte).toOption = some s := by
    cases s with
    | value n => exact (digit_fits n h).2.2
    | padding => decide
  cases hs : Base64.symbol s.byte with
  | error f =>
    rw [hs] at hread
    cases hread
  | ok t =>
    rw [hs] at hread
    cases hread
    rfl

end

/-! ## groups -/

def quad (a b c : UInt8) : List Symbol := [
  .value (a.toNat / 4), .value (a.toNat % 4 * 16 + b.toNat / 16),
  .value (b.toNat % 16 * 4 + c.toNat / 64), .value (c.toNat % 64)]

/-- the symbols of a byte string -/
def symbols : Bytes → List Symbol
  | [] => []
  | [a] => (quad a 0 0).take 2 ++ [.padding, .padding]
  | [a, b] => (quad a b 0).take 3 ++ [.padding]
  | a :: b :: c :: rest => quad a b c ++ symbols rest

theorem encodeChars_eq (bs : Bytes) : encodeChars bs = (symbols bs).map Symbol.char := by
  induction bs using symbols.induct with
  | case1 => rfl
  | case2 a => rfl
  | case3 a b => rfl
  | case4 a b c rest ih =>
    rw [encodeChars, symbols, ih, List.map_append]
    rfl

theorem fits_quad (a b c : UInt8) : ∀ s ∈ quad a b c, s.Fits := by
  have ha := a.toNat_lt
  have hb := b.toNat_lt
  have hc := c.toNat_lt
  simp only [quad, List.forall_mem_cons, List.not_mem_nil, false_implies, implies_true, and_true,
    Symbol.Fits]
  omega

theorem fits_symbols (bs : Bytes) : ∀ s ∈ symbols bs, s.Fits := by
  induction bs using symbols.induct with
  | case1 => exact fun _ hs => absurd hs List.not_mem_nil
  | case2 a =>
    refine List.forall_mem_append.2 ⟨fun s hs => ?_, by simp [Symbol.Fits]⟩
    exact fits_quad a 0 0 s (List.mem_of_mem_take hs)
  | case3 a b =>
    refine List.forall_mem_append.2 ⟨fun s hs => ?_, by simp [Symbol.Fits]⟩
    exact fits_quad a b 0 s (List.mem_of_mem_take hs)
  | case4 a b c rest ih => exact List.forall_mem_append.2 ⟨fits_quad a b c, ih⟩

theorem encode_bytes (bs : Bytes) : Utf8.encode (encode bs) = (symbols bs).map Symbol.byte := by
  have hascii : ∀ c ∈ (symbols bs).map Symbol.char, c.toNat ≤ 0x7F := by
    intro c hc
    obtain ⟨s, hs, rfl⟩ := List.mem_map.1 hc
    exact (fits_symbols bs s hs).ascii
  rw [encode, Utf8.encode_ofList, encodeChars_eq, Utf8.encodeChars_of_ascii hascii, List.map_map]
  rfl

theorem digit_isPrintable : ∀ n < 64, 0x20 ≤ (digit n).toNat ∧ (digit n).toNat < 0x7F := by decide

theorem encode_isPrintable (bs : Bytes) :
    ∀ c ∈ (encode bs).toList, 0x20 ≤ c.toNat ∧ c.toNat < 0x7F := by
  intro c hc
  rw [encode, String.toList_ofList, encodeChars_eq] at hc
  obtain ⟨s, hs, rfl⟩ := List.mem_map.1 hc
  have hfits := fits_symbols bs s hs
  cases s with
  | value n => exact digit_isPrintable n hfits
  | padding => decide

/-! ## three bytes -/

theorem byte1_quad (a b : UInt8) : byte1 (a.toNat / 4) (a.toNat % 4 * 16 + b.toNat / 16) = a := by
  have hb := b.toNat_lt
  have h : a.toNat / 4 * 4 + (a.toNat % 4 * 16 + b.toNat / 16) / 16 = a.toNat := by omega
  rw [byte1, h, UInt8.ofNat_toNat]

theorem byte2_quad (a b c : UInt8) :
    byte2 (a.toNat % 4 * 16 + b.toNat / 16) (b.toNat % 16 * 4 + c.toNat / 64) = b := by
  have hb := b.toNat_lt
  have hc := c.toNat_lt
  have h : (a.toNat % 4 * 16 + b.toNat / 16) % 16 * 16 + (b.toNat % 16 * 4 + c.toNat / 64) / 4
      = b.toNat := by omega
  rw [byte2, h, UInt8.ofNat_toNat]

theorem byte3_quad (b c : UInt8) :
    byte3 (b.toNat % 16 * 4 + c.toNat / 64) (c.toNat % 64) = c := by
  have hc := c.toNat_lt
  have h : (b.toNat % 16 * 4 + c.toNat / 64) % 4 * 64 + c.toNat % 64 = c.toNat := by omega
  rw [byte3, h, UInt8.ofNat_toNat]

theorem front_quad (a b c : UInt8) (rest : List Symbol) :
    front (quad a b c ++ rest) = (a :: b :: c :: ·) <$> front rest := by
  rw [quad, List.cons_append, List.cons_append, List.cons_append, List.cons_append,
    List.nil_append, front, byte1_quad, byte2_quad, byte3_quad]

theorem last_quad (a b c : UInt8) : last (quad a b c) = .ok [a, b, c] := by
  rw [quad, last, byte1_quad, byte2_quad, byte3_quad]

/-! ## the reader at the start of a group -/

/-- what the reader may hold there, and the bytes that this stands for -/
inductive Held : List Symbol → Bytes → Prop where
  | none : Held [] []
  | one (a b c : UInt8) : Held (quad a b c) [a, b, c]
  | two (a b c a' b' c' : UInt8) : Held (quad a b c ++ quad a' b' c') [a, b, c, a', b', c']

/-- the reader takes symbols as long as they fit into the stretch -/
theorem decodeFrom_map {ss : List Symbol} (hs : ∀ s ∈ ss, s.Fits) (rest : Bytes) :
    ∀ pending : List Symbol, pending.length + ss.length ≤ stretch →
      decodeFrom pending (ss.map Symbol.byte ++ rest) = decodeFrom (pending ++ ss) rest := by
  induction ss with
  | nil =>
    intro pending _
    rw [List.append_nil]
    rfl
  | cons s ss ih =>
    intro pending hl
    rw [List.length_cons] at hl
    obtain ⟨hfits, hrest⟩ := List.forall_mem_cons.1 hs
    rw [List.map_cons, List.cons_append, decodeFrom, if_neg (by rw [hfits.isBlank]; decide),
      hfits.symbol]
    show (if pending.length < stretch then _ else _) = _
    rw [if_pos (by omega), ih hrest _ (by rw [List.length_append, List.length_singleton]; omega),
      List.append_assoc, List.singleton_append]

theorem decodeFrom_full {pending : List Symbol} {bytes : Bytes} (hl : pending.length = stretch)
    (hf : front pending = .ok bytes) {s : Symbol} (hs : s.Fits) (rest : Bytes) :
    decodeFrom pending (s.byte :: rest) = (bytes ++ ·) <$> decodeFrom [s] rest := by
  rw [decodeFrom, if_neg (by rw [hs.isBlank]; decide), hs.symbol]
  show (if pending.length < stretch then _ else _) = _
  rw [if_neg (by omega), hf]
  rfl

theorem Held.take {pending ss : List Symbol} {bytes : Bytes} (h : Held pending bytes)
    (hs : ∀ s ∈ ss, s.Fits) (hl : ss.length = 4) (rest : Bytes) :
    (bytes.length ≤ 3 ∧
      decodeFrom pending (ss.map Symbol.byte ++ rest) = decodeFrom (pending ++ ss) rest) ∨
    decodeFrom pending (ss.map Symbol.byte ++ rest) = (bytes ++ ·) <$> decodeFrom ss rest := by
  cases h with
  | none => exact .inl ⟨Nat.zero_le 3, decodeFrom_map hs rest [] (by simp [hl, stretch])⟩
  | one a b c =>
    exact .inl ⟨Nat.le_refl 3, decodeFrom_map hs rest _ (by simp [hl, stretch, quad])⟩
  | two a b c a' b' c' =>
    cases ss with
    | nil => cases hl
    | cons s ss =>
      obtain ⟨hfits, hrest⟩ := List.forall_mem_cons.1 hs
      rw [List.length_cons] at hl
      have hfront : front (quad a b c ++ quad a' b' c') = .ok [a, b, c, a', b', c'] := by
        rw [front_quad, ← List.append_nil (quad a' b' c'), front_quad]
        rfl
      refine .inr ?_
      rw [List.map_cons, List.cons_append, decodeFrom_full rfl hfront hfits,
        decodeFrom_map hrest rest [s] (by simp [stretch]; omega), List.singleton_append]

theorem finish_append {ss : List Symbol} {bytes more : Bytes} (h : Held ss bytes)
    (hl : bytes.length ≤ 3) {t : List Symbol} (ht : t.length = 4) (hlast : last t = .ok more) :
    finish (ss ++ t) = .ok (bytes ++ more) := by
  cases h with
  | none => rw [List.nil_append, finish, if_pos (by omega), hlast, List.nil_append]
  | one a b c =>
    have hlong : ¬(quad a b c ++ t).length ≤ 4 := by simp [quad, ht]
    have htake : (quad a b c ++ t).take 4 = quad a b c ++ [] := rfl
    have hdrop : (quad a b c ++ t).drop 4 = t := rfl
    rw [finish, if_neg hlong, htake, hdrop, front_quad, hlast]
    rfl
  | two a b c a' b' c' => exact absurd hl (by simp)

theorem finish_held {ss : List Symbol} {bytes : Bytes} (h : Held ss bytes) :
    finish ss = .ok bytes := by
  cases h with
  | none => rfl
  | one a b c => rw [finish, if_pos (by simp [quad]), last_quad]
  | two a b c a' b' c' => exact finish_append (.one a b c) (Nat.le_refl 3) rfl (last_quad a' b' c')

theorem Held.finish {pending t : List Symbol} {bytes more : Bytes} (h : Held pending bytes)
    (hs : ∀ s ∈ t, s.Fits) (hl : t.length = 4) (hlast : last t = .ok more) :
    decodeFrom pending (t.map Symbol.byte) = .ok (bytes ++ more) := by
  have htake := h.take hs hl []
  rw [List.append_nil] at htake
  obtain ⟨hle, hd⟩ | hd := htake
  · rw [hd, decodeFrom, finish_append h hle hl hlast]
  · have hfinish : decodeFrom t [] = .ok more := by
      rw [decodeFrom, Base64.finish, if_pos (by omega), hlast]
    rw [hd, hfinish]
    rfl

/-- whatever whole groups the reader holds, it reads the rest of the text as the rest of the
bytes -/
theorem decodeFrom_symbols (bs : Bytes) : ∀ {pending : List Symbol} {bytes : Bytes},
    Held pending bytes → decodeFrom pending ((symbols bs).map Symbol.byte) = .ok (bytes ++ bs) := by
  induction bs using symbols.induct with
  | case1 =>
    intro pending bytes h
    show decodeFrom pending [] = _
    rw [decodeFrom, finish_held h, List.append_nil]
  | case2 a =>
    intro pending bytes h
    refine h.finish (fits_symbols [a]) rfl ?_
    show Except.ok [byte1 (a.toNat / 4) (a.toNat % 4 * 16 + (0 : UInt8).toNat / 16)] = _
    rw [byte1_quad]
  | case3 a b =>
    intro pending bytes h
    refine h.finish (fits_symbols [a, b]) rfl ?_
    show Except.ok [byte1 (a.toNat / 4) (a.toNat % 4 * 16 + b.toNat / 16),
      byte2 (a.toNat % 4 * 16 + b.toNat / 16) (b.toNat % 16 * 4 + (0 : UInt8).toNat / 64)] = _
    rw [byte1_quad, byte2_quad]
  | case4 a b c rest ih =>
    intro pending bytes h
    rw [symbols, List.map_append]
    obtain ⟨hle, hd⟩ | hd := h.take (fits_quad a b c) rfl ((symbols rest).map Symbol.byte)
    · rw [hd]
      cases h with
      | none => exact ih (.one a b c)
      | one a' b' c' => exact ih (.two a' b' c' a b c)
      | two => exact absurd hle (by simp)
    · rw [hd, ih (.one a b c)]
      rfl

theorem decode_encode (bs : Bytes) : decode (Utf8.encode (encode bs)) = .ok bs := by
  rw [encode_bytes, decode, decodeFrom_symbols bs .none, List.nil_append]

end Federation.Base64
