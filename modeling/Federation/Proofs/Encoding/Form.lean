import Federation.Encoding.Form
import Federation.Proofs.Text.Utf8

/-!
# Reading percent and form encoding back

A byte is written as itself, as `+` or as an escape, and each of these is read back as the byte
whatever follows it (`Resolves`).  So a text is read back piece by piece, and since no name and no
value holds a `&` or a `=` once it is written, so is a form.

* `percentDecode_percent`   a text with escapes;
* `Form.decodeText_bytes`   a name or a value;
* `Form.decode_encode`      a form.
-/

namespace Federation

/-! ## escapes -/

def asciiBytes (cs : List Char) : Bytes := cs.map fun c => UInt8.ofNat c.toNat

theorem asciiBytes_flatMap (f : UInt8 → List Char) (bs : Bytes) :
    asciiBytes (bs.flatMap f) = bs.flatMap fun b => asciiBytes (f b) := List.map_flatMap

theorem asciiBytes_append (cs ds : List Char) :
    asciiBytes (cs ++ ds) = asciiBytes cs ++ asciiBytes ds := List.map_append

theorem toNat_ofNat_ascii {n : Nat} (h : n ≤ 0x7F) : (Char.ofNat n).toNat = n := by
  have hv : n.isValidChar := .inl (by omega)
  rw [Char.ofNat, dif_pos hv]
  rfl

theorem asciiBytes_singleton {b : UInt8} (h : b.toNat ≤ 0x7F) :
    asciiBytes [Char.ofNat b.toNat] = [b] := by
  show [UInt8.ofNat (Char.ofNat b.toNat).toNat] = [b]
  rw [toNat_ofNat_ascii h, UInt8.ofNat_toNat]

theorem percentDecode_cons {b : UInt8} (h : b ≠ 0x25) (rest : Bytes) :
    percentDecode (b :: rest) = b :: percentDecode rest := by
  rw [percentDecode]
  intro _ _ _ hb
  exact absurd hb h

theorem percentDecode_percentByte (b : UInt8) (rest : Bytes) :
    percentDecode (asciiBytes (percentByte b) ++ rest) = b :: percentDecode rest := by
  have hb := b.toNat_lt
  have hhigh := Hex.value?_capital (b.toNat / 16) (by omega)
  have hlow := Hex.value?_capital (b.toNat % 16) (by omega)
  have hsum : b.toNat / 16 * 16 + b.toNat % 16 = b.toNat := by omega
  show percentDecode (0x25 :: UInt8.ofNat (Hex.capital (b.toNat / 16)).toNat ::
    UInt8.ofNat (Hex.capital (b.toNat % 16)).toNat :: rest) = _
  rw [percentDecode, hhigh, hlow]
  dsimp only
  rw [hsum, UInt8.ofNat_toNat]

theorem ascii_percentByte : ∀ n < 256, ∀ c ∈ percentByte (UInt8.ofNat n), c.toNat ≤ 0x7F := by
  have h : ∀ n < 256, ((percentByte (UInt8.ofNat n)).all fun c => decide (c.toNat ≤ 0x7F)) = true :=
    by decide +kernel
  exact fun n hn => Utf8.forall_of_all (h n hn)

/-- the ASCII text `cs` stands for the byte `b` -/
structure Resolves (cs : List Char) (b : UInt8) : Prop where
  ascii : ∀ c ∈ cs, c.toNat ≤ 0x7F
  read : ∀ rest, percentDecode (asciiBytes cs ++ rest) = b :: percentDecode rest

theorem resolves_percentByte (b : UInt8) : Resolves (percentByte b) b where
  ascii := by
    have h := ascii_percentByte b.toNat b.toNat_lt
    rw [UInt8.ofNat_toNat] at h
    exact h
  read := percentDecode_percentByte b

theorem resolves_singleton {b : UInt8} (h : b.toNat ≤ 0x7F) (hb : b ≠ 0x25) :
    Resolves [Char.ofNat b.toNat] b where
  ascii := by
    intro c hc
    rw [List.mem_singleton.1 hc, toNat_ofNat_ascii h]
    exact h
  read rest := by
    rw [asciiBytes_singleton h, List.singleton_append, percentDecode_cons hb]

theorem percentDecode_flatMap {f : UInt8 → Bytes}
    (hf : ∀ b rest, percentDecode (f b ++ rest) = b :: percentDecode rest) (bs : Bytes) :
    percentDecode (bs.flatMap f) = bs := by
  induction bs with
  | nil => exact percentDecode_nil
  | cons b bs ih => rw [List.flatMap_cons, hf, ih]

theorem isAlphanumeric_iff (b : UInt8) : isAlphanumeric b = true ↔
    (0x30 ≤ b.toNat ∧ b.toNat ≤ 0x39) ∨ (0x41 ≤ b.toNat ∧ b.toNat ≤ 0x5A) ∨
      (0x61 ≤ b.toNat ∧ b.toNat ≤ 0x7A) := by
  simp [isAlphanumeric, UInt8.le_iff_toNat_le, or_assoc]

/-- a text is read back if the characters that stand for themselves are ASCII and no `%` -/
theorem percentDecode_percent {plain : List Char} (hp : ∀ c ∈ plain, c.toNat ≤ 0x7F ∧ c ≠ '%')
    (s : String) : percentDecode (Utf8.encode (percent plain s)) = Utf8.encode s := by
  let f : UInt8 → List Char := fun b =>
    if isAlphanumeric b || plain.any (fun c => UInt8.ofNat c.toNat == b) then
      [Char.ofNat b.toNat]
    else percentByte b
  have hf : ∀ b, Resolves (f b) b := by
    intro b
    show Resolves (if _ then _ else _) b
    split
    · next h =>
      rw [Bool.or_eq_true, isAlphanumeric_iff, List.any_eq_true] at h
      obtain h | ⟨c, hc, h⟩ := h
      · exact resolves_singleton (by omega) (by rintro rfl; simp at h)
      · obtain ⟨hle, hne⟩ := hp c hc
        have hb : UInt8.ofNat c.toNat = b := eq_of_beq h
        have hn : b.toNat = c.toNat := by rw [← hb, Utf8.toNat_ofNat (by omega)]
        refine resolves_singleton (by omega) fun he => hne ?_
        rw [← Char.ofNat_toNat c, ← hn, he]
        rfl
    · exact resolves_percentByte b
  have hascii : ∀ c ∈ (Utf8.encode s).flatMap f, c.toNat ≤ 0x7F := by
    intro c hc
    obtain ⟨b, _, hb⟩ := List.mem_flatMap.1 hc
    exact (hf b).ascii c hb
  rw [percent, Utf8.encode_ofList, Utf8.encodeChars_of_ascii hascii]
  show percentDecode (asciiBytes ((Utf8.encode s).flatMap f)) = _
  rw [asciiBytes_flatMap]
  exact percentDecode_flatMap (fun b => (hf b).read) _

namespace Form

/-! ## names and values -/

/-- how a byte stands in a form -/
def written (b : UInt8) : List Char :=
  if isPlain b then [Char.ofNat b.toNat] else if b = 0x20 then ['+'] else percentByte b

theorem encodeText_eq (s : String) : encodeText s = (Utf8.encode s).flatMap written := rfl

theorem written_isFree : ∀ n < 256, ∀ c ∈ written (UInt8.ofNat n),
    c.toNat ≤ 0x7F ∧ c ≠ '&' ∧ c ≠ '=' := by
  have h : ∀ n < 256, ((written (UInt8.ofNat n)).all fun c =>
      decide (c.toNat ≤ 0x7F ∧ c ≠ '&' ∧ c ≠ '=')) = true := by decide +kernel
  exact fun n hn => Utf8.forall_of_all (h n hn)

theorem encodeText_isFree (s : String) :
    ∀ c ∈ encodeText s, c.toNat ≤ 0x7F ∧ c ≠ '&' ∧ c ≠ '=' := by
  intro c hc
  obtain ⟨b, _, hb⟩ := List.mem_flatMap.1 hc
  have h := written_isFree b.toNat b.toNat_lt
  rw [UInt8.ofNat_toNat] at h
  exact h c hb

def unplus (b : UInt8) : UInt8 := if b = 0x2B then 0x20 else b

theorem map_unplus_percentByte : ∀ n < 256, (asciiBytes (percentByte (UInt8.ofNat n))).map unplus
    = asciiBytes (percentByte (UInt8.ofNat n)) := by
  decide +kernel

theorem isPlain_iff (b : UInt8) : isPlain b = true ↔ isAlphanumeric b = true ∨ b.toNat = 0x2A ∨
    b.toNat = 0x2D ∨ b.toNat = 0x2E ∨ b.toNat = 0x5F := by
  simp [isPlain, ← UInt8.toNat_inj, or_assoc]

theorem read_written (b : UInt8) (rest : Bytes) :
    percentDecode ((asciiBytes (written b)).map unplus ++ rest) = b :: percentDecode rest := by
  rw [written]
  split
  · next h =>
    rw [isPlain_iff, isAlphanumeric_iff] at h
    have hplus : unplus b = b := if_neg (by rintro rfl; simp at h)
    rw [asciiBytes_singleton (by omega), List.map_singleton, hplus, List.singleton_append,
      percentDecode_cons (by rintro rfl; simp at h)]
  · split
    · next h =>
      subst h
      exact percentDecode_cons (by decide) rest
    · have h := map_unplus_percentByte b.toNat b.toNat_lt
      rw [UInt8.ofNat_toNat] at h
      rw [h, percentDecode_percentByte]

theorem decodeText_bytes (s : String) : decodeText (asciiBytes (encodeText s)) = s := by
  show Utf8.lossy (percentDecode ((asciiBytes (encodeText s)).map unplus)) = s
  rw [encodeText_eq, asciiBytes_flatMap, List.map_flatMap, percentDecode_flatMap read_written,
    Utf8.lossy_encode]

/-! ## fields -/

theorem ne_of_mem_bytes (sep : Char) {cs : List Char} (hsep : sep.toNat ≤ 0x7F)
    (h : ∀ c ∈ cs, c.toNat ≤ 0x7F ∧ c ≠ sep) : ∀ b ∈ asciiBytes cs, b ≠ UInt8.ofNat sep.toNat := by
  intro b hb he
  obtain ⟨c, hc, rfl⟩ := List.mem_map.1 hb
  obtain ⟨hle, hne⟩ := h c hc
  have hn := congrArg UInt8.toNat he
  rw [Utf8.toNat_ofNat (by omega), Utf8.toNat_ofNat (by omega)] at hn
  rw [← Char.ofNat_toNat c, hn, Char.ofNat_toNat] at hne
  exact hne rfl

theorem asciiBytes_encodeField (f : Field) : asciiBytes (encodeField f)
    = asciiBytes (encodeText f.1) ++ 0x3D :: asciiBytes (encodeText f.2) := asciiBytes_append _ _

theorem decodeField_bytes (f : Field) : decodeField (asciiBytes (encodeField f)) = f := by
  have hname : (asciiBytes (encodeField f)).takeWhile (· ≠ 0x3D) = asciiBytes (encodeText f.1) := by
    have hfree : ∀ b ∈ asciiBytes (encodeText f.1), decide (b ≠ 0x3D) = true := fun b hb =>
      decide_eq_true (ne_of_mem_bytes '=' (by decide)
        (fun c hc => ⟨(encodeText_isFree f.1 c hc).1, (encodeText_isFree f.1 c hc).2.2⟩) b hb)
    rw [asciiBytes_encodeField, List.takeWhile_append_of_pos hfree, List.takeWhile_cons_of_neg
      (by decide), List.append_nil]
  rw [decodeField, hname, asciiBytes_encodeField, List.drop_length_add_append]
  show (decodeText _, decodeText (asciiBytes (encodeText f.2))) = f
  rw [decodeText_bytes, decodeText_bytes]

theorem encodeField_isFree (f : Field) : ∀ c ∈ encodeField f, c.toNat ≤ 0x7F ∧ c ≠ '&' := by
  have htext : ∀ s, ∀ c ∈ encodeText s, c.toNat ≤ 0x7F ∧ c ≠ '&' := fun s c hc =>
    ⟨(encodeText_isFree s c hc).1, (encodeText_isFree s c hc).2.1⟩
  exact List.forall_mem_append.2 ⟨htext f.1, List.forall_mem_cons.2 ⟨by decide, htext f.2⟩⟩

/-! ## forms -/

section
variable {sep : UInt8} {piece : Bytes}

theorem splitOn_of_free (h : ∀ b ∈ piece, b ≠ sep) : splitOn sep piece = [piece] := by
  induction piece with
  | nil => rfl
  | cons b piece ih =>
    obtain ⟨hb, hpiece⟩ := List.forall_mem_cons.1 h
    rw [splitOn, if_neg hb, ih hpiece]

theorem splitOn_append (h : ∀ b ∈ piece, b ≠ sep) (rest : Bytes) :
    splitOn sep (piece ++ sep :: rest) = piece :: splitOn sep rest := by
  induction piece with
  | nil => rw [List.nil_append, splitOn, if_pos rfl]
  | cons b piece ih =>
    obtain ⟨hb, hpiece⟩ := List.forall_mem_cons.1 h
    rw [List.cons_append, splitOn, if_neg hb, ih hpiece]

end

/-- the fields with `&` between them, as characters -/
def joined (fields : List Field) : List Char :=
  ((fields.map encodeField).intersperse ['&']).flatten

theorem joined_singleton (f : Field) : joined [f] = encodeField f := List.append_nil _

theorem joined_cons (f g : Field) (fields : List Field) :
    joined (f :: g :: fields) = encodeField f ++ '&' :: joined (g :: fields) := rfl

theorem joined_isAscii (fields : List Field) : ∀ c ∈ joined fields, c.toNat ≤ 0x7F := by
  have hfield : ∀ f, ∀ c ∈ encodeField f, c.toNat ≤ 0x7F := fun f c hc =>
    (encodeField_isFree f c hc).1
  induction fields with
  | nil => exact fun _ hc => absurd hc List.not_mem_nil
  | cons f fields ih =>
    cases fields with
    | nil =>
      rw [joined_singleton]
      exact hfield f
    | cons g fields =>
      rw [joined_cons]
      exact List.forall_mem_append.2 ⟨hfield f, List.forall_mem_cons.2 ⟨by decide, ih⟩⟩

theorem splitOn_joined (f : Field) (fields : List Field) :
    splitOn 0x26 (asciiBytes (joined (f :: fields)))
      = (f :: fields).map fun f => asciiBytes (encodeField f) := by
  have hfree : ∀ f, ∀ b ∈ asciiBytes (encodeField f), b ≠ 0x26 := fun f =>
    ne_of_mem_bytes '&' (by decide) (encodeField_isFree f)
  induction fields generalizing f with
  | nil =>
    rw [joined_singleton, splitOn_of_free (hfree f)]
    rfl
  | cons g fields ih =>
    have hcons : asciiBytes (joined (f :: g :: fields))
        = asciiBytes (encodeField f) ++ 0x26 :: asciiBytes (joined (g :: fields)) := by
      rw [joined_cons, asciiBytes_append]
      rfl
    rw [hcons, splitOn_append (hfree f), ih g]
    rfl

theorem decode_encode (fields : List Field) : decode (Utf8.encode (encode fields)) = fields := by
  have hbytes : Utf8.encode (encode fields) = asciiBytes (joined fields) := by
    rw [encode, Utf8.encode_ofList]
    exact Utf8.encodeChars_of_ascii (joined_isAscii fields)
  rw [hbytes, decode]
  cases fields with
  | nil => rfl
  | cons f fields =>
    have hfull : ∀ piece ∈ (f :: fields).map fun f => asciiBytes (encodeField f),
        (!piece.isEmpty) = true := by
      intro piece hp
      obtain ⟨g, _, rfl⟩ := List.mem_map.1 hp
      rw [asciiBytes_encodeField]
      cases asciiBytes (encodeText g.1) <;> rfl
    rw [splitOn_joined, List.filter_eq_self.2 hfull, List.map_map]
    show (f :: fields).map (fun f => decodeField (asciiBytes (encodeField f))) = _
    rw [funext decodeField_bytes]
    exact List.map_id' _

end Form

end Federation
