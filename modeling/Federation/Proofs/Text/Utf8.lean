import Federation.Text.Utf8

/-!
# Reading UTF-8 back

`Utf8.next` takes a character off the front of its own bytes, whatever follows them.  So the bytes
of a text are read back as the text, by the strict reader and by the lossy one.

* `Utf8.pieces_encodeChar`   a character is the first piece of its bytes;
* `Utf8.decode?_encode`, `Utf8.lossy_encode`
                             the bytes of a text stand for the text;
* `Utf8.encodeChars_of_ascii`, `Utf8.le_of_mem_encodeChar`
                             the bytes of ASCII characters, and of the others.
-/

namespace Federation.Utf8

/-! ## the bytes of a character -/

/-- the byte that carries the last six bits of `n` -/
def tail (n : Nat) : UInt8 := UInt8.ofNat (n % 64 + 128)

/-- the bytes of the character with the code point `v` -/
def bytesOf (v : Nat) : Bytes :=
  if v ≤ 0x7F then [UInt8.ofNat v]
  else if v ≤ 0x7FF then [UInt8.ofNat (v / 64 % 32 + 0xC0), tail v]
  else if v ≤ 0xFFFF then [UInt8.ofNat (v / 4096 % 16 + 0xE0), tail (v / 64), tail v]
  else [UInt8.ofNat (v / 262144 % 8 + 0xF0), tail (v / 4096), tail (v / 64), tail v]

theorem encodeChar_eq (c : Char) : String.utf8EncodeChar c = bytesOf c.toNat := rfl

theorem toNat_ofNat {n : Nat} (h : n < 256) : (UInt8.ofNat n).toNat = n := by
  rw [UInt8.toNat_ofNat', Nat.mod_eq_of_lt h]

theorem toNat_tail (n : Nat) : (tail n).toNat = n % 64 + 128 := toNat_ofNat (by omega)

theorem isTail_tail (n : Nat) : isTail (tail n) = true := by
  have h := toNat_tail n
  simp only [isTail, Bool.and_eq_true, decide_eq_true_eq, UInt8.le_iff_toNat_le, UInt8.reduceToNat]
  omega

theorem payload_tail (n : Nat) : payload (tail n) = n % 64 := by
  rw [payload, toNat_tail]
  omega

/-! ## one character -/

section
variable {v : Nat}

theorem next_one (h : v ≤ 0x7F) (rest : Bytes) :
    next (UInt8.ofNat v) rest = (some (Char.ofNat v), rest) := by
  have hb : (UInt8.ofNat v).toNat = v := toNat_ofNat (by omega)
  have hlt : UInt8.ofNat v < 0x80 := by
    rw [UInt8.lt_iff_toNat_lt, hb]
    exact Nat.lt_succ_of_le h
  unfold next
  rw [if_pos hlt, hb]

theorem next_two (h : 0x80 ≤ v) (h' : v ≤ 0x7FF) (rest : Bytes) :
    next (UInt8.ofNat (v / 64 % 32 + 0xC0)) (tail v :: rest) = (some (Char.ofNat v), rest) := by
  have hb : (UInt8.ofNat (v / 64 % 32 + 0xC0)).toNat = v / 64 % 32 + 0xC0 :=
    toNat_ofNat (by omega)
  have hf : follows (UInt8.ofNat (v / 64 % 32 + 0xC0)) (tail v) = true := by
    simp only [follows, isTail_tail, ← UInt8.toNat_inj, hb, UInt8.reduceToNat]
    grind
  simp only [next, hf, UInt8.lt_iff_toNat_lt, hb, UInt8.reduceToNat, payload_tail]
  grind

/-- the surrogates have no bytes -/
theorem next_three (h : 0x800 ≤ v) (h' : v ≤ 0xFFFF) (hs : v < 0xD800 ∨ 0xDFFF < v)
    (rest : Bytes) :
    next (UInt8.ofNat (v / 4096 % 16 + 0xE0)) (tail (v / 64) :: tail v :: rest)
      = (some (Char.ofNat v), rest) := by
  have hb : (UInt8.ofNat (v / 4096 % 16 + 0xE0)).toNat = v / 4096 % 16 + 0xE0 :=
    toNat_ofNat (by omega)
  have ht := toNat_tail (v / 64)
  have hf : follows (UInt8.ofNat (v / 4096 % 16 + 0xE0)) (tail (v / 64)) = true := by
    simp only [follows, isTail_tail, ← UInt8.toNat_inj, hb, UInt8.reduceToNat,
      UInt8.le_iff_toNat_le, ht]
    grind
  simp only [next, hf, UInt8.lt_iff_toNat_lt, hb, UInt8.reduceToNat, payload_tail, isTail_tail]
  grind

theorem next_four (h : 0x10000 ≤ v) (h' : v ≤ 0x10FFFF) (rest : Bytes) :
    next (UInt8.ofNat (v / 262144 % 8 + 0xF0)) (tail (v / 4096) :: tail (v / 64) :: tail v :: rest)
      = (some (Char.ofNat v), rest) := by
  have hb : (UInt8.ofNat (v / 262144 % 8 + 0xF0)).toNat = v / 262144 % 8 + 0xF0 :=
    toNat_ofNat (by omega)
  have ht := toNat_tail (v / 4096)
  have hf : follows (UInt8.ofNat (v / 262144 % 8 + 0xF0)) (tail (v / 4096)) = true := by
    simp only [follows, isTail_tail, ← UInt8.toNat_inj, hb, UInt8.reduceToNat,
      UInt8.le_iff_toNat_le, ht]
    grind
  simp only [next, hf, UInt8.lt_iff_toNat_lt, hb, UInt8.reduceToNat, payload_tail, isTail_tail]
  grind

theorem lt_of_isValidChar (hv : v.isValidChar) : v < 0x110000 := by
  obtain h | ⟨_, h⟩ := hv
  · omega
  · exact h

theorem next_bytesOf (hv : v.isValidChar) :
    ∃ b bs, bytesOf v = b :: bs ∧ ∀ rest, next b (bs ++ rest) = (some (Char.ofNat v), rest) := by
  have hmax := lt_of_isValidChar hv
  unfold bytesOf
  by_cases h1 : v ≤ 0x7F
  · rw [if_pos h1]
    exact ⟨_, _, rfl, next_one h1⟩
  rw [if_neg h1]
  by_cases h2 : v ≤ 0x7FF
  · rw [if_pos h2]
    exact ⟨_, _, rfl, next_two (by omega) h2⟩
  rw [if_neg h2]
  by_cases h3 : v ≤ 0xFFFF
  · rw [if_pos h3]
    exact ⟨_, _, rfl, next_three (by omega) h3 (hv.imp_right And.left)⟩
  · rw [if_neg h3]
    exact ⟨_, _, rfl, next_four (by omega) (by omega)⟩

end

theorem pieces_encodeChar (c : Char) (rest : Bytes) :
    pieces (String.utf8EncodeChar c ++ rest) = some c :: pieces rest := by
  obtain ⟨b, bs, hb, hn⟩ := next_bytesOf (v := c.toNat) c.valid
  rw [Char.ofNat_toNat] at hn
  rw [encodeChar_eq, hb, List.cons_append, pieces_cons, hn]

/-! ## texts -/

def encodeChars (cs : List Char) : Bytes := cs.flatMap String.utf8EncodeChar

theorem encode_eq (s : String) : encode s = encodeChars s.toList := rfl
theorem encodeChars_nil : encodeChars [] = [] := rfl
theorem encodeChars_cons (c : Char) (cs : List Char) :
    encodeChars (c :: cs) = String.utf8EncodeChar c ++ encodeChars cs := List.flatMap_cons

theorem encodeChars_append (cs ds : List Char) :
    encodeChars (cs ++ ds) = encodeChars cs ++ encodeChars ds := List.flatMap_append

theorem encode_ofList (cs : List Char) : encode (String.ofList cs) = encodeChars cs := by
  rw [encode_eq, String.toList_ofList]

theorem encode_append (s t : String) : encode (s ++ t) = encode s ++ encode t := by
  rw [encode_eq, String.toList_append, encodeChars_append]
  rfl

theorem pieces_encodeChars (cs : List Char) : pieces (encodeChars cs) = cs.map some := by
  induction cs with
  | nil => exact pieces_nil
  | cons c cs ih => rw [encodeChars_cons, pieces_encodeChar, ih, List.map_cons]

/-- runs through the list; a search for an instance may run through all characters instead -/
theorem forall_of_all {α : Type} {p : α → Prop} [DecidablePred p] {xs : List α}
    (h : (xs.all fun x => decide (p x)) = true) : ∀ x ∈ xs, p x := fun x hx =>
  of_decide_eq_true (List.all_eq_true.1 h x hx)

theorem mapM_some (cs : List Char) : (cs.map some).mapM id = some cs := by
  induction cs with
  | nil => rfl
  | cons c cs ih => simp [ih]

theorem decode?_encode (s : String) : decode? (encode s) = some s := by
  rw [decode?, encode_eq, pieces_encodeChars, mapM_some, Option.map_some, String.ofList_toList]

theorem eq_map_some_of_mapM {xs : List (Option Char)} {cs : List Char}
    (h : xs.mapM id = some cs) : xs = cs.map some := by
  induction xs generalizing cs with
  | nil =>
    cases h
    rfl
  | cons x xs ih =>
    rw [List.mapM_cons] at h
    cases x with
    | none => cases h
    | some c =>
      cases hcs : xs.mapM id with
      | none =>
        rw [hcs] at h
        cases h
      | some cs' =>
        rw [hcs] at h
        cases h
        rw [List.map_cons, ih hcs]

theorem lossy_of_decode? {bs : Bytes} {s : String} (h : decode? bs = some s) : lossy bs = s := by
  obtain ⟨cs, hcs, rfl⟩ := Option.map_eq_some_iff.1 h
  have hsome : cs.map ((Option.getD · '\uFFFD') ∘ some) = cs := List.map_id _
  rw [lossy, eq_map_some_of_mapM hcs, List.map_map, hsome]

theorem lossy_encode (s : String) : lossy (encode s) = s := lossy_of_decode? (decode?_encode s)

/-! ## ASCII -/

theorem encodeChar_of_ascii {c : Char} (h : c.toNat ≤ 0x7F) :
    String.utf8EncodeChar c = [UInt8.ofNat c.toNat] := by
  rw [encodeChar_eq, bytesOf, if_pos h]

theorem encodeChars_of_ascii {cs : List Char} (h : ∀ c ∈ cs, c.toNat ≤ 0x7F) :
    encodeChars cs = cs.map fun c => UInt8.ofNat c.toNat := by
  induction cs with
  | nil => rfl
  | cons c cs ih =>
    obtain ⟨hc, hcs⟩ := List.forall_mem_cons.1 h
    rw [encodeChars_cons, encodeChar_of_ascii hc, ih hcs]
    rfl

theorem le_of_mem_encodeChar {c : Char} (h : 0x7F < c.toNat) {b : UInt8}
    (hb : b ∈ String.utf8EncodeChar c) : 0x80 ≤ b.toNat := by
  have hmax : c.toNat < 0x110000 := lt_of_isValidChar c.valid
  have htail : ∀ n, 0x80 ≤ (tail n).toNat := fun n => by
    rw [toNat_tail]
    omega
  rw [encodeChar_eq, bytesOf, if_neg (by omega)] at hb
  split at hb
  · simp only [List.mem_cons, List.not_mem_nil, or_false] at hb
    rcases hb with rfl | rfl
    · rw [toNat_ofNat (by omega)]
      omega
    · exact htail _
  · split at hb
    · simp only [List.mem_cons, List.not_mem_nil, or_false] at hb
      rcases hb with rfl | rfl | rfl
      · rw [toNat_ofNat (by omega)]
        omega
      · exact htail _
      · exact htail _
    · simp only [List.mem_cons, List.not_mem_nil, or_false] at hb
      rcases hb with rfl | rfl | rfl | rfl
      · rw [toNat_ofNat (by omega)]
        omega
      · exact htail _
      · exact htail _
      · exact htail _

end Federation.Utf8
