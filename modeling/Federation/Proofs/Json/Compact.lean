import Federation.Json.Printer
import Federation.Proofs.Json.Readback
import Federation.Text.Blank

/-!
# Values without blanks

A number is written with digits, signs, points and the letter `e`; an array begins with a bracket,
and an object with a brace.  So no such text is a word, however its letters are written.  What is
written without blanks is read back, whatever characters its strings have.

* `Json.isNumeral_of_mem_render`   the characters of a number;
* `Json.isHead_of_compact`         the first character of a value that is no word and no string;
* `Json.lower_compact_ne`          such a value is not written `text` or `json`;
* `Json.reads_compact_strings`     an array of strings is read back;
* `Json.parse_compact_object`      and so is an object, with its members in order.
-/

namespace Federation.Json

/-! ## how a value begins -/

/-- the characters that numbers are written with -/
def isNumeral (c : Char) : Bool := c.isDigit || ['+', '-', '.', 'e'].contains c

theorem isNumeral_toDigits (n : Nat) : ∀ c ∈ Nat.toDigits 10 n, isNumeral c = true := by
  intro c hc
  rw [isNumeral, Nat.isDigit_of_mem_toDigits (by decide) (by decide) hc, Bool.true_or]

theorem isNumeral_signed {text : List Char} (h : ∀ c ∈ text, isNumeral c = true)
    (negative : Bool) : ∀ c ∈ if negative then '-' :: text else text, isNumeral c = true := by
  cases negative with
  | false => exact h
  | true => exact List.forall_mem_cons.2 ⟨rfl, h⟩

theorem isNumeral_renderFloat (x : Binary64) :
    ∀ c ∈ (renderFloat x).toList, isNumeral c = true := by
  rw [renderFloat, String.toList_ofList]
  obtain ⟨d, place⟩ := x.shortest
  refine isNumeral_signed ?_ _
  have hdigits := isNumeral_toDigits d
  have hzeros : ∀ n, ∀ c ∈ List.replicate n '0', isNumeral c = true := by
    intro n c hc
    obtain rfl := List.eq_of_mem_replicate hc
    rfl
  generalize Nat.toDigits 10 d = digits at hdigits ⊢
  split
  · simp [isNumeral]
  split
  · split
    · refine List.forall_mem_append.2 ⟨List.forall_mem_append.2 ⟨hdigits, hzeros _⟩, ?_⟩
      simp [isNumeral]
    · refine List.forall_mem_append.2 ⟨fun c hc => hdigits c (List.mem_of_mem_take hc), ?_⟩
      exact List.forall_mem_cons.2 ⟨rfl, fun c hc => hdigits c (List.mem_of_mem_drop hc)⟩
  split
  · refine List.forall_mem_append.2 ⟨List.forall_mem_append.2 ⟨?_, hzeros _⟩, hdigits⟩
    simp [isNumeral]
  · refine List.forall_mem_append.2 ⟨List.forall_mem_append.2 ⟨?_, ?_⟩, isNumeral_toDigits _⟩
    · split
      · exact fun _ h => nomatch h
      · exact hdigits
      · exact List.forall_mem_cons.2 ⟨hdigits _ List.mem_cons_self, List.forall_mem_cons.2
          ⟨rfl, fun c hc => hdigits c (List.mem_cons_of_mem _ hc)⟩⟩
    · split
      · simp [isNumeral]
      · simp [isNumeral]

theorem isNumeral_of_mem_render {n : Number} {c : Char} (h : c ∈ n.render.toList) :
    isNumeral c = true := by
  cases n with
  | natural n =>
    rw [Number.render, Decimal.render, String.toList_ofList] at h
    exact isNumeral_toDigits n c h
  | negative n =>
    rw [Number.render, Decimal.render, String.toList_append] at h
    rcases List.mem_append.1 h with h | h
    · obtain rfl := List.mem_singleton.1 h
      rfl
    · rw [String.toList_ofList] at h
      exact isNumeral_toDigits n c h
  | float x => exact isNumeral_renderFloat x c h

theorem isHead_of_compact {v : Value} (hn : v ≠ .null) (hb : ∀ b, v ≠ .bool b)
    (hs : ∀ s, v ≠ .string s) {c : Char} {cs : List Char} (h : v.compact.toList = c :: cs) :
    isNumeral c = true ∨ c = '[' ∨ c = '\x7b' := by
  cases v with
  | null => exact absurd rfl hn
  | bool b => exact absurd rfl (hb b)
  | string s => exact absurd rfl (hs s)
  | number n =>
    rw [Value.compact] at h
    exact .inl (isNumeral_of_mem_render (h ▸ List.mem_cons_self))
  | array items =>
    rw [Value.compact, String.toList_append, String.toList_append] at h
    exact .inr (.inl (List.cons.inj h).1.symm)
  | object members =>
    rw [Value.compact, String.toList_append, String.toList_append] at h
    exact .inr (.inr (List.cons.inj h).1.symm)

theorem toLower_ne_of_isHead {c : Char} (h : isNumeral c = true ∨ c = '[' ∨ c = '\x7b') :
    c.toLower ≠ 't' ∧ c.toLower ≠ 'j' := by
  rcases h with h | rfl | rfl
  · rw [isNumeral, Bool.or_eq_true] at h
    rcases h with h | h
    · have hc : c.toLower = c := by
        simp only [Char.isDigit, Bool.and_eq_true, decide_eq_true_eq] at h
        refine dif_neg fun hu => ?_
        grind
      rw [hc]
      constructor
      · rintro rfl
        cases h
      · rintro rfl
        cases h
    · simp only [List.contains_eq_mem, List.mem_cons, List.not_mem_nil, or_false,
        decide_eq_true_eq] at h
      rcases h with rfl | rfl | rfl | rfl <;> decide
  · decide
  · decide

theorem lower_compact_ne {v : Value} (hn : v ≠ .null) (hs : ∀ s, v ≠ .string s) :
    Text.lower v.compact ≠ "text" ∧ Text.lower v.compact ≠ "json" := by
  by_cases hb : ∃ b, v = .bool b
  · obtain ⟨_ | _, rfl⟩ := hb
    · decide
    · decide
  · have hb : ∀ b, v ≠ .bool b := fun b h => hb ⟨b, h⟩
    rw [Text.lower]
    cases h : v.compact.toList with
    | nil => decide
    | cons c cs =>
      obtain ⟨ht, hj⟩ := toLower_ne_of_isHead (isHead_of_compact hn hb hs h)
      refine ⟨fun h => ht ?_, fun h => hj ?_⟩
      · exact (List.cons.inj (String.ofList_injective h)).1
      · exact (List.cons.inj (String.ofList_injective h)).1

/-! ## reading a value back -/

theorem compactItems_eq (vs : List Value) : compactItems vs = vs.map Value.compact := by
  induction vs with
  | nil => rfl
  | cons v vs ih => rw [compactItems, ih, List.map_cons]

theorem compactMembers_eq (ms : Members) :
    compactMembers ms = ms.map fun m => renderString m.1 ++ ":" ++ m.2.compact := by
  induction ms with
  | nil => rfl
  | cons m ms ih => rw [compactMembers, ih, List.map_cons]

theorem encode_compact_array (vs : List Value) : Utf8.encode (Value.array vs).compact =
    byte '[' :: (allItems [] (vs.map fun v => Utf8.encode v.compact) ++ [byte ']']) := by
  have hsep : Utf8.encode "," = [byte ','] := rfl
  rw [Value.compact, compactItems_eq, Utf8.encode_append, Utf8.encode_append, encode_items hsep,
    List.map_map]
  rfl

theorem encode_compact_object (ms : Members) : Utf8.encode (Value.object ms).compact =
    byte '\x7b' :: (allItems [] (ms.map fun m => memberText m.1 (Utf8.encode m.2.compact)) ++
      [byte '\x7d']) := by
  have hsep : Utf8.encode "," = [byte ','] := rfl
  have hmember : (Utf8.encode ∘ fun m : String × Value => renderString m.1 ++ ":" ++ m.2.compact)
      = fun m => memberText m.1 (Utf8.encode m.2.compact) := by
    funext m
    rw [Function.comp_apply, Utf8.encode_append, Utf8.encode_append, List.append_assoc]
    rfl
  rw [Value.compact, compactMembers_eq, Utf8.encode_append, Utf8.encode_append, encode_items hsep,
    List.map_map, hmember]
  rfl

variable {depth : Nat}

theorem reads_compact_null (rest : Bytes) :
    Reads (value depth) (Utf8.encode Value.null.compact) rest .null := by
  have hword : Reads (word ['u', 'l', 'l']) [byte 'u', byte 'l', byte 'l'] rest () := fun _ => rfl
  have htext : Utf8.encode Value.null.compact = byte 'n' :: [byte 'u', byte 'l', byte 'l'] := by
    decide
  rw [htext, value.eq_def]
  refine (reads_peek_here (by decide) _).bind_nil ?_
  show Reads (take 1 >>= _) _ _ _
  exact .behind (hword.bind_end (Reads.pure _ _))

theorem reads_compact_string (s : String) (rest : Bytes) :
    Reads (value depth) (Utf8.encode (Value.string s).compact) rest (.string s) := by
  rw [Value.compact]
  exact reads_value_renderString depth s rest

theorem reads_compact_strings (items : List String) (rest : Bytes) :
    Reads (value (depth + 1)) (Utf8.encode (Value.strings items).compact) rest
      (.strings items) := by
  have htexts : ((fun v => Utf8.encode v.compact) ∘ Value.string)
      = fun s => Utf8.encode (renderString s) := by
    funext s
    rw [Function.comp_apply, Value.compact]
  have hlist := reads_list (fun _ h => absurd h List.not_mem_nil)
    (fun s (_ : s ∈ items) => isItem_renderString s)
    (fun s _ rest _ => reads_value_renderString depth s rest) rest
  rw [Value.strings, encode_compact_array, List.map_map, htexts]
  exact reads_value_array depth hlist

theorem reads_compact_object {ms : Members}
    (h : ∀ m ∈ ms, ∀ rest, Reads (value depth) (Utf8.encode m.2.compact) rest m.2)
    (rest : Bytes) : Reads (value (depth + 1)) (Utf8.encode (Value.object ms).compact) rest
      (.object (ofList ms)) := by
  have hmembers := reads_members Prod.fst (fun m hm rest _ => h m hm rest) rest
  rw [show ms.map (fun m => (m.1, m.2)) = ms from List.map_id ms] at hmembers
  rw [encode_compact_object]
  exact reads_value_object depth hmembers

/-- an object whose members can be read is read back with its members in order -/
theorem parse_compact_object {ms : Members}
    (h : ∀ m ∈ ms, ∀ rest, Reads (value 126) (Utf8.encode m.2.compact) rest m.2) :
    parse (Utf8.encode (Value.object ms).compact) = .ok (.object (ofList ms)) :=
  parseAs_of_reads (reads_compact_object h [])

end Federation.Json
