import Federation.Json.Reader
import Federation.Proofs.Text.Utf8

/-!
# Reading JSON texts back

`Reads r text rest a` says that the reader `r` takes the value `a` off the front of a text and stops
in front of `rest`.  Readers follow one another as their texts do, so what is known of the parts of
a text gives the whole of it.

* `Json.reads_stringTail`                           a string with its escapes;
* `Json.reads_list`, `Json.reads_members`           arrays with any blanks behind the separators,
                                                    and objects without any;
* `Json.parse_spacedStrings`, `Json.parse_spacedMember`
                                                    the two spaced layouts.
-/

namespace Federation.Json

section
variable {α β : Type}

/-- what may follow a value: nothing that a number could go on with -/
def Closes (rest : Bytes) : Prop :=
  ∀ b ∈ rest.head?, isDigit b = false ∧ b ≠ byte '.' ∧ b ≠ byte 'e' ∧ b ≠ byte 'E'

theorem closes_cons {b : UInt8} (h : isDigit b = false ∧ b ≠ byte '.' ∧ b ≠ byte 'e' ∧ b ≠ byte 'E')
    (rest : Bytes) : Closes (b :: rest) := fun _ hb => Option.some.inj hb ▸ h

/-- `r` reads `a` off the bytes `text` in front of `rest` -/
def Reads (r : Reader α) (text rest : Bytes) (a : α) : Prop :=
  ∀ o, r ⟨o, text ++ rest⟩ = .ok (a, ⟨o + text.length, rest⟩)

variable {r : Reader α} {f : α → Reader β} {text text' rest : Bytes} {a : α} {b : β}

/-! ## readers in sequence -/

theorem Reads.pure (a : α) (rest : Bytes) : Reads (pure a) [] rest a := fun _ => rfl

theorem Reads.bind (h : Reads r text (text' ++ rest) a) (h' : Reads (f a) text' rest b) :
    Reads (r >>= f) (text ++ text') rest b := by
  intro o
  show (r ⟨o, text ++ text' ++ rest⟩ >>= fun p => f p.1 p.2) = _
  rw [List.append_assoc, h o]
  show f a ⟨o + text.length, text' ++ rest⟩ = _
  rw [h', List.length_append, Nat.add_assoc]

theorem Reads.bind_nil (h : Reads r [] (text ++ rest) a) (h' : Reads (f a) text rest b) :
    Reads (r >>= f) text rest b := h.bind h'

theorem Reads.bind_end (h : Reads r text rest a) (h' : Reads (f a) [] rest b) :
    Reads (r >>= f) text rest b := by
  have hboth : Reads (r >>= f) (text ++ []) rest b := h.bind h'
  rwa [List.append_nil] at hboth

theorem Reads.map (g : α → β) (h : Reads r text rest a) : Reads (g <$> r) text rest (g a) := by
  intro o
  show (r ⟨o, text ++ rest⟩ >>= fun p => Pure.pure (g p.1, p.2)) = _
  rw [h o]
  rfl

theorem reads_take (c : UInt8) (rest : Bytes) : Reads (take 1) [c] rest () := fun _ => rfl

theorem Reads.behind {f : Unit → Reader β} {c : UInt8} (h : Reads (f ()) text rest b) :
    Reads (take 1 >>= f) (c :: text) rest b := (reads_take c _).bind h

theorem reads_look (c : UInt8) (rest : Bytes) : Reads look [] (c :: rest) (some c) := fun _ => rfl

theorem reads_peek {gap : Bytes} (hgap : ∀ c ∈ gap, isSpace c = true) {c : UInt8}
    (hc : isSpace c = false) (rest : Bytes) : Reads peek gap (c :: rest) (some c) := by
  intro o
  have hskip : (gap ++ c :: rest).takeWhile isSpace = gap := by
    rw [List.takeWhile_append_of_pos hgap, List.takeWhile_cons_of_neg (by rw [hc]; decide),
      List.append_nil]
  rw [peek, Cursor.skipWhile, Cursor.advance]
  dsimp only
  rw [hskip, List.drop_left, List.head?_cons]

theorem reads_peek_here {c : UInt8} (hc : isSpace c = false) (rest : Bytes) :
    Reads peek [] (c :: rest) (some c) := reads_peek (fun _ h => absurd h List.not_mem_nil) hc rest

theorem reads_peek_end : Reads peek [] [] none := fun _ => rfl

end

/-! ## strings -/

section
variable {text rest out : Bytes}

/-- with enough fuel, the bytes `out` are read off the rest `text` of a string -/
def ReadsString (text rest out : Bytes) : Prop :=
  ∀ n, text.length ≤ n → Reads (stringBytes n) text rest out

theorem ReadsString.of_succ {c : UInt8}
    (h : ∀ n, text.length ≤ n → Reads (stringBytes (n + 1)) (c :: text) rest out) :
    ReadsString (c :: text) rest out := by
  intro n hn
  cases n with
  | zero => exact absurd hn (Nat.not_succ_le_zero _)
  | succ n => exact h n (Nat.le_of_succ_le_succ hn)

theorem readsString_quote (rest : Bytes) : ReadsString [byte '"'] rest [] := by
  refine .of_succ fun n hn => (reads_look _ _).bind_nil ?_
  show Reads (take 1 >>= _) _ _ _
  refine .behind ?_
  exact Reads.pure _ _

theorem ReadsString.cons (h : ReadsString text rest out) {c : UInt8} (hq : c ≠ byte '"')
    (hb : c ≠ byte '\\') (hc : ¬c < 0x20) : ReadsString (c :: text) rest (c :: out) := by
  refine .of_succ fun n hn => (reads_look _ _).bind_nil ?_
  show Reads (take 1 >>= _) _ _ _
  refine .behind ?_
  rw [if_neg hq, if_neg hb, if_neg hc]
  exact (h n hn).map (c :: ·)

theorem ReadsString.append (h : ReadsString text rest out) {cs : Bytes}
    (hcs : ∀ c ∈ cs, c ≠ byte '"' ∧ c ≠ byte '\\' ∧ ¬c < 0x20) :
    ReadsString (cs ++ text) rest (cs ++ out) := by
  induction cs with
  | nil => exact h
  | cons c cs ih =>
    obtain ⟨⟨hq, hb, hc⟩, hcs⟩ := List.forall_mem_cons.1 hcs
    exact (ih hcs).cons hq hb hc

theorem ReadsString.escaped (h : ReadsString text rest out) {esc : Bytes} {c : Char}
    (hc : Reads escaped esc (text ++ rest) c) :
    ReadsString (byte '\\' :: esc ++ text) rest (String.utf8EncodeChar c ++ out) := by
  refine .of_succ fun n hn => (reads_look _ _).bind_nil ?_
  show Reads (take 1 >>= _) _ _ _
  refine .behind (hc.bind ?_)
  have hlen : text.length ≤ n := by
    have hn' : (esc ++ text).length ≤ n := hn
    rw [List.length_append] at hn'
    omega
  exact (h n hlen).map (String.utf8EncodeChar c ++ ·)

theorem reads_letter (rest : Bytes) :
    Reads escaped [byte '"'] rest '"' ∧ Reads escaped [byte '\\'] rest '\\' ∧
    Reads escaped [byte 'b'] rest '\x08' ∧ Reads escaped [byte 'f'] rest '\x0c' ∧
    Reads escaped [byte 'n'] rest '\n' ∧ Reads escaped [byte 'r'] rest '\r' ∧
    Reads escaped [byte 't'] rest '\t' :=
  ⟨fun _ => rfl, fun _ => rfl, fun _ => rfl, fun _ => rfl, fun _ => rfl, fun _ => rfl, fun _ => rfl⟩

theorem small_mod (n : Nat) : Hex.small (n % 16) = Hex.small n := by
  rw [Hex.small, Hex.small, Nat.mod_mod]

theorem reads_hexQuad {n : Nat} (h : n < 0x20) (rest : Bytes) :
    Reads hexQuad [byte '0', byte '0', byte (Hex.small (n / 16)), byte (Hex.small n)] rest n := by
  intro o
  have hzero : Hex.value? (byte '0') = some 0 := by decide
  have hhigh : Hex.value? (byte (Hex.small (n / 16))) = some (n / 16) :=
    Hex.value?_small _ (by omega)
  have hlow : Hex.value? (byte (Hex.small n)) = some (n % 16) := by
    rw [← small_mod]
    exact Hex.value?_small _ (by omega)
  have hsum : ((0 * 16 + 0) * 16 + n / 16) * 16 + n % 16 = n := by omega
  simp only [hexQuad, List.cons_append, List.nil_append, hzero, hhigh, hlow, hsum]
  rfl

theorem reads_unicode {c : Char} (h : c.toNat < 0x20) (rest : Bytes) :
    Reads escaped [byte 'u', byte '0', byte '0', byte (Hex.small (c.toNat / 16)),
      byte (Hex.small c.toNat)] rest c := by
  refine (reads_look _ _).bind_nil ?_
  show Reads (take 1 >>= _) _ _ _
  refine .behind ((reads_hexQuad h rest).bind_end ?_)
  rw [if_neg (by omega), if_pos (by omega), Char.ofNat_toNat]
  exact Reads.pure _ _

theorem ne_byte {n : Nat} (hn : n < 256) {d : Char} (hd : d.toNat ≤ 0x7F) (h : n ≠ d.toNat) :
    UInt8.ofNat n ≠ byte d := by
  intro he
  have hnat := congrArg UInt8.toNat he
  rw [byte, Utf8.toNat_ofNat hn, Utf8.toNat_ofNat (by omega)] at hnat
  exact h hnat

theorem plain_of_mem_encodeChar {c : Char} (hq : c ≠ '"') (hb : c ≠ '\\') (hc : ¬c.toNat < 0x20) :
    ∀ b ∈ String.utf8EncodeChar c, b ≠ byte '"' ∧ b ≠ byte '\\' ∧ ¬b < 0x20 := by
  intro b hmem
  by_cases hascii : c.toNat ≤ 0x7F
  · have hne : ∀ d : Char, c ≠ d → c.toNat ≠ d.toNat := fun d h he =>
      h (by rw [← Char.ofNat_toNat c, he, Char.ofNat_toNat])
    rw [Utf8.encodeChar_of_ascii hascii, List.mem_singleton] at hmem
    subst hmem
    refine ⟨ne_byte (by omega) (by decide) (hne _ hq),
      ne_byte (by omega) (by decide) (hne _ hb), ?_⟩
    rw [UInt8.lt_iff_toNat_lt, Utf8.toNat_ofNat (by omega)]
    exact hc
  · have hhigh := Utf8.le_of_mem_encodeChar (by omega) hmem
    rw [← UInt8.ofNat_toNat (x := b)]
    refine ⟨ne_byte b.toNat_lt (by decide) ?_, ne_byte b.toNat_lt (by decide) ?_, ?_⟩
    · show b.toNat ≠ 0x22
      omega
    · show b.toNat ≠ 0x5C
      omega
    · rw [UInt8.lt_iff_toNat_lt, UInt8.ofNat_toNat]
      show ¬b.toNat < 0x20
      omega

theorem ReadsString.escape (h : ReadsString text rest out) (c : Char) :
    ReadsString (Utf8.encodeChars (escape c) ++ text) rest (String.utf8EncodeChar c ++ out) := by
  obtain ⟨hquote, hback, hb, hf, hn, hr, ht⟩ := reads_letter (text ++ rest)
  unfold Json.escape
  split
  · exact h.escaped hquote
  · exact h.escaped hback
  · exact h.escaped hb
  · exact h.escaped hf
  · exact h.escaped hn
  · exact h.escaped hr
  · exact h.escaped ht
  · next hq hb _ _ _ _ _ =>
    split
    · next hc =>
      have hdigit : ∀ n < 16, (Hex.small n).toNat ≤ 0x7F := by decide
      have hascii : ∀ d ∈ ['\\', 'u', '0', '0', Hex.small (c.toNat / 16), Hex.small c.toNat],
          d.toNat ≤ 0x7F := by
        simp only [List.forall_mem_cons]
        refine ⟨by decide, by decide, by decide, by decide, hdigit _ (by omega), ?_,
          fun _ h => absurd h List.not_mem_nil⟩
        rw [← small_mod]
        exact hdigit _ (by omega)
      rw [Utf8.encodeChars_of_ascii hascii]
      exact h.escaped (reads_unicode hc _)
    · next hc =>
      rw [Utf8.encodeChars_cons, Utf8.encodeChars_nil, List.append_nil]
      exact h.append (plain_of_mem_encodeChar hq hb hc)

/-- the bytes of a string behind its opening quote -/
def stringBody (cs : List Char) : Bytes := Utf8.encodeChars (cs.flatMap escape) ++ [byte '"']

theorem readsString_body (cs : List Char) (rest : Bytes) :
    ReadsString (stringBody cs) rest (Utf8.encodeChars cs) := by
  induction cs with
  | nil => exact readsString_quote rest
  | cons c cs ih =>
    rw [stringBody, List.flatMap_cons, Utf8.encodeChars_append, List.append_assoc,
      Utf8.encodeChars_cons]
    exact ih.escape c

end

theorem encode_renderString (s : String) :
    Utf8.encode (renderString s) = byte '"' :: stringBody s.toList := by
  rw [renderString, Utf8.encode_ofList, Utf8.encodeChars_append]
  rfl

theorem reads_stringTail (s : String) (rest : Bytes) :
    Reads stringTail (stringBody s.toList) rest s := by
  intro o
  have hfuel : (stringBody s.toList).length ≤ (stringBody s.toList ++ rest).length + 1 := by
    rw [List.length_append]
    omega
  have hread := readsString_body s.toList rest _ hfuel o
  rw [stringTail]
  dsimp only
  rw [hread, ← Utf8.encode_eq]
  dsimp only
  rw [Utf8.decode?_encode]

/-! ## containers -/

section
variable {α β : Type} {gap rest : Bytes}

theorem Reads.enclosed {close : Closing} {body : Reader α} {text : Bytes} {mark : UInt8} {a : α}
    (h : Reads body text (mark :: rest) a)
    (hclose : ∀ o, close ⟨o, mark :: rest⟩ = (none, ⟨o + 1, rest⟩)) :
    Reads (enclosed close body) (text ++ [mark]) rest a := by
  intro o
  rw [List.append_assoc, List.singleton_append, Json.enclosed, h o]
  dsimp only
  rw [hclose, List.length_append]
  rfl

/-- a text that can be an item: it starts with a mark of its own -/
def IsItem (text : Bytes) : Prop :=
  ∃ c more, text = c :: more ∧ isSpace c = false ∧ c ≠ byte ']'

theorem isItem_renderString (s : String) : IsItem (Utf8.encode (renderString s)) :=
  ⟨_, _, encode_renderString s, by decide, by decide⟩

theorem reads_nextItem_end (first : Bool) (rest : Bytes) :
    Reads (nextItem first) [] (byte ']' :: rest) false := by
  refine (reads_peek_here (by decide) _).bind_nil ?_
  exact Reads.pure _ _

theorem reads_nextItem_first {text : Bytes} (h : IsItem text) (rest : Bytes) :
    Reads (nextItem true) [] (text ++ rest) true := by
  obtain ⟨c, more, rfl, hspace, hmark⟩ := h
  refine (reads_peek_here hspace _).bind_nil ?_
  show Reads (if _ then _ else _) _ _ _
  rw [if_neg hmark]
  exact Reads.pure _ _

theorem reads_nextItem_next {text : Bytes} (hgap : ∀ c ∈ gap, isSpace c = true)
    (h : IsItem text) (rest : Bytes) :
    Reads (nextItem false) (byte ',' :: gap) (text ++ rest) true := by
  obtain ⟨c, more, rfl, hspace, hmark⟩ := h
  refine (reads_peek_here (by decide) _).bind_nil ?_
  show Reads (take 1 >>= _) _ _ _
  refine .behind ?_
  refine (reads_peek hgap hspace _).bind_end ?_
  show Reads (if _ then _ else _) _ _ _
  rw [if_neg hmark]
  exact Reads.pure _ _

/-- the items behind the first one -/
def moreItems (gap : Bytes) (texts : List Bytes) : Bytes :=
  texts.flatMap fun text => byte ',' :: gap ++ text

theorem closes_moreItems (gap : Bytes) (texts : List Bytes) {mark : UInt8}
    (h : mark = byte ']' ∨ mark = byte '\x7d') (rest : Bytes) :
    Closes (moreItems gap texts ++ mark :: rest) := by
  cases texts with
  | nil =>
    rcases h with rfl | rfl
    · exact closes_cons (by decide) _
    · exact closes_cons (by decide) _
  | cons text texts => exact closes_cons (by decide) _

variable {item : Reader α} {text : β → Bytes} {val : β → α} {xs : List β}

theorem reads_moreItems (hgap : ∀ c ∈ gap, isSpace c = true) (hitem : ∀ x ∈ xs, IsItem (text x))
    (hread : ∀ x ∈ xs, ∀ rest, Closes rest → Reads item (text x) rest (val x)) {n : Nat}
    (hn : xs.length < n) (rest : Bytes) : Reads (items item n false)
      (moreItems gap (xs.map text)) (byte ']' :: rest) (xs.map val) := by
  induction xs generalizing n with
  | nil =>
    cases n with
    | zero => exact absurd hn (Nat.not_lt_zero _)
    | succ n => exact (reads_nextItem_end false rest).bind_nil (Reads.pure _ _)
  | cons x xs ih =>
    cases n with
    | zero => exact absurd hn (Nat.not_lt_zero _)
    | succ n =>
      obtain ⟨hx, hxs⟩ := List.forall_mem_cons.1 hread
      obtain ⟨hix, hixs⟩ := List.forall_mem_cons.1 hitem
      have htail := ih hixs hxs (Nat.lt_of_succ_lt_succ hn)
      have hcons : moreItems gap ((x :: xs).map text) =
          (byte ',' :: gap) ++ (text x ++ moreItems gap (xs.map text)) := List.append_assoc _ _ _
      have hnext := reads_nextItem_next hgap hix
        (moreItems gap (xs.map text) ++ byte ']' :: rest)
      rw [hcons]
      rw [← List.append_assoc] at hnext
      refine hnext.bind ((hx _ (closes_moreItems gap _ (.inl rfl) rest)).bind ?_)
      exact htail.map (val x :: ·)

theorem length_le_moreItems (gap : Bytes) (texts : List Bytes) :
    texts.length ≤ (moreItems gap texts).length := by
  induction texts with
  | nil => exact Nat.le_refl _
  | cons text texts ih =>
    rw [moreItems, List.flatMap_cons, List.length_append, List.length_cons, List.cons_append,
      List.length_cons]
    show _ ≤ _ + (moreItems gap texts).length
    omega

def allItems (gap : Bytes) : List Bytes → Bytes
  | [] => []
  | text :: texts => text ++ moreItems gap texts

theorem length_le_allItems (gap : Bytes) (texts : List Bytes) :
    texts.length ≤ (allItems gap texts).length + 1 := by
  cases texts with
  | nil => exact Nat.zero_le _
  | cons text texts =>
    have h := length_le_moreItems gap texts
    rw [allItems, List.length_append, List.length_cons]
    omega

theorem reads_items (hgap : ∀ c ∈ gap, isSpace c = true) (hitem : ∀ x ∈ xs, IsItem (text x))
    (hread : ∀ x ∈ xs, ∀ rest, Closes rest → Reads item (text x) rest (val x)) {n : Nat}
    (hn : xs.length ≤ n) (rest : Bytes) : Reads (items item (n + 1) true)
      (allItems gap (xs.map text)) (byte ']' :: rest) (xs.map val) := by
  cases xs with
  | nil => exact (reads_nextItem_end true rest).bind_nil (Reads.pure _ _)
  | cons x xs =>
    obtain ⟨hx, hxs⟩ := List.forall_mem_cons.1 hread
    obtain ⟨hix, hixs⟩ := List.forall_mem_cons.1 hitem
    have htail := reads_moreItems hgap hixs hxs hn rest
    have hfirst := reads_nextItem_first hix (moreItems gap (xs.map text) ++ byte ']' :: rest)
    rw [← List.append_assoc] at hfirst
    exact hfirst.bind_nil
      ((hx _ (closes_moreItems gap _ (.inl rfl) rest)).bind (htail.map (val x :: ·)))

theorem reads_list (hgap : ∀ c ∈ gap, isSpace c = true) (hitem : ∀ x ∈ xs, IsItem (text x))
    (hread : ∀ x ∈ xs, ∀ rest, Closes rest → Reads item (text x) rest (val x)) (rest : Bytes) :
    Reads (list item) (allItems gap (xs.map text) ++ [byte ']']) rest (xs.map val) := by
  intro o
  let body := allItems gap (xs.map text) ++ [byte ']'] ++ rest
  have hfuel : xs.length ≤ body.length := by
    have h := length_le_allItems gap (xs.map text)
    rw [List.length_map] at h
    rw [List.length_append, List.length_append, List.length_singleton]
    omega
  exact (reads_items hgap hitem hread hfuel rest).enclosed (fun _ => rfl) o

theorem reads_nextName_first (name : String) (rest : Bytes) :
    Reads (nextName true) (Utf8.encode (renderString name)) rest (some name) := by
  rw [encode_renderString]
  refine (reads_peek_here (by decide) _).bind_nil ?_
  show Reads (take 1 >>= _) _ _ _
  exact .behind ((reads_stringTail name rest).map some)

theorem reads_nextName_next (name : String) (rest : Bytes) :
    Reads (nextName false) (byte ',' :: Utf8.encode (renderString name)) rest (some name) := by
  rw [encode_renderString]
  refine (reads_peek_here (by decide) _).bind_nil ?_
  show Reads (take 1 >>= _) _ _ _
  refine .behind ((reads_peek_here (by decide) _).bind_nil ?_)
  show Reads (take 1 >>= _) _ _ _
  exact .behind ((reads_stringTail name rest).map some)

theorem reads_nextName_end (first : Bool) (rest : Bytes) :
    Reads (nextName first) [] (byte '\x7d' :: rest) none :=
  (reads_peek_here (by decide) _).bind_nil (Reads.pure _ _)

theorem reads_colon (rest : Bytes) : Reads colon [byte ':'] rest () := by
  refine (reads_peek_here (by decide) _).bind_nil ?_
  exact reads_take _ _

def memberText (name : String) (value : Bytes) : Bytes :=
  Utf8.encode (renderString name) ++ byte ':' :: value

variable (name : β → String)

theorem reads_moreMembers
    (hread : ∀ x ∈ xs, ∀ rest, Closes rest → Reads item (text x) rest (val x)) {n : Nat}
    (hn : xs.length < n) (rest : Bytes) : Reads (membersUpTo item n false)
      (moreItems [] (xs.map fun x => memberText (name x) (text x))) (byte '\x7d' :: rest)
      (xs.map fun x => (name x, val x)) := by
  induction xs generalizing n with
  | nil =>
    cases n with
    | zero => exact absurd hn (Nat.not_lt_zero _)
    | succ n => exact (reads_nextName_end false rest).bind_nil (Reads.pure _ _)
  | cons x xs ih =>
    cases n with
    | zero => exact absurd hn (Nat.not_lt_zero _)
    | succ n =>
      obtain ⟨hx, hxs⟩ := List.forall_mem_cons.1 hread
      have htail := ih hxs (Nat.lt_of_succ_lt_succ hn)
      have hcons : moreItems [] ((x :: xs).map fun x => memberText (name x) (text x)) =
          (byte ',' :: Utf8.encode (renderString (name x))) ++ ([byte ':'] ++
            (text x ++ moreItems [] (xs.map fun x => memberText (name x) (text x)))) := by
        simp [moreItems, memberText]
      rw [hcons]
      have hclose := closes_moreItems [] (xs.map fun x => memberText (name x) (text x))
        (.inr rfl) rest
      refine (reads_nextName_next _ _).bind ((reads_colon _).bind ((hx _ hclose).bind ?_))
      exact htail.map ((name x, val x) :: ·)

theorem reads_membersUpTo
    (hread : ∀ x ∈ xs, ∀ rest, Closes rest → Reads item (text x) rest (val x)) {n : Nat}
    (hn : xs.length ≤ n) (rest : Bytes) : Reads (membersUpTo item (n + 1) true)
      (allItems [] (xs.map fun x => memberText (name x) (text x))) (byte '\x7d' :: rest)
      (xs.map fun x => (name x, val x)) := by
  cases xs with
  | nil => exact (reads_nextName_end true rest).bind_nil (Reads.pure _ _)
  | cons x xs =>
    obtain ⟨hx, hxs⟩ := List.forall_mem_cons.1 hread
    have htail := reads_moreMembers name hxs hn rest
    have hcons : allItems [] ((x :: xs).map fun x => memberText (name x) (text x)) =
        Utf8.encode (renderString (name x)) ++ ([byte ':'] ++
          (text x ++ moreItems [] (xs.map fun x => memberText (name x) (text x)))) := by
      simp [allItems, memberText]
    rw [hcons]
    have hclose := closes_moreItems [] (xs.map fun x => memberText (name x) (text x))
      (.inr rfl) rest
    refine (reads_nextName_first _ _).bind ((reads_colon _).bind ((hx _ hclose).bind ?_))
    exact htail.map ((name x, val x) :: ·)

theorem reads_members
    (hread : ∀ x ∈ xs, ∀ rest, Closes rest → Reads item (text x) rest (val x)) (rest : Bytes) :
    Reads (members item)
      (allItems [] (xs.map fun x => memberText (name x) (text x)) ++ [byte '\x7d']) rest
      (xs.map fun x => (name x, val x)) := by
  intro o
  let body := allItems [] (xs.map fun x => memberText (name x) (text x)) ++ [byte '\x7d'] ++ rest
  have hfuel : xs.length ≤ body.length := by
    have h := length_le_allItems [] (xs.map fun x => memberText (name x) (text x))
    rw [List.length_map] at h
    rw [List.length_append, List.length_append, List.length_singleton]
    omega
  exact (reads_membersUpTo name hread hfuel rest).enclosed (fun _ => rfl) o

theorem reads_members_single (name : String) {value : Bytes} {a : α}
    (hread : ∀ rest, Reads item value rest a) (rest : Bytes) :
    Reads (members item) (memberText name value ++ [byte '\x7d']) rest [(name, a)] := by
  have hall : ∀ x ∈ [()], ∀ rest, Closes rest →
      Reads item ((fun _ => value) x) rest ((fun _ => a) x) := fun _ _ rest _ => hread rest
  have h := reads_members (fun _ => name) hall rest
  rwa [List.map_singleton, List.map_singleton, allItems, moreItems, List.flatMap_nil,
    List.append_nil] at h

end

/-! ## values -/

theorem reads_value_string (depth : Nat) {gap : Bytes} (hgap : ∀ c ∈ gap, isSpace c = true)
    (s : String) (rest : Bytes) :
    Reads (value depth) (gap ++ Utf8.encode (renderString s)) rest (.string s) := by
  rw [encode_renderString, value.eq_def]
  refine (reads_peek hgap (by decide) _).bind ?_
  show Reads (take 1 >>= _) _ _ _
  exact .behind ((reads_stringTail s rest).map Value.string)

theorem reads_value_renderString (depth : Nat) (s : String) (rest : Bytes) :
    Reads (value depth) (Utf8.encode (renderString s)) rest (.string s) := by
  have hnone : ∀ c ∈ ([] : Bytes), isSpace c = true := fun _ h => absurd h List.not_mem_nil
  have h := reads_value_string depth hnone s rest
  rwa [List.nil_append] at h

theorem reads_value_array (depth : Nat) {text rest : Bytes} {vs : List Value}
    (h : Reads (list (value depth)) text rest vs) :
    Reads (value (depth + 1)) (byte '[' :: text) rest (.array vs) := by
  rw [value]
  refine (reads_peek_here (by decide) _).bind_nil ?_
  show Reads (take 1 >>= _) _ _ _
  exact .behind (h.map Value.array)

theorem reads_value_object (depth : Nat) {text rest : Bytes} {ms : Members}
    (h : Reads (members (value depth)) text rest ms) :
    Reads (value (depth + 1)) (byte '\x7b' :: text) rest (.object (ofList ms)) := by
  rw [value]
  refine (reads_peek_here (by decide) _).bind_nil ?_
  show Reads (take 1 >>= _) _ _ _
  exact .behind (h.map fun ms => Value.object (ofList ms))

/-! ## texts -/

theorem Reads.ended {α : Type} {r : Reader α} {next : α → Option UInt8 → Reader α}
    {text : Bytes} {a : α} (h : Reads r text [] a) (hnext : next a none = Pure.pure a) :
    (r >>= fun a => peek >>= next a) ⟨0, text⟩ = .ok (a, ⟨text.length, []⟩) := by
  have hend : Reads (next a none) [] [] a := by
    rw [hnext]
    exact Reads.pure _ _
  have hrun := h.bind_end (f := fun a => peek >>= next a) (reads_peek_end.bind_nil hend) 0
  rwa [List.append_nil, Nat.zero_add] at hrun

theorem parseAs_of_reads {α : Type} {r : Reader α} {text : Bytes} {a : α}
    (h : Reads r text [] a) : parseAs r text = .ok a := by
  rw [parseAs, h.ended]
  rfl

theorem encode_separated (sep : String) (text : String) (texts : List String) :
    Utf8.encode (separated sep (text :: texts)) = Utf8.encode text ++
      texts.flatMap fun t => Utf8.encode sep ++ Utf8.encode t := by
  induction texts generalizing text with
  | nil => rw [separated, String.intercalate_singleton, List.flatMap_nil, List.append_nil]
  | cons t texts ih =>
    have h := ih t
    rw [separated] at h
    rw [separated, String.intercalate_cons_cons, Utf8.encode_append, Utf8.encode_append, h,
      List.flatMap_cons, List.append_assoc, List.append_assoc]

theorem encode_items {sep : String} {gap : Bytes} (hsep : Utf8.encode sep = byte ',' :: gap)
    (texts : List String) :
    Utf8.encode (separated sep texts) = allItems gap (texts.map Utf8.encode) := by
  cases texts with
  | nil => rfl
  | cons text texts =>
    rw [encode_separated, hsep, List.map_cons, allItems, moreItems, List.flatMap_map]

def blank : Bytes := [0x20]

theorem isSpace_of_mem_blank : ∀ c ∈ blank, isSpace c = true := List.forall_mem_singleton.2 rfl

theorem encode_spacedStrings (items : List String) : Utf8.encode (spacedStrings items) =
    byte '[' :: (allItems blank (items.map fun s => Utf8.encode (renderString s)) ++
      [byte ']']) := by
  have hsep : Utf8.encode ", " = byte ',' :: blank := rfl
  have hopen : Utf8.encode "[" = [byte '['] := rfl
  have hclose : Utf8.encode "]" = [byte ']'] := rfl
  have htexts : Utf8.encode ∘ renderString = fun s => Utf8.encode (renderString s) := by
    funext s
    rw [Function.comp_apply]
  rw [spacedStrings, Utf8.encode_append, Utf8.encode_append, encode_items hsep, List.map_map,
    htexts, hopen, hclose, List.append_assoc, List.singleton_append]

theorem parse_spacedStrings (items : List String) :
    parse (Utf8.encode (spacedStrings items)) = .ok (.strings items) := by
  have hlist := reads_list isSpace_of_mem_blank (fun s (_ : s ∈ items) => isItem_renderString s)
    (fun s _ rest _ => reads_value_renderString 126 s rest) []
  have harray := reads_value_array 126 hlist
  rw [encode_spacedStrings]
  exact parseAs_of_reads harray

theorem encode_spacedMember (name s : String) : Utf8.encode (spacedMember name s) = byte '\x7b' ::
    (Utf8.encode (renderString name) ++ byte ':' :: (blank ++ Utf8.encode (renderString s)) ++
      [byte '\x7d']) := by
  have hopen : Utf8.encode "\x7b" = [byte '\x7b'] := rfl
  have hcolon : Utf8.encode ": " = byte ':' :: blank := rfl
  have hclose : Utf8.encode "\x7d" = [byte '\x7d'] := rfl
  simp only [spacedMember, Utf8.encode_append, hopen, hcolon, hclose, List.append_assoc,
    List.cons_append, List.nil_append]

theorem parse_spacedMember (name s : String) :
    parse (Utf8.encode (spacedMember name s)) = .ok (.object [(name, .string s)]) := by
  have hmembers := reads_members_single name (reads_value_string 126 isSpace_of_mem_blank s) []
  have hobject := reads_value_object 126 hmembers
  rw [encode_spacedMember]
  exact parseAs_of_reads hobject

end Federation.Json
