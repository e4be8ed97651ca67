import Federation.Proofs.Json.Alongside
import Federation.Proofs.Json.Compact
import Federation.Proofs.Json.Float
import Federation.Proofs.Json.Members

/-!
# Objects as they are written

An object that has been read holds one member for each name.  `Json.Writes` says which members a
text has, in the order of the text and with those that are there more than once; of these the last
one is the one that is found.  Whatever is written without blanks can be read, at any depth that is
allowed, and its strings come back as they were; only a float may come back as another float.

* `Json.parse_eq_object_iff`   an object that is read, and the members in its text;
* `Json.get?_ofList`           the last member of a name counts;
* `Json.Value.Fits.reads`      a value is read back, with its strings;
* `Json.writes_compact`        and so is an object with any blanks around it.
-/

namespace Federation.Json

open Decimal (digitByte)

/-! ## the last member of a name -/

section
variable {α : Type}

/-- the member `name` of a list in which a name may stand more than once: the last one -/
def last? (ms : List (String × α)) (name : String) : Option α := get? ms.reverse name

theorem get?_cons (m : String × α) (ms : List (String × α)) (name : String) :
    get? (m :: ms) name = if m.1 = name then some m.2 else get? ms name := by
  rw [get?, get?, List.find?_cons]
  by_cases h : m.1 = name
  · rw [if_pos h, beq_iff_eq.2 h, Option.map_some]
  · rw [if_neg h, beq_eq_false_iff_ne.2 h]

theorem get?_insert (name : String) (v : α) (ms : List (String × α)) (other : String) :
    get? (insert name v ms) other = if name = other then some v else get? ms other := by
  induction ms with
  | nil => exact get?_cons (name, v) [] other
  | cons m ms ih =>
    rw [insert]
    split
    · exact get?_cons (name, v) (m :: ms) other
    · next hle =>
      split
      · next hlt =>
        rw [get?_cons, get?_cons, ih]
        by_cases hm : m.1 = other
        · have hne : name ≠ other := fun h => String.lt_irrefl _ (h ▸ hm ▸ hlt)
          rw [if_pos hm, if_neg hne, if_pos hm]
        · rw [if_neg hm, if_neg hm]
      · next hge =>
        obtain rfl : name = m.1 := String.le_antisymm hge hle
        rw [get?_cons, get?_cons]
        split
        · rfl
        · rfl

theorem get?_ofList (ms : List (String × α)) (name : String) :
    get? (ofList ms) name = last? ms name := by
  induction ms using List.reverseRecOn with
  | nil => rfl
  | append_singleton ms m ih =>
    rw [ofList_concat, get?_insert, ih, last?, last?, List.reverse_concat, get?_cons]

theorem last?_map {ms : Members} {f : String × Value → Value}
    (hf : ∀ m ∈ ms, ∀ s, m.2 = .string s → f m = .string s) {name s : String}
    (h : last? ms name = some (.string s)) :
    last? (ms.map fun m => (m.1, f m)) name = some (.string s) := by
  obtain ⟨m, hm, hs⟩ := Option.map_eq_some_iff.1 h
  have hmem : m ∈ ms := List.mem_reverse.1 (List.mem_of_find?_eq_some hm)
  have hfind : (ms.map fun m => (m.1, f m)).reverse.find? (fun m => m.1 == name)
      = some (m.1, f m) := by
    rw [← List.map_reverse, List.find?_map]
    exact congrArg _ hm
  rw [last?, get?, hfind, Option.map_some, hf m hmem s hs]

end

/-! ## objects in a text -/

/-- the text is an object with the members `ms`, in the order of the text, with blanks around it -/
def Writes (text : Bytes) (ms : Members) : Prop :=
  ∃ (gap body : Bytes) (c : Cursor), text = gap ++ byte '\x7b' :: body ∧
    (∀ b ∈ gap, isSpace b = true) ∧
    members (value (maxDepth - 1)) ⟨gap.length + 1, body⟩ = .ok (ms, c) ∧
    ∀ b ∈ c.rest, isSpace b = true

theorem ended_iff {c : Cursor} :
    (c.skipWhile isSpace).rest = [] ↔ ∀ b ∈ c.rest, isSpace b = true := by
  rw [rest_skipWhile, List.dropWhile_eq_nil_iff]

theorem skipWhile_gap {gap : Bytes} (hgap : ∀ b ∈ gap, isSpace b = true) {b : UInt8}
    (hb : isSpace b = false) (o : Nat) (rest : Bytes) :
    (⟨o, gap ++ b :: rest⟩ : Cursor).skipWhile isSpace = ⟨o + gap.length, b :: rest⟩ :=
  congrArg Prod.snd (Except.ok.inj (reads_peek hgap hb rest o))

theorem value_eq_object_iff {depth : Nat} {c c' : Cursor} {ms' : Members} :
    value (depth + 1) c = .ok (.object ms', c') ↔
      ∃ body ms, (c.skipWhile isSpace).rest = byte '\x7b' :: body ∧
        members (value depth) ((c.skipWhile isSpace).advance 1) = .ok (ms, c') ∧
        ofList ms = ms' := by
  constructor
  · intro h
    rcases value_cases h with ⟨_, _, _, -, -, -, h⟩ | ⟨d, ms, body, hd, hrest, hms, h⟩ |
      ⟨b, _, -, -, -, h⟩
    · cases h
    · obtain rfl : depth = d := Nat.succ.inj hd
      exact ⟨body, ms, hrest, hms, (Value.object.inj h).symm⟩
    · rcases scalar_cases h with ⟨-, h⟩ | ⟨_, h⟩ | ⟨-, _, h, -⟩ | ⟨-, _, h, -⟩ | ⟨_, h⟩
      all_goals cases h
  · rintro ⟨body, ms, hrest, hms, rfl⟩
    rw [value]
    refine bind_eq_ok_iff.2 ⟨_, _, rfl, ?_⟩
    rw [hrest]
    exact bind_eq_ok_iff.2 ⟨(), _, rfl, map_eq_ok_iff.2 ⟨ms, hms, rfl⟩⟩

/-- the object in a text has the members that are written, the last one for each name -/
theorem parse_eq_object_iff {text : Bytes} {ms' : Members} :
    parse text = .ok (.object ms') ↔ ∃ ms, Writes text ms ∧ ofList ms = ms' := by
  rw [parse, parseAs_eq_ok_iff]
  constructor
  · rintro ⟨c, hvalue, hend⟩
    obtain ⟨body, ms, hrest, hms, hlist⟩ := value_eq_object_iff.1 hvalue
    have hdrop : text.dropWhile isSpace = byte '\x7b' :: body :=
      (rest_skipWhile isSpace ⟨0, text⟩).symm.trans hrest
    have hcursor : ((⟨0, text⟩ : Cursor).skipWhile isSpace).advance 1
        = ⟨(text.takeWhile isSpace).length + 1, body⟩ := by
      rw [Cursor.advance, hrest]
      exact congrArg (Cursor.mk · body) (congrArg (· + 1) (Nat.zero_add _))
    rw [hcursor] at hms
    refine ⟨ms, ⟨text.takeWhile isSpace, body, c, ?_, isSpace_of_mem_takeWhile text, hms,
      ended_iff.1 hend⟩, hlist⟩
    rw [← hdrop, List.takeWhile_append_dropWhile]
  · rintro ⟨ms, ⟨gap, body, c, rfl, hgap, hms, hend⟩, hlist⟩
    refine ⟨c, value_eq_object_iff.2 ⟨body, ms, ?_, ?_, hlist⟩, ended_iff.2 hend⟩
    · rw [skipWhile_gap hgap (by decide)]
    · rw [skipWhile_gap hgap (by decide), Nat.zero_add]
      exact hms

theorem parse_member_iff {text : Bytes} {name : String} {v : Value} :
    (∃ u, parse text = .ok u ∧ u.member? name = some v) ↔
      ∃ ms, Writes text ms ∧ last? ms name = some v := by
  constructor
  · rintro ⟨u, hu, hv⟩
    cases u with
    | object ms' =>
      obtain ⟨ms, hms, rfl⟩ := parse_eq_object_iff.1 hu
      exact ⟨ms, hms, (get?_ofList ms name).symm.trans hv⟩
    | _ => cases hv
  · rintro ⟨ms, hms, hv⟩
    exact ⟨_, parse_eq_object_iff.2 ⟨ms, hms, rfl⟩, (get?_ofList ms name).trans hv⟩

/-! ## values that can be written and read -/

/-- a value with at most `depth` containers around its innermost one, and with numbers that there
are -/
inductive Value.Fits : Nat → Value → Prop where
  | null {depth : Nat} : Fits depth .null
  | bool {depth : Nat} (b : Bool) : Fits depth (.bool b)
  | number {depth : Nat} {n : Number} (h : n.IsProper) : Fits depth (.number n)
  | string {depth : Nat} (s : String) : Fits depth (.string s)
  | array {depth : Nat} {vs : List Value} (h : ∀ v ∈ vs, Fits depth v) :
    Fits (depth + 1) (.array vs)
  | object {depth : Nat} {ms : Members} (h : ∀ m ∈ ms, Fits depth m.2) :
    Fits (depth + 1) (.object ms)

variable {depth : Nat} {v : Value}

theorem Value.Fits.isItem (h : v.Fits depth) : IsItem (Utf8.encode v.compact) := by
  cases h with
  | null => exact ⟨_, _, rfl, by decide, by decide⟩
  | bool b =>
    cases b with
    | false => exact ⟨_, _, rfl, by decide, by decide⟩
    | true => exact ⟨_, _, rfl, by decide, by decide⟩
  | number h =>
    obtain ⟨negative, text, hrender, d, more, -, rfl, -⟩ := h.readable
    have hdigit : ∀ d : Fin 10, isSpace (digitByte d.val) = false ∧ digitByte d.val ≠ byte ']' := by
      decide
    rw [Value.compact, hrender]
    cases negative with
    | false => exact ⟨_, _, rfl, hdigit d⟩
    | true => exact ⟨_, _, rfl, by decide, by decide⟩
  | string s =>
    rw [Value.compact]
    exact isItem_renderString s
  | array _ => exact ⟨_, _, encode_compact_array _, by decide, by decide⟩
  | object _ => exact ⟨_, _, encode_compact_object _, by decide, by decide⟩

/-- the value is read back as `v'`, in front of all that may follow a value -/
def Value.Returns (depth : Nat) (v v' : Value) : Prop :=
  ∀ rest, Closes rest → Reads (value depth) (Utf8.encode v.compact) rest v'

theorem returns_bool (b : Bool) : (Value.bool b).Returns depth (.bool b) := by
  intro rest _
  rw [value.eq_def]
  cases b with
  | false =>
    have hword : Reads (word ['a', 'l', 's', 'e']) [byte 'a', byte 'l', byte 's', byte 'e'] rest ()
      := fun _ => rfl
    show Reads _ (byte 'f' :: _) rest _
    refine (reads_peek_here (by decide) _).bind_nil ?_
    show Reads (take 1 >>= _) _ _ _
    exact .behind (hword.bind_end (Reads.pure _ _))
  | true =>
    have hword : Reads (word ['r', 'u', 'e']) [byte 'r', byte 'u', byte 'e'] rest () := fun _ => rfl
    show Reads _ (byte 't' :: _) rest _
    refine (reads_peek_here (by decide) _).bind_nil ?_
    show Reads (take 1 >>= _) _ _ _
    exact .behind (hword.bind_end (Reads.pure _ _))

theorem exists_returns_number {n : Number} (h : n.IsProper) :
    ∃ x, (Value.number n).Returns depth (.number x) := by
  obtain ⟨negative, text, hrender, d, more, x, rfl, hread⟩ := h.readable
  refine ⟨x, fun rest hrest => ?_⟩
  rw [Value.compact, hrender]
  exact reads_value_number depth (hread rest hrest)

theorem returns_array {vs : List Value} {f : Value → Value}
    (hitem : ∀ v ∈ vs, IsItem (Utf8.encode v.compact)) (h : ∀ v ∈ vs, v.Returns depth (f v)) :
    (Value.array vs).Returns (depth + 1) (.array (vs.map f)) := by
  intro rest _
  rw [encode_compact_array]
  exact reads_value_array depth (reads_list (fun _ h => absurd h List.not_mem_nil) hitem h rest)

theorem reads_compact_members {ms : Members} {f : String × Value → Value}
    (h : ∀ m ∈ ms, m.2.Returns depth (f m)) (rest : Bytes) :
    Reads (members (value depth))
      (allItems [] (ms.map fun m => memberText m.1 (Utf8.encode m.2.compact)) ++ [byte '\x7d'])
      rest (ms.map fun m => (m.1, f m)) :=
  reads_members Prod.fst h rest

theorem returns_object {ms : Members} {f : String × Value → Value}
    (h : ∀ m ∈ ms, m.2.Returns depth (f m)) : (Value.object ms).Returns (depth + 1)
      (.object (ofList (ms.map fun m => (m.1, f m)))) := by
  intro rest _
  rw [encode_compact_object]
  exact reads_value_object depth (reads_compact_members h rest)

/-- a value is read back, and a string as the same string -/
theorem Value.Fits.returns (h : v.Fits depth) :
    ∃ v', v.Returns depth v' ∧ ∀ s, v = .string s → v' = .string s := by
  induction h with
  | null => exact ⟨_, fun rest _ => reads_compact_null rest, nofun⟩
  | bool b => exact ⟨_, returns_bool b, nofun⟩
  | number h =>
    obtain ⟨x, hx⟩ := exists_returns_number h
    exact ⟨_, hx, nofun⟩
  | string s => exact ⟨_, fun rest _ => reads_compact_string s rest, fun _ h => h⟩
  | array hvs ih =>
    have : Nonempty Value := ⟨.null⟩
    choose! f hf using ih
    exact ⟨_, returns_array (fun v hv => (hvs v hv).isItem) fun v hv => (hf v hv).1, nofun⟩
  | object _ ih =>
    have : Nonempty Value := ⟨.null⟩
    choose! f hf using ih
    exact ⟨_, returns_object fun m hm => (hf m hm).1, nofun⟩

def IsGap (s : String) : Prop := ∀ c ∈ s.toList, c ∈ [' ', '\n', '\r', '\t']

theorem IsGap.isSpace {s : String} (h : IsGap s) : ∀ b ∈ Utf8.encode s, isSpace b = true := by
  intro b hb
  obtain ⟨c, hc, hb⟩ := List.mem_flatMap.1 hb
  have hall : ∀ c ∈ [' ', '\n', '\r', '\t'], (String.utf8EncodeChar c).all Json.isSpace = true :=
    Utf8.forall_of_all (by decide)
  exact List.all_eq_true.1 (hall c (h c hc)) b hb

/-- an object that is written without blanks, with any blanks around it: its strings are members of
the text, and the last of a name is still the last -/
theorem writes_compact {ms : Members} (h : (Value.object ms).Fits maxDepth) {front back : String}
    (hfront : IsGap front) (hback : IsGap back) :
    ∃ ms', Writes (Utf8.encode (front ++ (Value.object ms).compact ++ back)) ms' ∧
      ∀ name s, last? ms name = some (.string s) → last? ms' name = some (.string s) := by
  cases h with
  | object hms =>
    have : Nonempty Value := ⟨.null⟩
    choose! f hf using fun m hm => (hms m hm).returns
    have hread := reads_compact_members (fun m hm => (hf m hm).1) (Utf8.encode back)
      ((Utf8.encode front).length + 1)
    refine ⟨_, ⟨Utf8.encode front, _, _, ?_, hfront.isSpace, hread, hback.isSpace⟩,
      fun name s => last?_map fun m hm => (hf m hm).2⟩
    rw [Utf8.encode_append, Utf8.encode_append, encode_compact_object, List.append_assoc,
      List.cons_append]

end Federation.Json
