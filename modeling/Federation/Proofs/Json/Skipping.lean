import Federation.Proofs.Json.Passing

/-!
# Values that are passed over

A value that nobody asks for is passed over with a stack of the containers that are open, in place
of a recursion, and without an end to their number.  Whatever can be read as a value is passed over
as well, and the cursor comes to the same place.

* `Json.nextItem_eq_ok`, `Json.nextName_eq_ok`   what stands before an item or a member;
* `Json.items_succ_eq_ok_iff`, `Json.membersUpTo_succ_eq_ok_iff`
                                                 items and members one by one;
* `Json.Skips`, `Json.Leaves`                    how many steps a value and the rest of a container
                                                 take;
* `Json.skips_of_value`                          a value inside any containers;
* `Json.skip_of_value`                           a value alone.
-/

namespace Federation.Json

/-! ## what stands before an item -/

section
variable {c c' c₁ : Cursor} {first : Bool}

/-- where an item starts: behind blanks, and behind a comma unless it is the first one -/
inductive Starts (frame : Frame) : Bool → Cursor → Cursor → Prop where
  | first {c : Cursor} {b : UInt8} {more : Bytes} (h : (c.skipWhile isSpace).rest = b :: more)
    (hb : b ≠ frame.close) : Starts frame true c (c.skipWhile isSpace)
  | next {c : Cursor} {more : Bytes} (h : (c.skipWhile isSpace).rest = byte ',' :: more) :
    Starts frame false c (((c.skipWhile isSpace).advance 1).skipWhile isSpace)

theorem peek_eq (c : Cursor) :
    peek c = .ok ((c.skipWhile isSpace).rest.head?, c.skipWhile isSpace) := rfl

def Ends (frame : Frame) (c : Cursor) : Prop :=
  ∃ more, (c.skipWhile isSpace).rest = frame.close :: more

theorem nextItem_eq_ok {another : Bool} (h : nextItem first c = .ok (another, c₁)) :
    (another = false ∧ Ends .array c ∧ c₁ = c.skipWhile isSpace) ∨
      (another = true ∧ Starts .array first c c₁) := by
  rw [nextItem, bind_of_ok (peek_eq c)] at h
  cases hrest : (c.skipWhile isSpace).rest with
  | nil =>
    rw [hrest] at h
    cases h
  | cons b more =>
    rw [hrest] at h
    dsimp only [List.head?_cons] at h
    split at h
    · next hb =>
      obtain ⟨rfl, rfl⟩ := pure_eq_ok_iff.1 h
      exact .inl ⟨rfl, ⟨more, hrest.trans (congrArg (· :: more) hb)⟩, rfl⟩
    next hb =>
    cases first with
    | true =>
      obtain ⟨rfl, rfl⟩ := pure_eq_ok_iff.1 h
      exact .inr ⟨rfl, .first hrest hb⟩
    | false =>
      rw [if_neg (by decide)] at h
      split at h
      · next hcomma =>
        obtain ⟨_, _, h₁, h⟩ := bind_eq_ok_iff.1 h
        cases h₁
        rw [bind_of_ok (peek_eq _)] at h
        cases hnext : (((c.skipWhile isSpace).advance 1).skipWhile isSpace).rest with
        | nil =>
          rw [hnext] at h
          cases h
        | cons b' more' =>
          rw [hnext] at h
          dsimp only [List.head?_cons] at h
          split at h
          · cases h
          · obtain ⟨rfl, rfl⟩ := pure_eq_ok_iff.1 h
            exact .inr ⟨rfl, .next (hcomma ▸ hrest)⟩
      · cases h

theorem nextItem_of_ends (h : Ends .array c) (first : Bool) :
    nextItem first c = .ok (false, c.skipWhile isSpace) := by
  obtain ⟨more, hrest⟩ := h
  rw [nextItem, bind_of_ok (peek_eq c), hrest]
  rfl

theorem name_eq_ok {b : UInt8} {c c' : Cursor} {name? : Option String}
    (hb : c.rest.head? = some b) (h : nextName.name b c = .ok (name?, c')) :
    ∃ name, name? = some name ∧ c.rest.head? = some (byte '"') ∧
      stringTail (c.advance 1) = .ok (name, c') := by
  rw [nextName.name] at h
  split at h
  · next hq =>
    obtain ⟨_, _, h₁, h⟩ := bind_eq_ok_iff.1 h
    cases h₁
    obtain ⟨name, hname, rfl⟩ := map_eq_ok_iff.1 h
    exact ⟨name, rfl, hq ▸ hb, hname⟩
  · cases h

theorem nextName_eq_ok {name? : Option String} (h : nextName first c = .ok (name?, c₁)) :
    (name? = none ∧ Ends .object c ∧ c₁ = c.skipWhile isSpace) ∨
      ∃ name c₀, name? = some name ∧ Starts .object first c c₀ ∧
        c₀.rest.head? = some (byte '"') ∧ stringTail (c₀.advance 1) = .ok (name, c₁) := by
  rw [nextName, bind_of_ok (peek_eq c)] at h
  cases hrest : (c.skipWhile isSpace).rest with
  | nil =>
    rw [hrest] at h
    cases h
  | cons b more =>
    have hhead : (c.skipWhile isSpace).rest.head? = some b := congrArg List.head? hrest
    rw [hrest] at h
    dsimp only [List.head?_cons] at h
    split at h
    · next hb =>
      obtain ⟨rfl, rfl⟩ := pure_eq_ok_iff.1 h
      exact .inl ⟨rfl, ⟨more, hrest.trans (congrArg (· :: more) hb)⟩, rfl⟩
    next hb =>
    cases first with
    | true =>
      obtain ⟨name, rfl, hq, hname⟩ := name_eq_ok hhead h
      exact .inr ⟨name, _, rfl, .first hrest hb, hq, hname⟩
    | false =>
      rw [if_neg (by decide)] at h
      split at h
      · next hcomma =>
        obtain ⟨_, _, h₁, h⟩ := bind_eq_ok_iff.1 h
        cases h₁
        rw [bind_of_ok (peek_eq _)] at h
        cases hnext : (((c.skipWhile isSpace).advance 1).skipWhile isSpace).rest with
        | nil =>
          rw [hnext] at h
          cases h
        | cons b' more' =>
          have hhead' : (((c.skipWhile isSpace).advance 1).skipWhile isSpace).rest.head? = some b' :=
            congrArg List.head? hnext
          rw [hnext] at h
          dsimp only [List.head?_cons] at h
          split at h
          · cases h
          · obtain ⟨name, rfl, hq, hname⟩ := name_eq_ok hhead' h
            exact .inr ⟨name, _, rfl, .next (hcomma ▸ hrest), hq, hname⟩
      · cases h

theorem listEnd_eq_none (h : listEnd c = (none, c')) :
    Ends .array c ∧ c' = (c.skipWhile isSpace).advance 1 := by
  rw [listEnd] at h
  split at h
  · cases h
  · next b more hrest =>
    split at h
    · next hb =>
      cases h
      exact ⟨⟨more, hrest.trans (congrArg (· :: more) hb)⟩, rfl⟩
    split at h
    · cases h
    · cases h

theorem objectEnd_eq_none (h : objectEnd c = (none, c')) :
    Ends .object c ∧ c' = (c.skipWhile isSpace).advance 1 := by
  rw [objectEnd] at h
  split at h
  · cases h
  · next b more hrest =>
    split at h
    · next hb =>
      cases h
      exact ⟨⟨more, hrest.trans (congrArg (· :: more) hb)⟩, rfl⟩
    split at h
    · cases h
    · cases h

theorem listEnd_skipWhile (c : Cursor) : listEnd (c.skipWhile isSpace) = listEnd c := by
  rw [listEnd, listEnd, skipWhile_skipWhile]

theorem Ends.skipWhile {frame : Frame} (h : Ends frame c) : Ends frame (c.skipWhile isSpace) := by
  obtain ⟨more, hrest⟩ := h
  exact ⟨more, by rw [skipWhile_skipWhile, hrest]⟩

theorem Starts.not_ends (h : Starts .array first c c₁) : ¬Ends .array c := by
  rintro ⟨more, hend⟩
  cases h with
  | first hrest hb =>
    rw [hend] at hrest
    exact hb (List.cons.inj hrest).1.symm
  | next hrest =>
    rw [hend] at hrest
    exact absurd (List.cons.inj hrest).1 (by decide)

theorem length_skipWhile_le (p : UInt8 → Bool) (c : Cursor) :
    (c.skipWhile p).rest.length ≤ c.rest.length := by
  rw [rest_skipWhile]
  exact (List.dropWhile_sublist p).length_le

theorem Starts.length_le {frame : Frame} (h : Starts frame first c c₁) :
    c₁.rest.length ≤ c.rest.length := by
  cases h with
  | first => exact length_skipWhile_le _ _
  | next =>
    refine Nat.le_trans (length_skipWhile_le _ _) (Nat.le_trans ?_ (length_skipWhile_le isSpace c))
    rw [Cursor.advance, List.length_drop]
    exact Nat.sub_le _ _

theorem Ends.length_lt {frame : Frame} (h : Ends frame c) :
    ((c.skipWhile isSpace).advance 1).rest.length < c.rest.length := by
  obtain ⟨more, hrest⟩ := h
  have hle := length_skipWhile_le isSpace c
  have hlen := length_advance (congrArg List.head? hrest)
  omega

end

/-! ## items and members one by one -/

section
variable {α : Type} {item : Reader α} {c c' : Cursor} {first : Bool} {n : Nat}

theorem items_succ_eq_ok_iff {as : List α} :
    items item (n + 1) first c = .ok (as, c') ↔ (nextItem first c = .ok (false, c') ∧ as = []) ∨
      ∃ c₁ a c₂ more, nextItem first c = .ok (true, c₁) ∧ item c₁ = .ok (a, c₂) ∧
        items item n false c₂ = .ok (more, c') ∧ as = a :: more := by
  rw [items, bind_eq_ok_iff]
  constructor
  · rintro ⟨_ | _, c₁, hnext, h⟩
    · obtain ⟨rfl, rfl⟩ := pure_eq_ok_iff.1 h
      exact .inl ⟨hnext, rfl⟩
    · obtain ⟨a, c₂, ha, h⟩ := bind_eq_ok_iff.1 h
      obtain ⟨more, c₃, hmore, h⟩ := bind_eq_ok_iff.1 h
      obtain ⟨rfl, rfl⟩ := pure_eq_ok_iff.1 h
      exact .inr ⟨c₁, a, c₂, more, hnext, ha, hmore, rfl⟩
  · rintro (⟨hnext, rfl⟩ | ⟨c₁, a, c₂, more, hnext, ha, hmore, rfl⟩)
    · exact ⟨false, c', hnext, rfl⟩
    · exact ⟨true, c₁, hnext,
        bind_eq_ok_iff.2 ⟨a, c₂, ha, bind_eq_ok_iff.2 ⟨more, c', hmore, rfl⟩⟩⟩

theorem membersUpTo_succ_eq_ok_iff {ms : List (String × α)} :
    membersUpTo item (n + 1) first c = .ok (ms, c') ↔
      (nextName first c = .ok (none, c') ∧ ms = []) ∨
      ∃ name c₁ c₂ a c₃ more, nextName first c = .ok (some name, c₁) ∧ colon c₁ = .ok ((), c₂) ∧
        item c₂ = .ok (a, c₃) ∧ membersUpTo item n false c₃ = .ok (more, c') ∧
        ms = (name, a) :: more := by
  rw [membersUpTo, bind_eq_ok_iff]
  constructor
  · rintro ⟨_ | name, c₁, hnext, h⟩
    · obtain ⟨rfl, rfl⟩ := pure_eq_ok_iff.1 h
      exact .inl ⟨hnext, rfl⟩
    · obtain ⟨_, c₂, hcolon, h⟩ := bind_eq_ok_iff.1 h
      obtain ⟨a, c₃, ha, h⟩ := bind_eq_ok_iff.1 h
      obtain ⟨more, c₄, hmore, h⟩ := bind_eq_ok_iff.1 h
      obtain ⟨rfl, rfl⟩ := pure_eq_ok_iff.1 h
      exact .inr ⟨name, c₁, c₂, a, c₃, more, hnext, hcolon, ha, hmore, rfl⟩
  · rintro (⟨hnext, rfl⟩ | ⟨name, c₁, c₂, a, c₃, more, hnext, hcolon, ha, hmore, rfl⟩)
    · exact ⟨none, c', hnext, rfl⟩
    · exact ⟨some name, c₁, hnext, bind_eq_ok_iff.2 ⟨(), c₂, hcolon,
        bind_eq_ok_iff.2 ⟨a, c₃, ha, bind_eq_ok_iff.2 ⟨more, c', hmore, rfl⟩⟩⟩⟩

end

/-! ## the steps -/

section
variable {c c' c₀ c₁ c₂ : Cursor} {first : Bool} {n : Nat} {frames : List Frame} {more : Bytes}

theorem skipValue_skipWhile (n : Nat) (frames : List Frame) (c : Cursor) :
    skipValue (n + 1) frames (c.skipWhile isSpace) = skipValue (n + 1) frames c := by
  have hpeek : peek (c.skipWhile isSpace) = peek c := by
    rw [peek_eq, peek_eq, skipWhile_skipWhile]
  rw [skipValue]
  exact bind_congr_at hpeek _

theorem skipValue_array (h : (c.skipWhile isSpace).rest = byte '[' :: more) :
    skipValue (n + 1) frames c
      = skipRest n false (.array :: frames) ((c.skipWhile isSpace).advance 1) := by
  rw [skipValue, bind_of_ok (peek_eq c), h]
  rfl

theorem skipValue_object (h : (c.skipWhile isSpace).rest = byte '\x7b' :: more) :
    skipValue (n + 1) frames c
      = skipRest n false (.object :: frames) ((c.skipWhile isSpace).advance 1) := by
  rw [skipValue, bind_of_ok (peek_eq c), h]
  rfl

theorem skipValue_scalar {b : UInt8} (h : (c.skipWhile isSpace).rest = b :: more)
    (ha : b ≠ byte '[') (ho : b ≠ byte '\x7b')
    (hs : skipScalar b (c.skipWhile isSpace) = .ok ((), c')) :
    skipValue (n + 1) frames c = skipRest n true frames c' := by
  rw [skipValue, bind_of_ok (peek_eq c), h]
  dsimp only [List.head?_cons]
  rw [if_neg ha, if_neg ho]
  exact bind_of_ok hs _

theorem skipRest_close {frame : Frame} (h : Ends frame c) (behind : Bool) (n : Nat)
    (frames : List Frame) : skipRest (n + 1) behind (frame :: frames) c
      = skipRest n true frames ((c.skipWhile isSpace).advance 1) := by
  obtain ⟨more, hrest⟩ := h
  rw [skipRest, bind_of_ok (peek_eq c), hrest]
  dsimp only [List.head?_cons]
  rw [if_pos rfl]
  rfl

theorem skipRest_item (h : Starts .array first c c₁) (n : Nat) (frames : List Frame) :
    skipRest (n + 2) (!first) (.array :: frames) c = skipValue (n + 1) (.array :: frames) c₁ := by
  cases h with
  | first hrest hb =>
    rw [skipRest, bind_of_ok (peek_eq c), hrest]
    dsimp only [List.head?_cons]
    rw [if_neg hb]
    rfl
  | next hrest =>
    rw [skipRest, bind_of_ok (peek_eq c), hrest, skipValue_skipWhile]
    rfl

theorem skipName_eq_ok {name : String} (hq : (c.skipWhile isSpace).rest.head? = some (byte '"'))
    (hname : stringTail ((c.skipWhile isSpace).advance 1) = .ok (name, c₁))
    (hcolon : colon c₁ = .ok ((), c₂)) : skipName c = .ok ((), c₂) := by
  have hlen := length_advance hq
  have hle := length_skipWhile_le isSpace c
  have hskip := skipString_of_stringTail hname (by omega : _ < c.rest.length + 1)
  rw [skipName]
  refine bind_eq_ok_iff.2 ⟨(), _, ?_, bind_eq_ok_iff.2 ⟨(), _, hskip, hcolon⟩⟩
  rw [bind_of_ok (peek_eq c), hq]
  rfl

theorem skipRest_member {name : String} (h : Starts .object first c c₀)
    (hq : c₀.rest.head? = some (byte '"')) (hname : stringTail (c₀.advance 1) = .ok (name, c₁))
    (hcolon : colon c₁ = .ok ((), c₂)) (n : Nat) (frames : List Frame) :
    skipRest (n + 1) (!first) (.object :: frames) c = skipValue n (.object :: frames) c₂ := by
  cases h with
  | first hrest hb =>
    have hskip : skipName (c.skipWhile isSpace) = .ok ((), c₂) := by
      rw [← skipWhile_skipWhile] at hq hname
      exact skipName_eq_ok hq hname hcolon
    rw [skipRest, bind_of_ok (peek_eq c), hrest]
    dsimp only [List.head?_cons]
    rw [if_neg hb]
    exact bind_of_ok hskip _
  | next hrest =>
    have hskip := skipName_eq_ok hq hname hcolon
    rw [skipRest, bind_of_ok (peek_eq c), hrest]
    exact (bind_of_ok rfl _).trans (bind_of_ok hskip _)

end

/-! ## counting the steps -/

section
variable {c c' c₁ c₂ : Cursor} {first : Bool} {frame : Frame}

/-- from `c` to `c'` stands a value: it takes less than two steps for each of its bytes -/
def Skips (c c' : Cursor) : Prop := ∃ k, k + 2 + 2 * c'.rest.length ≤ 2 * c.rest.length ∧
  ∀ n frames, skipValue (n + k + 1) frames c = skipRest n true frames c'

/-- from `c` to `c'` stands the rest of a container, up to its closing bracket: it takes at most two
steps for each byte -/
def Leaves (frame : Frame) (behind : Bool) (c c' : Cursor) : Prop :=
  ∃ k, k + 1 + 2 * c'.rest.length ≤ 2 * c.rest.length ∧
    ∀ n frames, skipRest (n + k + 1) behind (frame :: frames) c = skipRest n true frames c'

theorem leaves_of_ends (h : Ends frame c) (behind : Bool) :
    Leaves frame behind c ((c.skipWhile isSpace).advance 1) := by
  have hlt := h.length_lt
  exact ⟨0, by omega, fun n frames => skipRest_close h behind n frames⟩

theorem Leaves.behind (hle : c₁.rest.length ≤ c.rest.length)
    (hopen : ∀ n frames, skipRest (n + 2) (!first) (frame :: frames) c
      = skipValue (n + 1) (frame :: frames) c₁)
    (hvalue : Skips c₁ c₂) (hrest : Leaves frame true c₂ c') : Leaves frame (!first) c c' := by
  obtain ⟨k, hk, hvalue⟩ := hvalue
  obtain ⟨l, hl, hrest⟩ := hrest
  refine ⟨k + l + 2, by omega, fun n frames => ?_⟩
  have hsum : n + (k + l + 2) + 1 = n + l + 1 + k + 2 := by omega
  rw [hsum, hopen, hvalue, hrest]

theorem skips_of_container (hopen : ∀ n frames, skipValue (n + 1) frames c
      = skipRest n false (frame :: frames) ((c.skipWhile isSpace).advance 1))
    {b : UInt8} (hb : (c.skipWhile isSpace).rest.head? = some b)
    (hrest : Leaves frame false ((c.skipWhile isSpace).advance 1) c') : Skips c c' := by
  obtain ⟨k, hk, hrest⟩ := hrest
  have hlen := length_advance hb
  have hle := length_skipWhile_le isSpace c
  exact ⟨k + 1, by omega, fun n frames => (hopen _ _).trans (hrest n frames)⟩

/-! ## values -/

theorem leaves_of_items {item : Reader Value} (hitem : ∀ c v c', item c = .ok (v, c') → Skips c c')
    {n : Nat} {first : Bool} {c c₁ : Cursor} {vs : List Value}
    (h : items item n first c = .ok (vs, c₁)) (hend : Ends .array c₁) :
    Leaves .array (!first) c ((c₁.skipWhile isSpace).advance 1) := by
  induction n generalizing first c vs with
  | zero =>
    obtain ⟨-, rfl⟩ := pure_eq_ok_iff.1 h
    exact leaves_of_ends hend _
  | succ n ih =>
    rcases items_succ_eq_ok_iff.1 h with ⟨hnext, -⟩ | ⟨c₂, v, c₃, more, hnext, hv, hmore, -⟩
    · obtain ⟨-, hclose, rfl⟩ | ⟨hnone, -⟩ := nextItem_eq_ok hnext
      · rw [skipWhile_skipWhile]
        exact leaves_of_ends hclose _
      · cases hnone
    · obtain ⟨hnone, -⟩ | ⟨-, hstarts⟩ := nextItem_eq_ok hnext
      · cases hnone
      · exact .behind hstarts.length_le (skipRest_item hstarts) (hitem _ _ _ hv) (ih hmore)

theorem advances_colon : Advances colon := by
  refine advances_peek.bind fun b? => ?_
  cases b? with
  | none => exact advances_fail _
  | some b =>
    dsimp only
    split
    · exact advances_take 1
    · exact advances_fail _

theorem length_le_of_nextName {name? : Option String} (h : nextName first c = .ok (name?, c₁)) :
    c₁.rest.length ≤ c.rest.length := by
  rcases nextName_eq_ok h with ⟨-, -, rfl⟩ | ⟨name, c₀, -, hstarts, hq, hname⟩
  · exact length_skipWhile_le _ _
  · have h₁ := hstarts.length_le
    have h₂ := length_advance hq
    have h₃ := (advances_skipString _).length_le (passes_stringTail _ _ _ hname)
    omega

theorem leaves_of_members {item : Reader Value}
    (hitem : ∀ c v c', item c = .ok (v, c') → Skips c c') {n : Nat} {first : Bool} {c c₁ : Cursor}
    {ms : Members} (h : membersUpTo item n first c = .ok (ms, c₁)) (hend : Ends .object c₁) :
    Leaves .object (!first) c ((c₁.skipWhile isSpace).advance 1) := by
  induction n generalizing first c ms with
  | zero =>
    obtain ⟨-, rfl⟩ := pure_eq_ok_iff.1 h
    exact leaves_of_ends hend _
  | succ n ih =>
    rcases membersUpTo_succ_eq_ok_iff.1 h with ⟨hnext, -⟩ |
      ⟨name, c₂, c₃, v, c₄, more, hnext, hcolon, hv, hmore, -⟩
    · obtain ⟨-, hclose, rfl⟩ | ⟨_, _, hnone, -⟩ := nextName_eq_ok hnext
      · rw [skipWhile_skipWhile]
        exact leaves_of_ends hclose _
      · cases hnone
    · have hle := Nat.le_trans (advances_colon.length_le hcolon) (length_le_of_nextName hnext)
      obtain ⟨hnone, -⟩ | ⟨_, c₀, hname?, hstarts, hq, hname⟩ := nextName_eq_ok hnext
      · cases hnone
      · cases hname?
        exact .behind hle (fun n => skipRest_member hstarts hq hname hcolon (n + 1))
          (hitem _ _ _ hv) (ih hmore)

theorem skips_of_scalar {b : UInt8} {more : Bytes} {v : Value}
    (h : (c.skipWhile isSpace).rest = b :: more) (ha : b ≠ byte '[') (ho : b ≠ byte '\x7b')
    (hv : scalar b (c.skipWhile isSpace) = .ok (v, c')) : Skips c c' := by
  have hlt := length_lt_of_scalar (congrArg List.head? h) hv
  have hle := length_skipWhile_le isSpace c
  exact ⟨0, by omega, fun n frames => skipValue_scalar h ha ho (passes_scalar b _ _ _ hv)⟩

/-- whatever can be read as a value is passed over, inside any containers -/
theorem skips_of_value {depth : Nat} {c c' : Cursor} {v : Value}
    (h : value depth c = .ok (v, c')) : Skips c c' := by
  induction depth generalizing c c' v with
  | zero =>
    rcases value_cases h with ⟨d, _, _, hd, _⟩ | ⟨d, _, _, hd, _⟩ | ⟨b, more, hrest, ha, ho, hv⟩
    · cases hd
    · cases hd
    · exact skips_of_scalar hrest ha ho hv
  | succ depth ih =>
    have hvalue : ∀ c v c', value depth c = .ok (v, c') → Skips c c' := fun _ _ _ h => ih h
    rcases value_cases h with ⟨d, items, more, hd, hrest, hlist, -⟩ |
      ⟨d, ms, more, hd, hrest, hms, -⟩ | ⟨b, more, hrest, ha, ho, hv⟩
    · obtain rfl := Nat.succ.inj hd
      obtain ⟨c₁, hitems, hclose⟩ := enclosed_eq_ok_iff.1 hlist
      obtain ⟨hends, rfl⟩ := listEnd_eq_none hclose
      exact skips_of_container (fun n frames => skipValue_array hrest) (congrArg List.head? hrest)
        (leaves_of_items hvalue hitems hends)
    · obtain rfl := Nat.succ.inj hd
      obtain ⟨c₁, hmembers, hclose⟩ := enclosed_eq_ok_iff.1 hms
      obtain ⟨hends, rfl⟩ := objectEnd_eq_none hclose
      exact skips_of_container (fun n frames => skipValue_object hrest) (congrArg List.head? hrest)
        (leaves_of_members hvalue hmembers hends)
    · exact skips_of_scalar hrest ha ho hv

theorem length_lt_of_value {depth : Nat} {v : Value} (h : value depth c = .ok (v, c')) :
    c'.rest.length < c.rest.length := by
  obtain ⟨k, hk, -⟩ := skips_of_value h
  omega

/-- whatever can be read as a value is passed over to the same place -/
theorem skip_of_value {depth : Nat} {v : Value} (h : value depth c = .ok (v, c')) :
    skip c = .ok ((), c') := by
  obtain ⟨k, hk, hskip⟩ := skips_of_value h
  obtain ⟨n, hn⟩ : ∃ n, 2 * c.rest.length + 2 = n + 1 + k + 1 :=
    ⟨2 * c.rest.length - k, by omega⟩
  rw [skip, hn, hskip]
  rfl

end

end Federation.Json
