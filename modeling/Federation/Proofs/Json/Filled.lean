import Federation.Proofs.Json.Reread
import Federation.Proofs.Json.Skipping

/-!
# Structures and the values they are read off

A structure is read off a text without its value being read first.  Where the text is a value, the
structure can be told from it: from the members of an object, in whatever order they stand and with
any others among them, or from the items of an array.

* `Json.value_string_iff`, `Json.value_strings_iff`   strings, and lists of them;
* `Json.Field.Follows`                                fields that are read off values;
* `Json.Fills`, `Json.FillsInOrder`                   what members and items make of a structure;
* `Json.Gives`                                        what members say of one field, in any order;
* `Json.parseAs_iff_fills`, `Json.parseAs_iff_fillsInOrder`
                                                      the structures in a text.
-/

namespace Federation.Json

/-! ## strings -/

section
variable {c c' : Cursor} {depth n : Nat} {first : Bool} {s : String}

theorem start_eq_ok_iff {b : UInt8} : start c = .ok (b, c') ↔
    (c.skipWhile isSpace).rest.head? = some b ∧ c' = c.skipWhile isSpace := by
  rw [start, bind_of_ok (peek_eq c)]
  cases hb : (c.skipWhile isSpace).rest.head? with
  | none => exact ⟨fun h => (nomatch h), fun h => (nomatch h.1)⟩
  | some b' =>
    dsimp only
    rw [pure_eq_ok_iff, Option.some_inj, eq_comm (a := c')]

theorem scalar_string_iff {b : UInt8} : scalar b c = .ok (.string s, c') ↔
    b = byte '"' ∧ stringTail (c.advance 1) = .ok (s, c') := by
  constructor
  · intro h
    have hword : ∀ {u : Value} {w : List Char},
        (do take 1; word w; pure u : Reader Value) c = .ok (.string s, c') → u = .string s := by
      intro u w h
      obtain ⟨_, _, -, h⟩ := bind_eq_ok_iff.1 h
      obtain ⟨_, _, -, h⟩ := bind_eq_ok_iff.1 h
      exact (pure_eq_ok_iff.1 h).1
    rw [scalar] at h
    split at h
    · cases hword h
    split at h
    · cases hword h
    split at h
    · cases hword h
    split at h
    · obtain ⟨_, _, -, h⟩ := bind_eq_ok_iff.1 h
      obtain ⟨_, -, h⟩ := map_eq_ok_iff.1 h
      cases h
    split at h
    · obtain ⟨_, -, h⟩ := map_eq_ok_iff.1 h
      cases h
    split at h
    · next hq =>
      obtain ⟨_, _, h₁, h⟩ := bind_eq_ok_iff.1 h
      cases h₁
      obtain ⟨s', hs, he⟩ := map_eq_ok_iff.1 h
      cases he
      exact ⟨hq, hs⟩
    · cases h
  · rintro ⟨rfl, hs⟩
    exact bind_eq_ok_iff.2 ⟨(), _, rfl, map_eq_ok_iff.2 ⟨s, hs, rfl⟩⟩

theorem value_string_iff : value depth c = .ok (.string s, c') ↔ string c = .ok (s, c') := by
  constructor
  · intro h
    obtain ⟨b, more, hrest, hscalar⟩ := scalar_of_value h nofun nofun
    obtain ⟨rfl, hs⟩ := scalar_string_iff.1 hscalar
    refine bind_eq_ok_iff.2 ⟨_, _, start_eq_ok_iff.2 ⟨congrArg List.head? hrest, rfl⟩, ?_⟩
    exact bind_eq_ok_iff.2 ⟨(), _, rfl, hs⟩
  · intro h
    obtain ⟨b, c₁, hstart, h⟩ := bind_eq_ok_iff.1 h
    obtain ⟨hb, rfl⟩ := start_eq_ok_iff.1 hstart
    obtain ⟨more, hrest⟩ := List.head?_eq_some_iff.1 hb
    split at h
    · next hq =>
      subst hq
      obtain ⟨_, _, h₁, h⟩ := bind_eq_ok_iff.1 h
      cases h₁
      rw [value_eq_scalar depth hrest (by decide) (by decide)]
      exact scalar_string_iff.2 ⟨rfl, h⟩
    · exact absurd h (mismatch_ne_ok _ _ _ _)

theorem value_array_iff {vs : List Value} : value (depth + 1) c = .ok (.array vs, c') ↔
    ∃ more, (c.skipWhile isSpace).rest = byte '[' :: more ∧
      list (value depth) ((c.skipWhile isSpace).advance 1) = .ok (vs, c') := by
  constructor
  · intro h
    rcases value_cases h with ⟨d, items, more, hd, hrest, hlist, hv⟩ | ⟨_, _, _, -, -, -, hv⟩ |
      ⟨b, _, -, -, -, h⟩
    · cases hd
      cases hv
      exact ⟨more, hrest, hlist⟩
    · cases hv
    · rcases scalar_cases h with ⟨-, h⟩ | ⟨_, h⟩ | ⟨-, _, h, -⟩ | ⟨-, _, h, -⟩ | ⟨_, h⟩
      all_goals cases h
  · rintro ⟨more, hrest, hlist⟩
    rw [value, bind_of_ok (peek_eq c), hrest]
    exact bind_eq_ok_iff.2 ⟨(), _, rfl, map_eq_ok_iff.2 ⟨vs, hlist, rfl⟩⟩

theorem items_map_iff {α β : Type} {item : Reader α} {item' : Reader β} {g : α → β}
    (h : ∀ c a c', item' c = .ok (g a, c') ↔ item c = .ok (a, c')) {as : List α} :
    items item' n first c = .ok (as.map g, c') ↔ items item n first c = .ok (as, c') := by
  induction n generalizing first c as with
  | zero =>
    rw [items, items, pure_eq_ok_iff, pure_eq_ok_iff, eq_comm, List.map_eq_nil_iff, eq_comm]
  | succ n ih =>
    rw [items_succ_eq_ok_iff, items_succ_eq_ok_iff, List.map_eq_nil_iff]
    refine or_congr_right ⟨?_, ?_⟩
    · rintro ⟨c₁, b, c₂, more, hnext, hb, hmore, has⟩
      obtain ⟨a, as, rfl, rfl, rfl⟩ := List.map_eq_cons_iff.1 has
      exact ⟨c₁, a, c₂, as, hnext, (h _ _ _).1 hb, ih.1 hmore, rfl⟩
    · rintro ⟨c₁, a, c₂, more, hnext, ha, hmore, rfl⟩
      exact ⟨c₁, g a, c₂, _, hnext, (h _ _ _).2 ha, ih.2 hmore, rfl⟩

theorem value_strings_iff {ss : List String} :
    value (depth + 1) c = .ok (.strings ss, c') ↔ strings c = .ok (ss, c') := by
  have hlist : ∀ c, list (value depth) c = .ok (ss.map Value.string, c') ↔
      list string c = .ok (ss, c') := fun c => by
    rw [list, list, enclosed_eq_ok_iff, enclosed_eq_ok_iff]
    exact exists_congr fun _ => and_congr_left fun _ => items_map_iff fun _ _ _ => value_string_iff
  rw [Value.strings, value_array_iff]
  constructor
  · rintro ⟨more, hrest, h⟩
    exact bind_eq_ok_iff.2 ⟨_, _, start_eq_ok_iff.2 ⟨congrArg List.head? hrest, rfl⟩,
      bind_eq_ok_iff.2 ⟨(), _, rfl, (hlist _).1 h⟩⟩
  · intro h
    obtain ⟨b, c₁, hstart, h⟩ := bind_eq_ok_iff.1 h
    obtain ⟨hb, rfl⟩ := start_eq_ok_iff.1 hstart
    obtain ⟨more, hrest⟩ := List.head?_eq_some_iff.1 hb
    split at h
    · next ha =>
      subst ha
      obtain ⟨_, _, h₁, h⟩ := bind_eq_ok_iff.1 h
      cases h₁
      exact ⟨more, hrest, (hlist _).2 h⟩
    · exact absurd h (mismatch_ne_ok _ _ _ _)

end

/-! ## fields -/

section
variable {ρ : Type}

/-- what a value does to a structure, if it stands for the field of the name -/
abbrev Takes (ρ : Type) := String → Value → (ρ → ρ) → Prop

def Field.Follows (f : Field Reader ρ) (depth : Nat) (takes : Takes ρ) : Prop :=
  ∀ c v c₁, value depth c = .ok (v, c₁) → ∀ set c',
    f.read c = .ok (set, c') ↔ takes f.name v set ∧ c' = c₁

theorem Field.follows {α : Type} {reader : Reader α} {mk : α → Value} {put : α → ρ → ρ}
    {name : String} {absence : Absence} {depth : Nat} {takes : Takes ρ}
    (hreader : ∀ c a c', value depth c = .ok (mk a, c') ↔ reader c = .ok (a, c'))
    (htakes : ∀ v set, takes name v set ↔ ∃ a, v = mk a ∧ set = put a) :
    Field.Follows ⟨name, absence, put <$> reader⟩ depth takes := by
  intro c v c₁ hv set c'
  rw [map_eq_ok_iff, htakes]
  constructor
  · rintro ⟨a, ha, rfl⟩
    obtain ⟨rfl, rfl⟩ : v = mk a ∧ c₁ = c' := by
      have h := hv.symm.trans ((hreader _ _ _).2 ha)
      cases h
      exact ⟨rfl, rfl⟩
    exact ⟨⟨a, rfl, rfl⟩, rfl⟩
  · rintro ⟨⟨a, rfl, rfl⟩, rfl⟩
    exact ⟨a, (hreader _ _ _).1 hv, rfl⟩

/-! ## members -/

/-- the members `ms` make `r'` of the structure `r`, whose fields `seen` are set already -/
inductive Fills (takes : Takes ρ) (fields : List (Field Reader ρ)) :
    List String → ρ → Members → ρ → Prop where
  | done {seen : List String} {r : ρ} (h : missing? fields seen = none) :
    Fills takes fields seen r [] r
  | passed {seen : List String} {r r' : ρ} {name : String} {v : Value} {ms : Members}
    (hf : field? fields name = none) (h : Fills takes fields seen r ms r') :
    Fills takes fields seen r ((name, v) :: ms) r'
  | set {seen : List String} {r r' : ρ} {name : String} {v : Value} {ms : Members}
    {f : Field Reader ρ} {set : ρ → ρ} (hf : field? fields name = some f)
    (hseen : seen.contains name = false) (hset : takes f.name v set)
    (h : Fills takes fields (name :: seen) (set r) ms r') :
    Fills takes fields seen r ((name, v) :: ms) r'

variable {takes : Takes ρ} {fields : List (Field Reader ρ)} {depth n : Nat} {first : Bool}
  {seen : List String} {r r' : ρ} {c c' c₁ c₂ c₃ : Cursor} {ms : Members}
  {vs : List Value}

theorem fills_nil_iff : Fills takes fields seen r [] r' ↔ missing? fields seen = none ∧ r = r' := by
  constructor
  · rintro ⟨hm⟩
    exact ⟨hm, rfl⟩
  · rintro ⟨hm, rfl⟩
    exact .done hm

theorem fills_cons_of_none {name : String} {v : Value} (hf : field? fields name = none) :
    Fills takes fields seen r ((name, v) :: ms) r' ↔ Fills takes fields seen r ms r' := by
  refine ⟨fun h => ?_, .passed hf⟩
  cases h with
  | passed _ h => exact h
  | set hf' =>
    rw [hf] at hf'
    cases hf'

theorem fills_cons_of_some {name : String} {v : Value} {f : Field Reader ρ}
    (hf : field? fields name = some f) : Fills takes fields seen r ((name, v) :: ms) r' ↔
      name ∉ seen ∧ ∃ set, takes f.name v set ∧
        Fills takes fields (name :: seen) (set r) ms r' := by
  have hseen : seen.contains name = false ↔ name ∉ seen := by
    rw [List.contains_eq_mem, decide_eq_false_iff_not]
  constructor
  · intro h
    cases h with
    | passed hf' =>
      rw [hf] at hf'
      cases hf'
    | set hf' hs hset h =>
      rw [hf] at hf'
      cases hf'
      exact ⟨hseen.1 hs, _, hset, h⟩
  · rintro ⟨hs, set, hset, h⟩
    exact .set hf (hseen.2 hs) hset h

theorem fieldsByName_of_end (hnext : nextName first c = .ok (none, c₁)) :
    fieldsByName fields (n + 1) first seen r c = .ok (r', c') ↔
      (missing? fields seen = none ∧ r = r') ∧ c' = c₁ := by
  rw [fieldsByName, bind_of_ok hnext]
  cases missing? fields seen with
  | none =>
    dsimp only
    rw [pure_eq_ok_iff, eq_comm (a := c'), eq_self, true_and]
  | some name =>
    constructor
    · intro h
      cases h
    · rintro ⟨⟨h, -⟩, -⟩
      cases h

theorem fieldsByName_of_none {name : String} (hnext : nextName first c = .ok (some name, c₁))
    (hf : field? fields name = none) (hcolon : colon c₁ = .ok ((), c₂))
    (hskip : skip c₂ = .ok ((), c₃)) :
    fieldsByName fields (n + 1) first seen r c = fieldsByName fields n false seen r c₃ := by
  rw [fieldsByName, bind_of_ok hnext]
  dsimp only
  rw [hf]
  exact (bind_of_ok hcolon _).trans (bind_of_ok hskip _)

theorem fieldsByName_of_some {name : String} {f : Field Reader ρ}
    (hnext : nextName first c = .ok (some name, c₁)) (hf : field? fields name = some f)
    (hcolon : colon c₁ = .ok ((), c₂)) :
    fieldsByName fields (n + 1) first seen r c = .ok (r', c') ↔ name ∉ seen ∧ ∃ set c₃,
      f.read c₂ = .ok (set, c₃) ∧
        fieldsByName fields n false (name :: seen) (set r) c₃ = .ok (r', c') := by
  rw [fieldsByName, bind_of_ok hnext]
  dsimp only
  rw [hf]
  dsimp only
  by_cases hseen : name ∈ seen
  · rw [if_pos (List.contains_iff_mem.2 hseen)]
    refine ⟨fun h => ?_, fun h => absurd hseen h.1⟩
    cases h
  · rw [if_neg (mt List.contains_iff_mem.1 hseen), bind_of_ok hcolon, bind_eq_ok_iff,
      and_iff_right hseen]

/-- where the members can be read as values, the fields are set by them -/
theorem fieldsByName_iff_fills (hfields : ∀ f ∈ fields, f.Follows depth takes)
    (hn : c.rest.length < n) (hms : membersUpTo (value depth) n first c = .ok (ms, c₁)) :
    fieldsByName fields n first seen r c = .ok (r', c') ↔
      Fills takes fields seen r ms r' ∧ c' = c₁ := by
  induction n generalizing first seen r c ms with
  | zero => exact absurd hn (Nat.not_lt_zero _)
  | succ n ih =>
    rcases membersUpTo_succ_eq_ok_iff.1 hms with ⟨hnext, rfl⟩ |
      ⟨name, c₂, c₃, v, c₄, more, hnext, hcolon, hv, hmore, rfl⟩
    · rw [fieldsByName_of_end hnext, fills_nil_iff]
    have hlt : c₄.rest.length < n := by
      have h₁ := length_le_of_nextName hnext
      have h₂ := advances_colon.length_le hcolon
      have h₃ := length_lt_of_value hv
      omega
    cases hf : field? fields name with
    | none =>
      rw [fieldsByName_of_none hnext hf hcolon (skip_of_value hv), fills_cons_of_none hf]
      exact ih hlt hmore
    | some f =>
      have hread := hfields f (List.mem_of_find?_eq_some hf) _ _ _ hv
      rw [fieldsByName_of_some hnext hf hcolon, fills_cons_of_some hf, and_assoc]
      refine and_congr_right fun _ => ⟨?_, ?_⟩
      · rintro ⟨set, c₅, hset, h⟩
        obtain ⟨hset, rfl⟩ := (hread _ _).1 hset
        obtain ⟨h, rfl⟩ := (ih hlt hmore).1 h
        exact ⟨⟨set, hset, h⟩, rfl⟩
      · rintro ⟨⟨set, hset, h⟩, rfl⟩
        exact ⟨set, c₄, (hread _ _).2 ⟨hset, rfl⟩, (ih hlt hmore).2 ⟨h, rfl⟩⟩

theorem parseAs_iff_fills {text : Bytes} (hms : Writes text ms)
    (hfields : ∀ f ∈ fields, f.Follows (maxDepth - 1) takes) {name : String} :
    parseAs (record name fields r) text = .ok r' ↔ Fills takes fields [] r ms r' := by
  obtain ⟨gap, body, c, rfl, hgap, hms, hend⟩ := hms
  obtain ⟨c₁, hms, hclose⟩ := enclosed_eq_ok_iff.1 hms
  have hopen : (⟨0, gap ++ byte '\x7b' :: body⟩ : Cursor).skipWhile isSpace
      = ⟨gap.length, byte '\x7b' :: body⟩ := by
    rw [skipWhile_gap hgap (by decide), Nat.zero_add]
  have hbody : ∀ c', fieldsByName fields (body.length + 1) true [] r ⟨gap.length + 1, body⟩
      = .ok (r', c') ↔ Fills takes fields [] r ms r' ∧ c' = c₁ := fun c' =>
    fieldsByName_iff_fills hfields (Nat.lt_succ_self _) hms
  rw [parseAs_eq_ok_iff]
  constructor
  · rintro ⟨c', hrecord, -⟩
    rcases record_eq_ok_iff.1 hrecord with ⟨c₂, hstart, -⟩ | ⟨c₂, hstart, h⟩
    · obtain ⟨hb, -⟩ := start_eq_ok_iff.1 hstart
      rw [hopen] at hb
      exact absurd (Option.some.inj hb) (by decide)
    · obtain ⟨-, rfl⟩ := start_eq_ok_iff.1 hstart
      rw [hopen] at h
      obtain ⟨c₂, h, -⟩ := enclosed_eq_ok_iff.1 h
      exact ((hbody c₂).1 h).1
  · intro h
    refine ⟨c, record_eq_ok_iff.2 (.inr ⟨_, start_eq_ok_iff.2 ⟨?_, rfl⟩, ?_⟩), ended_iff.2 hend⟩
    · rw [hopen]
      rfl
    · rw [hopen]
      exact enclosed_eq_ok_iff.2 ⟨c₁, (hbody c₁).2 ⟨h, rfl⟩, hclose⟩

/-- what the members say of one field, whose value was `old`: the value `new`, once, or nothing if
the field has been set or can do without -/
def Gives {α : Type} (seen : List String) (name : String) (absence : Absence) (mk : α → Value)
    (ms : Members) (old new : α) : Prop :=
  (name ∉ seen ∧ ms.filter (·.1 = name) = [(name, mk new)]) ∨
    ((name ∈ seen ∨ absence ≠ .required) ∧ ms.filter (·.1 = name) = [] ∧ new = old)

section
variable {α : Type} {name : String} {absence : Absence} {mk : α → Value} {old new : α}

theorem gives_nil_iff : Gives seen name absence mk [] old new ↔
    (name ∈ seen ∨ absence ≠ .required) ∧ new = old := by
  rw [Gives, List.filter_nil, or_iff_right fun h => nomatch h.2]
  exact and_congr_right fun _ => and_iff_right rfl

theorem gives_cons_of_ne {other : String} (h : other ≠ name) (v : Value) :
    Gives seen name absence mk ((other, v) :: ms) old new ↔
      Gives seen name absence mk ms old new := by
  rw [Gives, Gives, List.filter_cons_of_neg (by simpa using h)]

theorem gives_seen_of_ne {other : String} (h : other ≠ name) :
    Gives (other :: seen) name absence mk ms old new ↔ Gives seen name absence mk ms old new := by
  rw [Gives, Gives, List.mem_cons, or_iff_right h.symm]

theorem gives_cons_self {v : Value} : Gives seen name absence mk ((name, v) :: ms) old new ↔
    name ∉ seen ∧ ∃ a, v = mk a ∧ Gives (name :: seen) name absence mk ms a new := by
  rw [Gives, List.filter_cons_of_pos (by simp)]
  constructor
  · rintro (⟨hseen, hms⟩ | ⟨_, hms, _⟩)
    · obtain ⟨hv, hms⟩ := List.cons.inj hms
      exact ⟨hseen, new, congrArg Prod.snd hv, .inr ⟨.inl List.mem_cons_self, hms, rfl⟩⟩
    · cases hms
  · rintro ⟨hseen, a, rfl, ⟨hnot, -⟩ | ⟨-, hms, rfl⟩⟩
    · exact absurd List.mem_cons_self hnot
    · exact .inl ⟨hseen, congrArg _ hms⟩

end

/-! ## items -/

/-- the items `vs` make `r'` of the structure `r` -/
inductive FillsInOrder (takes : Takes ρ) : List (Field Reader ρ) → ρ → List Value → ρ → Prop where
  | done {r : ρ} : FillsInOrder takes [] r [] r
  | set {f : Field Reader ρ} {fs : List (Field Reader ρ)} {r r' : ρ} {v : Value} {vs : List Value}
    {set : ρ → ρ} (hset : takes f.name v set) (h : FillsInOrder takes fs (set r) vs r') :
    FillsInOrder takes (f :: fs) r (v :: vs) r'
  | absent {f : Field Reader ρ} {fs : List (Field Reader ρ)} {r r' : ρ}
    (hf : f.absence = .defaulted) (h : FillsInOrder takes fs r [] r') :
    FillsInOrder takes (f :: fs) r [] r'

theorem fillsInOrder_nil_iff : FillsInOrder takes [] r vs r' ↔ vs = [] ∧ r = r' := by
  constructor
  · intro h
    cases h
    exact ⟨rfl, rfl⟩
  · rintro ⟨rfl, rfl⟩
    exact .done

theorem fillsInOrder_absent_iff {f : Field Reader ρ} : FillsInOrder takes (f :: fields) r [] r' ↔
    f.absence = .defaulted ∧ FillsInOrder takes fields r [] r' := by
  constructor
  · intro h
    cases h with
    | absent hf h => exact ⟨hf, h⟩
  · rintro ⟨hf, h⟩
    exact .absent hf h

theorem fillsInOrder_cons_iff {f : Field Reader ρ} {v : Value} :
    FillsInOrder takes (f :: fields) r (v :: vs) r' ↔
      ∃ set, takes f.name v set ∧ FillsInOrder takes fields (set r) vs r' := by
  constructor
  · intro h
    cases h with
    | set hset h => exact ⟨_, hset, h⟩
  · rintro ⟨set, hset, h⟩
    exact .set hset h

section
variable {name : String} {count k : Nat} {f : Field Reader ρ}

theorem orderedFields_of_end (hnext : nextItem (k = 0) c = .ok (false, c₁)) :
    enclosed listEnd (fieldsInOrder name count k (f :: fields) r) c = .ok (r', c') ↔
      f.absence = .defaulted ∧
        enclosed listEnd (fieldsInOrder name count (k + 1) fields r) c₁ = .ok (r', c') := by
  rw [enclosed_eq_ok_iff, enclosed_eq_ok_iff, fieldsInOrder, bind_of_ok hnext]
  by_cases hf : f.absence = .defaulted
  · rw [if_neg (by decide), if_pos hf, and_iff_right hf]
  · rw [if_neg (by decide), if_neg hf]
    refine ⟨fun h => ?_, fun h => absurd h.1 hf⟩
    obtain ⟨_, h, -⟩ := h
    cases h

theorem orderedFields_of_item (hnext : nextItem (k = 0) c = .ok (true, c₁)) :
    enclosed listEnd (fieldsInOrder name count k (f :: fields) r) c = .ok (r', c') ↔
      ∃ set c₂, f.read c₁ = .ok (set, c₂) ∧
        enclosed listEnd (fieldsInOrder name count (k + 1) fields (set r)) c₂ = .ok (r', c') := by
  rw [enclosed_eq_ok_iff, fieldsInOrder, bind_of_ok hnext, if_pos rfl]
  constructor
  · rintro ⟨c₂, h, hclose⟩
    obtain ⟨set, c₃, hset, h⟩ := bind_eq_ok_iff.1 h
    exact ⟨set, c₃, hset, enclosed_eq_ok_iff.2 ⟨c₂, h, hclose⟩⟩
  · rintro ⟨set, c₃, hset, h⟩
    obtain ⟨c₂, h, hclose⟩ := enclosed_eq_ok_iff.1 h
    exact ⟨c₂, bind_eq_ok_iff.2 ⟨set, c₃, hset, h⟩, hclose⟩

theorem noFields_eq_ok_iff :
    enclosed listEnd (fieldsInOrder name count k [] r) c = .ok (r', c') ↔
      r = r' ∧ listEnd c = (none, c') := by
  rw [enclosed_eq_ok_iff]
  constructor
  · rintro ⟨c₁, h, hclose⟩
    obtain ⟨rfl, rfl⟩ := pure_eq_ok_iff.1 h
    exact ⟨rfl, hclose⟩
  · rintro ⟨rfl, hclose⟩
    exact ⟨c, rfl, hclose⟩

theorem fieldsInOrder_of_ends (h : Ends .array c) (hclose : listEnd c = (none, c₂)) :
    enclosed listEnd (fieldsInOrder name count k fields r) c = .ok (r', c') ↔
      FillsInOrder takes fields r [] r' ∧ c' = c₂ := by
  induction fields generalizing k c with
  | nil =>
    rw [noFields_eq_ok_iff, fillsInOrder_nil_iff, hclose, Prod.mk.injEq, eq_comm (a := c')]
    simp only [true_and]
  | cons f fields ih =>
    rw [orderedFields_of_end (nextItem_of_ends h _), fillsInOrder_absent_iff, and_assoc]
    exact and_congr_right fun _ => ih h.skipWhile ((listEnd_skipWhile c).trans hclose)

theorem fieldsInOrder_iff_fills (hfields : ∀ f ∈ fields, f.Follows depth takes)
    (hn : c.rest.length < n) (hvs : items (value depth) n (k = 0) c = .ok (vs, c₁))
    (hclose : listEnd c₁ = (none, c₂)) :
    enclosed listEnd (fieldsInOrder name count k fields r) c = .ok (r', c') ↔
      FillsInOrder takes fields r vs r' ∧ c' = c₂ := by
  induction n generalizing fields k r c vs with
  | zero => exact absurd hn (Nat.not_lt_zero _)
  | succ n ih =>
    rcases items_succ_eq_ok_iff.1 hvs with ⟨hnext, rfl⟩ | ⟨c₃, v, c₄, more, hnext, hv, hmore, rfl⟩
    · obtain ⟨-, hends, rfl⟩ | ⟨h, -⟩ := nextItem_eq_ok hnext
      · exact fieldsInOrder_of_ends hends ((listEnd_skipWhile c).symm.trans hclose)
      · cases h
    · obtain ⟨h, -⟩ | ⟨-, hstarts⟩ := nextItem_eq_ok hnext
      · cases h
      cases fields with
      | nil =>
        rw [noFields_eq_ok_iff, fillsInOrder_nil_iff]
        refine ⟨fun h => absurd (listEnd_eq_none h.2).1 hstarts.not_ends, fun h => ?_⟩
        cases h.1.1
      | cons f fields =>
        obtain ⟨hf, hfields⟩ := List.forall_mem_cons.1 hfields
        have hread := hf _ _ _ hv
        have hlt : c₄.rest.length < n := by
          have h₁ := hstarts.length_le
          have h₂ := length_lt_of_value hv
          omega
        have hrest := fun set : ρ → ρ => ih (k := k + 1) (r := set r) hfields hlt hmore
        rw [orderedFields_of_item hnext, fillsInOrder_cons_iff]
        constructor
        · rintro ⟨set, c₅, hset, h⟩
          obtain ⟨hset, rfl⟩ := (hread _ _).1 hset
          obtain ⟨h, rfl⟩ := (hrest set).1 h
          exact ⟨⟨set, hset, h⟩, rfl⟩
        · rintro ⟨⟨set, hset, h⟩, rfl⟩
          exact ⟨set, c₄, (hread _ _).2 ⟨hset, rfl⟩, (hrest set).2 ⟨h, rfl⟩⟩

end

theorem parseAs_iff_fillsInOrder {text : Bytes} (hvs : parse text = .ok (.array vs))
    (hfields : ∀ f ∈ fields, f.Follows (maxDepth - 1) takes) {name : String} :
    parseAs (record name fields r) text = .ok r' ↔ FillsInOrder takes fields r vs r' := by
  obtain ⟨c, hvalue, hend⟩ := parseAs_eq_ok_iff.1 hvs
  obtain ⟨more, hrest, hlist⟩ := value_array_iff.1 hvalue
  have hhead := congrArg List.head? hrest
  obtain ⟨c₁, hitems, hclose⟩ := enclosed_eq_ok_iff.1 hlist
  have hbody : ∀ c', enclosed listEnd (fieldsInOrder name fields.length 0 fields r)
      (((⟨0, text⟩ : Cursor).skipWhile isSpace).advance 1) = .ok (r', c') ↔
        FillsInOrder takes fields r vs r' ∧ c' = c := fun c' =>
    fieldsInOrder_iff_fills hfields (Nat.lt_succ_self _) hitems hclose
  rw [parseAs_eq_ok_iff]
  constructor
  · rintro ⟨c', hrecord, -⟩
    rcases record_eq_ok_iff.1 hrecord with ⟨c₂, hstart, h⟩ | ⟨c₂, hstart, -⟩
    · obtain ⟨-, rfl⟩ := start_eq_ok_iff.1 hstart
      exact ((hbody c').1 h).1
    · obtain ⟨hb, -⟩ := start_eq_ok_iff.1 hstart
      rw [hhead] at hb
      exact absurd (Option.some.inj hb) (by decide)
  · intro h
    exact ⟨c, record_eq_ok_iff.2 (.inl ⟨_, start_eq_ok_iff.2 ⟨hhead, rfl⟩, (hbody c).2 ⟨h, rfl⟩⟩),
      hend⟩

end

end Federation.Json
