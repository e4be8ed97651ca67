import Federation.Boundary.Basic
import Federation.Proofs.Json.Filled

/-!
# Trust boundaries as texts

A boundary is written as an object with two members and read from many more texts: the members may
stand in any order and among others, with blanks and escapes as one likes, the locations may be
missing, and the two values may stand in an array without their names.  What has been written is
read back as it was, so it is no matter from which of these texts a boundary came.

* `Boundary.Spells`          the members that say what a boundary is;
* `Boundary.fills_iff`       they are those that make it;
* `Boundary.survives_json`   a boundary is read back from its text, and the texts that a boundary can
                             be read from.
-/

namespace Federation.Boundary

open Json (Gives)

/-- what the value of a field does to a boundary -/
inductive Says : Json.Takes Boundary where
  | locations (l : List String) : Says "locations" (.strings l) fun b => { b with locations := l }
  | encoded (e : String) : Says "encodedLocations" (.string e) fun b => { b with encoded := e }

variable {f : Json.Field Json.Reader Boundary} {name : String} {v : Json.Value}
  {set : Boundary → Boundary} {seen : List String} {ms : Json.Members} {vs : List Json.Value}
  {b r : Boundary}

theorem says_locations_iff :
    Says "locations" v set ↔ ∃ l, v = .strings l ∧ set = fun b => { b with locations := l } := by
  constructor
  · intro h
    generalize hname : "locations" = name at h
    cases h with
    | locations l => exact ⟨l, rfl, rfl⟩
    | encoded e => exact absurd hname (by decide)
  · rintro ⟨l, rfl, rfl⟩
    exact .locations l

theorem says_encoded_iff :
    Says "encodedLocations" v set ↔ ∃ e, v = .string e ∧ set = fun b => { b with encoded := e } := by
  constructor
  · intro h
    generalize hname : "encodedLocations" = name at h
    cases h with
    | locations l => exact absurd hname (by decide)
    | encoded e => exact ⟨e, rfl, rfl⟩
  · rintro ⟨e, rfl, rfl⟩
    exact .encoded e

theorem follows_says (hf : f ∈ fields) (depth : Nat) : f.Follows (depth + 1) Says := by
  obtain rfl | hf := List.mem_cons.1 hf
  · exact Json.Field.follows (fun _ _ _ => Json.value_strings_iff) fun _ _ => says_locations_iff
  · obtain rfl := List.mem_singleton.1 hf
    exact Json.Field.follows (fun _ _ _ => Json.value_string_iff) fun _ _ => says_encoded_iff

/-! ## objects -/

/-- the members of a text say that the boundary is `b`: the encoded form stands there once, and so do
the locations unless there are none -/
structure Spells (ms : Json.Members) (b : Boundary) : Prop where
  encoded : ms.filter (·.1 = "encodedLocations") = [("encodedLocations", .string b.encoded)]
  locations : ms.filter (·.1 = "locations") = [("locations", .strings b.locations)] ∨
    (ms.filter (·.1 = "locations") = [] ∧ b.locations = [])

theorem spells_iff : Spells ms b ↔
    Gives [] "locations" .defaulted .strings ms [] b.locations ∧
    Gives [] "encodedLocations" .required .string ms "" b.encoded := by
  rw [Gives, Gives]
  constructor
  · rintro ⟨he, hl⟩
    exact ⟨hl.imp (⟨List.not_mem_nil, ·⟩) (⟨.inr (by decide), ·⟩), .inl ⟨List.not_mem_nil, he⟩⟩
  · rintro ⟨hl, ⟨-, he⟩ | ⟨hnone, -⟩⟩
    · exact ⟨he, hl.imp And.right And.right⟩
    · exact (hnone.elim List.not_mem_nil fun h => h rfl).elim

theorem missing?_fields : Json.missing? fields seen = none ↔ "encodedLocations" ∈ seen := by
  rw [Json.missing?, Option.map_eq_none_iff, List.find?_eq_none]
  simp [fields]

theorem field?_fields_of_ne (hl : name ≠ "locations") (he : name ≠ "encodedLocations") :
    Json.field? fields name = none := by
  rw [Json.field?, List.find?_eq_none]
  simp [fields, hl.symm, he.symm]

/-- the members make a boundary of what there was if they give its fields, in any order -/
theorem fills_iff : Json.Fills Says fields seen r ms b ↔
    Gives seen "locations" .defaulted .strings ms r.locations b.locations ∧
    Gives seen "encodedLocations" .required .string ms r.encoded b.encoded := by
  induction ms generalizing seen r with
  | nil =>
    rw [Json.fills_nil_iff, Json.gives_nil_iff, Json.gives_nil_iff, missing?_fields]
    constructor
    · rintro ⟨hseen, rfl⟩
      exact ⟨⟨.inr (by decide), rfl⟩, .inl hseen, rfl⟩
    · rintro ⟨⟨-, hl⟩, hseen, he⟩
      refine ⟨hseen.resolve_right fun h => h rfl, ?_⟩
      cases r
      cases b
      cases hl
      cases he
      rfl
  | cons m ms ih =>
    obtain ⟨name, v⟩ := m
    by_cases hl : name = "locations"
    · subst hl
      rw [Json.fills_cons_of_some rfl, Json.gives_cons_self, Json.gives_cons_of_ne (by decide)]
      constructor
      · rintro ⟨hseen, set, hset, h⟩
        obtain ⟨l, rfl, rfl⟩ := says_locations_iff.1 hset
        obtain ⟨hl, he⟩ := ih.1 h
        exact ⟨⟨hseen, l, rfl, hl⟩, (Json.gives_seen_of_ne (by decide)).1 he⟩
      · rintro ⟨⟨hseen, l, rfl, hl⟩, he⟩
        exact ⟨hseen, _, .locations l, ih.2 ⟨hl, (Json.gives_seen_of_ne (by decide)).2 he⟩⟩
    by_cases he : name = "encodedLocations"
    · subst he
      rw [Json.fills_cons_of_some rfl, Json.gives_cons_self, Json.gives_cons_of_ne (by decide)]
      constructor
      · rintro ⟨hseen, set, hset, h⟩
        obtain ⟨e, rfl, rfl⟩ := says_encoded_iff.1 hset
        obtain ⟨hl, he⟩ := ih.1 h
        exact ⟨(Json.gives_seen_of_ne (by decide)).1 hl, hseen, e, rfl, he⟩
      · rintro ⟨hl, hseen, e, rfl, he⟩
        exact ⟨hseen, _, .encoded e, ih.2 ⟨(Json.gives_seen_of_ne (by decide)).2 hl, he⟩⟩
    rw [Json.fills_cons_of_none (field?_fields_of_ne hl he), Json.gives_cons_of_ne hl,
      Json.gives_cons_of_ne he, ih]

theorem parse_iff_spells {text : Bytes} (h : Json.Writes text ms) :
    parse text = .ok b ↔ Spells ms b := by
  rw [parse, reader, Json.parseAs_iff_fills h fun f hf => follows_says hf 125, fills_iff, spells_iff]

/-! ## arrays -/

theorem fillsInOrder_iff :
    Json.FillsInOrder Says fields r vs b ↔ vs = [.strings b.locations, .string b.encoded] := by
  constructor
  · intro h
    cases h with
    | set hlocations h =>
      obtain ⟨l, rfl, rfl⟩ := says_locations_iff.1 hlocations
      cases h with
      | set hencoded h =>
        obtain ⟨e, rfl, rfl⟩ := says_encoded_iff.1 hencoded
        cases h
        rfl
      | absent hf => cases hf
    | absent _ h =>
      cases h with
      | absent hf => cases hf
  · rintro rfl
    exact .set (.locations b.locations) (.set (.encoded b.encoded) .done)

theorem parse_iff_items {text : Bytes} (h : Json.parse text = .ok (.array vs)) :
    parse text = .ok b ↔ vs = [.strings b.locations, .string b.encoded] := by
  rw [parse, reader, Json.parseAs_iff_fillsInOrder h fun f hf => follows_says hf 125,
    fillsInOrder_iff]

/-! ## the text of a boundary -/

def toMembers (b : Boundary) : Json.Members :=
  [("locations", .strings b.locations), ("encodedLocations", .string b.encoded)]

theorem spells_toMembers (b : Boundary) : Spells b.toMembers b where
  encoded := rfl
  locations := .inl rfl

theorem writes_render (b : Boundary) : Json.Writes (Utf8.encode b.render) b.toMembers := by
  have hmembers : ∀ m ∈ b.toMembers, m.2.Returns (Json.maxDepth - 1) m.2 := by
    refine List.forall_mem_cons.2 ⟨fun rest _ => ?_, List.forall_mem_singleton.2 fun rest _ => ?_⟩
    · exact Json.reads_compact_strings b.locations rest
    · exact Json.reads_compact_string b.encoded rest
  have hread := Json.reads_compact_members hmembers [] 1
  rw [List.append_nil, show b.toMembers.map (fun m => (m.1, m.2)) = b.toMembers from rfl] at hread
  have hnone : ∀ c ∈ ([] : Bytes), Json.isSpace c = true := fun _ h => absurd h List.not_mem_nil
  rw [render, toJson, Json.encode_compact_object]
  exact ⟨[], _, _, rfl, hnone, hread, hnone⟩

theorem parse_render (b : Boundary) : parse (Utf8.encode b.render) = .ok b :=
  (parse_iff_spells (writes_render b)).2 (spells_toMembers b)

/-- A boundary is read back from its text as it was, so one that has been read from any text stays
the same, and so do its text and what is sent along with requests.  An object says what the boundary
is by its members of the two names, in any order, with any others and whatever their escapes and
blanks are; an array says it by having just the two values. -/
theorem survives_json :
    (∀ b : Boundary, parse (Utf8.encode b.render) = .ok b) ∧
    (∀ text b, parse text = .ok b → ∃ b', parse (Utf8.encode b.render) = .ok b' ∧ b' = b ∧
      b'.render = b.render ∧ b'.isNoOp = b.isNoOp ∧ b'.header? = b.header?) ∧
    (∀ text ms, Json.Writes text ms → ∀ b, parse text = .ok b ↔ Spells ms b) ∧
    (∀ text vs, Json.parse text = .ok (.array vs) → ∀ b,
      parse text = .ok b ↔ vs = [.strings b.locations, .string b.encoded]) := by
  refine ⟨parse_render, fun text b _ => ?_, fun text ms h b => parse_iff_spells h,
    fun text vs h b => parse_iff_items h⟩
  exact ⟨b, parse_render b, rfl, rfl, rfl, rfl⟩

end Federation.Boundary
