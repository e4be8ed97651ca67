import Federation.Json.Decode

/-!
# The order of members

An object that has been read holds its members in the order of their names, one for each name, and
so does every object inside it.

* `Json.sorted_ofList`        members that are put in one by one;
* `Json.ordered_of_parse`     all that is read from a text;
* `Json.Decode.record_keeps`  what structures keep that are made of ordered values.
-/

namespace Federation

theorem ok_of_bind {ε α β : Type} {x : Except ε α} {f : α → Except ε β} {b : β}
    (h : x >>= f = .ok b) : ∃ a, x = .ok a ∧ f a = .ok b := by
  cases x with
  | error e => cases h
  | ok a => exact ⟨a, rfl, h⟩

theorem ok_of_mapError {ε ε' α : Type} {x : Except ε α} {f : ε → ε'} {a : α}
    (h : x.mapError f = .ok a) : x = .ok a := by
  cases x with
  | error e => cases h
  | ok b =>
    cases h
    rfl

namespace Json

/-! ## members -/

/-- the members stand in the order of their names, each name once -/
def Sorted {α : Type} (ms : List (String × α)) : Prop := ms.Pairwise (·.1 < ·.1)

variable {α : Type}

theorem mem_insert {name : String} {v : α} {ms : List (String × α)} {m : String × α}
    (hm : m ∈ insert name v ms) : m = (name, v) ∨ m ∈ ms := by
  induction ms with
  | nil => exact .inl (List.mem_singleton.1 hm)
  | cons k ms ih =>
    rw [insert] at hm
    split at hm
    · exact List.mem_cons.1 hm
    · split at hm
      · rcases List.mem_cons.1 hm with rfl | hm
        · exact .inr List.mem_cons_self
        · exact (ih hm).imp_right (List.mem_cons_of_mem _)
      · exact (List.mem_cons.1 hm).imp_right (List.mem_cons_of_mem _)

theorem Sorted.insert {ms : List (String × α)} (h : Sorted ms) (name : String) (v : α) :
    Sorted (insert name v ms) := by
  induction ms with
  | nil => exact List.pairwise_singleton _ _
  | cons k ms ih =>
    obtain ⟨hk, hms⟩ := List.pairwise_cons.1 h
    rw [Json.insert]
    split
    · next hlt =>
      refine List.pairwise_cons.2 ⟨fun m hm => ?_, h⟩
      rcases List.mem_cons.1 hm with rfl | hm
      · exact hlt
      · exact String.lt_trans hlt (hk m hm)
    · next hle =>
      split
      · next hlt =>
        refine List.pairwise_cons.2 ⟨fun m hm => ?_, ih hms⟩
        rcases mem_insert hm with rfl | hm
        · exact hlt
        · exact hk m hm
      · next hge =>
        have he : name = k.1 := String.le_antisymm hge hle
        exact List.pairwise_cons.2 ⟨fun m hm => he ▸ hk m hm, hms⟩

theorem sorted_ofList (ms : List (String × α)) : Sorted (ofList ms) := by
  have hall : ∀ (ms acc : List (String × α)), Sorted acc →
      Sorted (ms.foldl (fun acc m => Json.insert m.1 m.2 acc) acc) := by
    intro ms
    induction ms with
    | nil => exact fun acc h => h
    | cons m ms ih => exact fun acc h => ih _ (h.insert m.1 m.2)
  exact hall ms [] List.Pairwise.nil

/-! ## values -/

/-- the members of every object in the value are sorted -/
inductive Value.Ordered : Value → Prop where
  | null : Ordered .null
  | bool (b : Bool) : Ordered (.bool b)
  | number (n : Number) : Ordered (.number n)
  | string (s : String) : Ordered (.string s)
  | array {items : List Value} (h : ∀ v ∈ items, Ordered v) : Ordered (.array items)
  | object {ms : Members} (hs : Sorted ms) (h : ∀ m ∈ ms, Ordered m.2) : Ordered (.object ms)

theorem mem_ofList {ms : List (String × α)} {m : String × α} (hm : m ∈ ofList ms) : m ∈ ms := by
  have hall : ∀ (ms acc : List (String × α)),
      m ∈ ms.foldl (fun acc m => insert m.1 m.2 acc) acc → m ∈ acc ∨ m ∈ ms := by
    intro ms
    induction ms with
    | nil => exact fun acc h => .inl h
    | cons k ms ih =>
      intro acc h
      rcases ih _ h with h | h
      · rcases mem_insert h with rfl | h
        · exact .inr List.mem_cons_self
        · exact .inl h
      · exact .inr (List.mem_cons_of_mem _ h)
  exact (hall ms [] hm).resolve_left List.not_mem_nil

theorem Value.Ordered.ofList {ms : Members} (h : ∀ m ∈ ms, m.2.Ordered) :
    (Value.object (ofList ms)).Ordered :=
  .object (sorted_ofList ms) fun m hm => h m (mem_ofList hm)

theorem Value.Ordered.of_present? {ms : Members} (h : (Value.object ms).Ordered) {name : String}
    {v : Value} (hv : present? ms name = some v) : v.Ordered := by
  cases h with
  | object _ hms =>
    obtain ⟨hg, _⟩ := Option.filter_eq_some_iff.1 hv
    obtain ⟨m, hm, rfl⟩ := Option.map_eq_some_iff.1 hg
    exact hms m (List.mem_of_find?_eq_some hm)

/-! ## readers -/

/-- whatever the reader takes off a text has the property -/
def Yields (P : α → Prop) (r : Reader α) : Prop := ∀ c a c', r c = .ok (a, c') → P a

section
variable {β : Type} {P : β → Prop} {Q : α → Prop}

theorem yields_fail (f : Cursor → Fault) : Yields P (fail f) := fun _ _ _ h => nomatch h

theorem yields_pure {b : β} (h : P b) : Yields P (pure b : Reader β) := by
  intro c b' c' he
  cases he
  exact h

theorem Yields.bind {r : Reader α} (hr : Yields Q r) {f : α → Reader β}
    (hf : ∀ a, Q a → Yields P (f a)) : Yields P (r >>= f) := by
  intro c b c'' h
  change (r c >>= fun x => f x.1 x.2) = _ at h
  rcases hc : r c with fault | ⟨a, c'⟩
  · rw [hc] at h
    cases h
  · rw [hc] at h
    exact hf a (hr c a c' hc) c' b c'' h

theorem yields_bind {r : Reader α} {f : α → Reader β} (hf : ∀ a, Yields P (f a)) :
    Yields P (r >>= f) :=
  Yields.bind (Q := fun _ => True) (fun _ _ _ _ => trivial) fun a _ => hf a

theorem Yields.map {r : Reader α} (hr : Yields Q r) {f : α → β} (hf : ∀ a, Q a → P (f a)) :
    Yields P (f <$> r) := by
  rw [map_eq_pure_bind]
  exact hr.bind fun a ha => yields_pure (hf a ha)

theorem yields_map {r : Reader α} {f : α → β} (hf : ∀ a, P (f a)) : Yields P (f <$> r) :=
  Yields.map (Q := fun _ => True) (fun _ _ _ _ => trivial) fun a _ => hf a

theorem Yields.enclosed {body : Reader β} (h : Yields P body) (close : Closing) :
    Yields P (enclosed close body) := by
  intro c b c' he
  rw [Json.enclosed] at he
  split at he
  · next hb =>
    split at he
    · cases he
      exact h _ _ _ hb
    · cases he
  · cases he
  · cases he

/-! ## containers -/

theorem Yields.items {item : Reader β} (h : Yields P item) (n : Nat) :
    ∀ first, Yields (fun l => ∀ b ∈ l, P b) (items item n first) := by
  induction n with
  | zero => exact fun _ => yields_pure fun _ hb => absurd hb List.not_mem_nil
  | succ n ih =>
    intro first
    rw [Json.items]
    refine yields_bind fun another => ?_
    split
    · refine h.bind fun b hb => (ih false).bind fun l hl => yields_pure ?_
      exact List.forall_mem_cons.2 ⟨hb, hl⟩
    · exact yields_pure fun _ hb => absurd hb List.not_mem_nil

theorem Yields.list {item : Reader β} (h : Yields P item) :
    Yields (fun l => ∀ b ∈ l, P b) (list item) :=
  fun c b c' he => (h.items (c.rest.length + 1) true).enclosed listEnd c b c' he

theorem Yields.membersUpTo {item : Reader β} (h : Yields P item) (n : Nat) :
    ∀ first, Yields (fun l => ∀ m ∈ l, P m.2) (membersUpTo item n first) := by
  induction n with
  | zero => exact fun _ => yields_pure fun _ hm => absurd hm List.not_mem_nil
  | succ n ih =>
    intro first
    rw [Json.membersUpTo]
    refine yields_bind fun name => ?_
    cases name with
    | none => exact yields_pure fun _ hm => absurd hm List.not_mem_nil
    | some name =>
      refine yields_bind fun _ => h.bind fun b hb => (ih false).bind fun l hl => yields_pure ?_
      exact List.forall_mem_cons.2 ⟨hb, hl⟩

theorem Yields.members {item : Reader β} (h : Yields P item) :
    Yields (fun l => ∀ m ∈ l, P m.2) (members item) :=
  fun c b c' he => (h.membersUpTo (c.rest.length + 1) true).enclosed objectEnd c b c' he

end

/-! ## texts -/

theorem yields_scalar (b : UInt8) : Yields Value.Ordered (scalar b) := by
  rw [scalar]
  split
  · exact yields_bind fun _ => yields_bind fun _ => yields_pure .null
  split
  · exact yields_bind fun _ => yields_bind fun _ => yields_pure (.bool true)
  split
  · exact yields_bind fun _ => yields_bind fun _ => yields_pure (.bool false)
  split
  · exact yields_bind fun _ => yields_map .number
  split
  · exact yields_map .number
  split
  · exact yields_bind fun _ => yields_map .string
  · exact yields_fail _

theorem yields_value (depth : Nat) : Yields Value.Ordered (value depth) := by
  induction depth with
  | zero =>
    rw [value]
    refine yields_bind fun o => ?_
    cases o with
    | none => exact yields_fail _
    | some b =>
      dsimp only
      split
      · exact yields_fail _
      split
      · exact yields_fail _
      · exact yields_scalar b
  | succ depth ih =>
    rw [value]
    refine yields_bind fun o => ?_
    cases o with
    | none => exact yields_fail _
    | some b =>
      dsimp only
      split
      · exact yields_bind fun _ => ih.list.map fun _ h => .array h
      split
      · exact yields_bind fun _ => ih.members.map fun _ h => .ofList h
      · exact yields_scalar b

theorem ordered_of_parse {text : Bytes} {v : Value} (h : parse text = .ok v) : v.Ordered := by
  rw [parse, parseAs] at h
  split at h
  · next hread =>
    cases h
    refine Yields.bind (P := Value.Ordered) (yields_value maxDepth)
      (fun v hv => yields_bind fun o => ?_) _ _ _ hread
    cases o with
    | none => exact yields_pure hv
    | some b => exact yields_fail _
  · cases h

/-! ## structures -/

namespace Decode

variable {ρ : Type} {P : ρ → Prop} {fields : List (Field Decoder ρ)}

/-- a structure with the property still has it when the field is set to an ordered value -/
def Keeps (P : ρ → Prop) (f : Field Decoder ρ) : Prop :=
  ∀ v set, v.Ordered → f.read v = .ok set → ∀ r, P r → P (set r)

theorem fieldsByName_keeps (hf : ∀ f ∈ fields, Keeps P f) {ms : Members} :
    ∀ {seen : List String} {r r' : ρ}, (∀ m ∈ ms, m.2.Ordered) → P r →
      fieldsByName fields ms seen r = .ok r' → P r' := by
  induction ms with
  | nil =>
    intro seen r r' _ hr h
    rw [fieldsByName] at h
    split at h <;> cases h
    exact hr
  | cons m ms ih =>
    intro seen r r' hms hr h
    obtain ⟨hm, hms⟩ := List.forall_mem_cons.1 hms
    rw [fieldsByName] at h
    split at h
    · exact ih hms hr h
    · next f hfind =>
      obtain ⟨set, hset, h⟩ := ok_of_bind h
      have hmem : f ∈ fields := List.mem_of_find?_eq_some hfind
      exact ih hms (hf f hmem _ set hm hset r hr) h

theorem fieldsInOrder_keeps (hf : ∀ f ∈ fields, Keeps P f) (record : String)
    (all : List (Field Decoder ρ)) (items₀ : List Value) :
    ∀ {items : List Value} {k : Nat} {r r' : ρ}, (∀ v ∈ items, v.Ordered) → P r →
      fieldsInOrder.go record all items₀ k fields items r = .ok r' → P r' := by
  induction fields with
  | nil =>
    intro items k r r' _ hr h
    cases items with
    | nil =>
      cases h
      exact hr
    | cons v vs => cases h
  | cons f fs ih =>
    obtain ⟨hf, hfs⟩ := List.forall_mem_cons.1 hf
    intro items k r r' hitems hr h
    cases items with
    | nil =>
      rw [fieldsInOrder.go] at h
      split at h
      · exact ih hfs hitems hr h
      · cases h
    | cons v vs =>
      obtain ⟨hv, hvs⟩ := List.forall_mem_cons.1 hitems
      obtain ⟨set, hset, h⟩ := ok_of_bind h
      exact ih hfs hvs (hf v set hv hset r hr) h

theorem record_keeps (hf : ∀ f ∈ fields, Keeps P f) {name : String} {blank r : ρ} {v : Value}
    (hv : v.Ordered) (hblank : P blank) (h : record name fields blank v = .ok r) : P r := by
  cases hv with
  | object hs hms => exact fieldsByName_keeps hf hms hblank h
  | array hitems => exact fieldsInOrder_keeps hf name fields _ hitems hblank h
  | _ => cases h

end Decode

end Json

end Federation
