import Mathlib.Data.List.Induction
import Federation.Proofs.Json.Order

/-!
# Members as a map

A list of members with one member for each name is a map, and `ofList` is its list in order: it does
not matter in which order the members were put in.  A reader of structures takes the members one by
one, so what it makes of a list is known from what it makes of the parts.

* `Json.ofList_eq_of_perm`      the list in order of members that stand in any order;
* `Json.Decode.Takes.append`    a list of members that is read part by part;
* `Json.Decode.Takes.record`    and a whole object.
-/

namespace Federation.Json

/-! ## the list in order -/

section
variable {α : Type} {ms ms' : List (String × α)}

theorem perm_insert {name : String} (v : α) (h : ∀ m ∈ ms, m.1 ≠ name) :
    (insert name v ms).Perm ((name, v) :: ms) := by
  induction ms with
  | nil => exact .refl _
  | cons m ms ih =>
    obtain ⟨hm, hms⟩ := List.forall_mem_cons.1 h
    rw [insert]
    split
    · exact .refl _
    · next hle =>
      have hlt : m.1 < name := by
        by_contra hge
        exact hm (String.le_antisymm hle hge)
      rw [if_pos hlt]
      exact ((ih hms).cons m).trans (.swap _ _ _)

theorem ofList_concat (ms : List (String × α)) (m : String × α) :
    ofList (ms ++ [m]) = insert m.1 m.2 (ofList ms) := by
  rw [ofList, List.foldl_append]
  rfl

theorem perm_ofList (h : (ms.map Prod.fst).Nodup) : (ofList ms).Perm ms := by
  induction ms using List.reverseRecOn with
  | nil => exact .refl _
  | append_singleton ms m ih =>
    rw [List.map_append, List.nodup_append] at h
    obtain ⟨hms, _, hne⟩ := h
    have hnew : ∀ k ∈ ofList ms, k.1 ≠ m.1 := fun k hk =>
      hne _ (List.mem_map_of_mem (mem_ofList hk)) _ (List.mem_singleton_self _)
    rw [ofList_concat]
    exact ((perm_insert m.2 hnew).trans ((ih hms).cons m)).trans
      (List.perm_append_singleton m ms).symm

theorem Sorted.nodup (h : Sorted ms) : (ms.map Prod.fst).Nodup := by
  refine List.pairwise_map.2 (h.imp fun {m k} hlt he => ?_)
  rw [he] at hlt
  exact String.lt_irrefl _ hlt

theorem Sorted.eq_of_perm (h : Sorted ms) (h' : Sorted ms') (hp : ms.Perm ms') : ms = ms' :=
  List.Perm.eq_of_pairwise (fun _ _ _ _ hlt hgt => absurd hgt (String.lt_asymm hlt)) h h' hp

theorem ofList_eq_of_perm (hp : ms.Perm ms') (h : Sorted ms') : ofList ms = ms' := by
  have hnodup : (ms.map Prod.fst).Nodup := (hp.map Prod.fst).nodup_iff.2 h.nodup
  exact (sorted_ofList ms).eq_of_perm h ((perm_ofList hnodup).trans hp)

/-- the members are sorted, and all their names come after `low` -/
def SortedAfter (low : String) (ms : List (String × α)) : Prop :=
  Sorted ms ∧ ∀ m ∈ ms, low < m.1

theorem sortedAfter_nil (low : String) : SortedAfter low ([] : List (String × α)) :=
  ⟨.nil, nofun⟩

theorem SortedAfter.cons {low name : String} {v : α} (hlt : low < name)
    (h : SortedAfter name ms) : SortedAfter low ((name, v) :: ms) := by
  refine ⟨List.pairwise_cons.2 ⟨h.2, h.1⟩, List.forall_mem_cons.2 ⟨hlt, fun m hm => ?_⟩⟩
  exact String.lt_trans hlt (h.2 m hm)

theorem SortedAfter.mono {low low' : String} (hlt : low < low') (h : SortedAfter low' ms) :
    SortedAfter low ms :=
  ⟨h.1, fun m hm => String.lt_trans hlt (h.2 m hm)⟩

end

/-! ## reading structures -/

namespace Decode

variable {ρ : Type} {fields : List (Field Decoder ρ)} {ms ms' : Members} {r r' r'' : ρ}

/-- reading the members `ms` turns the structure `r` into `r'`, whatever follows them -/
def Takes (fields : List (Field Decoder ρ)) (ms : Members) (r r' : ρ) : Prop :=
  ∀ rest seen, fieldsByName fields (ms ++ rest) seen r =
    fieldsByName fields rest ((ms.map Prod.fst).reverse ++ seen) r'

theorem Takes.nil (r : ρ) : Takes fields [] r r := fun _ _ => rfl

theorem Takes.append (h : Takes fields ms r r') (h' : Takes fields ms' r' r'') :
    Takes fields (ms ++ ms') r r'' := by
  intro rest seen
  rw [List.append_assoc, h, h', List.map_append, List.reverse_append, List.append_assoc]

theorem Takes.single {name : String} {v : Value} {f : Field Decoder ρ} {set : ρ → ρ}
    (hf : field? fields name = some f) (hv : f.read v = .ok set) :
    Takes fields [(name, v)] r (set r) := by
  intro rest seen
  change fieldsByName fields ((name, v) :: rest) seen r = _
  rw [fieldsByName, hf]
  dsimp only
  rw [hv]
  rfl

theorem missing?_eq_none {seen : List String}
    (h : ∀ f ∈ fields, f.absence = .required → f.name ∈ seen) : missing? fields seen = none := by
  rw [missing?, Option.map_eq_none_iff, List.find?_eq_none]
  intro f hf hmissing
  obtain ⟨hrequired, hunseen⟩ := Bool.and_eq_true_iff.1 hmissing
  rw [List.contains_iff_mem.2 (h f hf (of_decide_eq_true hrequired))] at hunseen
  cases hunseen

theorem Takes.record (h : Takes fields ms r r')
    (hall : ∀ f ∈ fields, f.absence = .required → f.name ∈ ms.map Prod.fst) (name : String) :
    record name fields r (.object ms) = .ok r' := by
  have hread := h [] []
  rw [List.append_nil, List.append_nil, fieldsByName, missing?_eq_none fun f hf hr =>
    List.mem_reverse.2 (hall f hf hr)] at hread
  exact hread

end Decode

end Federation.Json
