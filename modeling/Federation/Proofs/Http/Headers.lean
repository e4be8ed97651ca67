import Federation.Http.Outgoing
import Federation.Text.Blank

/-!
# Headers that are set one after another

Setting a header takes out all others of its name, and leaves the headers of every other name as
they are.  Headers are set until a value is not legal; those before it are set all the same.

* `Headers.setEach_eq_true_iff`, `Headers.setEach_of_illegal`
                                 what has been set, if all can be set and if not;
* `Headers.named_setAll_self`, `Headers.named_setAll_of_ne`
                                 what then stands under a name;
* `Headers.named_gathered`       headers that were written in any letter case.
-/

namespace Federation.Http

structure IsName (s : String) : Prop where
  nonempty : s ≠ ""
  short : s.length ≤ maxNameLength
  chars : ∀ c ∈ s.toList, isNameChar c = true

theorem isName_iff (s : String) : IsName s ↔
    ¬(s.isEmpty || decide (maxNameLength < s.length) || !s.toList.all isNameChar) = true := by
  have hall : (!s.toList.all isNameChar) = true ↔ ¬∀ c ∈ s.toList, isNameChar c = true := by
    rw [Bool.not_eq_true', Bool.eq_false_iff, ne_eq, List.all_eq_true]
  rw [Bool.or_eq_true, Bool.or_eq_true, hall, String.isEmpty_iff, decide_eq_true_eq, not_or, not_or,
    Decidable.not_not, Nat.not_lt]
  exact ⟨fun h => ⟨⟨h.nonempty, h.short⟩, h.chars⟩, fun h => ⟨h.1.1, h.1.2, h.2⟩⟩

theorem name?_eq_some_iff {s small : String} :
    name? s = some small ↔ IsName s ∧ small = Text.lower s := by
  rw [name?, isName_iff]
  split
  · next h => exact ⟨nofun, fun hn => absurd h hn.1⟩
  · next h => exact ⟨fun hs => ⟨h, (Option.some.inj hs).symm⟩, fun hs => congrArg some hs.2.symm⟩

namespace Headers

/-! ## setting all of them -/

def setAll (hs : Headers) (planned : List Header) : Headers := planned.foldl set hs

theorem setAll_cons (hs : Headers) (h : Header) (planned : List Header) :
    hs.setAll (h :: planned) = (hs.set h).setAll planned := rfl

variable {hs hs' : Headers} {planned : List Header}

theorem setEach_append (hs : Headers) {front : List Header}
    (hl : ∀ h ∈ front, isValue h.value = true) (back : List Header) :
    hs.setEach (front ++ back) = (hs.setAll front).setEach back := by
  induction front generalizing hs with
  | nil => rfl
  | cons h front ih =>
    obtain ⟨hh, hfront⟩ := List.forall_mem_cons.1 hl
    rw [List.cons_append, setEach_cons_of_isValue hs _ hh, ih _ hfront, setAll_cons]

theorem setEach_of_legal (hs : Headers) (hl : ∀ h ∈ planned, isValue h.value = true) :
    hs.setEach planned = (true, hs.setAll planned) := by
  have h := setEach_append hs hl []
  rwa [List.append_nil, setEach_nil] at h

/-- setting ends at the first value that is not legal -/
theorem setEach_of_illegal (hs : Headers) {front : List Header}
    (hl : ∀ h ∈ front, isValue h.value = true) {h : Header} (hh : ¬isValue h.value = true)
    (back : List Header) : hs.setEach (front ++ h :: back) = (false, hs.setAll front) := by
  rw [setEach_append hs hl, setEach, if_neg hh]

theorem setEach_eq_true_iff : hs.setEach planned = (true, hs') ↔
    (∀ h ∈ planned, isValue h.value = true) ∧ hs' = hs.setAll planned := by
  constructor
  · intro h
    have hl := setEach_fst planned hs
    rw [h] at hl
    have hall := List.all_eq_true.1 hl.symm
    rw [setEach_of_legal hs hall] at h
    exact ⟨hall, (Prod.mk.inj h).2.symm⟩
  · rintro ⟨hl, rfl⟩
    exact setEach_of_legal hs hl

/-! ## what stands under a name -/

theorem named_setAll_of_ne {name : String} (hn : ∀ h ∈ planned, name ≠ h.name) (hs : Headers) :
    (hs.setAll planned).named name = hs.named name := by
  induction planned generalizing hs with
  | nil => rfl
  | cons h planned ih =>
    obtain ⟨hh, hplanned⟩ := List.forall_mem_cons.1 hn
    rw [setAll_cons, ih hplanned, named_set_of_ne hs h hh]

theorem named_setAll_self (hn : (planned.map Header.name).Nodup) {h : Header} (hm : h ∈ planned)
    (hs : Headers) : (hs.setAll planned).named h.name = [h] := by
  induction planned generalizing hs with
  | nil => cases hm
  | cons h' planned ih =>
    rw [List.map_cons, List.nodup_cons] at hn
    rw [setAll_cons]
    rcases List.mem_cons.1 hm with rfl | hm
    · rw [named_setAll_of_ne, named_set_self]
      exact fun h' hm he => hn.1 (he ▸ List.mem_map_of_mem hm)
    · exact ih hn.2 hm _

/-! ## names in any letter case -/

/-- the headers that these entries make, whose names may be written in any letter case -/
def gathered (entries : List Header) : Headers :=
  entries.map fun h => { h with name := Text.lower h.name }

def under (entries : List Header) (name : String) : List Header :=
  entries.filter fun h => Text.lower h.name = Text.lower name

theorem named_gathered (entries : List Header) (name : String) :
    (gathered entries).named (Text.lower name) = gathered (under entries name) := by
  rw [gathered, gathered, named, under, List.filter_map]
  rfl

end Headers

end Federation.Http
