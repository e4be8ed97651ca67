import Federation.Text.Blank
import Mathlib.Data.List.TakeWhile

/-!
# Blank ends

`Text.trim` takes blank characters off both ends of a text, as many as there are.

* `Text.trim_eq_iff`   what is left, and what was taken.
-/

namespace Federation.Text

def AllBlank (cs : List Char) : Prop := ∀ c ∈ cs, isBlank c = true

def Bare (cs : List Char) : Prop :=
  (∀ c ∈ cs.head?, isBlank c = false) ∧ ∀ c ∈ cs.getLast?, isBlank c = false

theorem dropWhile_front {α : Type} {p : α → Bool} {front xs : List α}
    (hf : ∀ x ∈ front, p x = true) (hx : ∀ x ∈ xs.head?, p x = false) :
    (front ++ xs).dropWhile p = xs := by
  rw [List.dropWhile_append_of_pos hf]
  cases xs with
  | nil => rfl
  | cons x xs => rw [List.dropWhile_cons_of_neg (by rw [hx x rfl]; decide)]

theorem exists_blank (cs : List Char) : ∃ front, cs = front ++ cs.dropWhile isBlank ∧
    AllBlank front ∧ ∀ c ∈ (cs.dropWhile isBlank).head?, isBlank c = false := by
  refine ⟨cs.takeWhile isBlank, List.takeWhile_append_dropWhile.symm,
    fun c hc => List.mem_takeWhile_imp hc, fun c hc => ?_⟩
  have h := List.head?_dropWhile_not isBlank cs
  rw [Option.mem_def.1 hc] at h
  exact h

theorem AllBlank.reverse {cs : List Char} (h : AllBlank cs) : AllBlank cs.reverse :=
  fun c hc => h c (List.mem_reverse.1 hc)

theorem trim_of_bare {s t : String} {front back : List Char}
    (hs : s.toList = front ++ t.toList ++ back) (hf : AllBlank front) (hb : AllBlank back)
    (ht : Bare t.toList) : trim s = t := by
  obtain ⟨hhead, hlast⟩ := ht
  have hback : AllBlank back.reverse := hb.reverse
  have hlast' : ∀ c ∈ t.toList.reverse.head?, isBlank c = false := by
    rw [List.head?_reverse]
    exact hlast
  have hright : ((t.toList ++ back).reverse.dropWhile isBlank).reverse = t.toList := by
    rw [List.reverse_append, dropWhile_front hback hlast', List.reverse_reverse]
  have hleft : s.toList.dropWhile isBlank = t.toList ++ back ∨
      t.toList = [] ∧ s.toList.dropWhile isBlank = [] := by
    rw [hs, List.append_assoc]
    cases h : t.toList with
    | nil =>
      refine .inr ⟨rfl, ?_⟩
      rw [List.nil_append, List.dropWhile_append_of_pos hf]
      exact List.dropWhile_eq_nil_iff.2 hb
    | cons c cs =>
      rw [h] at hhead
      exact .inl (dropWhile_front hf hhead)
  rw [trim]
  rcases hleft with h | ⟨ht, h⟩
  · rw [h, hright, String.ofList_toList]
  · rw [h, ← String.ofList_toList (s := t), ht]
    rfl

theorem exists_ends (s : String) : ∃ front back, s.toList = front ++ (trim s).toList ++ back ∧
    AllBlank front ∧ AllBlank back ∧ Bare (trim s).toList := by
  obtain ⟨front, hs, hf, hhead⟩ := exists_blank s.toList
  obtain ⟨back, hd, hb, hlast⟩ := exists_blank (s.toList.dropWhile isBlank).reverse
  have hd' : s.toList.dropWhile isBlank = (trim s).toList ++ back.reverse := by
    rw [trim, String.toList_ofList, ← List.reverse_append, ← hd, List.reverse_reverse]
  refine ⟨front, back.reverse, ?_, hf, hb.reverse, fun c hc => ?_, fun c hc => ?_⟩
  · rw [List.append_assoc, ← hd', ← hs]
  · rw [hd', List.head?_append, Option.mem_def.1 hc] at hhead
    exact hhead c rfl
  · rw [trim, String.toList_ofList, List.getLast?_reverse] at hc
    exact hlast c hc

theorem trim_eq_iff {s t : String} : trim s = t ↔ Bare t.toList ∧ ∃ front back,
    s.toList = front ++ t.toList ++ back ∧ AllBlank front ∧ AllBlank back := by
  constructor
  · rintro rfl
    obtain ⟨front, back, hs, hf, hb, ht⟩ := exists_ends s
    exact ⟨ht, front, back, hs, hf, hb⟩
  · rintro ⟨ht, front, back, hs, hf, hb⟩
    exact trim_of_bare hs hf hb ht

end Federation.Text
