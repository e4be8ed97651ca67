import Federation.Json.Reader
import Federation.Proofs.Text.Reading
import Mathlib.Data.List.Forall2

/-!
# Two structures read off one text

Two lists of fields that agree in their names may put their values into different structures.  If
field by field what is read stands in a relation, so does the whole; and a field that is read less
strictly in one of them is no matter, as long as the structure keeps what has been read.

* `Json.record_forth`   what one reads, the other reads too;
* `Json.record_back`    and back, if the structure that is read less strictly is good.
-/

namespace Federation.Json

/-! ## steps of a record -/

section
variable {ρ : Type} {fields : List (Field Reader ρ)} {n : Nat} {first : Bool} {seen : List String}
  {r r' : ρ} {c c' : Cursor}

/-- what a member does: it ends the object, it is passed over, or it sets a field -/
theorem fieldsByName_eq_ok_iff :
    fieldsByName fields (n + 1) first seen r c = .ok (r', c') ↔
      (nextName first c = .ok (none, c') ∧ missing? fields seen = none ∧ r = r') ∨
      (∃ name c₁ c₂ c₃, nextName first c = .ok (some name, c₁) ∧ field? fields name = none ∧
        colon c₁ = .ok ((), c₂) ∧ skip c₂ = .ok ((), c₃) ∧
        fieldsByName fields n false seen r c₃ = .ok (r', c')) ∨
      ∃ name f c₁ c₂ set c₃, nextName first c = .ok (some name, c₁) ∧
        field? fields name = some f ∧ seen.contains name = false ∧ colon c₁ = .ok ((), c₂) ∧
        f.read c₂ = .ok (set, c₃) ∧
        fieldsByName fields n false (name :: seen) (set r) c₃ = .ok (r', c') := by
  rw [fieldsByName, bind_eq_ok_iff]
  constructor
  · rintro ⟨_ | name, c₁, hname, h⟩
    · dsimp only at h
      cases hm : missing? fields seen with
      | some name =>
        rw [hm] at h
        cases h
      | none =>
        rw [hm] at h
        obtain ⟨rfl, rfl⟩ := pure_eq_ok_iff.1 h
        exact .inl ⟨hname, rfl, rfl⟩
    · dsimp only at h
      cases hf : field? fields name with
      | none =>
        rw [hf] at h
        obtain ⟨_, c₂, hcolon, h⟩ := bind_eq_ok_iff.1 h
        obtain ⟨_, c₃, hskip, h⟩ := bind_eq_ok_iff.1 h
        exact .inr (.inl ⟨name, c₁, c₂, c₃, hname, hf, hcolon, hskip, h⟩)
      | some f =>
        rw [hf] at h
        dsimp only at h
        cases hseen : seen.contains name with
        | true =>
          rw [hseen, if_pos rfl] at h
          cases h
        | false =>
          rw [hseen, if_neg (by decide)] at h
          obtain ⟨_, c₂, hcolon, h⟩ := bind_eq_ok_iff.1 h
          obtain ⟨set, c₃, hread, h⟩ := bind_eq_ok_iff.1 h
          exact .inr (.inr ⟨name, f, c₁, c₂, set, c₃, hname, hf, hseen, hcolon, hread, h⟩)
  · rintro (⟨hname, hm, rfl⟩ | ⟨name, c₁, c₂, c₃, hname, hf, hcolon, hskip, h⟩ |
      ⟨name, f, c₁, c₂, set, c₃, hname, hf, hseen, hcolon, hread, h⟩)
    · refine ⟨none, c', hname, ?_⟩
      dsimp only
      rw [hm]
      rfl
    · refine ⟨some name, c₁, hname, ?_⟩
      dsimp only
      rw [hf]
      exact bind_eq_ok_iff.2 ⟨(), c₂, hcolon, bind_eq_ok_iff.2 ⟨(), c₃, hskip, h⟩⟩
    · refine ⟨some name, c₁, hname, ?_⟩
      dsimp only
      rw [hf]
      dsimp only
      rw [hseen, if_neg (by decide)]
      exact bind_eq_ok_iff.2 ⟨(), c₂, hcolon, bind_eq_ok_iff.2 ⟨set, c₃, hread, h⟩⟩

/-- what an item does: it sets the next field, or it is not there and the field can do without -/
theorem fieldsInOrder_eq_ok_iff {record : String} {count k : Nat} {f : Field Reader ρ} :
    fieldsInOrder record count k (f :: fields) r c = .ok (r', c') ↔
      (∃ c₁ set c₂, nextItem (k = 0) c = .ok (true, c₁) ∧ f.read c₁ = .ok (set, c₂) ∧
        fieldsInOrder record count (k + 1) fields (set r) c₂ = .ok (r', c')) ∨
      ∃ c₁, nextItem (k = 0) c = .ok (false, c₁) ∧ f.absence = .defaulted ∧
        fieldsInOrder record count (k + 1) fields r c₁ = .ok (r', c') := by
  rw [fieldsInOrder, bind_eq_ok_iff]
  constructor
  · rintro ⟨_ | _, c₁, hitem, h⟩
    · rw [if_neg (by decide)] at h
      by_cases hd : f.absence = .defaulted
      · rw [if_pos hd] at h
        exact .inr ⟨c₁, hitem, hd, h⟩
      · rw [if_neg hd] at h
        cases h
    · rw [if_pos rfl] at h
      obtain ⟨set, c₂, hread, h⟩ := bind_eq_ok_iff.1 h
      exact .inl ⟨c₁, set, c₂, hitem, hread, h⟩
  · rintro (⟨c₁, set, c₂, hitem, hread, h⟩ | ⟨c₁, hitem, hd, h⟩)
    · exact ⟨true, c₁, hitem, bind_eq_ok_iff.2 ⟨set, c₂, hread, h⟩⟩
    · refine ⟨false, c₁, hitem, ?_⟩
      rw [if_neg (by decide), if_pos hd]
      exact h

end

theorem mismatch_ne_ok {α : Type} (expected : Expected) (a : α) (c c' : Cursor) :
    (mismatch expected : Reader α) c ≠ .ok (a, c') := by
  intro h
  obtain ⟨_, _, hlook, h⟩ := bind_eq_ok_iff.1 h
  cases hlook
  cases hrest : c.rest.head? with
  | none =>
    rw [hrest] at h
    cases h
  | some b =>
    rw [hrest] at h
    dsimp only at h
    split at h
    · cases h
    split at h
    · cases h
    · obtain ⟨_, _, _, h⟩ := bind_eq_ok_iff.1 h
      cases h

theorem enclosed_eq_ok_iff {α : Type} {close : Closing} {body : Reader α} {a : α} {c c' : Cursor} :
    enclosed close body c = .ok (a, c') ↔
      ∃ c₁, body c = .ok (a, c₁) ∧ close c₁ = (none, c') := by
  rw [enclosed]
  rcases body c with (⟨cause, offset⟩ | ⟨cause, at_⟩) | ⟨b, c₁⟩
  · exact ⟨fun h => (nomatch h), fun ⟨_, h, _⟩ => (nomatch h)⟩
  · exact ⟨fun h => (nomatch h), fun ⟨_, h, _⟩ => (nomatch h)⟩
  · dsimp only
    rcases hc : close c₁ with ⟨_ | fault, c₂⟩
    · constructor
      · intro h
        cases h
        exact ⟨c₁, rfl, hc⟩
      · rintro ⟨_, h, h'⟩
        cases h
        rw [hc] at h'
        cases h'
        rfl
    · constructor
      · exact fun h => (nomatch h)
      · rintro ⟨_, h, h'⟩
        cases h
        rw [hc] at h'
        cases h'

/-! ## fields side by side -/

section
variable {ρ σ : Type}

/-- the field `g` reads what the field `f` reads, into related structures; it reads more only if it
has the name `key`, and then it spoils the structure that it is put into for good -/
structure Field.Beside (R : σ → ρ → Prop) (key : String) (Good : σ → Prop) (g : Field Reader σ)
    (f : Field Reader ρ) : Prop where
  name : g.name = f.name
  absence : g.absence = f.absence
  forth : ∀ c set c', f.read c = .ok (set, c') →
    ∃ set', g.read c = .ok (set', c') ∧ ∀ s r, R s r → R (set' s) (set r)
  back : ∀ c set' c', g.read c = .ok (set', c') →
    (∃ set, f.read c = .ok (set, c') ∧ ∀ s r, R s r → R (set' s) (set r)) ∨
      (f.name = key ∧ ∀ s, ¬Good (set' s))
  keeps : f.name ≠ key → ∀ c set' c', g.read c = .ok (set', c') → ∀ s, Good (set' s) → Good s

variable {R : σ → ρ → Prop} {key : String} {Good : σ → Prop} {gs : List (Field Reader σ)}
  {fs : List (Field Reader ρ)} {s s' : σ} {r r' : ρ} {c c' : Cursor}

theorem Field.Beside.same {α : Type} {reader : Reader α} {put : α → ρ → ρ} {put' : α → σ → σ}
    {name : String} {absence : Absence} (hR : ∀ a s r, R s r → R (put' a s) (put a r))
    (hgood : ∀ a s, Good (put' a s) → Good s) :
    Field.Beside R key Good ⟨name, absence, put' <$> reader⟩ ⟨name, absence, put <$> reader⟩ where
  name := rfl
  absence := rfl
  forth := by
    intro c set c' h
    obtain ⟨a, ha, rfl⟩ := map_eq_ok_iff.1 h
    exact ⟨put' a, map_eq_ok_iff.2 ⟨a, ha, rfl⟩, hR a⟩
  back := by
    intro c set' c' h
    obtain ⟨a, ha, rfl⟩ := map_eq_ok_iff.1 h
    exact .inl ⟨put a, map_eq_ok_iff.2 ⟨a, ha, rfl⟩, hR a⟩
  keeps := by
    intro _ c set' c' h
    obtain ⟨a, ha, rfl⟩ := map_eq_ok_iff.1 h
    exact hgood a

theorem missing?_of_beside (h : List.Forall₂ (Field.Beside R key Good) gs fs)
    (seen : List String) : missing? gs seen = missing? fs seen := by
  induction h with
  | nil => rfl
  | cons hf _ ih =>
    rw [missing?, missing?] at ih ⊢
    rw [List.find?_cons, List.find?_cons, hf.name, hf.absence]
    split
    · rw [Option.map_some, Option.map_some, hf.name]
    · exact ih

theorem field?_of_beside (h : List.Forall₂ (Field.Beside R key Good) gs fs) (name : String) :
    (field? gs name = none ∧ field? fs name = none) ∨ ∃ g f, field? gs name = some g ∧
      field? fs name = some f ∧ f.name = name ∧ g.Beside R key Good f := by
  induction h with
  | nil => exact .inl ⟨rfl, rfl⟩
  | @cons g f gs fs hf _ ih =>
    rw [field?, field?] at ih ⊢
    rw [List.find?_cons, List.find?_cons, hf.name]
    cases hn : f.name == name with
    | true => exact .inr ⟨g, f, rfl, rfl, eq_of_beq hn, hf⟩
    | false => exact ih

/-! ### members -/

theorem fieldsByName_forth (h : List.Forall₂ (Field.Beside R key Good) gs fs) {n : Nat} :
    ∀ {first seen s r c}, R s r → fieldsByName fs n first seen r c = .ok (r', c') →
      ∃ s', fieldsByName gs n first seen s c = .ok (s', c') ∧ R s' r' := by
  induction n with
  | zero =>
    intro first seen s r c hr hrun
    obtain ⟨rfl, rfl⟩ := pure_eq_ok_iff.1 hrun
    exact ⟨s, rfl, hr⟩
  | succ n ih =>
    intro first seen s r c hr hrun
    rcases fieldsByName_eq_ok_iff.1 hrun with ⟨hname, hm, rfl⟩ |
      ⟨name, c₁, c₂, c₃, hname, hf, hcolon, hskip, hrun⟩ |
      ⟨name, f, c₁, c₂, set, c₃, hname, hf, hseen, hcolon, hread, hrun⟩
    · exact ⟨s, fieldsByName_eq_ok_iff.2 (.inl ⟨hname, missing?_of_beside h seen ▸ hm, rfl⟩), hr⟩
    · obtain ⟨hg, -⟩ | ⟨g, f, -, hf', -⟩ := field?_of_beside h name
      · obtain ⟨s', hs', hr'⟩ := ih hr hrun
        exact ⟨s', fieldsByName_eq_ok_iff.2
          (.inr (.inl ⟨name, c₁, c₂, c₃, hname, hg, hcolon, hskip, hs'⟩)), hr'⟩
      · rw [hf] at hf'
        cases hf'
    · obtain ⟨-, hf'⟩ | ⟨g, f', hg, hf', -, hbeside⟩ := field?_of_beside h name
      · rw [hf] at hf'
        cases hf'
      · rw [hf] at hf'
        cases hf'
        obtain ⟨set', hset', hrel⟩ := hbeside.forth _ _ _ hread
        obtain ⟨s', hs', hr'⟩ := ih (hrel s r hr) hrun
        exact ⟨s', fieldsByName_eq_ok_iff.2 (.inr (.inr
          ⟨name, g, c₁, c₂, set', c₃, hname, hg, hseen, hcolon, hset', hs'⟩)), hr'⟩

theorem good_of_fieldsByName (h : List.Forall₂ (Field.Beside R key Good) gs fs) {n : Nat} :
    ∀ {first seen s c}, key ∈ seen → fieldsByName gs n first seen s c = .ok (s', c') →
      Good s' → Good s := by
  induction n with
  | zero =>
    intro first seen s c hkey hrun hgood
    obtain ⟨rfl, rfl⟩ := pure_eq_ok_iff.1 hrun
    exact hgood
  | succ n ih =>
    intro first seen s c hkey hrun hgood
    rcases fieldsByName_eq_ok_iff.1 hrun with ⟨hname, hm, rfl⟩ |
      ⟨name, c₁, c₂, c₃, hname, hf, hcolon, hskip, hrun⟩ |
      ⟨name, g, c₁, c₂, set, c₃, hname, hg, hseen, hcolon, hread, hrun⟩
    · exact hgood
    · exact ih hkey hrun hgood
    · obtain ⟨hg', -⟩ | ⟨g', f, hg', -, hn, hbeside⟩ := field?_of_beside h name
      · rw [hg] at hg'
        cases hg'
      · rw [hg] at hg'
        cases hg'
        have hne : f.name ≠ key := by
          rintro rfl
          rw [hn] at hkey
          rw [List.contains_eq_mem, decide_eq_false_iff_not] at hseen
          exact hseen hkey
        exact hbeside.keeps hne _ _ _ hread s (ih (List.mem_cons_of_mem _ hkey) hrun hgood)

theorem fieldsByName_back (h : List.Forall₂ (Field.Beside R key Good) gs fs) (hgood : Good s')
    {n : Nat} : ∀ {first seen s r c}, R s r → fieldsByName gs n first seen s c = .ok (s', c') →
      ∃ r', fieldsByName fs n first seen r c = .ok (r', c') ∧ R s' r' := by
  induction n with
  | zero =>
    intro first seen s r c hr hrun
    obtain ⟨rfl, rfl⟩ := pure_eq_ok_iff.1 hrun
    exact ⟨r, rfl, hr⟩
  | succ n ih =>
    intro first seen s r c hr hrun
    rcases fieldsByName_eq_ok_iff.1 hrun with ⟨hname, hm, rfl⟩ |
      ⟨name, c₁, c₂, c₃, hname, hg, hcolon, hskip, hrun⟩ |
      ⟨name, g, c₁, c₂, set, c₃, hname, hg, hseen, hcolon, hread, hrun⟩
    · exact ⟨r, fieldsByName_eq_ok_iff.2 (.inl ⟨hname, missing?_of_beside h seen ▸ hm, rfl⟩), hr⟩
    · obtain ⟨-, hf⟩ | ⟨g, f, hg', -⟩ := field?_of_beside h name
      · obtain ⟨r', hr', hrel⟩ := ih hr hrun
        exact ⟨r', fieldsByName_eq_ok_iff.2
          (.inr (.inl ⟨name, c₁, c₂, c₃, hname, hf, hcolon, hskip, hr'⟩)), hrel⟩
      · rw [hg] at hg'
        cases hg'
    · obtain ⟨hg', -⟩ | ⟨g', f, hg', hf, hn, hbeside⟩ := field?_of_beside h name
      · rw [hg] at hg'
        cases hg'
      · rw [hg] at hg'
        cases hg'
        obtain ⟨set', hset', hrel⟩ | ⟨hkey, hbad⟩ := hbeside.back _ _ _ hread
        · obtain ⟨r', hr', hrel'⟩ := ih (hrel s r hr) hrun
          exact ⟨r', fieldsByName_eq_ok_iff.2 (.inr (.inr
            ⟨name, f, c₁, c₂, set', c₃, hname, hf, hseen, hcolon, hset', hr'⟩)), hrel'⟩
        · have hmem : key ∈ name :: seen := by
            rw [← hkey, hn]
            exact List.mem_cons_self
          exact absurd (good_of_fieldsByName h hmem hrun hgood) (hbad s)

/-! ### items -/

theorem fieldsInOrder_forth (h : List.Forall₂ (Field.Beside R key Good) gs fs) (record : String)
    (count : Nat) : ∀ {k s r c}, R s r → fieldsInOrder record count k fs r c = .ok (r', c') →
      ∃ s', fieldsInOrder record count k gs s c = .ok (s', c') ∧ R s' r' := by
  induction h with
  | nil =>
    intro k s r c hr hrun
    obtain ⟨rfl, rfl⟩ := pure_eq_ok_iff.1 hrun
    exact ⟨s, rfl, hr⟩
  | cons hf _ ih =>
    intro k s r c hr hrun
    rcases fieldsInOrder_eq_ok_iff.1 hrun with ⟨c₁, set, c₂, hitem, hread, hrun⟩ |
      ⟨c₁, hitem, hd, hrun⟩
    · obtain ⟨set', hset', hrel⟩ := hf.forth _ _ _ hread
      obtain ⟨s', hs', hr'⟩ := ih (hrel s r hr) hrun
      exact ⟨s', fieldsInOrder_eq_ok_iff.2 (.inl ⟨c₁, set', c₂, hitem, hset', hs'⟩), hr'⟩
    · obtain ⟨s', hs', hr'⟩ := ih hr hrun
      exact ⟨s', fieldsInOrder_eq_ok_iff.2 (.inr ⟨c₁, hitem, hf.absence.trans hd, hs'⟩), hr'⟩

theorem good_of_fieldsInOrder (h : List.Forall₂ (Field.Beside R key Good) gs fs)
    (record : String) (count : Nat) : ∀ {k s c}, key ∉ fs.map (·.name) →
      fieldsInOrder record count k gs s c = .ok (s', c') → Good s' → Good s := by
  induction h with
  | nil =>
    intro k s c _ hrun hgood
    obtain ⟨rfl, rfl⟩ := pure_eq_ok_iff.1 hrun
    exact hgood
  | cons hf _ ih =>
    intro k s c hkey hrun hgood
    rw [List.map_cons, List.mem_cons, not_or] at hkey
    rcases fieldsInOrder_eq_ok_iff.1 hrun with ⟨c₁, set, c₂, hitem, hread, hrun⟩ |
      ⟨c₁, hitem, hd, hrun⟩
    · exact hf.keeps (Ne.symm hkey.1) _ _ _ hread s (ih hkey.2 hrun hgood)
    · exact ih hkey.2 hrun hgood

theorem fieldsInOrder_back (h : List.Forall₂ (Field.Beside R key Good) gs fs)
    (hnodup : (fs.map (·.name)).Nodup) (hgood : Good s') (record : String) (count : Nat) :
    ∀ {k s r c}, R s r → fieldsInOrder record count k gs s c = .ok (s', c') →
      ∃ r', fieldsInOrder record count k fs r c = .ok (r', c') ∧ R s' r' := by
  induction h with
  | nil =>
    intro k s r c hr hrun
    obtain ⟨rfl, rfl⟩ := pure_eq_ok_iff.1 hrun
    exact ⟨r, rfl, hr⟩
  | cons hf hfs ih =>
    intro k s r c hr hrun
    obtain ⟨hnot, hnodup⟩ := List.nodup_cons.1 hnodup
    rcases fieldsInOrder_eq_ok_iff.1 hrun with ⟨c₁, set, c₂, hitem, hread, hrun⟩ |
      ⟨c₁, hitem, hd, hrun⟩
    · obtain ⟨set', hset', hrel⟩ | ⟨hkey, hbad⟩ := hf.back _ _ _ hread
      · obtain ⟨r', hr', hrel'⟩ := ih hnodup (hrel s r hr) hrun
        exact ⟨r', fieldsInOrder_eq_ok_iff.2 (.inl ⟨c₁, set', c₂, hitem, hset', hr'⟩), hrel'⟩
      · exact absurd (good_of_fieldsInOrder hfs record count (hkey ▸ hnot) hrun hgood) (hbad s)
    · obtain ⟨r', hr', hrel⟩ := ih hnodup hr hrun
      exact ⟨r', fieldsInOrder_eq_ok_iff.2 (.inr ⟨c₁, hitem, hf.absence.symm.trans hd, hr'⟩), hrel⟩

/-! ### whole structures -/

theorem record_eq_ok_iff {name : String} {fields : List (Field Reader ρ)} :
    record name fields r c = .ok (r', c') ↔
      (∃ c₁, start c = .ok (byte '[', c₁) ∧
        enclosed listEnd (fieldsInOrder name fields.length 0 fields r) (c₁.advance 1)
          = .ok (r', c')) ∨
      ∃ c₁, start c = .ok (byte '\x7b', c₁) ∧
        enclosed objectEnd (fieldsByName fields ((c₁.advance 1).rest.length + 1) true [] r)
          (c₁.advance 1) = .ok (r', c') := by
  rw [record, bind_eq_ok_iff]
  constructor
  · rintro ⟨b, c₁, hstart, h⟩
    by_cases ha : b = byte '['
    · rw [if_pos ha] at h
      obtain ⟨_, _, h₁, h⟩ := bind_eq_ok_iff.1 h
      cases h₁
      exact .inl ⟨c₁, ha ▸ hstart, h⟩
    rw [if_neg ha] at h
    by_cases ho : b = byte '\x7b'
    · rw [if_pos ho] at h
      obtain ⟨_, _, h₁, h⟩ := bind_eq_ok_iff.1 h
      cases h₁
      exact .inr ⟨c₁, ho ▸ hstart, h⟩
    · rw [if_neg ho] at h
      exact absurd h (mismatch_ne_ok _ _ _ _)
  · rintro (⟨c₁, hstart, h⟩ | ⟨c₁, hstart, h⟩)
    · refine ⟨_, c₁, hstart, ?_⟩
      rw [if_pos rfl]
      exact bind_eq_ok_iff.2 ⟨(), _, rfl, h⟩
    · refine ⟨_, c₁, hstart, ?_⟩
      rw [if_neg (by decide), if_pos rfl]
      exact bind_eq_ok_iff.2 ⟨(), _, rfl, h⟩

theorem record_forth (h : List.Forall₂ (Field.Beside R key Good) gs fs) {name : String}
    (hr : R s r) (hrun : record name fs r c = .ok (r', c')) :
    ∃ s', record name gs s c = .ok (s', c') ∧ R s' r' := by
  rcases record_eq_ok_iff.1 hrun with ⟨c₁, hstart, hrun⟩ | ⟨c₁, hstart, hrun⟩
  · obtain ⟨c₂, hbody, hclose⟩ := enclosed_eq_ok_iff.1 hrun
    obtain ⟨s', hs', hr'⟩ := fieldsInOrder_forth h _ _ hr hbody
    rw [← h.length_eq] at hs'
    exact ⟨s', record_eq_ok_iff.2 (.inl ⟨c₁, hstart, enclosed_eq_ok_iff.2 ⟨c₂, hs', hclose⟩⟩), hr'⟩
  · obtain ⟨c₂, hbody, hclose⟩ := enclosed_eq_ok_iff.1 hrun
    obtain ⟨s', hs', hr'⟩ := fieldsByName_forth h hr hbody
    exact ⟨s', record_eq_ok_iff.2 (.inr ⟨c₁, hstart, enclosed_eq_ok_iff.2 ⟨c₂, hs', hclose⟩⟩), hr'⟩

theorem record_back (h : List.Forall₂ (Field.Beside R key Good) gs fs)
    (hnodup : (fs.map (·.name)).Nodup) (hgood : Good s') {name : String} (hr : R s r)
    (hrun : record name gs s c = .ok (s', c')) :
    ∃ r', record name fs r c = .ok (r', c') ∧ R s' r' := by
  rcases record_eq_ok_iff.1 hrun with ⟨c₁, hstart, hrun⟩ | ⟨c₁, hstart, hrun⟩
  · obtain ⟨c₂, hbody, hclose⟩ := enclosed_eq_ok_iff.1 hrun
    obtain ⟨r', hr', hrel⟩ := fieldsInOrder_back h hnodup hgood _ _ hr hbody
    rw [h.length_eq] at hr'
    exact ⟨r', record_eq_ok_iff.2 (.inl ⟨c₁, hstart, enclosed_eq_ok_iff.2 ⟨c₂, hr', hclose⟩⟩), hrel⟩
  · obtain ⟨c₂, hbody, hclose⟩ := enclosed_eq_ok_iff.1 hrun
    obtain ⟨r', hr', hrel⟩ := fieldsByName_back h hgood hr hbody
    exact ⟨r', record_eq_ok_iff.2 (.inr ⟨c₁, hstart, enclosed_eq_ok_iff.2 ⟨c₂, hr', hclose⟩⟩), hrel⟩

end

theorem parseAs_eq_ok_iff {α : Type} {r : Reader α} {text : Bytes} {a : α} :
    parseAs r text = .ok a ↔
      ∃ c, r ⟨0, text⟩ = .ok (a, c) ∧ (c.skipWhile isSpace).rest = [] := by
  rw [parseAs]
  constructor
  · intro h
    split at h
    · next hwhole =>
      cases h
      obtain ⟨b, c, hr, hend⟩ := bind_eq_ok_iff.1 hwhole
      obtain ⟨_, _, hpeek, hend⟩ := bind_eq_ok_iff.1 hend
      cases hpeek
      cases hrest : (c.skipWhile isSpace).rest with
      | nil =>
        rw [hrest] at hend
        obtain ⟨rfl, -⟩ := pure_eq_ok_iff.1 hend
        exact ⟨c, hr, hrest⟩
      | cons b more =>
        rw [hrest] at hend
        cases hend
    · cases h
  · rintro ⟨c, hr, hrest⟩
    have hpeek : peek c = .ok ((c.skipWhile isSpace).rest.head?, c.skipWhile isSpace) := rfl
    rw [bind_of_ok hr, bind_of_ok hpeek, hrest]
    rfl

end Federation.Json
