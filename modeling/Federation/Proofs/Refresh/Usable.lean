import Federation.Account.Build
import Federation.Proofs.Refresh.Need
import Federation.Proofs.Refresh.Requests

/-!
# What a refresh leaves behind

Headers can be set from what a refresh has left if and only if the values in it are legal.  Nobody
asks that before: a token or an encoded boundary that is no header value is published like any
other, and then no headers can be set.

* `Credentials.apply_eq_ok_iff`      when headers can be set;
* `Credentials.apply_after_refresh`  when they can be set after a refresh;
* `Credentials.unusable_after_refresh`  a refresh after which they cannot.
-/

namespace Federation

theorem Http.isValue_append (s t : String) : isValue (s ++ t) = (isValue s && isValue t) := by
  rw [isValue, isValue, isValue, String.toList_append, List.all_append]

theorem Http.isValue_bearer (token : String) :
    isValue (bearer token).value = isValue token := by
  have h : isValue "Bearer " = true := by decide
  rw [bearer, isValue_append, h, Bool.true_and]

def Boundary.IsLegal (b : Boundary) : Prop := b.isNoOp = true ∨ Http.isValue b.encoded = true

theorem Boundary.isLegal_iff (b : Boundary) :
    b.IsLegal ↔ ∀ h ∈ b.header?, Http.isValue h.value = true := by
  rw [IsLegal, header?]
  by_cases hb : b.isNoOp = true
  · simp [hb]
  · simp [hb, Http.allowedLocations, Http.Header.open]

namespace Credentials

variable {c : Credentials} {token : Token}

theorem apply_of_token (ht : c.token = some token) (hs : Http.Headers) :
    (c.apply none hs).1 = if (c.planned token.value).all (Http.isValue ·.value) then .ok ()
      else .error .headerValue := by
  rw [apply, Option.none_or, ht, Option.map_some, ← Http.Headers.setEach_fst _ hs]
  dsimp only
  rcases hs.setEach (c.planned token.value) with ⟨_ | _, hs'⟩
  · rfl
  · rfl

theorem planned_all_iff (c : Credentials) (token : String) :
    (c.planned token).all (Http.isValue ·.value) = true ↔ Http.isValue token = true ∧
      (∀ project ∈ c.account.quotaProject, Http.isValue project = true) ∧
      ∀ b ∈ c.boundary, b.IsLegal := by
  have hproject : (c.account.quotaProject.map Http.quotaProject).toList.all (Http.isValue ·.value)
      = true ↔ ∀ project ∈ c.account.quotaProject, Http.isValue project = true := by
    cases c.account.quotaProject <;> simp [Http.quotaProject, Http.Header.open]
  have hboundary : (c.boundary.bind Boundary.header?).toList.all (Http.isValue ·.value) = true ↔
      ∀ b ∈ c.boundary, b.IsLegal := by
    simp only [Boundary.isLegal_iff]
    cases c.boundary with
    | none => simp
    | some b => simp
  rw [planned, List.cons_append, List.all_cons, List.all_append, Http.isValue_bearer,
    Bool.and_eq_true, Bool.and_eq_true, hproject, hboundary]

theorem apply_eq_ok_iff (hs : Http.Headers) : (c.apply none hs).1 = .ok () ↔
    ∃ token, c.token = some token ∧ Http.isValue token.value = true ∧
      (∀ project ∈ c.account.quotaProject, Http.isValue project = true) ∧
      ∀ b ∈ c.boundary, b.IsLegal := by
  cases ht : c.token with
  | none =>
    rw [apply, ht]
    simp
  | some token =>
    rw [apply_of_token ht]
    have hall := c.planned_all_iff token.value
    by_cases h : (c.planned token.value).all (Http.isValue ·.value) = true
    · rw [if_pos h]
      exact ⟨fun _ => ⟨token, rfl, hall.1 h⟩, fun _ => rfl⟩
    · rw [if_neg h]
      constructor
      · intro hok
        cases hok
      · rintro ⟨_, hsome, hl⟩
        cases hsome
        exact absurd (hall.2 hl) h

/-! ## after a refresh -/

variable {c' : Credentials} {w w' : World}

theorem refresh_eq_ok (h : c.refresh w = (.ok (), c', w')) : ∃ token v,
    (c.account.configuration.fetch c.boundary).run w = (.ok token, v) ∧
      c' = { c with token := some token, boundary := (c.lookup token v).1 } := by
  rw [refresh] at h
  rcases hf : (c.account.configuration.fetch c.boundary).run w with ⟨f | token, v⟩
  · rw [hf] at h
    cases h
  · rw [hf] at h
    cases h
    exact ⟨token, v, rfl, rfl⟩

theorem boundary_lookup (c : Credentials) (token : Token) (v : World) :
    (c.lookup token v).1 = c.boundary ∨
      ∃ b, Boundary.ofReply v.reply = .ok b ∧ (c.lookup token v).1 = some b := by
  rw [lookup_eq]
  cases c.request? v.environment (.fetched token) with
  | none => exact .inl rfl
  | some r =>
    cases hb : Boundary.ofReply v.reply with
    | error f => exact .inl rfl
    | ok b => exact .inr ⟨b, rfl, rfl⟩

/-- what a refresh of `c` in `w` that succeeds has left for the requests to come -/
structure Left (c c' : Credentials) (w : World) (token : Token) : Prop where
  published : c'.token = some token
  /-- headers can be set if and only if what the refresh has published is legal -/
  usable : ∀ hs, (c'.apply none hs).1 = .ok () ↔
    Http.isValue token.value = true ∧ ∀ b ∈ c'.boundary, b.IsLegal
  refused : ∀ hs f, (c'.apply none hs).1 = .error f → f = .headerValue
  boundary : c'.boundary = c.boundary ∨
    ∃ v b, Boundary.ofReply (World.reply v) = .ok b ∧ c'.boundary = some b
  unlooked : c.account.lookup? w.environment = none → c'.boundary = c.boundary

theorem apply_after_refresh (h : c.refresh w = (.ok (), c', w'))
    (hq : ∀ project ∈ c.account.quotaProject, Http.isValue project = true) :
    ∃ token, Left c c' w token := by
  obtain ⟨token, v, hf, rfl⟩ := refresh_eq_ok h
  refine ⟨token, rfl, fun hs => ?_, fun hs f hf => ?_, ?_, fun hnone => ?_⟩
  · rw [apply_eq_ok_iff]
    constructor
    · rintro ⟨_, hsome, hl, _, hb⟩
      cases hsome
      exact ⟨hl, hb⟩
    · exact fun ⟨hl, hb⟩ => ⟨token, rfl, hl, hq, hb⟩
  · obtain ⟨hnone, _⟩ | ⟨_, hf⟩ := apply_error (Prod.ext hf rfl)
    · cases hnone
    · exact hf
  · obtain hb | ⟨b, hr, hb⟩ := c.boundary_lookup token v
    · exact .inl hb
    · exact .inr ⟨v, b, hr, hb⟩
  · obtain ⟨rs, u, hleads, r, res, _, _, _, _, rfl⟩ := Configuration.grants_of_run_fetch hf
    have he : (u.afterRequest r).environment = w.environment := hleads.environment
    show (c.lookup token (u.afterRequest r)).1 = _
    rw [lookup, he, hnone]

/-- credentials of a workforce pool whose application supplies the subject tokens -/
def ofPool : Credentials :=
  let description : Description := { Description.blank with
    audience := "//iam.googleapis.com/locations/global/workforcePools/pool/providers/provider" }
  new ⟨Account.configurationOf description .supplied ⟨[], [], none, none, none, false⟩, none,
    Freshness.defaultThreshold⟩ none false

def answering (payloads : List String) : World where
  environment := ⟨some "true", none, none⟩
  files := []
  wall := 0
  clock := 0
  replies := payloads.map fun payload => .response ⟨200, Utf8.encode payload⟩
  silence := ⟨true, none, none⟩
  supplies := []
  supply := .token fun _ => "subject"
  sent := []

def granted : String := "\x7b\"access_token\": \"token\"\x7d"

theorem apply_after_refresh_of_pool :
    (∀ project ∈ ofPool.account.quotaProject, Http.isValue project = true) ∧
      ∃ c' w' token, ofPool.refresh (answering [granted]) = (.ok (), c', w') ∧
        Left ofPool c' (answering [granted]) token := by
  have hq : ∀ project ∈ ofPool.account.quotaProject, Http.isValue project = true := nofun
  have hok : (ofPool.refresh (answering [granted])).1.toBool = true := by
    decide +kernel
  rcases hr : ofPool.refresh (answering [granted]) with ⟨f | _, c', w'⟩
  · rw [hr] at hok
    cases hok
  · obtain ⟨token, h⟩ := apply_after_refresh hr hq
    exact ⟨hq, c', w', token, rfl, h⟩

def broken : String := "\x7b\"encodedLocations\": \"\\n\"\x7d"

/-- a lookup can make credentials unusable that were not, and the refresh succeeds -/
theorem unusable_after_refresh :
    ¬∀ (c c' : Credentials) (w w' : World),
      (∀ project ∈ c.account.quotaProject, Http.isValue project = true) →
      (∀ b ∈ c.boundary, b.IsLegal) → c.refresh w = (.ok (), c', w') →
      (c'.apply none []).1 = .ok () := by
  intro h
  have hok : (ofPool.refresh (answering [granted, broken])).1.toBool = true := by
    decide +kernel
  have hno : ((ofPool.refresh (answering [granted, broken])).2.1.apply none []).1.toBool
      = false := by
    decide +kernel
  rcases hr : ofPool.refresh (answering [granted, broken]) with ⟨f | _, c', w'⟩
  · rw [hr] at hok
    cases hok
  · rw [hr, h ofPool c' _ w' nofun nofun hr] at hno
    cases hno

end Credentials

end Federation
