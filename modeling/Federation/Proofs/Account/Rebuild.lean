import Federation.Proofs.Account.Build
import Federation.Proofs.Account.Description

/-!
# Accounts from what accounts say of themselves

The description that an account gives of itself leaves out its scopes and what goes with the
settings of a build, and nothing else.  So an account that is built from it is the account again,
with the scopes of the new settings.

* `Account.ofJson_info`           any account whose source is the one that it describes;
* `Account.info_is_fixed_point`   whatever has come of a build.
-/

namespace Federation

namespace Account

variable {resolver : CertificateResolver} {a a' : Account} {s : Settings}

/-- the source of the account is the one that it describes -/
def DescribesSource (a : Account) (resolver : CertificateResolver) : Prop :=
  Source.ofConfig a.configuration.sourceInfo false resolver = .ok a.configuration.source

theorem Derived.describesSource (h : Derived a a') (hs : a.DescribesSource resolver) :
    a'.DescribesSource resolver := by
  obtain ⟨scopes, defaultScopes, hc⟩ := h.configuration_eq
  rw [DescribesSource, hc]
  exact hs

theorem describesSource_of_ofJson {v : Json.Value} (h : ofJson v resolver s = .ok a) :
    a.DescribesSource resolver := by
  obtain ⟨d, source, _, hs, h⟩ := ofJson_eq_ok h
  rw [DescribesSource, (ofDescription_eq_ok h).1]
  exact hs

/-! ## the account again -/

theorem configurationOf_describe (a : Account) (hd : s.domain = none) :
    configurationOf a.describe a.configuration.source s =
      { a.configuration with scopes := s.scopes, defaultScopes := s.defaultScopes } := by
  have hdomain : domainOf a.describe s = a.configuration.domain := by
    rw [domainOf, hd]
    rfl
  rw [configurationOf, hdomain]
  rfl

theorem ofJson_info (hs : a.DescribesSource resolver)
    (hv : a.configuration.Valid s.checkEndpoints) (hq : s.quotaProject = none)
    (hd : s.domain = none) :
    ofJson a.info resolver s =
      .ok ⟨{ a.configuration with scopes := s.scopes, defaultScopes := s.defaultScopes },
        a.quotaProject, s.threshold.getD Freshness.defaultThreshold⟩ := by
  have hread : Description.ofJson a.info = .ok a.describe :=
    Description.ofJson_toJson (Source.ne_null_of_ofConfig hs)
  have hkind : ∀ kind ∈ a.describe.kind, kind = Description.externalAccount :=
    fun _ hk => (Option.some.inj hk).symm
  have hvalid : fault? { a.configuration with
      scopes := s.scopes, defaultScopes := s.defaultScopes } s.checkEndpoints = none :=
    (fault?_eq_none_iff _ _).2 ⟨hv.workforce, hv.tokenUrl, hv.impersonationUrl⟩
  rw [ofJson_eq_ofDescription hread hkind hs, ofDescription, configurationOf_describe a hd]
  dsimp only
  rw [hvalid, hq]
  rfl

/-- what an account says of itself does not change when an account is built from it, whatever the
account was built from and whatever has been made of it -/
theorem info_is_fixed_point {built rebuilt : Settings}
    (h : (∃ v, ofJson v resolver built = .ok a) ∨
      ∃ files path, ofFile files path resolver built = .ok a)
    (hd : Derived a a') (hq : rebuilt.quotaProject = none) (hdomain : rebuilt.domain = none)
    (hcheck : rebuilt.checkEndpoints = built.checkEndpoints) :
    ∃ b, ofJson a'.info resolver rebuilt = .ok b ∧ b.info = a'.info ∧
      b.quotaProject = a'.quotaProject ∧
      b.configuration = { a'.configuration with
        scopes := rebuilt.scopes, defaultScopes := rebuilt.defaultScopes } := by
  have hread : ∃ v, ofJson v resolver built = .ok a := by
    obtain h | ⟨files, path, h⟩ := h
    · exact h
    · obtain ⟨v, _, h⟩ := ofFile_eq_ok h
      exact ⟨v, h⟩
  obtain ⟨v, hv⟩ := hread
  have hs : a'.DescribesSource resolver := hd.describesSource (describesSource_of_ofJson hv)
  have hvalid : a'.configuration.Valid rebuilt.checkEndpoints := by
    rw [hcheck]
    exact hd.valid (IsBuilt.valid (.inl ⟨v, resolver, hv⟩))
  exact ⟨_, ofJson_info hs hvalid hq hdomain, rfl, rfl, rfl⟩

def overridden : Json.Value := .object [
  ("audience", .string "audience"),
  ("client_id", .string "client"),
  ("credential_source", .object [
    ("format", .object [
      ("subject_token_field_name", .string "token"), ("type", .string "JSON")]),
    ("headers", .object [("Metadata", .string "true")]),
    ("url", .string "https://localhost/token")]),
  ("quota_project_id", .string "theirs"),
  ("service_account_impersonation", .object []),
  ("subject_token_type", .string "type"),
  ("token_info_url", .null),
  ("token_url", .string "https://sts.googleapis.com/v1/token"),
  ("universe_domain", .string "googleapis.com")]

def overriding : Settings := ⟨["scope"], [], some "ours", some "example.com", none, true⟩

def leaving : Settings := ⟨[], [], none, none, none, true⟩

theorem info_is_fixed_point_of_overridden : ∃ a b,
    ofJson overridden .configuration overriding = .ok a ∧ a.quotaProject = some "ours" ∧
      ofJson (a.withScopes ["other"] []).info .configuration leaving = .ok b ∧
      b.info = (a.withScopes ["other"] []).info := by
  have hok : (ofJson overridden .configuration overriding).toOption.map (·.quotaProject) =
      some (some "ours") := by
    decide +kernel
  rcases ha : ofJson overridden .configuration overriding with e | a
  · rw [ha] at hok
    cases hok
  · rw [ha] at hok
    have hd : Derived a (a.withScopes ["other"] []) := .withScopes .refl _ _
    have hquota : leaving.quotaProject = none := rfl
    obtain ⟨b, hb, hinfo, _⟩ := info_is_fixed_point (.inl ⟨overridden, ha⟩) hd hquota rfl rfl
    exact ⟨a, b, rfl, Option.some.inj hok, hb, hinfo⟩

end Account

end Federation
