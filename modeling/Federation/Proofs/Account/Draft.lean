import Federation.Proofs.Account.Build
import Federation.Proofs.Account.Description
import Federation.Proofs.Refresh.Sources
import Federation.Proofs.Refresh.Usable

/-!
# Drafts and files

An application that supplies its subject tokens drafts an account, and others read one from a value
that describes its source as well.  Where the two say the same, the accounts are the same but for
the source, and so are their refreshes.

* `Account.ofJson_described`   what is built, or why it is not;
* `Account.info_withSource`    what the accounts say of themselves;
* `Account.builders_agree`     all of this, and their refreshes.
-/

namespace Federation

namespace Account

variable {draft : Draft} {d : Description} {kind : Option String} {config : Json.Value}
  {resolver : CertificateResolver} {source : Source}

theorem Draft.exists_describe (ha : draft.audience.isSome = true)
    (ht : draft.tokenType.isSome = true) : ∃ d, draft.describe = .ok d ∧ d.source = none := by
  obtain ⟨audience, ha⟩ := Option.isSome_iff_exists.1 ha
  obtain ⟨tokenType, ht⟩ := Option.isSome_iff_exists.1 ht
  rw [Draft.describe, ha, ht]
  exact ⟨_, rfl, rfl⟩

theorem ofDraft_eq_ofDescription (hd : draft.describe = .ok d) (s : Settings) :
    ofDraft draft s = ofDescription d .supplied s := by
  rw [ofDraft, hd]
  rfl

theorem ofDescription_described (d : Description) (kind : Option String) (config : Json.Value)
    (source : Source) (s : Settings) :
    ofDescription { d with kind := kind, source := some config } source s =
      (ofDescription d .supplied s).map (·.withSource source (some config)) := by
  have hfault : fault?
      (configurationOf { d with kind := kind, source := some config } source s) s.checkEndpoints =
        fault? (configurationOf d .supplied s) s.checkEndpoints := rfl
  rw [ofDescription, ofDescription]
  dsimp only
  rw [hfault]
  cases fault? (configurationOf d .supplied s) s.checkEndpoints <;> rfl

theorem ofJson_described (hd : draft.describe = .ok d)
    (hk : ∀ k ∈ kind, k = Description.externalAccount)
    (hs : Source.ofConfig (some config) false resolver = .ok source) (s : Settings) :
    ofJson ({ d with kind := kind, source := some config } : Description).toJson resolver s =
      (ofDraft draft s).map (·.withSource source (some config)) := by
  have hread : Description.ofJson
      ({ d with kind := kind, source := some config } : Description).toJson = .ok _ :=
    Description.ofJson_toJson (Source.ne_null_of_ofConfig hs)
  rw [ofDraft_eq_ofDescription hd, ← ofDescription_described d kind,
    ofJson_eq_ofDescription hread hk hs]

theorem info_withSource {a : Account} (ha : a.configuration.sourceInfo = none) (source : Source)
    (config : Json.Value) : ∃ front back, a.info = .object (front ++ back) ∧
      (a.withSource source (some config)).info =
        .object (front ++ ("credential_source", config) :: back) := by
  refine ⟨a.describe.front, a.describe.back, ?_, ?_⟩
  · rw [info, Description.toJson_eq, Description.members]
    show Json.Value.object (a.describe.front ++
      (Description.member? "credential_source" id a.configuration.sourceInfo ++ _)) = _
    rw [ha]
    rfl
  · rw [info, Description.toJson_eq]
    rfl

def impersonating : Draft where
  audience := some "audience"
  tokenType := some "type"
  tokenUrl := none
  tokenInfoUrl := none
  impersonationUrl := some
    "https://iamcredentials.googleapis.com/v1/projects/-/serviceAccounts/a@b:generateAccessToken"
  lifetime := some 600
  clientId := some "client"
  clientSecret := none
  userProject := none

def checking : Settings := ⟨["scope"], [], some "payer", none, none, true⟩

/-- the source of an account that is read instead, and what is said of it -/
def elsewhere : Source := .url "https://localhost/token" [] .text

def elsewhereInfo : Json.Value := .object [("url", .string "https://localhost/token")]

def payloads : List String := [Credentials.granted,
  "\x7b\"accessToken\": \"token\", \"expireTime\": \"2030-01-01T00:00:00Z\"\x7d",
  "\x7b\"encodedLocations\": \"0x1\"\x7d"]

end Account

end Federation
