import Federation.Account.Basic
import Federation.Endpoint.Allowed

/-!
# Building accounts

An account is built from a description, which a file may hold, or from what an application sets that
supplies the subject tokens.  Everything is checked here, once.
-/

namespace Federation

/-- what an application may set, whatever its accounts are built from -/
structure Settings where
  scopes : List String
  defaultScopes : List String
  quotaProject : Option String
  domain : Option String
  threshold : Option Clock.Duration
  checkEndpoints : Bool
  deriving DecidableEq, Repr

inductive BuildError where
  | unreadable (fault : FileFault)
  | malformed (refusal : Json.Refusal)
  | wrongKind (kind : String)
  | source (defect : Source.Defect)
  | missing (field : String)
  | tokenUrl (url : String)
  | impersonationUrl (url : String)
  | userProject
  deriving DecidableEq, Repr

namespace BuildError

def reason? : BuildError → Option String
  | .unreadable fault => some fault.message
  | .malformed refusal => some refusal.message
  | .wrongKind kind =>
    some ("expected an " ++ Description.externalAccount ++ " configuration, got " ++ kind)
  | .source defect => some defect.message
  | .missing _ => none
  | .tokenUrl url =>
    some ("the token url " ++ url ++ " is not a valid Security Token Service endpoint")
  | .impersonationUrl url =>
    some ("the service account impersonation url " ++ url ++
      " is not a valid IAM Credentials endpoint")
  | .userProject =>
    some "workforce_pool_user_project should not be set for non-workforce pool credentials"

/-- what was being done -/
def task : BuildError → String
  | .unreadable _ => "could not find or open the credentials file "
  | .malformed _ => "cannot parse the credentials file "
  | .wrongKind _ => "cannot parse the credentials file "
  | .source _ => "invalid credential source "
  | .missing field => "missing required field: " ++ field
  | .tokenUrl _ => "invalid endpoint "
  | .impersonationUrl _ => "invalid endpoint "
  | .userProject => "invalid workforce pool configuration "

def message (e : BuildError) : String := e.task ++ e.reason?.getD ""

end BuildError

namespace Account

/-! ## from a description and its source -/

def defaultTokenUrl (domain : String) : String := "https://sts." ++ domain ++ "/v1/token"

def domainOf (d : Description) (s : Settings) : String :=
  (s.domain.or d.domain).getD defaultDomain

def configurationOf (d : Description) (source : Source) (s : Settings) : Configuration where
  audience := d.audience
  tokenType := d.tokenType
  tokenUrl := d.tokenUrl.getD (defaultTokenUrl (domainOf d s))
  tokenInfoUrl := d.tokenInfoUrl
  impersonationUrl := d.impersonationUrl
  lifetime := d.lifetime
  clientId := d.clientId
  clientSecret := d.clientSecret
  userProject := d.userProject
  domain := domainOf d s
  scopes := s.scopes
  defaultScopes := s.defaultScopes
  source := source
  sourceInfo := d.source

def fault? (c : Configuration) (checkEndpoints : Bool) : Option BuildError :=
  if c.userProject.isSome && !c.isWorkforcePool then some .userProject
  else if !checkEndpoints then none
  else if !Endpoint.isTokenUrl c.tokenUrl then some (.tokenUrl c.tokenUrl)
  else match c.impersonationUrl with
    | none => none
    | some url =>
      if Endpoint.isImpersonationUrl url then none else some (.impersonationUrl url)

def ofDescription (d : Description) (source : Source) (s : Settings) :
    Except BuildError Account :=
  let c := configurationOf d source s
  match fault? c s.checkEndpoints with
  | some e => .error e
  | none => .ok ⟨c, s.quotaProject.or d.quotaProject, s.threshold.getD Freshness.defaultThreshold⟩

/-! ## from a JSON value -/

def ofJson (v : Json.Value) (resolver : CertificateResolver) (s : Settings) :
    Except BuildError Account := do
  let d ← (Description.ofJson v).mapError fun cause => .malformed ⟨cause, none⟩
  match d.kind.filter (· ≠ Description.externalAccount) with
  | some kind => throw (.wrongKind kind)
  | none =>
    let source ← (Source.ofConfig d.source false resolver).mapError .source
    ofDescription d source s

def ofFile (files : Files.Tree) (path : String) (resolver : CertificateResolver) (s : Settings) :
    Except BuildError Account := do
  let text ← (Files.readText files path).mapError .unreadable
  let v ← (Json.parse (Utf8.encode text)).mapError .malformed
  ofJson v resolver s

/-! ## for an application that supplies the subject tokens -/

/-- what such an application may set -/
structure Draft where
  audience : Option String
  tokenType : Option String
  tokenUrl : Option String
  tokenInfoUrl : Option String
  impersonationUrl : Option String
  lifetime : Option Nat
  clientId : Option String
  clientSecret : Option String
  userProject : Option String
  deriving DecidableEq, Repr

def Draft.describe (d : Draft) : Except BuildError Description := do
  let some audience := d.audience | throw (.missing "audience")
  let some tokenType := d.tokenType | throw (.missing "subject_token_type")
  pure { Description.blank with
    audience, tokenType, tokenUrl := d.tokenUrl, tokenInfoUrl := d.tokenInfoUrl,
    impersonationUrl := d.impersonationUrl, lifetime := d.lifetime, clientId := d.clientId,
    clientSecret := d.clientSecret, userProject := d.userProject }

def ofDraft (d : Draft) (s : Settings) : Except BuildError Account := do
  let description ← d.describe
  let source ← (Source.ofConfig none true .configuration).mapError .source
  ofDescription description source s

end Account

end Federation
