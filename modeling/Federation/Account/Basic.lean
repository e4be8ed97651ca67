import Federation.Account.Configuration
import Federation.Account.Description
import Federation.Boundary.Lookup
import Federation.Token.Freshness

/-!
# External accounts

An account is a configuration with the settings of its credentials.  Nothing about it changes; the
accounts that are made from it differ in one setting.
-/

namespace Federation

structure Account where
  configuration : Configuration
  /-- the project that pays for requests -/
  quotaProject : Option String
  /-- how long before its expiry a token goes stale -/
  threshold : Clock.Duration

namespace Account

/-! ## what an account says about itself -/

/-- the description of an account; scopes are not part of it -/
def describe (a : Account) : Description where
  kind := some Description.externalAccount
  audience := a.configuration.audience
  tokenType := a.configuration.tokenType
  tokenUrl := some a.configuration.tokenUrl
  tokenInfoUrl := a.configuration.tokenInfoUrl
  impersonationUrl := a.configuration.impersonationUrl
  lifetime := a.configuration.lifetime
  clientId := a.configuration.clientId
  clientSecret := a.configuration.clientSecret
  source := a.configuration.sourceInfo
  quotaProject := a.quotaProject
  userProject := a.configuration.userProject
  domain := some a.configuration.domain

def info (a : Account) : Json.Value := a.describe.toJson

/-! ## other accounts from it -/

def withQuotaProject (a : Account) (project : String) : Account :=
  { a with quotaProject := some project }

def withScopes (a : Account) (scopes defaultScopes : List String) : Account :=
  { a with configuration := { a.configuration with scopes, defaultScopes } }

/-! ## the trust boundary -/

def defaultDomain : String := "googleapis.com"

def lookupUrl? (a : Account) : Option String :=
  let c := a.configuration
  match c.email? with
  | some email => some (Boundary.accountUrl c.domain email)
  | none => (Boundary.Pool.ofAudience? c.audience).map (Boundary.Pool.url c.domain)

/-- where to look the boundary up, if it is to be looked up -/
def lookup? (a : Account) (e : Environment) : Option String :=
  if a.configuration.domain = defaultDomain && Boundary.isEnabled e then a.lookupUrl? else none

end Account

end Federation
