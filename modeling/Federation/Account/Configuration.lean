import Federation.SubjectToken.Retrieval
import Federation.Token.Exchange
import Federation.Token.Impersonation

/-!
# The configuration of an external account

Everything about an account that never changes: who it is, how its subject tokens are found, where
they are exchanged, and what is asked for.  `fetch` gets a new access token.
-/

namespace Federation

structure Configuration where
  audience : String
  tokenType : String
  tokenUrl : String
  tokenInfoUrl : Option String
  impersonationUrl : Option String
  /-- the lifetime of impersonated tokens in seconds -/
  lifetime : Option Nat
  clientId : Option String
  clientSecret : Option String
  userProject : Option String
  domain : String
  scopes : List String
  defaultScopes : List String
  source : Source
  sourceInfo : Option Json.Value

namespace Configuration

/-! ## the audience -/

/-- what stands before the location of a workforce pool -/
def workforceFront : List Char := "//iam.googleapis.com/locations/".toList

def workforceMiddle : List Char := "/workforcePools/".toList

def isWorkforceAudience (audience : String) : Bool :=
  match Text.stripStart? workforceFront audience.toList with
  | none => false
  | some rest =>
    !(rest.takeWhile (· ≠ '/')).isEmpty &&
      (Text.stripStart? workforceMiddle (rest.dropWhile (· ≠ '/'))).isSome

def isWorkforcePool (c : Configuration) : Bool := isWorkforceAudience c.audience

def isUser (c : Configuration) : Bool := c.isWorkforcePool && c.impersonationUrl.isNone

/-! ## the service account -/

/-- what follows the name of a service account -/
def accountMark : List Char := ":generateAccessToken".toList

/-- the service account in the last segment of a URL -/
def accountIn? (url : String) : Option String :=
  match Text.cut? accountMark url.toList with
  | none => none
  | some (before, after) =>
    if after.contains '/' || !before.contains '/' then none
    else (Text.splitAt '/' before).getLast?.map String.ofList

/-- the service account that is impersonated -/
def email? (c : Configuration) : Option String := c.impersonationUrl.bind accountIn?

/-! ## scopes -/

def requestedScopes (c : Configuration) : List String :=
  if c.scopes.isEmpty then c.defaultScopes else c.scopes

def requiresScopes (c : Configuration) : Bool := c.scopes.isEmpty && c.defaultScopes.isEmpty

def hasScopes (c : Configuration) (scopes : List String) : Bool :=
  scopes.all c.requestedScopes.contains

/-! ## fetching a token -/

/-- the scope of tokens that only serve to impersonate -/
def iamScope : String := "https://www.googleapis.com/auth/iam"

def purpose (c : Configuration) : Purpose := ⟨c.tokenType, c.audience⟩

def subjectToken (c : Configuration) : Action String := c.source.retrieve c.purpose

/-- a client without a secret has an empty one -/
def client (c : Configuration) : Option Client := c.clientId.map (⟨·, c.clientSecret.getD ""⟩)

def flag (name : String) (b : Bool) : String := name ++ "/" ++ if b then "true" else "false"

def details (c : Configuration) : List String :=
  ["google-byoid-sdk", flag "sa-impersonation" c.impersonationUrl.isSome,
    flag "config-lifetime" c.lifetime.isSome, "source/" ++ c.source.kind]

/-- the exchange of a subject token; the client takes precedence over the project that pays -/
def exchange (c : Configuration) (subjectToken : String) : Exchange where
  url := c.tokenUrl
  client := c.client
  details := c.details
  subjectToken := subjectToken
  tokenType := c.tokenType
  audience := c.audience
  scopes := if c.impersonationUrl.isSome then [iamScope] else c.requestedScopes
  userProject := if c.clientId.isSome then none else c.userProject

def impersonation? (c : Configuration) : Option Impersonation :=
  c.impersonationUrl.map (⟨·, c.requestedScopes, c.lifetime.getD Token.defaultLifetime⟩)

def fetch (c : Configuration) (boundary : Option Boundary) : Action Token := do
  let subject ← c.subjectToken
  let answer ← (c.exchange subject).run
  match c.impersonation? with
  | some i => i.run answer.accessToken boundary
  | none => fun w => (answer.token w.clock, w)

end Configuration

end Federation
