import Federation.Boundary.Basic
import Federation.Text.Blank
import Federation.World

/-!
# Looking up the trust boundary

The boundary of a service account, or of an identity pool, is kept at an address that depends on the
account or the pool alone.  A lookup carries the access token of the principal and nothing else.
-/

namespace Federation.Boundary

def service (domain : String) : String := "https://iamcredentials." ++ domain ++ "/v1/"

def accountUrl (domain email : String) : String :=
  service domain ++ "projects/-/serviceAccounts/" ++ email ++ "/allowedLocations"

/-! ## identity pools -/

/-- the pools that an audience may name -/
inductive Pool where
  | workload (project pool : String)
  | workforce (pool : String)
  deriving DecidableEq, Repr

def Pool.url (domain : String) : Pool → String
  | .workload project pool =>
    service domain ++ "projects/" ++ project ++ "/locations/global/workloadIdentityPools/" ++
      pool ++ "/allowedLocations"
  | .workforce pool =>
    service domain ++ "locations/global/workforcePools/" ++ pool ++ "/allowedLocations"

/-- `cs` without the text `front` at its start, as often as it stands there; `n` bounds how often -/
def stripAllUpTo (front : List Char) : Nat → List Char → List Char
  | 0, cs => cs
  | n + 1, cs => match Text.stripStart? front cs with
    | none => cs
    | some rest => stripAllUpTo front n rest

def stripAll (front cs : List Char) : List Char := stripAllUpTo front cs.length cs

/-- an audience without what may stand before its first segment -/
def audiencePath (audience : List Char) : List Char :=
  stripAll ['/'] (stripAll "https://iam.googleapis.com/".toList
    (stripAll "//iam.googleapis.com/".toList audience))

def Pool.ofSegments? : List String → Option Pool
  | "projects" :: project :: "locations" :: _ :: "workloadIdentityPools" :: pool :: _ =>
    some (.workload project pool)
  | "locations" :: _ :: "workforcePools" :: pool :: _ => some (.workforce pool)
  | _ => none

def Pool.ofAudience? (audience : String) : Option Pool :=
  Pool.ofSegments? ((Text.splitAt '/' (audiencePath audience.toList)).map String.ofList)

/-! ## the lookup -/

/-- whether the environment asks for lookups.  Of the characters that are not ASCII none has a
letter of `true` as its small form, so no other case mapping is needed. -/
def isEnabled (e : Environment) : Bool :=
  match e.boundaries with
  | none => false
  | some v => Text.lower v = "true" || Text.lower v = "1"

/-- the boundary at `url`; one without an encoded form is refused -/
def fetch (url token : String) : Action Boundary := do
  let (legal, headers) := Http.Headers.setEach [] [Http.bearer token]
  if !legal then throw .headerValue
  let res ← Action.call .lookup (.get url headers)
  match parse res.body with
  | .error refusal => throw (.payload .lookup refusal)
  | .ok b => if b.encoded.isEmpty then throw .noEncodedLocations else pure b

end Federation.Boundary
