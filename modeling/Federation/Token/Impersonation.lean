import Federation.Boundary.Basic
import Federation.Token.Basic
import Federation.World

/-!
# Impersonating service accounts

An access token is traded for one of a service account.  The answer says when that one expires; only
the time left by the wall clock counts, and it is added to the reading of the monotonic clock.
-/

namespace Federation

structure Impersonation where
  url : String
  scopes : List String
  /-- the lifetime that is asked for, in seconds -/
  lifetime : Nat
  deriving DecidableEq, Repr

namespace Impersonation

/-! ## the request -/

def body (i : Impersonation) : Json.Value :=
  .object [("delegates", .null), ("scope", .strings i.scopes),
    ("lifetime", .string (Decimal.render i.lifetime ++ "s"))]

def boundaryHeaders (boundary : Option Boundary) : List Http.Header :=
  match boundary with
  | none => []
  | some b => [Http.allowedLocations b.encoded]

/-- the headers of a request for `caller`; the boundary of all locations is sent like any other -/
def planned (caller : String) (boundary : Option Boundary) : List Http.Header :=
  [Http.contentType "application/json", Http.bearer caller,
    Http.metrics ["auth-request-type/at", "cred-type/imp"]] ++ boundaryHeaders boundary

/-! ## the answer -/

structure Answer where
  accessToken : String
  expireTime : String
  deriving DecidableEq, Repr

open Json (Reader Field)

def fields : List (Field Reader Answer) := [
  ⟨"accessToken", .required, (fun t a => { a with accessToken := t }) <$> Json.string⟩,
  ⟨"expireTime", .required, (fun t a => { a with expireTime := t }) <$> Json.string⟩]

def Answer.parse (payload : Bytes) : Except Json.Refusal Answer :=
  Json.parseAs (Json.record "GenerateAccessTokenResponse" fields ⟨"", ""⟩) payload

def remaining (instant wall : Int) : Clock.Duration := (instant - wall).toNat

def Answer.token (a : Answer) (wall : Int) (now : Clock.Reading) : Except Failure Token :=
  match Timestamp.read a.expireTime with
  | .error fault => .error (.expireTime fault)
  | .ok t => match Clock.deadline? now (remaining t.instant wall) with
    | none => .error (.expireTimeTooLate a.expireTime)
    | some expiry => .ok ⟨a.accessToken, Token.bearer, some expiry⟩

def run (i : Impersonation) (caller : String) (boundary : Option Boundary) : Action Token := do
  let (legal, headers) := Http.Headers.setEach [] (planned caller boundary)
  if !legal then throw .headerValue
  let res ← Action.call .impersonation (.post i.url headers i.body.compact)
  match Answer.parse res.body with
  | .error refusal => throw (.payload .impersonation refusal)
  | .ok a => fun w => (a.token w.wall w.clock, w)

end Impersonation

end Federation
