import Federation.Encoding.Form
import Federation.Http.Outgoing
import Federation.Json.Reader
import Federation.Text.Blank
import Federation.Token.Basic
import Federation.World

/-!
# Exchanging subject tokens

A subject token is posted as a form to a security token service, which answers with an access token.
The service may give the lifetime of the token as a number or as a numeral in a string.
-/

namespace Federation

structure Client where
  id : String
  secret : String
  deriving DecidableEq, Repr

structure Exchange where
  url : String
  client : Option Client
  details : List String
  subjectToken : String
  tokenType : String
  audience : String
  scopes : List String
  userProject : Option String
  deriving DecidableEq, Repr

namespace Exchange

/-! ## the request -/

def grantType : String := "urn:ietf:params:oauth:grant-type:token-exchange"
def accessTokenType : String := "urn:ietf:params:oauth:token-type:access_token"

/-- the options, escaped once before the form escapes them again -/
def options (project : String) : String :=
  percent ['-', '.', '_', '~', '/'] (Json.spacedMember "userProject" project)

def scopeFields (scopes : List String) : List Form.Field :=
  if scopes.isEmpty then [] else [("scope", " ".intercalate scopes)]

def optionFields (userProject : Option String) : List Form.Field :=
  match userProject with
  | none => []
  | some project => [("options", options project)]

def form (e : Exchange) : List Form.Field :=
  [("grant_type", grantType), ("audience", e.audience)] ++ scopeFields e.scopes ++
    [("requested_token_type", accessTokenType), ("subject_token", e.subjectToken),
      ("subject_token_type", e.tokenType)] ++ optionFields e.userProject

def clientHeaders (client : Option Client) : List Http.Header :=
  match client with
  | none => []
  | some c => [Http.basic c.id c.secret]

/-- the headers of the request, all of which have legal values -/
def headers (e : Exchange) : Http.Headers :=
  [Http.metrics e.details, Http.contentType "application/x-www-form-urlencoded"] ++
    clientHeaders e.client

def request (e : Exchange) : Http.Request := .post e.url e.headers (Form.encode e.form)

/-! ## the answer -/

structure Answer where
  accessToken : String
  tokenType : Option String
  /-- the lifetime in seconds -/
  lifetime : Option Nat
  deriving DecidableEq, Repr

open Json (Reader Field)

def seconds : Json.Value → Except Json.Cause Nat
  | .number (.natural n) => .ok n
  | .string s => (Decimal.read (Text.trim s)).mapError .numeral
  | _ => .error (.noVariant "Seconds")

/-- reads a lifetime off a text; one that is refused is a fault of the whole answer -/
def lifetime : Reader Nat := do
  match seconds (← Json.value (Json.maxDepth - 1)) with
  | .ok n => pure n
  | .error cause => Json.floating cause

def fields : List (Field Reader Answer) := [
  ⟨"access_token", .required, (fun t a => { a with accessToken := t }) <$> Json.string⟩,
  ⟨"issued_token_type", .defaulted, (fun _ a => a) <$> Json.optional Json.string⟩,
  ⟨"token_type", .defaulted, (fun t a => { a with tokenType := t }) <$>
    Json.optional Json.string⟩,
  ⟨"expires_in", .defaulted, (fun n a => { a with lifetime := n }) <$> Json.optional lifetime⟩,
  ⟨"scope", .defaulted, (fun _ a => a) <$> Json.optional Json.string⟩]

def Answer.parse (payload : Bytes) : Except Json.Refusal Answer :=
  Json.parseAs (Json.record "TokenResponse" fields ⟨"", none, none⟩) payload

def Answer.seconds (a : Answer) : Nat := a.lifetime.getD Token.defaultLifetime

/-- the token of an answer that is good until `deadline?`; none if the clock cannot show that -/
def Answer.tokenUntil (a : Answer) : (deadline? : Option Clock.Reading) → Except Failure Token
  | none => .error (.expiresIn a.seconds)
  | some expiry => .ok ⟨a.accessToken, a.tokenType.getD Token.bearer, some expiry⟩

/-- the token of an answer, at the reading `now` of the clock -/
def Answer.token (a : Answer) (now : Clock.Reading) : Except Failure Token :=
  a.tokenUntil (Clock.deadline? now (a.seconds * Clock.second))

def run (e : Exchange) : Action Answer := do
  let res ← Action.call .exchange e.request
  match Answer.parse res.body with
  | .error refusal => throw (.payload .exchange refusal)
  | .ok a => pure a

end Exchange

end Federation
