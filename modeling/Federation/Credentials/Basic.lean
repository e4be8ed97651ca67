import Federation.Account.Basic
import Federation.Credentials.Slot

/-!
# Credentials

Credentials are an account with what changes over time: the cached token, the trust boundary, the
slot of the background refresh, and whether stale tokens are refreshed in the background.

`refresh` publishes a token only once it is complete, and a failure leaves everything as it was.
-/

namespace Federation

structure Credentials where
  account : Account
  token : Option Token
  boundary : Option Boundary
  slot : Slot Failure
  nonBlocking : Bool

namespace Credentials

def new (account : Account) (boundary : Option Boundary) (nonBlocking : Bool) : Credentials :=
  ⟨account, none, boundary, .idle, nonBlocking⟩

/-- credentials without a token for another account; they start with the boundary and the mode of
these -/
def derive (c : Credentials) (account : Account) : Credentials :=
  new account c.boundary c.nonBlocking

def isValid (c : Credentials) (now : Clock.Reading) : Bool := Freshness.isValid c.token now

def isExpired (c : Credentials) (now : Clock.Reading) : Bool := Freshness.isExpired c.token now

/-- the freshness of the cached token; `none` if the clock cannot show the reading that its expiry
is compared with -/
def freshness? (c : Credentials) (now : Clock.Reading) : Option Freshness :=
  Freshness.of? c.token c.account.threshold now

/-! ## refreshing -/

/-- the boundary after a lookup with a new token; a lookup that fails changes nothing -/
def lookup (c : Credentials) (token : Token) (w : World) : Option Boundary × World :=
  match c.account.lookup? w.environment with
  | none => (c.boundary, w)
  | some url => match (Boundary.fetch url token.value).run w with
    | (.ok boundary, w) => (some boundary, w)
    | (.error _, w) => (c.boundary, w)

/-- gets a new token, looks the boundary up with it, and then publishes it -/
def refresh (c : Credentials) (w : World) : Except Failure Unit × Credentials × World :=
  match (c.account.configuration.fetch c.boundary).run w with
  | (.error f, w) => (.error f, c, w)
  | (.ok token, w) =>
    let (boundary, w) := c.lookup token w
    (.ok (), { c with token := some token, boundary := boundary }, w)

/-- runs the refresh in the background to its end -/
def runBackground (c : Credentials) (w : World) : Credentials × World :=
  match c.refresh w with
  | (.error f, c, w) => ({ c with slot := .ended (some f) }, w)
  | (.ok (), c, w) => ({ c with slot := .ended none }, w)

/-! ## headers -/

/-- the headers that a request with the access token `token` gets -/
def planned (c : Credentials) (token : String) : List Http.Header :=
  Http.bearer token :: (c.account.quotaProject.map Http.quotaProject).toList ++
    (c.boundary.bind Boundary.header?).toList

/-- sets the headers of a request, with the access token `override?` if there is one and the cached
token otherwise; a value that is not legal ends it, and the headers before it are set -/
def apply (c : Credentials) (override? : Option String) (hs : Http.Headers) :
    Except Failure Unit × Http.Headers :=
  match override?.or (c.token.map (·.value)) with
  | none => (.error .noToken, hs)
  | some token => match hs.setEach (c.planned token) with
    | (true, hs) => (.ok (), hs)
    | (false, hs) => (.error .headerValue, hs)

/-! ## requests -/

/-- what has to be done before a request can be sent -/
inductive Need where
  | nothing
  | refresh
  | background
  deriving DecidableEq, Repr

/-- what has to be done at the reading `now`; a failure that is in the slot is taken when the token
is not fresh -/
def need? (c : Credentials) (now : Clock.Reading) : Option (Need × Credentials) :=
  if !c.nonBlocking then some (if c.isValid now then .nothing else .refresh, c)
  else (c.freshness? now).map fun
    | .fresh => (.nothing, c)
    | .invalid => (.refresh, { c with slot := c.slot.takeFailure.2 })
    | .stale => match c.slot.takeFailure with
      | (some _, slot) => (.refresh, { c with slot := slot })
      | (none, slot) => match slot.start? with
        | some slot => (.background, { c with slot := slot })
        | none => (.nothing, { c with slot := slot })

structure Prepared where
  result : Except Failure Unit
  headers : Http.Headers
  credentials : Credentials
  world : World
  started : Bool

/-- sets the headers of a request, after a refresh if one is needed -/
def beforeRequest (c : Credentials) (hs : Http.Headers) (w : World) : Prepared :=
  match c.need? w.clock with
  | none => ⟨.error .clockOverflow, hs, c, w, false⟩
  | some (.refresh, c) => match c.refresh w with
    | (.error f, c, w) => ⟨.error f, hs, c, w, false⟩
    | (.ok (), c, w) =>
      let (result, hs) := c.apply none hs
      ⟨result, hs, c, w, false⟩
  | some (need, c) =>
    let (result, hs) := c.apply none hs
    ⟨result, hs, c, w, need = .background⟩

end Credentials

end Federation
