import Federation.Token.Basic

/-!
# Freshness of tokens

A token counts as expired some seconds before its expiry, and goes stale earlier still: it can be
used then, but it is time to get the next one.
-/

namespace Federation

inductive Freshness where
  | fresh
  | stale
  | invalid
  deriving DecidableEq, Repr

namespace Freshness

def name : Freshness → String
  | .fresh => "Fresh"
  | .stale => "Stale"
  | .invalid => "Invalid"

/-- how long before its expiry a token counts as expired -/
def skew : Clock.Duration := 10 * Clock.second

/-- how long before its expiry a token goes stale, unless configured otherwise -/
def defaultThreshold : Clock.Duration := 225 * Clock.second

end Freshness

namespace Token

/-- a token expires at most `skew` from now -/
def isExpired (t : Token) (now : Clock.Reading) : Bool :=
  match t.expiry with
  | none => false
  | some e => e ≤ now + Freshness.skew

def isValid (t : Token) (now : Clock.Reading) : Bool :=
  !t.value.isEmpty && !t.isExpired now

end Token

namespace Freshness

def isValid (t : Option Token) (now : Clock.Reading) : Bool := t.any (·.isValid now)

def isExpired (t : Option Token) (now : Clock.Reading) : Bool := t.any (·.isExpired now)

/-- the freshness of the cached token; `none` if the clock cannot show the reading `threshold` from
now, which a valid token that expires is compared with -/
def of? (t : Option Token) (threshold : Clock.Duration) (now : Clock.Reading) :
    Option Freshness :=
  match t with
  | none => some .invalid
  | some t =>
    if !t.isValid now then some .invalid
    else match t.expiry with
      | none => some .fresh
      | some e =>
        (Clock.deadline? now threshold).map fun soon => if soon < e then .fresh else .stale

theorem of?_none (threshold : Clock.Duration) (now : Clock.Reading) :
    of? none threshold now = some .invalid := rfl

end Freshness

end Federation
