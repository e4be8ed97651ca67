import Federation.Endpoint.Url

/-!
# Endpoints that may be called

The hosts of a service are the service name alone, with one more segment before or behind it, or
joined to a segment by a hyphen; `mtls` may follow; the domain is always `googleapis.com`.  A
private endpoint has the label `p` behind the joined name.
-/

namespace Federation.Endpoint

/-- the services that hosts are named for -/
inductive Service where
  | sts
  | iamCredentials
  deriving DecidableEq, Repr

def Service.label : Service → List Char
  | .sts => "sts".toList
  | .iamCredentials => "iamcredentials".toList

def isSegmentChar (c : Char) : Bool := c.isLower || c.isDigit

def groups (label : List Char) : List (List Char) := Text.splitAt '-' label

/-- a group of a segment: letters and digits, at least one -/
def isGroup (g : List Char) : Bool := !g.isEmpty && g.all isSegmentChar

/-- letters and digits in groups with single hyphens between them -/
def isSegment (label : List Char) : Bool := (groups label).all isGroup

/-- a segment joined to the service name behind it -/
def isJoinedBefore (s : Service) (label : List Char) : Bool :=
  isSegment label && 2 ≤ (groups label).length && (groups label).getLast? = some s.label

/-- a segment joined to the service name before it -/
def isJoinedBehind (s : Service) (label : List Char) : Bool :=
  isSegment label && 2 ≤ (groups label).length && (groups label).head? = some s.label

/-- the labels before the domain and `mtls` -/
def isServiceName (s : Service) : List (List Char) → Bool
  | [a] => a = s.label || isJoinedBefore s a
  | [a, b] =>
    (isSegment a && b = s.label) || (a = s.label && isSegment b) ||
      (isJoinedBehind s a && b = ['p'])
  | _ => false

def mtls : List Char := "mtls".toList

/-- the labels of the domain, the last first -/
def domain : List (List Char) := ["com".toList, "googleapis".toList]

def isHostOfReversed (s : Service) (labels : List (List Char)) : Bool :=
  labels.take 2 = domain &&
    (let front := labels.drop 2
     isServiceName s front.reverse ||
      (front.head? = some mtls && isServiceName s (front.drop 1).reverse))

def isHostOf (s : Service) (host : List Char) : Bool :=
  isHostOfReversed s (Text.splitAt '.' host).reverse

def isEndpointOf (s : Service) (url : String) : Bool :=
  match host? url with
  | some host => isHostOf s host
  | none => false

def isTokenUrl (url : String) : Bool := isEndpointOf .sts url

def isImpersonationUrl (url : String) : Bool := isEndpointOf .iamCredentials url

end Federation.Endpoint
