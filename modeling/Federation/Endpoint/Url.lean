import Federation.Encoding.Form
import Federation.Endpoint.PlainForm
import Federation.Text.Blank
import Federation.Text.Decimal

/-!
# The host of an endpoint URL

An endpoint URL starts with `https://` in letters of any case and holds no blank and no control
character.  Behind the slashes, of which there may be more and which may be backslashes, stand an
optional user with an `@`, the host, and an optional port; the host may be written with percent
escapes and with characters that stand for ASCII text.
-/

namespace Federation.Endpoint

/-- `/`, `\`, `?` and `#`, which end the authority of a URL -/
def endsAuthority (c : Char) : Bool := c = '/' || c = '\\' || c = '?' || c = '#'

/-- what stands behind the last `@`, or all if there is none -/
def afterUser (cs : List Char) : List Char :=
  (cs.reverse.takeWhile (· ≠ '@')).reverse

def maxPort : Nat := 65535

def isPortFrom (n : Nat) : List Char → Bool
  | [] => true
  | c :: cs => match Decimal.value? c with
    | none => false
    | some d => n * 10 + d ≤ maxPort && isPortFrom (n * 10 + d) cs

/-- a colon and a port, or nothing at all -/
def isPort : List Char → Bool
  | [] => true
  | c :: cs => c = ':' && isPortFrom 0 cs

/-- the ASCII text that a written host stands for -/
def hostText? (written : List Char) : Option (List Char) :=
  ((Utf8.decode? (percentDecode (Utf8.encode (String.ofList written)))).map String.toList).bind
    plainText?

/-- the host of an authority, if the port is one -/
def hostOf? (authority : List Char) : Option (List Char) :=
  let place := afterUser authority
  let written := place.takeWhile (· ≠ ':')
  if isPort (place.drop written.length) then hostText? written else none

def scheme : List Char := "https://".toList

def host? (url : String) : Option (List Char) :=
  let cs := url.toList
  if cs.any (fun c => Text.isBlank c || Text.isControl c) then none
  else if (cs.take scheme.length).map Char.toLower ≠ scheme then none
  else
    let rest := (cs.drop scheme.length).dropWhile (fun c => c = '/' || c = '\\')
    hostOf? (rest.takeWhile (!endsAuthority ·))

theorem isPort_nil : isPort [] = true := rfl

end Federation.Endpoint
