import Federation.Http.Outgoing
import Federation.Json.Reader

/-!
# Trust boundaries

A trust boundary lists the locations where a token may be used, in plain and in the encoded form
that is sent along with requests.  One encoded form stands for all locations, and is not sent.
-/

namespace Federation

structure Boundary where
  locations : List String
  encoded : String
  deriving DecidableEq, Repr

namespace Boundary

/-- the encoded form of all locations -/
def everywhere : String := "0x0"

def noOp : Boundary := ⟨[], everywhere⟩

def isNoOp (b : Boundary) : Bool := b.encoded = everywhere

def header? (b : Boundary) : Option Http.Header :=
  if b.isNoOp then none else some (Http.allowedLocations b.encoded)

/-! ## JSON -/

def toJson (b : Boundary) : Json.Value :=
  .object [("locations", .strings b.locations), ("encodedLocations", .string b.encoded)]

def fields : List (Json.Field Json.Reader Boundary) := [
  ⟨"locations", .defaulted, (fun l b => { b with locations := l }) <$> Json.strings⟩,
  ⟨"encodedLocations", .required, (fun e b => { b with encoded := e }) <$> Json.string⟩]

def reader : Json.Reader Boundary := Json.record "TrustBoundary" fields ⟨[], ""⟩

def parse (text : Bytes) : Except Json.Refusal Boundary := Json.parseAs reader text

def render (b : Boundary) : String := b.toJson.compact

end Boundary

end Federation
