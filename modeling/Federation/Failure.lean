import Federation.Certificate.Pem
import Federation.Files
import Federation.Http.Status
import Federation.Json.Error
import Federation.Report
import Federation.Time.Timestamp

/-!
# Why a refresh fails

One constructor for each cause; `Failure.report` is what the caller sees of it.
-/

namespace Federation

/-- the requests that a refresh may make -/
inductive Hop where
  | subjectToken
  | exchange
  | impersonation
  | lookup
  deriving DecidableEq, Repr

def Hop.task : Hop → String
  | .subjectToken => "Unable to retrieve Identity Pool subject token"
  | .exchange => "failed to exchange subject token"
  | .impersonation => "failed to fetch token"
  | .lookup => "failed to fetch trust boundary"

def Hop.payload : Hop → String
  | .subjectToken => "subject token response"
  | .exchange => "token exchange response"
  | .impersonation => "impersonation response"
  | .lookup => "trust boundary response"

inductive Failure where
  | transport (e : Report)
  /-- the resolver of the application found no certificate -/
  | resolver (e : Report)
  | supplier (transient : Bool) (text : String)
  | status (hop : Hop) (status : Http.Status) (body : Bytes)
  | payload (hop : Hop) (refusal : Json.Refusal)
  | headerValue
  | expiresIn (seconds : Nat)
  | expireTime (fault : Timestamp.Fault)
  | expireTimeTooLate (text : String)
  | noEncodedLocations
  | noToken
  | clockOverflow
  | tokenNotFound (origin field : String)
  | tokenEmpty
  | fileMissing (path : String)
  | fileUnreadable (path : String) (fault : FileFault)
  | noCertificateSource
  | configNowhere
  | configUnreadable (path : String) (fault : FileFault)
  | configMalformed (path : String) (refusal : Json.Refusal)
  | configWithoutWorkload (path : String)
  | leafUnreadable (path : String) (fault : FileFault)
  | leafMalformed (path : String) (fault : Pem.Fault)
  | leafMissing (path : String)
  | keyUnreadable
  | chainMissing (path : String)
  | chainUnreadable (path : String) (fault : FileFault)
  | chainMalformed (path : String) (fault : Pem.Fault)
  | chainEmpty (path : String)
  | leafNotFirst
  deriving DecidableEq, Repr

namespace Failure

def inQuotes (s : String) : String := "'" ++ s ++ "'"

/-- what was being done with a trust chain file that holds no list of certificates -/
def chainTask (path : String) : String :=
  "Error loading PEM certificates from the trust chain file " ++ inQuotes path

/-- the report of a response that is no success: a later attempt may help if the status says nothing
against the request -/
def statusReport (hop : Hop) (status : Http.Status) (body : Bytes) : Report :=
  .plain status.isRetryable
    (hop.task ++ ", status=" ++ status.render ++ ", body=<" ++ Utf8.lossy body ++ ">")

def report : Failure → Report
  | .transport e => e
  | .resolver e => e
  | .supplier transient text => .wrap transient text
  | .status hop code body => statusReport hop code body
  | .payload hop refusal => .because false ("cannot parse " ++ hop.payload) refusal.message
  | .headerValue => .because false "invalid header value" "failed to parse header value"
  | .expiresIn n =>
    .plain false ("invalid expires_in in token exchange response: " ++ Decimal.render n ++ "s")
  | .expireTime fault => .because false "cannot parse impersonation expireTime" fault.message
  | .expireTimeTooLate text => .plain false ("invalid impersonation expireTime " ++ text)
  | .noEncodedLocations => .plain false "trust boundary response is missing encodedLocations"
  | .noToken => .plain false "no access token, call refresh() first"
  | .clockOverflow => .plain false "overflow when adding duration to instant"
  | .tokenNotFound origin field =>
    .plain false ("Unable to parse subject_token from JSON file " ++ inQuotes origin ++
      " using key " ++ inQuotes field)
  | .tokenEmpty => .plain false "Missing subject_token in the credential_source file"
  | .fileMissing path => .plain false ("File " ++ inQuotes path ++ " was not found")
  | .fileUnreadable path fault =>
    .because false ("cannot read subject token file " ++ inQuotes path) fault.message
  | .noCertificateSource =>
    .plain false ("The credential is not configured to use mtls requests. The credential should " ++
      "include a \"certificate\" section in the credential source.")
  | .configNowhere =>
    .plain false "cannot find the certificate configuration, set GOOGLE_API_CERTIFICATE_CONFIG"
  | .configUnreadable path fault =>
    .because false ("cannot read certificate configuration file " ++ inQuotes path) fault.message
  | .configMalformed path refusal =>
    .because false ("cannot parse certificate configuration file " ++ inQuotes path)
      refusal.message
  | .configWithoutWorkload path =>
    .plain false ("no workload certificate configured in " ++ inQuotes path)
  | .leafUnreadable path fault =>
    .because false ("cannot read certificate file " ++ inQuotes path) fault.message
  | .leafMalformed path fault =>
    .because false ("cannot parse certificate file " ++ inQuotes path) fault.message
  | .leafMissing path => .plain false ("no certificate found in " ++ inQuotes path)
  | .keyUnreadable => .because false "cannot parse x509 certificate" ""
  | .chainMissing path => .plain false ("Trust chain file " ++ inQuotes path ++ " was not found.")
  | .chainUnreadable path fault =>
    .because false ("cannot read trust chain file " ++ inQuotes path) fault.message
  | .chainMalformed path fault => .because false (chainTask path) fault.message
  | .chainEmpty path => .plain false (chainTask path)
  | .leafNotFirst =>
    .plain false "The leaf certificate must be at the top of the trust chain file"

def transient (f : Failure) : Bool := f.report.transient

def text (f : Failure) : String := f.report.text

end Failure

end Federation
