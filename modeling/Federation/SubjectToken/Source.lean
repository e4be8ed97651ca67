import Federation.Http.Header
import Federation.Json.Printer
import Federation.Report
import Federation.Text.Blank

/-!
# Sources of subject tokens

A configuration names one source: a file, a URL or a certificate; an application may supply the
tokens itself instead.  `Source.ofConfig` checks the whole description once, so that fetching a
token never looks at it again.
-/

namespace Federation

/-- how a token is found in the text of a file or a response -/
inductive TokenFormat where
  | text
  | json (field : String)
  deriving DecidableEq, Repr

inductive CertificateLocation where
  | default
  | path (p : String)
  deriving DecidableEq, Repr

structure CertificatePaths where
  certificate : String
  key : String
  deriving DecidableEq, Repr

inductive CertificateResolver where
  | configuration
  | custom (resolve : CertificateLocation → Except Report CertificatePaths)

inductive Source where
  | file (path : String) (format : TokenFormat)
  | url (url : String) (headers : Http.Headers) (format : TokenFormat)
  | certificate (location : CertificateLocation) (chain : Option String)
      (resolver : CertificateResolver)
  | supplied

namespace Source

def kind : Source → String
  | .file _ _ => "file"
  | .url _ _ _ => "url"
  | .certificate _ _ _ => "x509"
  | .supplied => "programmatic"

/-! ## defects of a description -/

inductive Defect where
  | missing
  | sourceAndSupplier
  | notObject
  | noKind
  | severalKinds
  | environmentId
  | fieldNotString (field : String)
  | headersNotObject
  | headerNotString (name : String)
  | headerName
  | headerValue
  | formatNotObject
  | formatFieldMissing
  | formatUnknown (format : String)
  | certificateNotObject
  | useDefaultNotBoolean (json : String)
  | locationAndDefault
  | noLocation
  deriving DecidableEq, Repr

def Defect.message : Defect → String
  | .missing => "A valid credential source or a subject token supplier must be provided."
  | .sourceAndSupplier =>
    "Identity pool credential cannot have both a credential source and a subject token supplier."
  | .notObject => "Invalid credential_source. The credential_source is not a dict."
  | .noKind => "Missing credential_source. A 'file', 'url', or 'certificate' must be provided."
  | .severalKinds =>
    "Ambiguous credential_source. 'file', 'url', and 'certificate' are mutually exclusive."
  | .environmentId => "Invalid Identity Pool credential_source field 'environment_id'"
  | .fieldNotString field =>
    "Invalid credential_source field '" ++ field ++ "', expected a string"
  | .headersNotObject => "Invalid credential_source headers, expected a dict"
  | .headerNotString name =>
    "Invalid credential_source header '" ++ name ++ "', expected a string"
  | .headerName => "invalid HTTP header name"
  | .headerValue => "failed to parse header value"
  | .formatNotObject => "Invalid credential_source format, expected a dict"
  | .formatFieldMissing => "Missing subject_token_field_name for JSON credential_source format"
  | .formatUnknown format => "Invalid credential_source format '" ++ format ++ "'"
  | .certificateNotObject => "Invalid credential_source certificate, expected a dict"
  | .useDefaultNotBoolean json =>
    "Invalid certificate configuration, use_default_certificate_config must be a boolean, got " ++
      json
  | .locationAndDefault =>
    "Invalid certificate configuration, cannot specify both a certificate_config_location and " ++
      "use_default_certificate_config=true."
  | .noLocation =>
    "Invalid certificate configuration, use_default_certificate_config should be true if no " ++
      "certificate_config_location is provided."

/-! ## parts of a description -/

open Json (Value Members get? present?)

def stringField (ms : Members) (field : String) : Except Defect String :=
  match get? ms field with
  | some (.string s) => .ok s
  | _ => .error (.fieldNotString field)

/-- the name of a format as it is written, or as JSON if it is no string -/
def formatName (ms : Members) : String :=
  match get? ms "type" with
  | none => "text"
  | some .null => "text"
  | some (.string s) => s
  | some v => v.compact

/-- the format of the token.  Only the letters `A` to `Z` have the letters of `text` and `json` as
their small forms, so no other case mapping is needed to compare the name. -/
def formatOf (ms : Members) : Except Defect TokenFormat :=
  match present? ms "format" with
  | none => .ok .text
  | some (.object fs) =>
    let name := formatName fs
    if Text.lower name = "text" then .ok .text
    else if Text.lower name = "json" then
      match get? fs "subject_token_field_name" with
      | some (.string field) =>
        if field.isEmpty then .error .formatFieldMissing else .ok (.json field)
      | _ => .error .formatFieldMissing
    else .error (.formatUnknown name)
  | some _ => .error .formatNotObject

def headerOf (name : String) (v : Value) : Except Defect Http.Header :=
  match v with
  | .string value => match Http.name? name with
    | none => .error .headerName
    | some small =>
      if Http.isValue value then .ok ⟨small, value, false⟩ else .error .headerValue
  | _ => .error (.headerNotString name)

/-- the configured headers, in the order of their names as they are written; of names that differ in
case only the last one stays -/
def headersFrom (hs : Http.Headers) : Members → Except Defect Http.Headers
  | [] => .ok hs
  | (name, v) :: rest => do
    let h ← headerOf name v
    headersFrom (hs.set h) rest

def headersOf (ms : Members) : Except Defect Http.Headers :=
  match present? ms "headers" with
  | none => .ok []
  | some (.object hs) => headersFrom [] hs
  | some _ => .error .headersNotObject

/-- a member that is a string and not empty -/
def filled? (ms : Members) (field : String) : Option String :=
  match get? ms field with
  | some (.string s) => if s.isEmpty then none else some s
  | _ => none

def useDefault (ms : Members) : Except Defect Bool :=
  match get? ms "use_default_certificate_config" with
  | none => .ok false
  | some .null => .ok false
  | some (.bool b) => .ok b
  | some (.string s) =>
    if Text.lower s = "true" then .ok true
    else if Text.lower s = "false" then .ok false
    else .error (.useDefaultNotBoolean (Value.string s).compact)
  | some v => .error (.useDefaultNotBoolean v.compact)

def certificateOf (resolver : CertificateResolver) (ms : Members) : Except Defect Source :=
  match get? ms "certificate" with
  | some (.object fs) => do
    let usual ← useDefault fs
    let location ← match usual, filled? fs "certificate_config_location" with
      | true, some _ => throw .locationAndDefault
      | false, none => throw .noLocation
      | true, none => pure .default
      | false, some p => pure (.path p)
    pure (.certificate location (filled? fs "trust_chain_path") resolver)
  | _ => .error .certificateNotObject

/-! ## the description -/

def kinds : List String := ["file", "url", "certificate"]

def ofMembers (resolver : CertificateResolver) (ms : Members) : Except Defect Source :=
  match kinds.filter (fun k => (present? ms k).isSome) with
  | [] => .error .noKind
  | [k] =>
    if (get? ms "environment_id").isSome then .error .environmentId
    else if k = "file" then do
      let path ← stringField ms "file"
      let format ← formatOf ms
      pure (.file path format)
    else if k = "url" then do
      let url ← stringField ms "url"
      let headers ← headersOf ms
      let format ← formatOf ms
      pure (.url url headers format)
    else certificateOf resolver ms
  | _ => .error .severalKinds

/-- the source that a configuration describes, or that an application supplies -/
def ofConfig (config : Option Value) (supplier : Bool) (resolver : CertificateResolver) :
    Except Defect Source :=
  match config.filter (!·.isNull), supplier with
  | none, false => .error .missing
  | some _, true => .error .sourceAndSupplier
  | none, true => .ok .supplied
  | some (.object ms), false => ofMembers resolver ms
  | some _, false => .error .notObject

end Source

end Federation
