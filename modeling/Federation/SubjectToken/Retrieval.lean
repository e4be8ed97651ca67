import Federation.SubjectToken.Certificate

/-!
# Fetching subject tokens

What each kind of source does to get a subject token.  A token that comes out of a text is never
empty.
-/

namespace Federation

/-- the token in a text; `origin` names the text in errors -/
def TokenFormat.extract (format : TokenFormat) (origin text : String) : Except Failure String := do
  let token ← match format with
    | .text => pure text
    | .json field => match Json.parse (Utf8.encode text) with
      | .error _ => throw (.tokenNotFound origin field)
      | .ok v => match v.member? field with
        | some (.string token) => pure token
        | _ => throw (.tokenNotFound origin field)
  if token.isEmpty then throw .tokenEmpty else pure token

namespace Source

def fromFile (path : String) (format : TokenFormat) : Action String := do
  match ← Action.readText path with
  | .error .notFound => throw (.fileMissing path)
  | .error fault => throw (.fileUnreadable path fault)
  | .ok text => Action.lift (format.extract path (Text.trim text))

def fromUrl (address : String) (headers : Http.Headers) (format : TokenFormat) :
    Action String := do
  let res ← Action.call .subjectToken (.get address headers)
  Action.lift (format.extract address (Utf8.lossy res.body))

def fromCertificate (location : CertificateLocation) (chain : Option String)
    (resolver : CertificateResolver) : Action String := do
  let paths ← resolver.paths location
  let leaf ← CertificateChain.readLeaf paths.certificate
  let rest ← CertificateChain.rest leaf chain
  pure (CertificateChain.token (leaf :: rest))

def retrieve (s : Source) (purpose : Purpose) : Action String :=
  match s with
  | .file path format => fromFile path format
  | .url address headers format => fromUrl address headers format
  | .certificate location chain resolver => fromCertificate location chain resolver
  | .supplied => Action.supplied purpose

/-- the files of the workload certificate and its key, which only a certificate source has -/
def certificatePaths (s : Source) : Action CertificatePaths :=
  match s with
  | .certificate location _ resolver => resolver.paths location
  | _ => throw .noCertificateSource

end Source

end Federation
