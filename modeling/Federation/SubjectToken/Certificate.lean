import Federation.Certificate.X509
import Federation.Json.Reader
import Federation.SubjectToken.Source
import Federation.World

/-!
# Subject tokens from certificates

The subject token of a workload certificate is a JSON array with the certificate and, if a trust
chain file is configured, the certificates of that file in their order.  The file may start with the
workload certificate itself, which is then not repeated; anywhere else it is an error.
-/

namespace Federation

namespace CertificateConfig

open Json (Reader Field)

/-! ## the certificate configuration file -/

structure Draft where
  certificate : String := ""
  key : String := ""

def workloadFields : List (Field Reader Draft) := [
  ⟨"cert_path", .required, (fun p d => { d with certificate := p }) <$> Json.string⟩,
  ⟨"key_path", .required, (fun p d => { d with key := p }) <$> Json.string⟩]

def workload : Reader Draft := Json.record "WorkloadConfig" workloadFields {}

def configsFields : List (Field Reader (Option Draft)) := [
  ⟨"workload", .optional, (fun w _ => w) <$> Json.optional workload⟩]

def fileFields : List (Field Reader (Option Draft)) := [
  ⟨"cert_configs", .required,
    (fun w _ => w) <$> Json.record "CertConfigs" configsFields none⟩]

def parse (text : String) : Except Json.Refusal (Option CertificatePaths) :=
  (·.map fun d => ⟨d.certificate, d.key⟩) <$>
    Json.parseAs (Json.record "CertificateConfigFile" fileFields none) (Utf8.encode text)

/-- the place of the configuration file below the home directory -/
def usualPlace : List String := [".config", "gcloud", "certificate_config.json"]

def defaultPath? (e : Environment) : Option String :=
  match e.certificateConfig with
  | some path => some path
  | none => e.home.map fun home => usualPlace.foldl Files.join home

def path? (e : Environment) : CertificateLocation → Option String
  | .path p => some p
  | .default => defaultPath? e

def resolve (location : CertificateLocation) : Action CertificatePaths := do
  match ← Action.ask (path? ·.environment location) with
  | none => throw .configNowhere
  | some path => match ← Action.readText path with
    | .error fault => throw (.configUnreadable path fault)
    | .ok text => match parse text with
      | .error refusal => throw (.configMalformed path refusal)
      | .ok none => throw (.configWithoutWorkload path)
      | .ok (some paths) => pure paths

end CertificateConfig

def CertificateResolver.paths (r : CertificateResolver) (location : CertificateLocation) :
    Action CertificatePaths :=
  match r with
  | .configuration => CertificateConfig.resolve location
  | .custom resolve => Action.lift ((resolve location).mapError .resolver)

namespace CertificateChain

def readLeaf (path : String) : Action Bytes := do
  match ← Action.readFile path with
  | .error fault => throw (.leafUnreadable path fault)
  | .ok file => match Pem.certificates file with
    | [] => throw (.leafMissing path)
    | .error fault :: _ => throw (.leafMalformed path fault)
    | .ok der :: _ => pure der

def readAll (path : String) : Action (List Bytes) := do
  match ← Action.readFile path with
  | .error .notFound => throw (.chainMissing path)
  | .error fault => throw (.chainUnreadable path fault)
  | .ok file => match Pem.all file with
    | .error fault => throw (.chainMalformed path fault)
    | .ok [] => throw (.chainEmpty path)
    | .ok certs => pure certs

def keyOf (der : Bytes) : Except Failure Bytes :=
  match X509.publicKey? der with
  | some key => .ok key
  | none => .error .keyUnreadable

/-- the certificates `certs`, of which the first may hold the key `leafKey`; it is left out then -/
def behindLeaf (leafKey : Bytes) (first : Bool) : List Bytes → Except Failure (List Bytes)
  | [] => .ok []
  | cert :: rest => do
    if (← keyOf cert) = leafKey then
      if first then behindLeaf leafKey false rest else throw .leafNotFirst
    else
      let more ← behindLeaf leafKey false rest
      pure (cert :: more)

def rest (leaf : Bytes) : Option String → Action (List Bytes)
  | none => pure []
  | some path => do
    let leafKey ← Action.lift (keyOf leaf)
    let certs ← readAll path
    Action.lift (behindLeaf leafKey true certs)

def token (certs : List Bytes) : String := Json.spacedStrings (certs.map Base64.encode)

end CertificateChain

end Federation
