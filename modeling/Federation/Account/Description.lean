import Federation.Json.Decode

/-!
# Descriptions of external accounts

What a configuration file says about an account, and what an account says about itself.
-/

namespace Federation

structure Description where
  kind : Option String
  audience : String
  tokenType : String
  tokenUrl : Option String
  tokenInfoUrl : Option String
  impersonationUrl : Option String
  lifetime : Option Nat
  clientId : Option String
  clientSecret : Option String
  source : Option Json.Value
  quotaProject : Option String
  userProject : Option String
  domain : Option String

namespace Description

def externalAccount : String := "external_account"

def blank : Description :=
  ⟨none, "", "", none, none, none, none, none, none, none, none, none, none⟩

open Json (Decoder Field)
open Json.Decode (string natural optional record)

def impersonationFields : List (Field Decoder (Option Nat)) := [
  ⟨"token_lifetime_seconds", .defaulted, fun v => (fun n _ => n) <$> optional natural v⟩]

def fields : List (Field Decoder Description) := [
  ⟨"type", .optional, fun v => (fun s d => { d with kind := s }) <$> optional string v⟩,
  ⟨"audience", .required, fun v => (fun s d => { d with audience := s }) <$> string v⟩,
  ⟨"subject_token_type", .required, fun v => (fun s d => { d with tokenType := s }) <$> string v⟩,
  ⟨"token_url", .optional, fun v => (fun s d => { d with tokenUrl := s }) <$> optional string v⟩,
  ⟨"token_info_url", .optional,
    fun v => (fun s d => { d with tokenInfoUrl := s }) <$> optional string v⟩,
  ⟨"service_account_impersonation_url", .optional,
    fun v => (fun s d => { d with impersonationUrl := s }) <$> optional string v⟩,
  ⟨"service_account_impersonation", .defaulted, fun v =>
    (fun n d => { d with lifetime := n }) <$>
      record "ImpersonationOptions" impersonationFields none v⟩,
  ⟨"client_id", .optional, fun v => (fun s d => { d with clientId := s }) <$> optional string v⟩,
  ⟨"client_secret", .optional,
    fun v => (fun s d => { d with clientSecret := s }) <$> optional string v⟩,
  ⟨"credential_source", .optional,
    fun v => (fun s d => { d with source := s }) <$> optional (fun v => .ok v) v⟩,
  ⟨"quota_project_id", .optional,
    fun v => (fun s d => { d with quotaProject := s }) <$> optional string v⟩,
  ⟨"workforce_pool_user_project", .optional,
    fun v => (fun s d => { d with userProject := s }) <$> optional string v⟩,
  ⟨"universe_domain", .optional,
    fun v => (fun s d => { d with domain := s }) <$> optional string v⟩]

def ofJson : Decoder Description := record "ExternalAccountFile" fields blank

/-! ## writing -/

/-- a member that is there if the value is -/
def member? {α : Type} (name : String) (write : α → Json.Value) (v : Option α) :
    List (String × Json.Value) :=
  match v with
  | none => []
  | some a => [(name, write a)]

def writeLifetime (seconds : Nat) : Json.Value :=
  .object [("token_lifetime_seconds", .number (.natural seconds))]

def toJson (d : Description) : Json.Value :=
  .object (Json.ofList (
    member? "type" .string d.kind ++
    [("audience", .string d.audience), ("subject_token_type", .string d.tokenType)] ++
    member? "token_url" .string d.tokenUrl ++
    member? "token_info_url" .string d.tokenInfoUrl ++
    member? "service_account_impersonation_url" .string d.impersonationUrl ++
    member? "service_account_impersonation" writeLifetime d.lifetime ++
    member? "client_id" .string d.clientId ++
    member? "client_secret" .string d.clientSecret ++
    member? "credential_source" id d.source ++
    member? "quota_project_id" .string d.quotaProject ++
    member? "workforce_pool_user_project" .string d.userProject ++
    member? "universe_domain" .string d.domain))

end Description

end Federation
