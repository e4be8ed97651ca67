import Federation.Account.Configuration
import Federation.Proofs.Encoding.Base64
import Federation.Proofs.Encoding.Form
import Federation.Proofs.Json.Readback
import Federation.Proofs.Refresh.Course
import Federation.Proofs.Refresh.Usable

/-!
# What an exchange asks for

The request of an exchange nests four encodings: the options are a JSON text with escapes inside a
form, and the client stands in base64 in a header.  A service that undoes them one after another
gets back what was configured, whatever characters that has.

* `Exchange.decode_form`             the form gives back the fields;
* `Exchange.parse_options`           the options give back the project;
* `Exchange.authenticates_basic`     the header gives back the client;
* `Configuration.isValue_headers`    every header is legal;
* `Configuration.exchange_is_understood`
                                     the whole request, for every account and in every refresh.
-/

namespace Federation

namespace Http

/-! ## legal values -/

theorem isValue_intercalate {sep : String} (hsep : isValue sep = true) {parts : List String}
    (h : ∀ s ∈ parts, isValue s = true) : isValue (sep.intercalate parts) = true := by
  induction parts with
  | nil => rfl
  | cons s parts ih =>
    obtain ⟨hs, hparts⟩ := List.forall_mem_cons.1 h
    cases parts with
    | nil =>
      rw [String.intercalate_singleton]
      exact hs
    | cons t parts =>
      rw [String.intercalate_cons_cons, isValue_append, isValue_append, hs, hsep, ih hparts]
      rfl

end Http

namespace Exchange

/-! ## the parts of the request -/

theorem decode_form (e : Exchange) : Form.decode (Utf8.encode (Form.encode e.form)) = e.form :=
  Form.decode_encode e.form

/-- the text of the options is read as an object with one member -/
def Names (options project : String) : Prop :=
  Json.parse (percentDecode (Utf8.encode options)) =
    .ok (.object [("userProject", .string project)])

theorem parse_options (project : String) : Names (options project) project := by
  have hplain : ∀ c ∈ ['-', '.', '_', '~', '/'], c.toNat ≤ 0x7F ∧ c ≠ '%' :=
    Utf8.forall_of_all (by decide)
  rw [Names, options, percentDecode_percent hplain, Json.parse_spacedMember]

/-- the header holds the client in base64 -/
def Authenticates (h : Http.Header) (id secret : String) : Prop :=
  ∃ text, h = ⟨Http.authorization, "Basic " ++ text, true⟩ ∧
    Base64.decode (Utf8.encode text) = .ok (Utf8.encode (id ++ ":" ++ secret))

theorem isValue_basic (id secret : String) : Http.isValue (Http.basic id secret).value = true := by
  have hscheme : Http.isValue "Basic " = true := by decide
  have htext : Http.isValue (Base64.encode (Utf8.encode (id ++ ":" ++ secret))) = true := by
    refine List.all_eq_true.2 fun c hc => ?_
    obtain ⟨hlow, hhigh⟩ := Base64.encode_isPrintable _ c hc
    have hne : c.toNat ≠ 0x7F := Nat.ne_of_lt hhigh
    simp [Http.isValueChar, hlow, hne]
  rw [Http.basic, Http.isValue_append, hscheme, htext]
  rfl

theorem authenticates_basic (id secret : String) : Authenticates (Http.basic id secret) id secret :=
  ⟨_, rfl, Base64.decode_encode _⟩

theorem named_authorization (e : Exchange) :
    e.headers.named Http.authorization = clientHeaders e.client := by
  have hclient : ∀ h ∈ clientHeaders e.client, h.name = Http.authorization := by
    intro h hh
    cases hc : e.client with
    | none =>
      rw [hc] at hh
      cases hh
    | some c =>
      rw [hc] at hh
      rw [List.mem_singleton.1 hh]
      rfl
  have hself : (clientHeaders e.client).filter (fun h => h.name = Http.authorization) =
      clientHeaders e.client :=
    List.filter_eq_self.2 fun h hh => decide_eq_true (hclient h hh)
  rw [headers, Http.Headers.named, List.filter_append, hself]
  rfl

end Exchange

namespace Configuration

variable {c : Configuration} {subject : String} {r : Http.Request}

/-- the project that pays; with a client there is none -/
def payer? (c : Configuration) : Option String := if c.clientId.isSome then none else c.userProject

/-- the fields of the form, with the text of the options -/
def asked (c : Configuration) (subject : String) (options? : Option String) : List Form.Field :=
  let scopes := if c.impersonationUrl.isSome then [iamScope] else c.requestedScopes
  [("grant_type", "urn:ietf:params:oauth:grant-type:token-exchange"), ("audience", c.audience)] ++
    (if scopes = [] then [] else [("scope", " ".intercalate scopes)]) ++
    [("requested_token_type", "urn:ietf:params:oauth:token-type:access_token"),
      ("subject_token", subject), ("subject_token_type", c.tokenType)] ++
    options?.toList.map fun text => ("options", text)

/-- what a service reads off the request is what is configured -/
structure Understood (c : Configuration) (subject : String) (r : Http.Request) : Prop where
  posted : r.method = .post ∧ r.url = c.tokenUrl ∧ r.headers.named "content-type" =
    [Http.contentType "application/x-www-form-urlencoded"]
  fields : ∃ body options?, r.body = some body ∧
    Form.decode body = c.asked subject options? ∧ Option.Rel Exchange.Names options? c.payer?
  client : match c.clientId with
    | none => r.headers.named Http.authorization = []
    | some id => ∃ h, r.headers.named Http.authorization = [h] ∧
      Exchange.Authenticates h id (c.clientSecret.getD "")
  exclusive : r.headers.named Http.authorization = [] ∨
    ∀ body, r.body = some body → "options" ∉ (Form.decode body).map Prod.fst
  legal : ∀ h ∈ r.headers, Http.isValue h.value = true

theorem form_exchange (c : Configuration) (subject : String) :
    (c.exchange subject).form = c.asked subject (c.payer?.map Exchange.options) := by
  have hpayer : Exchange.optionFields c.payer? =
      (c.payer?.map Exchange.options).toList.map fun text => ("options", text) := by
    cases c.payer? <;> rfl
  rw [Exchange.form, asked, ← hpayer, Exchange.scopeFields]
  simp only [List.isEmpty_iff]
  rfl

theorem named_exchange (c : Configuration) (subject : String) :
    (c.exchange subject).request.headers.named Http.authorization =
      Exchange.clientHeaders c.client := Exchange.named_authorization _

theorem isValue_metrics (c : Configuration) :
    Http.isValue (Http.metrics c.details).value = true := by
  have hflag : ∀ name b, Http.isValue name = true → Http.isValue (flag name b) = true := by
    intro name b hname
    rw [flag, Http.isValue_append, Http.isValue_append, hname]
    cases b <;> decide
  have hkind : Http.isValue c.source.kind = true := by
    have hall : ∀ kind ∈ ["file", "url", "x509", "programmatic"], Http.isValue kind = true := by
      decide
    refine hall _ ?_
    cases c.source <;> simp [Source.kind]
  refine Http.isValue_intercalate (by decide) ?_
  simp only [details, List.forall_mem_cons]
  refine ⟨by decide, by decide, hflag _ _ (by decide), hflag _ _ (by decide), ?_, nofun⟩
  rw [Http.isValue_append, hkind]
  decide

theorem isValue_headers (c : Configuration) (subject : String) :
    ∀ h ∈ (c.exchange subject).headers, Http.isValue h.value = true := by
  intro h hh
  rcases List.mem_append.1 hh with hh | hh
  · rcases List.mem_cons.1 hh with rfl | hh
    · exact isValue_metrics c
    · obtain rfl := List.mem_singleton.1 hh
      decide
  · have hclient : h ∈ Exchange.clientHeaders c.client := hh
    rw [client] at hclient
    cases hid : c.clientId with
    | none =>
      rw [hid] at hclient
      cases hclient
    | some id =>
      rw [hid] at hclient
      obtain rfl := List.mem_singleton.1 hclient
      exact Exchange.isValue_basic _ _

theorem asked_none (c : Configuration) (subject : String) :
    "options" ∉ (c.asked subject none).map Prod.fst := by
  rw [asked]
  by_cases h : (if c.impersonationUrl.isSome then [iamScope] else c.requestedScopes) = []
  · simp [h]
  · simp [h]

theorem understood_exchange (c : Configuration) (subject : String) :
    c.Understood subject (c.exchange subject).request where
  posted := by
    refine ⟨rfl, rfl, ?_⟩
    show (Exchange.headers _).filter _ = _
    rw [Exchange.headers]
    cases hc : (c.exchange subject).client <;> rfl
  fields := by
    refine ⟨_, c.payer?.map Exchange.options, rfl, ?_, ?_⟩
    · rw [Exchange.decode_form, form_exchange]
    · cases c.payer? with
      | none => exact .none
      | some project => exact .some (Exchange.parse_options project)
  client := by
    rw [named_exchange, client]
    cases c.clientId with
    | none => rfl
    | some id => exact ⟨_, rfl, Exchange.authenticates_basic _ _⟩
  exclusive := by
    rw [named_exchange, client]
    cases hid : c.clientId with
    | none => exact .inl rfl
    | some id =>
      refine .inr fun body hbody => ?_
      obtain rfl : Utf8.encode (Form.encode (c.exchange subject).form) = body :=
        Option.some.inj hbody
      rw [Exchange.decode_form, form_exchange, payer?, hid]
      exact asked_none c subject
  legal := isValue_headers c subject

/-- the body of every exchange is read as exactly the fields that are configured, with options only
for a project without a client, and its header as the client -/
theorem exchange_is_understood :
    (∀ (c : Configuration) (subject : String),
      c.Understood subject (c.exchange subject).request) ∧
    ∀ (a : Account) (l : List Sent) (x : Stage ⊕ Except Failure Token), Course a l x →
      ∀ s ∈ l, s.hop = .exchange →
        ∃ subject, a.configuration.Understood subject s.request := by
  refine ⟨understood_exchange, fun a l x h s hs hhop => ?_⟩
  have hplanned := h.planned s hs
  rw [Sent.Planned, hhop] at hplanned
  obtain ⟨subject, hr⟩ := hplanned
  exact ⟨subject, hr ▸ understood_exchange _ _⟩

end Configuration

end Federation
