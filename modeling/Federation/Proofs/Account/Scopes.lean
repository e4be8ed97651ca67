import Federation.Account.Basic
import Federation.Proofs.Endpoint.Labels
import Federation.Proofs.Json.Compact
import Federation.Proofs.Json.Members
import Federation.Proofs.Token.Exchange

/-!
# Scopes

The scopes of an account are its own or else the default ones.  The same scopes answer whether the
account has some, stand in the form of an exchange, and stand in the body of an impersonation, each
encoded in its own way.  An exchange that only serves to impersonate asks for one fixed scope.

* `Impersonation.parse_body`           the body of an impersonation, read back;
* `Configuration.named_asked`          the scopes in the form of an exchange;
* `Configuration.hasScopes_iff`, `Configuration.requiresScopes_iff`
                                       what the account says of them;
* `Account.scopes_are_requested`       all of it, for every account and in every refresh.
-/

namespace Federation

theorem Decimal.render_eq_toString (n : Nat) : render n = toString n := by
  rw [render, Nat.toString_eq_ofList_toDigits]

namespace Impersonation

/-- the body asks for these scopes for some seconds, and for nothing else -/
def AsksFor (body : Bytes) (scopes : List String) (seconds : Nat) : Prop :=
  Json.parse body = .ok (.object [("delegates", .null),
    ("lifetime", .string (toString seconds ++ "s")), ("scope", .strings scopes)])

theorem parse_body (i : Impersonation) :
    AsksFor (Utf8.encode i.body.compact) i.scopes i.lifetime := by
  have hread : ∀ m ∈ [("delegates", Json.Value.null), ("scope", .strings i.scopes),
      ("lifetime", .string (Decimal.render i.lifetime ++ "s"))],
      ∀ rest, Json.Reads (Json.value 126) (Utf8.encode m.2.compact) rest m.2 := by
    simp only [List.forall_mem_cons]
    exact ⟨Json.reads_compact_null, Json.reads_compact_strings _, Json.reads_compact_string _,
      fun _ h => absurd h List.not_mem_nil⟩
  have hsorted : Json.Sorted [("delegates", Json.Value.null),
      ("lifetime", .string (toString i.lifetime ++ "s")), ("scope", .strings i.scopes)] := by
    have hnames : ["delegates", "lifetime", "scope"].Pairwise (· < ·) := by decide
    exact List.pairwise_map.1 hnames
  rw [AsksFor, body, Json.parse_compact_object hread, Decimal.render_eq_toString,
    Json.ofList_eq_of_perm (.cons _ (.swap _ _ _)) hsorted]

end Impersonation

theorem Text.splitAt_intercalate {words : List String} (hne : words ≠ [])
    (h : ∀ s ∈ words, ' ' ∉ s.toList) :
    (splitAt ' ' (" ".intercalate words).toList).map String.ofList = words := by
  have hfree : ∀ cs ∈ words.map String.toList, ' ' ∉ cs := by
    intro cs hcs
    obtain ⟨s, hs, rfl⟩ := List.mem_map.1 hcs
    exact h s hs
  have htext : (" ".intercalate words).toList = [' '].intercalate (words.map String.toList) :=
    String.toList_intercalate
  rw [splitAt_eq_splitOn, htext, List.splitOn_intercalate _ hfree (mt List.map_eq_nil_iff.1 hne),
    List.map_map]
  simp

namespace Configuration

/-- the scopes that count: the ones that were asked for, or else the default ones -/
def effective (scopes defaultScopes : List String) : List String :=
  if scopes = [] then defaultScopes else scopes

theorem requestedScopes_eq (c : Configuration) :
    c.requestedScopes = effective c.scopes c.defaultScopes := by
  rw [requestedScopes, effective]
  simp only [List.isEmpty_iff]

theorem named_asked (c : Configuration) (subject : String) (options? : Option String) :
    (c.asked subject options?).filter (fun field => field.1 = "scope") =
      if c.impersonationUrl.isSome then [("scope", iamScope)]
      else if c.requestedScopes = [] then [] else [("scope", " ".intercalate c.requestedScopes)] := by
  have hscopes : ∀ scopes : List String,
      (if scopes = [] then [] else [("scope", " ".intercalate scopes)]).filter
        (fun field : Form.Field => field.1 = "scope") =
        if scopes = [] then [] else [("scope", " ".intercalate scopes)] := by
    intro scopes
    split
    · rfl
    · rfl
  have hoptions : (options?.toList.map fun text => ("options", text)).filter
      (fun field : Form.Field => field.1 = "scope") = [] := by
    cases options? <;> rfl
  rw [asked, List.filter_append, List.filter_append, List.filter_append, hscopes, hoptions]
  cases c.impersonationUrl with
  | none => simp
  | some url => rfl

theorem hasScopes_iff (c : Configuration) (scopes : List String) :
    c.hasScopes scopes = true ↔ ∀ s ∈ scopes, s ∈ c.requestedScopes := by
  rw [hasScopes, List.all_eq_true]
  simp only [List.contains_iff_mem]

theorem requiresScopes_iff (c : Configuration) :
    c.requiresScopes = true ↔ c.requestedScopes = [] := by
  rw [requiresScopes, Bool.and_eq_true, List.isEmpty_iff, List.isEmpty_iff, requestedScopes_eq,
    effective]
  by_cases h : c.scopes = []
  · rw [if_pos h]
    exact ⟨And.right, fun hd => ⟨h, hd⟩⟩
  · rw [if_neg h]
    exact ⟨And.left, fun hs => absurd hs h⟩

end Configuration

namespace Account

/-- the request of a refresh asks for the scopes `granted`, in the way of its hop -/
def Asks (a : Account) (granted : List String) (hop : Hop) (r : Http.Request) : Prop :=
  match hop with
  | .exchange => ∃ body, r.body = some body ∧
    (Form.decode body).filter (fun field => field.1 = "scope") =
      if a.configuration.impersonationUrl.isSome then
        [("scope", "https://www.googleapis.com/auth/iam")]
      else if granted = [] then [] else [("scope", " ".intercalate granted)]
  | .impersonation => ∃ body, r.body = some body ∧
    Impersonation.AsksFor body granted (a.configuration.lifetime.getD 3600)
  | _ => True

/-- the scopes `granted` are the ones that count for the account -/
structure ScopedTo (a : Account) (granted : List String) : Prop where
  has : ∀ scopes, a.configuration.hasScopes scopes = true ↔ ∀ s ∈ scopes, s ∈ granted
  requires : a.configuration.requiresScopes = true ↔ granted = []
  exchange : ∀ subject, a.Asks granted .exchange (a.configuration.exchange subject).request
  impersonation : ∀ url ∈ a.configuration.impersonationUrl,
    ∃ i ∈ a.configuration.impersonation?, i.url = url ∧
      ∀ caller held, a.Asks granted .impersonation (i.request caller held)
  /-- that goes for all that a refresh sends, whatever comes of it -/
  sent : ∀ l x, Course a l x → ∀ s ∈ l, a.Asks granted s.hop s.request

theorem asks_exchange (a : Account) (subject : String) :
    a.Asks a.configuration.requestedScopes .exchange
      (a.configuration.exchange subject).request := by
  refine ⟨_, rfl, ?_⟩
  rw [Exchange.decode_form, Configuration.form_exchange, Configuration.named_asked]
  rfl

theorem asks_impersonation {a : Account} {i : Impersonation}
    (hi : a.configuration.impersonation? = some i) (caller : String) (held : Option Boundary) :
    a.Asks a.configuration.requestedScopes .impersonation (i.request caller held) := by
  obtain ⟨url, _, rfl⟩ := Option.map_eq_some_iff.1 hi
  exact ⟨_, rfl, Impersonation.parse_body _⟩

theorem asks_of_planned {a : Account} {s : Sent} (h : s.Planned a) :
    a.Asks a.configuration.requestedScopes s.hop s.request := by
  obtain ⟨hop, r, w⟩ := s
  cases hop with
  | subjectToken => trivial
  | exchange =>
    obtain ⟨subject, rfl⟩ := h
    exact a.asks_exchange subject
  | impersonation =>
    obtain ⟨i, caller, held, hi, rfl⟩ := h
    exact asks_impersonation hi caller held
  | lookup => trivial

theorem scopedTo (a : Account) : a.ScopedTo a.configuration.requestedScopes where
  has := a.configuration.hasScopes_iff
  requires := a.configuration.requiresScopes_iff
  exchange := a.asks_exchange
  impersonation url hurl := by
    have hi : a.configuration.impersonation? = some ⟨url, a.configuration.requestedScopes,
        a.configuration.lifetime.getD Token.defaultLifetime⟩ := by
      rw [Configuration.impersonation?, Option.mem_def.1 hurl, Option.map_some]
    exact ⟨_, hi, rfl, asks_impersonation hi⟩
  sent _ _ h s hs := asks_of_planned (h.planned s hs)

open Federation.Configuration (effective)

/-- the scopes that an account has are the ones that its refreshes ask for; scopes without blanks are
read back in their order; and other scopes count alone, whatever counted before -/
theorem scopes_are_requested :
    (∀ a : Account, a.ScopedTo (effective a.configuration.scopes a.configuration.defaultScopes)) ∧
    (∀ scopes : List String, scopes ≠ [] → (∀ s ∈ scopes, ' ' ∉ s.toList) →
      (Text.splitAt ' ' (" ".intercalate scopes).toList).map String.ofList = scopes) ∧
    ∀ (a : Account) (scopes defaultScopes : List String),
      (a.withScopes scopes defaultScopes).ScopedTo (effective scopes defaultScopes) := by
  have hscoped : ∀ a : Account,
      a.ScopedTo (effective a.configuration.scopes a.configuration.defaultScopes) := by
    intro a
    rw [← Configuration.requestedScopes_eq]
    exact a.scopedTo
  exact ⟨hscoped, fun _ => Text.splitAt_intercalate, fun a scopes defaultScopes =>
    hscoped (a.withScopes scopes defaultScopes)⟩

end Account

end Federation
