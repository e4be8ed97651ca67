import Federation.Proofs.Refresh.Stages

/-!
# The requests of a refresh

In each of its steps a refresh sends at most one request of its own, and it does not get further
unless that was answered with success and the answer could be read.

* `Credentials.leads_proceed`       the requests of a step;
* `Credentials.planned_of_sends`    where they go, and what stands in them;
* `Credentials.succeeded_of_moved`  what the answers were if the refresh gets further.
-/

namespace Federation

/-! ## what a reply says -/

/-- what is made of the reply to a request for the hop -/
def Hop.judge (hop : Hop) : Http.Reply → Except Failure Http.Response
  | .response res =>
    if res.status.isSuccess then .ok res else .error (.status hop res.status res.body)
  | .failure e => .error (.transport e)

theorem Action.run_call_eq (hop : Hop) (r : Http.Request) (w : World) :
    (call hop r).run w = (hop.judge w.reply, w.afterRequest r) := by
  rw [run_call]
  cases w.reply <;> rfl

namespace Exchange

def Answer.of (reply : Http.Reply) : Except Failure Answer :=
  (Hop.exchange.judge reply).bind fun res =>
    (Answer.parse res.body).mapError (.payload .exchange)

theorem run_eq (e : Exchange) (w : World) :
    e.run.run w = (Answer.of w.reply, w.afterRequest e.request) := by
  rw [Exchange.run, Action.run_bind, Action.run_call_eq, Answer.of]
  cases Hop.exchange.judge w.reply with
  | error f => rfl
  | ok res =>
    dsimp only [Except.bind]
    cases Answer.parse res.body <;> rfl

end Exchange

namespace Impersonation

def Answer.of (reply : Http.Reply) : Except Failure Answer :=
  (Hop.impersonation.judge reply).bind fun res =>
    (Answer.parse res.body).mapError (.payload .impersonation)

/-- whether all headers of the request are legal -/
def isLegal (caller : String) (held : Option Boundary) : Bool :=
  (planned caller held).all (Http.isValue ·.value)

variable {caller : String} {held : Option Boundary}

theorem run_of_isLegal (i : Impersonation) (hl : isLegal caller held = true) (w : World) :
    (i.run caller held).run w = ((Answer.of w.reply).bind (·.token w.wall w.clock),
      w.afterRequest (i.request caller held)) := by
  rw [isLegal] at hl
  rw [Impersonation.run_eq, if_pos hl, Action.run_bind, Action.run_call_eq, Answer.of]
  cases Hop.impersonation.judge w.reply with
  | error f => rfl
  | ok res =>
    dsimp only [Except.bind]
    cases Answer.parse res.body <;> rfl

theorem run_of_not_isLegal (i : Impersonation) (hl : ¬isLegal caller held = true) (w : World) :
    (i.run caller held).run w = (.error .headerValue, w) := by
  rw [isLegal] at hl
  rw [Impersonation.run_eq, if_neg hl, Action.run_throw]

end Impersonation

namespace Boundary

def ofReply (reply : Http.Reply) : Except Failure Boundary :=
  (Hop.lookup.judge reply).bind fun res =>
    ((parse res.body).mapError (.payload .lookup)).bind fun b =>
      if b.encoded.isEmpty then .error .noEncodedLocations else .ok b

theorem run_fetch_of_isValue {url token : String}
    (hl : Http.isValue (Http.bearer token).value = true) (w : World) :
    (fetch url token).run w = (ofReply w.reply, w.afterRequest (request url token)) := by
  rw [fetch_eq, if_pos hl, Action.run_bind, Action.run_call_eq, ofReply]
  cases Hop.lookup.judge w.reply with
  | error f => rfl
  | ok res =>
    dsimp only [Except.bind]
    cases parse res.body with
    | error refusal => rfl
    | ok b =>
      dsimp only [Except.mapError]
      by_cases hb : b.encoded.isEmpty = true
      · rw [if_pos hb, if_pos hb]
        rfl
      · rw [if_neg hb, if_neg hb]
        rfl

theorem run_fetch_of_not_isValue {url token : String}
    (hl : ¬Http.isValue (Http.bearer token).value = true) (w : World) :
    (fetch url token).run w = (.error .headerValue, w) := by
  rw [fetch_eq, if_neg hl, Action.run_throw]

end Boundary

/-! ## the requests of a step -/

/-- a request of a refresh -/
structure Sent where
  hop : Hop
  request : Http.Request
  world : World

namespace Configuration

/-- the request of its own that a fetch sends next -/
def request? (c : Configuration) : Fetch → Option (Hop × Http.Request)
  | .begun _ => match c.source with
    | .url address headers _ => some (.subjectToken, .get address headers)
    | _ => none
  | .identified _ subject => some (.exchange, (c.exchange subject).request)
  | .exchanged i held caller =>
    if Impersonation.isLegal caller held then some (.impersonation, i.request caller held)
    else none

/-- the payload of a response for the hop can be read -/
def CanRead (c : Configuration) (hop : Hop) (payload : Bytes) : Prop :=
  match hop with
  | .subjectToken => ∃ address headers format token, c.source = .url address headers format ∧
    format.extract address (Utf8.lossy payload) = .ok token
  | .exchange => ∃ a, Exchange.Answer.parse payload = .ok a
  | .impersonation => ∃ a, Impersonation.Answer.parse payload = .ok a
  | .lookup => ∃ b, Boundary.parse payload = .ok b

end Configuration

/-- the request was answered with success, and the answer could be read -/
def Sent.Succeeded (s : Sent) (c : Configuration) : Prop :=
  ∃ res, s.world.reply = .response res ∧ res.status.isSuccess = true ∧ c.CanRead s.hop res.body

/-- the request is the one that is configured for its hop -/
def Sent.Planned (s : Sent) (a : Account) : Prop :=
  match s.hop with
  | .subjectToken => ∃ address headers format,
    a.configuration.source = .url address headers format ∧ s.request = .get address headers
  | .exchange => ∃ subject, s.request = (a.configuration.exchange subject).request
  | .impersonation => ∃ i caller held,
    a.configuration.impersonation? = some i ∧ s.request = i.request caller held
  | .lookup => ∃ url token,
    a.lookup? s.world.environment = some url ∧ s.request = Boundary.request url token

namespace Credentials

/-- the request of its own that a refresh sends in its step from a stage -/
def request? (c : Credentials) (e : Environment) : Stage → Option (Hop × Http.Request)
  | .begun => none
  | .fetching f => c.account.configuration.request? f
  | .fetched token => match c.account.lookup? e with
    | none => none
    | some url =>
      if Http.isValue (Http.bearer token.value).value then
        some (.lookup, Boundary.request url token.value)
      else none
  | .located _ => none

def sends (c : Credentials) (stage : Stage) (w : World) : List Sent :=
  (c.request? w.environment stage).toList.map fun r => ⟨r.1, r.2, w⟩

end Credentials

/-- the fetch has still to find the subject token -/
def Fetch.IsBegun : Fetch → Prop
  | .begun _ => True
  | _ => False

/-- the refresh has still to find the subject token -/
def Stage.IsEarly : Stage → Prop
  | .begun => True
  | .fetching f => f.IsBegun
  | _ => False

/-- what the refresh has in mind is what is configured -/
def Stage.Fits (c : Configuration) : Stage → Prop
  | .fetching f => f.Fits c
  | _ => True

namespace Configuration

variable (c : Configuration)

theorem leads_subjectToken (held : Option Boundary) (w : World) :
    ∃ own, (own ≠ [] → c.source = .supplied) ∧
      w.Leads (own ++ (c.request? (.begun held)).toList.map Prod.snd) (c.subjectToken.run w).2 := by
  rw [subjectToken, request?]
  cases c.source with
  | file path format =>
    have h : (((Source.file path format).retrieve c.purpose).run w).2 = w :=
      Source.silent_fromFile path format w
    rw [h]
    exact ⟨[], fun hne => absurd rfl hne, .refl w⟩
  | url address headers format =>
    have h : (((Source.url address headers format).retrieve c.purpose).run w).2
        = w.afterRequest (.get address headers) := Source.run_fromUrl address headers format w
    rw [h]
    exact ⟨[], fun hne => absurd rfl hne, .afterRequest w _⟩
  | certificate location chain resolver =>
    have h : (((Source.certificate location chain resolver).retrieve c.purpose).run w).2 = w :=
      Source.silent_fromCertificate location chain resolver w
    rw [h]
    exact ⟨[], fun hne => absurd rfl hne, .refl w⟩
  | supplied =>
    obtain ⟨own, h⟩ := Action.talks_supplied c.purpose w
    refine ⟨own, fun _ => rfl, ?_⟩
    rw [← List.append_nil own] at h
    exact h

theorem leads_advance (f : Fetch) (w : World) :
    ∃ own, (own ≠ [] → c.source = .supplied ∧ f.IsBegun) ∧
      w.Leads (own ++ (c.request? f).toList.map Prod.snd) ((c.advance f).run w).2 := by
  cases f with
  | begun held =>
    obtain ⟨own, ho, h⟩ := c.leads_subjectToken held w
    refine ⟨own, fun hne => ⟨ho hne, trivial⟩, ?_⟩
    rw [advance, Action.run_map]
    exact h
  | identified held subject =>
    refine ⟨[], fun hne => absurd rfl hne, ?_⟩
    have h : ((c.advance (.identified held subject)).run w).2
        = w.afterRequest (c.exchange subject).request := by
      rw [advance, Action.run_bind, Exchange.run_eq]
      cases Exchange.Answer.of w.reply with
      | error e => rfl
      | ok a =>
        dsimp only
        cases c.impersonation? <;> rfl
    rw [h]
    exact .afterRequest w _
  | exchanged i held caller =>
    refine ⟨[], fun hne => absurd rfl hne, ?_⟩
    rw [advance, Action.run_map, request?]
    by_cases hl : Impersonation.isLegal caller held = true
    · rw [if_pos hl, i.run_of_isLegal hl]
      exact .afterRequest w _
    · rw [if_neg hl, i.run_of_not_isLegal hl]
      exact .refl w

end Configuration

namespace Credentials

variable (c : Credentials)

theorem map_request_sends (stage : Stage) (w : World) :
    (c.sends stage w).map Sent.request = (c.request? w.environment stage).toList.map Prod.snd := by
  rw [sends, List.map_map]
  rfl

theorem lookup_eq (token : Token) (w : World) :
    c.lookup token w = match c.request? w.environment (.fetched token) with
      | none => (c.boundary, w)
      | some (_, r) =>
        (((Boundary.ofReply w.reply).toOption.or c.boundary), w.afterRequest r) := by
  rw [lookup, request?]
  cases c.account.lookup? w.environment with
  | none => rfl
  | some url =>
    dsimp only
    by_cases hl : Http.isValue (Http.bearer token.value).value = true
    · rw [if_pos hl, Boundary.run_fetch_of_isValue hl]
      cases Boundary.ofReply w.reply <;> rfl
    · rw [if_neg hl, Boundary.run_fetch_of_not_isValue hl]

/-- in a step a refresh sends its own request for it, if there is one; only a supplier that is asked
for the subject token may send others -/
theorem leads_proceed (stage : Stage) (w : World) :
    ∃ own, (own ≠ [] → c.account.configuration.source = .supplied ∧ stage.IsEarly) ∧
      w.Leads (own ++ (c.sends stage w).map Sent.request) (c.proceed stage w).2.2 := by
  rw [map_request_sends]
  cases stage with
  | begun => exact ⟨[], fun hne => absurd rfl hne, .refl w⟩
  | fetching f =>
    obtain ⟨own, ho, h⟩ := c.account.configuration.leads_advance f w
    refine ⟨own, ho, ?_⟩
    have hw : (c.proceed (.fetching f) w).2.2 = ((c.account.configuration.advance f).run w).2 := by
      rw [proceed]
      rcases (c.account.configuration.advance f).run w with ⟨_ | _ | _, v⟩ <;> rfl
    rw [hw]
    exact h
  | fetched token =>
    refine ⟨[], fun hne => absurd rfl hne, ?_⟩
    have hw : (c.proceed (.fetched token) w).2.2 = (c.lookup token w).2 := rfl
    rw [hw, lookup_eq]
    cases c.request? w.environment (.fetched token) with
    | none => exact .refl w
    | some r => exact .afterRequest w _
  | located token => exact ⟨[], fun hne => absurd rfl hne, .refl w⟩

/-! ## where they go -/

variable {c : Credentials} {stage : Stage} {w : World} {s : Sent}

theorem mem_sends : s ∈ c.sends stage w ↔
    c.request? w.environment stage = some (s.hop, s.request) ∧ s.world = w := by
  obtain ⟨hop, r, v⟩ := s
  simp only [sends, List.mem_map, Option.mem_toList]
  constructor
  · rintro ⟨⟨hop', r'⟩, h, he⟩
    cases he
    exact ⟨h, rfl⟩
  · rintro ⟨h, rfl⟩
    exact ⟨_, h, rfl⟩

theorem planned_of_sends (hf : stage.Fits c.account.configuration) (hs : s ∈ c.sends stage w) :
    s.Planned c.account := by
  obtain ⟨hr, hw⟩ := mem_sends.1 hs
  obtain ⟨hop, r, v⟩ := s
  subst hw
  cases stage with
  | begun => cases hr
  | located token => cases hr
  | fetching f =>
    cases f with
    | begun held =>
      rw [request?, Configuration.request?] at hr
      split at hr
      · next address headers format hsrc =>
        cases hr
        exact ⟨address, headers, format, hsrc, rfl⟩
      · cases hr
    | identified held subject =>
      cases hr
      exact ⟨subject, rfl⟩
    | exchanged i held caller =>
      rw [request?, Configuration.request?] at hr
      split at hr
      · cases hr
        exact ⟨i, caller, held, hf, rfl⟩
      · cases hr
  | fetched token =>
    rw [request?] at hr
    split at hr
    · cases hr
    · next url hu =>
      split at hr
      · cases hr
        exact ⟨url, token.value, hu, rfl⟩
      · cases hr

theorem fits_of_moved {c' : Credentials} {w' : World} {stage' : Stage}
    (h : c.proceed stage w = (.moved stage', c', w')) :
    stage'.Fits c.account.configuration ∧ c'.account = c.account := by
  obtain ⟨rfl, rfl, rfl, _⟩ | ⟨f, f', rfl, rfl, rfl, ha⟩ | ⟨f, token, rfl, rfl, rfl, _⟩ |
    ⟨token, rfl, rfl, rfl, _⟩ := proceed_moved h
  · exact ⟨trivial, rfl⟩
  · exact ⟨(Configuration.fits_of_advance ha).1, rfl⟩
  · exact ⟨trivial, rfl⟩
  · exact ⟨trivial, rfl⟩

end Credentials

/-! ## what the answers are -/

namespace Configuration

theorem succeeded_of_advance {c : Configuration} {f : Fetch} {w w' : World} {x : Fetch ⊕ Token}
    (h : (c.advance f).run w = (.ok x, w')) {hop : Hop} {r : Http.Request}
    (hr : c.request? f = some (hop, r)) : (⟨hop, r, w⟩ : Sent).Succeeded c := by
  cases f with
  | begun held =>
    obtain ⟨subject, hsub, _⟩ := Action.run_map_eq_ok_iff.1 h
    rw [request?] at hr
    split at hr
    · next address headers format hsrc =>
      cases hr
      rw [subjectToken, hsrc] at hsub
      obtain ⟨res, v, hc, hx⟩ := Action.run_bind_eq_ok_iff.1 hsub
      obtain ⟨hreply, hs, _⟩ := Action.run_call_eq_ok_iff.1 hc
      exact ⟨res, hreply, hs, address, headers, format, subject, hsrc, congrArg Prod.fst hx⟩
    · cases hr
  | identified held subject =>
    cases hr
    obtain ⟨a, he, _⟩ := advance_identified h
    obtain ⟨res, hreply, hs, hp, _⟩ := Exchange.run_eq_ok_iff.1 he
    exact ⟨res, hreply, hs, a, hp⟩
  | exchanged i held caller =>
    obtain ⟨token, _, hi⟩ := advance_exchanged h
    obtain ⟨_, res, a, hreply, hs, hp, _⟩ := Impersonation.run_eq_ok_iff.1 hi
    rw [request?] at hr
    split at hr
    · cases hr
      exact ⟨res, hreply, hs, a, hp⟩
    · cases hr

end Configuration

namespace Credentials

theorem succeeded_of_moved {c c' : Credentials} {stage stage' : Stage} {w w' : World}
    (h : c.proceed stage w = (.moved stage', c', w')) {s : Sent} (hs : s ∈ c.sends stage w) :
    s.hop = .lookup ∨ s.Succeeded c.account.configuration := by
  obtain ⟨hr, hw⟩ := mem_sends.1 hs
  obtain ⟨hop, r, v⟩ := s
  subst hw
  obtain ⟨rfl, _⟩ | ⟨f, f', rfl, _, _, ha⟩ | ⟨f, token, rfl, _, _, ha⟩ | ⟨token, rfl, _⟩ :=
    proceed_moved h
  · cases hr
  · exact .inr (Configuration.succeeded_of_advance ha hr)
  · exact .inr (Configuration.succeeded_of_advance ha hr)
  · rw [request?] at hr
    split at hr
    · cases hr
    · split at hr
      · cases hr
        exact .inl rfl
      · cases hr

end Credentials

end Federation
