import Federation.Credentials.Basic
import Federation.Proofs.World.Conversation

/-!
# Where the token of a refresh comes from

A fetch asks up to three times, and the token it returns is in the answer to its last request alone:
that of the impersonation if there is one, and that of the exchange otherwise.  `Grants` says so of
the worlds before and after that request.

* `Configuration.grants_of_run_fetch`   a fetch that succeeds ends with such a request;
* `Credentials.refresh_error`           a refresh that fails leaves the credentials as they were;
* `Credentials.refresh_ok`              a refresh that succeeds changes the token and the boundary,
                                        and the token is the one that was granted.
-/

namespace Federation

namespace Exchange

theorem run_eq_ok_iff {e : Exchange} {w w' : World} {a : Answer} :
    e.run.run w = (.ok a, w') ↔ ∃ res, w.reply = .response res ∧ res.status.isSuccess = true ∧
      Answer.parse res.body = .ok a ∧ w' = w.afterRequest e.request := by
  rw [Exchange.run, Action.run_bind_eq_ok_iff]
  constructor
  · rintro ⟨res, v, hc, hp⟩
    obtain ⟨hr, hs, rfl⟩ := Action.run_call_eq_ok_iff.1 hc
    cases hb : Answer.parse res.body with
    | error refusal =>
      rw [hb] at hp
      cases hp
    | ok a' =>
      rw [hb] at hp
      cases hp
      exact ⟨res, hr, hs, hb, rfl⟩
  · rintro ⟨res, hr, hs, hb, rfl⟩
    refine ⟨res, _, Action.run_call_eq_ok_iff.2 ⟨hr, hs, rfl⟩, ?_⟩
    rw [hb]
    rfl

end Exchange

namespace Impersonation

/-- the request for the token of the service account, once all its headers are legal -/
def request (i : Impersonation) (caller : String) (held : Option Boundary) : Http.Request :=
  .post i.url (Http.Headers.setEach [] (planned caller held)).2 i.body.compact

theorem run_eq (i : Impersonation) (caller : String) (held : Option Boundary) :
    i.run caller held =
      if (planned caller held).all (Http.isValue ·.value) then do
        let res ← Action.call .impersonation (i.request caller held)
        match Answer.parse res.body with
        | .error refusal => throw (.payload .impersonation refusal)
        | .ok a => fun w => (a.token w.wall w.clock, w)
      else throw .headerValue := by
  rw [Impersonation.run, request, ← Http.Headers.setEach_fst _ []]
  rcases Http.Headers.setEach [] (planned caller held) with ⟨_ | _, headers⟩
  · rfl
  · rfl

theorem run_eq_ok_iff {i : Impersonation} {caller : String} {held : Option Boundary}
    {w w' : World} {token : Token} :
    (i.run caller held).run w = (.ok token, w') ↔
      (planned caller held).all (Http.isValue ·.value) = true ∧ ∃ res a, w.reply = .response res ∧
        res.status.isSuccess = true ∧ Answer.parse res.body = .ok a ∧
        a.token w.wall w.clock = .ok token ∧ w' = w.afterRequest (i.request caller held) := by
  rw [run_eq]
  by_cases hl : (planned caller held).all (Http.isValue ·.value) = true
  · rw [if_pos hl, Action.run_bind_eq_ok_iff]
    constructor
    · rintro ⟨res, v, hc, hp⟩
      obtain ⟨hr, hs, rfl⟩ := Action.run_call_eq_ok_iff.1 hc
      cases hb : Answer.parse res.body with
      | error refusal =>
        rw [hb] at hp
        cases hp
      | ok a =>
        rw [hb] at hp
        obtain ⟨ht, hw⟩ := Prod.mk.inj hp
        exact ⟨hl, res, a, hr, hs, hb, ht, hw.symm⟩
    · rintro ⟨_, res, a, hr, hs, hb, ht, rfl⟩
      refine ⟨res, _, Action.run_call_eq_ok_iff.2 ⟨hr, hs, rfl⟩, ?_⟩
      rw [hb]
      exact Prod.ext ht rfl
  · rw [if_neg hl, Action.run_throw]
    constructor
    · intro h
      cases h
    · exact fun h => absurd h.1 hl

end Impersonation

namespace Boundary

def request (url token : String) : Http.Request :=
  .get url (Http.Headers.setEach [] [Http.bearer token]).2

theorem fetch_eq (url token : String) :
    fetch url token =
      if Http.isValue (Http.bearer token).value then do
        let res ← Action.call .lookup (request url token)
        match parse res.body with
        | .error refusal => throw (.payload .lookup refusal)
        | .ok b => if b.encoded.isEmpty then throw .noEncodedLocations else pure b
      else throw .headerValue := by
  have h := Http.Headers.setEach_fst [Http.bearer token] []
  rw [List.all_cons, List.all_nil, Bool.and_true] at h
  rw [fetch, request, ← h]
  rcases Http.Headers.setEach [] [Http.bearer token] with ⟨_ | _, headers⟩
  · rfl
  · rfl

theorem talks_fetch (url token : String) : (fetch url token).Talks := by
  rw [fetch_eq]
  by_cases hl : Http.isValue (Http.bearer token).value = true
  · rw [if_pos hl]
    refine Action.talks_bind (Action.talks_call _ _) fun res => ?_
    rcases parse res.body with refusal | b
    · exact Action.talks_throw _
    · dsimp only
      by_cases hb : b.encoded.isEmpty = true
      · rw [if_pos hb]
        exact Action.talks_throw _
      · rw [if_neg hb]
        exact Action.talks_pure _
  · rw [if_neg hl]
    exact Action.talks_throw _

end Boundary

namespace Configuration

/-- the requests that may end a fetch: those for a token of the service account if one is
impersonated, and those for an exchange otherwise -/
def IsLast (c : Configuration) (r : Http.Request) : Prop :=
  match c.impersonation? with
  | some i => ∃ caller held, r = i.request caller held
  | none => ∃ subject, r = (c.exchange subject).request

/-- `token` is what the answer `body` to such a request says, value and expiry, at the readings
`wall` and `now` of the clocks -/
def Reads (c : Configuration) (body : Bytes) (wall : Int) (now : Clock.Reading) (token : Token) :
    Prop :=
  match c.impersonation? with
  | some _ => ∃ a, Impersonation.Answer.parse body = .ok a ∧ a.token wall now = .ok token
  | none => ∃ a, Exchange.Answer.parse body = .ok a ∧ a.token now = .ok token

/-- the world `v` becomes `v'` by the last request of a fetch, and the token is in the answer -/
def Grants (c : Configuration) (v v' : World) (token : Token) : Prop :=
  ∃ r res, c.IsLast r ∧ v.reply = .response res ∧ res.status.isSuccess = true ∧
    c.Reads res.body v.wall v.clock token ∧ v' = v.afterRequest r

theorem Grants.of_impersonation {c : Configuration} {i : Impersonation}
    (hi : c.impersonation? = some i) {caller : String} {held : Option Boundary} {v v' : World}
    {token : Token} (h : (i.run caller held).run v = (.ok token, v')) : c.Grants v v' token := by
  obtain ⟨_, res, a, hr, hs, hb, ht, hv⟩ := Impersonation.run_eq_ok_iff.1 h
  refine ⟨i.request caller held, res, ?_, hr, hs, ?_, hv⟩
  · rw [IsLast, hi]
    exact ⟨caller, held, rfl⟩
  · rw [Reads, hi]
    exact ⟨a, hb, ht⟩

theorem Grants.of_exchange {c : Configuration} (hi : c.impersonation? = none) {subject : String}
    {v v' : World} {a : Exchange.Answer} {token : Token}
    (h : (c.exchange subject).run.run v = (.ok a, v')) (ht : a.token v'.clock = .ok token) :
    c.Grants v v' token := by
  obtain ⟨res, hr, hs, hb, rfl⟩ := Exchange.run_eq_ok_iff.1 h
  refine ⟨_, res, ?_, hr, hs, ?_, rfl⟩
  · rw [IsLast, hi]
    exact ⟨subject, rfl⟩
  · rw [Reads, hi]
    exact ⟨a, hb, ht⟩

/-- a fetch that succeeds ends with the request that grants its token -/
theorem grants_of_run_fetch {c : Configuration} {held : Option Boundary} {w w' : World}
    {token : Token} (h : (c.fetch held).run w = (.ok token, w')) :
    ∃ rs v, w.Leads rs v ∧ c.Grants v w' token := by
  rw [fetch, Action.run_bind_eq_ok_iff] at h
  obtain ⟨subject, v, hs, h⟩ := h
  obtain ⟨rs, hrs⟩ := c.source.talks_retrieve c.purpose w
  have hv : w.Leads rs v := by
    rw [subjectToken] at hs
    rw [hs] at hrs
    exact hrs
  obtain ⟨a, u, he, h⟩ := Action.run_bind_eq_ok_iff.1 h
  cases hi : c.impersonation? with
  | some i =>
    rw [hi] at h
    obtain ⟨res, _, _, _, rfl⟩ := Exchange.run_eq_ok_iff.1 he
    exact ⟨_, _, hv.trans (.afterRequest v _), .of_impersonation hi h⟩
  | none =>
    rw [hi] at h
    obtain ⟨ht, rfl⟩ := Prod.mk.inj h
    exact ⟨rs, v, hv, .of_exchange hi he ht⟩

end Configuration

namespace Credentials

theorem leads_lookup (c : Credentials) (token : Token) (w : World) :
    ∃ rs, w.Leads rs (c.lookup token w).2 := by
  unfold lookup
  cases c.account.lookup? w.environment with
  | none => exact ⟨[], .refl w⟩
  | some url =>
    obtain ⟨rs, hr⟩ := Boundary.talks_fetch url token.value w
    dsimp only
    rcases h : (Boundary.fetch url token.value).run w with ⟨_ | _, v⟩
    · rw [h] at hr
      exact ⟨rs, hr⟩
    · rw [h] at hr
      exact ⟨rs, hr⟩

theorem refresh_error {c c' : Credentials} {w w' : World} {f : Failure}
    (h : c.refresh w = (.error f, c', w')) : c' = c := by
  unfold refresh at h
  rcases hf : (c.account.configuration.fetch c.boundary).run w with ⟨_ | token, v⟩
  · rw [hf] at h
    cases h
    rfl
  · rw [hf] at h
    cases h

theorem refresh_ok {c c' : Credentials} {w w' : World} (h : c.refresh w = (.ok (), c', w')) :
    ∃ token before v v' after, w.Leads before v ∧ c.account.configuration.Grants v v' token ∧
      v'.Leads after w' ∧ c' = { c with token := some token, boundary := c'.boundary } := by
  unfold refresh at h
  rcases hf : (c.account.configuration.fetch c.boundary).run w with ⟨_ | token, v'⟩
  · rw [hf] at h
    cases h
  · rw [hf] at h
    obtain ⟨before, v, hv, hg⟩ := Configuration.grants_of_run_fetch hf
    obtain ⟨after, hl⟩ := c.leads_lookup token v'
    cases h
    exact ⟨token, before, v, v', after, hv, hg, hl, rfl⟩

end Credentials

end Federation
