import Federation.Proofs.Refresh.Need

/-!
# How long tokens last

An answer names a token and gives it some time, from the reading of the clock at which the answer
came.  A call that finds a valid token uses it, and a call that does not gets another; of that one
nobody asks whether it is valid, so it may be empty, or be given less time than has to be left.

* `Configuration.GrantsFor.isValid_iff`       until when a token is valid;
* `Credentials.vouched_of_beforeRequest`      the token of a call that succeeds.
-/

namespace Federation

theorem Token.isValid_iff {t : Token} {now : Clock.Reading} : t.isValid now = true ↔
    t.value ≠ "" ∧ ∀ e ∈ t.expiry, now + Freshness.skew < e := by
  have hvalue : (!t.value.isEmpty) = true ↔ t.value ≠ "" := by
    rw [Bool.not_eq_true', String.isEmpty_eq_false_iff]
  have hexpiry : (!t.isExpired now) = true ↔ ∀ e ∈ t.expiry, now + Freshness.skew < e := by
    rw [isExpired]
    cases t.expiry <;> simp
  rw [isValid, Bool.and_eq_true, hvalue, hexpiry]

/-! ## what an answer gives -/

namespace Configuration

/-- the answer `body` names the token `value`, and gives it the time `d` from the reading `wall` of
the wall clock -/
def Gives (c : Configuration) (body : Bytes) (wall : Int) (value : String)
    (d : Clock.Duration) : Prop :=
  match c.impersonation? with
  | some _ => ∃ a t, Impersonation.Answer.parse body = .ok a ∧ a.accessToken = value ∧
    Timestamp.read a.expireTime = .ok t ∧ d = Impersonation.remaining t.instant wall
  | none => ∃ a, Exchange.Answer.parse body = .ok a ∧ a.accessToken = value ∧
    d = a.seconds * Clock.second

/-- the world `v` becomes `v'` by the request that brings the token, and the answer gives it the
time `d` -/
structure GrantsFor (c : Configuration) (v v' : World) (token : Token) (d : Clock.Duration) :
    Prop where
  granted : c.Grants v v' token
  answered : ∃ res, v.reply = .response res ∧ c.Gives res.body v.wall token.value d
  expiry : token.expiry = some (v.clock + d)

variable {c : Configuration} {v v' : World} {token : Token} {d : Clock.Duration}

theorem gives_of_reads {body : Bytes} {wall : Int} {now : Clock.Reading}
    (h : c.Reads body wall now token) : ∃ d, c.Gives body wall token.value d ∧
      token.expiry = some (now + d) ∧ Clock.representable (now + d) = true := by
  rw [Reads] at h
  cases hi : c.impersonation? with
  | some i =>
    rw [hi] at h
    obtain ⟨a, hp, ht⟩ := h
    rw [Impersonation.Answer.token] at ht
    split at ht
    · cases ht
    · next t hr =>
      split at ht
      · cases ht
      · next expiry he =>
        cases ht
        refine ⟨Impersonation.remaining t.instant wall, ?_, ?_⟩
        · rw [Gives, hi]
          exact ⟨a, t, hp, rfl, hr, rfl⟩
        · obtain ⟨hshown, rfl⟩ := Clock.deadline?_eq_some.1 he
          exact ⟨rfl, hshown⟩
  | none =>
    rw [hi] at h
    obtain ⟨a, hp, ht⟩ := h
    rw [Exchange.Answer.token] at ht
    cases he : Clock.deadline? now (a.seconds * Clock.second) with
    | none =>
      rw [he] at ht
      cases ht
    | some expiry =>
      rw [he] at ht
      cases ht
      refine ⟨a.seconds * Clock.second, ?_, ?_⟩
      · rw [Gives, hi]
        exact ⟨a, hp, rfl, rfl⟩
      · obtain ⟨hshown, rfl⟩ := Clock.deadline?_eq_some.1 he
        exact ⟨rfl, hshown⟩

theorem Grants.exists_for (h : c.Grants v v' token) : ∃ d, c.GrantsFor v v' token d := by
  obtain ⟨r, res, hlast, hr, hs, hreads, hv⟩ := h
  obtain ⟨d, hd, he, _⟩ := gives_of_reads hreads
  exact ⟨d, ⟨r, res, hlast, hr, hs, hreads, hv⟩, ⟨res, hr, hd⟩, he⟩

theorem Grants.exists_expiry (h : c.Grants v v' token) :
    ∃ e, token.expiry = some e ∧ Clock.representable e = true := by
  obtain ⟨_, _, _, _, _, hreads, _⟩ := h
  obtain ⟨_, _, he⟩ := gives_of_reads hreads
  exact ⟨_, he⟩

/-- a token is valid while more than the skew is left of its time, unless it is empty -/
theorem GrantsFor.isValid_iff (h : c.GrantsFor v v' token d) (now : Clock.Reading) :
    token.isValid now = true ↔ token.value ≠ "" ∧ now + Freshness.skew < v.clock + d := by
  rw [Token.isValid_iff, h.expiry]
  exact and_congr_right' ⟨fun he => he _ rfl, fun he _ hm => Option.some.inj hm ▸ he⟩

theorem GrantsFor.isValid_iff_of_clock (h : c.GrantsFor v v' token d) {now : Clock.Reading}
    (hnow : v.clock = now) :
    token.isValid now = true ↔ token.value ≠ "" ∧ Freshness.skew < d := by
  rw [h.isValid_iff, hnow, Nat.add_lt_add_iff_left]

end Configuration

/-! ## the token of a call -/

theorem Freshness.isValid_of_of? {t : Option Token} {threshold : Clock.Duration}
    {now : Clock.Reading} {x : Freshness} (h : of? t threshold now = some x) (hx : x ≠ .invalid) :
    isValid t now = true := by
  cases t with
  | none =>
    cases h
    exact absurd rfl hx
  | some t =>
    rw [isValid, Option.any_some]
    cases hv : t.isValid now with
    | true => rfl
    | false =>
      rw [of?, hv] at h
      cases h
      exact absurd rfl hx

namespace Credentials

variable {c : Credentials} {w : World}

theorem isValid_of_not_needsRefresh {now : Clock.Reading} (ho : ¬c.Overflows now)
    (hr : ¬c.NeedsRefresh now) : c.isValid now = true := by
  cases hm : c.nonBlocking with
  | false =>
    cases hv : c.isValid now with
    | true => rfl
    | false => exact absurd (.inl ⟨hm, hv⟩) hr
  | true =>
    cases hf : c.freshness? now with
    | none => exact absurd ⟨hm, hf⟩ ho
    | some x =>
      refine Freshness.isValid_of_of? hf ?_
      rintro rfl
      exact hr (.inr (.inl ⟨hm, hf⟩))

/-- what is known of the token of a call that succeeds -/
inductive Vouched (c : Credentials) (w : World) (token : Token) : Prop where
  /-- it was there, and it is valid -/
  | seen (hn : ¬c.NeedsRefresh w.clock) (ht : c.token = some token)
      (hv : token.isValid w.clock = true)
  /-- the call got it, and whether it is valid depends on the answer alone -/
  | refreshed {before : List Http.Request} {v v' : World} {d : Clock.Duration}
      (hn : c.NeedsRefresh w.clock) (hleads : w.Leads before v)
      (hg : c.account.configuration.GrantsFor v v' token d)
      (hv : token.isValid w.clock = true ↔ token.value ≠ "" ∧ Freshness.skew < d)

theorem account_cleared (c : Credentials) : c.cleared.account = c.account := by
  rw [cleared]
  split <;> rfl

theorem vouched_of_needsRefresh (hr : c.NeedsRefresh w.clock) {hs : Http.Headers}
    (hok : (c.beforeRequest hs w).result = .ok ()) {token : Token}
    (ht : (c.beforeRequest hs w).credentials.token = some token) : c.Vouched w token := by
  rw [beforeRequest_of_needsRefresh hr] at hok ht
  rcases hc : c.cleared.refresh w with ⟨f | _, c', w'⟩
  · rw [hc] at hok
    cases hok
  · rw [hc] at ht
    obtain ⟨token', before, v, v', after, hleads, hg, _, hc'⟩ := refresh_ok hc
    rw [hc'] at ht
    cases ht
    rw [account_cleared] at hg
    obtain ⟨d, hd⟩ := hg.exists_for
    exact .refreshed hr hleads hd (hd.isValid_iff_of_clock hleads.clock)

theorem vouched_of_beforeRequest {hs : Http.Headers}
    (hok : (c.beforeRequest hs w).result = .ok ()) : ∃ token,
      (c.beforeRequest hs w).credentials.token = some token ∧
      (c.beforeRequest hs w).headers.named Http.authorization = [Http.bearer token.value] ∧
      c.Vouched w token := by
  obtain ⟨token, ht, hh⟩ := (c.beforeRequest_right hs w).authorized hok
  refine ⟨token, ht, hh, ?_⟩
  by_cases hr : c.NeedsRefresh w.clock
  · exact vouched_of_needsRefresh hr hok ht
  have ho : ¬c.Overflows w.clock := by
    intro ho
    rw [beforeRequest_of_overflows ho] at hok
    cases hok
  have hsame : (c.beforeRequest hs w).credentials.token = c.token := by
    by_cases hb : c.NeedsBackground w.clock
    · rw [beforeRequest_of_needsBackground hb]
    · rw [beforeRequest_of_neither ho hr hb]
  rw [hsame] at ht
  have hv := isValid_of_not_needsRefresh ho hr
  rw [isValid, ht] at hv
  exact .seen hr ht hv

end Credentials

end Federation
