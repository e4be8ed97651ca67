import Federation.Proofs.Account.Build
import Federation.Proofs.Refresh.Usable
import Federation.Proofs.Traffic.Decay
import Federation.Proofs.Traffic.Decision

/-!
# How far ahead the clock can be read

Whether a valid token is fresh or stale is asked of the reading that lies a threshold ahead.  Every
threshold is accepted, but the clock has a last reading.  If the threshold leads beyond it there is
no answer, and a call that needs one ends there.

* `Freshness.of?_eq_none_iff`            when there is no answer;
* `Freshness.forall_exists_of?_iff`      the thresholds with which there always is one;
* `Traffic.Reached.freshness?_eq_none_iff`, `Traffic.mem_overflowed_run_iff`
                                         the calls of a run that get none;
* `Traffic.freshness_within_horizon`     all of it;
* `Traffic.threshold_beyond_horizon`     a threshold for which calls end that way.
-/

namespace Federation

/-! ## the last reading -/

namespace Clock

def last : Reading := (lastSecond + 1) * second - 1

theorem representable_iff {t : Reading} : representable t = true ↔ t ≤ last := by
  have hsecond : 0 < second := by decide
  rw [representable, decide_eq_true_eq, ← Nat.lt_succ_iff, Nat.div_lt_iff_lt_mul hsecond, last,
    Nat.le_sub_one_iff_lt (by decide)]

theorem not_representable_iff {t : Reading} : representable t = false ↔ last < t := by
  rw [← Bool.not_eq_true, representable_iff, Nat.not_le]

end Clock

/-! ## tokens -/

namespace Freshness

variable {t : Option Token} {threshold : Clock.Duration} {now : Clock.Reading}

/-- nothing is known of the freshness of a valid token if it expires and the threshold leads beyond
the last reading -/
theorem of?_eq_none_iff : of? t threshold now = none ↔ isValid t now = true ∧
    (t.bind (·.expiry)).isSome = true ∧ Clock.representable (now + threshold) = false := by
  cases hv : isValid t now with
  | false =>
    rw [of?_of_not_isValid hv]
    exact ⟨nofun, fun h => nomatch h.1⟩
  | true =>
    cases t with
    | none => cases hv
    | some token =>
      rw [Option.bind_some]
      cases he : token.expiry with
      | none =>
        rw [of?_of_lasting hv he]
        exact ⟨nofun, fun h => nomatch h.2.1⟩
      | some e =>
        cases hr : Clock.representable (now + threshold) with
        | false => exact ⟨fun _ => ⟨rfl, rfl, rfl⟩, fun _ => of?_of_not_representable hv he hr⟩
        | true =>
          rw [of?_of_expiry hv he hr]
          exact ⟨nofun, fun h => nomatch h.2.2⟩

/-- a token expires, if at all, while the clock lasts -/
def ExpiresInTime (t : Option Token) : Prop :=
  ∀ token ∈ t, ∀ e ∈ token.expiry, Clock.representable e = true

theorem exists_of?_of_le (ht : ExpiresInTime t) (h : threshold ≤ skew + 1) :
    ∃ x, of? t threshold now = some x := by
  rw [← Option.isSome_iff_exists, Option.isSome_iff_ne_none]
  intro hnone
  obtain ⟨hv, he, hr⟩ := of?_eq_none_iff.1 hnone
  cases t with
  | none => cases hv
  | some token =>
    obtain ⟨e, he⟩ := Option.isSome_iff_exists.1 he
    have hlast : now + threshold ≤ Clock.last := calc
      now + threshold ≤ now + (skew + 1) := Nat.add_le_add_left h now
      _ ≤ e := (Token.isValid_iff.1 hv).2 e he
      _ ≤ Clock.last := Clock.representable_iff.1 (ht token rfl e he)
    exact Nat.not_lt.2 hlast (Clock.not_representable_iff.1 hr)

theorem exists_of?_eq_none (h : skew + 1 < threshold) : ∃ t now, ExpiresInTime t ∧
    Clock.representable (now + skew) = true ∧ of? t threshold now = none := by
  obtain ⟨token, hvalue, he⟩ : ∃ token : Token, token.value ≠ "" ∧ token.expiry = some Clock.last :=
    ⟨⟨"token", Token.bearer, some Clock.last⟩, by decide, rfl⟩
  have hskew : skew + 1 ≤ Clock.last := by decide
  obtain ⟨now, hsum⟩ := Nat.exists_eq_add_of_le' hskew
  have hnow : now + skew < Clock.last := hsum.ge
  have hbeyond : Clock.last < now + threshold := hsum.trans_lt (Nat.add_lt_add_left h now)
  have hlive : token.isValid now = true := by
    refine Token.isValid_iff.2 ⟨hvalue, fun e h => ?_⟩
    rw [he, Option.mem_some_iff] at h
    exact h ▸ hnow
  refine ⟨some token, now, ?_, Clock.representable_iff.2 hnow.le,
    of?_eq_none_iff.2 ⟨hlive, ?_, Clock.not_representable_iff.2 hbeyond⟩⟩
  · rintro _ ⟨⟩ e hmem
    rw [he, Option.mem_some_iff] at hmem
    exact Clock.representable_iff.2 hmem.ge
  · rw [Option.bind_some, he]
    rfl

theorem forall_exists_of?_iff : (∀ t now, ExpiresInTime t →
    Clock.representable (now + skew) = true → ∃ x, of? t threshold now = some x) ↔
      threshold ≤ skew + 1 := by
  refine ⟨fun h => ?_, fun h t now ht _ => exists_of?_of_le ht h⟩
  by_contra hlong
  obtain ⟨t, now, ht, hr, hnone⟩ := exists_of?_eq_none (Nat.not_le.1 hlong)
  obtain ⟨x, hx⟩ := h t now ht hr
  rw [hnone] at hx
  cases hx

end Freshness

/-! ## in a run -/

namespace Traffic

theorem Job.mem_overflowed_iff {c : Credentials} {w : World} {j : Job} :
    .overflowed ∈ (j.turn c w).notes ↔
      ∃ hs, j = .request hs .nonBlocking ∧ c.freshness? w.clock = none := by
  constructor
  · intro hn
    have hd := j.does_turn c w
    generalize j.turn c w = t at hd hn
    cases hd with
    | overflowed h => exact ⟨_, rfl, h⟩
    | @moved owner stage stage' => cases stage' <;> simp [arrival] at hn
    | @failed owner => cases owner <;> simp [Owner.notes] at hn
    | @published owner => cases owner <;> simp [Owner.notes] at hn
    | _ => simp at hn
  · rintro ⟨hs, rfl, h⟩
    rw [turn, h]
    exact List.mem_singleton_self _

/-- in this turn a call asks for the freshness of a valid token, and the threshold leads beyond the
last reading -/
structure Moment.IsBeyond (t : Moment) (threshold : Clock.Duration) : Prop where
  job : ∃ hs, t.job = .request hs .nonBlocking
  valid : t.credentials.isValid t.world.clock = true
  beyond : Clock.representable (t.world.clock + threshold) = false

section
variable {account : Account} {s : Traffic}

theorem Reached.exists_expiry (h : Reached account s) : ∀ token ∈ s.credentials.token,
    ∃ e, token.expiry = some e ∧ Clock.representable e = true := by
  obtain ⟨boundary, nonBlocking, w, ms, rfl⟩ := h
  intro token ht
  rw [token_chronicle] at ht
  have hm : token ∈ published ((start (.new account boundary nonBlocking) w).chronicle ms) := by
    cases hl : (published ((start (.new account boundary nonBlocking) w).chronicle ms)).getLast? with
    | none =>
      rw [hl] at ht
      cases ht
    | some token' =>
      rw [hl] at ht
      cases ht
      exact List.mem_of_getLast? hl
  obtain ⟨_, _, _, _, _, hg⟩ := granted_run account boundary nonBlocking w ms hm
  exact hg.granted.exists_expiry

theorem Reached.exists_freshness?_of_le (h : Reached account s)
    (hshort : account.threshold ≤ Freshness.skew + 1) : ∃ x, s.freshness? = some x := by
  rw [← h.account_eq] at hshort
  refine Freshness.exists_of?_of_le (fun token ht e he => ?_) hshort
  obtain ⟨e', he', hr⟩ := h.exists_expiry token ht
  rw [he'] at he
  cases he
  exact hr

theorem Reached.freshness?_eq_none_iff (h : Reached account s) : s.freshness? = none ↔
    s.credentials.isValid s.world.clock = true ∧
      Clock.representable (s.world.clock + account.threshold) = false := by
  rw [freshness?, Credentials.freshness?, h.account_eq, Freshness.of?_eq_none_iff]
  refine and_congr_right fun hv => and_iff_right ?_
  obtain ⟨token, ht, _⟩ := exists_of_isValid hv
  obtain ⟨e, he, _⟩ := h.exists_expiry token ht
  rw [ht, Option.bind_some, he]
  rfl

end

theorem exists_unknown_of_overflowed {c : Credentials} {w : World} {ms : List Move} {n : Nat}
    (h : (n, .overflowed) ∈ ((start c w).run ms).log) : ∃ ms₁ ms₂,
      (start c w).run ms = ((start c w).run ms₁).run ms₂ ∧
        ((start c w).run ms₁).freshness? = none := by
  obtain ⟨t, ht, _, hn⟩ := mem_log_run_iff.1 h
  obtain ⟨ms₁, ms₂, hrun, hc, hw⟩ := exists_run_of_mem_chronicle ht
  obtain ⟨_, _, hnone⟩ := Job.mem_overflowed_iff.1 hn
  rw [hc, hw] at hnone
  exact ⟨ms₁, ms₂, hrun, hnone⟩

/-- the calls of a run that end without an answer are those that have asked beyond the last
reading -/
theorem mem_overflowed_run_iff (account : Account) (boundary : Option Boundary)
    (nonBlocking : Bool) (w : World) (ms : List Move) (n : Nat) :
    (n, .overflowed) ∈ ((start (.new account boundary nonBlocking) w).run ms).log ↔
      ∃ t ∈ (start (.new account boundary nonBlocking) w).chronicle ms,
        t.number = n ∧ t.IsBeyond account.threshold := by
  rw [mem_log_run_iff]
  refine exists_congr fun t => and_congr_right fun ht => and_congr_right fun _ => ?_
  obtain ⟨ms₁, _, _, hc, hw⟩ := exists_run_of_mem_chronicle ht
  have hnone := (Reached.of_run account boundary nonBlocking w ms₁).freshness?_eq_none_iff
  rw [freshness?, ← hc, ← hw] at hnone
  rw [Moment.turn, Job.mem_overflowed_iff, hnone]
  constructor
  · rintro ⟨hs, hj, hv, hr⟩
    exact ⟨⟨hs, hj⟩, hv, hr⟩
  · rintro ⟨⟨hs, hj⟩, hv, hr⟩
    exact ⟨hs, hj, hv, hr⟩

/-! ## all of it -/

/-- what is known of the freshness of the cached token, and of the calls that ask for it.  The run
of new credentials of `account` has got to the state `s`, and `l` are the turns in it. -/
structure Horizon (account : Account) (s : Traffic) (l : List Moment) : Prop where
  /-- there is no answer if the token is valid and the threshold leads beyond the last reading -/
  unknown : s.freshness? = none ↔ s.credentials.isValid s.world.clock = true ∧
    Clock.representable (s.world.clock + account.threshold) = false
  /-- a call that needs an answer and gets none ends there, and leaves all as it was -/
  ends : s.credentials.nonBlocking = true → s.freshness? = none → ∀ hs,
    s.credentials.beforeRequest hs s.world
      = ⟨.error .clockOverflow, hs, s.credentials, s.world, false⟩
  /-- every other call refreshes or not, and sets headers -/
  goesOn : ¬(s.credentials.nonBlocking = true ∧ s.freshness? = none) → ∀ hs,
    ∃ k notes, Decision s hs (s.alone hs k) notes
  /-- with others in between the same holds of the turn in which a call asks -/
  among : ∀ n, (n, .overflowed) ∈ s.log ↔ ∃ t ∈ l, t.number = n ∧ t.IsBeyond account.threshold
  /-- no call has ended like this as long as the threshold does not lead beyond the last reading -/
  early : Clock.representable (s.world.clock + account.threshold) = true →
    ∀ n, (n, .overflowed) ∉ s.log
  /-- with a threshold that is hardly longer than the skew there always is one, and no call ends -/
  short : account.threshold ≤ 10 * Clock.second + 1 →
    (∃ x, s.freshness? = some x) ∧ ∀ n, (n, .overflowed) ∉ s.log
  /-- with one that is longer than the clock lasts there never is an answer for a valid token -/
  long : Clock.representable account.threshold = false →
    (s.freshness? = none ↔ s.credentials.isValid s.world.clock = true)

/-- the freshness of a token is known, unless the token is valid and expires and the threshold leads
beyond the last reading.  The builders accept every threshold and keep it, and only those that are
hardly longer than the skew never lead there.  (The skew itself has to be within the clock: an expiry
is compared with the reading that lies the skew ahead.) -/
theorem freshness_within_horizon (account : Account) (boundary : Option Boundary)
    (nonBlocking : Bool) (w : World) (ms : List Move) :
    (Clock.representable (((start (.new account boundary nonBlocking) w).run ms).world.clock
        + 10 * Clock.second) = true →
      Horizon account ((start (.new account boundary nonBlocking) w).run ms)
        ((start (.new account boundary nonBlocking) w).chronicle ms)) ∧
    (∀ (t : Option Token) threshold now, Clock.representable (now + 10 * Clock.second) = true →
      (Freshness.of? t threshold now = none ↔ Freshness.isValid t now = true ∧
        (t.bind (·.expiry)).isSome = true ∧ Clock.representable (now + threshold) = false)) ∧
    (∀ (settings : Settings) (a : Account) threshold, a.IsBuilt settings →
      Account.IsBuilt { settings with threshold := some threshold } { a with threshold }) ∧
    (∀ a a' : Account, a.Derived a' → a'.threshold = a.threshold) ∧
    ∀ threshold, (∀ t now, Freshness.ExpiresInTime t →
        Clock.representable (now + 10 * Clock.second) = true →
        ∃ x, Freshness.of? t threshold now = some x) ↔ threshold ≤ 10 * Clock.second + 1 := by
  have hreached := Reached.of_run account boundary nonBlocking w
  have hunknown := (hreached ms).freshness?_eq_none_iff
  refine ⟨fun _ => ⟨hunknown, ?_, ?_, mem_overflowed_run_iff account boundary nonBlocking w ms, ?_,
    fun hshort => ⟨(hreached ms).exists_freshness?_of_le hshort, ?_⟩, ?_⟩,
    fun _ _ _ _ => Freshness.of?_eq_none_iff, fun _ _ threshold hb => hb.withThreshold threshold,
    fun _ _ hd => hd.threshold_eq, fun _ => Freshness.forall_exists_of?_iff⟩
  · exact fun hm hnone hs => Credentials.beforeRequest_of_overflows ⟨hm, hnone⟩ hs
  · exact fun ho hs => decision _ hs ho
  · intro hr n hn
    obtain ⟨ms₁, ms₂, hrun, hnone⟩ := exists_unknown_of_overflowed hn
    have hbeyond := ((hreached ms₁).freshness?_eq_none_iff.1 hnone).2
    have hclock := clock_run ((start (.new account boundary nonBlocking) w).run ms₁) ms₂
    rw [hrun] at hr
    rw [Clock.representable_of_le (Nat.add_le_add_right hclock _) hr] at hbeyond
    cases hbeyond
  · intro n hn
    obtain ⟨ms₁, _, _, hnone⟩ := exists_unknown_of_overflowed hn
    obtain ⟨x, hx⟩ := (hreached ms₁).exists_freshness?_of_le hshort
    cases hnone.symm.trans hx
  · intro hlong
    rw [hunknown]
    refine and_iff_left ?_
    rw [Clock.not_representable_iff] at hlong ⊢
    exact Nat.lt_of_lt_of_le hlong (Nat.le_add_left _ _)

def pooled : Account.Draft where
  audience := some "//iam.googleapis.com/locations/global/workforcePools/pool/providers/provider"
  tokenType := some Description.blank.tokenType
  tokenUrl := none
  tokenInfoUrl := none
  impersonationUrl := none
  lifetime := none
  clientId := none
  clientSecret := none
  userProject := none

/-- the first threshold in seconds that is longer than the clock lasts -/
def endless : Clock.Duration := (Clock.lastSecond + 1) * Clock.second

/-- with an accepted threshold there may be no answer for a token that was just granted, and the
next call ends there -/
theorem threshold_beyond_horizon :
    ¬∀ (settings : Settings) (a : Account) (s : Traffic), a.IsBuilt settings → Reached a s →
      Clock.representable (s.world.clock + 10 * Clock.second) = true →
      s.credentials.nonBlocking = true → (∃ x, s.freshness? = some x) ∧
        ∀ hs, (s.credentials.beforeRequest hs s.world).result ≠ .error .clockOverflow := by
  intro h
  have hpool : Account.ofDraft pooled ⟨[], [], none, none, none, false⟩
      = .ok Credentials.ofPool.account := rfl
  have hbuilt := Account.IsBuilt.withThreshold (.inr (.inr ⟨pooled, hpool⟩)) endless
  have hreached := Reached.of_run { Credentials.ofPool.account with threshold := endless } none true
    (Credentials.answering [Credentials.granted]) (.refresh :: List.replicate 5 (.proceed 0))
  have hnone : ((start (.new { Credentials.ofPool.account with threshold := endless } none true)
      (Credentials.answering [Credentials.granted])).run
        (.refresh :: List.replicate 5 (.proceed 0))).freshness? = none := by
    decide +kernel
  obtain ⟨x, hx⟩ := (h _ _ _ hbuilt hreached (by decide +kernel) (by decide +kernel)).1
  cases hnone.symm.trans hx

end Traffic

end Federation
