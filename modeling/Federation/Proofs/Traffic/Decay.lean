import Federation.Proofs.Token.Expiry
import Federation.Proofs.Traffic.Validity
import Mathlib.Data.List.Chain
import Mathlib.Order.Lattice

/-!
# How freshness decays

A token is fresh first, then stale, then invalid, and time takes it along this way only.  No task
turns the clock back, so what is seen of the cached token in a run decays too, until another token
is published.

* `Freshness.exists_of?_mono`      a token at two readings of the clock;
* `Freshness.exists_stale_iff`     the tokens that go stale before they expire;
* `Traffic.clock_run`              the clock in a run;
* `Traffic.exists_states`          what is seen between two publications;
* `Traffic.freshness_decays`       all of it.
-/

namespace Federation

namespace Freshness

/-! ## the order of decay -/

/-- how far a token has decayed -/
def decay : Freshness → Nat
  | .fresh => 0
  | .stale => 1
  | .invalid => 2

theorem decay_injective : Function.Injective decay := by
  intro x y h
  cases x <;> cases y <;> first | rfl | cases h

instance : LinearOrder Freshness := LinearOrder.lift' decay decay_injective

theorem fresh_le (x : Freshness) : fresh ≤ x := Nat.zero_le _
theorem le_invalid (x : Freshness) : x ≤ invalid := by
  cases x <;> decide

/-! ## one reading -/

/-- the clock can show the two readings that an expiry is compared with -/
structure IsShown (threshold : Clock.Duration) (now : Clock.Reading) : Prop where
  soon : Clock.representable (now + threshold) = true
  skewed : Clock.representable (now + skew) = true

theorem IsShown.of_le {threshold : Clock.Duration} {now later : Clock.Reading} (h : now ≤ later)
    (hs : IsShown threshold later) : IsShown threshold now where
  soon := Clock.representable_of_le (Nat.add_le_add_right h _) hs.soon
  skewed := Clock.representable_of_le (Nat.add_le_add_right h _) hs.skewed

section
variable {t : Token} {threshold : Clock.Duration} {now later e : Clock.Reading}

theorem of?_of_not_isValid {t : Option Token} (h : isValid t now = false) :
    of? t threshold now = some .invalid := by
  cases t with
  | none => rfl
  | some t =>
    have ht : t.isValid now = false := h
    rw [of?, ht]
    rfl

theorem of?_of_lasting (hv : t.isValid now = true) (he : t.expiry = none) :
    of? (some t) threshold now = some .fresh := by
  rw [of?, hv, he]
  rfl

theorem of?_of_expiry (hv : t.isValid now = true) (he : t.expiry = some e)
    (hs : Clock.representable (now + threshold) = true) :
    of? (some t) threshold now = some (if now + threshold < e then .fresh else .stale) := by
  rw [of?, hv, he]
  show (Clock.deadline? now threshold).map _ = _
  rw [Clock.deadline?_eq_some.2 ⟨hs, rfl⟩]
  rfl

theorem of?_of_not_representable (hv : t.isValid now = true) (he : t.expiry = some e)
    (hs : Clock.representable (now + threshold) = false) : of? (some t) threshold now = none := by
  rw [of?, hv, he]
  show (Clock.deadline? now threshold).map _ = _
  rw [Clock.deadline?, hs]
  rfl

theorem of?_eq_invalid_iff {t : Option Token} :
    of? t threshold now = some .invalid ↔ isValid t now = false := by
  refine ⟨fun h => ?_, of?_of_not_isValid⟩
  cases t with
  | none => rfl
  | some t =>
    show t.isValid now = false
    by_contra hv
    rw [Bool.not_eq_false] at hv
    cases he : t.expiry with
    | none =>
      rw [of?_of_lasting hv he] at h
      cases h
    | some e =>
      cases hs : Clock.representable (now + threshold) with
      | false =>
        rw [of?_of_not_representable hv he hs] at h
        cases h
      | true =>
        rw [of?_of_expiry hv he hs] at h
        split at h <;> cases h

theorem not_isExpired_of_isValid {t : Option Token} (h : isValid t now = true) :
    isExpired t now = false := by
  cases t with
  | none => rfl
  | some t =>
    have hv : (!t.value.isEmpty && !t.isExpired now) = true := h
    rw [Bool.and_eq_true, Bool.not_eq_true', Bool.not_eq_true'] at hv
    exact hv.2

/-! ## two readings -/

theorem isValid_of_le (h : now ≤ later) (hv : t.isValid later = true) : t.isValid now = true := by
  rw [Token.isValid_iff] at hv ⊢
  exact ⟨hv.1, fun e he => Nat.lt_of_le_of_lt (Nat.add_le_add_right h _) (hv.2 e he)⟩

theorem exists_of? (t : Option Token) (hs : IsShown threshold now) :
    ∃ x, of? t threshold now = some x := by
  cases hv : isValid t now with
  | false => exact ⟨_, of?_of_not_isValid hv⟩
  | true =>
    cases t with
    | none => cases hv
    | some t =>
      cases he : t.expiry with
      | none => exact ⟨_, of?_of_lasting hv he⟩
      | some e => exact ⟨_, of?_of_expiry hv he hs.soon⟩

/-- a token at a later reading is at least as far decayed -/
theorem exists_of?_mono (t : Option Token) (h : now ≤ later) (hs : IsShown threshold later) :
    ∃ x y, of? t threshold now = some x ∧ of? t threshold later = some y ∧ x ≤ y := by
  obtain ⟨x, hx⟩ := exists_of? t (hs.of_le h)
  cases hv : isValid t later with
  | false => exact ⟨x, .invalid, hx, of?_of_not_isValid hv, le_invalid x⟩
  | true =>
    cases t with
    | none => cases hv
    | some t =>
      have hv' : t.isValid now = true := isValid_of_le h hv
      cases he : t.expiry with
      | none => exact ⟨.fresh, .fresh, of?_of_lasting hv' he, of?_of_lasting hv he, le_refl _⟩
      | some e =>
        refine ⟨_, _, of?_of_expiry hv' he (hs.of_le h).soon, of?_of_expiry hv he hs.soon, ?_⟩
        by_cases hsoon : later + threshold < e
        · have hbefore : now + threshold < e :=
            Nat.lt_of_le_of_lt (Nat.add_le_add_right h _) hsoon
          rw [if_pos hsoon, if_pos hbefore]
        · rw [if_neg hsoon]
          split
          · exact fresh_le _
          · exact le_refl _

/-! ## tokens that go stale -/

theorem of?_eq_stale_iff (he : t.expiry = some e) : of? (some t) threshold now = some .stale ↔
    t.value ≠ "" ∧ now + skew < e ∧ e ≤ now + threshold ∧
      Clock.representable (now + threshold) = true := by
  constructor
  · intro h
    have hv : t.isValid now = true := isValid_of_of? h (by decide)
    obtain ⟨hvalue, hexpiry⟩ := Token.isValid_iff.1 hv
    cases hs : Clock.representable (now + threshold) with
    | false =>
      rw [of?_of_not_representable hv he hs] at h
      cases h
    | true =>
      rw [of?_of_expiry hv he hs] at h
      split at h
      · cases h
      · next hlate => exact ⟨hvalue, hexpiry e he, Nat.le_of_not_lt hlate, rfl⟩
  · rintro ⟨hvalue, hexpiry, hlate, hs⟩
    have hv : t.isValid now = true := by
      rw [Token.isValid_iff, he]
      refine ⟨hvalue, fun e' he' => ?_⟩
      cases he'
      exact hexpiry
    rw [of?_of_expiry hv he hs, if_neg (Nat.not_lt.2 hlate)]

/-- a token goes stale before it counts as expired exactly when it does so early enough -/
theorem exists_stale_iff (hvalue : t.value ≠ "") (he : t.expiry = some e)
    (hr : Clock.representable e = true) (hskew : skew < e)
    (hs : Clock.representable threshold = true) :
    (∃ now, IsShown threshold now ∧ of? (some t) threshold now = some .stale) ↔
      skew < threshold := by
  constructor
  · rintro ⟨now, -, h⟩
    obtain ⟨-, hexpiry, hlate, -⟩ := (of?_eq_stale_iff he).1 h
    exact Nat.lt_of_add_lt_add_left (Nat.lt_of_lt_of_le hexpiry hlate)
  · intro h
    rcases Nat.le_total threshold e with hle | hle
    · have hsoon : e - threshold + threshold = e := Nat.sub_add_cancel hle
      have hexpiry : e - threshold + skew < e :=
        Nat.lt_of_lt_of_eq (Nat.add_lt_add_left h _) hsoon
      rw [← hsoon] at hr
      exact ⟨e - threshold,
        ⟨hr, Clock.representable_of_le (Nat.add_le_add_left h.le _) hr⟩,
        (of?_eq_stale_iff he).2 ⟨hvalue, hexpiry, hsoon.ge, hr⟩⟩
    · have hfirst : ∀ d : Clock.Duration, 0 + d = d := Nat.zero_add
      rw [← hfirst threshold] at hs hle
      rw [← hfirst skew] at hskew
      exact ⟨0, ⟨hs, Clock.representable_of_le hskew.le hr⟩,
        (of?_eq_stale_iff he).2 ⟨hvalue, hskew, hle, hs⟩⟩

end

end Freshness

/-! ## the clock in a run -/

theorem World.clock_after (w : World) (e : Event) : w.clock ≤ (w.after e).clock := by
  cases e with
  | advance d => exact Nat.le_add_right _ _
  | _ => exact Nat.le_refl _

namespace Traffic

theorem clock_step (s : Traffic) (m : Move) : s.world.clock ≤ (s.step m).world.clock := by
  cases m with
  | event e => exact s.world.clock_after e
  | proceed n =>
    rw [step]
    split
    · next j hj =>
      obtain ⟨own, -, hleads⟩ := j.leads_turn s.credentials s.world
      exact hleads.clock.ge
    · exact Nat.le_refl _
  | _ => exact Nat.le_refl _

theorem clock_run (s : Traffic) (ms : List Move) : s.world.clock ≤ (s.run ms).world.clock :=
  run_induction (fun s' m h => Nat.le_trans h (s'.clock_step m)) (Nat.le_refl _) ms

theorem account_run (s : Traffic) (ms : List Move) :
    (s.run ms).credentials.account = s.credentials.account :=
  run_induction (fun s' m h => (s'.account_step m).trans h) rfl ms

theorem token_chronicle (s : Traffic) (ms : List Move) : (s.run ms).credentials.token
    = (published (s.chronicle ms)).getLast?.or s.credentials.token := by
  obtain ⟨l, hl, ht⟩ := s.token_run ms
  rw [log_run] at hl
  rw [ht, ← List.append_cancel_left hl, map_snd_notes]
  rfl

/-! ## what is seen in a run -/

def freshness? (s : Traffic) : Option Freshness := s.credentials.freshness? s.world.clock

/-- what a run shows of it, before its first move and after each -/
def states (s : Traffic) : List Move → List (Option Freshness)
  | [] => [s.freshness?]
  | m :: ms => s.freshness? :: (s.step m).states ms

theorem exists_freshness_run {s : Traffic} {ms : List Move} (h : published (s.chronicle ms) = [])
    (hs : Freshness.IsShown s.credentials.account.threshold (s.run ms).world.clock) :
    ∃ x y, s.freshness? = some x ∧ (s.run ms).freshness? = some y ∧ x ≤ y := by
  have ht := s.token_chronicle ms
  rw [h] at ht
  rw [freshness?, freshness?, Credentials.freshness?, Credentials.freshness?, ht, s.account_run ms]
  exact Freshness.exists_of?_mono s.credentials.token (s.clock_run ms) hs

theorem head?_states (s : Traffic) (ms : List Move) : (s.states ms).head? = some s.freshness? := by
  cases ms <;> rfl

theorem published_append (l l' : List Moment) :
    published (l ++ l') = published l ++ published l' := by
  rw [published, List.flatMap_append, publications_append]
  rfl

/-- between two publications what is seen of the token decays -/
theorem exists_states {s : Traffic} {ms : List Move} (h : published (s.chronicle ms) = [])
    (hs : Freshness.IsShown s.credentials.account.threshold (s.run ms).world.clock) :
    ∃ xs : List Freshness, s.states ms = xs.map some ∧ xs.IsChain (· ≤ ·) := by
  induction ms generalizing s with
  | nil =>
    obtain ⟨x, -, hx, -⟩ := exists_freshness_run h hs
    exact ⟨[x], by rw [states, hx]; rfl, .singleton x⟩
  | cons m ms ih =>
    rw [chronicle, published_append, List.append_eq_nil_iff] at h
    obtain ⟨hm, hms⟩ := h
    have hrest : Freshness.IsShown (s.step m).credentials.account.threshold
        ((s.step m).run ms).world.clock := by
      rwa [account_step]
    have hmove : published (s.chronicle [m]) = [] := by
      rwa [chronicle, chronicle_nil, List.append_nil]
    obtain ⟨x, y, hx, hy, hxy⟩ := exists_freshness_run hmove (hs.of_le (clock_run _ ms))
    obtain ⟨ys, hys, hchain⟩ := ih hms hrest
    have hhead := (s.step m).head?_states ms
    cases ys with
    | nil =>
      rw [hys] at hhead
      cases hhead
    | cons y' ys =>
      have hy' : y' = y := by
        rw [hys] at hhead
        exact Option.some.inj ((Option.some.inj hhead).trans hy)
      refine ⟨x :: y' :: ys, ?_, .cons_cons (hy' ▸ hxy) hchain⟩
      rw [states, hx, hys]
      rfl

/-- a token decays with time from fresh to stale to invalid, and nothing but another token makes it
fresher -/
theorem freshness_decays :
    (∀ (t : Option Token) threshold now later, now ≤ later →
      Freshness.IsShown threshold later → ∃ x y, Freshness.of? t threshold now = some x ∧
        Freshness.of? t threshold later = some y ∧ x ≤ y) ∧
    (∀ (s : Traffic) ms, published (s.chronicle ms) = [] →
      Freshness.IsShown s.credentials.account.threshold (s.run ms).world.clock →
      ∃ xs : List Freshness, s.states ms = xs.map some ∧ xs.Pairwise (· ≤ ·)) ∧
    (∀ t threshold now, Freshness.of? t threshold now = some .invalid ↔
      Freshness.isValid t now = false) ∧
    (∀ t now, ¬(Freshness.isValid t now = true ∧ Freshness.isExpired t now = true)) ∧
    (∀ t : Token, t.value ≠ "" → t.expiry = none → ∀ threshold now,
      Freshness.of? (some t) threshold now = some .fresh) ∧
    (∀ (t : Token) e, t.value ≠ "" → t.expiry = some e → Clock.representable e = true →
      10 * Clock.second < e → ∀ threshold, (∃ now, Freshness.IsShown threshold now) →
      ((∃ now, Freshness.IsShown threshold now ∧
          Freshness.of? (some t) threshold now = some .stale) ↔
        10 * Clock.second < threshold)) := by
  refine ⟨fun t _ _ _ h hs => Freshness.exists_of?_mono t h hs, ?_,
    fun _ _ _ => Freshness.of?_eq_invalid_iff, ?_, ?_, ?_⟩
  · intro s ms h hs
    obtain ⟨xs, hxs, hchain⟩ := exists_states h hs
    exact ⟨xs, hxs, List.isChain_iff_pairwise.1 hchain⟩
  · rintro t now ⟨hv, he⟩
    rw [Freshness.not_isExpired_of_isValid hv] at he
    cases he
  · intro t hvalue he threshold now
    refine Freshness.of?_of_lasting (Token.isValid_iff.2 ⟨hvalue, fun e h => ?_⟩) he
    rw [he] at h
    cases h
  · rintro t e hvalue he hr hskew threshold ⟨now, hs⟩
    exact Freshness.exists_stale_iff hvalue he hr hskew
      (Clock.representable_of_le (Nat.le_add_left _ now) hs.soon)

end Traffic

end Federation
