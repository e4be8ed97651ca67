import Federation.Proofs.Refresh.Grant

/-!
# What a request needs

Before a request credentials look at the mode, the token, the clock and the slot, and then either
refresh, or start a refresh in the background, or do nothing.

* `Credentials.need?_of_needsRefresh`, `Credentials.need?_of_needsBackground`,
  `Credentials.need?_of_neither`, `Credentials.need?_of_overflows`   when they do which;
* `Credentials.beforeRequest_right`   what comes of it;
* `Credentials.beforeRequests_of_needsBackground`   the same for calls in a row.
-/

namespace Federation

namespace Credentials

/-- the call has to refresh -/
def NeedsRefresh (c : Credentials) (now : Clock.Reading) : Prop :=
  (c.nonBlocking = false ∧ c.isValid now = false) ∨
    (c.nonBlocking = true ∧ c.freshness? now = some .invalid) ∨
    (c.nonBlocking = true ∧ c.freshness? now = some .stale ∧ ∃ f, c.slot = .ended (some f))

/-- the call has to start a refresh in the background -/
def NeedsBackground (c : Credentials) (now : Clock.Reading) : Prop :=
  c.nonBlocking = true ∧ c.freshness? now = some .stale ∧ (c.slot = .idle ∨ c.slot = .ended none)

/-- the clock cannot show the reading that the expiry has to be compared with -/
def Overflows (c : Credentials) (now : Clock.Reading) : Prop :=
  c.nonBlocking = true ∧ c.freshness? now = none

/-- the credentials when the call begins to refresh -/
def cleared (c : Credentials) : Credentials :=
  if c.nonBlocking then { c with slot := c.slot.takeFailure.2 } else c

variable {c : Credentials} {now : Clock.Reading}

theorem NeedsBackground.not_refresh (h : c.NeedsBackground now) : ¬c.NeedsRefresh now := by
  obtain ⟨hm, hf, hs⟩ := h
  rintro (⟨hm', _⟩ | ⟨_, hf'⟩ | ⟨_, _, f, hs'⟩)
  · rw [hm] at hm'
    cases hm'
  · rw [hf] at hf'
    cases hf'
  · rw [hs'] at hs
    rcases hs with hs | hs
    · cases hs
    · cases hs

theorem need?_of_overflows (h : c.Overflows now) : c.need? now = none := by
  rw [need?, h.1, h.2]
  rfl

theorem need?_of_needsRefresh (h : c.NeedsRefresh now) :
    c.need? now = some (.refresh, c.cleared) := by
  rw [need?, cleared]
  rcases h with ⟨hm, hv⟩ | ⟨hm, hf⟩ | ⟨hm, hf, f, hs⟩
  · rw [hm, hv]
    rfl
  · rw [hm, hf]
    rfl
  · rw [hm, hf, hs]
    rfl

theorem need?_of_needsBackground (h : c.NeedsBackground now) :
    c.need? now = some (.background, { c with slot := .running }) := by
  rw [need?]
  obtain ⟨hm, hf, hs | hs⟩ := h
  · rw [hm, hf, hs]
    rfl
  · rw [hm, hf, hs]
    rfl

theorem need?_of_neither (ho : ¬c.Overflows now) (hr : ¬c.NeedsRefresh now)
    (hb : ¬c.NeedsBackground now) : c.need? now = some (.nothing, c) := by
  obtain ⟨account, token, boundary, slot, nonBlocking⟩ := c
  rw [need?]
  cases nonBlocking with
  | false =>
    cases hv : isValid ⟨account, token, boundary, slot, false⟩ now with
    | false => exact absurd (.inl ⟨rfl, hv⟩) hr
    | true => rfl
  | true =>
    rcases hf : freshness? ⟨account, token, boundary, slot, true⟩ now with _ | _ | _ | _
    · exact absurd ⟨rfl, hf⟩ ho
    · rfl
    ·
      rcases slot with _ | _ | _ | f
      · exact absurd ⟨rfl, hf, .inl rfl⟩ hb
      · rfl
      · exact absurd ⟨rfl, hf, .inr rfl⟩ hb
      · exact absurd (.inr (.inr ⟨rfl, hf, f, rfl⟩)) hr
    · exact absurd (.inr (.inl ⟨rfl, hf⟩)) hr

/-! ## setting headers -/

theorem named_setEach_planned (hs : Http.Headers) (c : Credentials) (token : String)
    (h : (hs.setEach (c.planned token)).1 = true) :
    (hs.setEach (c.planned token)).2.named Http.authorization = [Http.bearer token] := by
  have hv : Http.isValue (Http.bearer token).value = true := by
    rw [Http.Headers.setEach_fst, planned, List.cons_append, List.all_cons, Bool.and_eq_true] at h
    exact h.1
  rw [planned, List.cons_append, Http.Headers.setEach_cons_of_isValue _ _ hv,
    Http.Headers.named_setEach_of_ne]
  · exact Http.Headers.named_set_self hs (Http.bearer token)
  · intro h' hm
    rcases List.mem_append.1 hm with hm | hm
    · obtain ⟨project, _, rfl⟩ := Option.map_eq_some_iff.1 (Option.mem_toList.1 hm)
      show Http.authorization ≠ "x-goog-user-project"
      decide
    · obtain ⟨b, _, hb⟩ := Option.bind_eq_some_iff.1 (Option.mem_toList.1 hm)
      rw [Boundary.header?] at hb
      split at hb
      · cases hb
      · cases hb
        show Http.authorization ≠ "x-allowed-locations"
        decide

theorem apply_ok {hs hs' : Http.Headers} (h : c.apply none hs = (.ok (), hs')) :
    ∃ token, c.token = some token ∧ hs'.named Http.authorization = [Http.bearer token.value] := by
  rw [apply, Option.none_or] at h
  cases ht : c.token with
  | none =>
    rw [ht] at h
    cases h
  | some token =>
    rw [ht] at h
    refine ⟨token, rfl, ?_⟩
    dsimp only [Option.map_some] at h
    have hb := named_setEach_planned hs c token.value
    rcases hp : hs.setEach (c.planned token.value) with ⟨_ | _, hs'⟩
    · rw [hp] at h
      cases h
    · rw [hp] at h hb
      cases h
      exact hb rfl

theorem apply_error {hs hs' : Http.Headers} {f : Failure} (h : c.apply none hs = (.error f, hs')) :
    (c.token = none ∧ f = .noToken) ∨ (c.token.isSome = true ∧ f = .headerValue) := by
  rw [apply, Option.none_or] at h
  cases ht : c.token with
  | none =>
    rw [ht] at h
    cases h
    exact .inl ⟨rfl, rfl⟩
  | some token =>
    rw [ht] at h
    dsimp only [Option.map_some] at h
    rcases hp : hs.setEach (c.planned token.value) with ⟨_ | _, hs'⟩
    · rw [hp] at h
      cases h
      exact .inr ⟨rfl, rfl⟩
    · rw [hp] at h
      cases h

/-! ## the whole call -/

theorem cleared_of_blocking (h : c.nonBlocking = false) : c.cleared = c :=
  if_neg (by rw [h]; nofun)

theorem cleared_of_nonBlocking (h : c.nonBlocking = true) :
    c.cleared = { c with slot := c.slot.takeFailure.2 } := if_pos h

/-- a call did what it has to do, and no more -/
structure Right (c : Credentials) (hs : Http.Headers) (w : World) (p : Prepared) : Prop where
  failed : c.NeedsRefresh w.clock → ∀ f c' w', c.cleared.refresh w = (.error f, c', w') →
    p = ⟨.error f, hs, c.cleared, w', false⟩
  refreshed : c.NeedsRefresh w.clock → ∀ c' w', c.cleared.refresh w = (.ok (), c', w') →
    p = ⟨(c'.apply none hs).1, (c'.apply none hs).2, c', w', false⟩
  /-- without a refresh the headers are set from the token there is, and no request is sent -/
  background : c.NeedsBackground w.clock →
    p = ⟨(c.apply none hs).1, (c.apply none hs).2, { c with slot := .running }, w, true⟩
  neither : ¬c.Overflows w.clock → ¬c.NeedsRefresh w.clock → ¬c.NeedsBackground w.clock →
    p = ⟨(c.apply none hs).1, (c.apply none hs).2, c, w, false⟩
  overflows : c.Overflows w.clock → p = ⟨.error .clockOverflow, hs, c, w, false⟩
  /-- without refreshes in the background the slot is left alone -/
  slot_blocking : c.nonBlocking = false → p.credentials.slot = c.slot ∧ p.started = false
  /-- otherwise a call that refreshes takes what a refresh in the background has left -/
  slot_taken : c.nonBlocking = true → c.NeedsRefresh w.clock →
    p.credentials.slot = c.slot.takeFailure.2 ∧ p.started = false
  /-- if the call succeeds the request carries the cached token -/
  authorized : p.result = .ok () → ∃ token, p.credentials.token = some token ∧
    p.headers.named Http.authorization = [Http.bearer token.value]

theorem beforeRequest_of_needsRefresh {w : World} (h : c.NeedsRefresh w.clock)
    (hs : Http.Headers) : c.beforeRequest hs w = match c.cleared.refresh w with
      | (.error f, c', w') => ⟨.error f, hs, c', w', false⟩
      | (.ok (), c', w') => ⟨(c'.apply none hs).1, (c'.apply none hs).2, c', w', false⟩ := by
  rcases hr : c.cleared.refresh w with ⟨_ | _, c', w'⟩
  · simp only [beforeRequest, need?_of_needsRefresh h, hr]
  · simp only [beforeRequest, need?_of_needsRefresh h, hr]

theorem beforeRequest_of_needsBackground {w : World} (h : c.NeedsBackground w.clock)
    (hs : Http.Headers) : c.beforeRequest hs w
      = ⟨(c.apply none hs).1, (c.apply none hs).2, { c with slot := .running }, w, true⟩ := by
  rw [beforeRequest, need?_of_needsBackground h]
  rfl

theorem beforeRequest_of_neither {w : World} (ho : ¬c.Overflows w.clock)
    (hr : ¬c.NeedsRefresh w.clock) (hb : ¬c.NeedsBackground w.clock) (hs : Http.Headers) :
    c.beforeRequest hs w = ⟨(c.apply none hs).1, (c.apply none hs).2, c, w, false⟩ := by
  rw [beforeRequest, need?_of_neither ho hr hb]
  rfl

theorem beforeRequest_of_overflows {w : World} (h : c.Overflows w.clock) (hs : Http.Headers) :
    c.beforeRequest hs w = ⟨.error .clockOverflow, hs, c, w, false⟩ := by
  rw [beforeRequest, need?_of_overflows h]

theorem slot_refresh (c : Credentials) (w : World) : (c.refresh w).2.1.slot = c.slot := by
  rcases h : c.refresh w with ⟨f | _, c', w'⟩
  · rw [refresh_error h]
  · obtain ⟨_, _, _, _, _, _, _, _, hc⟩ := refresh_ok h
    show c'.slot = c.slot
    rw [hc]

theorem slot_beforeRequest {w : World} (h : c.NeedsRefresh w.clock) (hs : Http.Headers) :
    (c.beforeRequest hs w).credentials.slot = c.cleared.slot ∧
      (c.beforeRequest hs w).started = false := by
  have hslot := c.cleared.slot_refresh w
  rw [beforeRequest_of_needsRefresh h]
  rcases hr : c.cleared.refresh w with ⟨f | _, c', w'⟩
  · rw [hr] at hslot
    exact ⟨hslot, rfl⟩
  · rw [hr] at hslot
    exact ⟨hslot, rfl⟩

theorem beforeRequest_right (c : Credentials) (hs : Http.Headers) (w : World) :
    Right c hs w (c.beforeRequest hs w) := by
  have happly : ∀ {d : Credentials} {p : Prepared}, p.result = (d.apply none hs).1 →
      p.headers = (d.apply none hs).2 → p.credentials.token = d.token → p.result = .ok () →
      ∃ token, p.credentials.token = some token ∧
        p.headers.named Http.authorization = [Http.bearer token.value] := by
    intro d p hr hh ht hok
    rw [hh, ht]
    exact apply_ok (Prod.ext (hr.symm.trans hok) rfl)
  refine ⟨?_, ?_, fun h => beforeRequest_of_needsBackground h hs,
    fun ho hr hb => beforeRequest_of_neither ho hr hb hs,
    fun h => beforeRequest_of_overflows h hs, ?_, ?_, ?_⟩
  · intro h f c' w' hr
    rw [beforeRequest_of_needsRefresh h, hr, refresh_error hr]
  · intro h c' w' hr
    rw [beforeRequest_of_needsRefresh h, hr]
  · intro hm
    have hb : ¬c.NeedsBackground w.clock := fun h => nomatch hm.symm.trans h.1
    have ho : ¬c.Overflows w.clock := fun h => nomatch hm.symm.trans h.1
    by_cases hr : c.NeedsRefresh w.clock
    · have hs' := slot_beforeRequest hr hs
      rw [cleared_of_blocking hm] at hs'
      exact hs'
    · rw [beforeRequest_of_neither ho hr hb]
      exact ⟨rfl, rfl⟩
  · intro hm hr
    have hs' := slot_beforeRequest hr hs
    rw [cleared_of_nonBlocking hm] at hs'
    exact hs'
  · by_cases hr : c.NeedsRefresh w.clock
    · rw [beforeRequest_of_needsRefresh hr]
      rcases c.cleared.refresh w with ⟨f | _, c', w'⟩
      · nofun
      · exact happly rfl rfl rfl
    · by_cases hb : c.NeedsBackground w.clock
      · rw [beforeRequest_of_needsBackground hb]
        exact happly rfl rfl rfl
      · by_cases ho : c.Overflows w.clock
        · rw [beforeRequest_of_overflows ho]
          nofun
        · rw [beforeRequest_of_neither ho hr hb]
          exact happly rfl rfl rfl

/-! ## calls in a row -/

/-- what calls leave behind that come one after another -/
def beforeRequests (c : Credentials) (w : World) : List Http.Headers → List Prepared
  | [] => []
  | hs :: hss => c.beforeRequest hs w ::
    (c.beforeRequest hs w).credentials.beforeRequests (c.beforeRequest hs w).world hss

theorem beforeRequests_of_neither {w : World} (ho : ¬c.Overflows w.clock)
    (hr : ¬c.NeedsRefresh w.clock) (hb : ¬c.NeedsBackground w.clock) (hss : List Http.Headers) :
    c.beforeRequests w hss
      = hss.map fun hs => ⟨(c.apply none hs).1, (c.apply none hs).2, c, w, false⟩ := by
  induction hss with
  | nil => rfl
  | cons hs hss ih => rw [beforeRequests, beforeRequest_of_neither ho hr hb, ih, List.map_cons]

theorem beforeRequests_of_needsBackground {w : World} (h : c.NeedsBackground w.clock)
    (hs : Http.Headers) (hss : List Http.Headers) : c.beforeRequests w (hs :: hss)
      = ⟨(c.apply none hs).1, (c.apply none hs).2, { c with slot := .running }, w, true⟩ ::
        hss.map fun hs =>
          ⟨(c.apply none hs).1, (c.apply none hs).2, { c with slot := .running }, w, false⟩ := by
  obtain ⟨hm, hf, _⟩ := h
  have hf' : ({ c with slot := .running } : Credentials).freshness? w.clock = some .stale := hf
  rw [beforeRequests, beforeRequest_of_needsBackground ⟨hm, hf, ‹_›⟩,
    beforeRequests_of_neither]
  · rfl
  · rintro ⟨_, ho⟩
    rw [hf'] at ho
    cases ho
  · rintro (⟨hm', _⟩ | ⟨_, hi⟩ | ⟨_, _, f, hs⟩)
    · cases hm.symm.trans hm'
    · cases hf'.symm.trans hi
    · cases hs
  · rintro ⟨_, _, hs | hs⟩
    · cases hs
    · cases hs

/-- what calls in a row do -/
structure InARow (c : Credentials) (w : World) : Prop where
  neither : ¬c.Overflows w.clock → ¬c.NeedsRefresh w.clock → ¬c.NeedsBackground w.clock →
    ∀ hss, c.beforeRequests w hss
      = hss.map fun hs => ⟨(c.apply none hs).1, (c.apply none hs).2, c, w, false⟩
  /-- of calls that find a stale token and a free slot the first one starts a refresh in the
  background, and no other does -/
  background : c.NeedsBackground w.clock → ∀ hs hss, c.beforeRequests w (hs :: hss)
    = ⟨(c.apply none hs).1, (c.apply none hs).2, { c with slot := .running }, w, true⟩ ::
      hss.map fun hs =>
        ⟨(c.apply none hs).1, (c.apply none hs).2, { c with slot := .running }, w, false⟩

theorem in_a_row (c : Credentials) (w : World) : InARow c w :=
  ⟨fun ho hr hb => beforeRequests_of_neither ho hr hb,
    fun h hs hss => beforeRequests_of_needsBackground h hs hss⟩

end Credentials

end Federation
