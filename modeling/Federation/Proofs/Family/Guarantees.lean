import Federation.Proofs.Account.Build
import Federation.Proofs.Family.Basic
import Federation.Proofs.Refresh.Usable

/-!
# What lasts of the checks of a build

An account is checked once, when it is built.  What was checked holds of all accounts that are made
from it, and so of every request that is ever sent for any of them.

* `Family.Reached.sane`  all refreshes of a family keep to what is configured;
* `Family.checks_last`   what the checks of a build say of these requests.
-/

namespace Federation

theorem Derivation.derived {a a' account : Account} (h : a.Derived a') {d : Derivation}
    (hd : d.account? a' = some account) : a.Derived account := by
  cases d with
  | withQuotaProject project =>
    cases hd
    exact h.withQuotaProject project
  | withScopes scopes defaultScopes =>
    cases hd
    exact h.withScopes scopes defaultScopes
  | withScopesIfRequired scopes defaultScopes =>
    rw [account?] at hd
    split at hd <;> cases hd
    exact h.withScopes scopes defaultScopes

namespace Family

/-- all that is under way or was sent is for accounts that are made from `a`, as they are
configured -/
structure Sane (a : Account) (s : Family) : Prop where
  made : ∀ c ∈ s.made, a.Derived c.account
  fits : ∀ place owner stage, (place, some (.refreshing owner stage)) ∈ s.tasks →
    ∀ c, s.made[place]? = some c → stage.Fits c.account.configuration
  log : ∀ e ∈ s.log, ∃ a', a.Derived a' ∧ e.2.Planned a'

variable {a : Account} {s : Family}

theorem Sane.start (a : Account) (boundary : Option Boundary) (nonBlocking : Bool) (w : World) :
    (start (.new a boundary nonBlocking) w).Sane a where
  made := by
    intro c hc
    rw [List.mem_singleton.1 hc]
    exact .refl
  fits := fun _ _ _ ht => absurd ht List.not_mem_nil
  log := fun _ he => absurd he List.not_mem_nil

theorem exists_account_step {m : Move} {c : Credentials} (hc : c ∈ (s.step m).made) :
    ∃ c₀ ∈ s.made, c.account = c₀.account ∨
      ∃ d : Derivation, d.account? c₀.account = some c.account := by
  have h := s.does_step m
  generalize s.step m = s' at h hc
  cases h with
  | mode hh hc₀ =>
    rcases List.mem_or_eq_of_mem_set hc with hc | rfl
    · exact ⟨c, hc, .inl rfl⟩
    · exact ⟨_, List.mem_of_getElem? hc₀, .inl rfl⟩
  | derived hh hc₀ hd =>
    rcases List.mem_append.1 hc with hc | hc
    · exact ⟨c, hc, .inl rfl⟩
    · rw [List.mem_singleton.1 hc]
      exact ⟨_, List.mem_of_getElem? hc₀, .inr ⟨_, hd⟩⟩
  | @turned n place c₀ j hn hc₀ =>
    rcases List.mem_or_eq_of_mem_set hc with hc | rfl
    · exact ⟨c, hc, .inl rfl⟩
    · exact ⟨_, List.mem_of_getElem? hc₀, .inl (j.account_turn c₀ s.world)⟩
  | _ => exact ⟨c, hc, .inl rfl⟩

theorem fits_task_step {m : Move} {place : Nat} {owner : Traffic.Owner} {stage : Stage}
    (ht : (place, some (.refreshing owner stage)) ∈ (s.step m).tasks) :
    (place, some (.refreshing owner stage)) ∈ s.tasks ∨ (∀ c, stage.Fits c) ∨
      ∃ c, s.made[place]? = some c ∧ stage.Fits c.account.configuration := by
  have h := s.does_step m
  generalize s.step m = s' at h ht
  cases h with
  | launched hh hc hj =>
    rcases List.mem_append.1 ht with ht | ht
    · exact .inl ht
    · have he := congrArg Prod.snd (List.mem_singleton.1 ht)
      exact .inr (.inl (hj.fits (Option.some.inj he).symm))
  | @turned n place' c j hn hc =>
    rcases List.mem_append.1 ht with ht | ht
    · rcases List.mem_or_eq_of_mem_set ht with ht | he
      · exact .inl ht
      · obtain ⟨rfl, hnext⟩ := Prod.mk.inj he
        exact .inr (.inr ⟨c, hc, j.fits_turn c s.world hnext.symm⟩)
    · obtain ⟨j', hj', he⟩ := List.mem_map.1 ht
      have hnew := j.isNew_of_started c s.world hj'
      exact .inr (.inl (hnew.fits (Option.some.inj (congrArg Prod.snd he))))
  | _ => exact .inl ht

theorem Sane.log_step (hs : s.Sane a) (m : Move) :
    ∀ e ∈ (s.step m).log, ∃ a', a.Derived a' ∧ e.2.Planned a' := by
  intro e he
  have h := s.does_step m
  generalize s.step m = s' at h he
  cases h with
  | @turned n place c j hn hc =>
    rcases List.mem_append.1 he with he | he
    · exact hs.log e he
    · obtain ⟨sent, hsent, rfl⟩ := List.mem_map.1 he
      cases j with
      | refreshing owner stage =>
        have hf := hs.fits place owner stage (List.mem_of_getElem? hn) c hc
        have hmade := hs.made c (List.mem_of_getElem? hc)
        exact ⟨c.account, hmade, Credentials.planned_of_sends hf hsent⟩
      | _ => exact absurd hsent List.not_mem_nil
  | _ => exact hs.log e he

theorem Sane.step (hs : s.Sane a) (hb : s.Bounded) (m : Move) : (s.step m).Sane a where
  made := by
    intro c hc
    obtain ⟨c₀, hc₀, he | ⟨d, hd⟩⟩ := exists_account_step hc
    · rw [he]
      exact hs.made c₀ hc₀
    · exact Derivation.derived (hs.made c₀ hc₀) hd
  fits := by
    intro place owner stage ht c hc
    have hkept : ∀ c₀, s.made[place]? = some c₀ → stage.Fits c₀.account.configuration →
        stage.Fits c.account.configuration := by
      intro c₀ hc₀ hf
      obtain ⟨c', hc', hbecame⟩ := became_step hc₀ m
      obtain rfl := Option.some.inj (hc.symm.trans hc')
      rw [hbecame.account]
      exact hf
    obtain ht | hf | ⟨c₀, hc₀, hf⟩ := fits_task_step ht
    · have hg := List.getElem?_eq_getElem (hb.tasks _ ht)
      exact hkept _ hg (hs.fits place owner stage ht _ hg)
    · exact hf _
    · exact hkept c₀ hc₀ hf
  log := hs.log_step m

theorem Reached.sane (h : Reached a s) : s.Sane a := by
  have hboth : s.Bounded ∧ s.Sane a := by
    refine Reached.induction (P := fun s => s.Bounded ∧ s.Sane a) ?_ ?_ h
    · intro boundary nonBlocking w
      exact ⟨Reached.bounded ⟨boundary, nonBlocking, w, [], rfl⟩, .start a boundary nonBlocking w⟩
    · exact fun s m hs => ⟨hs.1.step m, hs.2.step hs.1 m⟩
  exact hboth.2

end Family

/-! ## one request -/

theorem Account.exists_of_lookup? {a : Account} {e : Environment} {url : String}
    (h : a.lookup? e = some url) :
    ∃ rest, url = "https://iamcredentials.googleapis.com/v1/" ++ rest := by
  have hservice : Boundary.service defaultDomain = "https://iamcredentials.googleapis.com/v1/" := by
    decide
  rw [lookup?] at h
  split at h
  · next hcond =>
    rw [Bool.and_eq_true, decide_eq_true_eq] at hcond
    rw [lookupUrl?, hcond.1] at h
    rw [← hservice]
    cases hemail : a.configuration.email? with
    | some email =>
      rw [hemail] at h
      cases h
      refine ⟨"projects/-/serviceAccounts/" ++ email ++ "/allowedLocations", ?_⟩
      simp only [Boundary.accountUrl, String.append_assoc]
    | none =>
      rw [hemail] at h
      obtain ⟨pool, _, rfl⟩ := Option.map_eq_some_iff.1 h
      cases pool with
      | workload project pool =>
        refine ⟨"projects/" ++ project ++ "/locations/global/workloadIdentityPools/" ++ pool ++
          "/allowedLocations", ?_⟩
        simp only [Boundary.Pool.url, String.append_assoc]
      | workforce pool =>
        refine ⟨"locations/global/workforcePools/" ++ pool ++ "/allowedLocations", ?_⟩
        simp only [Boundary.Pool.url, String.append_assoc]
  · cases h

theorem Exchange.isSome_of_mem_form {x : Exchange} {v : String} (h : ("options", v) ∈ x.form) :
    x.userProject.isSome = true := by
  have hscope : ("options", v) ∉ scopeFields x.scopes := by
    rw [scopeFields]
    split <;> simp
  cases hp : x.userProject with
  | some project => rfl
  | none => simp [form, hp, optionFields, hscope] at h

/-- what the checks of the build of an account say of a request for it -/
structure Sent.Checked (s : Sent) (checked : Bool) : Prop where
  /-- options are sent only for the audience of a workforce pool -/
  options : s.hop = .exchange → ∃ x : Exchange, s.request = x.request ∧
    ∀ v, ("options", v) ∈ x.form → Configuration.isWorkforceAudience x.audience = true
  /-- only known endpoints get a token in a body, or one that was got for another -/
  posts : checked = true → s.request.method = .post →
    (s.hop = .exchange ∧ Endpoint.isTokenUrl s.request.url = true) ∨
      (s.hop = .impersonation ∧ Endpoint.isImpersonationUrl s.request.url = true)
  lookups : s.hop = .lookup → s.request.method = .get ∧
    ∃ rest, s.request.url = "https://iamcredentials.googleapis.com/v1/" ++ rest

theorem Sent.Planned.checked {s : Sent} {a : Account} {checked : Bool} (h : s.Planned a)
    (hv : a.configuration.Valid checked) : s.Checked checked := by
  obtain ⟨hop, r, w⟩ := s
  cases hop with
  | subjectToken =>
    obtain ⟨address, headers, format, _, hr⟩ := h
    obtain rfl : r = _ := hr
    exact ⟨nofun, nofun, nofun⟩
  | exchange =>
    obtain ⟨subject, hr⟩ := h
    obtain rfl : r = _ := hr
    refine ⟨fun _ => ⟨_, rfl, fun v hm => hv.workforce ?_⟩, fun hc _ => .inl ⟨rfl, hv.tokenUrl hc⟩,
      nofun⟩
    have hsome := Exchange.isSome_of_mem_form hm
    simp only [Configuration.exchange] at hsome
    split at hsome
    · cases hsome
    · exact hsome
  | impersonation =>
    obtain ⟨i, caller, held, hi, hr⟩ := h
    obtain rfl : r = _ := hr
    obtain ⟨url, hu, rfl⟩ := Option.map_eq_some_iff.1 hi
    exact ⟨nofun, fun hc _ => .inr ⟨rfl, hv.impersonationUrl hc url hu⟩, nofun⟩
  | lookup =>
    obtain ⟨url, token, hu, hr⟩ := h
    obtain rfl : r = _ := hr
    exact ⟨nofun, nofun, fun _ => ⟨rfl, Account.exists_of_lookup? hu⟩⟩

namespace Family

/-- what the checks of a build say of a family that has come of it -/
structure Kept (checked : Bool) (s : Family) : Prop where
  /-- a project that pays is set for workforce pools only -/
  made : ∀ c ∈ s.made, c.account.configuration.userProject.isSome = true →
    c.account.configuration.isWorkforcePool = true
  log : ∀ e ∈ s.log, e.2.Checked checked
  /-- all that is sent is in the log but what a supplier sends -/
  logged : ∀ m, (∀ w, m ≠ .world w) → ∃ own l,
    (own ≠ [] → ∃ c ∈ s.made, c.account.configuration.source = .supplied) ∧
    s.world.Leads (own ++ l.map fun e => e.2.request) (s.step m).world ∧
    (s.step m).log = s.log ++ l

theorem logged_step (s : Family) {m : Move} (hm : ∀ w, m ≠ .world w) : ∃ own l,
    (own ≠ [] → ∃ c ∈ s.made, c.account.configuration.source = .supplied) ∧
    s.world.Leads (own ++ l.map fun e => e.2.request) (s.step m).world ∧
    (s.step m).log = s.log ++ l := by
  have h := s.does_step m
  generalize s.step m = s' at h
  cases h with
  | world => exact absurd rfl (hm _)
  | @turned n place c j hn hc =>
    obtain ⟨own, ho, hleads⟩ := j.leads_turn c s.world
    refine ⟨own, (j.sends c s.world).map (place, ·), ?_, ?_, rfl⟩
    · exact fun hne => ⟨c, List.mem_of_getElem? hc, ho hne⟩
    · rw [List.map_map]
      exact hleads
  | _ => exact ⟨[], [], nofun, .refl _, (List.append_nil _).symm⟩

/-- what was checked when an account was built holds of all that ever comes of it -/
theorem checks_last {settings : Settings} {a : Account} {s : Family} (hb : a.IsBuilt settings)
    (hr : Reached a s) : s.Kept settings.checkEndpoints where
  made := fun c hc => ((hr.sane.made c hc).valid hb.valid).workforce
  log := by
    intro e he
    obtain ⟨a', hd, hp⟩ := hr.sane.log e he
    exact hp.checked (hd.valid hb.valid)
  logged := fun _ hm => s.logged_step hm

def guardedDraft : Account.Draft where
  audience := some "//iam.googleapis.com/locations/global/workforcePools/pool/providers/provider"
  tokenType := some "type"
  tokenUrl := none
  tokenInfoUrl := none
  impersonationUrl := some
    "https://iamcredentials.googleapis.com/v1/projects/-/serviceAccounts/a@b:generateAccessToken"
  lifetime := none
  clientId := none
  clientSecret := none
  userProject := some "project"

def guardedSettings : Settings := ⟨[], [], none, none, none, true⟩

def answers : World := Credentials.answering [Credentials.granted,
  "\x7b\"accessToken\": \"token\", \"expireTime\": \"2030-01-01T00:00:00Z\"\x7d",
  "\x7b\"encodedLocations\": \"0x1\"\x7d"]

def derivedRefresh : List Move :=
  .call 0 (.derive (.withScopes ["scope"] [])) :: .call 1 .refresh :: List.replicate 6 (.proceed 0)

theorem checks_last_of_draft : ∃ a s, a.IsBuilt guardedSettings ∧ Reached a s ∧
    s.log.map (·.2.hop) = [.exchange, .impersonation, .lookup] ∧
    s.Kept guardedSettings.checkEndpoints := by
  have hlog : ((Account.ofDraft guardedDraft guardedSettings).toOption.map fun a =>
      ((start (.new a none false) answers).run derivedRefresh).log.map (·.2.hop))
      = some [.exchange, .impersonation, .lookup] := by
    decide +kernel
  rcases hd : Account.ofDraft guardedDraft guardedSettings with f | a
  · rw [hd] at hlog
    cases hlog
  · rw [hd] at hlog
    have hb : a.IsBuilt guardedSettings := .inr (.inr ⟨guardedDraft, hd⟩)
    have hr : Reached a ((start (.new a none false) answers).run derivedRefresh) :=
      ⟨none, false, answers, derivedRefresh, rfl⟩
    exact ⟨a, _, hb, hr, Option.some.inj hlog, checks_last hb hr⟩

end Family

end Federation
