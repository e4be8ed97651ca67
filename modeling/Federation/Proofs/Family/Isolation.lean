import Federation.Proofs.Family.Sessions

/-!
# Derived credentials and shared credentials

A derivation gives a handle with a place of its own, and sharing gives another handle with the same
place.  Handles keep their places, so that the former never see what the others do, and the latter
always see the same.

* `Derivation.replaces`        a derivation replaces one setting;
* `Family.starts_derived`      what derived credentials start with;
* `Family.frame_run`           no step on some credentials changes others;
* `Family.derived_and_shared`  all of this, in whatever has come of new credentials, which is also
  what every session follows.
-/

namespace Federation

/-! ## derivations -/

/-- a derivation replaces one setting of the account, and keeps all others -/
structure Derivation.Replaces (a : Account) : Prop where
  quotaProject : ∀ project, (withQuotaProject project).account? a
    = some { a with quotaProject := some project }
  scopes : ∀ scopes defaultScopes, (withScopes scopes defaultScopes).account? a
    = some { a with configuration := { a.configuration with scopes, defaultScopes } }
  required : a.configuration.scopes = [] → a.configuration.defaultScopes = [] →
    ∀ scopes defaultScopes, (withScopesIfRequired scopes defaultScopes).account? a
      = (withScopes scopes defaultScopes).account? a
  /-- credentials that have scopes are shared -/
  notRequired : a.configuration.scopes ≠ [] ∨ a.configuration.defaultScopes ≠ [] →
    ∀ scopes defaultScopes, (withScopesIfRequired scopes defaultScopes).account? a = none

theorem Derivation.replaces (a : Account) : Replaces a where
  quotaProject := fun _ => rfl
  scopes := fun _ _ => rfl
  required := by
    intro hs hd scopes defaultScopes
    have h : a.configuration.requiresScopes = true := by
      simp [Configuration.requiresScopes, hs, hd]
    exact if_pos h
  notRequired := by
    intro hne scopes defaultScopes
    have h : ¬a.configuration.requiresScopes = true := by
      simp only [Configuration.requiresScopes, Bool.and_eq_true, List.isEmpty_iff]
      exact fun ⟨hs, hd⟩ => hne.elim (fun h => h hs) fun h => h hd
    exact if_neg h

namespace Family

/-- the credentials that are seen through a handle -/
def credentials? (s : Family) (h : Nat) : Option Credentials := s.handles[h]?.bind (s.made[·]?)

variable {s : Family} {h h' place : Nat} {c : Credentials}

theorem exists_place (hc : s.credentials? h = some c) :
    ∃ place, s.handles[h]? = some place ∧ s.made[place]? = some c :=
  Option.bind_eq_some_iff.1 hc

theorem credentials?_of_place (hh : s.handles[h]? = some place) :
    s.credentials? h = s.made[place]? := by
  rw [credentials?, hh, Option.bind_some]

theorem credentials?_run (hh : s.handles[h]? = some place) (ms : List Move) :
    (s.run ms).credentials? h = (s.run ms).made[place]? :=
  credentials?_of_place (place_run hh ms)

/-! ## derived credentials -/

/-- the last handle of `s'` is one that was derived in `s` for an account from the credentials
`c` -/
structure Starts (s s' : Family) (c : Credentials) (account : Account) : Prop where
  /-- they have no token, a slot that is idle, and the boundary and the mode that `c` has now -/
  fresh : s'.credentials? s.handles.length
    = some ⟨account, none, c.boundary, .idle, c.nonBlocking⟩
  apart : ∀ h < s.handles.length, s'.handles[h]? ≠ s'.handles[s.handles.length]?
  unused : ∀ t ∈ s'.tasks, s'.handles[s.handles.length]? ≠ some t.1
  others : ∀ h < s.handles.length, s'.credentials? h = s.credentials? h

theorem starts_derived (hs : s.Bounded) {d : Derivation} {account : Account}
    (hc : s.credentials? h = some c) (hd : d.account? c.account = some account) :
    Starts s (s.step (.call h (.derive d))) c account := by
  obtain ⟨place, hh, hm⟩ := exists_place hc
  have hstep : s.step (.call h (.derive d)) = s.add (c.derive account) := by
    simp only [step, hh, hm, called, hd]
  rw [hstep]
  have hnew : (s.add (c.derive account)).handles[s.handles.length]? = some s.made.length :=
    List.getElem?_concat_length
  have hold : ∀ h < s.handles.length,
      (s.add (c.derive account)).handles[h]? = s.handles[h]? :=
    fun h hlt => List.getElem?_append_left hlt
  have hplace : ∀ h < s.handles.length, ∃ place, s.handles[h]? = some place ∧
      place < s.made.length := by
    intro h hlt
    have hg := List.getElem?_eq_getElem hlt
    exact ⟨_, hg, hs.handles _ (List.mem_of_getElem? hg)⟩
  refine ⟨?_, fun h hlt he => ?_, fun t ht he => ?_, fun h hlt => ?_⟩
  · rw [credentials?_of_place hnew]
    exact List.getElem?_concat_length
  · obtain ⟨place, hp, hlt'⟩ := hplace h hlt
    rw [hold h hlt, hnew, hp] at he
    have := Option.some.inj he
    omega
  · have hlt := hs.tasks t ht
    rw [hnew] at he
    have := Option.some.inj he
    omega
  · obtain ⟨place, hp, hlt'⟩ := hplace h hlt
    rw [credentials?_of_place ((hold h hlt).trans hp), credentials?_of_place hp]
    exact List.getElem?_append_left hlt'

/-! ## shared credentials -/

/-- the last handle of `s'` is another one on the credentials of the handle `h` of `s` -/
structure Shares (s s' : Family) (h : Nat) : Prop where
  place : s'.handles[s.handles.length]? = s'.handles[h]?
  made : s'.made = s.made

theorem shares_called {call : Call} (hc : s.credentials? h = some c)
    (hcall : call = .share ∨ ∃ d, call = .derive d ∧ d.account? c.account = none) :
    Shares s (s.step (.call h call)) h := by
  obtain ⟨place, hh, hm⟩ := exists_place hc
  have hstep : s.step (.call h call) = s.share place := by
    rcases hcall with rfl | ⟨d, rfl, hd⟩
    · simp only [step, hh, hm, called]
    · simp only [step, hh, hm, called, hd]
  have hlt := (List.getElem?_eq_some_iff.1 hh).1
  rw [hstep]
  refine ⟨?_, rfl⟩
  show (s.handles ++ [place])[s.handles.length]? = (s.handles ++ [place])[h]?
  rw [List.getElem?_concat_length, List.getElem?_append_left hlt, hh]

/-! ## from then on -/

/-- a step on the credentials at one place does not change what is at another -/
theorem frame_run (hs : s.Bounded) {place' : Nat} (hh : s.handles[h]? = some place)
    (hne : place ≠ place') (ms : List Move) {m : Move} (hm : m.place? (s.run ms) = some place') :
    (s.run (ms ++ [m])).credentials? h = (s.run ms).credentials? h := by
  have hb : (s.run ms).Bounded := run_induction (fun _ m hs => hs.step m) hs ms
  have hplace := place_run hh ms
  have hlt := hb.handles place (List.mem_of_getElem? hplace)
  rw [credentials?_run hh, credentials?_run hh, run_concat]
  refine getElem?_made_step hlt fun he => hne ?_
  exact Option.some.inj (he.symm.trans hm)

/-- what is seen through the handles of a family, from now on -/
structure Separate (s : Family) : Prop where
  derived : ∀ h c d account, s.credentials? h = some c → d.account? c.account = some account →
    Starts s (s.step (.call h (.derive d))) c account
  shared : ∀ h c call, s.credentials? h = some c →
    (call = .share ∨ ∃ d, call = .derive d ∧ d.account? c.account = none) →
    Shares s (s.step (.call h call)) h
  lasting : ∀ h place : Nat, s.handles[h]? = some place → ∀ ms, (s.run ms).handles[h]? = some place
  /-- handles with one place always see the same -/
  together : ∀ h h' place : Nat, s.handles[h]? = some place → s.handles[h']? = some place →
    ∀ ms, (s.run ms).credentials? h = (s.run ms).credentials? h'
  /-- of handles with two places, one does not see what is done by way of the other -/
  frame : ∀ h h' place place' : Nat, s.handles[h]? = some place →
    s.handles[h']? = some place' → place ≠ place' → ∀ ms m, m.place? (s.run ms) = some place' →
    (s.run (ms ++ [m])).credentials? h = (s.run ms).credentials? h
  /-- the account that is seen stays, and the mode does not go back -/
  became : ∀ h c, s.credentials? h = some c → ∀ ms, ∃ c', (s.run ms).credentials? h = some c' ∧
    c'.account = c.account ∧ (c.nonBlocking = true → c'.nonBlocking = true)

theorem Bounded.separate (hs : s.Bounded) : s.Separate where
  derived := fun _ _ _ _ hc hd => starts_derived hs hc hd
  shared := fun _ _ _ hc hcall => shares_called hc hcall
  lasting := fun _ _ hh ms => place_run hh ms
  together := fun _ _ _ hh hh' ms => (credentials?_run hh ms).trans (credentials?_run hh' ms).symm
  frame := fun _ _ _ _ hh _ hne ms _ hm => frame_run hs hh hne ms hm
  became := by
    intro h c hc ms
    obtain ⟨place, hh, hm⟩ := exists_place hc
    obtain ⟨c', hc', hb⟩ := became_run hm ms
    exact ⟨c', (credentials?_run hh ms).trans hc', hb.account, hb.mode⟩

/-- credentials that are derived stand alone, and those that are shared stand together; sessions are
such families -/
theorem derived_and_shared :
    (∀ a, Derivation.Replaces a) ∧ (∀ account s, Reached account s → s.Separate) ∧
    ∀ account boundary nonBlocking w name l, ∃ s, Reached account s ∧
      s.Follows ((Session.start w name (.new account boundary nonBlocking)).after l) :=
  ⟨Derivation.replaces, fun _ _ hr => hr.bounded.separate, exists_follows⟩

end Family

end Federation
