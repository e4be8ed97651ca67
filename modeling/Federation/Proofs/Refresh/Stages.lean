import Federation.Proofs.Refresh.Grant

/-!
# The stages of a refresh

A refresh waits for an answer up to four times, and other things may happen in the meantime.  A
`Stage` is what a refresh knows while they do; `Credentials.proceed` takes it from one stage to the
next, and each of these steps looks at the credentials or changes them in one place only.

* `Credentials.refresh_eq`, `Credentials.complete_eq`
                                  a refresh that nothing comes between is all its steps in a row;
* `Credentials.proceed_moved`, `Credentials.proceed_failed`, `Credentials.proceed_published`
                                  what a step can do to the credentials;
* `Configuration.grants_of_advance`
                                  the step that brings a token is a last request.
-/

namespace Federation

/-- what a fetch knows between its requests -/
inductive Fetch where
  | begun (held : Option Boundary)
  | identified (held : Option Boundary) (subject : String)
  | exchanged (i : Impersonation) (held : Option Boundary) (caller : String)

/-- what a refresh knows while it is under way -/
inductive Stage where
  | begun
  | fetching (f : Fetch)
  /-- it has the token and no boundary to go with it -/
  | fetched (token : Token)
  | located (token : Token)

def Stage.steps : Stage → Nat
  | .begun => 6
  | .fetching (.begun _) => 5
  | .fetching (.identified _ _) => 4
  | .fetching (.exchanged _ _ _) => 3
  | .fetched _ => 2
  | .located _ => 1

/-! ## fetching -/

namespace Configuration

/-- the next thing that a fetch does: it gets further, or it gets the token -/
def advance (c : Configuration) : Fetch → Action (Fetch ⊕ Token)
  | .begun held => (fun subject => .inl (.identified held subject)) <$> c.subjectToken
  | .identified held subject => do
    let answer ← (c.exchange subject).run
    match c.impersonation? with
    | some i => pure (.inl (.exchanged i held answer.accessToken))
    | none => fun w => ((answer.token w.clock).map .inr, w)
  | .exchanged i held caller => .inr <$> i.run caller held

/-- all that a fetch still does -/
def remaining (c : Configuration) : Fetch → Action Token
  | .begun held => c.fetch held
  | .identified held subject => do
    let answer ← (c.exchange subject).run
    match c.impersonation? with
    | some i => i.run answer.accessToken held
    | none => fun w => (answer.token w.clock, w)
  | .exchanged i held caller => i.run caller held

theorem bind_inr (g : World → Except Failure Token) (k : Fetch → Action Token) :
    ((fun w => ((g w).map .inr, w) : Action (Fetch ⊕ Token)) >>= Sum.elim k pure)
      = (fun w => (g w, w) : Action Token) := by
  funext w
  show Action.run ((fun w => ((g w).map .inr, w) : Action (Fetch ⊕ Token)) >>= Sum.elim k pure) w
    = (g w, w)
  rw [Action.run_bind]
  dsimp only [Action.run]
  rcases g w with _ | token
  · rfl
  · rfl

theorem remaining_eq (c : Configuration) (f : Fetch) :
    c.remaining f = c.advance f >>= Sum.elim c.remaining pure := by
  cases f with
  | begun held =>
    rw [advance, bind_map_left]
    rfl
  | identified held subject =>
    rw [advance, remaining, bind_assoc]
    congr 1
    funext a
    cases c.impersonation? with
    | some i => rw [pure_bind, Sum.elim_inl, remaining]
    | none => exact (bind_inr (fun w => a.token w.clock) c.remaining).symm
  | exchanged i held caller =>
    rw [advance, remaining, bind_map_left]
    exact (bind_pure _).symm

end Configuration

/-! ## one step -/

namespace Credentials

inductive Progress where
  | moved (stage : Stage)
  | failed (f : Failure)
  | published (token : Token)

/-- the next step of a refresh -/
def proceed (c : Credentials) (stage : Stage) (w : World) : Progress × Credentials × World :=
  match stage with
  | .begun => (.moved (.fetching (.begun c.boundary)), c, w)
  | .fetching f => match (c.account.configuration.advance f).run w with
    | (.error f, w) => (.failed f, c, w)
    | (.ok (.inl f), w) => (.moved (.fetching f), c, w)
    | (.ok (.inr token), w) => (.moved (.fetched token), c, w)
  | .fetched token =>
    let (boundary, w) := c.lookup token w
    (.moved (.located token), { c with boundary := boundary }, w)
  | .located token => (.published token, { c with token := some token }, w)

/-- replaces the token, after a look for the boundary that goes with it -/
def publish (c : Credentials) (token : Token) (w : World) : Credentials × World :=
  let (boundary, w) := c.lookup token w
  ({ c with token := some token, boundary := boundary }, w)

/-- a refresh from a stage on, if nothing comes between -/
def complete (c : Credentials) (stage : Stage) (w : World) :
    Except Failure Unit × Credentials × World :=
  match stage with
  | .begun => c.refresh w
  | .fetching f => match (c.account.configuration.remaining f).run w with
    | (.error f, w) => (.error f, c, w)
    | (.ok token, w) => (.ok (), c.publish token w)
  | .fetched token => (.ok (), c.publish token w)
  | .located token => (.ok (), { c with token := some token }, w)

theorem refresh_eq (c : Credentials) (w : World) : c.refresh w = c.complete .begun w := rfl

theorem complete_eq (c : Credentials) (stage : Stage) (w : World) :
    c.complete stage w = match c.proceed stage w with
      | (.moved stage, c, w) => c.complete stage w
      | (.failed f, c, w) => (.error f, c, w)
      | (.published _, c, w) => (.ok (), c, w) := by
  cases stage with
  | begun => rfl
  | fetching f =>
    have h := congrArg (·.run w) (c.account.configuration.remaining_eq f)
    simp only [Action.run_bind] at h
    rw [complete, h, proceed]
    rcases (c.account.configuration.advance f).run w with ⟨_ | _ | token, v⟩
    · rfl
    · rfl
    · rfl
  | fetched token => rfl
  | located token => rfl

/-! ## what a step does -/

theorem proceed_moved {c c' : Credentials} {stage stage' : Stage} {w w' : World}
    (h : c.proceed stage w = (.moved stage', c', w')) :
    (stage = .begun ∧ stage' = .fetching (.begun c.boundary) ∧ c' = c ∧ w' = w) ∨
    (∃ f f', stage = .fetching f ∧ stage' = .fetching f' ∧ c' = c ∧
      (c.account.configuration.advance f).run w = (.ok (.inl f'), w')) ∨
    (∃ f token, stage = .fetching f ∧ stage' = .fetched token ∧ c' = c ∧
      (c.account.configuration.advance f).run w = (.ok (.inr token), w')) ∨
    (∃ token, stage = .fetched token ∧ stage' = .located token ∧
      c' = { c with boundary := (c.lookup token w).1 } ∧ w' = (c.lookup token w).2) := by
  cases stage with
  | begun =>
    cases h
    exact .inl ⟨rfl, rfl, rfl, rfl⟩
  | fetching f =>
    rw [proceed] at h
    rcases ha : (c.account.configuration.advance f).run w with ⟨_ | f' | token, v⟩
    · rw [ha] at h
      cases h
    · rw [ha] at h
      cases h
      exact .inr (.inl ⟨f, f', rfl, rfl, rfl, ha⟩)
    · rw [ha] at h
      cases h
      exact .inr (.inr (.inl ⟨f, token, rfl, rfl, rfl, ha⟩))
  | fetched token =>
    cases h
    exact .inr (.inr (.inr ⟨token, rfl, rfl, rfl, rfl⟩))
  | located token => cases h

theorem proceed_failed {c c' : Credentials} {stage : Stage} {e : Failure} {w w' : World}
    (h : c.proceed stage w = (.failed e, c', w')) :
    c' = c ∧ ∃ f, stage = .fetching f ∧
      (c.account.configuration.advance f).run w = (.error e, w') := by
  cases stage with
  | begun => cases h
  | fetching f =>
    rw [proceed] at h
    rcases ha : (c.account.configuration.advance f).run w with ⟨_ | f' | token, v⟩
    · rw [ha] at h
      cases h
      exact ⟨rfl, f, rfl, ha⟩
    · rw [ha] at h
      cases h
    · rw [ha] at h
      cases h
  | fetched token => cases h
  | located token => cases h

theorem proceed_published {c c' : Credentials} {stage : Stage} {token : Token} {w w' : World}
    (h : c.proceed stage w = (.published token, c', w')) :
    stage = .located token ∧ c' = { c with token := some token } ∧ w' = w := by
  cases stage with
  | begun => cases h
  | fetching f =>
    rw [proceed] at h
    rcases ha : (c.account.configuration.advance f).run w with ⟨_ | f' | token, v⟩
    · rw [ha] at h
      cases h
    · rw [ha] at h
      cases h
    · rw [ha] at h
      cases h
  | fetched token => cases h
  | located token =>
    cases h
    exact ⟨rfl, rfl, rfl⟩

end Credentials

/-! ## where the token comes from -/

def Fetch.Fits (c : Configuration) : Fetch → Prop
  | .exchanged i _ _ => c.impersonation? = some i
  | _ => True

namespace Configuration

theorem advance_begun {c : Configuration} {held : Option Boundary} {x : Fetch ⊕ Token}
    {w w' : World} (h : (c.advance (.begun held)).run w = (.ok x, w')) :
    ∃ subject, x = .inl (.identified held subject) := by
  obtain ⟨subject, _, rfl⟩ := Action.run_map_eq_ok_iff.1 h
  exact ⟨subject, rfl⟩

theorem advance_identified {c : Configuration} {held : Option Boundary} {subject : String}
    {x : Fetch ⊕ Token} {w w' : World}
    (h : (c.advance (.identified held subject)).run w = (.ok x, w')) :
    ∃ a, (c.exchange subject).run.run w = (.ok a, w') ∧
      ((∃ i, c.impersonation? = some i ∧ x = .inl (.exchanged i held a.accessToken)) ∨
        (c.impersonation? = none ∧ ∃ token, a.token w'.clock = .ok token ∧ x = .inr token)) := by
  rw [advance] at h
  obtain ⟨a, v, he, h⟩ := Action.run_bind_eq_ok_iff.1 h
  cases hi : c.impersonation? with
  | some i =>
    rw [hi] at h
    cases h
    exact ⟨a, he, .inl ⟨i, rfl, rfl⟩⟩
  | none =>
    rw [hi] at h
    obtain ⟨ht, rfl⟩ := Prod.mk.inj h
    refine ⟨a, he, .inr ⟨rfl, ?_⟩⟩
    cases hk : a.token v.clock with
    | error f =>
      rw [hk] at ht
      cases ht
    | ok token =>
      rw [hk] at ht
      cases ht
      exact ⟨token, rfl, rfl⟩

theorem advance_exchanged {c : Configuration} {i : Impersonation} {held : Option Boundary}
    {caller : String} {x : Fetch ⊕ Token} {w w' : World}
    (h : (c.advance (.exchanged i held caller)).run w = (.ok x, w')) :
    ∃ token, x = .inr token ∧ (i.run caller held).run w = (.ok token, w') := by
  obtain ⟨token, ht, rfl⟩ := Action.run_map_eq_ok_iff.1 h
  exact ⟨token, rfl, ht⟩

theorem fits_of_advance {c : Configuration} {f f' : Fetch} {w w' : World}
    (h : (c.advance f).run w = (.ok (.inl f'), w')) :
    f'.Fits c ∧ (Stage.fetching f').steps < (Stage.fetching f).steps := by
  cases f with
  | begun held =>
    obtain ⟨subject, hx⟩ := advance_begun h
    cases hx
    exact ⟨trivial, Nat.lt_succ_self 4⟩
  | identified held subject =>
    obtain ⟨_, _, ⟨i, hi, hx⟩ | ⟨_, _, _, hx⟩⟩ := advance_identified h
    · cases hx
      exact ⟨hi, Nat.lt_succ_self 3⟩
    · cases hx
  | exchanged i held caller =>
    obtain ⟨_, hx, _⟩ := advance_exchanged h
    cases hx

theorem grants_of_advance {c : Configuration} {f : Fetch} {w w' : World} {token : Token}
    (hf : f.Fits c) (h : (c.advance f).run w = (.ok (.inr token), w')) : c.Grants w w' token := by
  cases f with
  | begun held =>
    obtain ⟨_, hx⟩ := advance_begun h
    cases hx
  | identified held subject =>
    obtain ⟨a, he, ⟨_, _, hx⟩ | ⟨hi, token', hk, hx⟩⟩ := advance_identified h
    · cases hx
    · cases hx
      exact .of_exchange hi he hk
  | exchanged i held caller =>
    obtain ⟨token', hx, hr⟩ := advance_exchanged h
    cases hx
    exact .of_impersonation hf hr

end Configuration

theorem Credentials.steps_of_moved {c c' : Credentials} {stage stage' : Stage} {w w' : World}
    (h : c.proceed stage w = (.moved stage', c', w')) : stage'.steps < stage.steps := by
  obtain ⟨rfl, rfl, _, _⟩ | ⟨f, f', rfl, rfl, _, ha⟩ | ⟨f, token, rfl, rfl, _, _⟩ |
    ⟨token, rfl, rfl, _, _⟩ := proceed_moved h
  · exact Nat.lt_succ_self 5
  · exact (Configuration.fits_of_advance ha).2
  · rcases f with _ | _ | _
    · show 2 < 5; omega
    · show 2 < 4; omega
    · exact Nat.lt_succ_self 2
  · exact Nat.lt_succ_self 1

end Federation
