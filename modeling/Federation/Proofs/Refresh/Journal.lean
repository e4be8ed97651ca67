import Federation.Proofs.Refresh.Course

/-!
# The journal of a refresh

What a refresh sends if nothing comes between its steps: `Credentials.journal` lists it, with the
world in which each request was sent.

* `Credentials.course_journal`   the journal is a course, and its end is that of the refresh;
* `Credentials.leads_journal`    its worlds follow from one another by its requests;
* `Credentials.told_journal`     what stands in a request was told to the refresh before.
-/

namespace Federation

namespace Credentials

/-- what a refresh still sends from a stage on -/
def journal (c : Credentials) (stage : Stage) (w : World) : List Sent :=
  c.sends stage w ++ match _h : c.proceed stage w with
    | (.moved stage', c', w') => c'.journal stage' w'
    | _ => []
termination_by stage.steps
decreasing_by exact steps_of_moved _h

variable {c : Credentials} {stage : Stage} {w : World}

theorem journal_of_moved {c' : Credentials} {stage' : Stage} {w' : World}
    (h : c.proceed stage w = (.moved stage', c', w')) :
    c.journal stage w = c.sends stage w ++ c'.journal stage' w' := by
  rw [journal]
  split
  · next h' =>
    rw [h] at h'
    cases h'
    rfl
  · next hno => exact absurd h (hno _ _ _)

theorem journal_of_over {x : Progress × Credentials × World} (h : c.proceed stage w = x)
    (hx : ∀ stage', x.1 ≠ .moved stage') : c.journal stage w = c.sends stage w := by
  rw [journal]
  split
  · next h' =>
    rw [h] at h'
    subst h'
    exact absurd rfl (hx _)
  · exact List.append_nil _

/-- what is true of a refresh from a stage on follows from its steps -/
theorem complete_induction {P : Credentials → Stage → World → Prop}
    (hmoved : ∀ c stage w c' stage' w', c.proceed stage w = (.moved stage', c', w') →
      P c' stage' w' → P c stage w)
    (hover : ∀ c stage w, (∀ stage', (c.proceed stage w).1 ≠ .moved stage') → P c stage w)
    (c : Credentials) (stage : Stage) (w : World) : P c stage w := by
  generalize hn : stage.steps = n
  induction n using Nat.strongRecOn generalizing c stage w with
  | ind n ih =>
    by_cases hm : ∃ stage', (c.proceed stage w).1 = .moved stage'
    · obtain ⟨stage', hm⟩ := hm
      have hp : c.proceed stage w = (.moved stage', (c.proceed stage w).2) := Prod.ext hm rfl
      have hlt := steps_of_moved hp
      rw [hn] at hlt
      exact hmoved c stage w _ stage' _ hp (ih _ hlt _ stage' _ rfl)
    · exact hover c stage w fun stage' h => hm ⟨stage', h⟩

/-- a refresh from a stage on gets over, and then it has sent what is in its journal -/
theorem course_journal (c : Credentials) (stage : Stage) (w : World) :
    ∀ l, Course c.account l (.inl stage) → ∃ result : Except Failure Token,
      Course c.account (l ++ c.journal stage w) (.inr result) ∧
        (c.complete stage w).1 = result.map fun _ => () := by
  refine complete_induction (P := fun c stage w => ∀ l, Course c.account l (.inl stage) →
    ∃ result : Except Failure Token, Course c.account (l ++ c.journal stage w) (.inr result) ∧
      (c.complete stage w).1 = result.map fun _ => ()) ?_ ?_ c stage w
  · intro c stage w c' stage' w' hp ih l h
    have hstep := h.step rfl w
    rw [hp] at hstep
    obtain ⟨result, hcourse, hresult⟩ := ih (l ++ c.sends stage w) (by
      rw [(fits_of_moved hp).2]
      exact hstep)
    rw [(fits_of_moved hp).2, List.append_assoc, ← journal_of_moved hp] at hcourse
    refine ⟨result, hcourse, ?_⟩
    rw [complete_eq, hp]
    exact hresult
  · intro c stage w hover l h
    have hstep := h.step rfl w
    rw [journal_of_over rfl hover, complete_eq]
    rcases hp : c.proceed stage w with ⟨stage' | f | token, c', w'⟩
    · rw [hp] at hover
      exact absurd rfl (hover stage')
    · rw [hp] at hstep
      exact ⟨.error f, hstep, rfl⟩
    · rw [hp] at hstep
      exact ⟨.ok token, hstep, rfl⟩

theorem sends_of_supplied (hsrc : c.account.configuration.source = .supplied)
    (hearly : stage.IsEarly) : c.sends stage w = [] := by
  rcases stage with _ | (held | _ | _) | _ | _
  · rfl
  · rw [sends, request?, Configuration.request?, hsrc]
    rfl
  all_goals exact hearly.elim

/-- the worlds of a refresh follow from one another by its requests.  What a supplier sends for it
comes before them. -/
structure Leading (c : Credentials) (stage : Stage) (w : World) (own : List Http.Request) :
    Prop where
  supplied : own ≠ [] → c.account.configuration.source = .supplied ∧ stage.IsEarly
  before : ∀ front s back, c.journal stage w = front ++ s :: back →
    w.Leads (own ++ front.map Sent.request) s.world
  after : w.Leads (own ++ (c.journal stage w).map Sent.request) (c.complete stage w).2.2

theorem leading_sends {own : List Http.Request}
    (ho : own ≠ [] → c.account.configuration.source = .supplied ∧ stage.IsEarly)
    {front back : List Sent} {s : Sent} (hs : c.sends stage w = front ++ s :: back) :
    own = [] ∧ front = [] ∧ s.world = w := by
  have hown : own = [] := by
    cases own with
    | nil => rfl
    | cons r own =>
      obtain ⟨hsrc, hearly⟩ := ho (List.cons_ne_nil r own)
      rw [sends_of_supplied hsrc hearly] at hs
      exact absurd hs.symm (List.append_ne_nil_of_right_ne_nil _ (List.cons_ne_nil _ _))
  rw [sends] at hs
  cases hr : c.request? w.environment stage with
  | none =>
    rw [hr] at hs
    exact absurd hs.symm (List.append_ne_nil_of_right_ne_nil _ (List.cons_ne_nil _ _))
  | some r =>
    rw [hr] at hs
    cases front with
    | nil =>
      cases hs
      exact ⟨hown, rfl, rfl⟩
    | cons s' front =>
      obtain ⟨_, hs⟩ := List.cons.inj hs
      exact absurd hs.symm (List.append_ne_nil_of_right_ne_nil _ (List.cons_ne_nil _ _))

theorem begun_of_moved {c' : Credentials} {stage' : Stage} {w' : World}
    (h : c.proceed stage w = (.moved stage', c', w')) (hearly : stage'.IsEarly) :
    stage = .begun := by
  obtain ⟨rfl, _⟩ | ⟨f, f', rfl, rfl, _, ha⟩ | ⟨f, token, rfl, rfl, _⟩ | ⟨token, rfl, rfl, _⟩ :=
    proceed_moved h
  · rfl
  · cases f' with
    | begun held =>
      have hlt := (Configuration.fits_of_advance ha).2
      rcases f with _ | _ | _
      all_goals
        simp only [Stage.steps] at hlt
        omega
    | identified held subject => exact hearly.elim
    | exchanged i held caller => exact hearly.elim
  · exact hearly.elim
  · exact hearly.elim

namespace Leading

variable {c' : Credentials} {stage' : Stage} {w' : World} {own own' : List Http.Request}

theorem begun_of_moved (h : c'.Leading stage' w' own')
    (hp : c.proceed stage w = (.moved stage', c', w')) (hne : own' ≠ []) :
    c.account.configuration.source = .supplied ∧ stage = .begun := by
  obtain ⟨hsrc, hearly⟩ := h.supplied hne
  rw [(fits_of_moved hp).2] at hsrc
  exact ⟨hsrc, Credentials.begun_of_moved hp hearly⟩

/-- what the supplier sends may stand before what a step has sent: there is never both -/
theorem join (h : c'.Leading stage' w' own') (hp : c.proceed stage w = (.moved stage', c', w'))
    (own : List Http.Request) (l : List Sent) :
    own ++ (c.sends stage w).map Sent.request ++ (own' ++ l.map Sent.request)
      = own ++ own' ++ (c.sends stage w ++ l).map Sent.request := by
  have hcomm : (c.sends stage w).map Sent.request ++ own'
      = own' ++ (c.sends stage w).map Sent.request := by
    cases own' with
    | nil => rw [List.append_nil, List.nil_append]
    | cons r own' =>
      obtain ⟨_, rfl⟩ := h.begun_of_moved hp (List.cons_ne_nil r own')
      have hnone : c.sends .begun w = [] := rfl
      rw [hnone, List.map_nil, List.nil_append, List.append_nil]
  rw [List.map_append, List.append_assoc, ← List.append_assoc _ own', hcomm]
  simp only [List.append_assoc]

theorem of_moved (h : c'.Leading stage' w' own')
    (hp : c.proceed stage w = (.moved stage', c', w'))
    (ho : own ≠ [] → c.account.configuration.source = .supplied ∧ stage.IsEarly)
    (hstep : w.Leads (own ++ (c.sends stage w).map Sent.request) w') :
    c.Leading stage w (own ++ own') := by
  have hsupplied : own ++ own' ≠ [] →
      c.account.configuration.source = .supplied ∧ stage.IsEarly := by
    intro hne
    by_cases hnil : own' = []
    · rw [hnil, List.append_nil] at hne
      exact ho hne
    · obtain ⟨hsrc, rfl⟩ := h.begun_of_moved hp hnil
      exact ⟨hsrc, trivial⟩
  refine ⟨hsupplied, ?_, ?_⟩
  · intro front s back hs
    rw [journal_of_moved hp] at hs
    obtain ⟨front', rfl, hrest⟩ | ⟨back', hfront, hrest⟩ := List.append_eq_append_iff.1 hs
    · rw [← h.join hp]
      exact hstep.trans (h.before front' s back hrest)
    · cases back' with
      | nil =>
        have hfirst := hstep.trans (h.before [] s back hrest.symm)
        rw [h.join hp, List.append_nil, hfront, List.append_nil] at hfirst
        exact hfirst
      | cons s' back' =>
        cases hrest
        obtain ⟨hnil, rfl, hw⟩ := leading_sends hsupplied hfront
        rw [hnil, hw]
        exact .refl w
  · rw [journal_of_moved hp, complete_eq, hp, ← h.join hp]
    exact hstep.trans h.after

theorem of_over (hover : ∀ stage', (c.proceed stage w).1 ≠ .moved stage')
    (ho : own ≠ [] → c.account.configuration.source = .supplied ∧ stage.IsEarly)
    (hstep : w.Leads (own ++ (c.sends stage w).map Sent.request) (c.proceed stage w).2.2) :
    c.Leading stage w own := by
  refine ⟨ho, ?_, ?_⟩
  · intro front s back hs
    rw [journal_of_over rfl hover] at hs
    obtain ⟨rfl, rfl, hw⟩ := leading_sends ho hs
    rw [hw]
    exact .refl w
  · rw [journal_of_over rfl hover, complete_eq]
    rcases hp : c.proceed stage w with ⟨stage' | f | token, c', w'⟩
    · rw [hp] at hover
      exact absurd rfl (hover stage')
    · rw [hp] at hstep
      exact hstep
    · rw [hp] at hstep
      exact hstep

end Leading

theorem leads_journal (c : Credentials) (stage : Stage) (w : World) :
    ∃ own, c.Leading stage w own := by
  refine complete_induction (P := fun c stage w => ∃ own, c.Leading stage w own) ?_ ?_ c stage w
  · intro c stage w c' stage' w' hp ih
    obtain ⟨own, ho, hstep⟩ := c.leads_proceed stage w
    obtain ⟨own', h⟩ := ih
    rw [hp] at hstep
    exact ⟨own ++ own', h.of_moved hp ho hstep⟩
  · intro c stage w hover
    obtain ⟨own, ho, hstep⟩ := c.leads_proceed stage w
    exact ⟨own, .of_over hover ho hstep⟩

end Credentials

/-! ## what a request says -/

/-- what stands in a request was told to the refresh that began in `w`: all the steps before have
succeeded -/
def Sent.Told (s : Sent) (c : Credentials) (w : World) : Prop :=
  match s.hop with
  | .subjectToken => s.world = w
  | .exchange => ∃ subject, c.account.configuration.subjectToken.run w = (.ok subject, s.world) ∧
    s.request = (c.account.configuration.exchange subject).request
  | .impersonation => ∃ subject v a i,
    c.account.configuration.subjectToken.run w = (.ok subject, v) ∧
    (c.account.configuration.exchange subject).run.run v = (.ok a, s.world) ∧
    c.account.configuration.impersonation? = some i ∧
    s.request = i.request a.accessToken c.boundary
  | .lookup => ∃ url token,
    (c.account.configuration.fetch c.boundary).run w = (.ok token, s.world) ∧
    c.account.lookup? s.world.environment = some url ∧ s.request = Boundary.request url token.value

/-- what a stage says was told to the refresh that began in `w`, and the world is `v` now -/
def Stage.Told (c : Credentials) (w : World) (v : World) : Stage → Prop
  | .begun => v = w
  | .fetching (.begun held) => held = c.boundary ∧ v = w
  | .fetching (.identified held subject) => held = c.boundary ∧
    c.account.configuration.subjectToken.run w = (.ok subject, v)
  | .fetching (.exchanged i held caller) => held = c.boundary ∧
    c.account.configuration.impersonation? = some i ∧ ∃ subject u a,
      c.account.configuration.subjectToken.run w = (.ok subject, u) ∧
      (c.account.configuration.exchange subject).run.run u = (.ok a, v) ∧ a.accessToken = caller
  | .fetched token => (c.account.configuration.fetch c.boundary).run w = (.ok token, v)
  | .located _ => True

namespace Configuration

variable {c : Configuration} {held : Option Boundary} {w v : World} {subject : String}

theorem run_fetch_of_subjectToken (hs : c.subjectToken.run w = (.ok subject, v)) :
    (c.fetch held).run w = (c.remaining (.identified held subject)).run v := by
  rw [fetch, Action.run_bind, hs]
  rfl

theorem run_remaining_of_exchange {u : World} {a : Exchange.Answer}
    (he : (c.exchange subject).run.run v = (.ok a, u)) :
    (c.remaining (.identified held subject)).run v = match c.impersonation? with
      | some i => (i.run a.accessToken held).run u
      | none => (a.token u.clock, u) := by
  rw [remaining, Action.run_bind, he]
  dsimp only
  cases c.impersonation? <;> rfl

end Configuration

namespace Credentials

variable {c c' : Credentials} {stage stage' : Stage} {w v v' : World}

theorem told_of_moved (ht : stage.Told c w v) (h : c.proceed stage v = (.moved stage', c', v')) :
    stage'.Told c w v' ∧ (c' = c ∨ ∃ token, stage' = .located token) := by
  obtain ⟨rfl, rfl, rfl, rfl⟩ | ⟨f, f', rfl, rfl, rfl, ha⟩ | ⟨f, token, rfl, rfl, rfl, ha⟩ |
    ⟨token, rfl, rfl, _, _⟩ := proceed_moved h
  · exact ⟨⟨rfl, ht⟩, .inl rfl⟩
  · refine ⟨?_, .inl rfl⟩
    cases f with
    | begun held =>
      obtain ⟨rfl, rfl⟩ := ht
      obtain ⟨subject, hs, hx⟩ := Action.run_map_eq_ok_iff.1 ha
      cases hx
      exact ⟨rfl, hs⟩
    | identified held subject =>
      obtain ⟨rfl, hs⟩ := ht
      obtain ⟨a, he, ⟨i, hi, hx⟩ | ⟨_, _, _, hx⟩⟩ := Configuration.advance_identified ha
      · cases hx
        exact ⟨rfl, hi, subject, v, a, hs, he, rfl⟩
      · cases hx
    | exchanged i held caller =>
      obtain ⟨_, hx, _⟩ := Configuration.advance_exchanged ha
      cases hx
  · refine ⟨?_, .inl rfl⟩
    show (c'.account.configuration.fetch c'.boundary).run w = _
    cases f with
    | begun held =>
      obtain ⟨_, hx⟩ := Configuration.advance_begun ha
      cases hx
    | identified held subject =>
      obtain ⟨_, hs⟩ := ht
      obtain ⟨a, he, ⟨_, _, hx⟩ | ⟨hi, _, hk, hx⟩⟩ := Configuration.advance_identified ha
      · cases hx
      · cases hx
        rw [Configuration.run_fetch_of_subjectToken hs, Configuration.run_remaining_of_exchange he,
          hi]
        exact Prod.ext hk rfl
    | exchanged i held caller =>
      obtain ⟨rfl, hi, subject, u, a, hs, he, rfl⟩ := ht
      obtain ⟨_, hx, hr⟩ := Configuration.advance_exchanged ha
      cases hx
      rw [Configuration.run_fetch_of_subjectToken hs, Configuration.run_remaining_of_exchange he,
        hi]
      exact hr
  · exact ⟨trivial, .inr ⟨token, rfl⟩⟩

theorem told_of_sends (ht : stage.Told c w v) {s : Sent} (hs : s ∈ c.sends stage v) :
    s.Told c w := by
  obtain ⟨hr, hv⟩ := mem_sends.1 hs
  obtain ⟨hop, r, u⟩ := s
  subst hv
  cases stage with
  | begun => cases hr
  | located token => cases hr
  | fetching f =>
    cases f with
    | begun held =>
      rw [request?, Configuration.request?] at hr
      split at hr <;> cases hr
      exact ht.2
    | identified held subject =>
      cases hr
      exact ⟨subject, ht.2, rfl⟩
    | exchanged i held caller =>
      rw [request?, Configuration.request?] at hr
      split at hr <;> cases hr
      obtain ⟨rfl, hi, subject, v, a, hsubject, he, rfl⟩ := ht
      exact ⟨subject, v, a, i, hsubject, he, hi, rfl⟩
  | fetched token =>
    rw [request?] at hr
    split at hr
    · cases hr
    · next url hu =>
      split at hr <;> cases hr
      exact ⟨url, token, ht, hu, rfl⟩

theorem told_journal_of_told (c : Credentials) (w : World) (stage : Stage) (v : World)
    (ht : stage.Told c w v) : ∀ s ∈ c.journal stage v, s.Told c w := by
  refine complete_induction (P := fun c' stage v => c' = c → stage.Told c w v →
    ∀ s ∈ c'.journal stage v, s.Told c w) ?_ ?_ c stage v rfl ht
  · rintro _ stage v c' stage' v' hp ih rfl ht s hs
    obtain ⟨ht', hc⟩ := told_of_moved ht hp
    rw [journal_of_moved hp, List.mem_append] at hs
    rcases hs with hs | hs
    · exact told_of_sends ht hs
    · obtain rfl | ⟨token, rfl⟩ := hc
      · exact ih rfl ht' s hs
      · have hnone : c'.journal (.located token) v' = [] := journal_of_over rfl nofun
        rw [hnone] at hs
        exact absurd hs List.not_mem_nil
  · rintro _ stage v hover rfl ht s hs
    rw [journal_of_over rfl hover] at hs
    exact told_of_sends ht hs

theorem told_journal (c : Credentials) (w : World) : ∀ s ∈ c.journal .begun w, s.Told c w :=
  c.told_journal_of_told w .begun w rfl

end Credentials

end Federation
