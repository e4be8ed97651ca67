import Federation.Proofs.Refresh.Requests

/-!
# The course of a refresh

A `Course` is what a refresh has sent by the time that it is at some stage or over.  Between its
steps the credentials may become any others of the account and the world any other world, so that a
course is also that of a refresh among others.

* `Course.order`      the hops come in their order, each at most once;
* `Course.planned`    every request is the one that is configured;
* `Course.answered`   what was followed by another request has succeeded;
* `Course.failed`     otherwise the refresh is over, and has failed;
* `Course.complete`   a refresh that succeeds has sent all that it had to.
-/

namespace Federation

def Hop.all : List Hop := [.subjectToken, .exchange, .impersonation, .lookup]

theorem Hop.mem_all (hop : Hop) : hop ∈ Hop.all := by
  cases hop <;> decide

/-- where a refresh is after a step -/
def Credentials.Progress.next : Progress → Stage ⊕ Except Failure Token
  | .moved stage => .inl stage
  | .failed f => .inr (.error f)
  | .published token => .inr (.ok token)

/-- a refresh for the account is at a stage or over, and has sent these requests -/
inductive Course (a : Account) : List Sent → Stage ⊕ Except Failure Token → Prop where
  | begun : Course a [] (.inl .begun)
  | step {l : List Sent} {stage : Stage} {c : Credentials} (h : Course a l (.inl stage))
      (hc : c.account = a) (w : World) :
      Course a (l ++ c.sends stage w) (c.proceed stage w).1.next

namespace Stage

/-- the hops that come before a stage -/
def before : Stage → List Hop
  | .begun => []
  | .fetching (.begun _) => []
  | .fetching (.identified _ _) => [.subjectToken]
  | .fetching (.exchanged _ _ _) => [.subjectToken, .exchange]
  | .fetched _ => [.subjectToken, .exchange, .impersonation]
  | .located _ => Hop.all

/-- the hop of the step from a stage -/
def hops : Stage → List Hop
  | .begun => []
  | .fetching (.begun _) => [.subjectToken]
  | .fetching (.identified _ _) => [.exchange]
  | .fetching (.exchanged _ _ _) => [.impersonation]
  | .fetched _ => [.lookup]
  | .located _ => []

theorem before_append_hops (stage : Stage) : (stage.before ++ stage.hops).Sublist Hop.all := by
  rcases stage with _ | (_ | _ | _) | _ | _
  all_goals exact (List.prefix_iff_eq_take.2 (by rfl)).sublist

end Stage

namespace Credentials

variable {c c' : Credentials} {stage stage' : Stage} {w w' : World}

theorem hops_sends (c : Credentials) (stage : Stage) (w : World) :
    ((c.sends stage w).map Sent.hop).Sublist stage.hops := by
  have hopt : ∀ (o : Option (Hop × Http.Request)) (hop : Hop), (∀ r ∈ o, r.1 = hop) →
      ((o.toList.map fun r => (⟨r.1, r.2, w⟩ : Sent)).map Sent.hop).Sublist [hop] := by
    intro o hop ho
    cases o with
    | none => exact List.nil_sublist _
    | some r =>
      rw [← ho r rfl]
      exact List.Sublist.refl _
  rw [sends]
  cases stage with
  | begun => exact List.Sublist.refl _
  | located token => exact List.Sublist.refl _
  | fetched token =>
    refine hopt _ .lookup fun r hr => ?_
    rw [request?] at hr
    split at hr
    · cases hr
    · split at hr <;> cases hr
      rfl
  | fetching f =>
    cases f with
    | begun held =>
      refine hopt _ .subjectToken fun r hr => ?_
      rw [request?, Configuration.request?] at hr
      split at hr <;> cases hr
      rfl
    | identified held subject => exact List.Sublist.refl _
    | exchanged i held caller =>
      refine hopt _ .impersonation fun r hr => ?_
      rw [request?, Configuration.request?] at hr
      split at hr <;> cases hr
      rfl

theorem before_of_moved (h : c.proceed stage w = (.moved stage', c', w')) :
    stage'.before = stage.before ++ stage.hops ∨
      (c.account.configuration.impersonation? = none ∧
        stage'.before = stage.before ++ stage.hops ++ [.impersonation]) := by
  obtain ⟨rfl, rfl, _, _⟩ | ⟨f, f', rfl, rfl, _, ha⟩ | ⟨f, token, rfl, rfl, _, ha⟩ |
    ⟨token, rfl, rfl, _, _⟩ := proceed_moved h
  · exact .inl rfl
  · cases f with
    | begun held =>
      obtain ⟨_, hx⟩ := Configuration.advance_begun ha
      cases hx
      exact .inl rfl
    | identified held subject =>
      obtain ⟨_, _, ⟨_, _, hx⟩ | ⟨_, _, _, hx⟩⟩ := Configuration.advance_identified ha
      · cases hx
        exact .inl rfl
      · cases hx
    | exchanged i held caller =>
      obtain ⟨_, hx, _⟩ := Configuration.advance_exchanged ha
      cases hx
  · cases f with
    | begun held =>
      obtain ⟨_, hx⟩ := Configuration.advance_begun ha
      cases hx
    | identified held subject =>
      obtain ⟨_, _, ⟨_, _, hx⟩ | ⟨hi, _, _, _⟩⟩ := Configuration.advance_identified ha
      · cases hx
      · exact .inr ⟨hi, rfl⟩
    | exchanged i held caller => exact .inl rfl
  · exact .inl rfl

theorem sublist_before_of_moved (h : c.proceed stage w = (.moved stage', c', w')) :
    (stage.before ++ stage.hops).Sublist stage'.before := by
  obtain hb | ⟨_, hb⟩ := before_of_moved h
  · exact hb ▸ List.Sublist.refl _
  · exact hb ▸ List.sublist_append_left _ _

end Credentials

namespace Course

variable {a : Account} {l : List Sent} {x : Stage ⊕ Except Failure Token}

/-- what holds when a refresh begins and survives every step that gets further -/
theorem underway_induction {P : List Sent → Stage → Prop} (hbegun : P [] .begun)
    (hmoved : ∀ l stage (c : Credentials) w stage' c' w', P l stage → c.account = a →
      c.proceed stage w = (.moved stage', c', w') → P (l ++ c.sends stage w) stage')
    {stage : Stage} (h : Course a l (.inl stage)) : P l stage := by
  generalize hx : (.inl stage : Stage ⊕ Except Failure Token) = x at h
  induction h generalizing stage with
  | begun =>
    cases hx
    exact hbegun
  | @step l from_ c _ hc w ih =>
    rcases hp : c.proceed from_ w with ⟨stage' | f | token, c', w'⟩
    · rw [hp] at hx
      cases hx
      exact hmoved _ _ _ _ _ _ _ (ih rfl) hc hp
    · rw [hp] at hx
      cases hx
    · rw [hp] at hx
      cases hx

theorem fits_before {stage : Stage} (h : Course a l (.inl stage)) :
    stage.Fits a.configuration ∧ (l.map Sent.hop).Sublist stage.before := by
  refine h.underway_induction (P := fun l stage =>
    stage.Fits a.configuration ∧ (l.map Sent.hop).Sublist stage.before)
    ⟨trivial, List.Sublist.refl _⟩ ?_
  rintro l stage c w stage' c' w' ⟨_, hb⟩ rfl hp
  rw [List.map_append]
  refine ⟨(Credentials.fits_of_moved hp).1, ?_⟩
  exact (hb.append (c.hops_sends stage w)).trans (Credentials.sublist_before_of_moved hp)

theorem order (h : Course a l x) : (l.map Sent.hop).Sublist Hop.all := by
  cases h with
  | begun => exact List.nil_sublist _
  | @step l stage c h hc w =>
    rw [List.map_append]
    exact (h.fits_before.2.append (c.hops_sends stage w)).trans stage.before_append_hops

theorem planned (h : Course a l x) : ∀ s ∈ l, s.Planned a := by
  induction h with
  | begun => exact fun _ hs => absurd hs List.not_mem_nil
  | @step l stage c h hc w ih =>
    intro s hs
    rcases List.mem_append.1 hs with hs | hs
    · exact ih s hs
    · subst hc
      exact Credentials.planned_of_sends h.fits_before.1 hs

/-- a refresh that is under way has got the answers to all that it has sent -/
theorem succeeded {stage : Stage} (h : Course a l (.inl stage)) :
    ∀ s ∈ l, s.hop = .lookup ∨ s.Succeeded a.configuration := by
  refine h.underway_induction (P := fun l _ =>
    ∀ s ∈ l, s.hop = .lookup ∨ s.Succeeded a.configuration)
    (fun _ hs => absurd hs List.not_mem_nil) ?_
  rintro l stage c w stage' c' w' ih rfl hp s hs
  rcases List.mem_append.1 hs with hs | hs
  · exact ih s hs
  · exact Credentials.succeeded_of_moved hp hs

theorem answered (h : Course a l x) : l.Pairwise fun s _ => s.Succeeded a.configuration := by
  have hlast : l.Pairwise fun s _ => s.hop ≠ .lookup := by
    have hall : Hop.all.Pairwise fun hop _ => hop ≠ .lookup := by decide
    exact List.pairwise_map.1 (hall.sublist h.order)
  have hanswers : l.Pairwise fun s _ => s.hop = .lookup ∨ s.Succeeded a.configuration := by
    clear hlast
    induction h with
    | begun => exact List.Pairwise.nil
    | @step l stage c h hc w ih =>
      have hone : (c.sends stage w).Pairwise fun s _ =>
          s.hop = .lookup ∨ s.Succeeded a.configuration := by
        rw [Credentials.sends]
        cases c.request? w.environment stage with
        | none => exact List.Pairwise.nil
        | some r => exact List.pairwise_singleton _ _
      exact List.pairwise_append.2 ⟨ih, hone, fun s hs _ _ => h.succeeded s hs⟩
  refine (hlast.and hanswers).imp fun hs => ?_
  exact hs.2.resolve_left hs.1

theorem of_published {token : Token} (h : Course a l (.inr (.ok token))) :
    Course a l (.inl (.located token)) := by
  generalize hx : (.inr (.ok token) : Stage ⊕ Except Failure Token) = x at h
  cases h with
  | begun => cases hx
  | @step l stage c h hc w =>
    rcases hp : c.proceed stage w with ⟨stage' | f | token', c', w'⟩
    · rw [hp] at hx
      cases hx
    · rw [hp] at hx
      cases hx
    · rw [hp] at hx
      cases hx
      obtain ⟨rfl, _, _⟩ := Credentials.proceed_published hp
      have hnone : c.sends (.located token) w = [] := rfl
      rw [hnone, List.append_nil]
      exact h

theorem failed {result : Except Failure Token} (h : Course a l (.inr result)) {s : Sent}
    (hs : s ∈ l) (hhop : s.hop ≠ .lookup) (hno : ¬s.Succeeded a.configuration) :
    ∃ f, result = .error f := by
  cases result with
  | error f => exact ⟨f, rfl⟩
  | ok token => exact absurd ((h.of_published.succeeded s hs).resolve_left hhop) hno

end Course

/-! ## what has to be sent -/

/-- a fetch cannot do without a request for the hop -/
def Configuration.Asks (c : Configuration) : Hop → Prop
  | .subjectToken => ∃ address headers format, c.source = .url address headers format
  | .exchange => True
  | .impersonation => c.impersonation?.isSome
  | .lookup => False

theorem Sent.Planned.asks {s : Sent} {a : Account} (h : s.Planned a) (hhop : s.hop ≠ .lookup) :
    a.configuration.Asks s.hop := by
  obtain ⟨hop, r, w⟩ := s
  cases hop with
  | subjectToken =>
    obtain ⟨address, headers, format, hsrc, _⟩ := h
    exact ⟨address, headers, format, hsrc⟩
  | exchange => trivial
  | impersonation =>
    obtain ⟨i, _, _, hi, _⟩ := h
    show a.configuration.impersonation?.isSome
    rw [hi, Option.isSome_some]
  | lookup => exact absurd rfl hhop

namespace Credentials

variable {c c' : Credentials} {stage stage' : Stage} {w w' : World} {hop : Hop}

theorem mem_before_of_moved (h : c.proceed stage w = (.moved stage', c', w'))
    (hb : hop ∈ stage'.before) (hasks : c.account.configuration.Asks hop) :
    hop ∈ stage.before ++ stage.hops := by
  obtain hbefore | ⟨hi, hbefore⟩ := before_of_moved h
  · rw [← hbefore]
    exact hb
  · rw [hbefore] at hb
    rcases List.mem_append.1 hb with hb | hb
    · exact hb
    · obtain rfl := List.mem_singleton.1 hb
      have hsome : c.account.configuration.impersonation?.isSome = true := hasks
      rw [hi] at hsome
      cases hsome

theorem sends_of_asks (h : c.proceed stage w = (.moved stage', c', w'))
    (hh : hop ∈ stage.hops) (hasks : c.account.configuration.Asks hop) :
    hop ∈ (c.sends stage w).map Sent.hop := by
  cases stage with
  | begun => exact absurd hh List.not_mem_nil
  | located token => exact absurd hh List.not_mem_nil
  | fetched token =>
    obtain rfl := List.mem_singleton.1 hh
    exact hasks.elim
  | fetching f =>
    cases f with
    | begun held =>
      obtain rfl := List.mem_singleton.1 hh
      obtain ⟨address, headers, format, hsrc⟩ := hasks
      rw [sends, request?, Configuration.request?, hsrc]
      exact List.mem_singleton_self _
    | identified held subject => exact hh
    | exchanged i held caller =>
      have hlegal : Impersonation.isLegal caller held = true := by
        obtain ⟨hx, _⟩ | ⟨_, _, hf, _, _, ha⟩ | ⟨_, _, hf, _, _, ha⟩ | ⟨_, hx, _⟩ :=
          proceed_moved h
        · cases hx
        · cases hf
          obtain ⟨_, hx, _⟩ := Configuration.advance_exchanged ha
          cases hx
        · cases hf
          obtain ⟨_, _, hi⟩ := Configuration.advance_exchanged ha
          exact (Impersonation.run_eq_ok_iff.1 hi).1
        · cases hx
      rw [sends, request?, Configuration.request?, if_pos hlegal]
      exact hh

theorem asked_of_moved (h : c.proceed stage w = (.moved stage', c', w'))
    (hb : hop ∈ stage'.before) (hasks : c.account.configuration.Asks hop) :
    hop ∈ stage.before ∨ hop ∈ (c.sends stage w).map Sent.hop :=
  (List.mem_append.1 (mem_before_of_moved h hb hasks)).imp_right fun hh =>
    sends_of_asks h hh hasks

end Credentials

namespace Course

variable {a : Account} {l : List Sent}

theorem asked {stage : Stage} (h : Course a l (.inl stage)) {hop : Hop}
    (hb : hop ∈ stage.before) (hasks : a.configuration.Asks hop) : hop ∈ l.map Sent.hop := by
  revert hb
  refine h.underway_induction (P := fun l stage => hop ∈ stage.before → hop ∈ l.map Sent.hop)
    (fun hb => absurd hb List.not_mem_nil) ?_
  rintro l stage c w stage' c' w' ih rfl hp hb
  rw [List.map_append, List.mem_append]
  exact (Credentials.asked_of_moved hp hb hasks).imp_left ih

/-- a refresh that succeeds has sent all that it could not do without, and else only a lookup -/
theorem complete {token : Token} (h : Course a l (.inr (.ok token))) {hop : Hop}
    (hhop : hop ≠ .lookup) : hop ∈ l.map Sent.hop ↔ a.configuration.Asks hop := by
  constructor
  · intro hm
    obtain ⟨s, hs, rfl⟩ := List.mem_map.1 hm
    exact (h.planned s hs).asks hhop
  · intro hasks
    exact h.of_published.asked hop.mem_all hasks

end Course

end Federation
