import Federation.Proofs.Refresh.Requests
import Federation.Proofs.Traffic.Turn

/-!
# The requests of a turn

What a task sends in its turn, and what a turn never changes.

* `Traffic.Job.fits_turn`   a refresh keeps to what is configured;
* `Traffic.Job.leads_turn`  nothing else is sent, unless by a supplier.
-/

namespace Federation.Traffic.Job

/-- the requests of its own that a task sends in its turn -/
def sends (c : Credentials) (w : World) : Job → List Sent
  | .refreshing _ stage => c.sends stage w
  | _ => []

theorem nonBlocking_turn (c : Credentials) (w : World) (j : Job) :
    (j.turn c w).credentials.nonBlocking = c.nonBlocking := by
  have h := j.does_turn c w
  generalize j.turn c w = t at h
  cases h with
  | moved h =>
    obtain ⟨_, _, rfl, _⟩ | ⟨_, _, _, _, rfl, _⟩ | ⟨_, _, _, _, rfl, _⟩ | ⟨_, _, _, rfl, _⟩ :=
      Credentials.proceed_moved h
    all_goals rfl
  | _ => rfl

theorem fits_turn (c : Credentials) (w : World) (j : Job) {owner : Owner}
    {stage : Stage} (h : (j.turn c w).next = some (.refreshing owner stage)) :
    stage.Fits c.account.configuration := by
  have hd := j.does_turn c w
  generalize j.turn c w = t at hd h
  cases hd with
  | moved hm =>
    cases h
    exact (Credentials.fits_of_moved hm).1
  | @failed owner' =>
    cases owner' <;> cases h
  | @published owner' =>
    cases owner' <;> cases h
  | notValid =>
    cases h
    trivial
  | emptied =>
    cases h
    trivial
  | took =>
    cases h
    trivial
  | _ => cases h

theorem IsNew.fits {j : Job} (hj : j.IsNew) {owner : Owner} {stage : Stage}
    (h : j = .refreshing owner stage) (c : Configuration) : stage.Fits c := by
  subst h
  cases stage with
  | fetching f => cases owner <;> exact hj.elim
  | _ => trivial

theorem world_turn (c : Credentials) (w : World) {j : Job}
    (hj : ∀ owner stage, j ≠ .refreshing owner stage) : (j.turn c w).world = w := by
  have hd := j.does_turn c w
  generalize j.turn c w = t at hd
  cases hd with
  | moved => exact absurd rfl (hj _ _)
  | failed => exact absurd rfl (hj _ _)
  | _ => rfl

theorem leads_turn (c : Credentials) (w : World) (j : Job) :
    ∃ own, (own ≠ [] → c.account.configuration.source = .supplied) ∧
      w.Leads (own ++ (j.sends c w).map Sent.request) (j.turn c w).world := by
  have hother : (∀ owner stage, j ≠ .refreshing owner stage) → ∃ own,
      (own ≠ [] → c.account.configuration.source = .supplied) ∧
        w.Leads (own ++ []) (j.turn c w).world := by
    intro hj
    rw [world_turn c w hj]
    exact ⟨[], fun hne => absurd rfl hne, .refl w⟩
  cases j with
  | refreshing owner stage =>
    obtain ⟨own, ho, hleads⟩ := c.leads_proceed stage w
    refine ⟨own, fun hne => (ho hne).1, ?_⟩
    rw [turn]
    rcases hp : c.proceed stage w with ⟨stage' | f | token, c', w'⟩
    all_goals
      rw [hp] at hleads
      exact hleads
  | _ =>
    refine hother fun _ _ hj => ?_
    cases hj

end Federation.Traffic.Job
