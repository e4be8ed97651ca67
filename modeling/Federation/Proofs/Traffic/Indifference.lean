import Federation.Proofs.Traffic.Basic

/-!
# Another failure in the slot

Of the failure that a refresh in the background has left, calls notice no more than that there is
one.  So a run from credentials whose slot holds another failure takes the same turns, sends the
same requests and notes the same, and at its end only the slot may still differ.

* `Traffic.Job.turn_withSlot`   one turn;
* `Traffic.step_withSlot`       one move;
* `Traffic.run_withSlot`        a whole run.
-/

namespace Federation

/-- the slots differ at most in the failure that they hold -/
inductive Slot.Alike {ε : Type} : Slot ε → Slot ε → Prop where
  | refl (slot : Slot ε) : Alike slot slot
  | failures (f g : ε) : Alike (.ended (some f)) (.ended (some g))

theorem Slot.Alike.eq_or {ε : Type} {a b : Slot ε} (h : a.Alike b) :
    a = b ∨ ∃ f g, a = .ended (some f) ∧ b = .ended (some g) := by
  cases h with
  | refl => exact .inl rfl
  | failures f g => exact .inr ⟨f, g, rfl, rfl⟩

namespace Credentials

theorem slot_proceed (c : Credentials) (stage : Stage) (w : World) :
    (c.proceed stage w).2.1.slot = c.slot := by
  rcases h : c.proceed stage w with ⟨stage' | f | token, c', w'⟩
  · obtain ⟨_, _, rfl, _⟩ | ⟨_, _, _, _, rfl, _⟩ | ⟨_, _, _, _, rfl, _⟩ | ⟨_, _, _, rfl, _⟩ :=
      proceed_moved h
    all_goals rfl
  · rw [(proceed_failed h).1]
  · rw [(proceed_published h).2.1]

theorem proceed_withSlot (c : Credentials) (slot : Slot Failure) (stage : Stage) (w : World) :
    { c with slot := slot }.proceed stage w
      = ((c.proceed stage w).1, { (c.proceed stage w).2.1 with slot := slot },
          (c.proceed stage w).2.2) := by
  cases stage with
  | begun => rfl
  | fetching f =>
    rw [proceed, proceed]
    rcases (c.account.configuration.advance f).run w with ⟨_ | _ | _, _⟩
    · rfl
    · rfl
    · rfl
  | fetched token => rfl
  | located token => rfl

end Credentials

namespace Traffic

theorem Job.slot_turn_refreshing (c : Credentials) (w : World) (owner : Owner) (stage : Stage) :
    ((Job.refreshing owner stage).turn c w).credentials.slot = c.slot := by
  have h := c.slot_proceed stage w
  rw [turn]
  rcases hp : c.proceed stage w with ⟨_ | _ | _, _, _⟩
  · rw [hp] at h
    exact h
  · rw [hp] at h
    exact h
  · rw [hp] at h
    exact h

theorem Job.turn_withSlot (c : Credentials) (w : World) (j : Job) {slot : Slot Failure}
    (h : c.slot.Alike slot) : ∃ slot', (j.turn c w).credentials.slot.Alike slot' ∧
      j.turn { c with slot := slot } w
        = { j.turn c w with credentials := { (j.turn c w).credentials with slot := slot' } } := by
  have hvalid : ({ c with slot := slot } : Credentials).isValid w.clock = c.isValid w.clock := rfl
  have hfresh : ({ c with slot := slot } : Credentials).freshness? w.clock
      = c.freshness? w.clock := rfl
  rcases h.eq_or with rfl | ⟨f, g, hf, rfl⟩
  · exact ⟨_, .refl _, rfl⟩
  · cases j with
    | refreshing owner stage =>
      refine ⟨.ended (some g), ?_, ?_⟩
      · rw [slot_turn_refreshing]
        exact h
      · rw [turn, turn, Credentials.proceed_withSlot]
        rcases c.proceed stage w with ⟨_ | _ | _, _, _⟩
        · rfl
        · rfl
        · rfl
    | settling failure => exact ⟨_, .refl _, rfl⟩
    | applying hs override? => exact ⟨_, h, rfl⟩
    | request hs phase =>
      cases phase with
      | entered => exact ⟨_, h, rfl⟩
      | blocking =>
        rw [turn, turn, hvalid]
        cases c.isValid w.clock with
        | false => exact ⟨_, h, rfl⟩
        | true => exact ⟨_, h, rfl⟩
      | nonBlocking =>
        rw [turn, turn, hfresh]
        rcases c.freshness? w.clock with _ | _ | _ | _
        · exact ⟨_, h, rfl⟩
        · exact ⟨_, h, rfl⟩
        · exact ⟨_, h, rfl⟩
        · exact ⟨_, h, rfl⟩
      | invalid =>
        rw [turn, turn, hf]
        exact ⟨_, .refl _, rfl⟩
      | stale =>
        rw [turn, turn, hf]
        exact ⟨_, .refl _, rfl⟩
      | starting =>
        rw [turn, turn, hf]
        exact ⟨_, .refl _, rfl⟩
      | ready => exact ⟨_, h, rfl⟩
      | holding b => exact ⟨_, h, rfl⟩

/-! ## in a run -/

def withSlot (s : Traffic) (slot : Slot Failure) : Traffic :=
  { s with credentials := { s.credentials with slot := slot } }

theorem step_withSlot (s : Traffic) {slot : Slot Failure} (h : s.credentials.slot.Alike slot)
    (m : Move) : ∃ slot', (s.step m).credentials.slot.Alike slot' ∧
      (s.withSlot slot).step m = (s.step m).withSlot slot' := by
  cases m with
  | proceed n =>
    by_cases hn : ∃ j, s.jobs[n]? = some (some j)
    · obtain ⟨j, hj⟩ := hn
      obtain ⟨slot', ha, ht⟩ := j.turn_withSlot s.credentials s.world h
      have hj' : (s.withSlot slot).jobs[n]? = some (some j) := hj
      rw [step_proceed hj, step_proceed hj']
      refine ⟨slot', ha, ?_⟩
      show (s.withSlot slot).turned n (j.turn { s.credentials with slot := slot } s.world) = _
      rw [ht]
      rfl
    · have hn' : ∀ j, s.jobs[n]? ≠ some (some j) := fun j hj => hn ⟨j, hj⟩
      rw [step_proceed_of_over hn', step_proceed_of_over (s := s.withSlot slot) hn']
      exact ⟨slot, h, rfl⟩
  | _ => exact ⟨slot, h, rfl⟩

theorem run_withSlot (s : Traffic) {slot : Slot Failure} (h : s.credentials.slot.Alike slot)
    (ms : List Move) : ∃ slot', (s.run ms).credentials.slot.Alike slot' ∧
      (s.withSlot slot).run ms = (s.run ms).withSlot slot' := by
  induction ms using List.reverseRecOn with
  | nil => exact ⟨slot, h, rfl⟩
  | append_singleton ms m ih =>
    obtain ⟨slot', ha, hr⟩ := ih
    rw [run_concat, run_concat, hr]
    exact step_withSlot _ ha m

end Traffic

end Federation
