/-!
# Readers that may refuse

A reader takes a value off what is left to read, or refuses.  A reader in several steps succeeds
just if each step does, from where the last one has stopped.

* `Federation.bind_eq_ok_iff`, `Federation.map_eq_ok_iff`, `Federation.pure_eq_ok_iff`
-/

namespace Federation

section
variable {σ ε α β : Type} {r : StateT σ (Except ε) α} {f : α → StateT σ (Except ε) β} {c c' : σ}
  {b : β}

theorem bind_eq_ok_iff : (r >>= f) c = .ok (b, c') ↔
    ∃ a c₁, r c = .ok (a, c₁) ∧ f a c₁ = .ok (b, c') := by
  show (r c >>= fun x => f x.1 x.2) = _ ↔ _
  rcases r c with fault | ⟨a, c₁⟩
  · exact ⟨fun h => (nomatch h), fun ⟨_, _, h, _⟩ => (nomatch h)⟩
  · constructor
    · exact fun h => ⟨a, c₁, rfl, h⟩
    · rintro ⟨_, _, h, h'⟩
      cases h
      exact h'

theorem bind_of_ok {a : α} {c₁ : σ} (h : r c = .ok (a, c₁)) (f : α → StateT σ (Except ε) β) :
    (r >>= f) c = f a c₁ := by
  show (r c >>= fun x => f x.1 x.2) = _
  rw [h]
  rfl

theorem bind_congr_at {d : σ} (h : r c = r d) (f : α → StateT σ (Except ε) β) :
    (r >>= f) c = (r >>= f) d := by
  show (r c >>= fun x => f x.1 x.2) = (r d >>= fun x => f x.1 x.2)
  rw [h]

theorem pure_eq_ok_iff {a b : α} : (pure a : StateT σ (Except ε) α) c = .ok (b, c') ↔
    a = b ∧ c = c' := by
  constructor
  · intro h
    cases h
    exact ⟨rfl, rfl⟩
  · rintro ⟨rfl, rfl⟩
    rfl

theorem map_eq_ok_iff {g : α → β} : (g <$> r) c = .ok (b, c') ↔
    ∃ a, r c = .ok (a, c') ∧ g a = b := by
  rw [map_eq_pure_bind, bind_eq_ok_iff]
  constructor
  · rintro ⟨a, _, h, h'⟩
    obtain ⟨rfl, rfl⟩ := pure_eq_ok_iff.1 h'
    exact ⟨a, h, rfl⟩
  · rintro ⟨a, h, rfl⟩
    exact ⟨a, c', h, rfl⟩

end

theorem guarded_eq_ok_iff {ε α : Type} {p : Prop} [Decidable p] {fault : ε} {r : Except ε α}
    {a : α} : (if p then .error fault else r) = .ok a ↔ ¬p ∧ r = .ok a := by
  by_cases h : p
  · rw [if_pos h]
    exact ⟨fun h' => (nomatch h'), fun h' => absurd h h'.1⟩
  · rw [if_neg h]
    exact ⟨fun h' => ⟨h, h'⟩, fun h' => h'.2⟩

end Federation
