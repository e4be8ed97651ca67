import Federation.Proofs.Refresh.Causes

/-!
# What a refresh passes through

A refresh that succeeds has come to a token, and it comes to each stage from the one before it: to
the token from its last request, and to the request for a service account from the exchange.

* `Credentials.reaches_of_ok`            a refresh that succeeds comes to a token;
* `Credentials.Reaches.of_fetched`       the request that brought it;
* `Credentials.Reaches.of_exchanged`     the exchange before that, with an impersonation;
* `Credentials.exists_exchange_of_ok`    every refresh that succeeds has exchanged a subject token.
-/

namespace Federation

theorem Configuration.advance_next {c : Configuration} {f f' : Fetch} {w v : World}
    (h : (c.advance f).run w = (.ok (.inl f'), v)) :
    (∃ held subject, f = .begun held ∧ f' = .identified held subject) ∨
    ∃ held subject i a, f = .identified held subject ∧ f' = .exchanged i held a.accessToken ∧
      (c.exchange subject).run.run w = (.ok a, v) := by
  cases f with
  | begun held =>
    obtain ⟨subject, hx⟩ := advance_begun h
    cases hx
    exact .inl ⟨held, subject, rfl, rfl⟩
  | identified held subject =>
    obtain ⟨a, he, ⟨i, _, hx⟩ | ⟨_, _, _, hx⟩⟩ := advance_identified h
    · cases hx
      exact .inr ⟨held, subject, i, a, rfl, rfl, he⟩
    · cases hx
  | exchanged i held caller =>
    obtain ⟨_, hx, _⟩ := advance_exchanged h
    cases hx

namespace Credentials

variable {c : Credentials} {w v : World} {held : Option Boundary} {subject caller : String}
  {i : Impersonation} {token : Token}

theorem reaches_of_ok (hok : (c.refresh w).1 = .ok ()) :
    ∃ token v, c.Reaches w (.fetched token) v := by
  refine complete_induction (P := fun d stage v => d = c → c.Reaches w stage v →
    (d.complete stage v).1 = .ok () → ∃ token v, c.Reaches w (.fetched token) v) ?_ ?_
    c .begun w rfl .begun (Credentials.refresh_eq c w ▸ hok)
  · intro d stage v d' stage' v' hp ih hd hreach hdone
    subst hd
    rw [complete_eq, hp] at hdone
    obtain ⟨_, _, rfl, _⟩ | ⟨_, _, _, _, rfl, _⟩ | ⟨_, _, _, _, rfl, _⟩ |
      ⟨token, rfl, _⟩ := proceed_moved hp
    · exact ih rfl (hreach.step hp) hdone
    · exact ih rfl (hreach.step hp) hdone
    · exact ih rfl (hreach.step hp) hdone
    · exact ⟨token, v, hreach⟩
  · intro d stage v hover hd hreach hdone
    subst hd
    rcases hp : d.proceed stage v with ⟨stage' | f | token, d', v'⟩
    · exact absurd (congrArg Prod.fst hp) (hover stage')
    · rw [complete_eq, hp] at hdone
      cases hdone
    · obtain ⟨rfl, -, -⟩ := proceed_published hp
      cases hreach with
      | step hbefore hstep =>
        obtain ⟨_, hs, _⟩ | ⟨_, _, _, hs, _⟩ | ⟨_, _, _, hs, _⟩ | ⟨token', rfl, _⟩ :=
          proceed_moved hstep
        · cases hs
        · cases hs
        · cases hs
        · exact ⟨token', _, hbefore⟩

theorem Reaches.of_fetched (h : c.Reaches w (.fetched token) v) : ∃ f u,
    c.Reaches w (.fetching f) u ∧
      (c.account.configuration.advance f).run u = (.ok (.inr token), v) := by
  cases h with
  | step hbefore hp =>
    obtain ⟨_, hs, _⟩ | ⟨_, _, _, hs, _⟩ | ⟨f, _, rfl, hs, _, ha⟩ | ⟨_, _, hs, _⟩ :=
      proceed_moved hp
    · cases hs
    · cases hs
    · cases hs
      exact ⟨f, _, hbefore, ha⟩
    · cases hs

theorem Reaches.of_fetching {f : Fetch} (h : c.Reaches w (.fetching f) v) :
    f = .begun c.boundary ∨ ∃ f' u, c.Reaches w (.fetching f') u ∧
      (c.account.configuration.advance f').run u = (.ok (.inl f), v) := by
  cases h with
  | step hbefore hp =>
    obtain ⟨_, hs, _⟩ | ⟨f', _, rfl, hs, _, ha⟩ | ⟨_, _, _, hs, _⟩ | ⟨_, _, hs, _⟩ :=
      proceed_moved hp
    · cases hs
      exact .inl rfl
    · cases hs
      exact .inr ⟨f', _, hbefore, ha⟩
    · cases hs
    · cases hs

theorem Reaches.of_begun (h : c.Reaches w (.fetching (.begun held)) v) : held = c.boundary := by
  obtain hf | ⟨f, u, -, ha⟩ := h.of_fetching
  · cases hf
    rfl
  · obtain ⟨_, _, _, hx⟩ | ⟨_, _, _, _, _, hx, _⟩ := Configuration.advance_next ha
    · cases hx
    · cases hx

theorem Reaches.of_identified (h : c.Reaches w (.fetching (.identified held subject)) v) :
    held = c.boundary := by
  obtain hf | ⟨f, u, hbefore, ha⟩ := h.of_fetching
  · cases hf
  · obtain ⟨_, _, rfl, hx⟩ | ⟨_, _, _, _, _, hx, _⟩ := Configuration.advance_next ha
    · cases hx
      exact hbefore.of_begun
    · cases hx

theorem Reaches.of_exchanged (h : c.Reaches w (.fetching (.exchanged i held caller)) v) :
    ∃ subject u a, c.Reaches w (.fetching (.identified c.boundary subject)) u ∧
      (c.account.configuration.exchange subject).run.run u = (.ok a, v) ∧
      a.accessToken = caller := by
  obtain hf | ⟨f, u, hbefore, ha⟩ := h.of_fetching
  · cases hf
  · obtain ⟨_, _, _, hx⟩ | ⟨held', subject, _, a, rfl, hx, he⟩ := Configuration.advance_next ha
    · cases hx
    · cases hx
      obtain rfl := hbefore.of_identified
      exact ⟨subject, u, a, hbefore, he, rfl⟩

theorem exists_exchange_of_ok (hok : (c.refresh w).1 = .ok ()) : ∃ subject u v a,
    c.Reaches w (.fetching (.identified c.boundary subject)) u ∧
      (c.account.configuration.exchange subject).run.run u = (.ok a, v) := by
  obtain ⟨token, v, hreach⟩ := reaches_of_ok hok
  obtain ⟨f, u, hbefore, ha⟩ := hreach.of_fetched
  rcases f with held | ⟨held, subject⟩ | ⟨i, held, caller⟩
  · obtain ⟨_, hx⟩ := Configuration.advance_begun ha
    cases hx
  · obtain ⟨a, he, -⟩ := Configuration.advance_identified ha
    obtain rfl := hbefore.of_identified
    exact ⟨subject, u, v, a, hbefore, he⟩
  · obtain ⟨subject, u', a, hexchange, he, -⟩ := hbefore.of_exchanged
    exact ⟨subject, u', u, a, hexchange, he⟩

end Credentials

end Federation
