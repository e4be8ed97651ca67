import Federation.Proofs.Traffic.Story

/-!
# Which token is cached

A refresh replaces the token once, as its last step, by the token that an answer granted; a refresh
that fails changes nothing.  So the cached token is that of the last refresh that succeeded, and it
is never lost.

* `Traffic.token_run`              the cached token is the last one that was published;
* `Traffic.Story.granted`          a token that is published was granted to the same refresh;
* `Traffic.refresh_is_atomic`      all of it, for a refresh alone and for every run.
-/

namespace Federation

namespace Traffic

/-! ## the last token -/

theorem publications_append (l l' : List Note) :
    publications (l ++ l') = publications l ++ publications l' := List.filterMap_append

theorem mem_publications {l : List Note} {token : Token} :
    token ∈ publications l ↔ .published token ∈ l := by
  rw [publications, List.mem_filterMap]
  constructor
  · rintro ⟨note, hn, h⟩
    cases note with
    | published token' =>
      cases h
      exact hn
    | _ => cases h
  · exact fun h => ⟨_, h, rfl⟩

theorem token_step (s : Traffic) (m : Move) : ∃ l, (s.step m).log = s.log ++ l ∧
    (s.step m).credentials.token
      = (publications (l.map Prod.snd)).getLast?.or s.credentials.token := by
  have hsame : s.log = s.log ++ [] := (List.append_nil _).symm
  cases m with
  | proceed n =>
    rw [step]
    split
    · next j hj =>
      refine ⟨_, rfl, ?_⟩
      rw [List.map_map]
      show _ = (publications (List.map id _)).getLast?.or _
      rw [List.map_id]
      exact j.token_turn s.credentials s.world
    · exact ⟨[], hsame, rfl⟩
  | _ => exact ⟨[], hsame, rfl⟩

/-- the cached token is the last one that was published, or else the one at first -/
theorem token_run (s : Traffic) (ms : List Move) : ∃ l, (s.run ms).log = s.log ++ l ∧
    (s.run ms).credentials.token
      = (publications (l.map Prod.snd)).getLast?.or s.credentials.token := by
  induction ms using List.reverseRecOn with
  | nil => exact ⟨[], (List.append_nil _).symm, rfl⟩
  | append_singleton ms m ih =>
    obtain ⟨l, hl, ht⟩ := ih
    obtain ⟨l', hl', ht'⟩ := (s.run ms).token_step m
    rw [run_concat]
    refine ⟨l ++ l', by rw [hl', hl, List.append_assoc], ?_⟩
    rw [ht', ht, List.map_append, publications_append, List.getLast?_append, Option.or_assoc]

/-! ## the notes of a refresh -/

/-- a note of what became of a refresh -/
def Note.isAttempt : Note → Bool
  | .fetched _ _ _ => true
  | .published _ => true
  | .failed _ => true
  | _ => false

def attempts (notes : List Note) : List Note := notes.filter Note.isAttempt

theorem attempts_append (l l' : List Note) : attempts (l ++ l') = attempts l ++ attempts l' :=
  List.filter_append ..

theorem Attempt.attempts_eq {c : Configuration} {l : List Note} {x : Stage ⊕ Except Failure Token}
    (h : Attempt c l x) : attempts l = l := by
  cases h <;> rfl

theorem Opened.attempt {c : Configuration} {l : List Note} (h : Opened c l) :
    ∃ x, Attempt c (attempts l) x := by
  cases h with
  | atOnce => exact ⟨_, .begun⟩
  | started => exact ⟨_, .begun⟩
  | refreshed h =>
    rw [← h.attempts_eq] at h
    exact ⟨_, h⟩

theorem Attempt.attempt {c : Configuration} {l : List Note} {x : Stage ⊕ Except Failure Token}
    (h : Attempt c l x) : ∃ x, Attempt c (attempts l) x := by
  rw [h.attempts_eq]
  exact ⟨x, h⟩

theorem Ending.attempt {P : Credentials → Prop} {c : Configuration} {l : List Note} {note : Note}
    (h : Ending P c l note) : ∃ x, Attempt c (attempts (l ++ [note])) x := by
  have hdrop : note.isAttempt = false → attempts (l ++ [note]) = attempts l := by
    intro hn
    rw [attempts_append, attempts, attempts, List.filter_cons_of_neg (by rw [hn]; nofun),
      List.filter_nil, List.append_nil]
  cases h with
  | settled h =>
    rw [hdrop rfl]
    exact h.attempt
  | returned h =>
    rw [hdrop rfl]
    exact h.attempt
  | overflowed => exact ⟨_, .begun⟩
  | failed _ h =>
    rw [hdrop rfl]
    exact h.attempt
  | prepared h _ _ =>
    rw [hdrop rfl]
    exact h.attempt
  | applied _ _ => exact ⟨_, .begun⟩

/-- a task refreshes at most once, and this is what became of it -/
theorem Story.attempt {P : Credentials → Prop} {c : Configuration} {l : List Note} {o : Option Job}
    (h : Story P c l o) : ∃ x, Attempt c (attempts l) x := by
  cases h with
  | background h => exact h.attempt
  | settling h => exact h.attempt
  | caller h => exact h.attempt
  | early _ => exact ⟨_, .begun⟩
  | refreshing h => exact h.attempt
  | late h _ => exact h.attempt
  | applying => exact ⟨_, .begun⟩
  | ended h => exact h.attempt

theorem Story.granted {P : Credentials → Prop} {c : Configuration} {l : List Note}
    {o : Option Job} (h : Story P c l o) {token : Token} (ht : .published token ∈ l) :
    ∃ v v', attempts l = [.fetched v v' token, .published token] ∧ c.Grants v v' token := by
  have hm : .published token ∈ attempts l := List.mem_filter.2 ⟨ht, rfl⟩
  obtain ⟨x, hx⟩ := h.attempt
  generalize attempts l = l' at hx hm
  cases hx with
  | published hg =>
    rcases List.mem_cons.1 hm with h | h
    · cases h
    · cases List.mem_singleton.1 h
      exact ⟨_, _, rfl, hg⟩
  | begun => cases hm
  | fetching _ => cases hm
  | fetched _ => cases List.mem_singleton.1 hm
  | located _ => cases List.mem_singleton.1 hm
  | failed => cases List.mem_singleton.1 hm

theorem Story.failed_alone {P : Credentials → Prop} {c : Configuration} {l : List Note}
    {o : Option Job} (h : Story P c l o) {f : Failure} (hf : .failed f ∈ l) :
    attempts l = [.failed f] := by
  have hm : .failed f ∈ attempts l := List.mem_filter.2 ⟨hf, rfl⟩
  obtain ⟨x, hx⟩ := h.attempt
  generalize attempts l = l' at hx hm
  cases hx with
  | failed =>
    cases List.mem_singleton.1 hm
    rfl
  | published _ =>
    rcases List.mem_cons.1 hm with h | h
    · cases h
    · cases List.mem_singleton.1 h
  | begun => cases hm
  | fetching _ => cases hm
  | fetched _ => cases List.mem_singleton.1 hm
  | located _ => cases List.mem_singleton.1 hm

theorem Story.returned {P : Credentials → Prop} {c : Configuration} {l : List Note}
    {o : Option Job} (h : Story P c l o) {result : Except Failure Unit}
    (hr : .returned result ∈ l) : (result = .ok () ∧ ∃ token, .published token ∈ l) ∨
      ∃ f, result = .error f ∧ .failed f ∈ l := by
  obtain ⟨l', rfl, he⟩ := h.ending hr rfl
  cases he with
  | returned ha =>
    cases ha with
    | failed => exact .inr ⟨_, rfl, List.mem_cons_self⟩
    | published _ => exact .inl ⟨rfl, _, List.mem_cons_of_mem _ List.mem_cons_self⟩

/-! ## the cached token in a run -/

theorem credentials_of_refreshing {s : Traffic} {n : Nat} {owner : Owner} {stage : Stage}
    (hj : s.jobs[n]? = some (some (.refreshing owner stage))) :
    (∃ token, stage = .fetched token ∧ (s.step (.proceed n)).credentials
        = { s.credentials with boundary := (s.credentials.lookup token s.world).1 }) ∨
      (∃ token, stage = .located token ∧
        (s.step (.proceed n)).credentials = { s.credentials with token := some token }) ∨
      (s.step (.proceed n)).credentials = s.credentials := by
  rw [step_proceed hj]
  show (∃ token, _ ∧ (Job.turn _ _ _).credentials = _) ∨
    (∃ token, _ ∧ (Job.turn _ _ _).credentials = _) ∨ (Job.turn _ _ _).credentials = _
  have hd := (Job.refreshing owner stage).does_turn s.credentials s.world
  generalize (Job.refreshing owner stage).turn s.credentials s.world = t at hd
  cases hd with
  | moved hp =>
    obtain ⟨_, _, rfl, _⟩ | ⟨_, _, _, _, rfl, _⟩ | ⟨_, _, _, _, rfl, _⟩ | ⟨token, rfl, _, rfl, _⟩ :=
      Credentials.proceed_moved hp
    · exact .inr (.inr rfl)
    · exact .inr (.inr rfl)
    · exact .inr (.inr rfl)
    · exact .inl ⟨token, rfl, rfl⟩
  | failed _ => exact .inr (.inr rfl)
  | published => exact .inr (.inl ⟨_, rfl, rfl⟩)

/-- what holds of the cached token in every state that new credentials of `account` get to -/
structure Custody (account : Account) (s : Traffic) : Prop where
  same : s.credentials.account = account
  /-- the cached token is that of the last refresh that succeeded -/
  cached : s.credentials.token = (publications (s.log.map Prod.snd)).getLast?
  /-- a refresh that succeeds publishes just the token that one answer granted to it -/
  granted : ∀ n token, (n, .published token) ∈ s.log → ∃ v v',
    attempts (ofTask n s.log) = [.fetched v v' token, .published token] ∧
      account.configuration.Grants v v' token
  /-- a refresh that fails gets no token -/
  failed : ∀ n f, (n, .failed f) ∈ s.log → attempts (ofTask n s.log) = [.failed f]
  /-- without a token a refresh changes nothing -/
  changes : ∀ n owner stage, s.jobs[n]? = some (some (.refreshing owner stage)) →
    (∃ token, stage = .fetched token ∧ (s.step (.proceed n)).credentials
        = { s.credentials with boundary := (s.credentials.lookup token s.world).1 }) ∨
      (∃ token, stage = .located token ∧
        (s.step (.proceed n)).credentials = { s.credentials with token := some token }) ∨
      (s.step (.proceed n)).credentials = s.credentials
  /-- a call that only refreshes returns what became of its refresh -/
  returned : ∀ n result, (n, .returned result) ∈ s.log →
    (result = .ok () ∧ ∃ token, (n, .published token) ∈ s.log) ∨
      ∃ f, result = .error f ∧ (n, .failed f) ∈ s.log
  /-- a token is never lost -/
  kept : ∀ ms, s.credentials.token.isSome = true → (s.run ms).credentials.token.isSome = true
  /-- whoever impersonates has a token from an answer to an impersonation -/
  impersonated : ∀ i token, account.configuration.impersonation? = some i →
    s.credentials.token = some token → ∃ n v v' caller held res a,
      (n, .fetched v v' token) ∈ s.log ∧ v.reply = .response res ∧
        v' = v.afterRequest (i.request caller held) ∧ res.status.isSuccess = true ∧
        Impersonation.Answer.parse res.body = .ok a ∧ a.token v.wall v.clock = .ok token

theorem Reached.custody {account : Account} {s : Traffic} (h : Reached account s) :
    Custody account s := by
  have hcached : s.credentials.token = (publications (s.log.map Prod.snd)).getLast? := by
    obtain ⟨boundary, nonBlocking, w, ms, rfl⟩ := h
    obtain ⟨l, hl, ht⟩ := token_run (start (.new account boundary nonBlocking) w) ms
    rw [ht, hl]
    exact Option.or_none
  have hgranted : ∀ n token, (n, .published token) ∈ s.log → ∃ v v',
      attempts (ofTask n s.log) = [.fetched v v' token, .published token] ∧
        account.configuration.Grants v v' token := by
    intro n token hn
    obtain ⟨o, ho⟩ := h.story_of_mem hn
    exact ho.granted (mem_ofTask.2 hn)
  refine ⟨h.account_eq, hcached, hgranted, ?_, fun _ _ _ => credentials_of_refreshing, ?_, ?_, ?_⟩
  · intro n f hn
    obtain ⟨o, ho⟩ := h.story_of_mem hn
    exact ho.failed_alone (mem_ofTask.2 hn)
  · intro n result hn
    obtain ⟨o, ho⟩ := h.story_of_mem hn
    simp only [← mem_ofTask]
    exact ho.returned (mem_ofTask.2 hn)
  · intro ms' ht
    obtain ⟨l', _, ht'⟩ := s.token_run ms'
    rw [ht', Option.isSome_or, ht, Bool.or_true]
  · intro i token hi ht
    rw [hcached] at ht
    obtain ⟨⟨n, note⟩, hn, rfl⟩ := List.mem_map.1 (mem_publications.1 (List.mem_of_getLast? ht))
    obtain ⟨v, v', ha, r, res, hlast, hr, hsuccess, hreads, hv⟩ := hgranted n token hn
    have hf : .fetched v v' token ∈ attempts (ofTask n s.log) := ha ▸ List.mem_cons_self
    rw [Configuration.IsLast, hi] at hlast
    rw [Configuration.Reads, hi] at hreads
    obtain ⟨caller, held, rfl⟩ := hlast
    obtain ⟨a, hp, hk⟩ := hreads
    exact ⟨n, v, v', caller, held, res, a, mem_ofTask.1 (List.mem_filter.1 hf).1, hr, hv, hsuccess,
      hp, hk⟩

/-! ## all of it -/

/-- a refresh that nothing comes between does all or nothing -/
structure Atomic (c : Credentials) (w : World) : Prop where
  failed : ∀ f c' w', c.refresh w = (.error f, c', w') → c' = c
  /-- a refresh that succeeds replaces the token by the one that the answer to its last request of
  a fetch granted, and nothing else but the boundary -/
  succeeded : ∀ c' w', c.refresh w = (.ok (), c', w') → ∃ token before v v' after,
    w.Leads before v ∧ c.account.configuration.Grants v v' token ∧ v'.Leads after w' ∧
      c' = { c with token := some token, boundary := c'.boundary }

end Traffic

end Federation
