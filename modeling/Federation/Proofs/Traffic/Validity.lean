import Federation.Proofs.Refresh.Lifetime
import Federation.Proofs.Refresh.Usable
import Federation.Proofs.Traffic.Failures
import Federation.Proofs.Traffic.Lookups

/-!
# Which token a request carries

A call that prepares a request either finds a valid token or gets one itself.  Other tasks may
publish tokens before it sets the headers; it sends the last of these, or else its own.  Every token
that is published was granted for some time, which may be none.

* `Traffic.Thread.settled`     every call that sets headers has seen a token;
* `Traffic.token_since`        the cached token since a turn of the run;
* `Traffic.warranted_run`      where the token of a call in a run comes from;
* `Traffic.requests_carry_granted_tokens`   all of it, with calls that nothing comes between.
-/

namespace Federation

namespace Traffic

/-! ## the turn that settles it -/

def Phase.Looks (phase : Phase) : Prop := phase = .blocking ∨ phase = .nonBlocking

/-- in this turn a call with the headers `hs` finds that the token is valid, or publishes it -/
inductive Moment.Settles (t : Moment) (hs : Http.Headers) (token : Token) : Prop where
  | seen {phase : Phase} (hj : t.job = .request hs phase) (hp : phase.Looks)
      (ht : t.credentials.token = some token) (hv : token.isValid t.world.clock = true)
  | published (hj : t.job = .refreshing (.request hs) (.located token))

theorem exists_of_isValid {c : Credentials} {now : Clock.Reading} (h : c.isValid now = true) :
    ∃ token, c.token = some token ∧ token.isValid now = true := (Option.any_eq_true _ _).1 h

namespace Moment

variable {t : Moment} {hs : Http.Headers}

theorem settles_of_next {phase : Phase} (hn : t.turn.next = some (.request hs phase))
    (hp : phase.HasToken) : (∃ token, t.Settles hs token) ∨
      ∃ phase', t.job = .request hs phase' ∧ phase'.HasToken := by
  obtain ⟨n, j, c, w⟩ := t
  have hd := j.does_turn c w
  rw [turn] at hn
  dsimp only at hn ⊢
  generalize j.turn c w = u at hd hn
  have hseen : ∀ {phase' : Phase}, c.isValid w.clock = true → j = .request hs phase' →
      phase'.Looks → ∃ token, Settles ⟨n, j, c, w⟩ hs token := by
    intro phase' hv hj hp
    obtain ⟨token, ht, hv⟩ := exists_of_isValid hv
    exact ⟨token, .seen hj hp ht hv⟩
  cases hd with
  | @published owner token =>
    cases owner <;> cases hn
    exact .inl ⟨token, .published rfl⟩
  | valid hv =>
    cases hn
    exact .inl (hseen hv rfl (.inl rfl))
  | fresh hf | stale hf =>
    cases hn
    exact .inl (hseen (Freshness.isValid_of_of? hf nofun) rfl (.inr rfl))
  | tookNothing _ | started _ | found _ | held =>
    cases hn
    exact .inr ⟨_, rfl, trivial⟩
  | entered he =>
    cases hn
    rcases he with rfl | rfl <;> exact hp.elim
  | invalid _ =>
    cases hn
    exact hp.elim
  | @failed owner => cases owner <;> cases hn
  | _ => cases hn

theorem Settles.token {token : Token} (h : t.Settles hs token) :
    t.turn.credentials.token = some token := by
  obtain ⟨n, j, c, w⟩ := t
  show (j.turn c w).credentials.token = _
  rw [j.token_turn, j.publications_turn]
  cases h with
  | seen hj _ ht _ =>
    obtain rfl := hj
    exact ht
  | published hj =>
    obtain rfl := hj
    rfl

end Moment

theorem Thread.settled {l : List Moment} {o : Option Job} (h : Thread l o) {hs : Http.Headers} :
    ∀ phase, o = some (.request hs phase) → phase.HasToken →
      ∃ t ∈ l, ∃ token, t.Settles hs token := by
  induction h with
  | new hj =>
    rintro phase ⟨⟩ hp
    cases phase with
    | entered => exact hp.elim
    | _ => exact hj.elim
  | @turn l t h ih =>
    intro phase ho hp
    obtain hs | ⟨phase', hj, hp'⟩ := Moment.settles_of_next ho hp
    · exact ⟨t, List.mem_append_right _ List.mem_cons_self, hs⟩
    · obtain ⟨t', ht', hs⟩ := ih phase' (congrArg some hj) hp'
      exact ⟨t', List.mem_append_left _ ht', hs⟩

/-! ## the token since then -/

/-- the tokens that are published in turns -/
def published (l : List Moment) : List Token := publications (l.flatMap fun t => t.turn.notes)

theorem map_snd_notes (l : List Moment) :
    (l.flatMap fun t => t.turn.notes.map (t.number, ·)).map Prod.snd
      = l.flatMap fun t => t.turn.notes := by
  have h : ∀ t : Moment, (t.turn.notes.map (t.number, ·)).map Prod.snd = t.turn.notes := by
    intro t
    rw [List.map_map]
    exact List.map_id _
  rw [List.map_flatMap, funext h]

/-- the cached token is the last one that was published since a turn, or else the one that the turn
has left -/
theorem token_since {s : Traffic} {ms : List Move} {front back : List Moment} {t : Moment}
    (h : s.chronicle ms = front ++ t :: back) :
    (s.run ms).credentials.token = (published back).getLast?.or t.turn.credentials.token := by
  obtain ⟨ms₁, ms₂, _, _, hback, hrun⟩ := exists_of_chronicle h
  obtain ⟨l, hl, ht⟩ := token_run ((s.run ms₁).turned t.number t.turn) ms₂
  rw [log_run, hback] at hl
  rw [hrun, ht, ← List.append_cancel_left hl, map_snd_notes]
  rfl

/-! ## a call that succeeds -/

/-- in the turns `l` a call of the task `n` gets from the turn in which it has seen a token to the
one in which it sets the headers `hs'`.  It sends the last token that was published in between, or
else the one that it has seen. -/
inductive Warranted (l : List Moment) (n : Nat) (hs' : Http.Headers) : Prop where
  | intro {front between back : List Moment} {t u : Moment} {hs : Http.Headers}
      {held : Option Boundary} {first token : Token}
      (hl : l = front ++ t :: (between ++ u :: back)) (ht : t.number = n) (hu : u.number = n)
      (hfirst : t.Settles hs first) (hj : u.job = .request hs (.holding held))
      (htoken : u.credentials.token = some token)
      (hlast : (published between).getLast?.or (some first) = some token)
      (hauthorized : hs'.named Http.authorization = [Http.bearer token.value])

theorem Job.holding_of_prepared {c : Credentials} {w : World} {j : Job} {hs' : Http.Headers}
    (h : .prepared (.ok ()) hs' ∈ (j.turn c w).notes) : ∃ hs held,
      j = .request hs (.holding held) ∧
        { c with boundary := held }.apply none hs = (.ok (), hs') := by
  have hd := j.does_turn c w
  generalize j.turn c w = t at hd h
  cases hd with
  | set ha =>
    cases List.mem_singleton.1 h
    exact ⟨_, _, rfl, ha⟩
  | @moved owner stage stage' => cases stage' <;> simp [arrival] at h
  | @failed owner => cases owner <;> simp [Owner.notes] at h
  | @published owner => cases owner <;> simp [Owner.notes] at h
  | _ => simp at h

theorem warranted_run {c : Credentials} {w : World} {ms : List Move} {n : Nat}
    {hs' : Http.Headers} (h : (n, .prepared (.ok ()) hs') ∈ ((start c w).run ms).log) :
    Warranted ((start c w).chronicle ms) n hs' := by
  obtain ⟨u, hu, rfl, hn⟩ := mem_log_run_iff.1 h
  obtain ⟨hs, held, hj, ha⟩ := Job.holding_of_prepared hn
  obtain ⟨token, htoken, hauthorized⟩ := Credentials.apply_ok ha
  -- the run is stopped before the turn that has set the headers
  obtain ⟨front, back, hl⟩ := List.append_of_mem hu
  obtain ⟨ms₁, ms₂, hfront, hmoment, _⟩ := exists_of_chronicle hl
  obtain ⟨_, hjob, hcred, _⟩ := moment?_eq_some_iff.1 hmoment
  rw [hj] at hjob
  obtain ⟨t, ht, first, hfirst⟩ := (thread_run c w ms₁ hjob).settled _ rfl trivial
  obtain ⟨hmem, hnumber⟩ := List.mem_filter.1 ht
  obtain ⟨front', between, hsplit⟩ := List.append_of_mem hmem
  have hsince := token_since hsplit
  rw [← hcred, hfirst.token] at hsince
  have hwhole : (start c w).chronicle ms = front' ++ t :: (between ++ u :: back) := by
    rw [hl, ← hfront, hsplit, List.append_assoc, List.cons_append]
  exact .intro hwhole (of_decide_eq_true hnumber) rfl hfirst hj htoken (hsince.symm.trans htoken)
    hauthorized

/-- every token that is published in a run was granted in it for some time -/
theorem granted_run (account : Account) (boundary : Option Boundary) (nonBlocking : Bool)
    (w : World) (ms : List Move) {token : Token}
    (h : token ∈ published ((start (.new account boundary nonBlocking) w).chronicle ms)) :
    ∃ n v v' d, (n, .fetched v v' token) ∈
        ((start (.new account boundary nonBlocking) w).run ms).log ∧
      account.configuration.GrantsFor v v' token d := by
  have hreached := Reached.of_run account boundary nonBlocking w ms
  have hlog := log_run (start (.new account boundary nonBlocking) w) ms
  rw [published, ← map_snd_notes] at h
  obtain ⟨⟨n, note⟩, hn, rfl⟩ := List.mem_map.1 (mem_publications.1 h)
  have hn : (n, .published token) ∈
      ((start (.new account boundary nonBlocking) w).run ms).log := hlog ▸ hn
  obtain ⟨v, v', ha, hg⟩ := hreached.custody.granted n token hn
  obtain ⟨d, hd⟩ := hg.exists_for
  have hf : .fetched v v' token ∈
      attempts (ofTask n ((start (.new account boundary nonBlocking) w).run ms).log) :=
    ha ▸ List.mem_cons_self
  exact ⟨n, v, v', d, mem_ofTask.1 (List.mem_filter.1 hf).1, hd⟩

/-! ## all of it -/

/-- what is known of the tokens that calls send.  The run of new credentials of `account` has got to
the state `s`, and `l` are the turns in it. -/
structure Vouching (account : Account) (s : Traffic) (l : List Moment) : Prop where
  /-- a call that nothing comes between sends a token that it has found valid, or one that it got -/
  alone : ∀ hs, (s.credentials.beforeRequest hs s.world).result = .ok () → ∃ token,
    (s.credentials.beforeRequest hs s.world).credentials.token = some token ∧
    (s.credentials.beforeRequest hs s.world).headers.named Http.authorization
      = [Http.bearer token.value] ∧ s.credentials.Vouched s.world token
  /-- with others in between it may also send one that was published since -/
  among : ∀ n hs', (n, .prepared (.ok ()) hs') ∈ s.log → Warranted l n hs'
  /-- a token that is published was granted, and is valid for as long as its answer says -/
  granted : ∀ token ∈ published l, ∃ n v v' d, (n, .fetched v v' token) ∈ s.log ∧
    account.configuration.GrantsFor v v' token d ∧ ∀ now,
      (token.isValid now = true ↔ token.value ≠ "" ∧ now + Freshness.skew < v.clock + d)

/-- the token of a request was valid when the call looked, or an answer has granted it, and then it
is valid for as long as this answer says -/
theorem requests_carry_granted_tokens (account : Account) (boundary : Option Boundary)
    (nonBlocking : Bool) (w : World) (ms : List Move) :
    Vouching account ((start (.new account boundary nonBlocking) w).run ms)
      ((start (.new account boundary nonBlocking) w).chronicle ms) where
  alone _ hok := Credentials.vouched_of_beforeRequest hok
  among _ _ hn := warranted_run hn
  granted token ht := by
    obtain ⟨n, v, v', d, hn, hd⟩ := granted_run account boundary nonBlocking w ms ht
    exact ⟨n, v, v', d, hn, hd, hd.isValid_iff⟩

def shortLived : String := "\x7b\"access_token\": \"token\", \"expires_in\": 5\x7d"

/-- a call can succeed with a token that counts as expired from the start -/
theorem expired_token_is_sent :
    ¬∀ account s hs, Reached account s → (s.credentials.beforeRequest hs s.world).result = .ok () →
      ∃ token, (s.credentials.beforeRequest hs s.world).credentials.token = some token ∧
        (s.credentials.beforeRequest hs s.world).headers.named Http.authorization
          = [Http.bearer token.value] ∧ token.isValid s.world.clock = true := by
  intro h
  have hreached : Reached Credentials.ofPool.account
      (start Credentials.ofPool (Credentials.answering [shortLived])) :=
    ⟨none, false, _, [], rfl⟩
  have hexpired : (Credentials.ofPool.beforeRequest []
      (Credentials.answering [shortLived])).credentials.isValid 0 = false := by
    decide +kernel
  have hok : (Credentials.ofPool.beforeRequest []
      (Credentials.answering [shortLived])).result.toBool = true := by
    decide +kernel
  have hcall := h _ _ [] hreached
  dsimp only [start] at hcall
  generalize Credentials.ofPool.beforeRequest [] (Credentials.answering [shortLived]) = p at *
  obtain ⟨result, headers, c, w, started⟩ := p
  cases result with
  | error f => cases hok
  | ok _ =>
    obtain ⟨token, ht, _, hv⟩ := hcall rfl
    have hc : c.token = some token := ht
    rw [Credentials.isValid, hc] at hexpired
    cases hexpired.symm.trans hv

end Traffic

end Federation
