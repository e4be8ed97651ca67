import Federation.Proofs.Refresh.Confinement
import Federation.Proofs.Traffic.Chronicle
import Federation.Proofs.Traffic.Publication
import Federation.Proofs.Traffic.Requests

/-!
# Lookups in a run

A refresh that has its token looks the boundary up, and then publishes the token, whatever came of
the lookup.  The boundary is only ever replaced by what a lookup has found.

* `Account.lookup?_eq_some_iff`   when a boundary is looked up;
* `Credentials.looks_lookup`      what a lookup does;
* `Traffic.boundary_run`          the boundary is the last one that was found;
* `Traffic.Thread.fetched`, `Traffic.Thread.published`
                                  a lookup for every token, between its fetch and its publication.
-/

namespace Federation

/-! ## one lookup -/

theorem Account.lookup?_eq_some_iff {a : Account} {e : Environment} {url : String} :
    a.lookup? e = some url ↔ a.configuration.domain = defaultDomain ∧
      Boundary.isEnabled e = true ∧ a.lookupUrl? = some url := by
  rw [lookup?]
  split
  · next h =>
    rw [Bool.and_eq_true, decide_eq_true_eq] at h
    exact ⟨fun hu => ⟨h.1, h.2, hu⟩, fun hu => hu.2.2⟩
  · next h =>
    rw [Bool.and_eq_true, decide_eq_true_eq] at h
    exact ⟨nofun, fun hu => absurd ⟨hu.1, hu.2.1⟩ h⟩

theorem Hop.judge_eq_ok_iff {hop : Hop} {reply : Http.Reply} {res : Http.Response} :
    hop.judge reply = .ok res ↔ reply = .response res ∧ res.status.isSuccess = true := by
  cases reply with
  | failure e => exact ⟨nofun, fun h => nomatch h.1⟩
  | response res' =>
    rw [judge]
    split
    · next hs =>
      constructor
      · intro h
        cases h
        exact ⟨rfl, hs⟩
      · rintro ⟨h, _⟩
        cases h
        rfl
    · next hs =>
      constructor
      · exact nofun
      · rintro ⟨h, hs'⟩
        cases h
        exact absurd hs' hs

theorem Boundary.ofReply_eq_ok_iff {reply : Http.Reply} {b : Boundary} :
    ofReply reply = .ok b ↔ ∃ res, reply = .response res ∧ res.status.isSuccess = true ∧
      parse res.body = .ok b ∧ b.encoded.isEmpty = false := by
  rw [ofReply]
  constructor
  · intro h
    cases hj : Hop.lookup.judge reply with
    | error f =>
      rw [hj] at h
      cases h
    | ok res =>
      obtain ⟨hr, hs⟩ := Hop.judge_eq_ok_iff.1 hj
      rw [hj] at h
      cases hp : parse res.body with
      | error refusal =>
        simp only [Except.bind, hp, Except.mapError] at h
        cases h
      | ok b' =>
        simp only [Except.bind, hp, Except.mapError] at h
        split at h
        · cases h
        · next he =>
          cases h
          exact ⟨res, hr, hs, hp, Bool.eq_false_iff.2 he⟩
  · rintro ⟨res, hr, hs, hp, he⟩
    simp only [Hop.judge_eq_ok_iff.2 ⟨hr, hs⟩, Except.bind, hp, Except.mapError, he]
    rfl

namespace Credentials

/-- what a lookup with the token leaves of the boundary and of the world -/
inductive Looks (c : Credentials) (token : Token) (w : World) :
    Option Boundary → World → Prop where
  | unasked (h : c.account.lookup? w.environment = none) : Looks c token w c.boundary w
  | illegal {url : String} (h : c.account.lookup? w.environment = some url)
      (hl : Http.isValue (Http.bearer token.value).value = false) :
      Looks c token w c.boundary w
  | found {url : String} {b : Boundary} (h : c.account.lookup? w.environment = some url)
      (hl : Http.isValue (Http.bearer token.value).value = true)
      (hb : Boundary.ofReply w.reply = .ok b) :
      Looks c token w (some b) (w.afterRequest (.get url [Http.bearer token.value]))
  | missed {url : String} {f : Failure} (h : c.account.lookup? w.environment = some url)
      (hl : Http.isValue (Http.bearer token.value).value = true)
      (hf : Boundary.ofReply w.reply = .error f) :
      Looks c token w c.boundary (w.afterRequest (.get url [Http.bearer token.value]))

theorem looks_lookup (c : Credentials) (token : Token) (w : World) :
    c.Looks token w (c.lookup token w).1 (c.lookup token w).2 := by
  rw [lookup]
  cases hu : c.account.lookup? w.environment with
  | none => exact .unasked hu
  | some url =>
    dsimp only
    cases hl : Http.isValue (Http.bearer token.value).value with
    | false =>
      rw [Boundary.run_fetch_of_not_isValue (Bool.eq_false_iff.1 hl)]
      exact .illegal hu hl
    | true =>
      rw [Boundary.run_fetch_of_isValue hl, Boundary.request_eq hl]
      cases hr : Boundary.ofReply w.reply with
      | error f => exact .missed hu hl hr
      | ok b => exact .found hu hl hr

end Credentials

namespace Traffic

/-! ## the boundary -/

/-- the token that a task looks the boundary up with in its next turn -/
def Job.looking? : Job → Option Token
  | .refreshing _ (.fetched token) => some token
  | _ => none

/-- the token that a task publishes in its next turn -/
def Job.publishing? : Job → Option Token
  | .refreshing _ (.located token) => some token
  | _ => none

namespace Job

theorem looking?_eq_some_iff {j : Job} {token : Token} :
    j.looking? = some token ↔ ∃ owner, j = .refreshing owner (.fetched token) := by
  constructor
  · intro h
    rcases j with ⟨owner, _ | _ | _ | _⟩ | _ | _ | _
    all_goals cases h
    exact ⟨owner, rfl⟩
  · rintro ⟨owner, rfl⟩
    rfl

end Job

namespace Moment

/-- the boundary that is found in a turn -/
def found? (t : Moment) : Option Boundary :=
  t.job.looking?.bind fun token =>
    (t.credentials.request? t.world.environment (.fetched token)).bind fun _ =>
      (Boundary.ofReply t.world.reply).toOption

/-- the turn looks the boundary up, and the answer is a boundary with an encoded form -/
def Finds (t : Moment) (b : Boundary) : Prop :=
  ∃ owner token url res, t.job = .refreshing owner (.fetched token) ∧
    t.credentials.account.lookup? t.world.environment = some url ∧
    Http.isValue (Http.bearer token.value).value = true ∧ t.world.reply = .response res ∧
    res.status.isSuccess = true ∧ Boundary.parse res.body = .ok b ∧ b.encoded.isEmpty = false

theorem found?_eq_some_iff {t : Moment} {b : Boundary} : t.found? = some b ↔ t.Finds b := by
  have hreply : (Boundary.ofReply t.world.reply).toOption = some b ↔
      Boundary.ofReply t.world.reply = .ok b := by
    cases Boundary.ofReply t.world.reply <;> simp [Except.toOption]
  constructor
  · intro h
    obtain ⟨token, hj, h⟩ := Option.bind_eq_some_iff.1 h
    obtain ⟨r, hr, h⟩ := Option.bind_eq_some_iff.1 h
    obtain ⟨owner, hj⟩ := Job.looking?_eq_some_iff.1 hj
    obtain ⟨res, hres⟩ := Boundary.ofReply_eq_ok_iff.1 (hreply.1 h)
    rw [Credentials.request?] at hr
    split at hr
    · cases hr
    · next url hu =>
      split at hr
      · next hl => exact ⟨owner, token, url, res, hj, hu, hl, hres⟩
      · cases hr
  · rintro ⟨owner, token, url, res, hj, hu, hl, hres⟩
    refine Option.bind_eq_some_iff.2 ⟨token, Job.looking?_eq_some_iff.2 ⟨owner, hj⟩, ?_⟩
    rw [Credentials.request?, hu]
    dsimp only
    rw [if_pos hl]
    exact hreply.2 (Boundary.ofReply_eq_ok_iff.2 ⟨res, hres⟩)

/-- only a turn that finds a boundary changes the boundary -/
theorem boundary_turn (t : Moment) :
    t.turn.credentials.boundary = t.found?.or t.credentials.boundary := by
  obtain ⟨n, j, c, w⟩ := t
  show (j.turn c w).credentials.boundary = _
  have h := j.does_turn c w
  generalize j.turn c w = u at h
  cases h with
  | moved h =>
    obtain ⟨rfl, rfl, rfl, _⟩ | ⟨_, _, rfl, rfl, rfl, _⟩ | ⟨_, _, rfl, rfl, rfl, _⟩ |
      ⟨token, rfl, rfl, rfl, _⟩ := Credentials.proceed_moved h
    · rfl
    · rfl
    · rfl
    · show (c.lookup token w).1 = ((c.request? w.environment (.fetched token)).bind fun _ =>
        (Boundary.ofReply w.reply).toOption).or c.boundary
      rw [Credentials.lookup_eq]
      cases c.request? w.environment (.fetched token) <;> rfl
  | failed h =>
    obtain ⟨_, _, rfl, _⟩ := Credentials.proceed_failed h
    rfl
  | _ => rfl

end Moment

theorem boundary_run (s : Traffic) (ms : List Move) : (s.run ms).credentials.boundary
    = ((s.chronicle ms).filterMap Moment.found?).getLast?.or s.credentials.boundary := by
  refine chronicle_induction (P := fun l s' => s'.credentials.boundary
    = (l.filterMap Moment.found?).getLast?.or s.credentials.boundary) rfl ?_ ?_ ms
  · intro l s' m h hq
    exact hq.boundary.trans h
  · intro l s' t h _ hc _
    show t.turn.credentials.boundary = _
    rw [t.boundary_turn, hc, h, getLast?_filterMap_concat, Option.or_assoc]

/-! ## from the fetch to the publication -/

/-- the tokens that were fetched, in their order -/
def fetches (notes : List Note) : List Token :=
  notes.filterMap fun
    | .fetched _ _ token => some token
    | _ => none

theorem fetches_append (l l' : List Note) : fetches (l ++ l') = fetches l ++ fetches l' :=
  List.filterMap_append

namespace Job

variable (j : Job) (c : Credentials) (w : World)

theorem fetches_turn :
    fetches (j.turn c w).notes = ((j.turn c w).next.bind looking?).toList := by
  have h := j.does_turn c w
  generalize j.turn c w = t at h
  cases h with
  | @moved owner stage stage' => cases stage' <;> rfl
  | @failed owner => cases owner <;> rfl
  | @published owner => cases owner <;> rfl
  | _ => rfl

theorem publishing?_turn : (j.turn c w).next.bind publishing? = j.looking? := by
  have h := j.does_turn c w
  generalize j.turn c w = t at h
  cases h with
  | moved h =>
    obtain ⟨rfl, rfl, _⟩ | ⟨_, _, rfl, rfl, _⟩ | ⟨_, _, rfl, rfl, _⟩ | ⟨token, rfl, rfl, _⟩ :=
      Credentials.proceed_moved h
    all_goals rfl
  | @failed owner _ _ _ h =>
    obtain ⟨_, _, rfl, _⟩ := Credentials.proceed_failed h
    cases owner <;> rfl
  | @published owner => cases owner <;> rfl
  | entered h => rcases h with rfl | rfl <;> rfl
  | _ => rfl

theorem publications_turn : publications (j.turn c w).notes = j.publishing?.toList := by
  have h := j.does_turn c w
  generalize j.turn c w = t at h
  cases h with
  | moved h =>
    rw [publications_arrival]
    obtain ⟨rfl, _⟩ | ⟨_, _, rfl, _⟩ | ⟨_, _, rfl, _⟩ | ⟨_, rfl, _⟩ := Credentials.proceed_moved h
    all_goals rfl
  | @failed owner _ _ _ h =>
    obtain ⟨_, _, rfl, _⟩ := Credentials.proceed_failed h
    cases owner <;> rfl
  | @published owner => cases owner <;> rfl
  | _ => rfl

end Job

def Moment.looked? (t : Moment) : Option Token := t.job.looking?

namespace Thread

variable {l : List Moment} {o : Option Job}

theorem fetched (h : Thread l o) : fetches (l.flatMap fun t => t.turn.notes)
    = l.filterMap Moment.looked? ++ (o.bind Job.looking?).toList := by
  -- a turn moves the last token on: what was fetched is looked up with in the turn that follows
  induction h with
  | @new j hj =>
    rcases j with ⟨_ | _ | _, _ | _ | _ | _⟩ | _ | _ | _
    all_goals first | rfl | exact hj.elim
  | @turn l t h ih =>
    have hfetch : fetches t.turn.notes = (t.turn.next.bind Job.looking?).toList :=
      t.job.fetches_turn t.credentials t.world
    rw [List.flatMap_append, List.flatMap_singleton, fetches_append, ih, hfetch, filterMap_concat]
    rfl

/-- a task publishes every token with which it has looked the boundary up, once, or is about to -/
theorem published (h : Thread l o) : l.filterMap Moment.looked?
    = publications (l.flatMap fun t => t.turn.notes) ++ (o.bind Job.publishing?).toList := by
  induction h with
  | @new j hj =>
    rcases j with ⟨_ | _ | _, _ | _ | _ | _⟩ | _ | _ | _
    all_goals first | rfl | exact hj.elim
  | @turn l t h ih =>
    have hpub : publications t.turn.notes = t.job.publishing?.toList :=
      t.job.publications_turn t.credentials t.world
    have hnext : t.turn.next.bind Job.publishing? = t.job.looking? :=
      t.job.publishing?_turn t.credentials t.world
    rw [List.flatMap_append, List.flatMap_singleton, publications_append, filterMap_concat, ih,
      hpub, hnext]
    rfl

end Thread

theorem Attempt.fetches {c : Configuration} {l : List Note} {x : Stage ⊕ Except Failure Token}
    (h : Attempt c l x) : (fetches l).length ≤ 1 := by
  cases h <;> simp [Traffic.fetches]

end Traffic

end Federation
