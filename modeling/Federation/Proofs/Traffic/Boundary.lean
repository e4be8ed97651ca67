import Federation.Proofs.Credentials.Apply
import Federation.Proofs.Refresh.Course
import Federation.Proofs.Traffic.Lookups
import Mathlib.Data.List.Basic

/-!
# Which boundary is sent

The boundary is read when a refresh begins, replaced in its middle, and read again whenever headers
are set.  An impersonation names whatever boundary was held when its refresh began; the headers of
a request leave out the boundary of all locations.

* `Credentials.named_apply`          the boundary in the headers of a request;
* `Traffic.Thread.began`             the boundary that a refresh began with;
* `Traffic.bounded_run`              what every run keeps to;
* `Traffic.boundary_discipline`      all of it, with what one lookup does.
-/

namespace Federation

/-! ## headers -/

/-- the boundary is the only one that the headers name; the boundary of all locations is not named,
and then what was there before stays -/
def Boundary.Named (held : Option Boundary) (hs hs' : Http.Headers) : Prop :=
  hs'.named "x-allowed-locations" = match held.filter (!·.isNoOp) with
    | some b => [Http.allowedLocations b.encoded]
    | none => hs.named "x-allowed-locations"

namespace Credentials

variable {c : Credentials}

theorem named_apply {override? : Option String} {hs hs' : Http.Headers}
    (h : c.apply override? hs = (.ok (), hs')) : Boundary.Named c.boundary hs hs' := by
  obtain ⟨token, _, hset⟩ := apply_eq_ok_iff_setEach.1 h
  obtain ⟨_, rfl⟩ := Http.Headers.setEach_eq_true_iff.1 hset
  rw [Boundary.Named]
  cases hb : c.boundary.filter (!·.isNoOp) with
  | none =>
    refine Http.Headers.named_setAll_of_ne ?_ hs
    rw [planned, Boundary.bind_header?, hb]
    cases c.account.quotaProject <;>
      simp [Http.bearer, Http.quotaProject, Http.Header.open, Http.authorization]
  | some b =>
    have hm : Http.allowedLocations b.encoded ∈ c.planned token := by
      rw [planned, Boundary.bind_header?, hb]
      exact List.mem_append_right _ List.mem_cons_self
    exact Http.Headers.named_setAll_self (c.nodup_planned token) hm hs

end Credentials

theorem Impersonation.named_request (i : Impersonation) {caller : String} {held : Option Boundary}
    (hl : isLegal caller held = true) :
    (i.request caller held).headers.named "x-allowed-locations"
      = (held.map (Http.allowedLocations ·.encoded)).toList := by
  rw [i.request_eq hl]
  show Http.Headers.named (planned caller held) _ = _
  cases held <;> rfl

/-! ## the boundary that a refresh began with -/

/-- the boundary that was held when the fetch began -/
def Fetch.held : Fetch → Option Boundary
  | .begun held => held
  | .identified held _ => held
  | .exchanged _ held _ => held

theorem Configuration.held_of_advance {c : Configuration} {f f' : Fetch} {w w' : World}
    (h : (c.advance f).run w = (.ok (.inl f'), w')) : f'.held = f.held := by
  cases f with
  | begun held =>
    obtain ⟨_, hx⟩ := advance_begun h
    cases hx
    rfl
  | identified held subject =>
    obtain ⟨_, _, ⟨_, _, hx⟩ | ⟨_, _, _, hx⟩⟩ := advance_identified h
    · cases hx
      rfl
    · cases hx
  | exchanged i held caller =>
    obtain ⟨_, hx, _⟩ := advance_exchanged h
    cases hx

namespace Traffic

/-- what is held in a turn that begins a refresh -/
def Moment.began? (t : Moment) : Option (Option Boundary) :=
  match t.job with
  | .refreshing _ .begun => some t.credentials.boundary
  | _ => none

/-- what was held, each time that the task began a refresh, up to what it does next -/
def Job.Began (began : List (Option Boundary)) : Job → Prop
  | .refreshing _ .begun => began = []
  | .refreshing _ (.fetching f) => began = [f.held]
  | .request _ phase => phase.IsEarly → began = []
  | _ => True

theorem Job.IsNew.began {j : Job} (hj : j.IsNew) : j.Began [] := by
  rcases j with ⟨_ | _ | _, _ | _ | _ | _⟩ | _ | _ | _
  all_goals first | exact hj.elim | exact fun _ => rfl | trivial

theorem Moment.began_turn (t : Moment) {began : List (Option Boundary)} (h : t.job.Began began)
    {j : Job} (hj : t.turn.next = some j) : j.Began (began ++ t.began?.toList) := by
  obtain ⟨n, j₀, c, w⟩ := t
  have hd := j₀.does_turn c w
  rw [Moment.turn] at hj
  dsimp only at h hj
  generalize j₀.turn c w = u at hd hj
  have hnone : began = began ++ [] := (List.append_nil _).symm
  cases hd with
  | moved hp =>
    cases hj
    obtain ⟨rfl, rfl, rfl, _⟩ | ⟨f, f', rfl, rfl, _, ha⟩ | ⟨_, _, rfl, rfl, _⟩ |
      ⟨_, rfl, rfl, _⟩ := Credentials.proceed_moved hp
    -- the first step reads the boundary, and a fetch that gets further keeps what it has read
    · obtain rfl := h
      rfl
    · obtain rfl := h
      show _ = _
      rw [Configuration.held_of_advance ha]
      rfl
    · trivial
    · trivial
  | @failed owner =>
    cases owner <;> cases hj
    trivial
  | @published owner =>
    cases owner <;> cases hj
    · trivial
    · exact False.elim
  | entered _ | invalid _ | stale _ | tookNothing _ =>
    cases hj
    intro _
    rw [h trivial]
    rfl
  | notValid _ | emptied | took _ =>
    cases hj
    rw [h trivial]
    rfl
  | valid _ | fresh _ | started _ | found _ | held =>
    cases hj
    exact False.elim
  | settled | overflowed _ | set _ | applied _ => cases hj

theorem Job.ready_of_holding {c : Credentials} {w : World} {j : Job} {hs : Http.Headers}
    {held : Option Boundary} (h : (j.turn c w).next = some (.request hs (.holding held))) :
    j = .request hs .ready ∧ c.boundary = held := by
  have hd := j.does_turn c w
  generalize j.turn c w = t at hd h
  cases hd with
  | held =>
    cases h
    exact ⟨rfl, rfl⟩
  | @failed owner | @published owner => cases owner <;> cases h
  | entered hp => rcases hp with rfl | rfl <;> cases h
  | _ => cases h

namespace Thread

variable {l : List Moment} {o : Option Job}

theorem began (h : Thread l o) : ∀ j, o = some j → j.Began (l.filterMap Moment.began?) := by
  induction h with
  | new hj =>
    rintro _ ⟨⟩
    exact hj.began
  | @turn l t h ih =>
    intro j hj
    rw [filterMap_concat]
    exact t.began_turn (ih _ rfl) hj

theorem holding (h : Thread l o) {hs : Http.Headers} {held : Option Boundary}
    (ho : o = some (.request hs (.holding held))) :
    ∃ l' t, l = l' ++ [t] ∧ t.job = .request hs .ready ∧ t.credentials.boundary = held := by
  cases h with
  | new hj =>
    cases ho
    exact hj.elim
  | @turn l t h => exact ⟨l, t, rfl, Job.ready_of_holding ho⟩

end Thread

/-! ## what was fetched -/

theorem fetches_attempts (l : List Note) : fetches (attempts l) = fetches l := by
  rw [fetches, attempts, List.filterMap_filter, fetches]
  refine List.filterMap_congr fun note _ => ?_
  cases note <;> rfl

theorem mem_fetches {l : List Note} {token : Token} :
    token ∈ fetches l ↔ ∃ v v', .fetched v v' token ∈ l := by
  rw [fetches, List.mem_filterMap]
  constructor
  · rintro ⟨note, hn, h⟩
    cases note with
    | fetched v v' token' =>
      cases h
      exact ⟨v, v', hn⟩
    | _ => cases h
  · rintro ⟨v, v', h⟩
    exact ⟨_, h, rfl⟩

namespace Story

variable {P : Credentials → Prop} {c : Configuration} {l : List Note} {o : Option Job}

theorem fetches (h : Story P c l o) : (fetches l).length ≤ 1 := by
  obtain ⟨x, hx⟩ := h.attempt
  rw [← fetches_attempts]
  exact hx.fetches

theorem not_failed (h : Story P c l o) {token : Token} (ht : token ∈ Traffic.fetches l)
    (f : Failure) : .failed f ∉ l := by
  intro hf
  rw [← fetches_attempts, h.failed_alone hf] at ht
  exact absurd ht List.not_mem_nil

end Story

/-! ## in a run -/

/-- what a run keeps to.  At first there was the boundary `initial`, the run has got to the state
`s`, and `l` are the turns in it. -/
structure Bounded (initial : Option Boundary) (s : Traffic) (l : List Moment) : Prop where
  /-- the boundary is the last one that was found, or else the one at first -/
  held : s.credentials.boundary = (l.filterMap Moment.found?).getLast?.or initial
  /-- a boundary is never lost -/
  kept : ∀ ms, s.credentials.boundary.isSome = true → (s.run ms).credentials.boundary.isSome = true
  /-- a refresh that has its token looks the boundary up, and goes on whatever comes of it -/
  looks : ∀ n owner token, s.jobs[n]? = some (some (.refreshing owner (.fetched token))) →
    ∃ b w, s.credentials.Looks token s.world b w ∧ s.step (.proceed n)
      = ⟨{ s.credentials with boundary := b }, w,
        s.jobs.set n (some (.refreshing owner (.located token))), s.log⟩
  /-- then it publishes the token, and has succeeded -/
  publishes : ∀ n owner token, s.jobs[n]? = some (some (.refreshing owner (.located token))) →
    s.step (.proceed n) = ⟨{ s.credentials with token := some token }, s.world,
      s.jobs.set n (owner.next (.ok ())),
      s.log ++ (.published token :: owner.notes (.ok ())).map (n, ·)⟩
  /-- nobody else looks a boundary up -/
  only : ∀ (n : Nat) j, s.jobs[n]? = some (some j) → ∀ x ∈ j.sends s.credentials s.world,
    x.hop = .lookup → ∃ token, j.looking? = some token
  /-- a task looks the boundary up with each token that it fetches, once -/
  fetched : ∀ n o, s.jobs[n]? = some o → fetches (ofTask n s.log)
    = (turnsOf n l).filterMap Moment.looked? ++ (o.bind Job.looking?).toList
  /-- it has looked the boundary up with a token before it publishes it -/
  published : ∀ n o, s.jobs[n]? = some o → (turnsOf n l).filterMap Moment.looked?
    = publications (ofTask n s.log) ++ (o.bind Job.publishing?).toList
  once : ∀ n, (fetches (ofTask n s.log)).length ≤ 1
  /-- whoever has fetched a token does not fail to refresh -/
  succeeded : ∀ n token, token ∈ fetches (ofTask n s.log) → (∀ f, (n, .failed f) ∉ s.log) ∧
    ∀ result, (n, .returned result) ∈ s.log → result = .ok ()
  /-- an impersonation names what was held when the refresh began, whatever it is -/
  impersonates : ∀ (n : Nat) j, s.jobs[n]? = some (some j) → ∀ x ∈ j.sends s.credentials s.world,
    x.hop = .impersonation → ∃ held, (turnsOf n l).filterMap Moment.began? = [held] ∧
      x.request.headers.named "x-allowed-locations"
        = (held.map (Http.allowedLocations ·.encoded)).toList
  /-- a call that prepares a request names what was held in its turn before -/
  prepares : ∀ n hs held, s.jobs[n]? = some (some (.request hs (.holding held))) →
    (∃ l' t, turnsOf n l = l' ++ [t] ∧ t.job = .request hs .ready ∧
      t.credentials.boundary = held) ∧
    ∃ result hs', (s.step (.proceed n)).log = s.log ++ [(n, .prepared result hs')] ∧
      (result = .ok () → Boundary.Named held hs hs')
  /-- a call that sets headers, and no more, names what is held -/
  applies : ∀ n hs override?, s.jobs[n]? = some (some (.applying hs override?)) →
    ∃ result hs', (s.step (.proceed n)).log = s.log ++ [(n, .applied result hs')] ∧
      (result = .ok () → Boundary.Named s.credentials.boundary hs hs')

theorem looking_of_sends {c : Credentials} {w : World} {j : Job} {x : Sent}
    (hx : x ∈ j.sends c w) (hop : x.hop = .lookup) : ∃ token, j.looking? = some token := by
  cases j with
  | refreshing owner stage =>
    have hm := (c.hops_sends stage w).subset (List.mem_map_of_mem hx)
    rw [hop] at hm
    rcases stage with _ | (_ | _ | _) | token | _
    case fetched => exact ⟨token, rfl⟩
    all_goals simp [Stage.hops] at hm
  | _ => cases hx

theorem exchanged_of_sends {c : Credentials} {w : World} {j : Job} {x : Sent}
    (hx : x ∈ j.sends c w) (hop : x.hop = .impersonation) : ∃ owner i held caller,
    j = .refreshing owner (.fetching (.exchanged i held caller)) ∧
      Impersonation.isLegal caller held = true ∧ x.request = i.request caller held := by
  cases j with
  | refreshing owner stage =>
    have hm := (c.hops_sends stage w).subset (List.mem_map_of_mem hx)
    rw [hop] at hm
    rcases stage with _ | (_ | _ | ⟨i, held, caller⟩) | _ | _
    case fetching.exchanged =>
      have hr := (Credentials.mem_sends.1 hx).1
      rw [Credentials.request?, Configuration.request?] at hr
      split at hr
      · next hl =>
        exact ⟨owner, i, held, caller, rfl, hl, (Prod.mk.inj (Option.some.inj hr)).2.symm⟩
      · cases hr
    all_goals simp [Stage.hops] at hm
  | _ => cases hx

theorem named_of_holding {s : Traffic} {n : Nat} {hs : Http.Headers} {held : Option Boundary}
    (hj : s.jobs[n]? = some (some (.request hs (.holding held)))) :
    ∃ result hs', (s.step (.proceed n)).log = s.log ++ [(n, .prepared result hs')] ∧
      (result = .ok () → Boundary.Named held hs hs') := by
  rw [step_proceed hj]
  rcases ha : { s.credentials with boundary := held }.apply none hs with ⟨result, hs'⟩
  refine ⟨result, hs', ?_, ?_⟩
  · simp only [turned, Job.turn, ha, List.map_cons, List.map_nil]
  · rintro rfl
    exact Credentials.named_apply ha

theorem named_of_applying {s : Traffic} {n : Nat} {hs : Http.Headers} {override? : Option String}
    (hj : s.jobs[n]? = some (some (.applying hs override?))) :
    ∃ result hs', (s.step (.proceed n)).log = s.log ++ [(n, .applied result hs')] ∧
      (result = .ok () → Boundary.Named s.credentials.boundary hs hs') := by
  rw [step_proceed hj]
  rcases ha : s.credentials.apply override? hs with ⟨result, hs'⟩
  refine ⟨result, hs', ?_, ?_⟩
  · simp only [turned, Job.turn, ha, List.map_cons, List.map_nil]
  · rintro rfl
    exact Credentials.named_apply ha

theorem bounded_run (account : Account) (boundary : Option Boundary) (nonBlocking : Bool)
    (w : World) (ms : List Move) :
    Bounded boundary ((start (.new account boundary nonBlocking) w).run ms)
      ((start (.new account boundary nonBlocking) w).chronicle ms) := by
  have hreached := Reached.of_run account boundary nonBlocking w ms
  have hthread := fun n o => thread_run (.new account boundary nonBlocking) w ms (n := n) (o := o)
  have hnotes := ofTask_run (.new account boundary nonBlocking) w ms
  have hheld := boundary_run (start (.new account boundary nonBlocking) w) ms
  generalize (start (.new account boundary nonBlocking) w).run ms = s at *
  generalize (start (.new account boundary nonBlocking) w).chronicle ms = l at *
  constructor
  case held => exact hheld
  case kept =>
    intro ms' hb
    rw [boundary_run, Option.isSome_or, hb, Bool.or_true]
  case looks =>
    intro n owner token hj
    refine ⟨_, _, Credentials.looks_lookup s.credentials token s.world, ?_⟩
    rw [step_proceed hj, turned]
    simp only [Job.turn, Credentials.proceed, arrival, List.map_nil, List.append_nil]
  case publishes =>
    intro n owner token hj
    rw [step_proceed hj, turned]
    simp only [Job.turn, Credentials.proceed, List.map_nil, List.append_nil]
  case only => exact fun _ _ _ _ hx hop => looking_of_sends hx hop
  case fetched =>
    intro n o ho
    rw [hnotes]
    exact (hthread n o ho).fetched
  case published =>
    intro n o ho
    rw [hnotes]
    exact (hthread n o ho).published
  case once =>
    intro n
    cases ho : s.jobs[n]? with
    | some o => exact (hreached.story ho).fetches
    | none =>
      have hn := List.getElem?_eq_none_iff.1 ho
      rw [ofTask_eq_nil fun e he => Nat.lt_of_lt_of_le (hreached.numbered e he) hn]
      exact Nat.zero_le _
  case succeeded =>
    intro n token ht
    obtain ⟨v, v', hf⟩ := mem_fetches.1 ht
    obtain ⟨o, ho⟩ := hreached.story_of_mem (mem_ofTask.1 hf)
    refine ⟨fun f hf => ho.not_failed ht f (mem_ofTask.2 hf), fun result hr => ?_⟩
    rcases ho.returned (mem_ofTask.2 hr) with ⟨hok, _⟩ | ⟨f, _, hf⟩
    · exact hok
    · exact absurd hf (ho.not_failed ht f)
  case impersonates =>
    intro n j hj x hx hop
    obtain ⟨owner, i, held, caller, rfl, hl, hr⟩ := exchanged_of_sends hx hop
    rw [hr]
    exact ⟨held, (hthread n _ hj).began _ rfl, i.named_request hl⟩
  case prepares =>
    intro n hs held hj
    exact ⟨(hthread n _ hj).holding rfl, named_of_holding hj⟩
  case applies => exact fun _ _ _ hj => named_of_applying hj

/-! ## all of it -/

theorem refresh_of_fetch {c : Credentials} {token : Token} {w v : World}
    (h : (c.account.configuration.fetch c.boundary).run w = (.ok token, v)) :
    ∃ b v', c.Looks token v b v' ∧
      c.refresh w = (.ok (), { c with token := some token, boundary := b }, v') := by
  refine ⟨_, _, c.looks_lookup token v, ?_⟩
  rw [Credentials.refresh, h]

/-- what is looked up is held, a refresh that began with a boundary sends it, and headers name the
one that was held -/
theorem boundary_discipline :
    (∀ (t : Moment) b, t.found? = some b ↔ t.Finds b) ∧
    (∀ (a : Account) e url, a.lookup? e = some url ↔
      a.configuration.domain = Account.defaultDomain ∧ Boundary.isEnabled e = true ∧
        a.lookupUrl? = some url) ∧
    (∀ (c : Credentials) token w v,
      (c.account.configuration.fetch c.boundary).run w = (.ok token, v) → ∃ b v',
        c.Looks token v b v' ∧
          c.refresh w = (.ok (), { c with token := some token, boundary := b }, v')) ∧
    (∀ account boundary nonBlocking w ms,
      Bounded boundary ((start (.new account boundary nonBlocking) w).run ms)
        ((start (.new account boundary nonBlocking) w).chronicle ms)) ∧
    ∀ (c : Credentials) account w ms, Bounded c.boundary ((start (c.derive account) w).run ms)
      ((start (c.derive account) w).chronicle ms) :=
  ⟨fun _ _ => Moment.found?_eq_some_iff, fun _ _ _ => Account.lookup?_eq_some_iff,
    fun _ _ _ _ => refresh_of_fetch, bounded_run,
    fun c account => bounded_run account c.boundary c.nonBlocking⟩

end Traffic

end Federation
