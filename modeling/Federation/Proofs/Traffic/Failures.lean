import Federation.Proofs.Refresh.Need
import Federation.Proofs.Traffic.Alone
import Federation.Proofs.Traffic.Indifference
import Federation.Proofs.Traffic.Publication

/-!
# Where the failure of a call comes from

A call that prepares a request fails because its own refresh did, or because a header is not legal.
What a refresh in the background has left in the slot makes no difference but that it is there: the
call that finds it refreshes, and the outcome of this refresh decides.

* `Traffic.Reached.origin`            where the failure of a call comes from;
* `Traffic.Reached.unharmed`          a call that leaves the refresh to the background;
* `Traffic.Reached.own_outcome`       a call that refreshes itself;
* `Traffic.background_failures_stay`  all of it.
-/

namespace Federation

namespace Traffic

/-! ## a call that sets headers has seen a token -/

/-- the phases of a call that has seen a token -/
def Phase.HasToken : Phase → Prop
  | .stale => True
  | .starting => True
  | .ready => True
  | .holding _ => True
  | _ => False

theorem isSome_of_isValid {c : Credentials} {now : Clock.Reading} (h : c.isValid now = true) :
    c.token.isSome = true := by
  rw [Credentials.isValid, Freshness.isValid] at h
  cases ht : c.token with
  | none =>
    rw [ht] at h
    cases h
  | some token => rfl

theorem isSome_of_freshness {c : Credentials} {now : Clock.Reading} {x : Freshness}
    (h : c.freshness? now = some x) (hx : x ≠ .invalid) : c.token.isSome = true := by
  rw [Credentials.freshness?] at h
  cases ht : c.token with
  | none =>
    rw [ht, Freshness.of?_none] at h
    exact absurd (Option.some.inj h).symm hx
  | some token => rfl

theorem Job.token_of_next {c : Credentials} {w : World} {j : Job} {hs : Http.Headers}
    {phase : Phase} (hn : (j.turn c w).next = some (.request hs phase)) (hp : phase.HasToken)
    (hj : ∀ hs phase, j = .request hs phase → phase.HasToken → c.token.isSome = true) :
    (j.turn c w).credentials.token.isSome = true := by
  have hd := j.does_turn c w
  generalize j.turn c w = t at hd hn
  cases hd with
  | moved _ => cases hn
  | @failed owner => cases owner <;> cases hn
  | @published owner => rfl
  | settled => cases hn
  | entered h =>
    cases hn
    rcases h with rfl | rfl
    · exact hp.elim
    · exact hp.elim
  | valid h => exact isSome_of_isValid h
  | notValid _ => cases hn
  | overflowed _ => cases hn
  | fresh h => exact isSome_of_freshness h nofun
  | invalid _ =>
    cases hn
    exact hp.elim
  | stale h => exact isSome_of_freshness h nofun
  | emptied => cases hn
  | took _ => cases hn
  | tookNothing _ => exact hj _ _ rfl trivial
  | started _ => exact hj _ _ rfl trivial
  | found _ => exact hj _ _ rfl trivial
  | held => exact hj _ _ rfl trivial
  | set _ => cases hn
  | applied _ => cases hn

theorem Job.error_of_turn {c : Credentials} {w : World} {j : Job} {f : Failure} {hs : Http.Headers}
    (hn : .prepared (.error f) hs ∈ (j.turn c w).notes)
    (hj : ∀ hs phase, j = .request hs phase → phase.HasToken → c.token.isSome = true) :
    f = .headerValue ∨ .failed f ∈ (j.turn c w).notes := by
  have hd := j.does_turn c w
  generalize j.turn c w = t at hd hn ⊢
  cases hd with
  | @moved owner stage stage' =>
    cases stage' with
    | fetched token => cases List.mem_singleton.1 hn
    | _ => cases hn
  | @failed owner =>
    rcases List.mem_cons.1 hn with hn | hn
    · cases hn
    · cases owner with
      | background => cases hn
      | caller => cases List.mem_singleton.1 hn
      | request hs =>
        cases List.mem_singleton.1 hn
        exact .inr List.mem_cons_self
  | @published owner =>
    rcases List.mem_cons.1 hn with hn | hn
    · cases hn
    · cases owner with
      | caller => cases List.mem_singleton.1 hn
      | _ => cases hn
  | set ha =>
    cases List.mem_singleton.1 hn
    rcases Credentials.apply_error ha with ⟨ht, _⟩ | ⟨_, hf⟩
    · have hsome := hj _ _ rfl trivial
      rw [show c.token = none from ht] at hsome
      cases hsome
    · exact .inl hf
  | entered _ => cases hn
  | valid _ => cases hn
  | fresh _ => cases hn
  | invalid _ => cases hn
  | stale _ => cases hn
  | tookNothing _ => cases hn
  | found _ => cases hn
  | held => cases hn
  | _ => cases List.mem_singleton.1 hn

structure Accounted (s : Traffic) : Prop where
  seen : ∀ (n : Nat) hs phase, s.jobs[n]? = some (some (Job.request hs phase)) → phase.HasToken →
    s.credentials.token.isSome = true
  origin : ∀ n f hs, (n, .prepared (.error f) hs) ∈ s.log →
    f = .headerValue ∨ (n, .failed f) ∈ s.log

theorem isSome_step {s : Traffic} (h : s.credentials.token.isSome = true) (m : Move) :
    (s.step m).credentials.token.isSome = true := by
  obtain ⟨_, _, ht⟩ := s.token_step m
  rw [ht, Option.isSome_or, h, Bool.or_true]

theorem Accounted.step {s : Traffic} (h : s.Accounted) (m : Move) : (s.step m).Accounted where
  seen n hs phase hj hp := by
    rcases jobs_step hj with hj | ⟨j, hj', rfl, hn⟩ | ⟨j, hj, hnew⟩
    · exact isSome_step (h.seen n hs phase hj hp) m
    · rw [step_proceed hj']
      exact Job.token_of_next hn.symm hp fun hs phase hj => h.seen n hs phase (hj ▸ hj')
    · cases hj
      cases phase with
      | entered => exact hp.elim
      | _ => exact hnew.elim
  origin n f hs hn := by
    rcases log_step hn with hn | ⟨j, hj, rfl, hn'⟩
    · obtain ⟨_, _, _, hl, _⟩ := s.exists_step m
      rw [hl]
      exact (h.origin n f hs hn).imp id fun hf => List.mem_append_left _ hf
    · have hf := Job.error_of_turn hn' fun hs phase hj' => h.seen n hs phase (hj' ▸ hj)
      rw [step_proceed hj]
      exact hf.imp id fun hf => List.mem_append_right _ (List.mem_map_of_mem hf)

theorem Reached.accounted {account : Account} {s : Traffic} (h : Reached account s) :
    s.Accounted :=
  h.induction
    (fun _ _ _ => ⟨fun _ _ _ hj _ => (nomatch hj), fun _ _ _ hn => absurd hn List.not_mem_nil⟩)
    fun _ m hs => hs.step m

/-! ## the course of a call -/

/-- the phases of a call that needs no refresh any more -/
def Phase.Decided : Phase → Prop
  | .starting => True
  | .ready => True
  | .holding _ => True
  | _ => False

/-- a call that needs no refresh any more, with its notes since: it does none -/
structure Relieved (hs : Http.Headers) (l : List Note) (o : Option Job) : Prop where
  notes : ∀ note ∈ l, note = .starts ∨ ∃ result hs', note = .prepared result hs'
  next : ∀ j, o = some j → ∃ phase, j = .request hs phase ∧ phase.Decided

theorem Relieved.turn {hs : Http.Headers} {l : List Note} {j : Job}
    (h : Relieved hs l (some j)) (c : Credentials) (w : World) :
    Relieved hs (l ++ (j.turn c w).notes) (j.turn c w).next := by
  obtain ⟨phase, rfl, hp⟩ := h.next j rfl
  have hadd : ∀ note, (note = .starts ∨ ∃ result hs', note = Note.prepared result hs') →
      ∀ note' ∈ l ++ [note], note' = .starts ∨ ∃ result hs', note' = .prepared result hs' := by
    intro note hn note' hm
    rcases List.mem_append.1 hm with hm | hm
    · exact h.notes note' hm
    · exact List.mem_singleton.1 hm ▸ hn
  have hsame := h.notes
  rw [← List.append_nil l] at hsame
  have hd := (Job.request hs phase).does_turn c w
  generalize (Job.request hs phase).turn c w = t at hd
  cases hd with
  | started _ => exact ⟨hadd _ (.inl rfl), fun j hj => ⟨_, (Option.some.inj hj).symm, trivial⟩⟩
  | found _ => exact ⟨hsame, fun j hj => ⟨_, (Option.some.inj hj).symm, trivial⟩⟩
  | held => exact ⟨hsame, fun j hj => ⟨_, (Option.some.inj hj).symm, trivial⟩⟩
  | set _ => exact ⟨hadd _ (.inr ⟨_, _, rfl⟩), fun j hj => nomatch hj⟩
  | _ => exact hp.elim

theorem relieved_of_course {P : Credentials → Prop} {hs : Http.Headers} {phase : Phase}
    (hp : phase.Decided) {l : List Note} {o : Option Job}
    (h : Course P (some (.request hs phase)) l o) : Relieved hs l o := by
  induction h with
  | refl =>
    refine ⟨fun _ hn => absurd hn List.not_mem_nil, fun j hj => ?_⟩
    exact ⟨phase, (Option.some.inj hj).symm, hp⟩
  | turn w _ _ ih => exact ih.turn _ w

/-- a call that has begun to refresh, with its notes since: it returns the failure of its refresh,
unless it has published a token -/
structure Bound (hs : Http.Headers) (l : List Note) (o : Option Job) : Prop where
  outcome : ∀ result hs', .prepared result hs' ∈ l →
    (∃ f, result = .error f ∧ hs' = hs ∧ .failed f ∈ l) ∨ ∃ token, .published token ∈ l
  next : ∀ j, o = some j → (∃ stage, j = .refreshing (.request hs) stage) ∨
    (∃ phase, j = .request hs phase ∧ phase.Decided) ∧ ∃ token, .published token ∈ l

theorem Bound.outcome_append {hs : Http.Headers} {l : List Note} {o : Option Job}
    (h : Bound hs l o) {new : List Note} {result : Except Failure Unit} {hs' : Http.Headers}
    (hn : .prepared result hs' ∈ l ++ new) (hnew : .prepared result hs' ∉ new) :
    (∃ f, result = .error f ∧ hs' = hs ∧ .failed f ∈ l ++ new) ∨
      ∃ token, .published token ∈ l ++ new := by
  have hl := (List.mem_append.1 hn).resolve_right hnew
  rcases h.outcome result hs' hl with ⟨f, hr, hh, hf⟩ | ⟨token, ht⟩
  · exact .inl ⟨f, hr, hh, List.mem_append_left _ hf⟩
  · exact .inr ⟨token, List.mem_append_left _ ht⟩

theorem Bound.turn_refreshing {hs : Http.Headers} {l : List Note} {stage : Stage}
    (h : Bound hs l (some (.refreshing (.request hs) stage))) {c : Credentials} {w : World}
    {t : Turn} (hd : (Job.refreshing (.request hs) stage).Does c w t) :
    Bound hs (l ++ t.notes) t.next := by
  cases hd with
  | @moved _ _ stage' _ w' _ =>
    refine ⟨fun result hs' hn => h.outcome_append hn fun hm => ?_, fun j hj => ?_⟩
    · cases stage' with
      | fetched token => cases List.mem_singleton.1 hm
      | _ => cases hm
    · exact .inl ⟨stage', (Option.some.inj hj).symm⟩
  | @failed _ _ f w' _ =>
    refine ⟨fun result hs' hn => ?_, fun j hj => nomatch hj⟩
    have hf : .failed f ∈ l ++ [Note.failed f, .prepared (.error f) hs] :=
      List.mem_append_right _ List.mem_cons_self
    by_cases hm : Note.prepared result hs' = .prepared (.error f) hs
    · cases hm
      exact .inl ⟨f, rfl, rfl, hf⟩
    · refine h.outcome_append hn fun hm' => ?_
      rcases List.mem_cons.1 hm' with hm' | hm'
      · cases hm'
      · exact hm (List.mem_singleton.1 hm')
  | @published _ token =>
    have ht : .published token ∈ l ++ [Note.published token] :=
      List.mem_append_right _ List.mem_cons_self
    refine ⟨fun _ _ _ => .inr ⟨token, ht⟩, fun j hj => ?_⟩
    exact .inr ⟨⟨_, (Option.some.inj hj).symm, trivial⟩, token, ht⟩

theorem Bound.turn {hs : Http.Headers} {l : List Note} {j : Job} (h : Bound hs l (some j))
    (c : Credentials) (w : World) : Bound hs (l ++ (j.turn c w).notes) (j.turn c w).next := by
  rcases h.next j rfl with ⟨stage, rfl⟩ | ⟨⟨phase, rfl, hp⟩, token, ht⟩
  · exact h.turn_refreshing (Job.does_turn c w _)
  · have ht' : .published token ∈ l ++ ((Job.request hs phase).turn c w).notes :=
      List.mem_append_left _ ht
    have hr : Relieved hs [] (some (.request hs phase)) :=
      ⟨fun _ hn => absurd hn List.not_mem_nil, fun j hj => ⟨phase, (Option.some.inj hj).symm, hp⟩⟩
    exact ⟨fun _ _ _ => .inr ⟨token, ht'⟩,
      fun j hj => .inr ⟨(hr.turn c w).next j hj, token, ht'⟩⟩

theorem bound_of_course {P : Credentials → Prop} {hs : Http.Headers} {stage : Stage}
    {l : List Note} {o : Option Job}
    (h : Course P (some (.refreshing (.request hs) stage)) l o) : Bound hs l o := by
  induction h with
  | refl =>
    refine ⟨fun _ _ hn => absurd hn List.not_mem_nil, fun j hj => ?_⟩
    exact .inl ⟨stage, (Option.some.inj hj).symm⟩
  | turn w _ _ ih => exact ih.turn _ w

/-! ## in a run -/

theorem Opened.not_failed {c : Configuration} {l : List Note} (h : Opened c l) {f : Failure} :
    .failed f ∉ l := by
  intro hn
  cases h with
  | atOnce => cases hn
  | started => cases List.mem_singleton.1 hn
  | refreshed h =>
    rcases List.mem_cons.1 hn with hn | hn
    · cases hn
    · cases h with
      | published _ =>
        rcases List.mem_cons.1 hn with hn | hn
        · cases hn
        · cases List.mem_singleton.1 hn

variable {account : Account} {s : Traffic}

theorem Reached.origin (h : Reached account s) {n : Nat} {f : Failure} {hs : Http.Headers}
    (hn : (n, .prepared (.error f) hs) ∈ s.log) :
    ofTask n s.log = [.refreshes, .failed f, .prepared (.error f) hs] ∨
      f = .headerValue ∧ ∃ (d : Credentials) (boundary : Option Boundary) (hs₀ : Http.Headers),
        Became account d ∧ { d with boundary := boundary }.apply none hs₀ = (.error f, hs) := by
  obtain ⟨o, ho⟩ := h.story_of_mem hn
  obtain ⟨l, hl, he⟩ := ho.ending (mem_ofTask.2 hn) rfl
  have hf := h.accounted.origin n f hs hn
  rw [← mem_ofTask, hl] at hf
  rw [hl]
  cases he with
  | failed _ h =>
    cases h
    exact .inl rfl
  | prepared ho hd ha =>
    refine .inr ⟨?_, _, _, _, hd, ha⟩
    rcases hf with hf | hf
    · exact hf
    · rcases List.mem_append.1 hf with hf | hf
      · exact absurd hf ho.not_failed
      · cases List.mem_singleton.1 hf

theorem Reached.unharmed (h : Reached account s) {n : Nat} {hs : Http.Headers}
    (hj : s.jobs[n]? = some (some (.request hs .starting))) {ms : List Move}
    {l : List (Nat × Note)} (hl : (s.run ms).log = s.log ++ l) {note : Note}
    (hn : note ∈ ofTask n l) : note = .starts ∨
      ∃ result hs', note = .prepared result hs' ∧
        (result = .ok () ∨ result = .error .headerValue) := by
  obtain ⟨l', o, hl', _, hc⟩ := h.course_run hj ms
  obtain rfl := List.append_cancel_left (hl.symm.trans hl')
  have hp : Phase.starting.Decided := trivial
  have hd := (relieved_of_course hp hc).notes
  rcases hd note hn with rfl | ⟨result, hs', rfl⟩
  · exact .inl rfl
  · refine .inr ⟨result, hs', rfl, ?_⟩
    rcases result with f | _
    · refine .inr ?_
      have hm : (n, .prepared (.error f) hs') ∈ (s.run ms).log :=
        hl ▸ List.mem_append_right _ (mem_ofTask.1 hn)
      rcases (h.run ms).accounted.origin n f hs' hm with rfl | hf
      · rfl
      · rw [hl, List.mem_append] at hf
        rcases hf with hf | hf
        · have hnil := (h.story hj).eq_nil trivial
          rw [← mem_ofTask, hnil] at hf
          cases hf
        · rcases hd _ (mem_ofTask.2 hf) with hf | ⟨_, _, hf⟩
          · cases hf
          · cases hf
    · exact .inl rfl

theorem run_starting {n : Nat} {hs : Http.Headers}
    (hj : s.jobs[n]? = some (some (.request hs .starting))) :
    (s.run (List.replicate 3 (.proceed n))).world = s.world ∧
      (s.run (List.replicate 3 (.proceed n))).log.getLast? = some (n, .prepared
        (s.credentials.apply none hs).1 (s.credentials.apply none hs).2) := by
  have hreach : ∃ c started notes,
      Turn.again^[3] (.first s.credentials s.world (.request hs .starting))
        = ⟨c, s.world, none, started, notes ++ [.prepared (s.credentials.apply none hs).1
            (s.credentials.apply none hs).2]⟩ := by
    show ∃ c started notes, Turn.again (Turn.again (Turn.followed _
      ((Job.request hs .starting).turn s.credentials s.world))) = _
    have hd := (Job.request hs .starting).does_turn s.credentials s.world
    generalize (Job.request hs .starting).turn s.credentials s.world = t at hd
    cases hd with
    | started _ => exact ⟨_, _, [.starts], rfl⟩
    | found _ => exact ⟨_, _, [], rfl⟩
  obtain ⟨c, started, notes, hr⟩ := hreach
  rw [run_alone hj, hr]
  refine ⟨rfl, ?_⟩
  show (s.log ++ List.map (n, ·) (notes ++ [_])).getLast? = _
  rw [List.map_append, ← List.append_assoc]
  exact List.getLast?_concat

theorem step_stale {n : Nat} {hs : Http.Headers}
    (hj : s.jobs[n]? = some (some (.request hs .stale)))
    (hslot : ∀ f, s.credentials.slot ≠ .ended (some f)) :
    (s.step (.proceed n)).jobs[n]? = some (some (.request hs .starting)) ∧
      (s.step (.proceed n)).log = s.log := by
  rw [step_proceed hj]
  have hlen := (List.getElem?_eq_some_iff.1 hj).1
  rw [getElem?_turned hlen]
  show _ ∧ s.log ++ List.map (n, ·) ((Job.request hs .stale).turn s.credentials s.world).notes = _
  have hd := (Job.request hs .stale).does_turn s.credentials s.world
  generalize (Job.request hs .stale).turn s.credentials s.world = t at hd
  cases hd with
  | took h => exact absurd h (hslot _)
  | tookNothing _ => exact ⟨rfl, List.append_nil _⟩

theorem step_stale_of_failure {n : Nat} {hs : Http.Headers} {f : Failure}
    (hj : s.jobs[n]? = some (some (.request hs .stale)))
    (hslot : s.credentials.slot = .ended (some f)) :
    (s.step (.proceed n)).credentials = { s.credentials with slot := .idle } ∧
      (s.step (.proceed n)).jobs[n]? = some (some (.refreshing (.request hs) .begun)) ∧
      (s.step (.proceed n)).log = s.log ++ [(n, .refreshes)] := by
  have ht : (Job.request hs .stale).turn s.credentials s.world
      = ⟨{ s.credentials with slot := .idle }, s.world,
          some (.refreshing (.request hs) .begun), [], [.refreshes]⟩ := by
    rw [Job.turn, hslot]
    rfl
  rw [step_proceed hj, ht]
  exact ⟨rfl, getElem?_turned (List.getElem?_eq_some_iff.1 hj).1 _, rfl⟩

theorem Reached.own_outcome (h : Reached account s) {n : Nat} {hs : Http.Headers} {stage : Stage}
    (hj : s.jobs[n]? = some (some (.refreshing (.request hs) stage))) {ms : List Move}
    {l : List (Nat × Note)} (hl : (s.run ms).log = s.log ++ l) {result : Except Failure Unit}
    {hs' : Http.Headers} (hn : .prepared result hs' ∈ ofTask n l) :
    (∃ f, result = .error f ∧ hs' = hs ∧ .failed f ∈ ofTask n l) ∨
      (∃ token, .published token ∈ ofTask n l) ∧
        (result = .ok () ∨ result = .error .headerValue) := by
  obtain ⟨l', o, hl', _, hc⟩ := h.course_run hj ms
  obtain rfl := List.append_cancel_left (hl.symm.trans hl')
  rcases (bound_of_course hc).outcome result hs' hn with hf | ⟨token, ht⟩
  · exact .inl hf
  · refine .inr ⟨⟨token, ht⟩, ?_⟩
    rcases result with f | _
    · refine .inr ?_
      have hlater : ∀ {note}, note ∈ ofTask n l → (n, note) ∈ (s.run ms).log := fun h => by
        rw [hl]
        exact List.mem_append_right _ (mem_ofTask.1 h)
      rcases (h.run ms).accounted.origin n f hs' (hlater hn) with rfl | hf
      · rfl
      ·
        obtain ⟨o', ho'⟩ := (h.run ms).story_of_mem hf
        have ha := ho'.failed_alone (mem_ofTask.2 hf)
        have hp : .published token ∈ attempts (ofTask n (s.run ms).log) :=
          List.mem_filter.2 ⟨mem_ofTask.2 (hlater ht), rfl⟩
        rw [ha] at hp
        cases List.mem_singleton.1 hp
    · exact .inl rfl

/-! ## all of it -/

/-- what holds of the failures of calls in a state and in every run from it -/
structure Contained (account : Account) (s : Traffic) : Prop where
  /-- a call that fails has met the failure itself: its own refresh failed, or a header that it set
  was not legal -/
  origin : ∀ n f hs, (n, .prepared (.error f) hs) ∈ s.log →
    ofTask n s.log = [.refreshes, .failed f, .prepared (.error f) hs] ∨
      f = .headerValue ∧ ∃ (d : Credentials) (boundary : Option Boundary) (hs₀ : Http.Headers),
        Became account d ∧ { d with boundary := boundary }.apply none hs₀ = (.error f, hs)
  /-- a call that has seen a stale token and no failure goes on to start a refresh -/
  stale : ∀ n hs, s.jobs[n]? = some (some (Job.request hs .stale)) →
    (∀ f, s.credentials.slot ≠ .ended (some f)) →
      (s.step (.proceed n)).jobs[n]? = some (some (.request hs .starting)) ∧
        (s.step (.proceed n)).log = s.log
  /-- whether it starts one or finds one running, it returns without waiting -/
  prompt : ∀ n hs, s.jobs[n]? = some (some (Job.request hs .starting)) →
    (s.run (List.replicate 3 (.proceed n))).world = s.world ∧
      (s.run (List.replicate 3 (.proceed n))).log.getLast? = some (n, .prepared
        (s.credentials.apply none hs).1 (s.credentials.apply none hs).2)
  /-- and whatever becomes of that refresh meanwhile, it can only fail for a header -/
  unharmed : ∀ n hs, s.jobs[n]? = some (some (Job.request hs .starting)) →
    ∀ ms l, (s.run ms).log = s.log ++ l → ∀ note ∈ ofTask n l, note = .starts ∨
      ∃ result hs', note = .prepared result hs' ∧
        (result = .ok () ∨ result = .error .headerValue)
  /-- a call that has seen a stale token and a failure takes it and begins to refresh -/
  observed : ∀ n hs f, s.jobs[n]? = some (some (Job.request hs .stale)) →
    s.credentials.slot = .ended (some f) →
      (s.step (.proceed n)).credentials = { s.credentials with slot := .idle } ∧
        (s.step (.proceed n)).jobs[n]? = some (some (.refreshing (.request hs) .begun)) ∧
        (s.step (.proceed n)).log = s.log ++ [(n, .refreshes)]
  /-- and what its own refresh comes to decides what it returns -/
  decided : ∀ n hs stage, s.jobs[n]? = some (some (Job.refreshing (.request hs) stage)) →
    ∀ ms l, (s.run ms).log = s.log ++ l → ∀ result hs', .prepared result hs' ∈ ofTask n l →
      (∃ f, result = .error f ∧ hs' = hs ∧ .failed f ∈ ofTask n l) ∨
        (∃ token, .published token ∈ ofTask n l) ∧
          (result = .ok () ∨ result = .error .headerValue)
  /-- which failure is in the slot makes no difference to any run -/
  forgotten : ∀ slot, s.credentials.slot.Alike slot → ∀ ms, ∃ slot',
    (s.run ms).credentials.slot.Alike slot' ∧ (s.withSlot slot).run ms = (s.run ms).withSlot slot'

/-- the failures of refreshes in the background never reach a call -/
theorem background_failures_stay (account : Account) (boundary : Option Boundary)
    (nonBlocking : Bool) (w : World) (ms : List Move) :
    Contained account ((start (.new account boundary nonBlocking) w).run ms) := by
  have h := Reached.of_run account boundary nonBlocking w ms
  exact ⟨fun _ _ _ hn => h.origin hn, fun _ _ => step_stale, fun _ _ => run_starting,
    fun _ _ hj _ _ hl _ hn => h.unharmed hj hl hn, fun _ _ _ => step_stale_of_failure,
    fun _ _ _ hj _ _ hl _ _ hn => h.own_outcome hj hl hn, fun _ ha ms => run_withSlot _ ha ms⟩

end Traffic

end Federation
