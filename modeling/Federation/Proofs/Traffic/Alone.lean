import Federation.Proofs.Traffic.Basic
import Mathlib.Logic.Function.Iterate

/-!
# A task alone

When nothing comes between the turns of a task, all of them in a row are what `Credentials.refresh`,
`Credentials.runBackground` and `Credentials.beforeRequest` do at once.

* `Traffic.Turn.reaches_refresh`         the turns of a call that only refreshes;
* `Traffic.Turn.reaches_runBackground`   those of a refresh in the background;
* `Traffic.Turn.reaches_beforeRequest`   those of a call that prepares a request, with its notes;
* `Traffic.run_alone`                    a task that is alone in a run reaches the same.
-/

namespace Federation

namespace Traffic

namespace Turn

def followed (t u : Turn) : Turn :=
  ⟨u.credentials, u.world, u.next, t.started ++ u.started, t.notes ++ u.notes⟩

def again (t : Turn) : Turn :=
  match t.next with
  | none => t
  | some j => t.followed (j.turn t.credentials t.world)

/-- some number of turns in a row lead from `t` to `u` -/
def Reaches (t u : Turn) : Prop := ∃ k, again^[k] t = u

theorem Reaches.refl (t : Turn) : t.Reaches t := ⟨0, rfl⟩

theorem Reaches.trans {t u v : Turn} : t.Reaches u → u.Reaches v → t.Reaches v := by
  rintro ⟨k, rfl⟩ ⟨l, rfl⟩
  exact ⟨l + k, Function.iterate_add_apply again l k t⟩

theorem Reaches.turn {c c' : Credentials} {w w' : World} {j : Job} {o : Option Job}
    {started' : List Job} {notes' : List Note} (started : List Job) (notes : List Note)
    (h : j.turn c w = ⟨c', w', o, started', notes'⟩) :
    Reaches ⟨c, w, some j, started, notes⟩ ⟨c', w', o, started ++ started', notes ++ notes'⟩ := by
  refine ⟨1, ?_⟩
  show followed _ (j.turn c w) = _
  rw [h]
  rfl

/-! ## refreshes -/

/-- neither a refresh of a call nor one in the background has begun -/
def Quiet (notes : List Note) : Prop :=
  ∀ note ∈ notes, note.isRefresh = false ∧ note.isStart = false

theorem quiet_nil : Quiet [] := fun _ hn => absurd hn List.not_mem_nil

theorem Quiet.append {l l' : List Note} (h : Quiet l) (h' : Quiet l') : Quiet (l ++ l') :=
  fun note hn => (List.mem_append.1 hn).elim (h note) (h' note)

theorem quiet_singleton {note : Note} (h1 : note.isRefresh = false) (h2 : note.isStart = false) :
    Quiet [note] := by
  intro _ hn
  rw [List.mem_singleton.1 hn]
  exact ⟨h1, h2⟩

theorem quiet_arrival (before after : World) (stage : Stage) :
    Quiet (arrival before after stage) := by
  cases stage with
  | fetched token => exact quiet_singleton rfl rfl
  | begun => exact quiet_nil
  | fetching f => exact quiet_nil
  | located token => exact quiet_nil

variable {c c' : Credentials} {w w' : World}

/-- the turns of a refresh, whosever it is -/
theorem reaches_complete (owner : Owner) (stage : Stage) (started : List Job)
    (notes : List Note) {result : Except Failure Unit} (h : c.complete stage w = (result, c', w')) :
    ∃ l, Quiet l ∧ Reaches ⟨c, w, some (.refreshing owner stage), started, notes⟩
      ⟨c', w', owner.next result, started, notes ++ (l ++ owner.notes result)⟩ := by
  -- on the steps that are left; each of them starts from other credentials
  induction hn : stage.steps using Nat.strongRecOn generalizing c w stage notes with
  | ind n ih =>
    rw [Credentials.complete_eq] at h
    rcases hp : c.proceed stage w with ⟨stage' | f | token, d, v⟩
    · rw [hp] at h
      have hlt : stage'.steps < n := hn ▸ Credentials.steps_of_moved hp
      obtain ⟨l, hq, hr⟩ := ih _ hlt stage' (notes ++ arrival w v stage') h rfl
      refine ⟨arrival w v stage' ++ l, (quiet_arrival _ _ _).append hq, ?_⟩
      rw [List.append_assoc] at hr ⊢
      refine Reaches.trans ?_ hr
      have ht := Reaches.turn started notes
        (show (Job.refreshing owner stage).turn c w
          = ⟨d, v, some (.refreshing owner stage'), [], arrival w v stage'⟩ by rw [Job.turn, hp])
      rw [List.append_nil] at ht
      exact ht
    · rw [hp] at h
      cases h
      refine ⟨[.failed f], quiet_singleton rfl rfl, ?_⟩
      have ht := Reaches.turn started notes
        (show (Job.refreshing owner stage).turn c w = ⟨c', w', owner.next (.error f), [],
          [.failed f] ++ owner.notes (.error f)⟩ by rw [Job.turn, hp]; rfl)
      rw [List.append_nil] at ht
      exact ht
    · rw [hp] at h
      cases h
      refine ⟨[.published token], quiet_singleton rfl rfl, ?_⟩
      have ht := Reaches.turn started notes
        (show (Job.refreshing owner stage).turn c w = ⟨c', w', owner.next (.ok ()), [],
          [.published token] ++ owner.notes (.ok ())⟩ by rw [Job.turn, hp]; rfl)
      rw [List.append_nil] at ht
      exact ht

def first (c : Credentials) (w : World) (j : Job) : Turn := ⟨c, w, some j, [], []⟩

theorem reaches_refresh {result : Except Failure Unit} (h : c.refresh w = (result, c', w')) :
    ∃ l, Quiet l ∧ (first c w (.refreshing .caller .begun)).Reaches
      ⟨c', w', none, [], l ++ [.returned result]⟩ :=
  reaches_complete .caller .begun [] [] h

theorem reaches_runBackground (c : Credentials) (w : World) :
    ∃ l, Quiet l ∧ (first c w (.refreshing .background .begun)).Reaches
      ⟨(c.runBackground w).1, (c.runBackground w).2, none, [], l ++ [.settled]⟩ := by
  rw [Credentials.runBackground]
  rcases h : c.refresh w with ⟨result, c', w'⟩
  obtain ⟨l, hq, hr⟩ := reaches_complete .background .begun [] [] h
  have hn : Owner.notes .background result = [] := by cases result <;> rfl
  rw [hn, List.append_nil] at hr
  refine ⟨l, hq, hr.trans ?_⟩
  cases result with
  | error f => exact Reaches.turn _ _ rfl
  | ok u => exact Reaches.turn _ _ rfl

/-! ## calls that prepare a request -/

/-- what is noted when a call has seen what it needs -/
def opening : Credentials.Need → List Note
  | .nothing => []
  | .refresh => [.refreshes]
  | .background => [.starts]

def begun : Credentials.Need → List Job
  | .background => [.refreshing .background .begun]
  | _ => []

/-- what a call does once it has seen what it needs -/
def awaiting (hs : Http.Headers) : Credentials.Need → Job
  | .refresh => .refreshing (.request hs) .begun
  | _ => .request hs .ready

theorem reaches_mode (hs : Http.Headers) : (first c w (.request hs .entered)).Reaches
    ⟨c, w, some (.request hs (if c.nonBlocking then .nonBlocking else .blocking)), [], []⟩ :=
  Reaches.turn _ _ rfl

theorem reaches_stale (hs : Http.Headers) {need : Credentials.Need}
    (h : (match c.slot.takeFailure with
      | (some _, slot) => (.refresh, { c with slot := slot })
      | (none, slot) => match slot.start? with
        | some slot => (.background, { c with slot := slot })
        | none => (.nothing, { c with slot := slot })) = (need, c')) :
    Reaches ⟨c, w, some (.request hs .stale), [], []⟩
      ⟨c', w, some (awaiting hs need), begun need, opening need⟩ := by
  rcases ht : c.slot.takeFailure with ⟨_ | f, slot⟩
  · rw [ht] at h
    have h1 : (Job.request hs .stale).turn c w
        = ⟨{ c with slot := slot }, w, some (.request hs .starting), [], []⟩ := by
      rw [Job.turn, ht]
    refine (Reaches.turn _ _ h1).trans ?_
    dsimp only at h
    cases hst : slot.start? with
    | none =>
      rw [hst] at h
      cases h
      refine Reaches.turn _ _ ?_
      rw [Job.turn, hst]
      rfl
    | some slot' =>
      rw [hst] at h
      cases h
      refine Reaches.turn _ _ ?_
      rw [Job.turn, hst]
      rfl
  · rw [ht] at h
    cases h
    refine Reaches.turn _ _ ?_
    rw [Job.turn, ht]
    rfl

theorem reaches_need (hs : Http.Headers) {need : Credentials.Need}
    (h : c.need? w.clock = some (need, c')) : (first c w (.request hs .entered)).Reaches
      ⟨c', w, some (awaiting hs need), begun need, opening need⟩ := by
  refine (reaches_mode hs).trans ?_
  rw [Credentials.need?] at h
  cases hb : c.nonBlocking with
  | true =>
    rw [if_neg (by rw [hb]; exact Bool.false_ne_true)] at h
    rw [if_pos rfl]
    rcases hf : c.freshness? w.clock with _ | _ | _ | _
    · rw [hf] at h
      cases h
    · rw [hf] at h
      cases h
      refine Reaches.turn _ _ ?_
      rw [Job.turn, hf]
      rfl
    · rw [hf] at h
      have h1 : (Job.request hs .nonBlocking).turn c w
          = ⟨c, w, some (.request hs .stale), [], []⟩ := by
        rw [Job.turn, hf]
      exact (Reaches.turn _ _ h1).trans (reaches_stale hs (Option.some.inj h))
    · rw [hf] at h
      cases h
      have h1 : (Job.request hs .nonBlocking).turn c w
          = ⟨c, w, some (.request hs .invalid), [], []⟩ := by
        rw [Job.turn, hf]
      exact (Reaches.turn _ _ h1).trans (Reaches.turn _ _ rfl)
  | false =>
    rw [if_pos (by rw [hb]; rfl)] at h
    rw [if_neg Bool.false_ne_true]
    by_cases hv : c.isValid w.clock = true
    · rw [if_pos hv] at h
      cases h
      refine Reaches.turn _ _ ?_
      rw [Job.turn, if_pos hv]
      rfl
    · rw [if_neg hv] at h
      cases h
      refine Reaches.turn _ _ ?_
      rw [Job.turn, if_neg hv]
      rfl

theorem reaches_apply (hs : Http.Headers) (started : List Job) (notes : List Note) :
    Reaches ⟨c, w, some (.request hs .ready), started, notes⟩ ⟨c, w, none, started,
      notes ++ [.prepared (c.apply none hs).1 (c.apply none hs).2]⟩ := by
  have h1 := Reaches.turn started notes
    (show (Job.request hs .ready).turn c w
      = ⟨c, w, some (.request hs (.holding c.boundary)), [], []⟩ from rfl)
  have h2 := Reaches.turn started notes
    (show (Job.request hs (.holding c.boundary)).turn c w
      = ⟨c, w, none, [], [.prepared (c.apply none hs).1 (c.apply none hs).2]⟩ from rfl)
  rw [List.append_nil, List.append_nil] at h1
  rw [List.append_nil] at h2
  exact h1.trans h2

theorem reaches_beforeRequest (hs : Http.Headers) {need : Credentials.Need}
    (h : c.need? w.clock = some (need, c')) :
    ∃ l, Quiet l ∧ (first c w (.request hs .entered)).Reaches
      ⟨(c.beforeRequest hs w).credentials, (c.beforeRequest hs w).world, none, begun need,
        opening need ++ l ++ [.prepared (c.beforeRequest hs w).result
          (c.beforeRequest hs w).headers]⟩ := by
  have hn := reaches_need hs h
  rw [Credentials.beforeRequest, h]
  cases need with
  | nothing =>
    refine ⟨[], quiet_nil, hn.trans ?_⟩
    exact reaches_apply hs _ _
  | background =>
    refine ⟨[], quiet_nil, hn.trans ?_⟩
    exact reaches_apply hs _ _
  | refresh =>
    dsimp only
    rcases hr : c'.refresh w with ⟨result, d, v⟩
    obtain ⟨l, hq, hl⟩ := reaches_complete (.request hs) .begun [] [.refreshes] hr
    refine ⟨l, hq, hn.trans (hl.trans ?_)⟩
    cases result with
    | error f =>
      rw [← List.append_assoc]
      exact Reaches.refl _
    | ok u =>
      rw [show Owner.notes (.request hs) (.ok u) = [] from rfl, List.append_nil]
      exact reaches_apply hs _ _

theorem reaches_overflowed (hs : Http.Headers) (h : c.need? w.clock = none) :
    (first c w (.request hs .entered)).Reaches ⟨c, w, none, [], [.overflowed]⟩ := by
  refine (reaches_mode hs).trans ?_
  rw [Credentials.need?] at h
  cases hb : c.nonBlocking with
  | true =>
    rw [if_neg (by rw [hb]; exact Bool.false_ne_true), Option.map_eq_none_iff] at h
    rw [if_pos rfl]
    exact Reaches.turn _ _ (by rw [Job.turn, h])
  | false =>
    rw [if_pos (by rw [hb]; rfl)] at h
    cases h

end Turn

/-! ## in a run -/

theorem getElem?_turned {s : Traffic} {n : Nat} (hn : n < s.jobs.length) (t : Turn) :
    (s.turned n t).jobs[n]? = some t.next := by
  show (s.jobs.set n t.next ++ t.started.map some)[n]? = _
  rw [List.getElem?_append_left (by rw [List.length_set]; exact hn), List.getElem?_set_self hn]

theorem turned_first {s : Traffic} {n : Nat} {j : Job} (hj : s.jobs[n]? = some (some j)) :
    s.turned n (.first s.credentials s.world j) = s := by
  obtain ⟨hn, hj⟩ := List.getElem?_eq_some_iff.1 hj
  have hs : s.jobs.set n (some j) ++ [] = s.jobs := by
    rw [← hj, List.set_getElem_self, List.append_nil]
  show Traffic.mk s.credentials s.world (s.jobs.set n (some j) ++ []) (s.log ++ []) = s
  rw [hs, List.append_nil]

theorem turned_turned {s : Traffic} {n : Nat} (hn : n < s.jobs.length) (t u : Turn) :
    (s.turned n t).turned n u = s.turned n (t.followed u) := by
  have hs : (s.jobs.set n t.next ++ t.started.map some).set n u.next ++ u.started.map some
      = s.jobs.set n u.next ++ (t.started ++ u.started).map some := by
    rw [List.set_append_left _ _ (by rw [List.length_set]; exact hn), List.set_set,
      List.map_append, List.append_assoc]
  have hl : s.log ++ t.notes.map (n, ·) ++ u.notes.map (n, ·)
      = s.log ++ (t.notes ++ u.notes).map (n, ·) := by
    rw [List.map_append, List.append_assoc]
  show Traffic.mk u.credentials u.world _ _ = Traffic.mk u.credentials u.world _ _
  exact congrArg₂ (Traffic.mk u.credentials u.world) hs hl

theorem run_alone {s : Traffic} {n : Nat} {j : Job} (hj : s.jobs[n]? = some (some j)) (k : Nat) :
    s.run (List.replicate k (.proceed n))
      = s.turned n (Turn.again^[k] (.first s.credentials s.world j)) := by
  have hn : n < s.jobs.length := (List.getElem?_eq_some_iff.1 hj).1
  induction k with
  | zero => exact (turned_first hj).symm
  | succ k ih =>
    rw [List.replicate_succ', run_concat, ih, Function.iterate_succ_apply']
    generalize Turn.again^[k] (.first s.credentials s.world j) = t
    have ht := getElem?_turned hn t
    rw [Turn.again]
    cases hx : t.next with
    | none =>
      rw [hx] at ht
      exact step_proceed_of_over fun j' hj' => by rw [ht] at hj'; cases hj'
    | some j' =>
      rw [hx] at ht
      rw [step_proceed ht]
      exact turned_turned hn t _

end Traffic

end Federation
