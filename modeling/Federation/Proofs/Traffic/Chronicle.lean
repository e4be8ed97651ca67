import Federation.Proofs.Traffic.Basic

/-!
# The chronicle of a run

The log says what came of the turns.  The chronicle of a run keeps the turns themselves: which task
took each, and what it found.  So a state can be compared with what was found before, and the turns
of one task follow from one another whatever happens between them.

* `Traffic.chronicle_induction`   what holds of a run and its chronicle follows turn by turn;
* `Traffic.thread_run`            the turns of one task;
* `Traffic.log_run`, `Traffic.mem_log_run_iff`
                                  the log is what was noted of the turns;
* `Traffic.exists_of_chronicle`   a run may be stopped before any of its turns.
-/

namespace Federation

namespace Traffic

/-- a turn of the task `number`, which does `job`, and what it finds -/
structure Moment where
  number : Nat
  job : Job
  credentials : Credentials
  world : World

def Moment.turn (m : Moment) : Turn := m.job.turn m.credentials m.world

def moment? (s : Traffic) : Move → Option Moment
  | .proceed n => match s.jobs[n]? with
    | some (some j) => some ⟨n, j, s.credentials, s.world⟩
    | _ => none
  | _ => none

/-- the turns that are taken in a run, in their order -/
def chronicle (s : Traffic) : List Move → List Moment
  | [] => []
  | m :: ms => (s.moment? m).toList ++ (s.step m).chronicle ms

theorem chronicle_nil (s : Traffic) : s.chronicle [] = [] := rfl

theorem chronicle_append (s : Traffic) (ms ms' : List Move) :
    s.chronicle (ms ++ ms') = s.chronicle ms ++ (s.run ms).chronicle ms' := by
  induction ms generalizing s with
  | nil => rfl
  | cons m ms ih =>
    rw [List.cons_append, chronicle, ih, chronicle, List.append_assoc]
    rfl

theorem chronicle_concat (s : Traffic) (ms : List Move) (m : Move) :
    s.chronicle (ms ++ [m]) = s.chronicle ms ++ ((s.run ms).moment? m).toList := by
  rw [chronicle_append, chronicle, chronicle_nil, List.append_nil]

section
variable {s : Traffic} {m : Move}

theorem moment?_eq_some_iff {t : Moment} : s.moment? m = some t ↔
    m = .proceed t.number ∧ s.jobs[t.number]? = some (some t.job) ∧
      t.credentials = s.credentials ∧ t.world = s.world := by
  constructor
  · intro h
    cases m with
    | proceed n =>
      rw [moment?] at h
      split at h
      · next j hj =>
        cases h
        exact ⟨rfl, hj, rfl, rfl⟩
      · cases h
    | _ => cases h
  · rintro ⟨rfl, hj, hc, hw⟩
    rw [moment?, hj, ← hc, ← hw]

theorem moment?_proceed {n : Nat} {j : Job} (hj : s.jobs[n]? = some (some j)) :
    s.moment? (.proceed n) = some ⟨n, j, s.credentials, s.world⟩ :=
  moment?_eq_some_iff.2 ⟨rfl, hj, rfl, rfl⟩

/-- a move that is no turn of a task changes nothing but the world and the mode, and starts tasks -/
structure Quiet (s s' : Traffic) : Prop where
  account : s'.credentials.account = s.credentials.account
  token : s'.credentials.token = s.credentials.token
  boundary : s'.credentials.boundary = s.credentials.boundary
  log : s'.log = s.log
  jobs : ∃ new : List Job, s'.jobs = s.jobs ++ new.map some ∧ ∀ j ∈ new, j.IsNew

theorem quiet_step (h : s.moment? m = none) : Quiet s (s.step m) := by
  have hnone : ∃ new : List Job, s.jobs = s.jobs ++ new.map some ∧ ∀ j ∈ new, j.IsNew :=
    ⟨[], (List.append_nil _).symm, fun _ h => absurd h List.not_mem_nil⟩
  have hone : ∀ j : Job, j.IsNew → ∃ new : List Job,
      s.jobs ++ [some j] = s.jobs ++ new.map some ∧ ∀ j ∈ new, j.IsNew :=
    fun j hj => ⟨[j], rfl, fun j' h => List.mem_singleton.1 h ▸ hj⟩
  cases m with
  | event e => exact ⟨rfl, rfl, rfl, rfl, hnone⟩
  | setNonBlocking => exact ⟨rfl, rfl, rfl, rfl, hnone⟩
  | refresh => exact ⟨rfl, rfl, rfl, rfl, hone _ trivial⟩
  | beforeRequest headers => exact ⟨rfl, rfl, rfl, rfl, hone _ trivial⟩
  | apply headers override? => exact ⟨rfl, rfl, rfl, rfl, hone _ trivial⟩
  | proceed n =>
    have hover : ∀ j, s.jobs[n]? ≠ some (some j) := by
      intro j hj
      rw [moment?_proceed hj] at h
      cases h
    rw [step_proceed_of_over hover]
    exact ⟨rfl, rfl, rfl, rfl, hnone⟩

end

/-- what holds at first, and survives every turn and every other move, holds of a run and its
chronicle -/
theorem chronicle_induction {P : List Moment → Traffic → Prop} {s : Traffic} (hs : P [] s)
    (hquiet : ∀ l s m, P l s → Quiet s (s.step m) → P l (s.step m))
    (hturn : ∀ l s (t : Moment), P l s → s.jobs[t.number]? = some (some t.job) →
      t.credentials = s.credentials → t.world = s.world →
      P (l ++ [t]) (s.turned t.number t.turn)) (ms : List Move) :
    P (s.chronicle ms) (s.run ms) := by
  -- from the end of the run: its last turn comes after all the others
  induction ms using List.reverseRecOn with
  | nil => exact hs
  | append_singleton ms m ih =>
    rw [run_concat, chronicle_concat]
    cases hm : (s.run ms).moment? m with
    | none =>
      rw [Option.toList_none, List.append_nil]
      exact hquiet _ _ m ih (quiet_step hm)
    | some t =>
      obtain ⟨rfl, hj, hc, hw⟩ := moment?_eq_some_iff.1 hm
      rw [Option.toList_some, step_proceed hj, ← hc, ← hw]
      exact hturn _ _ t ih hj hc hw

/-! ## one task -/

/-- the turns of the task `n` -/
def turnsOf (n : Nat) (l : List Moment) : List Moment := l.filter (·.number = n)

theorem turnsOf_append (n : Nat) (l l' : List Moment) :
    turnsOf n (l ++ l') = turnsOf n l ++ turnsOf n l' := List.filter_append ..

theorem turnsOf_self (t : Moment) : turnsOf t.number [t] = [t] :=
  List.filter_cons_of_pos (decide_eq_true rfl)

theorem turnsOf_of_ne {n : Nat} {t : Moment} (h : t.number ≠ n) : turnsOf n [t] = [] :=
  List.filter_cons_of_neg (mt of_decide_eq_true h)

/-- the turns of a task follow from one another, and this is what it does next -/
inductive Thread : List Moment → Option Job → Prop where
  | new {j : Job} (h : j.IsNew) : Thread [] (some j)
  | turn {l : List Moment} {t : Moment} (h : Thread l (some t.job)) :
      Thread (l ++ [t]) t.turn.next

/-- these are the turns that have brought the tasks to where they are -/
structure Threaded (l : List Moment) (jobs : List (Option Job)) : Prop where
  thread : ∀ n o, jobs[n]? = some o → Thread (turnsOf n l) o
  number : ∀ t ∈ l, t.number < jobs.length

namespace Threaded

variable {l : List Moment} {jobs : List (Option Job)}

theorem turnsOf_eq_nil (h : Threaded l jobs) {n : Nat} (hn : jobs.length ≤ n) :
    turnsOf n l = [] := by
  refine List.filter_eq_nil_iff.2 fun t ht he => ?_
  have hlt := h.number t ht
  rw [of_decide_eq_true he] at hlt
  omega

theorem append (h : Threaded l jobs) {new : List Job} (hnew : ∀ j ∈ new, j.IsNew) :
    Threaded l (jobs ++ new.map some) where
  thread := by
    intro n o ho
    by_cases hn : n < jobs.length
    · rw [List.getElem?_append_left hn] at ho
      exact h.thread n o ho
    · rw [List.getElem?_append_right (Nat.not_lt.1 hn), List.getElem?_map] at ho
      obtain ⟨j, hj, rfl⟩ := Option.map_eq_some_iff.1 ho
      rw [h.turnsOf_eq_nil (Nat.not_lt.1 hn)]
      exact .new (hnew j (List.mem_of_getElem? hj))
  number := by
    intro t ht
    rw [List.length_append]
    exact Nat.lt_add_right _ (h.number t ht)

theorem turned (h : Threaded l jobs) {t : Moment} (hj : jobs[t.number]? = some (some t.job)) :
    Threaded (l ++ [t]) (jobs.set t.number t.turn.next) where
  thread := by
    intro n o ho
    rw [turnsOf_append]
    by_cases he : t.number = n
    · subst he
      rw [List.getElem?_set_self (List.getElem?_eq_some_iff.1 hj).1] at ho
      rw [turnsOf_self, ← Option.some.inj ho]
      exact .turn (h.thread _ _ hj)
    · rw [List.getElem?_set_ne he] at ho
      rw [turnsOf_of_ne he, List.append_nil]
      exact h.thread n o ho
  number := by
    intro t' ht
    rw [List.length_set]
    rcases List.mem_append.1 ht with ht | ht
    · exact h.number t' ht
    · rw [List.mem_singleton.1 ht]
      exact (List.getElem?_eq_some_iff.1 hj).1

end Threaded

theorem thread_run (c : Credentials) (w : World) (ms : List Move) {n : Nat} {o : Option Job}
    (ho : ((start c w).run ms).jobs[n]? = some o) :
    Thread (turnsOf n ((start c w).chronicle ms)) o := by
  refine (chronicle_induction (P := fun l s => Threaded l s.jobs) ?_ ?_ ?_ ms).thread n o ho
  · exact ⟨fun _ _ ho => (nomatch ho), fun _ ht => absurd ht List.not_mem_nil⟩
  · rintro l s m h ⟨_, _, _, _, new, hjobs, hnew⟩
    rw [hjobs]
    exact h.append hnew
  · intro l s t h hj _ _
    exact (h.turned hj).append fun j hn => t.job.isNew_of_started t.credentials t.world hn

/-! ## the log -/

theorem log_run (s : Traffic) (ms : List Move) : (s.run ms).log
    = s.log ++ (s.chronicle ms).flatMap fun t => t.turn.notes.map (t.number, ·) := by
  refine chronicle_induction (P := fun l s' => s'.log
    = s.log ++ l.flatMap fun t => t.turn.notes.map (t.number, ·)) ?_ ?_ ?_ ms
  · exact (List.append_nil _).symm
  · intro l s' m h hq
    exact hq.log.trans h
  · intro l s' t h _ _ _
    rw [List.flatMap_append, List.flatMap_singleton, ← List.append_assoc, ← h]
    rfl

theorem mem_log_run_iff {c : Credentials} {w : World} {ms : List Move} {n : Nat} {note : Note} :
    (n, note) ∈ ((start c w).run ms).log ↔
      ∃ t ∈ (start c w).chronicle ms, t.number = n ∧ note ∈ t.turn.notes := by
  rw [log_run]
  constructor
  · intro hn
    obtain ⟨t, ht, hn⟩ := List.mem_flatMap.1 hn
    obtain ⟨_, hnote, he⟩ := List.mem_map.1 hn
    cases he
    exact ⟨t, ht, rfl, hnote⟩
  · rintro ⟨t, ht, rfl, hnote⟩
    exact List.mem_flatMap.2 ⟨t, ht, List.mem_map_of_mem hnote⟩

theorem ofTask_flatMap (n : Nat) (l : List Moment) :
    ofTask n (l.flatMap fun t => t.turn.notes.map (t.number, ·))
      = (turnsOf n l).flatMap fun t => t.turn.notes := by
  induction l with
  | nil => rfl
  | cons t l ih =>
    have hcons : turnsOf n (t :: l) = turnsOf n [t] ++ turnsOf n l := turnsOf_append n [t] l
    rw [List.flatMap_cons, ofTask_append, ih, hcons, List.flatMap_append]
    congr 1
    by_cases he : t.number = n
    · subst he
      rw [ofTask_map_self, turnsOf_self, List.flatMap_singleton]
    · rw [ofTask_map_of_ne he, turnsOf_of_ne he]
      rfl

theorem ofTask_run (c : Credentials) (w : World) (ms : List Move) (n : Nat) :
    ofTask n ((start c w).run ms).log
      = (turnsOf n ((start c w).chronicle ms)).flatMap fun t => t.turn.notes := by
  rw [log_run, ← ofTask_flatMap]
  rfl

/-! ## what is taken from the turns -/

theorem filterMap_concat {α β : Type} (f : α → Option β) (l : List α) (a : α) :
    (l ++ [a]).filterMap f = l.filterMap f ++ (f a).toList := by
  rw [List.filterMap_append]
  cases h : f a with
  | none => rw [List.filterMap_cons_none h, List.filterMap_nil, Option.toList_none]
  | some b => rw [List.filterMap_cons_some h, List.filterMap_nil, Option.toList_some]

theorem getLast?_filterMap_concat {α β : Type} (f : α → Option β) (l : List α) (a : α) :
    ((l ++ [a]).filterMap f).getLast? = (f a).or (l.filterMap f).getLast? := by
  rw [filterMap_concat, List.getLast?_append]
  cases f a <;> rfl

/-! ## before a turn and after it -/

theorem exists_of_chronicle {s : Traffic} {ms : List Move} {front back : List Moment} {t : Moment}
    (h : s.chronicle ms = front ++ t :: back) :
    ∃ ms₁ ms₂, s.chronicle ms₁ = front ∧ (s.run ms₁).moment? (.proceed t.number) = some t ∧
      ((s.run ms₁).turned t.number t.turn).chronicle ms₂ = back ∧
      s.run ms = ((s.run ms₁).turned t.number t.turn).run ms₂ := by
  induction ms generalizing s front with
  | nil => exact absurd h.symm (List.append_ne_nil_of_right_ne_nil _ (List.cons_ne_nil _ _))
  | cons m ms ih =>
    rw [chronicle] at h
    cases hm : s.moment? m with
    | none =>
      rw [hm] at h
      obtain ⟨ms₁, ms₂, hfront, hrest⟩ := ih h
      refine ⟨m :: ms₁, ms₂, ?_, hrest⟩
      rw [chronicle, hm, hfront]
      rfl
    | some t' =>
      rw [hm] at h
      cases front with
      | nil =>
        obtain ⟨rfl, hback⟩ := List.cons.inj h
        obtain ⟨rfl, hj, hc, hw⟩ := moment?_eq_some_iff.1 hm
        have hstep : s.step (.proceed t'.number) = s.turned t'.number t'.turn := by
          rw [step_proceed hj, ← hc, ← hw]
          rfl
        rw [hstep] at hback
        refine ⟨[], ms, rfl, hm, hback, ?_⟩
        show (s.step _).run ms = _
        rw [hstep]
        rfl
      | cons t'' front =>
        obtain ⟨rfl, hback⟩ := List.cons.inj h
        obtain ⟨ms₁, ms₂, hfront, hrest⟩ := ih hback
        refine ⟨m :: ms₁, ms₂, ?_, hrest⟩
        rw [chronicle, hm, hfront]
        rfl

/-- what a turn of a run finds is a state that the run gets to -/
theorem exists_run_of_mem_chronicle {s : Traffic} {ms : List Move} {t : Moment}
    (ht : t ∈ s.chronicle ms) : ∃ ms₁ ms₂, s.run ms = (s.run ms₁).run ms₂ ∧
      t.credentials = (s.run ms₁).credentials ∧ t.world = (s.run ms₁).world := by
  obtain ⟨front, back, hl⟩ := List.append_of_mem ht
  obtain ⟨ms₁, ms₂, _, hm, _, hrun⟩ := exists_of_chronicle hl
  obtain ⟨_, hj, hc, hw⟩ := moment?_eq_some_iff.1 hm
  refine ⟨ms₁, .proceed t.number :: ms₂, ?_, hc, hw⟩
  show s.run ms = ((s.run ms₁).step (.proceed t.number)).run ms₂
  rw [step_proceed hj, ← hc, ← hw]
  exact hrun

end Traffic

end Federation
