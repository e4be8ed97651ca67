import Federation.Proofs.Traffic.Turn
import Mathlib.Data.List.Induction

/-!
# Traffic

Any number of tasks share the same credentials, by whatever clones they got at them, and share the
world.  `Traffic.run` is a run of them: calls come in, the tasks take their turns in any order, and
the world changes by itself.  The log keeps what was noted of each turn beside the number of the
task.

* `Traffic.Reached.sound`    what every reachable state keeps to: one refresh is under way in the
                             background while the slot is running, and none otherwise;
* `Traffic.Reached.course_run`, `Traffic.Reached.course`
                             what is noted of a task comes from turns of this task alone.
-/

namespace Federation

structure Traffic where
  credentials : Credentials
  world : World
  /-- what each task does next, unless it is over; the number of a task is its place here -/
  jobs : List (Option Traffic.Job)
  log : List (Nat × Traffic.Note)

namespace Traffic

inductive Move where
  | event (e : World.Event)
  | setNonBlocking
  | refresh
  | beforeRequest (headers : Http.Headers)
  | apply (headers : Http.Headers) (override? : Option String)
  | proceed (number : Nat)

/-- credentials and a world, and nothing under way -/
def start (c : Credentials) (w : World) : Traffic := ⟨c, w, [], []⟩

def launch (s : Traffic) (j : Job) : Traffic := { s with jobs := s.jobs ++ [some j] }

/-- the task with the number `n` has had its turn -/
def turned (s : Traffic) (n : Nat) (t : Turn) : Traffic where
  credentials := t.credentials
  world := t.world
  jobs := s.jobs.set n t.next ++ t.started.map some
  log := s.log ++ t.notes.map (n, ·)

def step (s : Traffic) : Move → Traffic
  | .event e => { s with world := s.world.after e }
  | .setNonBlocking => { s with credentials := { s.credentials with nonBlocking := true } }
  | .refresh => s.launch (.refreshing .caller .begun)
  | .beforeRequest hs => s.launch (.request hs .entered)
  | .apply hs override? => s.launch (.applying hs override?)
  | .proceed n => match s.jobs[n]? with
    | some (some j) => s.turned n (j.turn s.credentials s.world)
    | _ => s

def run (s : Traffic) (ms : List Move) : Traffic := ms.foldl step s

theorem run_concat (s : Traffic) (ms : List Move) (m : Move) :
    s.run (ms ++ [m]) = (s.run ms).step m := by
  simp [run, List.foldl_append]

theorem run_append (s : Traffic) (ms ms' : List Move) :
    s.run (ms ++ ms') = (s.run ms).run ms' := by
  simp [run, List.foldl_append]

theorem run_induction {P : Traffic → Prop} (hP : ∀ s m, P s → P (s.step m)) {s : Traffic}
    (hs : P s) (ms : List Move) : P (s.run ms) := by
  induction ms using List.reverseRecOn with
  | nil => exact hs
  | append_singleton ms m ih =>
    rw [run_concat]
    exact hP _ m ih

theorem step_proceed {s : Traffic} {n : Nat} {j : Job} (hj : s.jobs[n]? = some (some j)) :
    s.step (.proceed n) = s.turned n (j.turn s.credentials s.world) := by
  rw [step, hj]

theorem step_proceed_of_over {s : Traffic} {n : Nat} (hn : ∀ j, s.jobs[n]? ≠ some (some j)) :
    s.step (.proceed n) = s := by
  rw [step]
  split
  · next j hj => exact absurd hj (hn j)
  · rfl

/-! ## what a move adds -/

theorem exists_step (s : Traffic) (m : Move) :
    ∃ (l : List (Nat × Note)) (old : List (Option Job)) (new : List Job),
      (s.step m).log = s.log ++ l ∧ (∀ e ∈ l, e.1 < s.jobs.length) ∧
      (s.step m).jobs = old ++ new.map some ∧ old.length = s.jobs.length ∧ ∀ j ∈ new, j.IsNew := by
  have hnil : ∀ e ∈ ([] : List (Nat × Note)), e.1 < s.jobs.length :=
    fun _ h => absurd h List.not_mem_nil
  have hnone : ∀ j ∈ ([] : List Job), j.IsNew := fun _ h => absurd h List.not_mem_nil
  have hone : ∀ j : Job, j.IsNew → ∀ j' ∈ [j], j'.IsNew :=
    fun j hj j' h => List.mem_singleton.1 h ▸ hj
  have hsame : s.log = s.log ++ [] := (List.append_nil _).symm
  have hstay : s.jobs = s.jobs ++ [] := (List.append_nil _).symm
  cases m with
  | event e => exact ⟨[], s.jobs, [], hsame, hnil, hstay, rfl, hnone⟩
  | setNonBlocking => exact ⟨[], s.jobs, [], hsame, hnil, hstay, rfl, hnone⟩
  | refresh => exact ⟨[], s.jobs, [_], hsame, hnil, rfl, rfl, hone _ trivial⟩
  | beforeRequest headers => exact ⟨[], s.jobs, [_], hsame, hnil, rfl, rfl, hone _ trivial⟩
  | apply headers override? => exact ⟨[], s.jobs, [_], hsame, hnil, rfl, rfl, hone _ trivial⟩
  | proceed n =>
    rw [step]
    split
    · next j hj =>
      refine ⟨_, _, _, rfl, ?_, rfl, List.length_set,
        fun _ h => j.isNew_of_started s.credentials s.world h⟩
      intro e he
      obtain ⟨_, _, rfl⟩ := List.mem_map.1 he
      exact (List.getElem?_eq_some_iff.1 hj).1
    · exact ⟨[], s.jobs, [], hsame, hnil, hstay, rfl, hnone⟩

theorem numbered_step {s : Traffic} (hs : ∀ e ∈ s.log, e.1 < s.jobs.length) (m : Move) :
    ∀ e ∈ (s.step m).log, e.1 < (s.step m).jobs.length := by
  obtain ⟨l, old, new, hl, hlt, hj, hold, _⟩ := s.exists_step m
  rw [hl, hj]
  intro e he
  rw [List.length_append, hold]
  exact Nat.lt_add_right _ ((List.mem_append.1 he).elim (hs e) (hlt e))

/-! ## refreshes in the background -/

/-- how many refreshes are under way in the background -/
def underway (s : Traffic) : Nat := s.jobs.countP (·.any Job.isBackground)

/-- how many of the notes in the log are such notes -/
def noted (s : Traffic) (p : Note → Bool) : Nat := s.log.countP fun e => p e.2

theorem noted_turned (s : Traffic) (n : Nat) (t : Turn) (p : Note → Bool) :
    (s.turned n t).noted p = s.noted p + t.notes.countP p := by
  show List.countP _ (_ ++ _) = _
  rw [List.countP_append, List.countP_map]
  rfl

theorem underway_turned {s : Traffic} {n : Nat} {j : Job} (hj : s.jobs[n]? = some (some j))
    (t : Turn) : (s.turned n t).underway + j.isBackground.toNat
      = s.underway + (t.next.any Job.isBackground).toNat + t.started.countP Job.isBackground := by
  obtain ⟨hn, hj⟩ := List.getElem?_eq_some_iff.1 hj
  have hle : j.isBackground.toNat ≤ s.underway := by
    cases hb : j.isBackground with
    | false => exact Nat.zero_le _
    | true =>
      refine List.countP_pos_iff.2 ⟨_, List.getElem_mem hn, ?_⟩
      rw [hj]
      exact hb
  have hset : (s.turned n t).underway = s.underway - j.isBackground.toNat
      + (t.next.any Job.isBackground).toNat + t.started.countP Job.isBackground := by
    have hs : (t.started.map some).countP (·.any Job.isBackground)
        = t.started.countP Job.isBackground := List.countP_map
    show List.countP _ (_ ++ _) = _
    rw [List.countP_append, List.countP_set hn, hj, hs]
    cases hb : j.isBackground <;> cases t.next.any Job.isBackground <;> simp [underway, hb]
  omega

/-- what every reachable state keeps to -/
structure Sound (s : Traffic) : Prop where
  /-- one refresh is under way in the background while the slot is running, and none otherwise -/
  underway : s.underway = s.credentials.slot.isRunning.toNat
  balance : s.noted Note.isStart
    = s.noted Note.isSettled + s.credentials.slot.isRunning.toNat

namespace Sound

theorem start {c : Credentials} (hc : c.slot ≠ .running) (w : World) : (start c w).Sound := by
  have h : c.slot.isRunning = false := Bool.eq_false_iff.2 (mt (Slot.isRunning_iff _).1 hc)
  refine ⟨?_, ?_⟩
  · show 0 = c.slot.isRunning.toNat
    rw [h, Bool.toNat_false]
  · show 0 = 0 + c.slot.isRunning.toNat
    rw [h, Bool.toNat_false]

variable {s : Traffic}

theorem running (hs : s.Sound) {n : Nat} {j : Job} (hj : s.jobs[n]? = some (some j))
    (hb : j.isBackground = true) : s.credentials.slot = .running := by
  have h1 : 0 < s.underway := List.countP_pos_iff.2 ⟨_, List.mem_of_getElem? hj, hb⟩
  have h2 := s.credentials.slot.isRunning.toNat_le
  rw [hs.underway] at h1
  exact (Slot.isRunning_iff _).1 (Bool.toNat_eq_one.1 (by omega))

theorem launch (hs : s.Sound) {j : Job} (hj : j.isBackground = false) : (s.launch j).Sound where
  underway := by
    have h0 : [some j].countP (·.any Job.isBackground) = 0 :=
      List.countP_cons_of_neg (by rw [Option.any_some, hj]; nofun)
    show List.countP _ (s.jobs ++ [some j]) = _
    rw [List.countP_append, h0]
    exact hs.underway
  balance := hs.balance

theorem turned (hs : s.Sound) {n : Nat} {j : Job} (hj : s.jobs[n]? = some (some j)) :
    (s.turned n (j.turn s.credentials s.world)).Sound := by
  have hslot := j.slot_turn s.credentials s.world fun hb => hs.running hj hb
  have hback := j.background_turn s.credentials s.world
  have hstart := j.started_turn s.credentials s.world
  generalize j.turn s.credentials s.world = t at hslot hback hstart
  refine ⟨?_, ?_⟩
  · have hu := underway_turned hj t
    rw [hs.underway] at hu
    show _ = t.credentials.slot.isRunning.toNat
    omega
  · rw [noted_turned, noted_turned, hs.balance]
    show _ = _ + t.credentials.slot.isRunning.toNat
    omega

theorem step (hs : s.Sound) (m : Move) : (s.step m).Sound := by
  cases m with
  | event e => exact ⟨hs.underway, hs.balance⟩
  | setNonBlocking => exact ⟨hs.underway, hs.balance⟩
  | refresh => exact hs.launch rfl
  | beforeRequest headers => exact hs.launch rfl
  | apply headers override? => exact hs.launch rfl
  | proceed n =>
    rw [Traffic.step]
    split
    · next j hj => exact hs.turned hj
    · exact hs

end Sound

theorem account_step (s : Traffic) (m : Move) :
    (s.step m).credentials.account = s.credentials.account := by
  cases m with
  | proceed n =>
    rw [step]
    split
    · next j hj => exact j.account_turn s.credentials s.world
    · rfl
  | _ => rfl

/-- a state that new credentials of `account` get to -/
def Reached (account : Account) (s : Traffic) : Prop :=
  ∃ boundary nonBlocking w ms, (start (.new account boundary nonBlocking) w).run ms = s

namespace Reached

variable {account : Account} {s : Traffic}

theorem of_run (account : Account) (boundary : Option Boundary) (nonBlocking : Bool) (w : World)
    (ms : List Move) : Reached account ((start (.new account boundary nonBlocking) w).run ms) :=
  ⟨boundary, nonBlocking, w, ms, rfl⟩

theorem run (h : Reached account s) (ms : List Move) : Reached account (s.run ms) := by
  obtain ⟨boundary, nonBlocking, w, ms₀, rfl⟩ := h
  rw [← run_append]
  exact .of_run account boundary nonBlocking w _

/-- what holds of new credentials and survives every move holds of every such state -/
theorem induction {P : Traffic → Prop}
    (hstart : ∀ boundary nonBlocking w, P (start (.new account boundary nonBlocking) w))
    (hP : ∀ s m, P s → P (s.step m)) (h : Reached account s) : P s := by
  obtain ⟨boundary, nonBlocking, w, ms, rfl⟩ := h
  exact run_induction hP (hstart boundary nonBlocking w) ms

theorem sound (h : Reached account s) : s.Sound := by
  refine h.induction (fun boundary nonBlocking w => ?_) fun _ m hs => hs.step m
  have hslot : (Credentials.new account boundary nonBlocking).slot ≠ .running := nofun
  exact Sound.start hslot w

theorem numbered (h : Reached account s) : ∀ e ∈ s.log, e.1 < s.jobs.length := by
  refine Reached.induction (P := fun s => ∀ e ∈ s.log, e.1 < s.jobs.length) ?_ ?_ h
  · exact fun _ _ _ _ he => absurd he List.not_mem_nil
  · exact fun _ m hs => numbered_step hs m

theorem account_eq (h : Reached account s) : s.credentials.account = account :=
  h.induction (fun _ _ _ => rfl) fun s m hs => (s.account_step m).trans hs

end Reached

/-- what new credentials of `account` are in such a state -/
def Became (account : Account) (c : Credentials) : Prop :=
  ∃ s, Reached account s ∧ s.credentials = c

theorem Became.account_eq {account : Account} {c : Credentials} (h : Became account c) :
    c.account = account := by
  obtain ⟨s, hs, rfl⟩ := h
  exact hs.account_eq

/-! ## one task -/

/-- what was noted of the task `n` -/
def ofTask (n : Nat) (l : List (Nat × Note)) : List Note :=
  l.filterMap fun e => if e.1 = n then some e.2 else none

theorem ofTask_append (n : Nat) (l l' : List (Nat × Note)) :
    ofTask n (l ++ l') = ofTask n l ++ ofTask n l' := List.filterMap_append

theorem ofTask_map_self (n : Nat) (notes : List Note) : ofTask n (notes.map (n, ·)) = notes := by
  have h : ((fun e : Nat × Note => if e.1 = n then some e.2 else none) ∘ (n, ·)) = some :=
    funext fun _ => if_pos rfl
  rw [ofTask, List.filterMap_map, h, List.filterMap_some]

theorem ofTask_map_of_ne {k n : Nat} (h : k ≠ n) (notes : List Note) :
    ofTask n (notes.map (k, ·)) = [] := by
  rw [ofTask, List.filterMap_map]
  exact List.filterMap_eq_nil_iff.2 fun _ _ => if_neg h

theorem mem_ofTask {n : Nat} {l : List (Nat × Note)} {note : Note} :
    note ∈ ofTask n l ↔ (n, note) ∈ l := by
  rw [ofTask, List.mem_filterMap]
  constructor
  · rintro ⟨⟨k, note'⟩, he, h⟩
    by_cases hk : k = n
    · rw [if_pos hk] at h
      cases h
      exact hk ▸ he
    · rw [if_neg hk] at h
      cases h
  · exact fun h => ⟨_, h, if_pos rfl⟩

/-- a task gets from `j` to `j'` by its turns, and `notes` is what is noted of them; between its
turns the credentials may become any others with the property `P` -/
inductive Course (P : Credentials → Prop) (j : Option Job) : List Note → Option Job → Prop where
  | refl : Course P j [] j
  | turn {notes : List Note} {j' : Job} {c : Credentials} (w : World)
      (h : Course P j notes (some j')) (hc : P c) :
      Course P j (notes ++ (j'.turn c w).notes) (j'.turn c w).next

theorem ofTask_step {s : Traffic} {n : Nat} {o : Option Job} (ho : s.jobs[n]? = some o) (m : Move) :
    ∃ l, (s.step m).log = s.log ++ l ∧
      ((∃ j, o = some j ∧ m = .proceed n ∧ ofTask n l = (j.turn s.credentials s.world).notes ∧
          (s.step m).jobs[n]? = some (j.turn s.credentials s.world).next) ∨
        (ofTask n l = [] ∧ (s.step m).jobs[n]? = some o)) := by
  have hn : n < s.jobs.length := (List.getElem?_eq_some_iff.1 ho).1
  have happend : ∀ l, (s.jobs ++ l)[n]? = some o := fun l => by
    rw [List.getElem?_append_left hn, ho]
  cases m with
  | event e => exact ⟨[], (List.append_nil _).symm, .inr ⟨rfl, ho⟩⟩
  | setNonBlocking => exact ⟨[], (List.append_nil _).symm, .inr ⟨rfl, ho⟩⟩
  | refresh => exact ⟨[], (List.append_nil _).symm, .inr ⟨rfl, happend _⟩⟩
  | beforeRequest headers => exact ⟨[], (List.append_nil _).symm, .inr ⟨rfl, happend _⟩⟩
  | apply headers override? =>
    exact ⟨[], (List.append_nil _).symm, .inr ⟨rfl, happend _⟩⟩
  | proceed k =>
    by_cases hk : ∃ j, s.jobs[k]? = some (some j)
    · obtain ⟨j, hj⟩ := hk
      rw [step_proceed hj]
      refine ⟨_, rfl, ?_⟩
      have hlen : n < (s.jobs.set k (j.turn s.credentials s.world).next).length := by
        rw [List.length_set]
        exact hn
      by_cases hkn : k = n
      · subst hkn
        rw [ho] at hj
        refine .inl ⟨j, Option.some.inj hj, rfl, ofTask_map_self _ _, ?_⟩
        show (_ ++ _)[k]? = _
        rw [List.getElem?_append_left hlen, List.getElem?_set_self hn]
      · refine .inr ⟨ofTask_map_of_ne hkn _, ?_⟩
        show (_ ++ _)[n]? = _
        rw [List.getElem?_append_left hlen, List.getElem?_set_ne hkn, ho]
    · rw [step_proceed_of_over fun j hj => hk ⟨j, hj⟩]
      exact ⟨[], (List.append_nil _).symm, .inr ⟨rfl, ho⟩⟩

theorem Reached.course_run {account : Account} {s : Traffic} (h : Reached account s) {n : Nat}
    {o : Option Job} (ho : s.jobs[n]? = some o) (ms : List Move) :
    ∃ l o', (s.run ms).log = s.log ++ l ∧ (s.run ms).jobs[n]? = some o' ∧
      Course (Became account) o (ofTask n l) o' := by
  induction ms using List.reverseRecOn with
  | nil => exact ⟨[], o, (List.append_nil _).symm, ho, .refl⟩
  | append_singleton ms m ih =>
    obtain ⟨l, o', hl, ho', hc⟩ := ih
    obtain ⟨l', hl', hstep⟩ := ofTask_step ho' m
    rw [run_concat]
    refine ⟨l ++ l', ?_⟩
    rw [hl', hl, List.append_assoc, ofTask_append]
    rcases hstep with ⟨j, rfl, _, hn, hj⟩ | ⟨hn, hj⟩
    · rw [hn]
      exact ⟨_, rfl, hj, hc.turn _ ⟨_, h.run ms, rfl⟩⟩
    · rw [hn, List.append_nil]
      exact ⟨o', rfl, hj, hc⟩

theorem jobs_step {s : Traffic} {m : Move} {n : Nat} {o : Option Job}
    (ho : (s.step m).jobs[n]? = some o) : s.jobs[n]? = some o ∨
      (∃ j, s.jobs[n]? = some (some j) ∧ m = .proceed n ∧
        o = (j.turn s.credentials s.world).next) ∨
      ∃ j, o = some j ∧ j.IsNew := by
  by_cases hn : n < s.jobs.length
  · have hj := List.getElem?_eq_getElem hn
    obtain ⟨_, _, ⟨j, hj', rfl, _, hnext⟩ | ⟨_, hsame⟩⟩ := ofTask_step hj m
    · rw [hnext] at ho
      rw [hj'] at hj
      exact .inr (.inl ⟨j, hj, rfl, (Option.some.inj ho).symm⟩)
    · exact .inl (hj.trans (hsame.symm.trans ho))
  · obtain ⟨_, old, new, _, _, hj, hold, hnew⟩ := s.exists_step m
    rw [hj, List.getElem?_append_right (by omega), List.getElem?_map] at ho
    obtain ⟨j, hjn, rfl⟩ := Option.map_eq_some_iff.1 ho
    exact .inr (.inr ⟨j, rfl, hnew j (List.mem_of_getElem? hjn)⟩)

theorem log_step {s : Traffic} {m : Move} {n : Nat} {note : Note}
    (h : (n, note) ∈ (s.step m).log) : (n, note) ∈ s.log ∨
      ∃ j, s.jobs[n]? = some (some j) ∧ m = .proceed n ∧
        note ∈ (j.turn s.credentials s.world).notes := by
  cases m with
  | proceed k =>
    by_cases hk : ∃ j, s.jobs[k]? = some (some j)
    · obtain ⟨j, hj⟩ := hk
      rw [step_proceed hj] at h
      rcases List.mem_append.1 h with h | h
      · exact .inl h
      · obtain ⟨_, hn, he⟩ := List.mem_map.1 h
        cases he
        exact .inr ⟨j, hj, rfl, hn⟩
    · rw [step_proceed_of_over fun j hj => hk ⟨j, hj⟩] at h
      exact .inl h
  | _ => exact .inl h

theorem ofTask_eq_nil {n : Nat} {l : List (Nat × Note)} (h : ∀ e ∈ l, e.1 < n) :
    ofTask n l = [] :=
  List.filterMap_eq_nil_iff.2 fun e he => if_neg (Nat.ne_of_lt (h e he))

/-- all that is noted of a task comes from its turns, from the first on -/
theorem Reached.course {account : Account} {s : Traffic} (h : Reached account s) {n : Nat}
    {o : Option Job} (ho : s.jobs[n]? = some o) :
    ∃ j, j.IsNew ∧ Course (Became account) (some j) (ofTask n s.log) o := by
  obtain ⟨boundary, nonBlocking, w, ms, rfl⟩ := h
  induction ms using List.reverseRecOn generalizing o with
  | nil => cases ho
  | append_singleton ms m ih =>
    rw [run_concat] at ho ⊢
    have hr := Reached.of_run account boundary nonBlocking w ms
    generalize (start (.new account boundary nonBlocking) w).run ms = s at ho ih hr
    by_cases hn : n < s.jobs.length
    · obtain ⟨o₀, ho₀⟩ : ∃ o₀, s.jobs[n]? = some o₀ := ⟨_, List.getElem?_eq_getElem hn⟩
      obtain ⟨j, hjn, hcourse⟩ := ih ho₀
      obtain ⟨l, hl, ⟨j', rfl, _, hnotes, hnext⟩ | ⟨hnotes, hsame⟩⟩ := ofTask_step ho₀ m
      · rw [hnext] at ho
        obtain rfl := Option.some.inj ho
        rw [hl, ofTask_append, hnotes]
        exact ⟨j, hjn, hcourse.turn _ ⟨s, hr, rfl⟩⟩
      · rw [hsame] at ho
        obtain rfl := Option.some.inj ho
        rw [hl, ofTask_append, hnotes, List.append_nil]
        exact ⟨j, hjn, hcourse⟩
    ·
      obtain ⟨l, _, _, hl, hlt, _⟩ := s.exists_step m
      have hnone := List.getElem?_eq_none (Nat.not_lt.1 hn)
      obtain ⟨j, rfl, hj⟩ : ∃ j, o = some j ∧ j.IsNew := by
        rcases jobs_step ho with h | ⟨_, h, _⟩ | h
        · cases hnone.symm.trans h
        · cases hnone.symm.trans h
        · exact h
      have hnil : ofTask n (s.step m).log = [] := by
        refine ofTask_eq_nil fun e he => ?_
        rw [hl, List.mem_append] at he
        have := he.elim (hr.numbered e) (hlt e)
        omega
      rw [hnil]
      exact ⟨j, hj, .refl⟩

end Traffic

end Federation
