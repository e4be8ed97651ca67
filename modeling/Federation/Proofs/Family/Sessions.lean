import Federation.Credentials.Session
import Federation.Proofs.Family.Basic
import Federation.Proofs.Traffic.Alone

/-!
# Sessions as families

The steps of a session run at once what the tasks of a family do in turns.  Each step is therefore a
run of a family that mirrors the session, with the same credentials in the same places.

* `Family.run_of_reaches`   the turns of a task that nothing comes between;
* `Family.exists_runWaiting`  all refreshes that wait in the background;
* `Family.exists_follows`   a family for every session.
-/

namespace Federation

open Traffic (Job Turn)

namespace Family

/-! ## moves at some places -/

/-- the moves work on credentials at places with the property `P` -/
def Within (P : Nat → Prop) : Family → List Move → Prop
  | _, [] => True
  | f, m :: ms => (∀ place ∈ m.place? f, P place) ∧ Within P (f.step m) ms

variable {P : Nat → Prop}

theorem Within.mono {Q : Nat → Prop} (hPQ : ∀ place, P place → Q place) {ms : List Move} :
    ∀ {f : Family}, Within P f ms → Within Q f ms := by
  induction ms with
  | nil => exact fun _ => trivial
  | cons m ms ih => exact fun h => ⟨fun place hp => hPQ place (h.1 place hp), ih h.2⟩

theorem Within.append {ms ms' : List Move} : ∀ {f : Family}, Within P f ms →
    Within P (f.run ms) ms' → Within P f (ms ++ ms') := by
  induction ms with
  | nil => exact fun _ h => h
  | cons m ms ih => exact fun h h' => ⟨h.1, ih h.2 h'⟩

theorem Within.getElem?_made {ms : List Move} : ∀ {f : Family}, Within P f ms →
    ∀ {place : Nat}, place < f.made.length → ¬P place →
      (f.run ms).made[place]? = f.made[place]? := by
  induction ms with
  | nil => exact fun _ _ _ _ => rfl
  | cons m ms ih =>
    intro f h place hp hno
    have hstep := getElem?_made_step hp fun hm => hno (h.1 place hm)
    exact (ih h.2 (Nat.lt_of_lt_of_le hp (f.length_made_le m)) hno).trans hstep

theorem exists_task_step {f : Family} {n place : Nat} {o : Option Job}
    (hn : f.tasks[n]? = some (place, o)) (m : Move) :
    ∃ o', (f.step m).tasks[n]? = some (place, o') := by
  have hlt := (List.getElem?_eq_some_iff.1 hn).1
  have hd := f.does_step m
  generalize f.step m = f' at hd
  cases hd with
  | launched => exact ⟨o, (List.getElem?_append_left hlt).trans hn⟩
  | @turned k place' c j hk hc =>
    have hold : ∀ t started, (f.tasks.set k t ++ started)[n]? = (f.tasks.set k t)[n]? :=
      fun t _ => List.getElem?_append_left (by rw [List.length_set]; exact hlt)
    by_cases he : k = n
    · subst he
      obtain ⟨rfl, _⟩ := Prod.mk.inj (Option.some.inj (hk.symm.trans hn))
      exact ⟨_, (hold _ _).trans (List.getElem?_set_self hlt)⟩
    · exact ⟨o, (hold _ _).trans ((List.getElem?_set_ne he).trans hn)⟩
  | _ => exact ⟨o, hn⟩

theorem within_replicate {n place : Nat} (k : Nat) : ∀ {f : Family} {o : Option Job},
    f.tasks[n]? = some (place, o) → Within (· = place) f (List.replicate k (.proceed n)) := by
  induction k with
  | zero => exact fun _ => trivial
  | succ k ih =>
    intro f o hn
    obtain ⟨o', hn'⟩ := exists_task_step hn (.proceed n)
    refine ⟨fun place' hp => ?_, ih hn'⟩
    rw [Move.place?, hn] at hp
    exact (Option.some.inj hp).symm

/-! ## a task that nothing comes between -/

theorem turned_first {f : Family} {n place : Nat} {j : Job} {c : Credentials}
    (hn : f.tasks[n]? = some (place, some j)) (hc : f.made[place]? = some c) :
    f.turned n place (.first c f.world j) [] = f := by
  obtain ⟨hlt, hn⟩ := List.getElem?_eq_some_iff.1 hn
  obtain ⟨hlt', hc⟩ := List.getElem?_eq_some_iff.1 hc
  have ht : f.tasks.set n (place, some j) ++ [] = f.tasks := by
    rw [← hn, List.set_getElem_self, List.append_nil]
  have hm : f.made.set place c = f.made := by
    rw [← hc, List.set_getElem_self]
  show Family.mk f.world (f.made.set place c) f.handles (f.tasks.set n (place, some j) ++ [])
    (f.log ++ []) = f
  rw [ht, hm, List.append_nil]

theorem turned_turned {f : Family} {n place : Nat} (hn : n < f.tasks.length) (t u : Turn)
    (l l' : List Sent) : (f.turned n place t l).turned n place u l'
      = f.turned n place (t.followed u) (l ++ l') := by
  have ht : (f.tasks.set n (place, t.next) ++ t.started.map fun j => (place, some j)).set n
        (place, u.next) ++ (u.started.map fun j => (place, some j))
      = f.tasks.set n (place, u.next) ++
        ((t.started ++ u.started).map fun j => (place, some j)) := by
    rw [List.set_append_left _ _ (by rw [List.length_set]; exact hn), List.set_set,
      List.map_append, List.append_assoc]
  have hm : (f.made.set place t.credentials).set place u.credentials
      = f.made.set place u.credentials := List.set_set ..
  have hl : f.log ++ l.map (place, ·) ++ l'.map (place, ·) = f.log ++ (l ++ l').map (place, ·) := by
    rw [List.map_append, List.append_assoc]
  simp only [turned, Turn.followed, ht, hm, hl]

theorem run_alone {f : Family} {n place : Nat} {j : Job} {c : Credentials}
    (hn : f.tasks[n]? = some (place, some j)) (hc : f.made[place]? = some c) (k : Nat) :
    ∃ l, f.run (List.replicate k (.proceed n))
      = f.turned n place (Turn.again^[k] (.first c f.world j)) l := by
  have hlt := (List.getElem?_eq_some_iff.1 hn).1
  have hlt' := (List.getElem?_eq_some_iff.1 hc).1
  induction k with
  | zero => exact ⟨[], (turned_first hn hc).symm⟩
  | succ k ih =>
    obtain ⟨l, ih⟩ := ih
    rw [List.replicate_succ', run_concat, ih, Function.iterate_succ_apply']
    generalize Turn.again^[k] (.first c f.world j) = t
    have ht : (f.turned n place t l).tasks[n]? = some (place, t.next) := by
      show (f.tasks.set n (place, t.next) ++ _)[n]? = _
      rw [List.getElem?_append_left (by rw [List.length_set]; exact hlt),
        List.getElem?_set_self hlt]
    have hm : (f.turned n place t l).made[place]? = some t.credentials :=
      List.getElem?_set_self hlt'
    rw [Turn.again]
    cases hx : t.next with
    | none =>
      rw [hx] at ht
      refine ⟨l, ?_⟩
      simp only [step, ht]
    | some j' =>
      rw [hx] at ht
      refine ⟨l ++ j'.sends t.credentials t.world, ?_⟩
      dsimp only
      rw [← turned_turned hlt]
      simp only [step, ht, hm]
      rfl

theorem run_of_reaches {f : Family} {n place : Nat} {j : Job} {c : Credentials}
    (hn : f.tasks[n]? = some (place, some j)) (hc : f.made[place]? = some c) {u : Turn}
    (h : (Turn.first c f.world j).Reaches u) :
    ∃ ms l, f.run ms = f.turned n place u l ∧ Within (· = place) f ms := by
  obtain ⟨k, rfl⟩ := h
  obtain ⟨l, hl⟩ := run_alone hn hc k
  exact ⟨_, l, hl, within_replicate k hn⟩

/-! ## tasks that are not over -/

def pending (f : Family) : List (Nat × Job) := f.tasks.filterMap fun t => t.2.map (t.1, ·)

/-- the moves `ms` take a task for the credentials at a place to its end, which is `u` -/
structure Finishes (f : Family) (place : Nat) (u : Turn) (ms : List Move) : Prop where
  world : (f.run ms).world = u.world
  made : (f.run ms).made = f.made.set place u.credentials
  handles : (f.run ms).handles = f.handles
  within : Within (· = place) f ms

theorem pending_started (place : Nat) (started : List Job) :
    (started.map fun j => (place, some j)).filterMap (fun t : Nat × Option Job => t.2.map (t.1, ·))
      = started.map (place, ·) := by
  rw [List.filterMap_map]
  exact congrFun List.filterMap_eq_map started

theorem exists_call {f : Family} {h place : Nat} {call : Call} {c : Credentials} {j : Job}
    (hh : f.handles[h]? = some place) (hc : f.made[place]? = some c)
    (hcall : f.called place c call = f.launch place j) {u : Turn}
    (hu : (Turn.first c f.world j).Reaches u) (hover : u.next = none) :
    ∃ ms, Finishes f place u ms ∧
      (f.run ms).pending = f.pending ++ u.started.map (place, ·) := by
  have hlaunch : f.step (.call h call) = f.launch place j := by
    simp only [step, hh, hc, hcall]
  have hn : (f.launch place j).tasks[f.tasks.length]? = some (place, some j) :=
    List.getElem?_concat_length
  obtain ⟨ms, l, hrun, hwithin⟩ := run_of_reaches hn (c := c) hc hu
  refine ⟨.call h call :: ms, ?_⟩
  have hms : f.run (.call h call :: ms) = (f.launch place j).turned f.tasks.length place u l := by
    rw [← hrun, ← hlaunch]
    rfl
  have hall : Within (· = place) f (.call h call :: ms) := by
    refine ⟨fun place' hp => Option.some.inj (hp.symm.trans hh), ?_⟩
    rw [hlaunch]
    exact hwithin
  refine ⟨⟨?_, ?_, ?_, hall⟩, ?_⟩
  all_goals rw [hms]
  · rfl
  · rfl
  · rfl
  show List.filterMap _ ((f.tasks ++ [(place, some j)]).set f.tasks.length _ ++ _) = _
  have hset : (f.tasks ++ [(place, some j)]).set f.tasks.length (place, u.next)
      = f.tasks ++ [(place, u.next)] := by
    rw [List.set_append_right _ _ (Nat.le_refl _), Nat.sub_self]
    rfl
  rw [hset, List.filterMap_append, List.filterMap_append, pending_started, hover]
  simp [pending]

theorem exists_finish {f : Family} {place : Nat} {j : Job} {rest : List (Nat × Job)}
    (hp : f.pending = (place, j) :: rest) {c : Credentials} (hc : f.made[place]? = some c)
    {u : Turn} (hu : (Turn.first c f.world j).Reaches u) (hover : u.next = none)
    (hstarted : u.started = []) :
    ∃ ms, Finishes f place u ms ∧ (f.run ms).pending = rest := by
  obtain ⟨l₁, t, l₂, htasks, hnone, ht, hrest⟩ := List.filterMap_eq_cons_iff.1 hp
  obtain ⟨j', hj', he⟩ := Option.map_eq_some_iff.1 ht
  obtain ⟨rfl, rfl⟩ := Prod.mk.inj he
  have hn : f.tasks[l₁.length]? = some (t.1, some j') := by
    rw [htasks, List.getElem?_append_right (Nat.le_refl _), Nat.sub_self, ← hj']
    rfl
  obtain ⟨ms, l, hrun, hwithin⟩ := run_of_reaches hn hc hu
  refine ⟨ms, ⟨?_, ?_, ?_, hwithin⟩, ?_⟩
  all_goals rw [hrun]
  · rfl
  · rfl
  · rfl
  show List.filterMap _ (f.tasks.set l₁.length _ ++ _) = _
  have hset : f.tasks.set l₁.length (t.1, u.next) = l₁ ++ (t.1, u.next) :: l₂ := by
    rw [htasks, List.set_append_right _ _ (Nat.le_refl _), Nat.sub_self]
    rfl
  have hfirst : l₁.filterMap (fun t => t.2.map (t.1, ·)) = [] :=
    List.filterMap_eq_nil_iff.2 hnone
  rw [hset, hstarted, hover]
  simp [hfirst, hrest]

end Family

/-! ## sessions -/

def Session.after (s : Session) (l : List (String × Option String × Session.Step)) : Session :=
  l.foldl (fun s e => (s.run e.1 e.2.1 e.2.2).2) s

/-- a step works on the credentials at its own place, but who waits waits for all -/
def Session.Touches (s : Session) (place : Nat) : Session.Step → Nat → Prop
  | .wait => (· ∈ s.waiting)
  | _ => (· = place)

namespace Family

/-- the family is in the same state as the session -/
structure Mirrors (f : Family) (s : Session) : Prop where
  world : f.world = s.world
  made : f.made = s.made
  names : ∀ e ∈ s.names, e.2 ∈ f.handles
  waiting : f.pending = s.waiting.map (·, .refreshing .background .begun)

theorem Bounded.run {f : Family} (hb : f.Bounded) (ms : List Move) : (f.run ms).Bounded :=
  run_induction (fun _ m hs => hs.step m) hb ms

theorem Bounded.lt_of_pending {f : Family} (hb : f.Bounded) {place : Nat} {j : Job}
    (hp : (place, j) ∈ f.pending) : place < f.made.length := by
  obtain ⟨t, ht, he⟩ := List.mem_filterMap.1 hp
  obtain ⟨j', _, he⟩ := Option.map_eq_some_iff.1 he
  cases he
  exact hb.tasks t ht

theorem exists_runWaiting (waiting : List Nat) : ∀ {f : Family} {s : Session}, f.Bounded →
    f.world = s.world → f.made = s.made →
    f.pending = waiting.map (·, .refreshing .background .begun) →
    ∃ ms, (f.run ms).world = (waiting.foldl Session.runOne s).world ∧
      (f.run ms).made = (waiting.foldl Session.runOne s).made ∧
      (f.run ms).handles = f.handles ∧ (f.run ms).pending = [] ∧
      (waiting.foldl Session.runOne s).names = s.names ∧ Within (· ∈ waiting) f ms := by
  -- the tasks that are not over are those that still wait, so that the first of them is the next
  induction waiting with
  | nil => exact fun _ hw hm hp => ⟨[], hw, hm, rfl, hp, rfl, trivial⟩
  | cons place waiting ih =>
    intro f s hb hw hm hp
    have hmem : (place, .refreshing .background .begun) ∈ f.pending := by
      rw [hp]
      exact List.mem_cons_self
    have hlt := hb.lt_of_pending hmem
    have hc := List.getElem?_eq_getElem hlt
    generalize f.made[place] = c at hc
    obtain ⟨l, _, hreach⟩ := Turn.reaches_runBackground c f.world
    obtain ⟨ms, ⟨hw', hm', hh', hin⟩, hp'⟩ := exists_finish hp hc hreach rfl rfl
    have hone : s.runOne place = { s.put place (c.runBackground s.world).1 with
        world := (c.runBackground s.world).2 } := by
      rw [Session.runOne, ← hm, hc]
    rw [hw] at hw' hm'
    obtain ⟨ms', hw'', hm'', hh'', hp'', hn'', hin'⟩ := ih (s := s.runOne place) (hb.run ms)
      (by rw [hone, hw']) (by rw [hone, hm', hm]; rfl) hp'
    refine ⟨ms ++ ms', ?_⟩
    rw [run_append, List.foldl_cons]
    have hall : Within (· ∈ place :: waiting) f (ms ++ ms') :=
      (hin.mono fun _ he => he ▸ List.mem_cons_self).append
        (hin'.mono fun _ he => List.mem_cons_of_mem _ he)
    refine ⟨hw'', hm'', hh''.trans hh', hp'', hn''.trans ?_, hall⟩
    rw [hone]
    rfl

variable {f : Family} {s : Session}

theorem Mirrors.task (h : f.Mirrors s) (call : Call) (started : Bool) {place : Nat}
    (hp : place ∈ f.handles) {c : Credentials} (hc : s.made[place]? = some c) {j : Job}
    (hcall : f.called place c call = f.launch place j) {c' : Credentials} {w : World}
    {notes : List Traffic.Note} (hu : (Turn.first c s.world j).Reaches
      ⟨c', w, none, if started then [.refreshing .background .begun] else [], notes⟩) :
    ∃ ms, Within (· = place) f ms ∧ (f.run ms).Mirrors { s.put place c' with
      world := w
      waiting := if started then s.waiting ++ [place] else s.waiting } := by
  obtain ⟨k, hk⟩ := List.mem_iff_getElem?.1 hp
  rw [← h.made] at hc
  rw [← h.world] at hu
  obtain ⟨ms, ⟨hw, hm, hh, hin⟩, hpending⟩ := exists_call hk hc hcall hu rfl
  refine ⟨ms, hin, hw, ?_, ?_, ?_⟩
  · rw [hm, h.made]
    rfl
  · rw [hh]
    exact h.names
  · rw [hpending, h.waiting]
    cases started <;> simp

theorem Mirrors.share (h : f.Mirrors s) (name : String) (place : Nat) :
    (f.share place).Mirrors (s.bind name place) where
  world := h.world
  made := h.made
  names := by
    intro e he
    rcases List.mem_cons.1 he with rfl | he
    · exact List.mem_append_right _ List.mem_cons_self
    · exact List.mem_append_left _ (h.names e (List.mem_filter.1 he).1)
  waiting := h.waiting

theorem Mirrors.add (h : f.Mirrors s) (name : String) (c : Credentials) :
    (f.add c).Mirrors (s.add name c) := by
  have hmade : ({ f with made := f.made ++ [c] } : Family).Mirrors
      { s with made := s.made ++ [c] } :=
    ⟨h.world, congrArg (· ++ [c]) h.made, h.names, h.waiting⟩
  have hshare := hmade.share name s.made.length
  rw [Session.add, Family.add, h.made] at *
  exact hshare

theorem started_beforeRequest {c c' : Credentials} {w : World} {need : Credentials.Need}
    (hs : Http.Headers) (hn : c.need? w.clock = some (need, c')) :
    (c.beforeRequest hs w).started = decide (need = .background) := by
  rw [Credentials.beforeRequest, hn]
  cases need with
  | refresh =>
    dsimp only
    rcases c'.refresh w with ⟨_ | _, _, _⟩ <;> rfl
  | _ => rfl

theorem exists_reaches_beforeRequest (c : Credentials) (w : World) (hs : Http.Headers) :
    ∃ notes, (Turn.first c w (.request hs .entered)).Reaches
      ⟨(c.beforeRequest hs w).credentials, (c.beforeRequest hs w).world, none,
        if (c.beforeRequest hs w).started then [.refreshing .background .begun] else [],
        notes⟩ := by
  cases hn : c.need? w.clock with
  | none =>
    have hover : c.beforeRequest hs w = ⟨.error .clockOverflow, hs, c, w, false⟩ := by
      rw [Credentials.beforeRequest, hn]
    rw [hover]
    exact ⟨_, Turn.reaches_overflowed hs hn⟩
  | some x =>
    obtain ⟨need, c'⟩ := x
    obtain ⟨l, _, hreach⟩ := Turn.reaches_beforeRequest hs hn
    rw [started_beforeRequest hs hn]
    cases need <;> exact ⟨_, hreach⟩

/-- every step of a session is a run of a family -/
theorem Mirrors.act (h : f.Mirrors s) (hb : f.Bounded) {place : Nat} (hp : place ∈ f.handles)
    {c : Credentials} (hc : s.made[place]? = some c) (target : String) (step : Session.Step) :
    ∃ ms, Within (s.Touches place step) f ms ∧
      (f.run ms).Mirrors (s.act place c target step).2 := by
  obtain ⟨k, hk⟩ := List.mem_iff_getElem?.1 hp
  have hc' : f.made[place]? = some c := h.made ▸ hc
  have hcalled : ∀ call, f.run [.call k call] = f.called place c call := by
    intro call
    have hstep : f.step (.call k call) = f.called place c call := by
      simp only [Family.step, hk, hc']
    exact hstep
  have hin : ∀ call, Within (· = place) f [.call k call] := by
    intro call
    exact ⟨fun place' hp' => Option.some.inj (hp'.symm.trans hk), trivial⟩
  have hworld : ∀ {P : Nat → Prop} (w : World), Within P f [.world w] :=
    fun w => ⟨fun _ hp' => absurd hp' (Option.not_mem_none _), trivial⟩
  cases step with
  | refresh =>
    rcases hr : c.refresh s.world with ⟨result, c', w⟩
    obtain ⟨l, _, hreach⟩ := Turn.reaches_refresh hr
    obtain ⟨ms, hms', hms⟩ := h.task .refresh false hp hc rfl hreach
    refine ⟨ms, hms', ?_⟩
    rw [Session.act, hr]
    exact hms
  | beforeRequest hs =>
    obtain ⟨_, hreach⟩ := exists_reaches_beforeRequest c s.world hs
    exact h.task (.beforeRequest hs) _ hp hc rfl hreach
  | apply hs override? => exact ⟨[], trivial, h⟩
  | subjectToken => exact ⟨[.world _], hworld _, rfl, h.made, h.names, h.waiting⟩
  | certificatePaths => exact ⟨[.world _], hworld _, rfl, h.made, h.names, h.waiting⟩
  | wait =>
    rw [Session.act]
    by_cases hrun : c.slot.isRunning = true
    · obtain ⟨ms, hw, hm, hh, hpending, hnames, hms⟩ :=
        exists_runWaiting s.waiting hb h.world h.made h.waiting
      rw [if_pos hrun]
      refine ⟨ms, hms, hw, hm, fun e he => ?_, hpending⟩
      have he : e ∈ (s.waiting.foldl Session.runOne s).names := he
      rw [hnames] at he
      rw [hh]
      exact h.names e he
    · rw [if_neg hrun]
      exact ⟨[], trivial, h⟩
  | setNonBlocking =>
    refine ⟨[.call k .setNonBlocking], hin _, ?_⟩
    rw [hcalled]
    have hmade := congrArg (fun made => made.set place { c with nonBlocking := true }) h.made
    exact ⟨h.world, hmade, h.names, h.waiting⟩
  | hasScopes scopes => exact ⟨[], trivial, h⟩
  | describe => exact ⟨[], trivial, h⟩
  | share =>
    refine ⟨[.call k .share], hin _, ?_⟩
    rw [hcalled]
    exact h.share target place
  | withQuotaProject project =>
    refine ⟨[.call k (.derive (.withQuotaProject project))], hin _, ?_⟩
    rw [hcalled]
    exact h.add target _
  | withScopes scopes defaults =>
    refine ⟨[.call k (.derive (.withScopes scopes defaults))], hin _, ?_⟩
    rw [hcalled]
    exact h.add target _
  | withScopesIfRequired scopes defaults =>
    refine ⟨[.call k (.derive (.withScopesIfRequired scopes defaults))], hin _, ?_⟩
    rw [hcalled, Session.act, called, Derivation.account?]
    by_cases hreq : c.account.configuration.requiresScopes = true
    · rw [if_pos hreq, if_pos hreq]
      exact h.add target _
    · rw [if_neg hreq, if_neg hreq]
      exact h.share target place
  | event e => exact ⟨[.world (s.world.after e)], hworld _, rfl, h.made, h.names, h.waiting⟩

theorem mem_of_place? {name : String} {place : Nat} (hp : s.place? name = some place) :
    (name, place) ∈ s.names := by
  obtain ⟨l₁, l₂, hl, _⟩ := List.lookup_eq_some_iff.1 hp
  rw [hl]
  exact List.mem_append_right _ List.mem_cons_self

theorem Mirrors.run (h : f.Mirrors s) (hb : f.Bounded) (name : String) (target? : Option String)
    (step : Session.Step) : ∃ ms, (∀ place, s.place? name = some place →
      Within (s.Touches place step) f ms) ∧ (f.run ms).Mirrors (s.run name target? step).2 := by
  rw [Session.run]
  split
  · next place c hp hc =>
    rw [Session.credentials?, hp, Option.bind_some] at hc
    have hcleared : (f.run [.world { s.world with sent := [] }]).Mirrors
        { s with world := { s.world with sent := [] } } := ⟨rfl, h.made, h.names, h.waiting⟩
    have hplace : place ∈ f.handles := h.names _ (mem_of_place? hp)
    obtain ⟨ms, hin, hms⟩ := hcleared.act (hb.run _) hplace hc (target?.getD name) step
    refine ⟨.world { s.world with sent := [] } :: ms, fun place' hp' => ?_, hms⟩
    obtain rfl := Option.some.inj (hp.symm.trans hp')
    refine ⟨fun _ hno => absurd hno (Option.not_mem_none _), ?_⟩
    cases step <;> exact hin
  · exact ⟨[], fun _ _ => trivial, h⟩

theorem Mirrors.getElem?_made (h : f.Mirrors s) (hb : f.Bounded) {name : String} {place : Nat}
    (hp : s.place? name = some place) (target? : Option String) {step : Session.Step} {q : Nat}
    (hq : q < s.made.length) (hno : ¬s.Touches place step q) :
    (s.run name target? step).2.made[q]? = s.made[q]? := by
  obtain ⟨ms, hin, hms⟩ := h.run hb name target? step
  rw [← h.made] at hq
  rw [← hms.made, ← h.made]
  exact (hin place hp).getElem?_made hq hno

/-- `f` is in the same state as `s`, and what `s` does next is a run of `f` on the same
credentials -/
structure Follows (f : Family) (s : Session) : Prop where
  mirrors : f.Mirrors s
  run : ∀ name target? step, ∃ ms, (∀ place, s.place? name = some place →
    Within (s.Touches place step) f ms) ∧ (f.run ms).Mirrors (s.run name target? step).2
  frame : ∀ name place, s.place? name = some place → ∀ target? step q, q < s.made.length →
    ¬s.Touches place step q → (s.run name target? step).2.made[q]? = s.made[q]?

theorem Mirrors.follows (h : f.Mirrors s) (hb : f.Bounded) : f.Follows s where
  mirrors := h
  run := h.run hb
  frame := fun _ _ hp target? _ _ hq hno => h.getElem?_made hb hp target? hq hno

/-- whatever steps a session takes, a family follows it -/
theorem exists_follows (account : Account) (boundary : Option Boundary) (nonBlocking : Bool)
    (w : World) (name : String) (l : List (String × Option String × Session.Step)) :
    ∃ f, Reached account f ∧
      f.Follows ((Session.start w name (.new account boundary nonBlocking)).after l) := by
  have hstart : Reached account (start (.new account boundary nonBlocking) w) :=
    ⟨boundary, nonBlocking, w, [], rfl⟩
  have hmirror : (start (.new account boundary nonBlocking) w).Mirrors
      (Session.start w name (.new account boundary nonBlocking)) := by
    refine ⟨rfl, rfl, fun e he => ?_, rfl⟩
    rw [List.mem_singleton.1 he]
    exact List.mem_cons_self
  rw [Session.after]
  generalize start (.new account boundary nonBlocking) w = f at hstart hmirror
  generalize Session.start w name (.new account boundary nonBlocking) = s at hmirror
  induction l generalizing f s with
  | nil => exact ⟨f, hstart, hmirror.follows hstart.bounded⟩
  | cons e l ih =>
    obtain ⟨ms, _, hms⟩ := hmirror.run hstart.bounded e.1 e.2.1 e.2.2
    exact ih _ (hstart.run ms) _ hms

end Family

end Federation
