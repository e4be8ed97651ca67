import Federation.Proofs.Refresh.Stages

/-!
# Turns

Calls on shared credentials, and refreshes in their background, take turns.  In a turn a task looks
at one part of the credentials or changes it, or sends a request and gets its answer, so that every
order of turns is an order in which all these accesses may happen.

A task is what it does next, its `Job`.  `Job.turn` is one turn, with notes of what was done in it.

* `Traffic.Job.does_turn`         what can happen in a turn;
* `Traffic.Job.token_turn`        only a turn that publishes a token changes the token;
* `Traffic.Job.background_turn`   when a refresh in the background is over;
* `Traffic.Job.slot_turn`         how a turn moves the slot.
-/

namespace Federation

namespace Traffic

inductive Owner where
  | background
  | caller
  | request (headers : Http.Headers)

/-- what a call that prepares a request does next -/
inductive Phase where
  /-- it looks whether stale tokens are refreshed in the background -/
  | entered
  /-- they are not: it looks whether the token is valid -/
  | blocking
  /-- they are: it looks how fresh the token is -/
  | nonBlocking
  /-- the token was invalid: it empties the slot -/
  | invalid
  /-- the token was stale: it takes the failure from the slot -/
  | stale
  /-- there was no failure: it starts a refresh unless one is running -/
  | starting
  /-- it looks at the boundary that the headers will name -/
  | ready
  /-- it looks at the token and sets the headers -/
  | holding (boundary : Option Boundary)

/-- what a task does next -/
inductive Job where
  | refreshing (owner : Owner) (stage : Stage)
  /-- the refresh in the background is over, which the slot does not show yet -/
  | settling (failure : Option Failure)
  | request (headers : Http.Headers) (phase : Phase)
  | applying (headers : Http.Headers) (override? : Option String)

/-- what is noted of a turn -/
inductive Note where
  | refreshes
  | starts
  /-- a refresh got the token by a request between these worlds -/
  | fetched (before after : World) (token : Token)
  | published (token : Token)
  | failed (f : Failure)
  | settled
  | returned (result : Except Failure Unit)
  | prepared (result : Except Failure Unit) (headers : Http.Headers)
  | overflowed
  | applied (result : Except Failure Unit) (headers : Http.Headers)

/-- what a turn leads to -/
structure Turn where
  credentials : Credentials
  world : World
  next : Option Job
  started : List Job
  notes : List Note

/-! ## what a turn does -/

/-- what is noted of a refresh that gets to a stage -/
def arrival (before after : World) : Stage → List Note
  | .fetched token => [.fetched before after token]
  | _ => []

def Owner.next : Owner → Except Failure Unit → Option Job
  | .background, .ok () => some (.settling none)
  | .background, .error f => some (.settling (some f))
  | .caller, _ => none
  | .request hs, .ok () => some (.request hs .ready)
  | .request _, .error _ => none

def Owner.notes : Owner → Except Failure Unit → List Note
  | .background, _ => []
  | .caller, result => [.returned result]
  | .request _, .ok () => []
  | .request hs, .error f => [.prepared (.error f) hs]

namespace Job

def turn (c : Credentials) (w : World) : Job → Turn
  | .refreshing owner stage => match c.proceed stage w with
    | (.moved stage, c, w') =>
      ⟨c, w', some (.refreshing owner stage), [], arrival w w' stage⟩
    | (.failed f, c, w') =>
      ⟨c, w', owner.next (.error f), [], .failed f :: owner.notes (.error f)⟩
    | (.published token, c, w') =>
      ⟨c, w', owner.next (.ok ()), [], .published token :: owner.notes (.ok ())⟩
  | .settling failure => ⟨{ c with slot := .ended failure }, w, none, [], [.settled]⟩
  | .request hs .entered =>
    ⟨c, w, some (.request hs (if c.nonBlocking then .nonBlocking else .blocking)), [], []⟩
  | .request hs .blocking =>
    if c.isValid w.clock then ⟨c, w, some (.request hs .ready), [], []⟩
    else ⟨c, w, some (.refreshing (.request hs) .begun), [], [.refreshes]⟩
  | .request hs .nonBlocking => match c.freshness? w.clock with
    | none => ⟨c, w, none, [], [.overflowed]⟩
    | some .fresh => ⟨c, w, some (.request hs .ready), [], []⟩
    | some .invalid => ⟨c, w, some (.request hs .invalid), [], []⟩
    | some .stale => ⟨c, w, some (.request hs .stale), [], []⟩
  | .request hs .invalid =>
    ⟨{ c with slot := c.slot.takeFailure.2 }, w, some (.refreshing (.request hs) .begun), [],
      [.refreshes]⟩
  | .request hs .stale => match c.slot.takeFailure with
    | (some _, slot) =>
      ⟨{ c with slot := slot }, w, some (.refreshing (.request hs) .begun), [], [.refreshes]⟩
    | (none, slot) => ⟨{ c with slot := slot }, w, some (.request hs .starting), [], []⟩
  | .request hs .starting => match c.slot.start? with
    | some slot =>
      ⟨{ c with slot := slot }, w, some (.request hs .ready), [.refreshing .background .begun],
        [.starts]⟩
    | none => ⟨c, w, some (.request hs .ready), [], []⟩
  | .request hs .ready => ⟨c, w, some (.request hs (.holding c.boundary)), [], []⟩
  | .request hs (.holding boundary) =>
    let (result, hs) := { c with boundary := boundary }.apply none hs
    ⟨c, w, none, [], [.prepared result hs]⟩
  | .applying hs override? =>
    let (result, hs) := c.apply override? hs
    ⟨c, w, none, [], [.applied result hs]⟩

/-- `j.Does c w t` if a turn of `j` may lead to `t` -/
inductive Does (c : Credentials) (w : World) : Job → Turn → Prop where
  | moved {owner : Owner} {stage stage' : Stage} {c' : Credentials} {w' : World}
      (h : c.proceed stage w = (.moved stage', c', w')) :
      Does c w (.refreshing owner stage)
        ⟨c', w', some (.refreshing owner stage'), [], arrival w w' stage'⟩
  | failed {owner : Owner} {stage : Stage} {f : Failure} {w' : World}
      (h : c.proceed stage w = (.failed f, c, w')) :
      Does c w (.refreshing owner stage)
        ⟨c, w', owner.next (.error f), [], .failed f :: owner.notes (.error f)⟩
  | published {owner : Owner} {token : Token} :
      Does c w (.refreshing owner (.located token))
        ⟨{ c with token := some token }, w, owner.next (.ok ()), [],
          .published token :: owner.notes (.ok ())⟩
  | settled {failure : Option Failure} :
      Does c w (.settling failure)
        ⟨{ c with slot := .ended failure }, w, none, [], [.settled]⟩
  | entered {hs : Http.Headers} {phase : Phase} (h : phase = .nonBlocking ∨ phase = .blocking) :
      Does c w (.request hs .entered) ⟨c, w, some (.request hs phase), [], []⟩
  | valid {hs : Http.Headers} (h : c.isValid w.clock = true) :
      Does c w (.request hs .blocking) ⟨c, w, some (.request hs .ready), [], []⟩
  | notValid {hs : Http.Headers} (h : c.isValid w.clock = false) :
      Does c w (.request hs .blocking)
        ⟨c, w, some (.refreshing (.request hs) .begun), [], [.refreshes]⟩
  | overflowed {hs : Http.Headers} (h : c.freshness? w.clock = none) :
      Does c w (.request hs .nonBlocking) ⟨c, w, none, [], [.overflowed]⟩
  | fresh {hs : Http.Headers} (h : c.freshness? w.clock = some .fresh) :
      Does c w (.request hs .nonBlocking) ⟨c, w, some (.request hs .ready), [], []⟩
  | invalid {hs : Http.Headers} (h : c.freshness? w.clock = some .invalid) :
      Does c w (.request hs .nonBlocking) ⟨c, w, some (.request hs .invalid), [], []⟩
  | stale {hs : Http.Headers} (h : c.freshness? w.clock = some .stale) :
      Does c w (.request hs .nonBlocking) ⟨c, w, some (.request hs .stale), [], []⟩
  | emptied {hs : Http.Headers} :
      Does c w (.request hs .invalid)
        ⟨{ c with slot := c.slot.takeFailure.2 }, w, some (.refreshing (.request hs) .begun), [],
          [.refreshes]⟩
  | took {hs : Http.Headers} {f : Failure} (h : c.slot = .ended (some f)) :
      Does c w (.request hs .stale)
        ⟨{ c with slot := .idle }, w, some (.refreshing (.request hs) .begun), [], [.refreshes]⟩
  | tookNothing {hs : Http.Headers} (h : ∀ f, c.slot ≠ .ended (some f)) :
      Does c w (.request hs .stale)
        ⟨{ c with slot := c.slot.takeFailure.2 }, w, some (.request hs .starting), [], []⟩
  | started {hs : Http.Headers} (h : c.slot ≠ .running) :
      Does c w (.request hs .starting)
        ⟨{ c with slot := .running }, w, some (.request hs .ready),
          [.refreshing .background .begun], [.starts]⟩
  | found {hs : Http.Headers} (h : c.slot = .running) :
      Does c w (.request hs .starting) ⟨c, w, some (.request hs .ready), [], []⟩
  | held {hs : Http.Headers} :
      Does c w (.request hs .ready) ⟨c, w, some (.request hs (.holding c.boundary)), [], []⟩
  | set {hs hs' : Http.Headers} {boundary : Option Boundary} {result : Except Failure Unit}
      (h : { c with boundary := boundary }.apply none hs = (result, hs')) :
      Does c w (.request hs (.holding boundary)) ⟨c, w, none, [], [.prepared result hs']⟩
  | applied {hs hs' : Http.Headers} {override? : Option String} {result : Except Failure Unit}
      (h : c.apply override? hs = (result, hs')) :
      Does c w (.applying hs override?) ⟨c, w, none, [], [.applied result hs']⟩

theorem does_turn (c : Credentials) (w : World) (j : Job) : j.Does c w (j.turn c w) := by
  cases j with
  | refreshing owner stage =>
    rw [turn]
    rcases h : c.proceed stage w with ⟨stage' | f | token, c', w'⟩
    · exact .moved h
    · obtain ⟨rfl, _⟩ := Credentials.proceed_failed h
      exact .failed h
    · obtain ⟨rfl, rfl, rfl⟩ := Credentials.proceed_published h
      exact .published
  | settling failure => exact .settled
  | request hs phase =>
    cases phase with
    | entered =>
      refine .entered ?_
      by_cases hc : c.nonBlocking = true
      · exact .inl (if_pos hc)
      · exact .inr (if_neg hc)
    | blocking =>
      rw [turn]
      cases h : c.isValid w.clock with
      | true => exact .valid h
      | false => exact .notValid h
    | nonBlocking =>
      rw [turn]
      rcases h : c.freshness? w.clock with _ | _ | _ | _
      · exact .overflowed h
      · exact .fresh h
      · exact .stale h
      · exact .invalid h
    | invalid => exact .emptied
    | stale =>
      rw [turn]
      rcases h : c.slot.takeFailure with ⟨_ | f, slot⟩
      · obtain rfl : c.slot.takeFailure.2 = slot := congrArg Prod.snd h
        refine .tookNothing fun f hf => ?_
        rw [hf] at h
        cases h
      · have hf := (Slot.takeFailure_fst_eq_some_iff c.slot f).1 (congrArg Prod.fst h)
        rw [hf] at h
        obtain rfl : .idle = slot := congrArg Prod.snd h
        exact .took hf
    | starting =>
      rw [turn]
      cases h : c.slot with
      | running => exact .found h
      | idle => exact .started (by rw [h]; nofun)
      | ended f => exact .started (by rw [h]; nofun)
    | ready => exact .held
    | holding boundary => exact .set rfl
  | applying hs override? => exact .applied rfl

end Job

/-! ## what a turn leaves -/

def publications (notes : List Note) : List Token :=
  notes.filterMap fun
    | .published token => some token
    | _ => none

def Note.isRefresh : Note → Bool
  | .refreshes => true
  | _ => false

def Note.isStart : Note → Bool
  | .starts => true
  | _ => false

def Note.isSettled : Note → Bool
  | .settled => true
  | _ => false

def Job.isBackground : Job → Bool
  | .refreshing .background _ => true
  | .settling _ => true
  | _ => false

/-- what a task does first -/
def Job.IsNew : Job → Prop
  | .refreshing .background .begun => True
  | .refreshing .caller .begun => True
  | .request _ .entered => True
  | .applying _ _ => True
  | _ => False

theorem publications_arrival (before after : World) (stage : Stage) :
    publications (arrival before after stage) = [] := by
  cases stage <;> rfl

theorem publications_notes (owner : Owner) (result : Except Failure Unit) :
    publications (owner.notes result) = [] := by
  cases owner <;> cases result <;> rfl

theorem countP_arrival (p : Note → Bool) (hp : ∀ v v' token, p (.fetched v v' token) = false)
    (before after : World) (stage : Stage) : (arrival before after stage).countP p = 0 := by
  cases stage with
  | fetched token => exact List.countP_cons_of_neg (Bool.eq_false_iff.1 (hp _ _ _))
  | begun => rfl
  | fetching f => rfl
  | located token => rfl

namespace Job

variable (c : Credentials) (w : World) (j : Job)

theorem account_turn : (j.turn c w).credentials.account = c.account := by
  have h := j.does_turn c w
  generalize j.turn c w = t at h
  cases h with
  | moved h =>
    obtain ⟨_, _, rfl, _⟩ | ⟨_, _, _, _, rfl, _⟩ | ⟨_, _, _, _, rfl, _⟩ | ⟨_, _, _, rfl, _⟩ :=
      Credentials.proceed_moved h
    all_goals rfl
  | _ => rfl

theorem token_turn : (j.turn c w).credentials.token
    = (publications (j.turn c w).notes).getLast?.or c.token := by
  have h := j.does_turn c w
  generalize j.turn c w = t at h
  cases h with
  | moved h =>
    rw [publications_arrival]
    obtain ⟨_, _, rfl, _⟩ | ⟨_, _, _, _, rfl, _⟩ | ⟨_, _, _, _, rfl, _⟩ | ⟨_, _, _, rfl, _⟩ :=
      Credentials.proceed_moved h
    all_goals rfl
  | failed h =>
    show _ = (publications (Owner.notes _ _)).getLast?.or _
    rw [publications_notes]
    rfl
  | @published owner token =>
    show _ = (token :: publications (Owner.notes _ _)).getLast?.or _
    rw [publications_notes]
    rfl
  | _ => rfl

theorem started_turn :
    (j.turn c w).started.countP isBackground = (j.turn c w).notes.countP Note.isStart := by
  have h := j.does_turn c w
  generalize j.turn c w = t at h
  cases h with
  | moved h => exact (countP_arrival _ (fun _ _ _ => rfl) _ _ _).symm
  | @failed owner => cases owner <;> rfl
  | @published owner => cases owner <;> rfl
  | _ => rfl

theorem isNew_of_started {j' : Job} (h : j' ∈ (j.turn c w).started) : j'.IsNew := by
  have hd := j.does_turn c w
  generalize j.turn c w = t at hd h
  cases hd with
  | started _ =>
    rw [List.mem_singleton.1 h]
    trivial
  | _ => exact absurd h List.not_mem_nil

theorem background_turn :
    ((j.turn c w).next.any isBackground).toNat + (j.turn c w).notes.countP Note.isSettled
      = j.isBackground.toNat := by
  have h := j.does_turn c w
  generalize j.turn c w = t at h
  cases h with
  | @moved owner =>
    rw [countP_arrival _ (fun _ _ _ => rfl)]
    cases owner <;> rfl
  | @failed owner => cases owner <;> rfl
  | @published owner => cases owner <;> rfl
  | _ => rfl

/-- the slot starts and stops running as the notes say -/
theorem slot_turn (hj : j.isBackground = true → c.slot = .running) :
    (j.turn c w).credentials.slot.isRunning.toNat + (j.turn c w).notes.countP Note.isSettled
      = c.slot.isRunning.toNat + (j.turn c w).notes.countP Note.isStart := by
  have h := j.does_turn c w
  generalize j.turn c w = t at h
  cases h with
  | moved h =>
    rw [countP_arrival _ (fun _ _ _ => rfl), countP_arrival _ (fun _ _ _ => rfl)]
    obtain ⟨_, _, rfl, _⟩ | ⟨_, _, _, _, rfl, _⟩ | ⟨_, _, _, _, rfl, _⟩ | ⟨_, _, _, rfl, _⟩ :=
      Credentials.proceed_moved h
    all_goals rfl
  | @failed owner => cases owner <;> rfl
  | @published owner => cases owner <;> rfl
  | settled =>
    rw [hj rfl]
    rfl
  | emptied =>
    show c.slot.takeFailure.2.isRunning.toNat + 0 = _
    rw [Slot.isRunning_takeFailure]
    rfl
  | took h =>
    rw [h]
    rfl
  | tookNothing h =>
    show c.slot.takeFailure.2.isRunning.toNat + 0 = _
    rw [Slot.isRunning_takeFailure]
    rfl
  | started h =>
    rw [Bool.eq_false_iff.2 (mt (Slot.isRunning_iff _).1 h)]
    rfl
  | _ => rfl

end Job

end Traffic

end Federation
