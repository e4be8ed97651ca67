import Federation.Proofs.Traffic.Basic

/-!
# What is noted of a task

Whatever the other tasks do between its turns, the notes of a task follow a pattern: a refresh gets
a token and publishes it or it fails, once, and a call that prepares a request refreshes at most
once and ends with the failure of this refresh or with what setting the headers gave.

* `Traffic.story_of_course`   the pattern;
* `Traffic.Reached.story`     it holds of every task in every run.
-/

namespace Federation

namespace Traffic

/-- a refresh is at a stage, or over, and these are its notes -/
inductive Attempt (c : Configuration) : List Note → Stage ⊕ Except Failure Token → Prop where
  | begun : Attempt c [] (.inl .begun)
  | fetching {f : Fetch} (hf : f.Fits c) : Attempt c [] (.inl (.fetching f))
  | fetched {v v' : World} {token : Token} (hg : c.Grants v v' token) :
      Attempt c [.fetched v v' token] (.inl (.fetched token))
  | located {v v' : World} {token : Token} (hg : c.Grants v v' token) :
      Attempt c [.fetched v v' token] (.inl (.located token))
  | failed {f : Failure} : Attempt c [.failed f] (.inr (.error f))
  | published {v v' : World} {token : Token} (hg : c.Grants v v' token) :
      Attempt c [.fetched v v' token, .published token] (.inr (.ok token))

/-- these are the notes of a call that has what it needs -/
inductive Opened (c : Configuration) : List Note → Prop where
  | atOnce : Opened c []
  | started : Opened c [.starts]
  | refreshed {l : List Note} {token : Token} (h : Attempt c l (.inr (.ok token))) :
      Opened c (.refreshes :: l)

/-- the phases until a call has seen what it needs -/
def Phase.IsEarly : Phase → Prop
  | .ready => False
  | .holding _ => False
  | _ => True

def failure? {α : Type} : Except Failure α → Option Failure
  | .error f => some f
  | .ok _ => none

/-- a task with these notes ends with this one.  What happened between its turns has the property
`P`. -/
inductive Ending (P : Credentials → Prop) (c : Configuration) : List Note → Note → Prop where
  | settled {l : List Note} {result : Except Failure Token} (h : Attempt c l (.inr result)) :
      Ending P c l .settled
  | returned {l : List Note} {result : Except Failure Token} (h : Attempt c l (.inr result)) :
      Ending P c l (.returned (result.map fun _ => ()))
  | overflowed : Ending P c [] .overflowed
  | failed (hs : Http.Headers) {l : List Note} {f : Failure}
      (h : Attempt c l (.inr (.error f))) : Ending P c (.refreshes :: l) (.prepared (.error f) hs)
  | prepared {hs hs' : Http.Headers} {l : List Note} {d : Credentials} {boundary : Option Boundary}
      {result : Except Failure Unit} (h : Opened c l) (hd : P d)
      (ha : { d with boundary := boundary }.apply none hs = (result, hs')) :
      Ending P c l (.prepared result hs')
  | applied {hs hs' : Http.Headers} {d : Credentials} {override? : Option String}
      {result : Except Failure Unit} (hd : P d) (ha : d.apply override? hs = (result, hs')) :
      Ending P c [] (.applied result hs')

/-- a task with these notes does this next -/
inductive Story (P : Credentials → Prop) (c : Configuration) : List Note → Option Job → Prop where
  | background {l : List Note} {stage : Stage} (h : Attempt c l (.inl stage)) :
      Story P c l (some (.refreshing .background stage))
  | settling {l : List Note} {result : Except Failure Token} (h : Attempt c l (.inr result)) :
      Story P c l (some (.settling (failure? result)))
  | caller {l : List Note} {stage : Stage} (h : Attempt c l (.inl stage)) :
      Story P c l (some (.refreshing .caller stage))
  | early {hs : Http.Headers} {phase : Phase} (h : phase.IsEarly) :
      Story P c [] (some (.request hs phase))
  | refreshing {hs : Http.Headers} {l : List Note} {stage : Stage}
      (h : Attempt c l (.inl stage)) :
      Story P c (.refreshes :: l) (some (.refreshing (.request hs) stage))
  | late {hs : Http.Headers} {l : List Note} {phase : Phase} (h : Opened c l)
      (hp : ¬phase.IsEarly) : Story P c l (some (.request hs phase))
  | applying {hs : Http.Headers} {override? : Option String} :
      Story P c [] (some (.applying hs override?))
  | ended {l : List Note} {note : Note} (h : Ending P c l note) : Story P c (l ++ [note]) none

theorem Attempt.moved {c c' : Credentials} {w w' : World} {l : List Note} {stage stage' : Stage}
    (h : Attempt c.account.configuration l (.inl stage))
    (hp : c.proceed stage w = (.moved stage', c', w')) :
    Attempt c.account.configuration (l ++ arrival w w' stage') (.inl stage') := by
  obtain ⟨rfl, rfl, _, _⟩ | ⟨f, f', rfl, rfl, _, ha⟩ | ⟨f, token, rfl, rfl, _, ha⟩ |
    ⟨token, rfl, rfl, _, _⟩ := Credentials.proceed_moved hp
  · cases h
    exact .fetching trivial
  · cases h
    exact .fetching (Configuration.fits_of_advance ha).1
  · cases h with
    | fetching hf => exact .fetched (Configuration.grants_of_advance hf ha)
  · cases h with
    | fetched hg => exact .located hg

theorem Attempt.fail {c : Credentials} {w w' : World} {l : List Note} {stage : Stage} {f : Failure}
    (h : Attempt c.account.configuration l (.inl stage))
    (hp : c.proceed stage w = (.failed f, c, w')) :
    Attempt c.account.configuration (l ++ [.failed f]) (.inr (.error f)) := by
  obtain ⟨_, f', rfl, _⟩ := Credentials.proceed_failed hp
  cases h
  exact .failed

theorem Attempt.publish {c : Configuration} {l : List Note} {token : Token}
    (h : Attempt c l (.inl (.located token))) :
    Attempt c (l ++ [.published token]) (.inr (.ok token)) := by
  cases h with
  | located hg => exact .published hg

theorem story_of_isNew (P : Credentials → Prop) (c : Configuration) {j : Job} (hj : j.IsNew) :
    Story P c [] (some j) := by
  cases j with
  | refreshing owner stage =>
    cases owner with
    | background =>
      cases stage with
      | begun => exact .background .begun
      | _ => cases hj
    | caller =>
      cases stage with
      | begun => exact .caller .begun
      | _ => cases hj
    | request hs => cases hj
  | settling failure => cases hj
  | request hs phase =>
    cases phase with
    | entered => exact .early trivial
    | _ => cases hj
  | applying hs override? => exact .applying

theorem Story.eq_nil {P : Credentials → Prop} {c : Configuration} {l : List Note}
    {hs : Http.Headers} {phase : Phase} (h : Story P c l (some (.request hs phase)))
    (hp : phase.IsEarly) : l = [] := by
  cases h with
  | early _ => rfl
  | late _ hn => exact absurd hp hn

theorem Story.opened {P : Credentials → Prop} {c : Configuration} {l : List Note}
    {hs : Http.Headers} {phase : Phase} (h : Story P c l (some (.request hs phase)))
    (hp : ¬phase.IsEarly) : Opened c l := by
  cases h with
  | early hn => exact absurd hn hp
  | late ho _ => exact ho

theorem Story.turn {P : Credentials → Prop} {c : Credentials} (w : World) {l : List Note} {j : Job}
    (hP : P c) (h : Story P c.account.configuration l (some j)) :
    Story P c.account.configuration (l ++ (j.turn c w).notes) (j.turn c w).next := by
  have hd := j.does_turn c w
  generalize j.turn c w = t at hd
  cases hd with
  | moved hp =>
    cases h with
    | background h => exact .background (h.moved hp)
    | caller h => exact .caller (h.moved hp)
    | refreshing h => exact .refreshing (h.moved hp)
  | @failed owner stage f w' hp =>
    cases h with
    | background h => exact .settling (h.fail hp)
    | caller h =>
      have hr := Story.ended (Ending.returned (P := P) (h.fail hp))
      rw [List.append_assoc] at hr
      exact hr
    | @refreshing hs l' _ h =>
      have hr := Story.ended (Ending.failed (P := P) hs (h.fail hp))
      rw [← List.cons_append, List.append_assoc] at hr
      exact hr
  | @published owner token =>
    cases h with
    | background h => exact .settling h.publish
    | caller h =>
      have hr := Story.ended (Ending.returned (P := P) h.publish)
      rw [List.append_assoc] at hr
      exact hr
    | refreshing h => exact .late (.refreshed h.publish) id
  | settled =>
    cases h with
    | settling h => exact .ended (.settled h)
  -- until a call has seen what it needs nothing is noted of it
  | entered he =>
    obtain rfl := h.eq_nil trivial
    rcases he with rfl | rfl
    · exact .early trivial
    · exact .early trivial
  | valid _ =>
    obtain rfl := h.eq_nil trivial
    exact .late .atOnce id
  | notValid _ =>
    obtain rfl := h.eq_nil trivial
    exact .refreshing .begun
  | overflowed _ =>
    obtain rfl := h.eq_nil trivial
    exact .ended .overflowed
  | fresh _ =>
    obtain rfl := h.eq_nil trivial
    exact .late .atOnce id
  | invalid _ =>
    obtain rfl := h.eq_nil trivial
    exact .early trivial
  | stale _ =>
    obtain rfl := h.eq_nil trivial
    exact .early trivial
  | emptied =>
    obtain rfl := h.eq_nil trivial
    exact .refreshing .begun
  | took _ =>
    obtain rfl := h.eq_nil trivial
    exact .refreshing .begun
  | tookNothing _ =>
    obtain rfl := h.eq_nil trivial
    exact .early trivial
  | started _ =>
    obtain rfl := h.eq_nil trivial
    exact .late .started id
  | found _ =>
    obtain rfl := h.eq_nil trivial
    exact .late .atOnce id
  | held =>
    rw [List.append_nil]
    exact .late (h.opened id) id
  | set ha => exact .ended (.prepared (h.opened id) hP ha)
  | applied ha =>
    cases h with
    | applying => exact .ended (.applied hP ha)

theorem story_of_course {P : Credentials → Prop} {c : Configuration}
    (hc : ∀ d, P d → d.account.configuration = c) {j : Job} {l : List Note} {o : Option Job}
    (h : Course P (some j) l o) (hj : j.IsNew) : Story P c l o := by
  induction h with
  | refl => exact story_of_isNew P c hj
  | turn w h hd ih =>
    obtain rfl := hc _ hd
    exact ih.turn w hd

/-! ## how a task ends -/

def Note.isEnding : Note → Bool
  | .settled => true
  | .returned _ => true
  | .prepared _ _ => true
  | .overflowed => true
  | .applied _ _ => true
  | _ => false

theorem Attempt.not_ending {c : Configuration} {l : List Note} {x : Stage ⊕ Except Failure Token}
    (h : Attempt c l x) {note : Note} (hn : note ∈ l) : note.isEnding = false := by
  have hl : l.all (!·.isEnding) = true := by cases h <;> rfl
  rw [← Bool.not_eq_true']
  exact List.all_eq_true.1 hl note hn

theorem Opened.not_ending {c : Configuration} {l : List Note} (h : Opened c l) {note : Note}
    (hn : note ∈ l) : note.isEnding = false := by
  cases h with
  | atOnce => cases hn
  | started =>
    rw [List.mem_singleton.1 hn]
    rfl
  | refreshed h =>
    rcases List.mem_cons.1 hn with rfl | hn
    · rfl
    · exact h.not_ending hn

theorem Ending.not_ending {P : Credentials → Prop} {c : Configuration} {l : List Note}
    {last : Note} (h : Ending P c l last) {note : Note} (hn : note ∈ l) :
    note.isEnding = false := by
  cases h with
  | settled h => exact h.not_ending hn
  | returned h => exact h.not_ending hn
  | overflowed => cases hn
  | failed _ h =>
    rcases List.mem_cons.1 hn with rfl | hn
    · rfl
    · exact h.not_ending hn
  | prepared h _ _ => exact h.not_ending hn
  | applied _ _ => cases hn

theorem Story.ending {P : Credentials → Prop} {c : Configuration} {l : List Note} {o : Option Job}
    (h : Story P c l o) {note : Note} (hn : note ∈ l) (he : note.isEnding = true) :
    ∃ l', l = l' ++ [note] ∧ Ending P c l' note := by
  cases h with
  | background h => cases (h.not_ending hn).symm.trans he
  | settling h => cases (h.not_ending hn).symm.trans he
  | caller h => cases (h.not_ending hn).symm.trans he
  | early _ => cases hn
  | refreshing h =>
    rcases List.mem_cons.1 hn with rfl | hn
    · cases he
    · cases (h.not_ending hn).symm.trans he
  | late h _ => cases (h.not_ending hn).symm.trans he
  | applying => cases hn
  | ended h =>
    rcases List.mem_append.1 hn with hn | hn
    · cases (h.not_ending hn).symm.trans he
    · cases List.mem_singleton.1 hn
      exact ⟨_, rfl, h⟩

/-! ## in a run -/

theorem Reached.story {account : Account} {s : Traffic} (h : Reached account s) {n : Nat}
    {o : Option Job} (ho : s.jobs[n]? = some o) :
    Story (Became account) account.configuration (ofTask n s.log) o := by
  obtain ⟨j, hj, hcourse⟩ := h.course ho
  exact story_of_course (fun d hd => by rw [hd.account_eq]) hcourse hj

theorem Reached.story_of_mem {account : Account} {s : Traffic} (h : Reached account s) {n : Nat}
    {note : Note} (hn : (n, note) ∈ s.log) :
    ∃ o, Story (Became account) account.configuration (ofTask n s.log) o :=
  ⟨_, h.story (List.getElem?_eq_getElem (h.numbered _ hn))⟩

end Traffic

end Federation
