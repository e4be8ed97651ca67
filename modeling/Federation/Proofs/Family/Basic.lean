import Federation.Proofs.Traffic.Requests
import Mathlib.Data.List.Induction

/-!
# Families of credentials

All credentials that are made from one another, with the handles that callers have on them, and the
tasks that work on them.  A handle is the place of its credentials, and several handles may have the
same place.  `Family.run` is a run of such a family: calls come in through the handles, the tasks
take their turns in any order, and the world becomes any other in between.

* `Family.does_step`           what a move can do;
* `Family.Reached.bounded`     handles and tasks have places where credentials are;
* `Family.place_run`           the place of a handle never changes;
* `Family.getElem?_made_step`  a move changes the credentials at its own place alone.
-/

namespace Federation

inductive Derivation where
  | withQuotaProject (project : String)
  | withScopes (scopes defaultScopes : List String)
  /-- only if there are none -/
  | withScopesIfRequired (scopes defaultScopes : List String)

/-- the account of the credentials that are made; without one the others are shared -/
def Derivation.account? (a : Account) : Derivation → Option Account
  | .withQuotaProject project => some (a.withQuotaProject project)
  | .withScopes scopes defaultScopes => some (a.withScopes scopes defaultScopes)
  | .withScopesIfRequired scopes defaultScopes =>
    if a.configuration.requiresScopes then some (a.withScopes scopes defaultScopes) else none

structure Family where
  world : World
  made : List Credentials
  handles : List Nat
  /-- the place in `made` of the credentials that each task works on, and what it does next -/
  tasks : List (Nat × Option Traffic.Job)
  /-- the requests that refreshes have sent, and for the credentials at which place -/
  log : List (Nat × Sent)

namespace Family

/-- what a caller may do with a handle -/
inductive Call where
  | refresh
  | beforeRequest (headers : Http.Headers)
  | apply (headers : Http.Headers) (override? : Option String)
  | setNonBlocking
  | share
  | derive (d : Derivation)

inductive Move where
  | world (w : World)
  | call (handle : Nat) (call : Call)
  | proceed (number : Nat)

/-- new credentials with one handle on them -/
def start (c : Credentials) (w : World) : Family := ⟨w, [c], [0], [], []⟩

def launch (s : Family) (place : Nat) (j : Traffic.Job) : Family :=
  { s with tasks := s.tasks ++ [(place, some j)] }

def put (s : Family) (place : Nat) (c : Credentials) : Family :=
  { s with made := s.made.set place c }

def share (s : Family) (place : Nat) : Family := { s with handles := s.handles ++ [place] }

def add (s : Family) (c : Credentials) : Family :=
  { s with made := s.made ++ [c] }.share s.made.length

def called (s : Family) (place : Nat) (c : Credentials) : Call → Family
  | .refresh => s.launch place (.refreshing .caller .begun)
  | .beforeRequest hs => s.launch place (.request hs .entered)
  | .apply hs override? => s.launch place (.applying hs override?)
  | .setNonBlocking => s.put place { c with nonBlocking := true }
  | .share => s.share place
  | .derive d => match d.account? c.account with
    | some account => s.add (c.derive account)
    | none => s.share place

/-- the task with the number `n` has had its turn on the credentials at a place, and has sent `l` -/
def turned (s : Family) (n place : Nat) (t : Traffic.Turn) (l : List Sent) : Family where
  world := t.world
  made := s.made.set place t.credentials
  handles := s.handles
  tasks := s.tasks.set n (place, t.next) ++ t.started.map fun j => (place, some j)
  log := s.log ++ l.map (place, ·)

def step (s : Family) : Move → Family
  | .world w => { s with world := w }
  | .call h call => match s.handles[h]? with
    | none => s
    | some place => match s.made[place]? with
      | none => s
      | some c => s.called place c call
  | .proceed n => match s.tasks[n]? with
    | some (place, some j) => match s.made[place]? with
      | none => s
      | some c => s.turned n place (j.turn c s.world) (j.sends c s.world)
    | _ => s

def run (s : Family) (ms : List Move) : Family := ms.foldl step s

/-- the place of the credentials that a move works on -/
def Move.place? (s : Family) : Move → Option Nat
  | .world _ => none
  | .call h _ => s.handles[h]?
  | .proceed n => s.tasks[n]?.map Prod.fst

theorem run_concat (s : Family) (ms : List Move) (m : Move) :
    s.run (ms ++ [m]) = (s.run ms).step m := by
  simp [run, List.foldl_append]

theorem run_append (s : Family) (ms ms' : List Move) :
    s.run (ms ++ ms') = (s.run ms).run ms' := by
  simp [run, List.foldl_append]

theorem run_induction {P : Family → Prop} (hP : ∀ s m, P s → P (s.step m)) {s : Family}
    (hs : P s) (ms : List Move) : P (s.run ms) := by
  induction ms using List.reverseRecOn with
  | nil => exact hs
  | append_singleton ms m ih =>
    rw [run_concat]
    exact hP _ m ih

/-! ## what a move does -/

/-- `Does s m s'` if the move `m` may lead from `s` to `s'` -/
inductive Does (s : Family) : Move → Family → Prop where
  | nothing {m : Move} : Does s m s
  | world {w : World} : Does s (.world w) { s with world := w }
  | launched {h place : Nat} {c : Credentials} {call : Call} {j : Traffic.Job}
      (hh : s.handles[h]? = some place) (hc : s.made[place]? = some c) (hj : j.IsNew) :
      Does s (.call h call) (s.launch place j)
  | mode {h place : Nat} {c : Credentials} (hh : s.handles[h]? = some place)
      (hc : s.made[place]? = some c) :
      Does s (.call h .setNonBlocking) (s.put place { c with nonBlocking := true })
  | shared {h place : Nat} {c : Credentials} {call : Call} (hh : s.handles[h]? = some place)
      (hc : s.made[place]? = some c) : Does s (.call h call) (s.share place)
  | derived {h place : Nat} {c : Credentials} {d : Derivation} {account : Account}
      (hh : s.handles[h]? = some place) (hc : s.made[place]? = some c)
      (hd : d.account? c.account = some account) :
      Does s (.call h (.derive d)) (s.add (c.derive account))
  | turned {n place : Nat} {c : Credentials} {j : Traffic.Job}
      (hn : s.tasks[n]? = some (place, some j)) (hc : s.made[place]? = some c) :
      Does s (.proceed n) (s.turned n place (j.turn c s.world) (j.sends c s.world))

theorem does_step (s : Family) (m : Move) : s.Does m (s.step m) := by
  cases m with
  | world w => exact .world
  | call h call =>
    rw [step]
    cases hh : s.handles[h]? with
    | none => exact .nothing
    | some place =>
      dsimp only
      cases hc : s.made[place]? with
      | none => exact .nothing
      | some c =>
        cases call with
        | refresh => exact .launched hh hc trivial
        | beforeRequest hs => exact .launched hh hc trivial
        | apply hs override? => exact .launched hh hc trivial
        | setNonBlocking => exact .mode hh hc
        | share => exact .shared hh hc
        | derive d =>
          dsimp only [called]
          cases hd : d.account? c.account with
          | none => exact .shared hh hc
          | some account => exact .derived hh hc hd
  | proceed n =>
    rw [step]
    rcases hn : s.tasks[n]? with _ | ⟨place, _ | j⟩
    · exact .nothing
    · exact .nothing
    · dsimp only
      cases hc : s.made[place]? with
      | none => exact .nothing
      | some c => exact .turned hn hc

/-! ## places -/

/-- handles and tasks have places where credentials are -/
structure Bounded (s : Family) : Prop where
  handles : ∀ place ∈ s.handles, place < s.made.length
  tasks : ∀ t ∈ s.tasks, t.1 < s.made.length

theorem length_made_le (s : Family) (m : Move) : s.made.length ≤ (s.step m).made.length := by
  have h := s.does_step m
  generalize s.step m = s' at h
  cases h with
  | mode => simp [put]
  | derived => simp [add, share]
  | turned => simp [Family.turned]
  | _ => exact Nat.le_refl _

theorem Bounded.step {s : Family} (hs : s.Bounded) (m : Move) : (s.step m).Bounded := by
  have hle := s.length_made_le m
  have h := s.does_step m
  generalize s.step m = s' at h hle
  have hlt : ∀ {place : Nat} {c : Credentials}, s.made[place]? = some c → place < s.made.length :=
    fun hc => (List.getElem?_eq_some_iff.1 hc).1
  have hhandles : ∀ place ∈ s.handles, place < s'.made.length :=
    fun place hp => Nat.lt_of_lt_of_le (hs.handles place hp) hle
  have htasks : ∀ t ∈ s.tasks, t.1 < s'.made.length :=
    fun t ht => Nat.lt_of_lt_of_le (hs.tasks t ht) hle
  cases h with
  | nothing => exact hs
  | world => exact ⟨hs.handles, hs.tasks⟩
  | launched hh hc hj =>
    refine ⟨hhandles, fun t ht => ?_⟩
    rcases List.mem_append.1 ht with ht | ht
    · exact htasks t ht
    · rw [List.mem_singleton.1 ht]
      exact hlt hc
  | mode hh hc => exact ⟨hhandles, htasks⟩
  | shared hh hc =>
    refine ⟨fun place hp => ?_, htasks⟩
    rcases List.mem_append.1 hp with hp | hp
    · exact hhandles place hp
    · rw [List.mem_singleton.1 hp]
      exact hlt hc
  | derived hh hc hd =>
    refine ⟨fun place hp => ?_, htasks⟩
    rcases List.mem_append.1 hp with hp | hp
    · exact hhandles place hp
    · rw [List.mem_singleton.1 hp]
      simp [add, share]
  | @turned n place c j hn hc =>
    have hplace : place < ((s.turned n place (j.turn c s.world) (j.sends c s.world)).made).length :=
      Nat.lt_of_lt_of_le (hlt hc) hle
    refine ⟨hhandles, fun t ht => ?_⟩
    rcases List.mem_append.1 ht with ht | ht
    · rcases List.mem_or_eq_of_mem_set ht with ht | rfl
      · exact htasks t ht
      · exact hplace
    · obtain ⟨j', _, rfl⟩ := List.mem_map.1 ht
      exact hplace

theorem exists_handles_step (s : Family) (m : Move) : ∃ l, (s.step m).handles = s.handles ++ l := by
  have h := s.does_step m
  generalize s.step m = s' at h
  cases h with
  | shared => exact ⟨_, rfl⟩
  | derived => exact ⟨_, rfl⟩
  | _ => exact ⟨[], (List.append_nil _).symm⟩

/-- a handle has one place for ever -/
theorem place_run {s : Family} {h place : Nat} (hh : s.handles[h]? = some place) (ms : List Move) :
    (s.run ms).handles[h]? = some place := by
  refine run_induction (P := fun s => s.handles[h]? = some place) (fun s m hs => ?_) hh ms
  obtain ⟨l, hl⟩ := s.exists_handles_step m
  rw [hl, List.getElem?_append_left (List.getElem?_eq_some_iff.1 hs).1, hs]

/-! ## what becomes of credentials -/

theorem getElem?_made_step {s : Family} {m : Move} {place : Nat} (hp : place < s.made.length)
    (hm : m.place? s ≠ some place) : (s.step m).made[place]? = s.made[place]? := by
  have h := s.does_step m
  generalize s.step m = s' at h
  cases h with
  | mode hh hc =>
    have hne : ¬_ = place := fun he => hm (hh.trans (congrArg some he))
    exact List.getElem?_set_ne hne
  | derived hh hc hd => exact List.getElem?_append_left hp
  | turned hn hc =>
    have hne : ¬_ = place := fun he => hm (by rw [Move.place?, hn, ← he]; rfl)
    exact List.getElem?_set_ne hne
  | _ => rfl

/-- what credentials may become: those of the same account, and the mode does not go back -/
structure Became (c c' : Credentials) : Prop where
  account : c'.account = c.account
  mode : c.nonBlocking = true → c'.nonBlocking = true

theorem Became.refl (c : Credentials) : Became c c := ⟨rfl, id⟩

theorem Became.trans {c c' c'' : Credentials} (h : Became c c') (h' : Became c' c'') :
    Became c c'' := ⟨h'.account.trans h.account, fun hm => h'.mode (h.mode hm)⟩

theorem became_step {s : Family} {place : Nat} {c : Credentials} (hc : s.made[place]? = some c)
    (m : Move) : ∃ c', (s.step m).made[place]? = some c' ∧ Became c c' := by
  have hp : place < s.made.length := (List.getElem?_eq_some_iff.1 hc).1
  by_cases hm : m.place? s = some place
  · have h := s.does_step m
    generalize s.step m = s' at h
    cases h with
    | mode hh hc' =>
      obtain rfl := Option.some.inj (hh.symm.trans hm)
      obtain rfl := Option.some.inj (hc.symm.trans hc')
      exact ⟨_, List.getElem?_set_self hp, rfl, fun _ => rfl⟩
    | derived => exact ⟨c, (List.getElem?_append_left hp).trans hc, .refl c⟩
    | @turned n place' c' j hn hc' =>
      have hplace : some place' = some place := by
        rw [← hm, Move.place?, hn]
        rfl
      obtain rfl := Option.some.inj hplace
      obtain rfl := Option.some.inj (hc.symm.trans hc')
      exact ⟨_, List.getElem?_set_self hp, j.account_turn c s.world,
        fun h => (j.nonBlocking_turn c s.world).trans h⟩
    | _ => exact ⟨c, hc, .refl c⟩
  · exact ⟨c, (getElem?_made_step hp hm).trans hc, .refl c⟩

theorem became_run {s : Family} {place : Nat} {c : Credentials} (hc : s.made[place]? = some c)
    (ms : List Move) : ∃ c', (s.run ms).made[place]? = some c' ∧ Became c c' := by
  refine run_induction (P := fun s => ∃ c', s.made[place]? = some c' ∧ Became c c') ?_
    ⟨c, hc, .refl c⟩ ms
  rintro s m ⟨c', hc', hb⟩
  obtain ⟨c'', hc'', hb'⟩ := became_step hc' m
  exact ⟨c'', hc'', hb.trans hb'⟩

/-! ## reachable families -/

/-- a family that has come of new credentials of `account` -/
def Reached (account : Account) (s : Family) : Prop :=
  ∃ boundary nonBlocking w ms, (start (.new account boundary nonBlocking) w).run ms = s

namespace Reached

variable {account : Account} {s : Family}

/-- what holds of new credentials and survives every move holds of every such family -/
theorem induction {P : Family → Prop}
    (hstart : ∀ boundary nonBlocking w, P (start (.new account boundary nonBlocking) w))
    (hP : ∀ s m, P s → P (s.step m)) (h : Reached account s) : P s := by
  obtain ⟨boundary, nonBlocking, w, ms, rfl⟩ := h
  exact run_induction hP (hstart boundary nonBlocking w) ms

theorem bounded (h : Reached account s) : s.Bounded := by
  refine h.induction (fun boundary nonBlocking w => ⟨?_, ?_⟩) fun _ m hs => hs.step m
  · intro place hp
    rw [List.mem_singleton.1 hp]
    exact Nat.one_pos
  · exact fun _ ht => absurd ht List.not_mem_nil

theorem run (h : Reached account s) (ms : List Move) : Reached account (s.run ms) := by
  obtain ⟨boundary, nonBlocking, w, ms₀, rfl⟩ := h
  exact ⟨boundary, nonBlocking, w, ms₀ ++ ms, run_append _ _ _⟩

end Reached

end Family

end Federation
