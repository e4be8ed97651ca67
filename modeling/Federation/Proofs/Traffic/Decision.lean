import Federation.Proofs.Refresh.Need
import Federation.Proofs.Traffic.Alone
import Federation.Proofs.Traffic.Story

/-!
# How often calls refresh

What a call that prepares a request decides is to be seen in its notes: it begins to refresh at most
once, it starts at most one refresh in the background, and it does either if and only if it has to.
However many calls there are, and in whatever order they take their turns, only one refresh is under
way in the background at a time.

* `Traffic.decision`            the turns of one call in a row;
* `Traffic.Reached.one_at_a_time`   all calls of a run;
* `Traffic.refresh_decision`    both, with calls in a row.
-/

namespace Federation

namespace Traffic

namespace Turn

theorem Quiet.countP_isRefresh {l : List Note} (h : Quiet l) : l.countP Note.isRefresh = 0 :=
  List.countP_eq_zero.2 fun note hn => Bool.eq_false_iff.1 (h note hn).1

theorem Quiet.countP_isStart {l : List Note} (h : Quiet l) : l.countP Note.isStart = 0 :=
  List.countP_eq_zero.2 fun note hn => Bool.eq_false_iff.1 (h note hn).2

end Turn

/-- what a call leaves of the state `s`, and its notes, if its turns are in a row -/
structure Decision (s : Traffic) (hs : Http.Headers) (t : Traffic) (notes : List Note) : Prop where
  credentials : t.credentials = (s.credentials.beforeRequest hs s.world).credentials
  world : t.world = (s.credentials.beforeRequest hs s.world).world
  log : t.log = s.log ++ notes.map (s.jobs.length, ·)
  prepared : notes.getLast? = some (.prepared (s.credentials.beforeRequest hs s.world).result
    (s.credentials.beforeRequest hs s.world).headers)
  refreshes : notes.countP Note.isRefresh ≤ 1
  refreshes_iff : notes.countP Note.isRefresh = 1 ↔ s.credentials.NeedsRefresh s.world.clock
  starts : notes.countP Note.isStart ≤ 1
  starts_iff : notes.countP Note.isStart = 1 ↔ s.credentials.NeedsBackground s.world.clock
  jobs : t.jobs = s.jobs ++ none ::
    (List.replicate (notes.countP Note.isStart) (some (.refreshing .background .begun)))

/-- a call alone in a run -/
def alone (s : Traffic) (hs : Http.Headers) (turns : Nat) : Traffic :=
  s.run (.beforeRequest hs :: List.replicate turns (.proceed s.jobs.length))

theorem alone_of_reaches {s : Traffic} {hs : Http.Headers} {u : Turn}
    (h : (Turn.first s.credentials s.world (.request hs .entered)).Reaches u) : ∃ k,
    s.alone hs k = ⟨u.credentials, u.world, s.jobs ++ u.next :: u.started.map some,
      s.log ++ u.notes.map (s.jobs.length, ·)⟩ := by
  obtain ⟨k, rfl⟩ := h
  refine ⟨k, ?_⟩
  have hj : (s.launch (.request hs .entered)).jobs[s.jobs.length]?
      = some (some (Job.request hs .entered)) := List.getElem?_concat_length
  have hr : s.alone hs k = (s.launch (.request hs .entered)).turned s.jobs.length
      (Turn.again^[k] (.first s.credentials s.world (.request hs .entered))) := run_alone hj k
  rw [hr]
  generalize Turn.again^[k] (.first s.credentials s.world (.request hs .entered)) = u
  have hset : (s.jobs ++ [some (Job.request hs .entered)]).set s.jobs.length u.next
      ++ u.started.map some = s.jobs ++ u.next :: u.started.map some := by
    rw [List.set_append_right _ _ (Nat.le_refl _), Nat.sub_self, List.append_assoc]
    rfl
  exact congrArg (fun jobs => Traffic.mk u.credentials u.world jobs
    (s.log ++ u.notes.map (s.jobs.length, ·))) hset

theorem decision_of_need {s : Traffic} (hs : Http.Headers) {need : Credentials.Need}
    {c : Credentials} (hn : s.credentials.need? s.world.clock = some (need, c))
    (hr : need = .refresh ↔ s.credentials.NeedsRefresh s.world.clock)
    (hb : need = .background ↔ s.credentials.NeedsBackground s.world.clock) :
    ∃ k notes, Decision s hs (s.alone hs k) notes := by
  obtain ⟨l, hq, hreach⟩ := Turn.reaches_beforeRequest hs hn
  obtain ⟨k, hk⟩ := alone_of_reaches hreach
  have hcount : ∀ p : Note → Bool, l.countP p = 0 → (∀ r hs, p (Note.prepared r hs) = false) →
      ∀ r hs, (Turn.opening need ++ l ++ [Note.prepared r hs]).countP p
        = (Turn.opening need).countP p := by
    intro p hl hp r hs
    rw [List.countP_append, List.countP_append, hl,
      List.countP_cons_of_neg (Bool.eq_false_iff.1 (hp r hs))]
    rfl
  have hrefresh := hcount _ hq.countP_isRefresh fun _ _ => rfl
  have hstart := hcount _ hq.countP_isStart fun _ _ => rfl
  refine ⟨k, _, by rw [hk], by rw [hk], by rw [hk], List.getLast?_concat, ?_, ?_, ?_, ?_, ?_⟩
  · rw [hrefresh]
    cases need <;> decide
  · rw [hrefresh, ← hr]
    cases need <;> decide
  · rw [hstart]
    cases need <;> decide
  · rw [hstart, ← hb]
    cases need <;> decide
  · rw [hstart, hk]
    cases need <;> rfl

theorem decision (s : Traffic) (hs : Http.Headers)
    (ho : ¬s.credentials.Overflows s.world.clock) :
    ∃ k notes, Decision s hs (s.alone hs k) notes := by
  by_cases hr : s.credentials.NeedsRefresh s.world.clock
  · have hb : ¬s.credentials.NeedsBackground s.world.clock := fun hb => hb.not_refresh hr
    exact decision_of_need hs (Credentials.need?_of_needsRefresh hr) ⟨fun _ => hr, fun _ => rfl⟩
      ⟨nofun, fun h => absurd h hb⟩
  · by_cases hb : s.credentials.NeedsBackground s.world.clock
    · exact decision_of_need hs (Credentials.need?_of_needsBackground hb)
        ⟨nofun, fun h => absurd h hr⟩ ⟨fun _ => hb, fun _ => rfl⟩
    · exact decision_of_need hs (Credentials.need?_of_neither ho hr hb)
        ⟨nofun, fun h => absurd h hr⟩ ⟨nofun, fun h => absurd h hb⟩

theorem alone_of_overflows {s : Traffic} (hs : Http.Headers)
    (ho : s.credentials.Overflows s.world.clock) : ∃ k, s.alone hs k
      = ⟨s.credentials, s.world, s.jobs ++ [none], s.log ++ [(s.jobs.length, .overflowed)]⟩ :=
  alone_of_reaches (Turn.reaches_overflowed hs (Credentials.need?_of_overflows ho))

/-! ## all calls of a run -/

/-- a note that a call begins to refresh, or starts a refresh in the background -/
def Note.isOpening (note : Note) : Bool := note.isRefresh || note.isStart

theorem Attempt.countP_isOpening {c : Configuration} {l : List Note}
    {x : Stage ⊕ Except Failure Token} (h : Attempt c l x) : l.countP Note.isOpening = 0 := by
  cases h <;> rfl

theorem Attempt.once {c : Configuration} {l : List Note} {x : Stage ⊕ Except Failure Token}
    (h : Attempt c l x) : (.refreshes :: l).countP Note.isOpening ≤ 1 := by
  have hl := h.countP_isOpening
  have hc : (Note.refreshes :: l).countP Note.isOpening = l.countP Note.isOpening + 1 :=
    List.countP_cons_of_pos rfl
  omega

theorem Opened.once {c : Configuration} {l : List Note} (h : Opened c l) :
    l.countP Note.isOpening ≤ 1 := by
  cases h with
  | atOnce => exact Nat.zero_le _
  | started => exact Nat.le_refl _
  | refreshed h => exact h.once

theorem Ending.once {P : Credentials → Prop} {c : Configuration} {l : List Note} {note : Note}
    (h : Ending P c l note) : (l ++ [note]).countP Note.isOpening ≤ 1 := by
  have hdrop : note.isOpening = false →
      (l ++ [note]).countP Note.isOpening = l.countP Note.isOpening := by
    intro hn
    rw [List.countP_append, List.countP_cons_of_neg (Bool.eq_false_iff.1 hn)]
    rfl
  cases h with
  | settled h =>
    rw [hdrop rfl, h.countP_isOpening]
    exact Nat.zero_le _
  | returned h =>
    rw [hdrop rfl, h.countP_isOpening]
    exact Nat.zero_le _
  | overflowed => exact Nat.zero_le _
  | failed _ h =>
    rw [hdrop rfl]
    exact h.once
  | prepared h _ _ =>
    rw [hdrop rfl]
    exact h.once
  | applied _ _ => exact Nat.zero_le _

theorem Story.once {P : Credentials → Prop} {c : Configuration} {l : List Note} {o : Option Job}
    (h : Story P c l o) : l.countP Note.isOpening ≤ 1 := by
  cases h with
  | background h => exact h.countP_isOpening ▸ Nat.zero_le _
  | settling h => exact h.countP_isOpening ▸ Nat.zero_le _
  | caller h => exact h.countP_isOpening ▸ Nat.zero_le _
  | early _ => exact Nat.zero_le _
  | refreshing h => exact h.once
  | late h _ => exact h.once
  | applying => exact Nat.zero_le _
  | ended h => exact h.once

/-- only one refresh is under way in the background at a time, whatever the order of the turns -/
structure OneAtATime (s : Traffic) : Prop where
  /-- a call refreshes at most once, itself or in the background -/
  once : ∀ n, (ofTask n s.log).countP Note.isOpening ≤ 1
  underway : s.underway = s.credentials.slot.isRunning.toNat
  /-- until it is over no other is started, by however many calls -/
  starts : ∀ ms, (s.run ms).noted Note.isSettled = s.noted Note.isSettled →
    (s.run ms).noted Note.isStart + s.credentials.slot.isRunning.toNat ≤ s.noted Note.isStart + 1

theorem Reached.one_at_a_time {account : Account} {s : Traffic} (h : Reached account s) :
    OneAtATime s where
  once n := by
    cases ho : s.jobs[n]? with
    | some o => exact (h.story ho).once
    | none =>
      have hn := List.getElem?_eq_none_iff.1 ho
      rw [ofTask_eq_nil fun e he => Nat.lt_of_lt_of_le (h.numbered e he) hn]
      exact Nat.zero_le _
  underway := h.sound.underway
  starts ms hms := by
    have h1 := h.sound.balance
    have h2 := (h.run ms).sound.balance
    have h3 := (s.run ms).credentials.slot.isRunning.toNat_le
    omega

/-! ## all of it -/

/-- calls that prepare requests refresh exactly when they have to -/
theorem refresh_decision :
    (∀ (c : Credentials) hs w, c.Right hs w (c.beforeRequest hs w)) ∧
    (∀ (s : Traffic) hs, ¬s.credentials.Overflows s.world.clock →
      ∃ k notes, Decision s hs (s.alone hs k) notes) ∧
    (∀ (s : Traffic) hs, s.credentials.Overflows s.world.clock → ∃ k, s.alone hs k
      = ⟨s.credentials, s.world, s.jobs ++ [none], s.log ++ [(s.jobs.length, .overflowed)]⟩) ∧
    (∀ c w, Credentials.InARow c w) ∧
    ∀ account boundary nonBlocking w ms,
      OneAtATime ((start (.new account boundary nonBlocking) w).run ms) :=
  ⟨Credentials.beforeRequest_right, decision, fun _ hs ho => alone_of_overflows hs ho,
    Credentials.in_a_row,
    fun account boundary nonBlocking w ms =>
      (Reached.of_run account boundary nonBlocking w ms).one_at_a_time⟩

end Traffic

end Federation
