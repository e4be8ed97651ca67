import Federation.Proofs.Worker.Basic

/-!
# What becomes of the failures of tasks

A failure that a task leaves in the slot is handed out at most once, and it is handed out if and
only if somebody takes from the slot before the next task is started.

Two tasks may fail alike, so the failures in a history do not tell which task they came from.
`Move.named` puts the name of the task beside each failure; by `history_map` a worker does with
these pairs what it does with the failures alone, and what is handed out then has a name on it.

* `Worker.slot_eq_ended_iff`   what the slot holds, read off the history;
* `Worker.mem_given_iff`       which failures have been handed out;
* `Worker.spent_named`         none has been handed out twice;
* `Worker.single_slot`         all of it, with what each move does in a reachable state.
-/

namespace Federation

namespace Slot

def map {ε δ : Type} (g : ε → δ) : Slot ε → Slot δ
  | .idle => .idle
  | .running => .running
  | .ended failure => .ended (failure.map g)

end Slot

namespace Worker

section
variable {ε δ : Type} (g : ε → δ)

/-! ## other failures -/

def Move.map : Move ε → Move δ
  | .start k => .start k
  | .take k => .take k
  | .wait k => .wait k
  | .finish task failure => .finish task (failure.map g)

def Answer.map : Answer ε → Answer δ
  | .started yes => .started yes
  | .took failure => .took (failure.map g)
  | .waited done => .waited done
  | .finished yes => .finished yes

def map (w : Worker ε) : Worker δ := ⟨w.slot.map g, w.started, w.unfinished⟩

theorem step_map (w : Worker ε) (m : Move ε) :
    (w.map g).step (m.map g) = ((w.step m).1.map g, (w.step m).2.map g) := by
  obtain ⟨slot, started, unfinished⟩ := w
  cases m with
  | start k => cases slot <;> rfl
  | take k => cases slot <;> rfl
  | wait k => cases slot <;> rfl
  | finish task failure =>
    by_cases ht : task ∈ unfinished
    · rw [step_finish ht]
      exact step_finish (w := ⟨slot.map g, started, unfinished⟩) ht _
    · rw [step_finish_of_notMem ht]
      exact step_finish_of_notMem (w := ⟨slot.map g, started, unfinished⟩) ht _

theorem after_map (w : Worker ε) (ms : List (Move ε)) :
    (w.map g).after (ms.map (Move.map g)) = (w.after ms).map g := by
  induction ms generalizing w with
  | nil => rfl
  | cons m ms ih =>
    show ((w.map g).step (m.map g)).2.after (ms.map (Move.map g)) = ((w.step m).2.after ms).map g
    rw [step_map, ih]

theorem history_map (w : Worker ε) (ms : List (Move ε)) :
    (w.map g).history (ms.map (Move.map g))
      = (w.history ms).map fun e => (e.1.map g, e.2.map g) := by
  induction ms generalizing w with
  | nil => rfl
  | cons m ms ih =>
    show (m.map g, ((w.map g).step (m.map g)).1) ::
      ((w.map g).step (m.map g)).2.history (ms.map (Move.map g)) = _
    rw [step_map, ih]
    rfl

end

section
variable {ε : Type}

/-- the move with each failure beside the name of the task that met it -/
def Move.named : Move ε → Move (Nat × ε)
  | .start k => .start k
  | .take k => .take k
  | .wait k => .wait k
  | .finish task failure => .finish task (failure.map (task, ·))

theorem Move.map_snd_named (m : Move ε) : m.named.map Prod.snd = m := by
  cases m with
  | start k => rfl
  | take k => rfl
  | wait k => rfl
  | finish task failure => cases failure <;> rfl

theorem Move.eq_take_of_named {m : Move ε} {k : Nat} (h : m.named = .take k) : m = .take k := by
  rw [← m.map_snd_named, h]
  rfl

theorem map_snd_named (ms : List (Move ε)) :
    (ms.map Move.named).map (Move.map Prod.snd) = ms := by
  rw [List.map_map]
  exact (List.map_congr_left fun m _ => m.map_snd_named).trans (List.map_id ms)

/-- a worker that knows the names of the tasks whose failures it holds, after a run -/
def named (ms : List (Move ε)) : Worker (Nat × ε) := new.after (ms.map Move.named)

theorem named_concat (ms : List (Move ε)) (m : Move ε) :
    named (ms ++ [m]) = ((named ms).step m.named).2 := by
  rw [named, List.map_append]
  exact after_concat _ _ _

theorem map_snd_after_named (ms : List (Move ε)) : (named ms).map Prod.snd = new.after ms := by
  have h := after_map Prod.snd (new : Worker (Nat × ε)) (ms.map Move.named)
  rw [map_snd_named] at h
  exact h.symm

theorem history_concat_named (ms : List (Move ε)) (m : Move ε) :
    new.history (ms ++ [m])
      = new.history ms ++ [(m, ((named ms).step m.named).1.map Prod.snd)] := by
  have h := step_map Prod.snd (named ms) m.named
  rw [m.map_snd_named, map_snd_after_named] at h
  rw [history_concat, h]

/-! ## what the slot holds -/

def starts (e : Move ε × Answer ε) : Prop := e.2 = .started true

def takes (e : Move ε × Answer ε) : Prop := ∃ k, e.1 = .take k

def failed (task : Nat) (f : ε) : Move ε × Answer ε := (.finish task (some f), .finished true)

/-- the task has failed with `f`, and the moves after that are `rest` -/
def Since (h : List (Move ε × Answer ε)) (task : Nat) (f : ε) (rest : List (Move ε × Answer ε)) :
    Prop := ∃ past, h = past ++ failed task f :: rest

theorem not_since_nil {task : Nat} {f : ε} {rest : List (Move ε × Answer ε)} :
    ¬ Since [] task f rest := by
  rintro ⟨past, h⟩
  simp at h

theorem since_concat {h : List (Move ε × Answer ε)} {e : Move ε × Answer ε} {task : Nat} {f : ε}
    {rest : List (Move ε × Answer ε)} :
    Since (h ++ [e]) task f rest ↔
      (rest = [] ∧ e = failed task f) ∨ ∃ rest', rest = rest' ++ [e] ∧ Since h task f rest' := by
  constructor
  · rintro ⟨past, hp⟩
    induction rest using List.reverseRecOn with
    | nil =>
      have he := (List.append_inj' hp rfl).2
      rw [List.cons.injEq] at he
      exact .inl ⟨rfl, he.1⟩
    | append_singleton rest' e' _ =>
      rw [← List.cons_append, ← List.append_assoc] at hp
      obtain ⟨hh, he⟩ := List.append_inj' hp rfl
      rw [List.cons.injEq] at he
      exact .inr ⟨rest', by rw [he.1], past, hh⟩
  · rintro (⟨rfl, rfl⟩ | ⟨rest', rfl, past, rfl⟩)
    · exact ⟨h, rfl⟩
    · exact ⟨past, by simp⟩

/-- the last task has failed with `f`, and its failure has neither been taken nor been given up for
another task -/
def Holds (h : List (Move ε × Answer ε)) (task : Nat) (f : ε) : Prop :=
  ∃ rest, Since h task f rest ∧ ∀ e ∈ rest, ¬ starts e ∧ ¬ takes e

theorem not_holds_nil {task : Nat} {f : ε} : ¬ Holds [] task f := fun ⟨_, h, _⟩ => not_since_nil h

theorem holds_concat {h : List (Move ε × Answer ε)} {e : Move ε × Answer ε} {task : Nat} {f : ε} :
    Holds (h ++ [e]) task f ↔
      e = failed task f ∨ (Holds h task f ∧ ¬ starts e ∧ ¬ takes e) := by
  constructor
  · rintro ⟨rest, hr, hq⟩
    rcases since_concat.1 hr with ⟨_, he⟩ | ⟨rest', rfl, hr'⟩
    · exact .inl he
    · exact .inr ⟨⟨rest', hr', fun x hx => hq x (List.mem_append_left _ hx)⟩, hq e (by simp)⟩
  · rintro (he | ⟨⟨rest, hr, hq⟩, he⟩)
    · exact ⟨[], since_concat.2 (.inl ⟨rfl, he⟩), by simp⟩
    · refine ⟨rest ++ [e], since_concat.2 (.inr ⟨rest, rfl, hr⟩), fun x hx => ?_⟩
      rcases List.mem_append.1 hx with hx | hx
      · exact hq x hx
      · rw [List.mem_singleton.1 hx]
        exact he

theorem slot_eq_ended_iff (ms : List (Move ε)) (task : Nat) (f : ε) :
    (named ms).slot = .ended (some (task, f)) ↔ Holds (new.history ms) task f := by
  induction ms using List.reverseRecOn with
  | nil => exact ⟨nofun, fun h => absurd h not_holds_nil⟩
  | append_singleton ms m ih =>
    have hs : (named ms).Sound := sound_after _
    rw [named_concat, history_concat_named, holds_concat, ← ih]
    cases m with
    | start k =>
      by_cases hr : (named ms).slot = .running
      · rw [Move.named, step_start_of_running hr]
        simp [failed, starts, takes, Answer.map]
      · rw [Move.named, step_start_of_not_running hr]
        simp [failed, starts, Answer.map]
    | take k =>
      rw [Move.named, step_take]
      simp [failed, takes, Slot.takeFailure_snd_ne_ended]
    | wait k =>
      rw [Move.named, step_wait]
      simp [failed, starts, takes, Answer.map]
    | finish i failure =>
      by_cases hi : i ∈ (named ms).unfinished
      · have hr : (named ms).slot = .running := (hs.of_mem hi).1
        rw [Move.named, step_finish hi, hr]
        cases failure <;> simp [failed, Answer.map]
      · rw [Move.named, step_finish_of_notMem hi]
        simp [failed, starts, takes, Answer.map]

/-! ## what is handed out -/

def Answer.failure? : Answer ε → Option ε
  | .took failure => failure
  | _ => none

theorem failure?_step (w : Worker ε) {m : Move ε} (hm : ∀ k, m ≠ .take k) :
    (w.step m).1.failure? = none := by
  cases m with
  | start k =>
    by_cases hr : w.slot = .running
    · rw [step_start_of_running hr]
      rfl
    · rw [step_start_of_not_running hr]
      rfl
  | take k => exact absurd rfl (hm k)
  | wait k => rfl
  | finish task failure =>
    by_cases ht : task ∈ w.unfinished
    · rw [step_finish ht]
      rfl
    · rw [step_finish_of_notMem ht]
      rfl

def handedOut (h : List (Move ε × Answer ε)) : List ε := h.filterMap (·.2.failure?)

theorem handedOut_concat (h : List (Move ε × Answer ε)) (e : Move ε × Answer ε) :
    handedOut (h ++ [e]) = handedOut h ++ e.2.failure?.toList := by
  rw [handedOut, List.filterMap_append]
  cases he : e.2.failure? <;> simp [he, handedOut]

theorem handedOut_map {δ : Type} (g : ε → δ) (h : List (Move ε × Answer ε)) :
    handedOut (h.map fun e => (e.1.map g, e.2.map g)) = (handedOut h).map g := by
  have hg : ∀ a : Answer ε, (a.map g).failure? = a.failure?.map g := fun a => by cases a <;> rfl
  rw [handedOut, handedOut, List.filterMap_map, List.map_filterMap]
  exact List.filterMap_congr fun e _ => hg e.2

/-- the failures that were taken, each with the name of the task that met it -/
def given (ms : List (Move ε)) : List (Nat × ε) := handedOut (new.history (ms.map Move.named))

theorem given_concat (ms : List (Move ε)) (m : Move ε) :
    given (ms ++ [m]) = given ms ++ ((named ms).step m.named).1.failure?.toList := by
  rw [given, List.map_append, List.map_singleton, history_concat, handedOut_concat]
  rfl

theorem map_snd_given (ms : List (Move ε)) :
    (given ms).map Prod.snd = handedOut (new.history ms) := by
  have hh := history_map Prod.snd (new : Worker (Nat × ε)) (ms.map Move.named)
  rw [map_snd_named] at hh
  rw [given, ← handedOut_map, ← hh]
  rfl

/-- the task has failed with `f`, and somebody has taken what was in the slot after that and before
the next task was started -/
def TakenInTime (h : List (Move ε × Answer ε)) (task : Nat) (f : ε) : Prop :=
  ∃ rest, Since h task f rest ∧ ∃ quiet e later, rest = quiet ++ e :: later ∧ takes e ∧
    ∀ x ∈ quiet, ¬ starts x

theorem not_takenInTime_nil {task : Nat} {f : ε} : ¬ TakenInTime [] task f :=
  fun ⟨_, h, _⟩ => not_since_nil h

theorem takenInTime_concat {h : List (Move ε × Answer ε)} {e : Move ε × Answer ε} {task : Nat}
    {f : ε} : TakenInTime (h ++ [e]) task f ↔
      TakenInTime h task f ∨ (takes e ∧ ∃ rest, Since h task f rest ∧ ∀ x ∈ rest, ¬ starts x) := by
  constructor
  · rintro ⟨rest, hr, quiet, t, later, hl, ht, hq⟩
    rcases since_concat.1 hr with ⟨rfl, _⟩ | ⟨rest', rfl, hr'⟩
    · simp at hl
    · induction later using List.reverseRecOn with
      | nil =>
        obtain ⟨h1, h2⟩ := List.append_inj' hl rfl
        rw [List.cons.injEq] at h2
        exact .inr ⟨h2.1 ▸ ht, rest', hr', h1 ▸ hq⟩
      | append_singleton later t' _ =>
        rw [← List.cons_append, ← List.append_assoc] at hl
        exact .inl ⟨rest', hr', quiet, t, later, (List.append_inj' hl rfl).1, ht, hq⟩
  · rintro (⟨rest, hr, quiet, t, later, rfl, ht, hq⟩ | ⟨he, rest, hr, hq⟩)
    · exact ⟨_, since_concat.2 (.inr ⟨_, rfl, hr⟩), quiet, t, later ++ [e], by simp, ht, hq⟩
    · exact ⟨_, since_concat.2 (.inr ⟨rest, rfl, hr⟩), rest, e, [], rfl, he, hq⟩

/-- a failure that no task was started over is still there, or has been taken in time -/
theorem holds_or_takenInTime {h : List (Move ε × Answer ε)} {task : Nat} {f : ε}
    {rest : List (Move ε × Answer ε)} (hr : Since h task f rest) (hq : ∀ x ∈ rest, ¬ starts x) :
    Holds h task f ∨ TakenInTime h task f := by
  by_cases ht : ∃ e ∈ rest, takes e
  · obtain ⟨e, he, ht⟩ := ht
    obtain ⟨quiet, later, rfl⟩ := List.append_of_mem he
    exact .inr ⟨_, hr, quiet, e, later, rfl, ht, fun x hx => hq x (List.mem_append_left _ hx)⟩
  · exact .inl ⟨rest, hr, fun x hx => ⟨hq x hx, fun h => ht ⟨x, hx, h⟩⟩⟩

theorem mem_given_iff (ms : List (Move ε)) (task : Nat) (f : ε) :
    (task, f) ∈ given ms ↔ TakenInTime (new.history ms) task f := by
  induction ms using List.reverseRecOn with
  | nil => exact ⟨nofun, fun h => absurd h not_takenInTime_nil⟩
  | append_singleton ms m ih =>
    have hslot := slot_eq_ended_iff ms task f
    rw [given_concat, List.mem_append, ih, history_concat_named, takenInTime_concat]
    by_cases hm : ∃ k, m = .take k
    · obtain ⟨k, rfl⟩ := hm
      have h1 : (task, f) ∈ ((named ms).step (Move.take k).named).1.failure?.toList ↔
          Holds (new.history ms) task f := by
        rw [← hslot, ← Slot.takeFailure_fst_eq_some_iff, Option.mem_toList]
        rfl
      rw [h1]
      constructor
      · rintro (h | ⟨rest, hr, hq⟩)
        · exact .inl h
        · exact .inr ⟨⟨k, rfl⟩, rest, hr, fun x hx => (hq x hx).1⟩
      · rintro (h | ⟨_, rest, hr, hq⟩)
        · exact .inl h
        · exact (holds_or_takenInTime hr hq).symm
    · have h1 : ((named ms).step m.named).1.failure? = none :=
        failure?_step _ fun k hk => hm ⟨k, Move.eq_take_of_named hk⟩
      rw [h1]
      constructor
      · rintro (h | h)
        · exact .inl h
        · exact absurd h List.not_mem_nil
      · rintro (h | ⟨ht, _⟩)
        · exact .inl h
        · exact absurd ht hm

/-! ## nothing is handed out twice -/

/-- what is known of the tasks in `gone`, whose failures have been handed out -/
structure Spent (w : Worker (Nat × ε)) (gone : List Nat) : Prop where
  nodup : gone.Nodup
  started : ∀ i ∈ gone, i < w.started
  ended : ∀ i ∈ gone, i ∉ w.unfinished
  elsewhere : ∀ i ∈ gone, ∀ f, w.slot ≠ .ended (some (i, f))
  next : ∀ i f, w.slot = .ended (some (i, f)) → i < w.started ∧ i ∉ w.unfinished

theorem spent_new : Spent (new : Worker (Nat × ε)) [] where
  nodup := List.nodup_nil
  started := nofun
  ended := nofun
  elsewhere := nofun
  next := nofun

theorem task_eq_of_ended {task i : Nat} {failure : Option ε} {f : ε}
    (h : (Slot.ended (failure.map (task, ·)) : Slot (Nat × ε)) = .ended (some (i, f))) :
    task = i := by
  cases failure with
  | none => simp at h
  | some f' =>
    simp only [Option.map_some, Slot.ended.injEq, Option.some.injEq, Prod.mk.injEq] at h
    exact h.1

theorem Spent.step {w : Worker (Nat × ε)} {gone : List Nat} (hg : Spent w gone) (hw : w.Sound)
    (m : Move ε) : Spent (w.step m.named).2
      (gone ++ (w.step m.named).1.failure?.toList.map Prod.fst) := by
  by_cases hm : ∃ k, m = .take k
  · obtain ⟨k, rfl⟩ := hm
    rw [Move.named, step_take]
    have hno : ∀ i f, w.slot.takeFailure.2 ≠ .ended (some (i, f)) := fun i f =>
      Slot.takeFailure_snd_ne_ended _ _
    cases hf : w.slot.takeFailure.1 with
    | none =>
      show Spent _ (gone ++ [])
      rw [List.append_nil]
      exact ⟨hg.nodup, hg.started, hg.ended, fun i _ => hno i, fun i f h => absurd h (hno i f)⟩
    | some p =>
      obtain ⟨i, f⟩ := p
      have hi := (Slot.takeFailure_fst_eq_some_iff _ _).1 hf
      obtain ⟨h1, h2⟩ := hg.next i f hi
      show Spent _ (gone ++ [i])
      refine ⟨?_, ?_, ?_, fun j _ => hno j, fun j f h => absurd h (hno j f)⟩
      · rw [← List.concat_eq_append]
        exact List.Nodup.concat (fun h => hg.elsewhere i h f hi) hg.nodup
      · exact List.forall_mem_append.2 ⟨hg.started, List.forall_mem_singleton.2 h1⟩
      · exact List.forall_mem_append.2 ⟨hg.ended, List.forall_mem_singleton.2 h2⟩
  · rw [failure?_step _ fun k hk => hm ⟨k, Move.eq_take_of_named hk⟩]
    show Spent _ (gone ++ [])
    rw [List.append_nil]
    cases m with
    | start k =>
      by_cases hr : w.slot = .running
      · rw [Move.named, step_start_of_running hr]
        exact hg
      · rw [Move.named, step_start_of_not_running hr]
        refine ⟨hg.nodup, fun i hi => Nat.lt_succ_of_lt (hg.started i hi), ?_, nofun, nofun⟩
        intro i hi hu
        rcases List.mem_append.1 hu with hu | hu
        · exact hg.ended i hi hu
        · exact absurd (hg.started i hi) (by rw [List.mem_singleton.1 hu]; omega)
    | take k => exact absurd ⟨k, rfl⟩ hm
    | wait k => exact hg
    | finish task failure =>
      by_cases ht : task ∈ w.unfinished
      · obtain ⟨_, hlt, hu⟩ := hw.of_mem ht
        have he : w.unfinished.erase task = [] := by rw [hu, List.erase_cons_head]
        rw [Move.named, step_finish ht, he]
        refine ⟨hg.nodup, hg.started, fun _ _ => List.not_mem_nil, ?_, ?_⟩
        · intro i hi f h
          exact hg.ended i hi (task_eq_of_ended h ▸ ht)
        · intro i f h
          rw [← task_eq_of_ended h]
          exact ⟨by show task < w.started; omega, List.not_mem_nil⟩
      · rw [Move.named, step_finish_of_notMem ht]
        exact hg

theorem spent_named (ms : List (Move ε)) : Spent (named ms) ((given ms).map Prod.fst) := by
  induction ms using List.reverseRecOn with
  | nil => exact spent_new
  | append_singleton ms m ih =>
    rw [given_concat, List.map_append, named_concat]
    exact ih.step (sound_after _) m

/-! ## the slot of a worker -/

/-- what each move does to a worker that keeps one task at a time -/
structure SingleSlot (w : Worker ε) : Prop where
  /-- while the slot is running just one task has not ended, and at any other time all have -/
  tasks : w.unfinished.length = if w.slot.isRunning then 1 else 0
  /-- a call answers that it started a task just when there is one task more -/
  started_iff : ∀ k, (w.step (.start k)).1 = .started true ↔
    (w.step (.start k)).2 = ⟨.running, w.started + 1, w.unfinished ++ [w.started]⟩
  free_iff : ∀ k, (w.step (.start k)).1 = .started true ↔ w.slot ≠ .running
  refused : ∀ k, (w.step (.start k)).1 ≠ .started true →
    w.step (.start k) = (.started false, w)
  /-- a task that ends leaves its own failure, or none, in a slot that was running -/
  finish : ∀ task ∈ w.unfinished, ∀ failure, w.slot = .running ∧
    (w.step (.finish task failure)).2 = ⟨.ended failure, w.started, []⟩
  /-- only a failure that is in the slot can be taken, and the slot is idle then -/
  took_iff : ∀ k f, (w.step (.take k)).1 = .took (some f) ↔ w.slot = .ended (some f)
  took_none : ∀ k, (∀ f, w.slot ≠ .ended (some f)) → (w.step (.take k)).1 = .took none
  emptied : ∀ k failure, w.slot = .ended failure → (w.step (.take k)).2 = { w with slot := .idle }
  undisturbed : ∀ k, w.slot = .running → w.step (.take k) = (.took none, w)
  /-- a wait is over just when no task is running, and changes nothing -/
  waited_iff : ∀ k, (w.step (.wait k)).1 = .waited true ↔ w.slot ≠ .running
  waited : ∀ k, (w.step (.wait k)).2 = w

theorem Sound.singleSlot {w : Worker ε} (hw : w.Sound) : w.SingleSlot where
  tasks := hw.length_unfinished
  started_iff k := by
    by_cases hr : w.slot = .running
    · rw [step_start_of_running hr]
      refine ⟨nofun, fun h => ?_⟩
      have h1 : w.started = w.started + 1 := congrArg Worker.started h
      omega
    · rw [step_start_of_not_running hr]
      exact ⟨fun _ => rfl, fun _ => rfl⟩
  free_iff k := by
    by_cases hr : w.slot = .running
    · rw [step_start_of_running hr]
      exact ⟨nofun, fun h => absurd hr h⟩
    · rw [step_start_of_not_running hr]
      exact ⟨fun _ => hr, fun _ => rfl⟩
  refused k h := by
    by_cases hr : w.slot = .running
    · exact step_start_of_running hr k
    · rw [step_start_of_not_running hr] at h
      exact absurd rfl h
  finish task ht failure := by
    obtain ⟨hr, _, hu⟩ := hw.of_mem ht
    refine ⟨hr, ?_⟩
    rw [step_finish ht, hu, List.erase_cons_head]
  took_iff k f := by
    rw [step_take, Answer.took.injEq]
    exact Slot.takeFailure_fst_eq_some_iff _ _
  took_none k h := by
    rw [step_take, Answer.took.injEq, Option.eq_none_iff_forall_ne_some]
    exact fun f hf => h f ((Slot.takeFailure_fst_eq_some_iff _ _).1 hf)
  emptied k failure h := by
    rw [step_take, h]
    rfl
  undisturbed k h := step_take_of_running h k
  waited_iff k := by
    rw [step_wait, Answer.waited.injEq, Bool.not_eq_true', ← Bool.not_eq_true, Slot.isRunning_iff]
  waited _ := rfl

/-- **A worker runs one task at a time and loses no failure.**  In every reachable state the moves
do what `SingleSlot` says.  Over the whole run no failure of a task is handed out twice,
and it is handed out if and only if it is taken in time; what is handed out is what was captured,
and only the names are missing from it. -/
theorem single_slot (ms : List (Move ε)) :
    (new.after ms).SingleSlot ∧
      ((given ms).map Prod.fst).Nodup ∧
      (∀ task f, (task, f) ∈ given ms ↔ TakenInTime (new.history ms) task f) ∧
      (given ms).map Prod.snd = handedOut (new.history ms) :=
  ⟨(sound_after ms).singleSlot, (spent_named ms).nodup, mem_given_iff ms, map_snd_given ms⟩

example : handedOut (new.history [.start 0, .finish 0 (some 'a'), .start 1, .finish 1 (some 'b'),
    .take 0, .take 1]) = ['b'] := rfl

end

end Worker

end Federation
