import Federation.Credentials.Slot
import Mathlib.Data.List.Induction
import Mathlib.Data.List.Nodup

/-!
# Workers

The clones of a worker share one slot, and each of them may at any time start a task, take what
the last task has left, or wait for it.  A task that was started ends at some time, with a failure
or without one.  `Worker.step` is one such move, `Worker.history` what the moves of a run were
answered.

* `Worker.sound_after`    in every reachable state the slot is running if and only if one task has
                          not ended, and there is never a second one;
* `Worker.Sound.of_mem`   only the task that was started last can end, and the slot is running then.
-/

namespace Federation

structure Worker (ε : Type) where
  slot : Slot ε
  /-- how many tasks were started; the name of a task is the number of those before it -/
  started : Nat
  unfinished : List Nat

namespace Worker

/-- what may happen to a worker.  The clones are told apart by numbers. -/
inductive Move (ε : Type) where
  | start (clone : Nat)
  | take (clone : Nat)
  | wait (clone : Nat)
  | finish (task : Nat) (failure : Option ε)

/-- what a move returns.  A wait says whether it is over, an end whether there was such a task. -/
inductive Answer (ε : Type) where
  | started (yes : Bool)
  | took (failure : Option ε)
  | waited (done : Bool)
  | finished (yes : Bool)

section
variable {ε : Type}

def new : Worker ε := ⟨.idle, 0, []⟩

def step (w : Worker ε) : Move ε → Answer ε × Worker ε
  | .start _ => match w.slot.start? with
    | some slot => (.started true, ⟨slot, w.started + 1, w.unfinished ++ [w.started]⟩)
    | none => (.started false, w)
  | .take _ => (.took w.slot.takeFailure.1, { w with slot := w.slot.takeFailure.2 })
  | .wait _ => (.waited !w.slot.isRunning, w)
  | .finish task failure =>
    if task ∈ w.unfinished then
      (.finished true, { w with slot := .ended failure, unfinished := w.unfinished.erase task })
    else (.finished false, w)

def after (w : Worker ε) (ms : List (Move ε)) : Worker ε := ms.foldl (fun w m => (w.step m).2) w

/-- the moves of a run with their answers -/
def history (w : Worker ε) : List (Move ε) → List (Move ε × Answer ε)
  | [] => []
  | m :: ms => (m, (w.step m).1) :: history (w.step m).2 ms

theorem after_concat (w : Worker ε) (ms : List (Move ε)) (m : Move ε) :
    w.after (ms ++ [m]) = ((w.after ms).step m).2 := by
  simp [after, List.foldl_append]

theorem history_concat (w : Worker ε) (ms : List (Move ε)) (m : Move ε) :
    w.history (ms ++ [m]) = w.history ms ++ [(m, ((w.after ms).step m).1)] := by
  induction ms generalizing w with
  | nil => rfl
  | cons m' ms ih =>
    show (m', _) :: (w.step m').2.history (ms ++ [m]) = _
    rw [ih]
    rfl

/-! ## what each move does -/

theorem step_start_of_running {w : Worker ε} (hw : w.slot = .running) (k : Nat) :
    w.step (.start k) = (.started false, w) := by
  simp only [step, hw, Slot.start?]

theorem step_start_of_not_running {w : Worker ε} (hw : w.slot ≠ .running) (k : Nat) :
    w.step (.start k)
      = (.started true, ⟨.running, w.started + 1, w.unfinished ++ [w.started]⟩) := by
  cases hs : w.slot with
  | running => exact absurd hs hw
  | idle => simp only [step, hs, Slot.start?]
  | ended f => simp only [step, hs, Slot.start?]

theorem step_take (w : Worker ε) (k : Nat) :
    w.step (.take k) = (.took w.slot.takeFailure.1, { w with slot := w.slot.takeFailure.2 }) := rfl

theorem step_take_of_running {w : Worker ε} (hw : w.slot = .running) (k : Nat) :
    w.step (.take k) = (.took none, w) := by
  rw [step_take, hw, Slot.takeFailure_running, ← hw]

theorem step_wait (w : Worker ε) (k : Nat) : w.step (.wait k) = (.waited !w.slot.isRunning, w) :=
  rfl

theorem step_finish {w : Worker ε} {task : Nat} (ht : task ∈ w.unfinished) (failure : Option ε) :
    w.step (.finish task failure) = (.finished true,
      { w with slot := .ended failure, unfinished := w.unfinished.erase task }) := by
  simp only [step, if_pos ht]

theorem step_finish_of_notMem {w : Worker ε} {task : Nat} (ht : task ∉ w.unfinished)
    (failure : Option ε) : w.step (.finish task failure) = (.finished false, w) := by
  simp only [step, if_neg ht]

/-! ## one task at a time -/

/-- what a worker keeps to: while the slot is running just the task that was started last has not
ended, and at any other time all have -/
def Sound (w : Worker ε) : Prop :=
  (w.slot = .running ∧ ∃ task, task + 1 = w.started ∧ w.unfinished = [task]) ∨
    (w.slot ≠ .running ∧ w.unfinished = [])

theorem sound_new : (new : Worker ε).Sound := .inr ⟨nofun, rfl⟩

theorem Sound.of_mem {w : Worker ε} (hw : w.Sound) {task : Nat} (ht : task ∈ w.unfinished) :
    w.slot = .running ∧ task + 1 = w.started ∧ w.unfinished = [task] := by
  rcases hw with ⟨hr, t, h1, hu⟩ | ⟨_, hu⟩
  · rw [hu, List.mem_singleton] at ht
    subst ht
    exact ⟨hr, h1, hu⟩
  · rw [hu] at ht
    exact absurd ht List.not_mem_nil

theorem Sound.length_unfinished {w : Worker ε} (hw : w.Sound) :
    w.unfinished.length = if w.slot.isRunning then 1 else 0 := by
  rcases hw with ⟨hr, t, _, hu⟩ | ⟨hr, hu⟩
  · rw [hr, hu]
    rfl
  · rw [hu, if_neg ((Slot.isRunning_iff _).not.2 hr)]
    rfl

theorem Sound.step {w : Worker ε} (hw : w.Sound) (m : Move ε) : (w.step m).2.Sound := by
  cases m with
  | start k =>
    by_cases hr : w.slot = .running
    · rw [step_start_of_running hr]
      exact hw
    · have hu : w.unfinished = [] := (hw.resolve_left fun h => hr h.1).2
      rw [step_start_of_not_running hr]
      exact .inl ⟨rfl, w.started, rfl, by rw [hu, List.nil_append]⟩
  | take k =>
    by_cases hr : w.slot = .running
    · rw [step_take_of_running hr]
      exact hw
    · rw [step_take]
      exact .inr ⟨Slot.takeFailure_ne_running hr, (hw.resolve_left fun h => hr h.1).2⟩
  | wait k => exact hw
  | finish task failure =>
    by_cases ht : task ∈ w.unfinished
    · obtain ⟨_, _, hu⟩ := hw.of_mem ht
      rw [step_finish ht]
      exact .inr ⟨nofun, by rw [hu, List.erase_cons_head]⟩
    · rw [step_finish_of_notMem ht]
      exact hw

theorem sound_after (ms : List (Move ε)) : (new.after ms).Sound := by
  induction ms using List.reverseRecOn with
  | nil => exact sound_new
  | append_singleton ms m ih =>
    rw [after_concat]
    exact ih.step m

end

end Worker

end Federation
