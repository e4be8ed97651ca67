/-!
# The slot of a background refresh

At most one refresh runs in the background.  When it has ended its failure, if any, stays in the
slot until it is taken or the next refresh starts.
-/

namespace Federation

/-- a slot for refreshes that fail with a `ε` -/
inductive Slot (ε : Type) where
  | idle
  | running
  | ended (failure : Option ε)
  deriving DecidableEq, Repr

namespace Slot

variable {ε : Type}

/-- the slot of a refresh that starts; none while another one runs -/
def start? : Slot ε → Option (Slot ε)
  | .running => none
  | _ => some .running

def takeFailure : Slot ε → Option ε × Slot ε
  | .ended failure => (failure, .idle)
  | s => (none, s)

def isRunning : Slot ε → Bool
  | .running => true
  | _ => false

theorem isRunning_iff (s : Slot ε) : s.isRunning = true ↔ s = .running := by
  cases s <;> simp [isRunning]

theorem takeFailure_running : takeFailure (.running : Slot ε) = (none, .running) := rfl

theorem isRunning_takeFailure (s : Slot ε) : s.takeFailure.2.isRunning = s.isRunning := by
  cases s <;> rfl

theorem takeFailure_fst_eq_some_iff (s : Slot ε) (f : ε) :
    s.takeFailure.1 = some f ↔ s = .ended (some f) := by
  cases s <;> simp [takeFailure]

theorem takeFailure_snd_ne_ended (s : Slot ε) (failure : Option ε) :
    s.takeFailure.2 ≠ .ended failure := by
  cases s with
  | running => nofun
  | idle => nofun
  | ended f => nofun

theorem takeFailure_ne_running {s : Slot ε} (hs : s ≠ .running) :
    s.takeFailure.2 ≠ .running := by
  cases s with
  | running => exact absurd rfl hs
  | idle => nofun
  | ended f => nofun

end Slot

end Federation
