import Mathlib.Algebra.BigOperators.Group.List.Basic
import Mathlib.Algebra.Order.BigOperators.Group.List
import Mathlib.Algebra.Order.Ring.Nat

/-! Cumulative counters that start over. A process adds to its counters, an outsider
reads them now and then, and a restart throws them away. Two readings differ by what
was added between them, less what the restarts between them threw away. -/
namespace Foundation.Counters

inductive Event (α ι : Type) where
  | add (count : α)
  | reset
  /-- A reading, under whatever its reader notes beside it. -/
  | read (note : ι)

variable {α β ι : Type} [AddCommMonoid α] [AddCommMonoid β]

def value : α → List (Event α ι) → α
  | now, [] => now
  | now, .add count :: rest => value (now + count) rest
  | _, .reset :: rest => value 0 rest
  | now, .read _ :: rest => value now rest

def added : List (Event α ι) → α
  | [] => 0
  | .add count :: rest => count + added rest
  | .reset :: rest | .read _ :: rest => added rest

def lost : α → List (Event α ι) → List α
  | _, [] => []
  | now, .add count :: rest => lost (now + count) rest
  | now, .reset :: rest => now :: lost 0 rest
  | now, .read _ :: rest => lost now rest

def readings : α → List (Event α ι) → List (ι × α)
  | _, [] => []
  | now, .add count :: rest => readings (now + count) rest
  | _, .reset :: rest => readings 0 rest
  | now, .read note :: rest => (note, now) :: readings now rest

theorem value_add_lost (now : α) (events : List (Event α ι)) :
    value now events + (lost now events).sum = now + added events := by
  induction events generalizing now with
  | nil => simp [value, lost, added]
  | cons event rest ih =>
    cases event with
    | add count => rw [value, lost, added, ih, add_assoc]
    | reset =>
      rw [value, lost, added, List.sum_cons, add_left_comm, ih, zero_add]
    | read => rw [value, lost, added, ih]

theorem map_value_add_lost (f : α →+ β) (now : α) (events : List (Event α ι)) :
    f (value now events) + ((lost now events).map f).sum = f now + f (added events) := by
  rw [← map_list_sum, ← map_add, value_add_lost, map_add]

/-- The difference of two readings is what was counted exactly when every restart
between them found nothing to throw away. -/
theorem difference_eq_iff (f : α →+ ℕ) (now : α) (events : List (Event α ι)) :
    (f (value now events) : ℤ) - f now = f (added events) ↔ ∀ gone ∈ lost now events, f gone = 0 := by
  have kept := map_value_add_lost f now events
  rw [← List.forall_mem_map (f := f) (P := (· = 0)), ← List.sum_eq_zero_iff]
  omega

end Foundation.Counters
