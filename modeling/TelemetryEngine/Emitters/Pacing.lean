import Mathlib.Algebra.BigOperators.Group.List.Basic
import TelemetryEngine.Emitters.Load

/-! The accounts of the token bucket. Whatever the calls of `acquire` earn is granted,
carried as the fraction of one item, or cut off by the cap. -/
namespace TelemetryEngine.Emitters
open Foundation Foundation.Rounding

/-- A call of `acquire`: the reading of the clock, and the rate passed. -/
structure Acquire where
  now : ℚ
  ratePerSec : ℚ

namespace RateLimiter

def made (now maxBurstCredit : ℚ) : RateLimiter where
  last := now
  maxBurstCredit

def step (limiter : RateLimiter) (call : Acquire) : RateLimiter :=
  (limiter.acquire call.now call.ratePerSec).1

def after (limiter : RateLimiter) (calls : List Acquire) : RateLimiter :=
  calls.foldl step limiter

def grants (limiter : RateLimiter) : List Acquire → List Int
  | [] => []
  | call :: rest =>
    (limiter.acquire call.now call.ratePerSec).2 :: (limiter.step call).grants rest

/-- The credit a call adds. -/
def earns (limiter : RateLimiter) (call : Acquire) : ℚ :=
  limiter.elapsed call.now * call.ratePerSec

def earned (limiter : RateLimiter) : List Acquire → ℚ
  | [] => 0
  | call :: rest => limiter.earns call + (limiter.step call).earned rest

/-- The call is not cut by the cap. -/
def Uncut (limiter : RateLimiter) (call : Acquire) : Prop :=
  limiter.credit + limiter.earns call ≤ limiter.maxBurstCredit

instance (limiter : RateLimiter) (call : Acquire) : Decidable (limiter.Uncut call) :=
  inferInstanceAs (Decidable (_ ≤ _))

/-- Between two calls less than one item is left. -/
structure Sound (limiter : RateLimiter) : Prop where
  cap : 0 ≤ limiter.maxBurstCredit
  nonneg : 0 ≤ limiter.credit
  fraction : limiter.credit < 1

variable {limiter : RateLimiter} {call : Acquire} {calls : List Acquire}

@[simp] theorem step_last : (limiter.step call).last = call.now := rfl

theorem earns_nonneg (rate : 0 ≤ call.ratePerSec) : 0 ≤ limiter.earns call :=
  mul_nonneg (le_max_left _ _) rate

theorem Sound.banked_nonneg (sound : limiter.Sound) (rate : 0 ≤ call.ratePerSec) :
    0 ≤ min limiter.maxBurstCredit (limiter.credit + limiter.earns call) :=
  le_min sound.cap (add_nonneg sound.nonneg (earns_nonneg rate))

theorem Sound.acquire_eq (sound : limiter.Sound) (rate : 0 ≤ call.ratePerSec) :
    let banked := min limiter.maxBurstCredit (limiter.credit + limiter.earns call)
    limiter.acquire call.now call.ratePerSec =
      ({ limiter with last := call.now, credit := Int.fract banked }, ⌊banked⌋) := by
  have nonneg := sound.banked_nonneg rate
  intro banked
  have whole : truncate banked = ⌊banked⌋ := if_pos nonneg
  rw [← Int.self_sub_floor, ← whole]
  rfl

theorem Sound.step (sound : limiter.Sound) (rate : 0 ≤ call.ratePerSec) :
    (limiter.step call).Sound := by
  rw [RateLimiter.step, sound.acquire_eq rate]
  exact ⟨sound.cap, Int.fract_nonneg _, Int.fract_lt_one _⟩

/-- A call's grant and the fraction it leaves are what was banked, up to the cap. -/
theorem Sound.balance (sound : limiter.Sound) (rate : 0 ≤ call.ratePerSec) :
    ((limiter.acquire call.now call.ratePerSec).2 : ℚ) + (limiter.step call).credit =
      min limiter.maxBurstCredit (limiter.credit + limiter.earns call) := by
  rw [RateLimiter.step, sound.acquire_eq rate]
  exact Int.floor_add_fract _

theorem Sound.grant_le_cap (sound : limiter.Sound) (rate : 0 ≤ call.ratePerSec) :
    ((limiter.acquire call.now call.ratePerSec).2 : ℚ) ≤ limiter.maxBurstCredit := by
  rw [sound.acquire_eq rate]
  exact (Int.floor_le _).trans (min_le_left _ _)

theorem Sound.after (sound : limiter.Sound) (rates : ∀ call ∈ calls, 0 ≤ call.ratePerSec) :
    (limiter.after calls).Sound := by
  induction calls generalizing limiter with
  | nil => exact sound
  | cons call rest ih =>
    obtain ⟨rate, rates⟩ := List.forall_mem_cons.mp rates
    exact ih (sound.step rate) rates

theorem Sound.grants_le_cap (sound : limiter.Sound)
    (rates : ∀ call ∈ calls, 0 ≤ call.ratePerSec) :
    ∀ grant ∈ limiter.grants calls, (grant : ℚ) ≤ limiter.maxBurstCredit := by
  induction calls generalizing limiter with
  | nil => simp [grants]
  | cons call rest ih =>
    obtain ⟨rate, rates⟩ := List.forall_mem_cons.mp rates
    intro grant here
    obtain rfl | later := List.mem_cons.mp here
    · exact sound.grant_le_cap rate
    · exact ih (sound.step rate) rates grant later

theorem Sound.total_le (sound : limiter.Sound) (rates : ∀ call ∈ calls, 0 ≤ call.ratePerSec) :
    ((limiter.grants calls).sum : ℚ) + (limiter.after calls).credit ≤
      limiter.credit + limiter.earned calls := by
  induction calls generalizing limiter with
  | nil => simp [grants, RateLimiter.after, earned]
  | cons call rest ih =>
    obtain ⟨rate, rates⟩ := List.forall_mem_cons.mp rates
    have balance := sound.balance rate
    have banked := min_le_right limiter.maxBurstCredit (limiter.credit + limiter.earns call)
    have later := ih (sound.step rate) rates
    simp only [grants, earned, List.sum_cons, RateLimiter.after, List.foldl_cons] at later ⊢
    rw [Int.cast_add]
    linarith

/-- Where the cap cuts nothing, nothing is lost. -/
theorem Sound.total_eq (sound : limiter.Sound) (rates : ∀ call ∈ calls, 0 ≤ call.ratePerSec)
    (uncut : Meets RateLimiter.step Uncut limiter calls) :
    ((limiter.grants calls).sum : ℚ) + (limiter.after calls).credit =
      limiter.credit + limiter.earned calls := by
  induction calls generalizing limiter with
  | nil => simp [grants, RateLimiter.after, earned]
  | cons call rest ih =>
    obtain ⟨rate, rates⟩ := List.forall_mem_cons.mp rates
    obtain ⟨here, uncut⟩ := uncut
    have balance := sound.balance rate
    rw [min_eq_right here] at balance
    have later := ih (sound.step rate) rates uncut
    simp only [grants, earned, List.sum_cons, RateLimiter.after, List.foldl_cons] at later ⊢
    rw [Int.cast_add]
    linarith

theorem earned_of_rate {rate : ℚ} (clock : (limiter.last :: calls.map Acquire.now).Pairwise (· ≤ ·))
    (same : ∀ call ∈ calls, call.ratePerSec = rate) :
    limiter.earned calls = ((limiter.after calls).last - limiter.last) * rate := by
  induction calls generalizing limiter with
  | nil => simp [earned, RateLimiter.after]
  | cons call rest ih =>
    obtain ⟨here, same⟩ := List.forall_mem_cons.mp same
    rw [List.map_cons, List.pairwise_cons] at clock
    obtain ⟨later, clock⟩ := clock
    have forward : limiter.elapsed call.now = call.now - limiter.last :=
      max_eq_right (sub_nonneg.mpr (later _ List.mem_cons_self))
    rw [earned, ih (by exact clock) same, earns, forward, here]
    simp only [RateLimiter.after, List.foldl_cons, step_last]
    ring

@[simp] theorem earned_append (limiter : RateLimiter) (first second : List Acquire) :
    limiter.earned (first ++ second) = limiter.earned first + (limiter.after first).earned second := by
  induction first generalizing limiter with
  | nil => simp [earned, RateLimiter.after]
  | cons call rest ih => simp only [List.cons_append, earned, ih, add_assoc]; rfl

/-- What a limiter earns depends on the last reading of the clock only. -/
theorem earned_congr {other : RateLimiter} (same : limiter.last = other.last) :
    limiter.earned calls = other.earned calls := by
  induction calls generalizing limiter other with
  | nil => rfl
  | cons call rest ih =>
    have later : (limiter.step call).earned rest = (other.step call).earned rest := ih rfl
    rw [earned, earned, later, earns, earns, elapsed, elapsed, same]

theorem after_last (limiter : RateLimiter) (calls : List Acquire) :
    (limiter.after calls).last = (calls.map Acquire.now).getLastD limiter.last := by
  induction calls generalizing limiter with
  | nil => rfl
  | cons call rest ih =>
    rw [List.map_cons, List.getLastD_cons]
    exact ih (limiter.step call)

theorem made_total_eq {now cap : ℚ} (capNonneg : 0 ≤ cap)
    (rates : ∀ call ∈ calls, 0 ≤ call.ratePerSec)
    (uncut : Meets RateLimiter.step Uncut (made now cap) calls) :
    ((made now cap).grants calls).sum = ⌊(made now cap).earned calls⌋ := by
  have sound : (made now cap).Sound := ⟨capNonneg, le_rfl, one_pos⟩
  have total := sound.total_eq rates uncut
  have fraction := sound.after rates
  rw [eq_comm, Int.floor_eq_iff]
  constructor <;> linarith [fraction.nonneg, fraction.fraction, show (made now cap).credit = 0 from rfl]

end RateLimiter

/-- What the bucket keeps to after some calls on a new limiter. -/
structure Conserved (made cap : ℚ) (calls : List Acquire) : Prop where
  credit_nonneg : 0 ≤ ((RateLimiter.made made cap).after calls).credit
  credit_lt_one : ((RateLimiter.made made cap).after calls).credit < 1
  grant_le_cap : ∀ grant ∈ (RateLimiter.made made cap).grants calls, (grant : ℚ) ≤ cap
  total_le_earned :
    (((RateLimiter.made made cap).grants calls).sum : ℚ) ≤ (RateLimiter.made made cap).earned calls
  total_eq_floor :
    Meets RateLimiter.step RateLimiter.Uncut (RateLimiter.made made cap) calls →
      ((RateLimiter.made made cap).grants calls).sum = ⌊(RateLimiter.made made cap).earned calls⌋

/-- `division` covers the time of `segment` by other calls at the same rate. -/
structure Redivides (start : ℚ) (segment division : List Acquire) : Prop where
  rate : ∃ rate, 0 ≤ rate ∧ ∀ call ∈ segment ++ division, call.ratePerSec = rate
  clock : (start :: division.map Acquire.now).Pairwise (· ≤ ·)
  ends : (division.map Acquire.now).getLastD start = (segment.map Acquire.now).getLastD start

namespace RateLimiter
variable {limiter : RateLimiter} {segment division rest : List Acquire}

theorem clock_after (limiter : RateLimiter)
    (clock : (limiter.last :: (segment ++ rest).map Acquire.now).Pairwise (· ≤ ·)) :
    ((limiter.after segment).last :: rest.map Acquire.now).Pairwise (· ≤ ·) := by
  induction segment generalizing limiter with
  | nil => exact clock
  | cons call segment ih => exact ih (limiter.step call) (List.pairwise_cons.mp clock).2

theorem earned_redivided
    (clock : (limiter.last :: (segment ++ rest).map Acquire.now).Pairwise (· ≤ ·))
    (redivides : Redivides limiter.last segment division) :
    limiter.earned (segment ++ rest) = limiter.earned (division ++ rest) := by
  obtain ⟨rate, -, same⟩ := redivides.rate
  obtain ⟨first, second⟩ := List.forall_mem_append.mp same
  have ends : (limiter.after segment).last = (limiter.after division).last := by
    rw [after_last, after_last, redivides.ends]
  have segmentClock : (limiter.last :: segment.map Acquire.now).Pairwise (· ≤ ·) :=
    clock.sublist ((List.sublist_append_left segment rest).map _ |>.cons_cons _)
  rw [earned_append, earned_append, earned_of_rate segmentClock first,
    earned_of_rate redivides.clock second, ends, earned_congr ends]

end RateLimiter

open RateLimiter

theorem conserved_of_rates {now cap : ℚ} {calls : List Acquire} (capNonneg : 0 ≤ cap)
    (rates : ∀ call ∈ calls, 0 ≤ call.ratePerSec) : Conserved now cap calls := by
  have sound : (made now cap).Sound := ⟨capNonneg, le_rfl, one_pos⟩
  have left := sound.after rates
  have total := sound.total_le rates
  exact
    { credit_nonneg := left.nonneg
      credit_lt_one := left.fraction
      grant_le_cap := sound.grants_le_cap rates
      total_le_earned := by linarith [left.nonneg, show (made now cap).credit = 0 from rfl]
      total_eq_floor := made_total_eq capNonneg rates }

/-- The bucket conserves credit after every call, and where the cap cuts nothing it does
not matter how a time at one rate is divided into calls. -/
theorem limiter_conserves (now cap : ℚ) (calls : List Acquire) (capNonneg : 0 ≤ cap)
    (clock : (now :: calls.map Acquire.now).Pairwise (· ≤ ·))
    (rates : ∀ call ∈ calls, 0 ≤ call.ratePerSec) :
    (∀ moment, moment <+: calls → Conserved now cap moment) ∧
    ∀ before segment division rest, calls = before ++ (segment ++ rest) →
      Redivides ((before.map Acquire.now).getLastD now) segment division →
      Meets RateLimiter.step Uncut (made now cap) calls →
      Meets RateLimiter.step Uncut (made now cap) (before ++ (division ++ rest)) →
      ((made now cap).grants calls).sum =
        ((made now cap).grants (before ++ (division ++ rest))).sum := by
  refine ⟨fun moment cut => conserved_of_rates capNonneg fun call here =>
    rates call (cut.subset here), ?_⟩
  rintro before segment division rest rfl redivides uncut other
  have otherRates : ∀ call ∈ before ++ (division ++ rest), 0 ≤ call.ratePerSec := by
    obtain ⟨rate, nonneg, same⟩ := redivides.rate
    intro call here
    simp only [List.mem_append] at rates here same
    obtain early | here | late := here
    · exact rates call (.inl early)
    · exact (same call (.inr here)).symm ▸ nonneg
    · exact rates call (.inr (.inr late))
  have reading : ((made now cap).after before).last = (before.map Acquire.now).getLastD now :=
    after_last _ _
  rw [← reading] at redivides
  rw [made_total_eq capNonneg rates uncut, made_total_eq capNonneg otherRates other,
    earned_append _ before, earned_append _ before,
    earned_redivided (clock_after (made now cap) clock) redivides]

/-- Half an item is carried from the first call to the second. -/
theorem limiter_conserves_carried :
    let calls : List Acquire := [⟨1 / 2000, 5000⟩, ⟨1 / 1000, 5000⟩]
    (∀ moment, moment <+: calls → Conserved 0 5000 moment) ∧
    ∀ before segment division rest, calls = before ++ (segment ++ rest) →
      Redivides ((before.map Acquire.now).getLastD 0) segment division →
      Meets RateLimiter.step Uncut (made 0 5000) calls →
      Meets RateLimiter.step Uncut (made 0 5000) (before ++ (division ++ rest)) →
      ((made 0 5000).grants calls).sum =
        ((made 0 5000).grants (before ++ (division ++ rest))).sum :=
  limiter_conserves 0 5000 _ (by norm_num) (by norm_num) (by norm_num)

end TelemetryEngine.Emitters
