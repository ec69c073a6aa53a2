import Mathlib.Data.PNat.Basic
import TelemetryEngine.Foundation.Traced
import TelemetryEngine.Emitters.Workload

/-! `emitters/load.py`, the loop of one worker, and the token bucket that paces it. A
grant is spent in whole traces. What the last trace of a batch emits beyond the grant
is charged to nobody, so the next grant may come before it has been earned. Clock
readings and rates are exact. -/
namespace TelemetryEngine.Emitters
open Foundation Foundation.Rounding

/-! ### Rate shaping -/

inductive Profile where
  | steady | burst | ramp
  deriving DecidableEq, Repr

structure LoadProfile where
  profile : Profile
  sustainedSpansPerSec : Int
  burstSpansPerSec : Int
  burstPeriodS : ℚ := 30
  burstDurationS : ℚ := 8
  rampDurationS : ℚ := 120

section
variable {K : Type} [Field K] [LinearOrder K] [FloorRing K]

/-- `%` on floats. -/
def floatMod (x period : K) : K := x - period * ⌊x / period⌋

/-- Spans/s the generator should be producing after some time. -/
def LoadProfile.targetRate (load : LoadProfile) (elapsedS : K) : K :=
  match load.profile with
  | .steady => load.sustainedSpansPerSec
  | .burst =>
    if floatMod elapsedS load.burstPeriodS < load.burstDurationS then load.burstSpansPerSec
    else load.sustainedSpansPerSec
  | .ramp =>
    let fraction := min 1 (elapsedS / load.rampDurationS)
    let low : K := load.sustainedSpansPerSec * (1 / 10)
    low + (load.burstSpansPerSec - low) * fraction

end

def climb {K : Type} [Field K] (sustained burst : Int) : K := burst - sustained * (1 / 10)

/-- Token-bucket pacer for a variable target rate. -/
structure RateLimiter where
  last : ℚ
  credit : ℚ := 0
  maxBurstCredit : ℚ := 5000

/-- The clock never runs backwards for the limiter. -/
def RateLimiter.elapsed (limiter : RateLimiter) (now : ℚ) : ℚ := max 0 (now - limiter.last)

/-- How many items may be emitted now. Credit is capped, so that a stalled generator
cannot bank unlimited allowance. -/
def RateLimiter.acquire (limiter : RateLimiter) (now ratePerSec : ℚ) : RateLimiter × Int :=
  let credit := min limiter.maxBurstCredit (limiter.credit + limiter.elapsed now * ratePerSec)
  let whole := truncate credit
  ({ limiter with last := now, credit := credit - whole }, whole)

/-! ### The worker -/

/-- What a worker is given, and the lengths of the traces it will generate. -/
structure LoadRun where
  load : LoadProfile
  rateShare : ℚ
  durationS : ℚ
  /-- When the limiter was made, and when the loop was entered. -/
  limiterMade : ℚ
  started : ℚ
  sizes : ℕ → ℕ+

/-- The readings of the clock by one pass of the loop: its own and the limiter's. -/
structure Tick where
  loop : ℚ
  limiter : ℚ

structure Worker where
  limiter : RateLimiter
  spans : ℕ := 0
  traces : ℕ := 0
  /-- The grant under way, and what has been emitted of it. -/
  allowance : Int := 0
  emitted : ℕ := 0
  finished : Bool := false
  /-- What the polls have earned so far, and the longest trace. The code keeps neither. -/
  earned : ℚ := 0
  largest : ℕ := 0

/-- Spans emitted so far. -/
def Worker.total (worker : Worker) : ℕ := worker.spans + worker.emitted

namespace LoadRun

def initial (run : LoadRun) : Worker where
  limiter := { last := run.limiterMade }

def rate (run : LoadRun) (tick : Tick) : ℚ :=
  run.load.targetRate (tick.loop - run.started) * run.rateShare

def emit (run : LoadRun) (worker : Worker) : Worker :=
  { worker with
    emitted := worker.emitted + run.sizes worker.traces
    traces := worker.traces + 1
    largest := max worker.largest (run.sizes worker.traces) }

/-- Account for the last batch and ask the limiter for the next. -/
def poll (run : LoadRun) (worker : Worker) (tick : Tick) : Worker :=
  let granted := worker.limiter.acquire tick.limiter (run.rate tick)
  { worker with
    limiter := granted.1
    spans := worker.total
    allowance := granted.2
    emitted := 0
    earned := worker.earned + worker.limiter.elapsed tick.limiter * run.rate tick }

/-- `while emitted < allowance` inside `while True`. -/
def step (run : LoadRun) (worker : Worker) (tick : Tick) : Worker :=
  if worker.finished then worker
  else if worker.emitted < worker.allowance then run.emit worker
  else if run.durationS ≤ tick.loop - run.started then { worker with finished := true }
  else run.poll worker tick

def after (run : LoadRun) (ticks : List Tick) : Worker := ticks.foldl run.step run.initial

end LoadRun

/-- The bound: what was earned, and one trace. -/
def Worker.Bounded (worker : Worker) : Prop := worker.total ≤ worker.earned + worker.largest

instance (worker : Worker) : Decidable worker.Bounded :=
  inferInstanceAs (Decidable ((worker.total : ℚ) ≤ worker.earned + worker.largest))

/-- The rate is not negative, and what the limiter grants with this tick brings the
spans emitted to at most one more than was earned. -/
@[mk_iff]
structure LoadRun.Granted (run : LoadRun) (worker : Worker) (tick : Tick) : Prop where
  rate : 0 ≤ run.rate tick
  covered : 0 < (worker.limiter.acquire tick.limiter (run.rate tick)).2 →
    worker.total + (worker.limiter.acquire tick.limiter (run.rate tick)).2 ≤
      worker.earned + worker.limiter.elapsed tick.limiter * run.rate tick + 1

instance (run : LoadRun) (worker : Worker) (tick : Tick) : Decidable (run.Granted worker tick) :=
  decidable_of_iff' _ (run.granted_iff worker tick)

/-- A step inside a batch, or a covered grant. -/
def LoadRun.Covered (run : LoadRun) (worker : Worker) (tick : Tick) : Prop :=
  worker.emitted < worker.allowance ∨ run.Granted worker tick

instance (run : LoadRun) (worker : Worker) (tick : Tick) : Decidable (run.Covered worker tick) :=
  inferInstanceAs (Decidable (_ ∨ _))

/-- Kept by every step: the bound, and room for the rest of the batch under way. -/
structure Worker.Paced (worker : Worker) : Prop where
  bounded : worker.Bounded
  room : worker.emitted < worker.allowance → worker.spans + worker.allowance ≤ worker.earned + 1

variable {run : LoadRun} {worker : Worker} {tick : Tick}

theorem LoadRun.step_in_batch (going : worker.finished = false)
    (open_ : worker.emitted < worker.allowance) : run.step worker tick = run.emit worker := by
  rw [LoadRun.step, going, if_neg Bool.false_ne_true, if_pos open_]

theorem LoadRun.emit_paced (paced : worker.Paced) (open_ : worker.emitted < worker.allowance) :
    (run.emit worker).Paced := by
  have room := paced.room open_
  refine ⟨?_, fun _ => room⟩
  have below : (worker.emitted : ℚ) + 1 ≤ worker.allowance := by exact_mod_cast open_
  have longest : ((run.sizes worker.traces : ℕ) : ℚ) ≤ (run.emit worker).largest := by
    exact_mod_cast le_max_right _ _
  simp only [Worker.Bounded, Worker.total, LoadRun.emit] at longest ⊢
  push_cast at longest ⊢
  linarith

theorem LoadRun.poll_paced (paced : worker.Paced) (granted : run.Granted worker tick) :
    (run.poll worker tick).Paced := by
  have earns : 0 ≤ worker.limiter.elapsed tick.limiter * run.rate tick :=
    mul_nonneg (le_max_left _ _) granted.rate
  have bounded := paced.bounded
  constructor
  · simp only [Worker.Bounded, Worker.total, LoadRun.poll] at bounded ⊢
    push_cast at bounded ⊢
    linarith
  · intro more
    exact granted.covered (by simpa [LoadRun.poll] using more)

theorem LoadRun.step_paced (paced : worker.Paced) (covered : run.Covered worker tick) :
    (run.step worker tick).Paced := by
  unfold LoadRun.step
  split
  · exact paced
  · split
    case isTrue open_ => exact LoadRun.emit_paced paced open_
    case isFalse done =>
      split
      · exact ⟨paced.bounded, paced.room⟩
      · exact LoadRun.poll_paced paced (covered.resolve_left done)

theorem LoadRun.run_paced {ticks : List Tick} (paced : worker.Paced)
    (covered : Meets run.step run.Covered worker ticks) : (ticks.foldl run.step worker).Paced := by
  induction ticks generalizing worker with
  | nil => exact paced
  | cons tick rest ih =>
    obtain ⟨here, later⟩ := covered
    exact ih (LoadRun.step_paced paced here) later

theorem LoadRun.initial_paced (run : LoadRun) : run.initial.Paced :=
  ⟨by simp [Worker.Bounded, Worker.total, LoadRun.initial], by simp [LoadRun.initial]⟩

/-- While every grant is covered by what was earned, the worker is never more than one
trace ahead, at any moment of its loop. -/
theorem load_bounded (run : LoadRun) {ticks : List Tick}
    (covered : Meets run.step run.Covered run.initial ticks) :
    ∀ moment, moment <+: ticks → (run.after moment).Bounded := by
  rintro moment ⟨rest, rfl⟩
  exact (LoadRun.run_paced run.initial_paced (meets_append.mp covered).1).bounded

/-- Traces of five spans at a steady 5,000 a second. -/
def fives : LoadRun where
  load := { profile := .steady, sustainedSpansPerSec := 5000, burstSpansPerSec := 20000 }
  rateShare := 1
  durationS := 20
  limiterMade := 0
  started := 0
  sizes := fun _ => 5

/-- A poll each time one span is due, and the trace it grants. -/
def dueTicks : List Tick :=
  [⟨1 / 5000, 1 / 5000⟩, ⟨1 / 5000, 1 / 5000⟩, ⟨2 / 5000, 2 / 5000⟩, ⟨2 / 5000, 2 / 5000⟩]

/-- One span, and then a trace of five. -/
theorem load_bounded_single_first :
    let run := { fives with sizes := fun trace => if trace = 0 then 1 else 5 }
    ∀ moment, moment <+: dueTicks → (run.after moment).Bounded :=
  load_bounded _ (by decide +kernel)

/-- Each poll grants the one span that is due, and each grant emits five. -/
theorem overshoot_accumulates :
    (fives.limiterMade :: fives.started ::
      dueTicks.flatMap fun tick => [tick.loop, tick.limiter]).Pairwise (· ≤ ·) ∧
    ¬ (fives.after dueTicks).Bounded := by
  decide +kernel

theorem LoadRun.singles (tick : Tick) {count : ℕ} (going : worker.finished = false)
    (room : worker.emitted + count ≤ worker.allowance)
    (ones : ∀ trace, worker.traces ≤ trace → trace < worker.traces + count →
      run.sizes trace = 1) :
    ∃ largest ≤ max worker.largest 1, (List.replicate count tick).foldl run.step worker =
      { worker with
        emitted := worker.emitted + count, traces := worker.traces + count, largest } := by
  induction count generalizing worker with
  | zero => exact ⟨worker.largest, le_max_left _ _, rfl⟩
  | succ count ih =>
    have one : run.sizes worker.traces = 1 := ones _ le_rfl (by omega)
    have first : run.step worker tick = run.emit worker :=
      LoadRun.step_in_batch going (by push_cast at room; omega)
    obtain ⟨largest, atMost, rest⟩ := @ih (run.emit worker) going
      (by simp only [LoadRun.emit, one]; push_cast at room ⊢; linarith)
      (fun trace from_ below => ones trace (by simp only [LoadRun.emit] at from_; omega)
        (by simp only [LoadRun.emit] at below; omega))
    refine ⟨largest, by simpa [LoadRun.emit, one] using atMost, ?_⟩
    rw [List.replicate_succ, List.foldl_cons, first, rest]
    simp [LoadRun.emit, one, Nat.add_assoc, Nat.add_comm 1]

/-- A grant that is not covered can be spent so that the bound breaks: all of it but one
in single spans, and then a trace as long as the longest. -/
theorem uncovered_breaks (run : LoadRun) (going : worker.finished = false)
    (fresh : worker.emitted = 0) (granted : 0 < worker.allowance)
    (uncovered : worker.earned + 1 < worker.spans + worker.allowance) :
    ∃ (sizes : ℕ → ℕ+) (ticks : List Tick),
      (∀ trace < worker.traces, sizes trace = run.sizes trace) ∧
      ¬ (ticks.foldl { run with sizes }.step worker).Bounded := by
  obtain ⟨count, allowance⟩ : ∃ count : ℕ, worker.allowance = count + 1 :=
    ⟨(worker.allowance - 1).toNat, by omega⟩
  let longest : ℕ+ := ⟨max worker.largest 1, by omega⟩
  let sizes : ℕ → ℕ+ := fun trace =>
    if trace < worker.traces then run.sizes trace
    else if trace < worker.traces + count then 1 else longest
  let tick : Tick := ⟨0, 0⟩
  refine ⟨sizes, List.replicate count tick ++ [tick], fun trace before => if_pos before, ?_⟩
  obtain ⟨largest, atMost, ones⟩ := @LoadRun.singles { run with sizes } worker tick count going
    (by omega)
    (fun trace from_ below => by simp only [sizes]; rw [if_neg (by omega), if_pos below])
  have last : sizes (worker.traces + count) = longest := by simp [sizes]
  rw [List.foldl_append, ones, List.foldl_cons, List.foldl_nil,
    LoadRun.step_in_batch (by exact going) (by simp only; omega)]
  simp only [Worker.Bounded, Worker.total, LoadRun.emit, last, fresh, longest, PNat.mk_coe,
    max_eq_right atMost]
  rw [allowance] at uncovered
  push_cast at uncovered ⊢
  linarith

end TelemetryEngine.Emitters
