import TelemetryEngine.Emitters.TargetIntegral

/-! `run_load` of `emitters/load.py`: workers that run at once, each with its share of the rate,
and what they report, added up in the order in which it arrives. A worker's target is a sum of
floats, which is off the exact one by their rounding. -/
namespace TelemetryEngine.Emitters
open Foundation Foundation.LeftSums Foundation.Rounding

structure WorkerResult where
  spans : ℕ
  traces : ℕ
  targetSpans : Int
  generationS : ℚ

@[ext] structure LoadResult where
  spans : ℕ
  traces : ℕ
  elapsedS : ℚ
  wallElapsedS : ℚ
  targetSpans : Int
  workers : ℕ
  perWorkerSpans : List ℕ

namespace LoadResult

/-- How far the generator fell short of its own target. -/
def shortfallPct (result : LoadResult) : ℚ :=
  if result.targetSpans ≤ 0 then 0 else max 0 ((1 - result.spans / result.targetSpans) * 100)

end LoadResult

/-- A worker: what it is given, the passes of its loop, the clock after them, and the float that
`_integrate_target` returns. -/
structure Working where
  run : LoadRun
  ticks : List Tick
  ended : ℚ
  target : ℚ

def Working.generationS (working : Working) : ℚ := working.ended - working.run.started

def Working.result (working : Working) : WorkerResult where
  spans := (working.run.after working.ticks).total
  traces := (working.run.after working.ticks).traces
  targetSpans := truncate working.target
  generationS := working.generationS

/-- The results as they come out of the queue. A single worker has no queue. -/
def runLoad (collected : List WorkerResult) (wallElapsedS : ℚ) : LoadResult where
  spans := (collected.map WorkerResult.spans).sum
  traces := (collected.map WorkerResult.traces).sum
  elapsedS := (collected.map WorkerResult.generationS).max?.getD 0
  wallElapsedS := wallElapsedS
  targetSpans := (collected.map WorkerResult.targetSpans).sum
  workers := collected.length
  perWorkerSpans := collected.map WorkerResult.spans

/-! ### What one worker reports -/

/-- A loop is left after a pass that found the time over. -/
theorem finished_late {run : LoadRun} {worker : Worker} {ticks : List Tick}
    (going : worker.finished = false) (left : (ticks.foldl run.step worker).finished = true) :
    ∃ tick ∈ ticks, run.durationS ≤ tick.loop - run.started := by
  induction ticks generalizing worker with
  | nil => exact absurd (going.symm.trans left) (by decide)
  | cons tick rest ih =>
    by_cases late : run.durationS ≤ tick.loop - run.started
    · exact ⟨tick, List.mem_cons_self, late⟩
    · have stays : (run.step worker tick).finished = false := by
        unfold LoadRun.step
        rw [going, if_neg Bool.false_ne_true, if_neg late]
        split
        · exact going
        · exact going
      obtain ⟨other, member, late⟩ := ih stays left
      exact ⟨other, List.mem_cons_of_mem _ member, late⟩

/-- A worker of a team that is through, with the error that its floats may have. -/
structure Shares (load : LoadProfile) (durationS error : ℚ) (workers : ℕ) (working : Working) :
    Prop where
  load : working.run.load = load
  share : working.run.rateShare = 1 / workers
  duration : working.run.durationS = durationS
  finished : (working.run.after working.ticks).finished = true
  /-- The clock does not run backwards. -/
  clock : ∀ tick ∈ working.ticks, tick.loop ≤ working.ended
  target_nonneg : 0 ≤ working.target
  target_near : |working.target -
    integrateTarget working.run.load working.generationS working.run.rateShare| ≤ error

section
variable {load : LoadProfile} {durationS error : ℚ} {workers : ℕ} {working : Working}

theorem Shares.lasts (shares : Shares load durationS error workers working) :
    durationS ≤ working.generationS := by
  obtain ⟨tick, member, late⟩ := finished_late rfl shares.finished
  have clock := shares.clock tick member
  rw [shares.duration] at late
  unfold Working.generationS
  linarith

/-- Rates and times that the settings mean. -/
structure LoadProfile.Sensible (load : LoadProfile) : Prop where
  sustained : 0 ≤ load.sustainedSpansPerSec
  burst : 0 ≤ load.burstSpansPerSec
  ramp : 0 < load.rampDurationS

theorem LoadProfile.Sensible.rate_nonneg (sensible : load.Sensible) {elapsedS : ℚ}
    (after : 0 ≤ elapsedS) : 0 ≤ load.targetRate elapsedS := by
  have sustained : (0 : ℚ) ≤ load.sustainedSpansPerSec := by exact_mod_cast sensible.sustained
  have burst : (0 : ℚ) ≤ load.burstSpansPerSec := by exact_mod_cast sensible.burst
  unfold LoadProfile.targetRate
  cases load.profile with
  | steady => exact sustained
  | burst =>
    dsimp only
    split
    · exact burst
    · exact sustained
  | ramp =>
    have climbed : 0 ≤ min 1 (elapsedS / load.rampDurationS) :=
      le_min zero_le_one (div_nonneg after (by simpa using sensible.ramp.le))
    have most : min 1 (elapsedS / load.rampDurationS) ≤ 1 := min_le_left _ _
    simp only [Rat.cast_id] at climbed most ⊢
    nlinarith [mul_nonneg burst climbed, mul_nonneg sustained (sub_nonneg.mpr most)]

end

/-! ### What they add up to -/

theorem sum_truncate {low high : ℚ} {xs : List ℚ} (some : xs ≠ []) (nonneg : ∀ x ∈ xs, 0 ≤ x)
    (between : ∀ x ∈ xs, low ≤ x ∧ x ≤ high) :
    xs.length * (low - 1) < ((xs.map truncate).sum : Int) ∧
      ((xs.map truncate).sum : Int) ≤ xs.length * high := by
  have cut (x : ℚ) (here : 0 ≤ x) : x - 1 < truncate x ∧ (truncate x : ℚ) ≤ x := by
    rw [truncate, if_pos here]
    exact ⟨Int.sub_one_lt_floor x, Int.floor_le x⟩
  induction xs with
  | nil => exact absurd rfl some
  | cons x rest ih =>
    obtain ⟨above, below⟩ := cut x (nonneg x List.mem_cons_self)
    obtain ⟨least, most⟩ := between x List.mem_cons_self
    rw [List.map_cons, List.sum_cons, List.length_cons, Int.cast_add, Nat.cast_add, Nat.cast_one]
    cases rest with
    | nil =>
      simp only [List.length_nil, List.map_nil, List.sum_nil, Nat.cast_zero, Int.cast_zero]
      constructor <;> linarith
    | cons y rest =>
      obtain ⟨lower, upper⟩ := ih (by simp) (fun x member => nonneg x (List.mem_cons_of_mem _ member))
        fun x member => between x (List.mem_cons_of_mem _ member)
      constructor <;> linarith

theorem shortfallPct_bounds (result : LoadResult) :
    0 ≤ result.shortfallPct ∧ result.shortfallPct ≤ 100 ∧
      (result.shortfallPct = 0 ↔ result.targetSpans ≤ result.spans) := by
  unfold LoadResult.shortfallPct
  by_cases none : result.targetSpans ≤ 0
  · rw [if_pos none]
    exact ⟨le_rfl, by norm_num, iff_of_true rfl (none.trans (Int.natCast_nonneg _))⟩
  · rw [if_neg none]
    have target : (0 : ℚ) < result.targetSpans := by exact_mod_cast not_le.mp none
    have share : 0 ≤ (result.spans : ℚ) / result.targetSpans :=
      div_nonneg (Nat.cast_nonneg _) target.le
    refine ⟨le_max_left _ _, max_le (by norm_num) (by linarith), ?_⟩
    rw [max_eq_left_iff]
    constructor
    · intro met
      have enough : 1 ≤ (result.spans : ℚ) / result.targetSpans := by linarith
      rw [le_div_iff₀ target, one_mul] at enough
      exact_mod_cast enough
    · intro met
      have enough : (result.targetSpans : ℚ) ≤ result.spans := by exact_mod_cast met
      have whole : 1 ≤ (result.spans : ℚ) / result.targetSpans := by
        rwa [le_div_iff₀ target, one_mul]
      linarith

theorem integrateTarget_whole (load : LoadProfile) (elapsedS : ℚ) :
    integrateTarget load elapsedS 1 = leftSum (fun t => load.targetRate t) elapsedS := by
  rw [integrateTarget_eq]
  simp only [mul_one]

section
variable {load : LoadProfile} {durationS : ℚ} {team : List Working}
  {collected : List WorkerResult} (arrived : collected.Perm (team.map Working.result))

include arrived

theorem elapsed_longest (some : team ≠ []) (wallElapsedS : ℚ) :
    (∃ working ∈ team, working.generationS = (runLoad collected wallElapsedS).elapsedS) ∧
      ∀ working ∈ team, working.generationS ≤ (runLoad collected wallElapsedS).elapsedS := by
  have times : (collected.map WorkerResult.generationS).Perm (team.map Working.generationS) := by
    have mapped := arrived.map WorkerResult.generationS
    rwa [List.map_map] at mapped
  have elapsed : (runLoad collected wallElapsedS).elapsedS =
      (collected.map WorkerResult.generationS).max?.getD 0 := rfl
  rw [elapsed]
  cases most : (collected.map WorkerResult.generationS).max? with
  | none =>
    rw [List.max?_eq_none_iff] at most
    rw [most, List.nil_perm, List.map_eq_nil_iff] at times
    exact absurd times some
  | some longest =>
    obtain ⟨member, above⟩ := List.max?_eq_some_iff.mp most
    refine ⟨List.mem_map.mp (times.mem_iff.mp member), fun working among => ?_⟩
    exact above _ (times.mem_iff.mpr (List.mem_map_of_mem among))

theorem targetSpans_sum (wallElapsedS : ℚ) : (runLoad collected wallElapsedS).targetSpans =
    ((team.map Working.target).map truncate).sum := by
  change (collected.map WorkerResult.targetSpans).sum = _
  rw [(arrived.map _).sum_eq, List.map_map, List.map_map]
  rfl

/-- Another order of arrival is seen in the list of the workers' spans only. -/
theorem runLoad_perm (wallElapsedS : ℚ) {others : List WorkerResult} (some : team ≠ [])
    (arrived' : others.Perm (team.map Working.result)) :
    runLoad others wallElapsedS = { runLoad collected wallElapsedS with
        perWorkerSpans := (runLoad others wallElapsedS).perWorkerSpans } ∧
      (runLoad others wallElapsedS).perWorkerSpans.Perm
        (runLoad collected wallElapsedS).perWorkerSpans := by
  have perm : others.Perm collected := arrived'.trans arrived.symm
  obtain ⟨⟨last, among, lasts⟩, longest⟩ := elapsed_longest arrived some wallElapsedS
  obtain ⟨⟨last', among', lasts'⟩, longest'⟩ := elapsed_longest arrived' some wallElapsedS
  have elapsed : (runLoad others wallElapsedS).elapsedS = (runLoad collected wallElapsedS).elapsedS :=
    le_antisymm (lasts' ▸ longest last' among') (lasts ▸ longest' last among)
  refine ⟨?_, perm.map _⟩
  ext1
  · exact (perm.map _).sum_eq
  · exact (perm.map _).sum_eq
  · exact elapsed
  · rfl
  · exact (perm.map _).sum_eq
  · exact perm.length_eq
  · rfl

end

/-- A worker's own target is its share of the target of the time it worked. -/
theorem Shares.target_bounds {load : LoadProfile} (sensible : load.Sensible)
    {durationS error longest : ℚ} {workers : ℕ} {working : Working}
    (shares : Shares load durationS error workers working)
    (within : working.generationS ≤ longest) :
    integrateTarget load durationS 1 / workers - error ≤ working.target ∧
      working.target ≤ integrateTarget load longest 1 / workers + error := by
  have rates (k : ℕ) : 0 ≤ load.targetRate (k : ℚ) := sensible.rate_nonneg (Nat.cast_nonneg k)
  have shared : integrateTarget working.run.load working.generationS working.run.rateShare =
      leftSum (fun t => load.targetRate t) working.generationS / workers := by
    rw [shares.load, shares.share, integrateTarget_eq, leftSum_mul, mul_one_div]
  have near := abs_le.mp shares.target_near
  rw [shared] at near
  rw [integrateTarget_whole, integrateTarget_whole]
  have least := div_le_div_of_nonneg_right (leftSum_mono rates shares.lasts)
    (workers.cast_nonneg (α := ℚ))
  have most := div_le_div_of_nonneg_right (leftSum_mono rates within)
    (workers.cast_nonneg (α := ℚ))
  constructor <;> linarith

/-- When all workers of a team have reported, in whatever order, the run has all their spans,
lasted as long as the longest, and its target is that of one generator at the full rate: for the
time asked at least, less than one span a worker short, and for the time it lasted at most, up to
the error of the floats. -/
theorem run_load_adds_up {load : LoadProfile} (sensible : load.Sensible) {durationS error : ℚ}
    {team : List Working} (some : team ≠ [])
    (shares : ∀ working ∈ team, Shares load durationS error team.length working)
    {collected : List WorkerResult} (arrived : collected.Perm (team.map Working.result))
    (wallElapsedS : ℚ) :
    let result := runLoad collected wallElapsedS
    (∀ others : List WorkerResult, others.Perm (team.map Working.result) →
      runLoad others wallElapsedS = { result with
          perWorkerSpans := (runLoad others wallElapsedS).perWorkerSpans } ∧
        (runLoad others wallElapsedS).perWorkerSpans.Perm result.perWorkerSpans) ∧
      result.spans = (team.map fun working => (working.run.after working.ticks).total).sum ∧
      result.workers = team.length ∧ durationS ≤ result.elapsedS ∧
      integrateTarget load durationS 1 - team.length * (1 + error) < result.targetSpans ∧
      result.targetSpans ≤ integrateTarget load result.elapsedS 1 + team.length * error ∧
      0 ≤ result.shortfallPct ∧ result.shortfallPct ≤ 100 ∧
      (result.shortfallPct = 0 ↔ result.targetSpans ≤ result.spans) := by
  intro result
  have positive : (0 : ℚ) < team.length := by
    exact_mod_cast List.length_pos_of_ne_nil some
  obtain ⟨⟨last, among, lasts⟩, longest⟩ := elapsed_longest arrived some wallElapsedS
  have bounds := @sum_truncate (integrateTarget load durationS 1 / team.length - error)
    (integrateTarget load result.elapsedS 1 / team.length + error) (team.map Working.target)
    (by simpa using some) (by simpa using fun working among => (shares working among).target_nonneg)
    (by simpa using fun working among =>
      (shares working among).target_bounds sensible (longest working among))
  rw [← targetSpans_sum arrived wallElapsedS, List.length_map, mul_add, mul_sub, mul_sub,
    mul_div_cancel₀ _ positive.ne', mul_div_cancel₀ _ positive.ne', mul_one] at bounds
  refine ⟨fun others arrived' => runLoad_perm arrived wallElapsedS some arrived', ?_, ?_, ?_, ?_,
    bounds.2, shortfallPct_bounds result⟩
  · change (collected.map WorkerResult.spans).sum = _
    rw [(arrived.map _).sum_eq, List.map_map]
    rfl
  · exact arrived.length_eq.trans (List.length_map _)
  · exact lasts ▸ (shares last among).lasts
  · calc integrateTarget load durationS 1 - team.length * (1 + error)
        = integrateTarget load durationS 1 - team.length * error - team.length := by ring
      _ < result.targetSpans := bounds.1

/-- Traces of one span, at two spans a second for a second, by half a team. -/
def halfRun : LoadRun where
  load := { profile := .steady, sustainedSpansPerSec := 2, burstSpansPerSec := 4 }
  rateShare := 1 / 2
  durationS := 1
  limiterMade := 0
  started := 0
  sizes := fun _ => Nat.succPNat 0

/-- The float is a little below two half spans. -/
def halfTeam : Working := ⟨halfRun, [⟨1 / 2, 1 / 2⟩, ⟨1, 1⟩], 1, 1 - 1 / 2 ^ 53⟩

theorem run_load_adds_up_halves :
    let result := runLoad [halfTeam.result, halfTeam.result] 2
    (∀ others : List WorkerResult, others.Perm ([halfTeam, halfTeam].map Working.result) →
      runLoad others 2 = { result with perWorkerSpans := (runLoad others 2).perWorkerSpans } ∧
        (runLoad others 2).perWorkerSpans.Perm result.perWorkerSpans) ∧
      result.spans = ([halfTeam, halfTeam].map fun working =>
        (working.run.after working.ticks).total).sum ∧
      result.workers = 2 ∧ 1 ≤ result.elapsedS ∧
      integrateTarget halfRun.load (1 : ℚ) 1 - (2 : ℕ) * (1 + 1 / 2 ^ 53) < result.targetSpans ∧
      result.targetSpans ≤ integrateTarget halfRun.load result.elapsedS 1 + (2 : ℕ) * (1 / 2 ^ 53) ∧
      0 ≤ result.shortfallPct ∧ result.shortfallPct ≤ 100 ∧
      (result.shortfallPct = 0 ↔ result.targetSpans ≤ result.spans) :=
  @run_load_adds_up halfRun.load ⟨by decide, by decide, by decide +kernel⟩ 1 (1 / 2 ^ 53)
    [halfTeam, halfTeam] (by simp)
    (by
      have target : integrateTarget halfRun.load halfTeam.generationS halfRun.rateShare = 1 := by
        rw [integrateTarget_eq]
        decide +kernel
      have half : Shares halfRun.load 1 (1 / 2 ^ 53) 2 halfTeam :=
        ⟨rfl, by norm_num [halfTeam, halfRun], rfl, by decide +kernel, by decide +kernel,
          by decide +kernel, by rw [show halfTeam.run = halfRun from rfl, target]; decide +kernel⟩
      intro working member
      rcases List.mem_pair.mp member with rfl | rfl
      · exact half
      · exact half)
    _ (.refl _) 2

end TelemetryEngine.Emitters
