import TelemetryEngine.ColdTier.Planner
import TelemetryEngine.Foundation.Datetime

/-! `plan_windows` on Python's datetimes. The planner of whole integers never fails. Here
the horizon, a cursor moved by the window and the midnight after a cursor have to lie in
the years 1 to 9999, and OverflowError is raised where one does not. -/
namespace TelemetryEngine.ColdTier
open Foundation.Calendar Foundation.Tiling

inductive PlanError where
  | overflow
  | window (error : WindowError)
  deriving DecidableEq, Repr

def checked (t : Int) : Except PlanError Int := if InRange t then .ok t else .error .overflow

def datetimeLoop (window horizon : Int) : Nat → Int → Except PlanError (List ExportWindow)
  | 0, _ => .ok []
  | fuel + 1, cursor =>
    if cursor < horizon then do
      let advanced ← checked (cursor + window)
      let boundary := floorHour advanced
      let nextBoundary := if boundary ≤ cursor then advanced else boundary
      let midnight ← checked (startOfDay (dayNumber cursor + 1))
      let end_ := min nextBoundary (min midnight horizon)
      if end_ ≤ cursor then return [] else do
        let head ← (ExportWindow.new cursor end_).mapError .window
        let rest ← datetimeLoop window horizon fuel end_
        return head :: rest
    else .ok []

/-- `plan_windows`, with the range of a datetime. -/
def planDatetimes (start now window lagMargin : Int) : Except PlanError (List ExportWindow) := do
  let horizon ← checked (now - lagMargin)
  datetimeLoop window horizon (horizon - start).toNat start

/-- What the loop computes at the start of a window is a datetime. -/
def Reachable (window : Int) (w : ExportWindow) : Prop :=
  InRange (w.start + window) ∧ InRange (startOfDay (dayNumber w.start + 1))

instance (window : Int) (w : ExportWindow) : Decidable (Reachable window w) :=
  inferInstanceAs (Decidable (_ ∧ _))

section
variable {window horizon cursor : Int} {fuel : Nat} {ws : List ExportWindow}

/-- One pass of both loops: the same window, if what is computed for it are datetimes. -/
theorem planLoop_pass (before : cursor < horizon) (positive : 0 < window) :
    ∃ w, w.start = cursor ∧ w.end_ = windowEnd window horizon cursor ∧
      planLoop window horizon (fuel + 1) cursor =
        (planLoop window horizon fuel (windowEnd window horizon cursor)).map (w :: ·) ∧
      datetimeLoop window horizon (fuel + 1) cursor =
        if Reachable window w then
          (datetimeLoop window horizon fuel (windowEnd window horizon cursor)).map (w :: ·)
        else .error .overflow := by
  obtain ⟨later, _, _⟩ := windowEnd_bounds positive before
  obtain ⟨w, made, rfl, end_, _⟩ := new_windowEnd positive before
  refine ⟨w, rfl, end_, ?_, ?_⟩
  · simp only [planLoop, if_pos before, if_neg (not_le.mpr later), made, bind, Except.bind]
    cases planLoop window horizon fuel (windowEnd window horizon w.start) <;> rfl
  · by_cases advanced : InRange (w.start + window)
    · by_cases midnight : InRange (startOfDay (dayNumber w.start + 1))
      · rw [if_pos ⟨advanced, midnight⟩]
        simp only [windowEnd] at later made ⊢
        simp only [datetimeLoop, if_pos before, checked, if_pos advanced, if_pos midnight, bind,
          Except.bind, if_neg (not_le.mpr later), made, Except.mapError]
        cases datetimeLoop window horizon fuel _ <;> rfl
      · rw [if_neg fun both => midnight both.2]
        simp only [datetimeLoop, if_pos before, checked, if_pos advanced, if_neg midnight, bind,
          Except.bind]
    · rw [if_neg fun both => advanced both.1]
      simp only [datetimeLoop, if_pos before, checked, if_neg advanced, bind, Except.bind]

theorem planLoop_uncons (positive : 0 < window) (before : cursor < horizon)
    (planned : planLoop window horizon (fuel + 1) cursor = .ok ws) :
    ∃ w later, ws = w :: later ∧ w.end_ = windowEnd window horizon w.start ∧
      planLoop window horizon fuel w.end_ = .ok later ∧
      datetimeLoop window horizon (fuel + 1) cursor =
        if Reachable window w then (datetimeLoop window horizon fuel w.end_).map (w :: ·)
        else .error .overflow := by
  obtain ⟨w, rfl, end_, plan, datetimes⟩ := @planLoop_pass window horizon cursor fuel before positive
  rw [← end_] at plan datetimes
  rw [plan] at planned
  cases rest : planLoop window horizon fuel w.end_ with
  | error e => simp [rest, Except.map] at planned
  | ok later =>
    rw [rest] at planned
    exact ⟨w, later, (Except.ok.inj planned).symm, end_, rest, datetimes⟩

theorem planLoop_nil (done : ¬ cursor < horizon)
    (planned : planLoop window horizon (fuel + 1) cursor = .ok ws) : ws = [] := by
  simp only [planLoop, if_neg done] at planned
  exact (Except.ok.inj planned).symm

/-- Where everything computed on the way is a datetime, the plan is the one of the
integers. -/
theorem datetimeLoop_eq (positive : 0 < window)
    (planned : planLoop window horizon fuel cursor = .ok ws) :
    datetimeLoop window horizon fuel cursor =
      if ∀ w ∈ ws, Reachable window w then .ok ws else .error .overflow := by
  induction fuel generalizing cursor ws with
  | zero =>
    obtain rfl := Except.ok.inj planned
    simp [datetimeLoop]
  | succ fuel ih =>
    by_cases before : cursor < horizon
    · obtain ⟨w, later, rfl, _, rest, datetimes⟩ := planLoop_uncons positive before planned
      rw [datetimes, ih rest]
      by_cases here : Reachable window w
      · rw [if_pos here]
        by_cases there : ∀ w ∈ later, Reachable window w
        · rw [if_pos there, if_pos (List.forall_mem_cons.mpr ⟨here, there⟩)]
          rfl
        · rw [if_neg there, if_neg fun all => there (List.forall_mem_cons.mp all).2]
          rfl
      · rw [if_neg here, if_neg fun all => here (List.forall_mem_cons.mp all).1]
    · obtain rfl := planLoop_nil before planned
      simp [datetimeLoop, before]

theorem planLoop_ends (positive : 0 < window)
    (planned : planLoop window horizon fuel cursor = .ok ws) :
    ∀ w ∈ ws, w.end_ = windowEnd window horizon w.start := by
  induction fuel generalizing cursor ws with
  | zero =>
    obtain rfl := Except.ok.inj planned
    simp
  | succ fuel ih =>
    by_cases before : cursor < horizon
    · obtain ⟨w, later, rfl, end_, rest, _⟩ := planLoop_uncons positive before planned
      exact List.forall_mem_cons.mpr ⟨end_, ih rest⟩
    · obtain rfl := planLoop_nil before planned
      simp

end

/-- The windows tile `[start, horizon)`, each within its date, and where a window is an
hour, whole clock hours but for the first and the last. -/
structure TilesExactly (window start horizon : Int) (ws : List ExportWindow) : Prop where
  empty_iff : ws = [] ↔ horizon ≤ start
  first : ∀ w ∈ ws.head?, w.start = start
  abut : ws.IsChain fun v w => w.start = v.end_
  last : ∀ w ∈ ws.getLast?, w.end_ = horizon
  dated : ∀ w ∈ ws, ∀ t, w.start ≤ t → t < w.end_ → dateOf t = w.partitionDate
  hourly : window = hour → ∀ front w back, ws = front ++ w :: back → front ≠ [] → back ≠ [] →
    w.start % hour = 0 ∧ w.end_ = w.start + hour

theorem windowEnd_hour (uncut : windowEnd hour horizon cursor < horizon) :
    windowEnd hour horizon cursor % hour = 0 ∧
      (cursor % hour = 0 → windowEnd hour horizon cursor = cursor + hour) := by
  simp only [windowEnd, floorHour, floorTo, startOfDay, dayNumber, hour, day] at uncut ⊢
  omega

theorem Plan.tilesExactly {window start horizon : Int} {ws : List ExportWindow}
    (plan : Plan window start (max start horizon) horizon ws)
    (ends : ∀ w ∈ ws, w.end_ = windowEnd window horizon w.start) :
    TilesExactly window start horizon ws := by
  have tiles := plan.tiles
  refine ⟨?_, ?_, tiles_chain tiles, ?_, ?_, ?_⟩
  · cases ws with
    | nil =>
      have stop : start = max start horizon := tiles
      simp only [true_iff]
      omega
    | cons w rest =>
      have bounds := tiles_bounds tiles (show w ∈ w :: rest by simp)
      simp only [reduceCtorEq, false_iff]
      omega
  · cases ws with
    | nil => simp
    | cons w rest => simpa using tiles.1
  · intro w member
    have stop := tiles_stop tiles
    have bounds := tiles_bounds tiles (List.mem_of_getLast? member)
    simp only [Option.mem_def.mp member, Option.map_some, Option.getD_some] at stop
    omega
  · intro w member t after before
    have today := plan.within_day w member
    rw [ExportWindow.partitionDate, dateOf_eq_iff]
    simp only [ExportWindow.WithinDay, startOfDay, dayNumber, day] at today ⊢
    omega
  · rintro rfl front w back rfl some_ more
    obtain ⟨b, before, start_, proper, after⟩ := tiles_append.mp tiles
    have last := List.getLast?_eq_some_getLast some_
    generalize front.getLast some_ = v at last
    obtain ⟨u, back, rfl⟩ := List.exists_cons_of_ne_nil more
    -- The window before ends where `w` starts, and `w` ends before the horizon.
    have joint : b = v.end_ := by simpa [last] using tiles_stop before
    have hv := tiles_bounds before (List.mem_of_getLast? last)
    have hu := tiles_bounds after (show u ∈ u :: back by simp)
    have vEnd := ends v (by simp [List.mem_of_getLast? last])
    have wEnd := ends w (by simp)
    have uncutV : windowEnd hour horizon v.start < horizon := by omega
    have uncutW : windowEnd hour horizon w.start < horizon := by omega
    have whole : w.start % hour = 0 := by
      rw [start_, joint, vEnd]
      exact (windowEnd_hour uncutV).1
    exact ⟨whole, wEnd.trans ((windowEnd_hour uncutW).2 whole)⟩

/-- The plan of datetimes: OverflowError where the horizon, a start moved by the window or
a midnight is outside the years 1 to 9999, and otherwise an exact tiling. -/
theorem plan_datetimes_tiles {window : Int} (positive : 0 < window) (start now lagMargin : Int) :
    ∃ ws, planWindows start now window lagMargin = .ok ws ∧
      TilesExactly window start (now - lagMargin) ws ∧
      planDatetimes start now window lagMargin =
        if InRange (now - lagMargin) ∧ ∀ w ∈ ws, Reachable window w then .ok ws
        else .error .overflow := by
  obtain ⟨ws, planned, plan⟩ := planWindows_spec positive start now lagMargin
  refine ⟨ws, planned, plan.tilesExactly (planLoop_ends positive planned), ?_⟩
  by_cases horizon : InRange (now - lagMargin)
  · simp only [planDatetimes, checked, bind, Except.bind, horizon, true_and, if_true]
    exact datetimeLoop_eq positive planned
  · simp only [planDatetimes, checked, bind, Except.bind, horizon, false_and, if_false]

/-- An hour of one day in windows of three million days. -/
theorem plan_datetimes_overflow :
    let start := 20692 * day + 10 * hour
    start < start + hour - defaultLagMargin ∧
      planDatetimes start (start + hour) (3000000 * day) defaultLagMargin = .error .overflow := by
  decide +kernel

/-- Three hours from a quarter past ten. -/
theorem plan_datetimes_three_hours :
    let start := 20692 * day + 10 * hour + 15 * minute
    ∃ ws, planWindows start (start + 3 * hour) defaultWindow defaultLagMargin = .ok ws ∧
      TilesExactly defaultWindow start (start + 3 * hour - defaultLagMargin) ws ∧
      planDatetimes start (start + 3 * hour) defaultWindow defaultLagMargin =
        if InRange (start + 3 * hour - defaultLagMargin) ∧ ∀ w ∈ ws, Reachable defaultWindow w then
          .ok ws
        else .error .overflow :=
  plan_datetimes_tiles (by decide) _ _ _

end TelemetryEngine.ColdTier
