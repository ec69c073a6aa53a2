import TelemetryEngine.Foundation.Tiling
import TelemetryEngine.ColdTier.Layout

/-! `plan_windows` of `coldtier/export.py`. The loop is fuelled by the length of
the range: every pass moves the cursor by at least a microsecond, so the fuel
never runs out. The plan is proved to tile its range without ever raising. -/
namespace TelemetryEngine.ColdTier
open Foundation.Calendar Foundation.Tiling

def defaultLagMargin : Int := 5 * minute
def defaultWindow : Int := hour

def windowEnd (window horizon cursor : Int) : Int :=
  let boundary := floorHour (cursor + window)
  let nextBoundary := if boundary ≤ cursor then cursor + window else boundary
  let midnight := startOfDay (dayNumber cursor + 1)
  min nextBoundary (min midnight horizon)

def planLoop (window horizon : Int) : Nat → Int → Except WindowError (List ExportWindow)
  | 0, _ => .ok []
  | fuel + 1, cursor =>
    if cursor < horizon then
      let end_ := windowEnd window horizon cursor
      if end_ ≤ cursor then .ok [] else do
        let head ← ExportWindow.new cursor end_
        let rest ← planLoop window horizon fuel end_
        return head :: rest
    else .ok []

/-- Split `[start, now - lag_margin)` into windows that never cross midnight. -/
def planWindows (start now window lagMargin : Int) : Except WindowError (List ExportWindow) :=
  planLoop window (now - lagMargin) (now - lagMargin - start).toNat start

def ExportWindow.WithinDay (window : ExportWindow) : Prop :=
  window.end_ ≤ startOfDay (dayNumber window.start + 1)

section
variable {window horizon cursor : Int}

theorem windowEnd_bounds (positive : 0 < window) (before : cursor < horizon) :
    cursor < windowEnd window horizon cursor ∧ windowEnd window horizon cursor ≤ horizon ∧
      windowEnd window horizon cursor ≤ startOfDay (dayNumber cursor + 1) := by
  simp only [windowEnd, startOfDay, dayNumber, day]
  split <;> omega

theorem new_windowEnd (positive : 0 < window) (before : cursor < horizon) :
    ∃ w, ExportWindow.new cursor (windowEnd window horizon cursor) = .ok w ∧ w.start = cursor ∧
      w.end_ = windowEnd window horizon cursor ∧ w.WithinDay := by
  obtain ⟨later, _, today⟩ := windowEnd_bounds positive before
  have date : dayNumber cursor = dayNumber (windowEnd window horizon cursor) ∨
      windowEnd window horizon cursor =
        startOfDay (dayNumber (windowEnd window horizon cursor)) := by
    simp only [startOfDay, dayNumber, day] at today ⊢
    omega
  exact ⟨⟨cursor, windowEnd window horizon cursor, later, date⟩,
    by simp only [ExportWindow.new, later, date, dite_true], rfl, rfl, today⟩

/-- Only a window cut at the horizon can end inside a second. -/
theorem windowEnd_whole (horizon cursor : Int) :
    windowEnd hour horizon cursor % second = 0 ∨ windowEnd hour horizon cursor = horizon := by
  simp only [windowEnd, floorHour, floorTo, startOfDay, dayNumber, hour, day, second]
  omega

end

/-- What the callers of the planner rely on, for a plan or the first windows of
one: they end at `stop`. -/
structure Plan (window start stop horizon : Int) (ws : List ExportWindow) : Prop where
  tiles : Tiles ExportWindow.start ExportWindow.end_ ws start stop
  within : stop ≤ max start horizon
  first : ∀ w ∈ ws.head?, w.end_ = windowEnd window horizon start
  within_day : ∀ w ∈ ws, w.WithinDay
  whole_ends : window = hour → ∀ w ∈ ws, w.end_ % second = 0 ∨ w.end_ = horizon
  whole_starts : window = hour → ∀ w ∈ ws, w.start = start ∨ w.start % second = 0

theorem Plan.nil (window horizon : Int) (done : stop = start) :
    Plan window start stop horizon [] := by
  subst done
  exact ⟨rfl, le_max_left _ _, by simp, by simp, by simp, by simp⟩

theorem Plan.cons {window start stop horizon : Int} {w : ExportWindow} {ws : List ExportWindow}
    (first : w.start = start) (last : w.end_ = windowEnd window horizon start)
    (before : w.end_ ≤ horizon) (today : w.WithinDay) (rest : Plan window w.end_ stop horizon ws) :
    Plan window start stop horizon (w :: ws) := by
  have proper := w.nonempty
  have reach := rest.within
  have wholeEnd (hourly : window = hour) : w.end_ % second = 0 ∨ w.end_ = horizon := by
    rw [last, hourly]
    exact windowEnd_whole horizon start
  refine ⟨⟨first, proper, rest.tiles⟩, by omega, by simpa using last, ?_, ?_, ?_⟩
  · exact List.forall_mem_cons.mpr ⟨today, rest.within_day⟩
  · exact fun hourly => List.forall_mem_cons.mpr ⟨wholeEnd hourly, rest.whole_ends hourly⟩
  · intro hourly v member
    rcases List.mem_cons.mp member with rfl | later
    · exact .inl first
    · -- A window after one that ends at the horizon would be empty.
      have bounds := tiles_bounds rest.tiles later
      cases rest.whole_starts hourly v later with
      | inl next => exact .inr (next ▸ (wholeEnd hourly).resolve_right (by omega))
      | inr whole => exact .inr whole

theorem Plan.later_start {start stop horizon : Int} {ws : List ExportWindow}
    (plan : Plan hour start stop horizon ws) {v w : ExportWindow} (hv : v ∈ ws) (hw : w ∈ ws)
    (ordered : v.end_ ≤ w.start) : w.start % second = 0 := by
  have bounds := tiles_bounds plan.tiles hv
  exact (plan.whole_starts rfl w hw).resolve_left (by omega)

theorem Plan.paths_once {start stop horizon : Int} {ws : List ExportWindow}
    (plan : Plan hour start stop horizon ws) : ws.Pairwise fun v w => filePath v ≠ filePath w := by
  refine (tiles_pairwise plan.tiles).imp_of_mem fun {v w} hv hw ordered same => ?_
  have starts := (filePath_inj same).1
  have whole := plan.later_start hv hw ordered
  have below := floorSecond_le v.start
  have proper := v.nonempty
  rw [floorSecond_of_whole whole] at starts
  omega

theorem Plan.truncate {window start stop horizon : Int} {first ws : List ExportWindow}
    (plan : Plan window start stop horizon ws) (cut : first <+: ws) :
    ∃ sooner, Plan window start sooner horizon first := by
  obtain ⟨rest, rfl⟩ := cut
  obtain ⟨sooner, front, back⟩ := tiles_append.mp plan.tiles
  have member {w : ExportWindow} (inside : w ∈ first) : w ∈ first ++ rest :=
    List.mem_append_left rest inside
  refine ⟨sooner, front, (tiles_le back).trans plan.within, ?_, fun w inside =>
    plan.within_day w (member inside), fun hourly w inside =>
    plan.whole_ends hourly w (member inside), fun hourly w inside =>
    plan.whole_starts hourly w (member inside)⟩
  cases first with
  | nil => simp
  | cons w tail => exact plan.first

theorem planLoop_spec {window horizon cursor : Int} {fuel : Nat} (positive : 0 < window)
    (enough : (horizon - cursor).toNat ≤ fuel) :
    ∃ ws, planLoop window horizon fuel cursor = .ok ws ∧
      Plan window cursor (max cursor horizon) horizon ws := by
  induction fuel generalizing cursor with
  | zero => exact ⟨[], rfl, .nil window horizon (by omega)⟩
  | succ fuel ih =>
    by_cases before : cursor < horizon
    · obtain ⟨later, within, _⟩ := windowEnd_bounds positive before
      obtain ⟨w, made, start, end_, today⟩ := new_windowEnd positive before
      obtain ⟨ws, looped, plan⟩ := @ih (windowEnd window horizon cursor) (by omega)
      have reach : max (windowEnd window horizon cursor) horizon = max cursor horizon := by omega
      refine ⟨w :: ws, ?_, .cons start end_ (by omega) today (end_ ▸ reach ▸ plan)⟩
      simp only [planLoop, if_pos before, if_neg (not_le.mpr later), made, looped]
      rfl
    · exact ⟨[], by simp only [planLoop, if_neg before], .nil window horizon (by omega)⟩

/-- Planning never raises, and its windows tile the range. -/
theorem planWindows_spec {window : Int} (positive : 0 < window) (start now lagMargin : Int) :
    ∃ ws, planWindows start now window lagMargin = .ok ws ∧
      Plan window start (max start (now - lagMargin)) (now - lagMargin) ws :=
  planLoop_spec positive le_rfl

end TelemetryEngine.ColdTier
