import TelemetryEngine.ColdTier.Retry
import TelemetryEngine.Foundation.Datetime

/-! `parse_window` of `coldtier/layout.py`, and what a file name says of its window. A name
holds the whole seconds of both ends. -/
namespace TelemetryEngine.ColdTier
open Foundation.Calendar

/-! ### Reading names -/

/-- `\d{8}T\d{6}` -/
def isStamp (text : List Char) : Bool :=
  text.length = 15 && (text.take 8).all isDecimal && text[8]? = some 'T' &&
    (text.drop 9).all isDecimal

/-- `_FILE_RE`. A `$` also stands before a line feed that ends the name. -/
@[irreducible] def matchStamps (name : List Char) : Option (List Char × List Char) :=
  let first := (name.drop 6).take 15
  let last := (name.drop 22).take 15
  let whole := spansPrefix ++ (first ++ '-' :: (last ++ parquetSuffix))
  if isStamp first ∧ isStamp last ∧ (name = whole ∨ name = whole ++ ['\n']) then some (first, last)
  else none

/-- The `ValueError` of a name that matches. -/
inductive NameError where
  | stamp (text : List Char)
  | window (error : WindowError)
  deriving DecidableEq, Repr

@[irreducible] def parseStamp (text : List Char) : Except NameError Int :=
  match strptime text with
  | some t => .ok t
  | none => .error (.stamp text)

/-- Recover the window a file covers from its name. -/
def parseWindow (path : Path) : Except NameError (Option ExportWindow) :=
  match matchStamps path.name.toList with
  | none => .ok none
  | some (first, last) => do
    let start ← parseStamp first
    let end_ ← parseStamp last
    let window ← (ExportWindow.new start end_).mapError .window
    return some window

theorem isDecimal_of_mem_pad (member : c ∈ pad width n) : isDecimal c = true := by
  obtain ⟨d, small, rfl⟩ := exists_digit_of_mem_pad member
  exact isDecimal_digitChar small

theorem isStamp_split {front back : List Char} (eight : front.length = 8) (six : back.length = 6)
    (dates : front.all isDecimal) (times : back.all isDecimal) :
    isStamp (front ++ 'T' :: back) = true := by
  have before : (front ++ 'T' :: back).take 8 = front := List.take_left' eight
  have after : (front ++ 'T' :: back).drop 9 = back := by
    rw [List.append_cons]
    exact List.drop_left' (by simp [eight])
  simp [isStamp, before, after, eight, six, dates, times]

theorem isStamp_stamp {t : Int} (inside : InRange t) :
    isStamp (stamp t) = true ∧ (stamp t).length = 15 := by
  have year := yearChars_of_valid (dateOf_valid inside)
  have pads (width n : Nat) : (pad width n).all isDecimal = true :=
    List.all_eq_true.mpr fun _ => isDecimal_of_mem_pad
  rw [stamp, year, ← List.append_assoc]
  exact ⟨isStamp_split (by simp [pad_length]) (by simp [pad_length]) (by simp [pads])
    (by simp [pads]), by simp [pad_length]⟩

theorem matchStamps_filename {w : ExportWindow} (start : InRange w.start) (end_ : InRange w.end_) :
    matchStamps w.filename.toList = some (stamp w.start, stamp w.end_) := by
  obtain ⟨first, long⟩ := isStamp_stamp start
  obtain ⟨last, long'⟩ := isStamp_stamp end_
  simp only [ExportWindow.filename, String.toList_ofList]
  generalize stamp w.start = a at first long ⊢
  generalize stamp w.end_ = b at last long' ⊢
  have six : spansPrefix.length = 6 := rfl
  have afterPrefix : (spansPrefix ++ (a ++ '-' :: (b ++ parquetSuffix))).drop 6 =
      a ++ '-' :: (b ++ parquetSuffix) := List.drop_left' six
  have afterDash : (spansPrefix ++ (a ++ '-' :: (b ++ parquetSuffix))).drop 22 =
      b ++ parquetSuffix := by
    rw [List.append_cons, ← List.append_assoc]
    exact List.drop_left' (by simp [six, long])
  have front : (a ++ '-' :: (b ++ parquetSuffix)).take 15 = a := List.take_left' long
  have back : (b ++ parquetSuffix).take 15 = b := List.take_left' long'
  simp [matchStamps, afterPrefix, afterDash, front, back, first, last]

theorem parseStamp_stamp {t : Int} (inside : InRange t) :
    parseStamp (stamp t) = .ok (floorSecond t) := by
  rw [parseStamp, strptime_stamp inside]

theorem parseWindow_filePath {w : ExportWindow} (start : InRange w.start) (end_ : InRange w.end_) :
    parseWindow (filePath w) =
      ((ExportWindow.new (floorSecond w.start) (floorSecond w.end_)).mapError .window).map some := by
  simp only [parseWindow, filePath, matchStamps_filename start end_, parseStamp_stamp start,
    parseStamp_stamp end_, bind, Except.bind]
  cases ExportWindow.new (floorSecond w.start) (floorSecond w.end_) <;> rfl

def ExportWindow.Whole (w : ExportWindow) : Prop := w.start % second = 0 ∧ w.end_ % second = 0

theorem floorSecond_eq_self_iff {t : Int} : floorSecond t = t ↔ t % second = 0 := by
  simp only [floorSecond, floorTo, second]
  omega

theorem new_self (w : ExportWindow) : ExportWindow.new w.start w.end_ = .ok w := by
  simp only [ExportWindow.new, dif_pos w.nonempty, dif_pos w.single_date]

theorem new_ok {start end_ : Int} {w : ExportWindow} (made : ExportWindow.new start end_ = .ok w) :
    w.start = start ∧ w.end_ = end_ := by
  unfold ExportWindow.new at made
  split at made
  · split at made
    · cases made
      exact ⟨rfl, rfl⟩
    · cases made
  · cases made

theorem parseWindow_filePath_iff {w : ExportWindow} (start : InRange w.start)
    (end_ : InRange w.end_) : parseWindow (filePath w) = .ok (some w) ↔ w.Whole := by
  rw [parseWindow_filePath start end_, ExportWindow.Whole, ← floorSecond_eq_self_iff,
    ← floorSecond_eq_self_iff]
  constructor
  · intro read
    cases made : ExportWindow.new (floorSecond w.start) (floorSecond w.end_) with
    | error e => simp [made, Except.mapError, Except.map] at read
    | ok v =>
      simp only [made, Except.mapError, Except.map, Except.ok.injEq, Option.some.injEq] at read
      obtain ⟨first, last⟩ := new_ok made
      subst read
      exact ⟨first.symm, last.symm⟩
  · rintro ⟨first, last⟩
    rw [first, last, new_self]
    rfl

/-! ### The windows of a history -/

/-- The windows the calls of a history plan, which it passes to `export_window`. -/
def plannedWindows (calls : List ExportCall) : Set ExportWindow :=
  { w | ∃ before call after, calls = before ++ call :: after ∧
    w ∈ call.planned (Tier.initial.steps before).view }

structure NamesIdentify (windows : Set ExportWindow) : Prop where
  recovers : ∀ w ∈ windows, parseWindow (filePath w) = .ok (some w)
  distinct : ∀ v ∈ windows, ∀ w ∈ windows, v ≠ w → filePath v ≠ filePath w

/-- The names of a history's windows identify them exactly when every window begins and
ends on a whole second. -/
theorem names_identify_iff {calls : List ExportCall}
    (datetimes : ∀ w ∈ plannedWindows calls, InRange w.start ∧ InRange w.end_) :
    NamesIdentify (plannedWindows calls) ↔ ∀ w ∈ plannedWindows calls, w.Whole := by
  constructor
  · intro identify w member
    obtain ⟨start, end_⟩ := datetimes w member
    exact (parseWindow_filePath_iff start end_).mp (identify.recovers w member)
  · intro whole
    constructor
    · intro w member
      obtain ⟨start, end_⟩ := datetimes w member
      exact (parseWindow_filePath_iff start end_).mpr (whole w member)
    · intro v hv w hw different same
      obtain ⟨starts, ends⟩ := filePath_inj same
      rw [floorSecond_of_whole (whole v hv).1, floorSecond_of_whole (whole w hw).1] at starts
      rw [floorSecond_of_whole (whole v hv).2, floorSecond_of_whole (whole w hw).2] at ends
      cases v
      cases w
      exact different (by simp only [ExportWindow.mk.injEq]; exact ⟨starts, ends⟩)

/-- A call plans whole windows from a whole start to a whole horizon. A watermark is
whole: only the oldest row of the hot tier brings a fraction into the start. -/
theorem planned_whole {call : ExportCall} {view : View} (horizon : call.horizon % second = 0)
    (start : ∀ t, call.start (call.watermark view) = .ok (some t) → t % second = 0) :
    ∀ w ∈ call.planned view, w.Whole := by
  intro w member
  rcases call.planned_plan view with empty | ⟨t, stop, begins, plan⟩
  · simp [empty] at member
  · constructor
    · exact (plan.whole_starts rfl w member).elim (fun same => same ▸ start t begins) id
    · exact (plan.whole_ends rfl w member).elim id fun same => same ▸ horizon

/-- A hot tier whose oldest row is a quarter of a second past a minute. -/
def quarterPast (since : Option Int) : ExportCall where
  now := 2 * hour
  maxWindows := some 1
  since := since
  oldest := .ok (some (10 * minute + 250000))
  answers := Server.deployed.answers []

def quarterWindow : ExportWindow := ⟨10 * minute + 250000, hour, by decide, by decide⟩

theorem mem_plannedWindows_one {call : ExportCall} {w : ExportWindow} :
    w ∈ plannedWindows [call] ↔ w ∈ call.planned Tier.initial.view := by
  constructor
  · rintro ⟨before, other, after, split, member⟩
    cases before with
    | nil => exact (List.cons.inj split).1 ▸ member
    | cons _ rest => simp at split
  · exact fun member => ⟨[], call, [], rfl, member⟩

/-- The name of the one window of a run that begins on a whole second. -/
theorem names_identify_whole : NamesIdentify (plannedWindows [quarterPast (some (10 * minute))]) := by
  have planned : (quarterPast (some (10 * minute))).planned Tier.initial.view = [longWindow] := by
    decide +kernel
  have only (w : ExportWindow) (member : w ∈ plannedWindows [quarterPast (some (10 * minute))]) :
      w = longWindow := by
    rwa [mem_plannedWindows_one, planned, List.mem_singleton] at member
  refine (names_identify_iff ?_).mpr ?_
  · intro w member
    rw [only w member]
    exact ⟨by decide, by decide⟩
  · intro w member
    rw [only w member]
    exact ⟨by decide, by decide⟩

/-- The first window of the run is read back without the fraction. A run that begins at
the whole second has another window of the same name. -/
theorem names_confuse :
    let calls := [quarterPast none, quarterPast (some (10 * minute))]
    quarterWindow ∈ plannedWindows calls ∧ longWindow ∈ plannedWindows calls ∧
      filePath quarterWindow = filePath longWindow ∧
      parseWindow (filePath quarterWindow) = .ok (some longWindow) ∧
      ¬ NamesIdentify (plannedWindows calls) := by
  intro calls
  have first : (quarterPast none).planned Tier.initial.view = [quarterWindow] := by decide +kernel
  have second : (quarterPast (some (10 * minute))).planned
      (Tier.initial.steps [quarterPast none]).view = [longWindow] := by
    decide +kernel
  have here : quarterWindow ∈ plannedWindows calls :=
    ⟨[], _, [quarterPast (some (10 * minute))], rfl, by rw [Tier.steps, List.foldl_nil, first]; simp⟩
  have there : longWindow ∈ plannedWindows calls := ⟨[quarterPast none], _, [], rfl, by simp [second]⟩
  have same : filePath quarterWindow = filePath longWindow := filePath_congr (by decide) (by decide)
  refine ⟨here, there, same, by decide +kernel, fun identify => ?_⟩
  exact identify.distinct _ here _ there (by decide) same

end TelemetryEngine.ColdTier
