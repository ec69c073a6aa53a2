import TelemetryEngine.ColdTier.Rewind

/-! Exports of a hot tier whose rows come and go. Rows are appended, expired rows
are deleted at any time, and a call sees whatever is there when it looks. A window
exported again replaces its file by what is left of it. -/
namespace TelemetryEngine.ColdTier
open Foundation.Calendar

/-- `TTL toDateTime(ts) + INTERVAL 48 HOUR`. -/
def rawTtl : Int := 48 * hour

def expired (now : Int) (row : SpanRow) : Bool := floorSecond row.time + rawTtl ≤ now

inductive Event where
  | append (rows : List SpanRow)
  /-- A merge at `now` that deletes the expired rows `gone` picks. -/
  | expire (now : Int) (gone : SpanRow → Bool)
  | call (call : ExportCall)

structure World where
  hot : List SpanRow
  tier : Tier

namespace World

def initial : World := ⟨[], .initial⟩

def step (world : World) : Event → World
  | .append rows => { world with hot := world.hot ++ rows }
  | .expire now gone => { world with hot := world.hot.filter fun row => !(gone row && expired now row) }
  | .call call => { world with tier := world.tier.step call }

def steps (world : World) (events : List Event) : World := events.foldl step world

def lake (world : World) : Path → Option LakeFile := world.tier.view.lake

end World

/-- The window's file on disk is not to be replaced by a file without some of its
rows: the stream serves them all, or nothing. -/
def KeepsFiles (tier : Tier) (call : ExportCall) : Prop :=
  ∀ window ∈ call.planned tier.view, ∀ file, tier.view.lake (filePath window) = some file →
    (call.answers window).written = [] ∨ ∀ row ∈ file.rows, row ∈ (call.answers window).file

def KeepsFilesRun : World → List Event → Prop
  | _, [] => True
  | world, event :: rest =>
    (match event with
      | .call call => KeepsFiles world.tier call
      | _ => True) ∧ KeepsFilesRun (world.step event) rest

def Retains (before after : Path → Option LakeFile) : Prop :=
  ∀ path file, before path = some file →
    ∃ kept, after path = some kept ∧ ∀ row ∈ file.rows, row ∈ kept.rows

theorem Retains.refl (lake : Path → Option LakeFile) : Retains lake lake :=
  fun _ file held => ⟨file, held, fun _ member => member⟩

theorem Retains.trans {first second third : Path → Option LakeFile} (early : Retains first second)
    (late : Retains second third) : Retains first third := by
  intro path file held
  obtain ⟨middle, found, keeps⟩ := early path file held
  obtain ⟨last, present, retains⟩ := late path middle found
  exact ⟨last, present, fun row member => retains row (keeps row member)⟩

theorem KeepsFiles.retains {tier : Tier} {call : ExportCall} (keeps : KeepsFiles tier call) :
    Retains tier.view.lake (tier.step call).view.lake := by
  refine Tier.lake_invariant (fun lake window planned verifies retains path file held => ?_)
    (.refl _)
  rw [Function.update_apply]
  split
  case isTrue here =>
    subst here
    refine ⟨_, rfl, ?_⟩
    refine (keeps window planned file held).resolve_left ?_
    intro none
    have length := verifies.stored
    rw [none] at length
    exact verifies.nonempty (List.eq_nil_of_length_eq_zero length)
  case isFalse => exact retains path file held

theorem KeepsFilesRun.retains {world : World} {events : List Event}
    (keeps : KeepsFilesRun world events) : Retains world.lake (world.steps events).lake := by
  induction events generalizing world with
  | nil => exact .refl _
  | cons event rest ih =>
    obtain ⟨own, later⟩ := keeps
    have step : Retains world.lake (world.step event).lake := by
      cases event with
      | append | expire => exact .refl _
      | call => exact KeepsFiles.retains own
    exact step.trans (ih later)

/-- While no call replaces a file by one that lacks some of its rows, every row
that was ever committed stays in the lake. The answers of a call are any: what was
appended and what expired before it shows in them alone. -/
theorem lake_never_loses_row {world : World} {events : List Event}
    (keeps : KeepsFilesRun world events) : ∀ path file row, world.lake path = some file →
    row ∈ file.rows → ∃ path' file', (world.steps events).lake path' = some file' ∧ row ∈ file'.rows := by
  intro path file row held member
  obtain ⟨kept, found, all⟩ := keeps.retains path file held
  exact ⟨path, kept, found, all row member⟩

/-- Two rows of one window, of which the first expires half an hour earlier. -/
def earlyRow : SpanRow := { ts := 600000 }
def lateRow : SpanRow := { ts := 3000000 }

/-- One window from ten past midnight, over the rows the hot tier holds. -/
def exportFrom (rows : List SpanRow) (now : Int) : ExportCall where
  now := now
  maxWindows := some 1
  since := some (10 * minute)
  oldest := .ok (Server.deployed.minTs rows)
  answers := Server.deployed.answers rows

def exportedBoth : World :=
  World.initial.steps [.append [earlyRow, lateRow], .call (exportFrom [earlyRow, lateRow] (2 * hour))]

theorem exportedBoth_lake :
    exportedBoth.lake (filePath longWindow) = some ⟨longWindow, [earlyRow, lateRow]⟩ := by
  decide +kernel

/-- Exported again while both rows are there, the window keeps them. -/
theorem lake_never_loses_row_still_there :
    ∃ path file, (exportedBoth.steps [.call (exportFrom [earlyRow, lateRow] (3 * hour))]).lake path =
      some file ∧ earlyRow ∈ file.rows := by
  have planned : (exportFrom [earlyRow, lateRow] (3 * hour)).planned exportedBoth.tier.view =
      [longWindow] := by
    decide +kernel
  have keeps : KeepsFiles exportedBoth.tier (exportFrom [earlyRow, lateRow] (3 * hour)) := by
    intro window member file held
    rw [planned, List.mem_singleton] at member
    subst member
    obtain rfl := Option.some.inj (exportedBoth_lake.symm.trans held)
    exact .inr (by decide +kernel)
  exact @lake_never_loses_row exportedBoth [_] ⟨keeps, trivial⟩ _ _ earlyRow exportedBoth_lake (by simp)

/-- Two days later the first row has expired, and exporting the window again
leaves it nowhere. -/
theorem reexport_loses_row :
    let left := exportedBoth.step (.expire (rawTtl + 30 * minute) fun _ => true)
    let after := left.step (.call (exportFrom left.hot (rawTtl + 30 * minute)))
    exportedBoth.lake (filePath longWindow) = some ⟨longWindow, [earlyRow, lateRow]⟩ ∧
      left.hot = [lateRow] ∧
      ∀ path file, after.lake path = some file → earlyRow ∉ file.rows := by
  intro left after
  refine ⟨exportedBoth_lake, by decide +kernel, fun path file held => ?_⟩
  have keys : after.tier.files.keys = [filePath longWindow] := by decide +kernel
  have last : after.lake (filePath longWindow) = some ⟨longWindow, [lateRow]⟩ := by decide +kernel
  have key := Tier.view_lake_mem held
  rw [keys, List.mem_singleton] at key
  rw [key] at held
  obtain rfl := Option.some.inj (last.symm.trans held)
  decide +kernel

end TelemetryEngine.ColdTier
