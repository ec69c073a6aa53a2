import TelemetryEngine.Ingest.Monitor

/-! The panels of `dashboards.py` over `telemetry.pipeline_health` that difference its cumulative
counters per sample. -/
namespace TelemetryEngine.Dashboards
open Experiments Foundation.Counters Ingest

/-- `WHERE window ORDER BY sampled_at` -/
def windowRows (shown : Int → Bool) (table : List HealthRow) : List HealthRow :=
  (table.filter fun row => shown row.sampledAt).insertionSort fun first second =>
    first.sampledAt ≤ second.sampledAt

/-- `greatest(0, x - any(x) OVER (… 1 PRECEDING AND 1 PRECEDING))` from a row on. -/
def differenced (column : HealthRow → Int) : Int → List HealthRow → List (Int × Int)
  | _, [] => []
  | previous, row :: rest =>
    (row.sampledAt, max 0 (column row - previous)) :: differenced column (column row) rest

-- The first row has none before it, and `any` of nothing is zero.
def droppedPerSample (shown : Int → Bool) (table : List HealthRow) : List (Int × Int) :=
  differenced (fun row => row.sendFailedSpans + row.enqueueFailedSpans) 0 (windowRows shown table)

def acceptedPerSample (shown : Int → Bool) (table : List HealthRow) : List (Int × Int) :=
  differenced HealthRow.acceptedSpans 0 (windowRows shown table)

def sentPerSample (shown : Int → Bool) (table : List HealthRow) : List (Int × Int) :=
  differenced HealthRow.sentSpans 0 (windowRows shown table)

/-- The timeline of a collector that the sampler reads at its turns. -/
abbrev Sampled := List (Event Counters Turn)

/-- What a differenced panel shows of a counter: where it stood at first, and from then on its
rises. -/
def perSample (f : Counters →+ ℕ) (before : Counters) : List Sampled → List ℕ
  | [] => []
  | first :: rest => f (value before first) :: kept f (value before first) rest

theorem differenced_numbers {column : HealthRow → Int} {rows : List HealthRow} {numbers : List ℕ}
    (same : rows.map column = numbers.map Nat.cast) (previous : ℕ) :
    (differenced column previous rows).map Prod.snd =
      (differences previous numbers).map Nat.cast := by
  induction rows generalizing numbers previous with
  | nil =>
    obtain rfl := List.map_eq_nil_iff.mp same.symm
    rfl
  | cons row rest ih =>
    cases numbers with
    | nil => contradiction
    | cons number numbers =>
      obtain ⟨here, later⟩ := List.cons.inj same
      rw [differenced, differences, List.map_cons, List.map_cons, here, ih later]
      congr 1
      omega

theorem differences_zero (f : Counters →+ ℕ) (before : Counters) (spans : List Sampled) :
    differences 0 ((standings before spans).map f) = perSample f before spans := by
  cases spans with
  | nil => rfl
  | cons first rest =>
    rw [standings, List.map_cons, differences, differences_standings, perSample, Nat.sub_zero]

theorem records_column {A : Type} {met : List (Turn × Counters)} {rows : List HealthRow}
    {durationS : Option ℚ} {started : ℚ} (records : Recorded durationS started met rows)
    {column : HealthRow → A} {source : Turn × Counters → A}
    (same : ∀ met row, Records durationS started met.1 met.2 row → column row = source met) :
    rows.map column = met.map source := by
  induction records with
  | nil => rfl
  | cons here _ ih => rw [List.map_cons, List.map_cons, same _ _ here, ih]

theorem windowRows_records {met : List (Turn × Counters)} {rows : List HealthRow}
    {durationS : Option ℚ} {started : ℚ} (records : Recorded durationS started met rows)
    (chronological : (met.map (·.1.now)).Pairwise (· < ·)) (shown : Int → Bool) :
    Recorded durationS started (met.filter fun met => shown met.1.now) (windowRows shown rows) := by
  have ordered : (rows.map HealthRow.sampledAt).Pairwise (· < ·) := by
    rwa [records_column records fun _ _ here => here.sampledAt]
  have sorted : (rows.filter fun row => shown row.sampledAt).Pairwise fun first second =>
      first.sampledAt ≤ second.sampledAt :=
    ((List.pairwise_map.mp ordered).imp le_of_lt).filter _
  rw [windowRows, sorted.insertionSort_eq]
  refine List.rel_filter (fun met row here => ?_) records
  exact iff_of_eq (congrArg (fun time => shown time = true) here.sampledAt.symm)

/-- One differenced panel, of a column that carries the counter. -/
theorem differenced_sampled {before : Counters} {ran : Sampled} {rows : List HealthRow}
    {durationS : Option ℚ} {started : ℚ} {shown : Int → Bool} {f : Counters →+ ℕ}
    {column : HealthRow → Int}
    (records : Recorded durationS started
      ((readings before ran).filter fun met => met.1.writes && shown met.1.now)
      (windowRows shown rows))
    (same : ∀ turn counters row, Records durationS started turn counters row →
      column row = f counters) :
    (differenced column 0 (windowRows shown rows)).map Prod.snd =
      (perSample f before (stretches (fun turn => turn.writes && shown turn.now) ran)).map
        Nat.cast := by
  rw [← differences_zero, ← readings_chosen, List.map_map]
  refine differenced_numbers ?_ 0
  rw [List.map_map]
  exact records_column records fun met row here => same met.1 met.2 row here

/-- Over any run of the sampler the first point of a differenced panel is where its counter
stood, and every other is what the collector counted since the point before, less what
restarts threw away. So no loss is shown that was none, and without restarts no loss is missed. -/
theorem health_panels_count {before : Counters} {events : Sampled}
    (chronological : ((readings before events).map (·.1.now)).Pairwise (· < ·))
    (durationS : Option ℚ) (started : ℚ) (shown : Int → Bool) :
    ∃ ran, ran <+: events ∧
      let rows := (monitor durationS started (readings before events)).1
      let spans := stretches (fun turn => turn.writes && shown turn.now) ran
      (droppedPerSample shown rows).map Prod.snd = (perSample dropped before spans).map Nat.cast ∧
      (acceptedPerSample shown rows).map Prod.snd = (perSample accepted before spans).map Nat.cast ∧
      (sentPerSample shown rows).map Prod.snd = (perSample sent before spans).map Nat.cast ∧
      ∀ f : Counters →+ ℕ,
        List.Forall₂ (fun point stretch => point ≤ f (added stretch))
          (perSample f before spans).tail spans.tail ∧
        ((∀ gone ∈ lost before ran, f gone = 0) →
          (perSample f before spans).tail = spans.tail.map fun stretch => f (added stretch)) := by
  obtain ⟨taken, rest, split, records, -⟩ := monitor_ran durationS started (readings before events)
  have within : taken <+: readings before events := ⟨rest, split.symm⟩
  obtain ⟨ran, earlier, rfl⟩ := readings_stopped within
  have records := windowRows_records records
    (chronological.sublist ((List.filter_sublist.trans within.sublist).map _)) shown
  rw [List.filter_filter, funext fun met : Turn × Counters => Bool.and_comm (shown met.1.now) _]
    at records
  refine ⟨ran, earlier, ?_, ?_, ?_, fun f => ⟨?_, fun harmless => ?_⟩⟩
  · exact differenced_sampled records fun _ _ _ here => here.dropped
  · exact differenced_sampled records fun _ _ _ here => here.accepted
  · exact differenced_sampled records fun _ _ _ here => here.sent
  · cases stretches (fun turn => turn.writes && shown turn.now) ran with
    | nil => exact .nil
    | cons first rest => exact kept_le f _ rest
  · have within := flatten_stretches (fun turn : Turn => turn.writes && shown turn.now) ran
    cases spans : stretches (fun turn => turn.writes && shown turn.now) ran with
    | nil => rfl
    | cons first rest =>
      rw [spans] at within
      obtain ⟨later, whole⟩ := within
      rw [← whole, List.flatten_cons, List.append_assoc, lost_append, lost_append,
        List.forall_mem_append, List.forall_mem_append] at harmless
      exact kept_eq_added f harmless.2.1

/-- Ten spans dropped, a reading, a restart, three more dropped, and another reading. -/
def restarting : Sampled :=
  [.add (Pi.single .sendFailed 10), .read { clock := 0, topic := none, now := 0 }, .reset,
    .add (Pi.single .enqueueFailed 3), .read { clock := 5, topic := none, now := 5 }]

theorem health_panels_count_restarting :
    ∃ ran, ran <+: restarting ∧
      let rows := (monitor none 0 (readings 0 restarting)).1
      let spans := stretches (fun turn => turn.writes && true) ran
      (droppedPerSample (fun _ => true) rows).map Prod.snd = (perSample dropped 0 spans).map Nat.cast ∧
      (acceptedPerSample (fun _ => true) rows).map Prod.snd =
        (perSample accepted 0 spans).map Nat.cast ∧
      (sentPerSample (fun _ => true) rows).map Prod.snd = (perSample sent 0 spans).map Nat.cast ∧
      ∀ f : Counters →+ ℕ,
        List.Forall₂ (fun point stretch => point ≤ f (added stretch))
          (perSample f 0 spans).tail spans.tail ∧
        ((∀ gone ∈ lost 0 ran, f gone = 0) →
          (perSample f 0 spans).tail = spans.tail.map fun stretch => f (added stretch)) :=
  health_panels_count (by simp [restarting, Foundation.Counters.readings]) none 0 _

end TelemetryEngine.Dashboards
