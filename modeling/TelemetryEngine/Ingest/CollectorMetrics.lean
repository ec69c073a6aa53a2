import TelemetryEngine.Experiments.Backpressure
import TelemetryEngine.Foundation.Exposition

/-! `read_collector` of `ingest/lag.py` on the text that the collector exposes. A line
counts for a counter when it begins with the counter's name, and what follows its last
blank is the number that is read. -/
namespace TelemetryEngine.Ingest
open Experiments (CollectorSnapshot)
open Foundation.Exposition Foundation.FloatText Foundation.PythonFloat Foundation.Rounding
open Foundation.TextLines

/-! ### The scrape -/

/-- `_COLLECTOR_COUNTERS` -/
def collectorCounters : List String :=
  ["otelcol_receiver_accepted_spans", "otelcol_receiver_refused_spans",
    "otelcol_exporter_sent_spans", "otelcol_exporter_send_failed_spans",
    "otelcol_exporter_enqueue_failed_spans", "otelcol_exporter_queue_size",
    "otelcol_exporter_queue_capacity"]

/-- The dictionary of what was read so far. -/
abbrev Values := String → Option FloatValue

def Values.get (values : Values) (counter : String) : FloatValue :=
  (values counter).getD (.finite 0)

/-- `float(line.rsplit(" ", 1)[1])`, and nothing for an error. -/
def parse (line : List Char) : Option FloatValue := (afterLast ' ' line).bind pyFloat

/-- The turn of a counter at a line. -/
def readCounter (line : List Char) (values : Values) (counter : String) : Values :=
  if counter.toList.isPrefixOf line then
    match parse line with
    | some x => Function.update values counter (some ((values.get counter).add x))
    | none => values
  else values

def readLine (values : Values) (line : List Char) : Values :=
  if ['#'].isPrefixOf line then values else collectorCounters.foldl (readCounter line) values

/-- Scrape the collector's Prometheus endpoint. Nothing if it is unreachable. -/
def readCollector (response : Option (List Char)) : Except IntError (Option CollectorSnapshot) :=
  match response with
  | none => .ok none
  | some body => do
    let values := (splitLines body).foldl readLine fun _ => none
    let acceptedSpans ← (values.get "otelcol_receiver_accepted_spans").toInt
    let refusedSpans ← (values.get "otelcol_receiver_refused_spans").toInt
    let sentSpans ← (values.get "otelcol_exporter_sent_spans").toInt
    let sendFailedSpans ← (values.get "otelcol_exporter_send_failed_spans").toInt
    let enqueueFailedSpans ← (values.get "otelcol_exporter_enqueue_failed_spans").toInt
    let queueSize ← (values.get "otelcol_exporter_queue_size").toInt
    let queueCapacity ← (values.get "otelcol_exporter_queue_capacity").toInt
    return some
      { acceptedSpans, refusedSpans, sentSpans, sendFailedSpans, enqueueFailedSpans, queueSize,
        queueCapacity }

/-! ### What a line is read as -/

/-- The number that a line is read as, of a counter. -/
def reading (counter : String) (line : List Char) : Option FloatValue :=
  if ['#'].isPrefixOf line = false ∧ counter.toList.isPrefixOf line = true then parse line
  else none

theorem readCounter_self (line : List Char) (values : Values) (counter : String) :
    (readCounter line values counter).get counter =
      (if counter.toList.isPrefixOf line = true then parse line else none).toList.foldl
        FloatValue.add (values.get counter) := by
  unfold readCounter
  split
  · cases parse line with
    | none => rfl
    | some x => simp [Values.get]
  · rfl

theorem readCounter_other (line : List Char) (values : Values) {turn counter : String}
    (other : counter ≠ turn) : (readCounter line values turn).get counter = values.get counter := by
  unfold readCounter
  split
  · cases parse line with
    | none => rfl
    | some x => simp [Values.get, Function.update_of_ne other]
  · rfl

theorem foldl_readCounter_other (line : List Char) (values : Values) {counters : List String}
    {counter : String} (absent : counter ∉ counters) :
    (counters.foldl (readCounter line) values).get counter = values.get counter := by
  induction counters generalizing values with
  | nil => rfl
  | cons turn rest ih =>
    have other : counter ≠ turn := fun same => absent (by simp [same])
    rw [List.foldl_cons, ih _ fun member => absent (by simp [member]),
      readCounter_other line values other]

/-- The turns of other counters leave a counter alone. -/
theorem foldl_readCounter_get (line : List Char) (values : Values) {counters : List String}
    (distinct : counters.Nodup) {counter : String} (member : counter ∈ counters) :
    (counters.foldl (readCounter line) values).get counter =
      (readCounter line values counter).get counter := by
  induction counters generalizing values with
  | nil => simp at member
  | cons turn rest ih =>
    obtain ⟨once, distinct⟩ := List.nodup_cons.mp distinct
    rw [List.foldl_cons]
    by_cases same : counter = turn
    · rw [same, foldl_readCounter_other line _ once]
    · have later : counter ∈ rest := (List.mem_cons.mp member).resolve_left same
      rw [ih _ distinct later, readCounter_self, readCounter_self, readCounter_other line values same]

theorem readLine_get (values : Values) (line : List Char) {counter : String}
    (member : counter ∈ collectorCounters) : (readLine values line).get counter =
      (reading counter line).toList.foldl FloatValue.add (values.get counter) := by
  have distinct : collectorCounters.Nodup := by decide
  unfold readLine reading
  by_cases comment : ['#'].isPrefixOf line = true
  · simp [comment]
  · rw [if_neg comment, foldl_readCounter_get line values distinct member, readCounter_self]
    simp [comment]

/-- A counter's entry is the sum of what the lines are read as. -/
theorem readLines_get (values : Values) (lines : List (List Char)) {counter : String}
    (member : counter ∈ collectorCounters) : (lines.foldl readLine values).get counter =
      (lines.filterMap (reading counter)).foldl FloatValue.add (values.get counter) := by
  induction lines generalizing values with
  | nil => rfl
  | cons line rest ih =>
    rw [List.foldl_cons, ih, readLine_get values line member, List.filterMap_cons]
    cases reading counter line <;> rfl

/-! ### Counters and fields -/

/-- The counter of each field of a snapshot. -/
def collectorFields : List (String × (CollectorSnapshot → Int)) :=
  [("otelcol_receiver_accepted_spans", CollectorSnapshot.acceptedSpans),
    ("otelcol_receiver_refused_spans", CollectorSnapshot.refusedSpans),
    ("otelcol_exporter_sent_spans", CollectorSnapshot.sentSpans),
    ("otelcol_exporter_send_failed_spans", CollectorSnapshot.sendFailedSpans),
    ("otelcol_exporter_enqueue_failed_spans", CollectorSnapshot.enqueueFailedSpans),
    ("otelcol_exporter_queue_size", CollectorSnapshot.queueSize),
    ("otelcol_exporter_queue_capacity", CollectorSnapshot.queueCapacity)]

def readings (counter : String) (body : List Char) : List FloatValue :=
  (splitLines body).filterMap (reading counter)

/-- What the conversion of a counter's entry gives. -/
def count (counter : String) (body : List Char) : Except IntError Int :=
  ((readings counter body).foldl FloatValue.add (.finite 0)).toInt

theorem bind_eq_ok {x : Except IntError A} {f : A → Except IntError B} {b : B} :
    (x >>= f) = .ok b ↔ ∃ a, x = .ok a ∧ f a = .ok b := by
  cases x with
  | error e => exact ⟨fun failed => by contradiction, fun ⟨_, failed, _⟩ => by contradiction⟩
  | ok a => exact ⟨fun done => ⟨a, rfl, done⟩, fun ⟨_, same, done⟩ => by cases same; exact done⟩

/-- A snapshot is returned when every counter is converted. It holds what they give. -/
theorem readCollector_eq_ok {body : List Char} {snapshot : CollectorSnapshot} :
    readCollector (some body) = .ok (some snapshot) ↔
      ∀ entry ∈ collectorFields, count entry.1 body = .ok (entry.2 snapshot) := by
  have entries : ∀ counter ∈ collectorCounters,
      (((splitLines body).foldl readLine fun _ => none).get counter).toInt = count counter body := by
    intro counter member
    rw [readLines_get _ _ member]
    rfl
  simp only [collectorCounters, List.forall_mem_cons] at entries
  obtain ⟨accepted, refused, sent, failed, enqueue, size, capacity, _⟩ := entries
  simp only [readCollector, accepted, refused, sent, failed, enqueue, size, capacity, bind_eq_ok,
    collectorFields, List.forall_mem_cons]
  constructor
  · rintro ⟨_, accepted, _, refused, _, sent, _, failed, _, enqueue, _, size, _, capacity, made⟩
    obtain rfl := Option.some.inj (Except.ok.inj made)
    exact ⟨accepted, refused, sent, failed, enqueue, size, capacity, by simp⟩
  · rintro ⟨accepted, refused, sent, failed, enqueue, size, capacity, _⟩
    exact ⟨_, accepted, _, refused, _, sent, _, failed, _, enqueue, _, size, _, capacity, rfl⟩

/-! ### What a body holds -/

/-- The metric is the counter, or the counter with the suffix of a total. -/
def counts (counter : String) (sample : Sample) : Bool :=
  sample.name = counter.toList || sample.name = counter.toList ++ "_total".toList

/-- What a line says of a counter. -/
def due (counter : String) : Line → ℚ
  | .sample s => if counts counter s then s.value.value.finitePart else 0
  | _ => 0

/-- What the lines are read as that `splitlines` makes of a line. -/
def lineReadings (counter : String) (line : Line) : List FloatValue :=
  readings counter (line.render ++ ['\n'])

theorem readings_render (counter : String) (body : List Line) :
    readings counter (render body) = body.flatMap (lineReadings counter) := by
  induction body with
  | nil => rfl
  | cons line rest ih =>
    have split : splitLines (render (line :: rest)) =
        splitLines (line.render ++ ['\n']) ++ splitLines (render rest) := by
      rw [render, List.flatMap_cons, List.append_assoc, List.singleton_append, splitLines_append]
      rfl
    rw [readings, split, List.filterMap_append, List.flatMap_cons, ← ih]
    rfl

theorem counter_chars : ∀ counter ∈ collectorCounters,
    counter.toList.all isNameChar = true ∧ counter.toList.head? = some 'o' := by
  decide +kernel

theorem reading_none {counter : String} {line : List Char}
    (other : ¬ counter.toList <+: line) : reading counter line = none := by
  rw [reading, if_neg]
  rintro ⟨_, begins⟩
  exact other (List.isPrefixOf_iff_prefix.mp begins)

theorem not_prefix_of_head {counter : String} (member : counter ∈ collectorCounters)
    {line : List Char} (head : line.head? ≠ some 'o') : ¬ counter.toList <+: line := by
  rintro ⟨rest, rfl⟩
  have first := (counter_chars counter member).2
  cases split : counter.toList with
  | nil => simp [split] at first
  | cons c tail => simp_all

theorem not_prefix_blanks {counter : String} (member : counter ∈ collectorCounters)
    (blanks : Blanks) {rest : List Char} (other : blanks.text = [] → rest.head? ≠ some 'o') :
    ¬ counter.toList <+: blanks.text ++ rest := by
  apply not_prefix_of_head member
  cases before : blanks.text with
  | nil => exact other before
  | cons c tail =>
    have blank := List.all_eq_true.mp blanks.blank c (by simp [before])
    intro first
    obtain rfl := Option.some.inj first
    exact absurd blank (by decide)

theorem prefix_of_prefix_append {p name tail : List Char} {c : Char} {q : Char → Bool}
    (all : p.all q = true) (stop : q c = false) (begins : p <+: name ++ c :: tail) : p <+: name := by
  rcases List.prefix_or_prefix_of_prefix begins (List.prefix_append name _) with inside | ⟨more, rfl⟩
  · exact inside
  · have rest := (List.prefix_append_right_inj name).mp begins
    cases more with
    | nil => simp
    | cons d _ =>
      obtain ⟨rfl, _⟩ := List.cons_prefix_cons.mp rest
      simp [stop] at all

/-- Lines begin with a counter's name where the names of their metrics do. -/
theorem prefix_sample_iff {counter : String} (member : counter ∈ collectorCounters) (s : Sample) :
    counter.toList <+: s.before.text ++ (s.name ++ s.rest) ↔
      s.before.text = [] ∧ counter.toList <+: s.name := by
  constructor
  · intro begins
    have before : s.before.text = [] := by
      by_contra some
      exact not_prefix_blanks member s.before (fun none => absurd none some) begins
    obtain ⟨c, tail, split, stop⟩ := s.rest_head
    rw [before, List.nil_append, split] at begins
    exact ⟨before, prefix_of_prefix_append (counter_chars counter member).1 stop begins⟩
  · rintro ⟨before, begins⟩
    rw [before, List.nil_append]
    exact begins.trans (List.prefix_append _ _)

theorem lineReadings_unbroken {line : Line} (unbroken : ∀ c ∈ line.render, isLineBreak c = false)
    (counter : String) : lineReadings counter line = (reading counter line.render).toList := by
  rw [lineReadings, readings, splitLines_unbroken unbroken, List.filterMap_cons]
  cases reading counter line.render <;> rfl

/-- The number of a sample whose line begins with a counter's name: the float of its value, or of
its timestamp if it has one, and nothing where what stands last is not set off by a blank. -/
def seen (s : Sample) : Option FloatValue :=
  if ' ' ∈ s.after.text then none
  else match s.timestamp with
    | none => if ' ' ∈ s.gap.text then some s.value.value.double else none
    | some stamp =>
      if ' ' ∈ stamp.gap.text then some (FloatValue.finite stamp.number).double else none

/-- A blank inside the labels sets off no number, as the brace that closes them follows it. -/
theorem parse_unspaced (s : Sample) {rest : List Char} (unspaced : ' ' ∉ rest) :
    parse (s.name ++ (s.labels.elim [] Labels.render ++ rest)) = none := by
  by_cases inLabels : ' ' ∈ s.labels.elim [] Labels.render
  · cases found : s.labels with
    | none => simp [found] at inLabels
    | some labels =>
      rw [found, Option.elim_some] at inLabels
      obtain ⟨front, back, split, absent⟩ := exists_last inLabels
      have brace : '}' ∈ back := Labels.brace_mem (by decide) split
      have token : ' ' ∉ back ++ rest := by simp [absent, unspaced]
      have line : s.name ++ ((some labels).elim [] Labels.render ++ rest) =
          (s.name ++ front) ++ ' ' :: (back ++ rest) := by
        simp [split]
      rw [parse, line, afterLast_append _ token, Option.bind_some]
      exact pyFloat_none_of_mem (List.mem_append_left _ brace) (by decide) (by decide) (by decide)
        (by decide)
  · rw [parse, afterLast_of_not_mem (by simp [s.no_space, inLabels, unspaced]), Option.bind_none]

theorem parse_value {s : Sample} (timeless : s.timestamp = none) (after : ' ' ∉ s.after.text) :
    parse (s.name ++ s.rest) =
      if ' ' ∈ s.gap.text then some s.value.value.double else none := by
  have value := not_mem_of_isValueChar s.value.chars.1
  have line : s.name ++ s.rest = (s.name ++ s.labels.elim [] Labels.render) ++
      (s.gap.text ++ (s.value.text ++ s.after.text)) := by
    simp [Sample.rest, timeless]
  split
  case isTrue gap =>
    obtain ⟨back, spaces, token⟩ := Blanks.afterLast gap
    rw [parse, line, token _ _ (by simp [value, after]), Option.bind_some, ← List.append_assoc]
    exact pyFloat_of_parseFloat spaces s.value.legal s.after.spaces
  case isFalse gap =>
    rw [line, List.append_assoc]
    exact parse_unspaced s (by simp [gap, value, after])

theorem parse_stamp {s : Sample} {stamp : Timestamp} (timed : s.timestamp = some stamp)
    (after : ' ' ∉ s.after.text) : parse (s.name ++ s.rest) =
      if ' ' ∈ stamp.gap.text then some (FloatValue.finite stamp.number).double else none := by
  have value := not_mem_of_isValueChar s.value.chars.1
  have number := not_mem_of_isValueChar stamp.chars.1
  have line : s.name ++ s.rest = (s.name ++ s.labels.elim [] Labels.render) ++ (s.gap.text ++
      (s.value.text ++ (stamp.gap.text ++ (stamp.text ++ s.after.text)))) := by
    simp [Sample.rest, timed]
  split
  case isTrue gap =>
    obtain ⟨back, spaces, token⟩ := Blanks.afterLast gap
    have front : s.name ++ s.rest = (s.name ++ s.labels.elim [] Labels.render ++ s.gap.text ++
        s.value.text) ++ (stamp.gap.text ++ (stamp.text ++ s.after.text)) := by
      simp [line]
    rw [parse, front, token _ _ (by simp [number, after]), Option.bind_some, ← List.append_assoc]
    exact pyFloat_of_parseFloat spaces stamp.parseFloat s.after.spaces
  case isFalse gap =>
    by_cases before : ' ' ∈ s.gap.text
    · -- tabs alone hold the value and the timestamp apart, which are read as one part
      obtain ⟨back, spaces, token⟩ := Blanks.afterLast before
      rw [parse, line, token _ _ (by simp [value, gap, number, after]), Option.bind_some]
      have two := pyFloat_apart spaces s.value.chars.1 s.value.chars.2 stamp.gap.spaces
        stamp.apart stamp.chars.1 stamp.chars.2 s.after.spaces
      simpa using two
    · rw [line, List.append_assoc]
      exact parse_unspaced s (by simp [before, value, gap, number, after])

theorem parse_sample (s : Sample) : parse (s.name ++ s.rest) = seen s := by
  unfold seen
  split
  case isTrue after =>
    obtain ⟨back, spaces, token⟩ := Blanks.afterLast after
    have line : s.name ++ s.rest = (s.name ++ (s.labels.elim [] Labels.render ++ (s.gap.text ++
        (s.value.text ++ s.timestamp.elim [] fun stamp => stamp.gap.text ++ stamp.text)))) ++
          (s.after.text ++ []) := by
      simp [Sample.rest]
    rw [parse, line, token _ [] (by simp), Option.bind_some, List.append_nil, pyFloat_spaces spaces]
  case isFalse after =>
    split
    case h_1 timeless => exact parse_value timeless after
    case h_2 stamp timed => exact parse_stamp timed after

/-- A line that begins with a counter's name is no comment. -/
theorem reading_of_begins {counter : String} (member : counter ∈ collectorCounters)
    {line : List Char} (begins : counter.toList <+: line) : reading counter line = parse line := by
  have comment : ['#'].isPrefixOf line = false := by
    rw [Bool.eq_false_iff, Ne, List.isPrefixOf_iff_prefix]
    rintro ⟨rest, rfl⟩
    exact not_prefix_of_head member (by simp) begins
  rw [reading, if_pos ⟨comment, List.isPrefixOf_iff_prefix.mpr begins⟩]

/-- The numbers of a line. Those of a line that `splitlines` cuts are those of its pieces. -/
def numbers (counter : String) (line : Line) : List FloatValue :=
  if line.render.any isLineBreak then lineReadings counter line
  else match line with
    | .sample s =>
      if s.before.text = [] ∧ counter.toList <+: s.name then (seen s).toList else []
    | _ => []

theorem lineReadings_eq {counter : String} (member : counter ∈ collectorCounters) (line : Line) :
    lineReadings counter line = numbers counter line := by
  unfold numbers
  split
  case isTrue => rfl
  case isFalse broken =>
    have unbroken : ∀ c ∈ line.render, isLineBreak c = false := by
      simpa using broken
    rw [lineReadings_unbroken unbroken]
    cases line with
    | empty blanks =>
      rw [Line.render, ← List.append_nil blanks.text,
        reading_none (not_prefix_blanks member blanks (by simp))]
      rfl
    | comment before text oneLine =>
      rw [Line.render, reading_none (not_prefix_blanks member before (by simp))]
      rfl
    | sample s =>
      have begins := prefix_sample_iff member s
      simp only
      split
      case isTrue here =>
        rw [Line.render, reading_of_begins member (begins.mpr here), here.1, List.nil_append,
          parse_sample]
      case isFalse elsewhere =>
        rw [Line.render, reading_none fun line => elsewhere (begins.mp line)]
        rfl

theorem prefix_of_counts {counter : String} {s : Sample} (named : counts counter s = true) :
    counter.toList <+: s.name := by
  simp only [counts, Bool.or_eq_true, decide_eq_true_eq] at named
  rcases named with same | total
  · exact same ▸ List.prefix_rfl
  · exact total ▸ List.prefix_append _ _

theorem due_of_elsewhere {counter : String} {s : Sample} (other : ¬ counter.toList <+: s.name) :
    due counter (.sample s) = 0 :=
  if_neg fun named => other (prefix_of_counts named)

/-! ### What the scrape returns -/

def dueTotal (counter : String) (body : List Line) : ℚ := (body.map (due counter)).sum

/-- How much more than it says is read of a line. -/
def misread (counter : String) (line : Line) : ℚ :=
  ((numbers counter line).map FloatValue.finitePart).sum - due counter line

/-- The numbers that are added up for a counter. -/
def addends (counter : String) (body : List Line) : List ℚ :=
  (body.flatMap (numbers counter)).map FloatValue.finitePart

/-- How much more than the body says its lines and the roundings of their sum make. -/
def excess (counter : String) (body : List Line) : ℚ :=
  (body.map (misread counter)).sum + FloatValue.rounding 0 (addends counter body)

/-- The scrape returns what the body says of each counter. -/
def Scrapes (body : List Line) : Prop :=
  ∃ snapshot, readCollector (some (render body)) = .ok (some snapshot) ∧
    ∀ entry ∈ collectorFields, (entry.2 snapshot : ℚ) = dueTotal entry.1 body

/-- What the scrape needs of a body. -/
structure Scrapeable (body : List Line) : Prop where
  /-- No line has an infinity or a NaN where a counter's number is read, nor a number beyond the
  floats. -/
  finite : ∀ counter ∈ collectorCounters, ∀ line ∈ body, ∀ x ∈ numbers counter line,
    x.isFinite = true
  /-- Nor do their sums go beyond the floats. -/
  inRange : ∀ counter ∈ collectorCounters, FloatValue.InRange 0 (addends counter body)
  /-- The body says a whole number of each counter, and what is read and rounded beyond it is a
  fraction that is dropped. -/
  whole : ∀ counter ∈ collectorCounters, ∃ n : ℤ, dueTotal counter body = n ∧
    |excess counter body| < 1 ∧ (0 < n → 0 ≤ excess counter body) ∧
      (n < 0 → excess counter body ≤ 0)

theorem readings_eq {counter : String} (member : counter ∈ collectorCounters) (body : List Line) :
    readings counter (render body) = body.flatMap (numbers counter) := by
  rw [readings_render]
  exact congrArg (fun f => List.flatMap f body) (funext (lineReadings_eq member))

theorem sum_addends (counter : String) (body : List Line) :
    (addends counter body).sum = dueTotal counter body + (body.map (misread counter)).sum := by
  induction body with
  | nil => simp [addends, dueTotal]
  | cons line rest ih =>
    rw [addends, List.flatMap_cons, List.map_append, List.sum_append, ← addends, ih]
    simp only [dueTotal, misread, List.map_cons, List.sum_cons]
    ring

theorem count_eq_ok {counter : String} {body : List Char} {n : Int} :
    count counter body = .ok n ↔ (∀ x ∈ readings counter body, x.isFinite = true) ∧
      FloatValue.InRange 0 ((readings counter body).map FloatValue.finitePart) ∧
        truncate (((readings counter body).map FloatValue.finitePart).sum +
          FloatValue.rounding 0 ((readings counter body).map FloatValue.finitePart)) = n := by
  rw [count, FloatValue.toInt_eq_ok, ← and_assoc, ← FloatValue.foldl_add_isFinite]
  refine and_congr_right fun whole => ?_
  rw [FloatValue.foldl_add_finitePart whole, zero_add]

theorem forall_fields_iff {P : String → Prop} :
    (∀ entry ∈ collectorFields, P entry.1) ↔ ∀ counter ∈ collectorCounters, P counter := by
  simp [collectorFields, collectorCounters]

theorem exists_snapshot (f : String → Int) :
    ∃ snapshot, ∀ entry ∈ collectorFields, entry.2 snapshot = f entry.1 :=
  ⟨⟨f "otelcol_receiver_accepted_spans", f "otelcol_receiver_refused_spans",
    f "otelcol_exporter_sent_spans", f "otelcol_exporter_send_failed_spans",
    f "otelcol_exporter_enqueue_failed_spans", f "otelcol_exporter_queue_size",
    f "otelcol_exporter_queue_capacity"⟩, by simp [collectorFields]⟩

theorem conversion_iff (body : List Line) {counter : String} (member : counter ∈ collectorCounters)
    (n : Int) : count counter (render body) = .ok n ↔
      (∀ line ∈ body, ∀ x ∈ numbers counter line, x.isFinite = true) ∧
        FloatValue.InRange 0 (addends counter body) ∧
          truncate (dueTotal counter body + excess counter body) = n := by
  rw [count_eq_ok, readings_eq member, ← addends, sum_addends, List.forall_mem_flatMap, excess,
    add_assoc]

theorem Scrapes.scrapeable {body : List Line} (scrapes : Scrapes body) : Scrapeable body := by
  obtain ⟨snapshot, read, fields⟩ := scrapes
  have counted := readCollector_eq_ok.mp read
  have each : ∀ counter ∈ collectorCounters, ∃ n : Int,
      count counter (render body) = .ok n ∧ (n : ℚ) = dueTotal counter body :=
    forall_fields_iff.mp fun entry inside => ⟨_, counted entry inside, fields entry inside⟩
  constructor
  · intro counter member
    obtain ⟨n, here, _⟩ := each counter member
    exact ((conversion_iff body member n).mp here).1
  · intro counter member
    obtain ⟨n, here, _⟩ := each counter member
    exact ((conversion_iff body member n).mp here).2.1
  · intro counter member
    obtain ⟨n, here, same⟩ := each counter member
    have whole := ((conversion_iff body member n).mp here).2.2
    rw [← same] at whole
    exact ⟨n, same.symm, (truncate_add_eq_iff n _).mp whole⟩

theorem Scrapeable.scrapes {body : List Line} (scrapeable : Scrapeable body) : Scrapes body := by
  obtain ⟨snapshot, fields⟩ := exists_snapshot fun counter =>
    truncate (dueTotal counter body + excess counter body)
  have known : ∀ entry ∈ collectorFields, entry.1 ∈ collectorCounters :=
    forall_fields_iff.mpr fun _ => id
  refine ⟨snapshot, readCollector_eq_ok.mpr fun entry inside => ?_, fun entry inside => ?_⟩
  · rw [conversion_iff body (known entry inside)]
    exact ⟨scrapeable.finite entry.1 (known entry inside),
      scrapeable.inRange entry.1 (known entry inside), (fields entry inside).symm⟩
  · obtain ⟨n, due, small⟩ := scrapeable.whole entry.1 (known entry inside)
    rw [fields entry inside, due, (truncate_add_eq_iff n _).mpr small]

/-! ### Plain lines -/

/-- A sample of a metric whose name does not begin with a counter's, or an integer of a counter
that begins its line, without a timestamp and with a blank before its value and none after. -/
def PlainSample (s : Sample) : Prop :=
  (∀ counter ∈ collectorCounters, ¬ counter.toList <+: s.name) ∨
    (∃ counter ∈ collectorCounters, counts counter s = true) ∧
      (∃ n : ℤ, s.value.value = .finite n) ∧
        s.before.text = [] ∧ ' ' ∈ s.gap.text ∧ s.timestamp = none ∧ ' ' ∉ s.after.text

/-- A line that is one line also for `splitlines`, and a plain sample if it is a sample. -/
def Plain (line : Line) : Prop :=
  (∀ c ∈ line.render, isLineBreak c = false) ∧ ∀ s, line = .sample s → PlainSample s

theorem counters_apart : ∀ counter ∈ collectorCounters, ∀ other ∈ collectorCounters,
    counter.toList <+: other.toList ∨ counter.toList <+: other.toList ++ "_total".toList →
      counter = other := by
  decide +kernel

theorem counter_unique {counter own : String} (member : counter ∈ collectorCounters)
    (inside : own ∈ collectorCounters) {s : Sample} (named : counts own s = true)
    (begins : counter.toList <+: s.name) : counter = own := by
  simp only [counts, Bool.or_eq_true, decide_eq_true_eq] at named
  apply counters_apart counter member own inside
  rcases named with same | total
  · exact .inl (same ▸ begins)
  · exact .inr (total ▸ begins)

/-- The numbers of a plain line are the integers that it says, where floats hold them. -/
theorem plain_numbers {line : Line} (plain : Plain line) {counter : String}
    (member : counter ∈ collectorCounters) (held : |due counter line| ≤ 2 ^ 53) :
    ∃ ns : List ℤ, numbers counter line = ns.map (fun n : ℤ => .finite n) ∧
      due counter line = (ns.sum : ℤ) ∧ |due counter line| = ((ns.map abs).sum : ℤ) := by
  obtain ⟨unbroken, sample⟩ := plain
  have whole : line.render.any isLineBreak = false := by simpa using unbroken
  simp only [numbers, whole, Bool.false_eq_true, if_false]
  cases line with
  | empty => exact ⟨[], by simp [due]⟩
  | comment => exact ⟨[], by simp [due]⟩
  | sample s =>
    by_cases begins : counter.toList <+: s.name
    · rcases sample s rfl with
        other | ⟨⟨own, inside, named⟩, ⟨n, integer⟩, before, gap, timestamp, after⟩
      · exact absurd begins (other counter member)
      · obtain rfl := counter_unique member inside named begins
        have said : due counter (.sample s) = n := by
          simp [due, named, integer, FloatValue.finitePart]
        rw [said, ← Int.cast_abs] at held ⊢
        have exact : s.value.value.double = .finite n := by
          rw [integer, FloatValue.double_intCast (by exact_mod_cast held)]
        exact ⟨[n], by simp [begins, before, seen, gap, timestamp, after, exact]⟩
    · exact ⟨[], by simp [begins, due_of_elsewhere begins]⟩

theorem plain_addends {body : List Line} (plain : ∀ line ∈ body, Plain line) {counter : String}
    (member : counter ∈ collectorCounters)
    (held : (body.map fun line => |due counter line|).sum ≤ 2 ^ 53) :
    ∃ ns : List ℤ, body.flatMap (numbers counter) = ns.map (fun n : ℤ => .finite n) ∧
      dueTotal counter body = (ns.sum : ℤ) ∧
        (body.map fun line => |due counter line|).sum = ((ns.map abs).sum : ℤ) := by
  induction body with
  | nil => exact ⟨[], by simp [dueTotal]⟩
  | cons line rest ih =>
    rw [List.forall_mem_cons] at plain
    rw [List.map_cons, List.sum_cons] at held
    have others : 0 ≤ (rest.map fun line => |due counter line|).sum :=
      List.sum_nonneg (by simp)
    obtain ⟨first, read, said, size⟩ := plain_numbers plain.1 member
      (by linarith [abs_nonneg (due counter line)])
    obtain ⟨later, reads, said', size'⟩ := ih plain.2 (by linarith [abs_nonneg (due counter line)])
    refine ⟨first ++ later, by simp [read, reads], ?_, ?_⟩
    · simp [dueTotal, said, ← said']
    · simp [size, ← size']

/-- The scrape returns what plain lines say, of counts that a float holds. -/
theorem scrapes_of_plain {body : List Line} (plain : ∀ line ∈ body, Plain line)
    (held : ∀ counter ∈ collectorCounters, (body.map fun line => |due counter line|).sum ≤ 2 ^ 53) :
    Scrapes body := by
  have integers : ∀ counter ∈ collectorCounters, ∃ ns : List ℤ,
      body.flatMap (numbers counter) = ns.map (fun n : ℤ => .finite n) ∧
        dueTotal counter body = (ns.sum : ℤ) ∧ |(0 : ℤ)| + (ns.map abs).sum ≤ 2 ^ 53 := by
    intro counter member
    obtain ⟨ns, read, said, size⟩ := plain_addends plain member (held counter member)
    refine ⟨ns, read, said, ?_⟩
    have bound := held counter member
    rw [size] at bound
    simpa using (by exact_mod_cast bound : (ns.map abs).sum ≤ 2 ^ 53)
  have parts (ns : List ℤ) : (ns.map fun n : ℤ => FloatValue.finite n).map FloatValue.finitePart =
      ns.map fun n : ℤ => (n : ℚ) := by
    simp [FloatValue.finitePart]
  apply Scrapeable.scrapes
  constructor
  · intro counter member line inside x here
    obtain ⟨ns, read, _⟩ := integers counter member
    have among : x ∈ body.flatMap (numbers counter) := List.mem_flatMap.mpr ⟨line, inside, here⟩
    rw [read] at among
    obtain ⟨n, _, rfl⟩ := List.mem_map.mp among
    rfl
  · intro counter member
    obtain ⟨ns, read, _, small⟩ := integers counter member
    rw [addends, read, parts]
    exact (FloatValue.integers_exact small).1
  · intro counter member
    obtain ⟨ns, read, said, small⟩ := integers counter member
    have total := sum_addends counter body
    have nothing : excess counter body = 0 := by
      have exact := (FloatValue.integers_exact small).2
      rw [Int.cast_zero] at exact
      have cast : (ns.map fun n : ℤ => (n : ℚ)).sum = (ns.sum : ℤ) :=
        (map_list_sum (Int.castAddHom ℚ) ns).symm
      rw [addends, read, parts, said, cast] at total
      rw [excess, addends, read, parts, exact]
      linarith
    exact ⟨ns.sum, said, by simp [nothing]⟩

/-! ### The snapshot -/

def nanBody : List Line :=
  [.sample
    { name := "otelcol_receiver_refused_spans".toList
      value := ⟨"NaN".toList, .nan, by decide +kernel⟩
      legal := by decide
      apart := fun _ => by decide }]

/-- A sample of a metric whose name begins with that of a counter. -/
def bytesBody : List Line :=
  [.sample
    { name := "otelcol_exporter_queue_size_bytes".toList
      value := ⟨"5".toList, .finite 5, by decide +kernel⟩
      legal := by decide
      apart := fun _ => by decide }]

end TelemetryEngine.Ingest
