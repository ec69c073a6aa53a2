import TelemetryEngine.Foundation.PythonFloat
import TelemetryEngine.Foundation.TextLines

/-! The text format of Prometheus: lines that are empty, comments or samples, each ended by
a line feed. Blanks and tabs may stand between any two parts of a line. -/
namespace Foundation.Exposition
open Foundation.Decimal Foundation.FloatText Foundation.PythonFloat

/-! ### Parts of a line -/

def isBlank (c : Char) : Bool := c = ' ' || c = '\t'

def isNameStart (c : Char) : Bool := c.isAlpha || c = '_' || c = ':'

def isNameChar (c : Char) : Bool := isNameStart c || c.isDigit

def isMetricName (name : List Char) : Bool := name.head?.any isNameStart && name.all isNameChar

def isLabelName (name : List Char) : Bool := isMetricName name && !name.contains ':'

structure Blanks where
  text : List Char := []
  blank : text.all isBlank = true := by decide

/-- A character of a label's value. Quotes, backslashes and line feeds are escaped. -/
inductive LabelChar where
  | plain (c : Char) (ordinary : c ≠ '"' ∧ c ≠ '\\' ∧ c ≠ '\n')
  | quote
  | backslash
  | lineFeed

def LabelChar.render : LabelChar → List Char
  | plain c _ => [c]
  | quote => ['\\', '"']
  | backslash => ['\\', '\\']
  | lineFeed => ['\\', 'n']

structure Label where
  before : Blanks := {}
  name : List Char
  afterName : Blanks := {}
  beforeValue : Blanks := {}
  value : List LabelChar
  after : Blanks := {}
  legal : isLabelName name = true

def Label.render (label : Label) : List Char :=
  label.before.text ++ label.name ++ label.afterName.text ++ '=' :: label.beforeValue.text ++
    '"' :: label.value.flatMap LabelChar.render ++ '"' :: label.after.text

/-- Labels in braces. A comma may follow the last one. -/
structure Labels where
  before : Blanks := {}
  labels : List Label
  comma : Bool := false
  after : Blanks := {}
  comma_follows : comma = true → labels ≠ []

def Labels.render (labels : Labels) : List Char :=
  labels.before.text ++ '{' :: [','].intercalate (labels.labels.map Label.render) ++
    (if labels.comma then [','] else []) ++ labels.after.text ++ ['}']

structure Timestamp where
  gap : Blanks
  text : List Char
  number : ℤ
  apart : gap.text ≠ []
  legal : parseInt text = some number ∧ -2 ^ 63 ≤ number ∧ number < 2 ^ 63

/-- A value as text, and what it stands for. -/
structure Value where
  text : List Char
  value : FloatValue
  legal : parseFloat text = some value

structure Sample where
  before : Blanks := {}
  name : List Char
  labels : Option Labels := none
  gap : Blanks := ⟨[' '], by decide⟩
  value : Value
  timestamp : Option Timestamp := none
  after : Blanks := {}
  legal : isMetricName name = true
  apart : labels = none → gap.text ≠ []

/-- What follows the name of a metric. -/
def Sample.rest (sample : Sample) : List Char :=
  sample.labels.elim [] Labels.render ++ (sample.gap.text ++ (sample.value.text ++
    (sample.timestamp.elim [] (fun timestamp => timestamp.gap.text ++ timestamp.text) ++
      sample.after.text)))

inductive Line where
  | empty (blanks : Blanks)
  | comment (before : Blanks) (text : List Char) (oneLine : '\n' ∉ text)
  | sample (sample : Sample)

def Line.render : Line → List Char
  | empty blanks => blanks.text
  | comment before text _ => before.text ++ '#' :: text
  | sample s => s.before.text ++ (s.name ++ s.rest)

theorem isBlank_iff {c : Char} : isBlank c = true ↔ c = ' ' ∨ c = '\t' := by
  simp [isBlank]

theorem Blanks.spaces (blanks : Blanks) : blanks.text.all isAsciiSpace = true := by
  rw [List.all_eq_true]
  intro c member
  obtain rfl | rfl := isBlank_iff.mp (List.all_eq_true.mp blanks.blank c member)
  all_goals decide

/-- What stands after the last blank, where only `rest` follows blanks and tabs. -/
theorem Blanks.afterLast {blanks : Blanks} (blank : ' ' ∈ blanks.text) :
    ∃ back : List Char, back.all isAsciiSpace = true ∧ ∀ front rest, ' ' ∉ rest →
      TextLines.afterLast ' ' (front ++ (blanks.text ++ rest)) = some (back ++ rest) := by
  obtain ⟨start, back, split, absent⟩ := TextLines.exists_last blank
  have spaces := blanks.spaces
  rw [split, List.all_append, List.all_cons, Bool.and_eq_true, Bool.and_eq_true] at spaces
  refine ⟨back, spaces.2.2, fun front rest unspaced => ?_⟩
  have token : ' ' ∉ back ++ rest := by simp [absent, unspaced]
  rw [← TextLines.afterLast_append (front ++ start) token, split]
  simp

theorem not_mem_of_isValueChar {text : List Char} (chars : text.all isValueChar = true) :
    ' ' ∉ text := fun member => absurd (List.all_eq_true.mp chars _ member) (by decide)

theorem Value.chars (value : Value) : value.text.all isValueChar = true ∧ value.text ≠ [] :=
  ⟨(parseFloat_chars value.legal).1, (parseFloat_chars value.legal).2.2⟩

theorem Timestamp.parseFloat (timestamp : Timestamp) :
    parseFloat timestamp.text = some (.finite timestamp.number) :=
  parseFloat_of_parseInt timestamp.legal.1

theorem Timestamp.chars (timestamp : Timestamp) :
    timestamp.text.all isValueChar = true ∧ timestamp.text ≠ [] :=
  ⟨(parseFloat_chars timestamp.parseFloat).1, (parseFloat_chars timestamp.parseFloat).2.2⟩

theorem isNameChar_of_isBlank {c : Char} (blank : isBlank c = true) : isNameChar c = false := by
  obtain rfl | rfl := isBlank_iff.mp blank
  all_goals decide

theorem Blanks.head (blanks : Blanks) {c : Char} (other : isNameChar c = false) (rest : List Char) :
    ∃ first tail, blanks.text ++ c :: rest = first :: tail ∧ isNameChar first = false := by
  cases before : blanks.text with
  | nil => exact ⟨c, rest, rfl, other⟩
  | cons first tail =>
    have blank := List.all_eq_true.mp blanks.blank first (by simp [before])
    exact ⟨first, tail ++ c :: rest, rfl, isNameChar_of_isBlank blank⟩

/-- The name of a metric ends where the rest of its line begins. -/
theorem Sample.rest_head (sample : Sample) :
    ∃ first tail, sample.rest = first :: tail ∧ isNameChar first = false := by
  unfold Sample.rest
  cases found : sample.labels with
  | none =>
    obtain ⟨c, tail, split⟩ := List.exists_cons_of_ne_nil (sample.apart found)
    have blank := List.all_eq_true.mp sample.gap.blank c (by simp [split])
    exact ⟨c, _, congrArg (· ++ _) split, isNameChar_of_isBlank blank⟩
  | some labels =>
    have brace : isNameChar '{' = false := by decide
    simp only [Option.elim_some, Labels.render, List.append_assoc, List.cons_append]
    exact labels.before.head brace _

theorem Sample.no_space (sample : Sample) : ' ' ∉ sample.name := by
  intro member
  have legal := sample.legal
  rw [isMetricName, Bool.and_eq_true, List.all_eq_true] at legal
  exact absurd (legal.2 _ member) (by decide)

/-- What follows a blank inside the labels has the brace that closes them. -/
theorem Labels.brace_mem {labels : Labels} {front back : List Char} {c : Char} (other : c ≠ '}')
    (split : labels.render = front ++ c :: back) : '}' ∈ back := by
  obtain ⟨inner, closed⟩ : ∃ inner, labels.render = inner ++ ['}'] := ⟨_, rfl⟩
  rw [split] at closed
  rcases List.eq_nil_or_concat back with rfl | ⟨init, last, rfl⟩
  · exact absurd (List.singleton_inj.mp (List.append_inj_right' closed rfl)) other
  · rw [List.concat_eq_append, ← List.cons_append, ← List.append_assoc] at closed
    obtain rfl := List.singleton_inj.mp (List.append_inj_right' closed rfl)
    simp

def render (body : List Line) : List Char := body.flatMap fun line => line.render ++ ['\n']

end Foundation.Exposition
