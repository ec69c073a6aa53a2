import Mathlib.Data.List.Forall2
import TelemetryEngine.Foundation.Splitting

/-! Texts with quotes and line comments. Every character is marked as code, as part of a
literal or as part of a comment. The words are what blanks and comments leave apart, and
separators cut only where they are code. -/
namespace Foundation.Quoting
open Foundation.Splitting

/-- What is blank, what quotes, what escapes inside quotes and what separates outside
of them. Comments run from two dashes to the end of the line. -/
structure Lexicon where
  blank : Char → Bool
  quotes : List Char
  escape : Char
  separator : Char
  newline_blank : blank '\n' = true
  dash_solid : blank '-' = false
  dash_plain : '-' ∉ quotes
  quotes_solid : ∀ quote ∈ quotes, blank quote = false
  escape_solid : blank escape = false
  separator_solid : blank separator = false
  separator_plain : separator ∉ quotes
  separator_not_dash : separator ≠ '-'

inductive Mark
  | code
  | literal
  /-- `own`: only blanks stand before the comment on its line. -/
  | comment (own : Bool)
  deriving DecidableEq, Repr

/-- Where the reader stands. `fresh`: only blanks since the line began. -/
inductive Lex (lexicon : Lexicon)
  | code (fresh : Bool)
  | quoted (quote : { c : Char // c ∈ lexicon.quotes })
  | escaped (quote : { c : Char // c ∈ lexicon.quotes })
  | comment (own : Bool)

abbrev Marked := List (Char × Mark)

variable {lexicon : Lexicon}

namespace Lex

/-- How a character is marked, given the one after it. -/
def read : Lex lexicon → Char → Option Char → Mark × Lex lexicon
  | .code fresh, c, next =>
    if c = '-' ∧ next = some '-' then (.comment fresh, .comment fresh)
    else if listed : c ∈ lexicon.quotes then (.literal, .quoted ⟨c, listed⟩)
    else (.code, .code (c = '\n' || fresh && lexicon.blank c))
  | .quoted quote, c, _ =>
    (.literal, if c = lexicon.escape then .escaped quote
      else if c = quote then .code false else .quoted quote)
  | .escaped quote, _, _ => (.literal, .quoted quote)
  | .comment own, c, _ => if c = '\n' then (.code, .code true) else (.comment own, .comment own)

def lex : Lex lexicon → List Char → Marked
  | _, [] => []
  | state, c :: rest => (c, (state.read c rest.head?).1) :: lex (state.read c rest.head?).2 rest

def after : Lex lexicon → List Char → Lex lexicon
  | state, [] => state
  | state, c :: rest => after (state.read c rest.head?).2 rest

end Lex

namespace Lexicon

def marks (lexicon : Lexicon) (text : List Char) : Marked := (Lex.code true : Lex lexicon).lex text

def gap (lexicon : Lexicon) (char : Char × Mark) : Bool :=
  match char.2 with
  | .code => lexicon.blank char.1
  | .literal => false
  | .comment _ => true

def words (lexicon : Lexicon) (marked : Marked) : List (List Char) :=
  ((marked.splitOnP lexicon.gap).filter (· ≠ [])).map (List.map Prod.fst)

def top (lexicon : Lexicon) (char : Char × Mark) : Bool :=
  char.2 = .code && char.1 = lexicon.separator

def pieces (lexicon : Lexicon) (marked : Marked) : List Marked := marked.splitOnP lexicon.top

/-- The pieces with words in them, word by word. -/
def tokenized (lexicon : Lexicon) (text : List Char) : List (List (List Char)) :=
  ((lexicon.pieces (lexicon.marks text)).map lexicon.words).filter (· ≠ [])

/-- Neither blank nor in a comment that has its line to itself. -/
def solid (lexicon : Lexicon) (char : Char × Mark) : Bool :=
  char.2 ≠ .comment true && !lexicon.blank char.1

end Lexicon

/-! ### Blanks -/

section
variable {c : Char}

theorem Lexicon.unlisted_of_blank (lexicon : Lexicon) (blank : lexicon.blank c = true) :
    c ∉ lexicon.quotes := by
  intro listed
  rw [lexicon.quotes_solid c listed] at blank
  contradiction

theorem Lexicon.not_escape_of_blank (lexicon : Lexicon) (blank : lexicon.blank c = true) :
    c ≠ lexicon.escape := by
  rintro rfl
  rw [lexicon.escape_solid] at blank
  contradiction

theorem Lexicon.not_dash_of_blank (lexicon : Lexicon) (blank : lexicon.blank c = true) : c ≠ '-' := by
  rintro rfl
  rw [lexicon.dash_solid] at blank
  contradiction

end

/-! ### Reading -/

theorem Lex.lex_fst (state : Lex lexicon) (text : List Char) :
    (state.lex text).map Prod.fst = text := by
  induction text generalizing state with
  | nil => rfl
  | cons c rest ih => exact congrArg (c :: ·) (ih _)

/-- Only a dash is read by what follows it, and only a second dash makes a difference. -/
theorem Lex.read_next {state : Lex lexicon} {c : Char} {next other : Option Char}
    (same : c = '-' → (next = some '-' ↔ other = some '-')) :
    state.read c next = state.read c other := by
  cases state with
  | code fresh =>
    by_cases dash : c = '-'
    · simp only [read, same dash]
    · simp only [read, dash, false_and]
  | quoted | escaped | comment => rfl

theorem Lex.read_head {state : Lex lexicon} {c : Char} {rest more : List Char}
    (apart : (c :: rest).getLast? = some '-' → more.head? ≠ some '-') :
    state.read c (rest ++ more).head? = state.read c rest.head? := by
  cases rest with
  | nil =>
    refine Lex.read_next fun dash => ?_
    simp [apart (by simp [dash])]
  | cons d others => rfl

theorem apart_of_cons {c : Char} {rest more : List Char}
    (apart : (c :: rest).getLast? = some '-' → more.head? ≠ some '-') :
    rest.getLast? = some '-' → more.head? ≠ some '-' := by
  intro last
  refine apart ?_
  rw [List.getLast?_cons, last]
  rfl

theorem Lex.lex_append {state : Lex lexicon} {text more : List Char}
    (apart : text.getLast? = some '-' → more.head? ≠ some '-') :
    state.lex (text ++ more) = state.lex text ++ (state.after text).lex more := by
  induction text generalizing state with
  | nil => rfl
  | cons c rest ih =>
    simp only [List.cons_append, lex, after, read_head apart, ih (apart_of_cons apart)]

theorem Lex.after_append {state : Lex lexicon} {text more : List Char}
    (apart : text.getLast? = some '-' → more.head? ≠ some '-') :
    state.after (text ++ more) = (state.after text).after more := by
  induction text generalizing state with
  | nil => rfl
  | cons c rest ih =>
    simp only [List.cons_append, after, read_head apart, ih (apart_of_cons apart)]

def Lex.Open : Lex lexicon → Prop
  | .quoted _ | .escaped _ => True
  | _ => False

theorem Lex.read_literal {state : Lex lexicon} {c : Char} {next : Option Char}
    (literal : (state.read c next).1 = .literal) : state.Open ∨ c ∈ lexicon.quotes := by
  cases state with
  | code fresh =>
    simp only [read] at literal
    split at literal
    · contradiction
    · split at literal
      case isTrue listed => exact .inr listed
      case isFalse => contradiction
  | quoted | escaped => exact .inl trivial
  | comment own =>
    simp only [read] at literal
    split at literal <;> contradiction

theorem Lex.read_open {state : Lex lexicon} {c : Char} {next : Option Char} (inside : state.Open) :
    (state.read c next).1 = .literal := by
  cases state with
  | quoted | escaped => rfl
  | code | comment => contradiction

theorem Lex.read_blank_literal {state : Lex lexicon} {c : Char} {next : Option Char}
    (blank : lexicon.blank c = true) (literal : (state.read c next).1 = .literal) :
    (state.read c next).2.Open := by
  have unlisted := lexicon.unlisted_of_blank blank
  cases state with
  | code | comment =>
    obtain inside | listed := read_literal literal
    · contradiction
    · exact absurd listed unlisted
  | quoted quote =>
    have plain := lexicon.not_escape_of_blank blank
    have stays : c ≠ quote := fun here => unlisted (here ▸ quote.2)
    simp only [read, if_neg plain, if_neg stays]
    trivial
  | escaped quote => trivial

theorem Lex.blank_then_literal {state : Lex lexicon} {text : List Char} {before later : Marked}
    {m n : Char × Mark} (marked : state.lex text = before ++ m :: n :: later)
    (literal : m.2 = .literal) (blank : lexicon.blank m.1 = true) : n.2 = .literal := by
  induction before generalizing state text with
  | nil =>
    match text with
    | [] => contradiction
    | [c] => simp [lex] at marked
    | c :: d :: rest =>
      obtain ⟨rfl, tail⟩ := List.cons.inj marked
      obtain ⟨rfl, _⟩ := List.cons.inj tail
      exact read_open (read_blank_literal blank literal)
  | cons first before ih =>
    match text with
    | [] => contradiction
    | c :: rest => exact ih (List.cons.inj marked).2

theorem Lex.lex_plain {state : Lex lexicon} {text : List Char} (outside : ¬ state.Open)
    (plain : ∀ c ∈ text, c ∉ lexicon.quotes) : ∀ m ∈ state.lex text, m.2 ≠ .literal := by
  induction text generalizing state with
  | nil => simp [lex]
  | cons c rest ih =>
    have unlisted := plain c List.mem_cons_self
    have notLiteral : (state.read c rest.head?).1 ≠ .literal := fun literal =>
      (read_literal literal).elim outside unlisted
    have still : ¬ (state.read c rest.head?).2.Open := by
      cases state with
      | code fresh =>
        simp only [read, dif_neg unlisted]
        split <;> exact not_false
      | comment own =>
        simp only [read]
        split <;> exact not_false
      | quoted | escaped => exact absurd trivial outside
    intro m member
    cases member with
    | head => exact notLiteral
    | tail _ among => exact ih still (fun d later => plain d (List.mem_cons_of_mem c later)) m among

/-- Who is in a comment has passed its first dash. -/
theorem Lex.dash_of_comment {state : Lex lexicon} {text : List Char} {own : Bool}
    (inside : state.after text = .comment own) :
    state = .comment own ∨ '-' ∈ text := by
  induction text generalizing state with
  | nil => exact .inl inside
  | cons c rest ih =>
    refine (ih inside).imp_right (List.mem_cons_of_mem c) |>.elim (fun here => ?_) .inr
    cases state with
    | code fresh =>
      simp only [read] at here
      split at here
      case isTrue dashes => exact .inr (dashes.1 ▸ List.mem_cons_self)
      case isFalse => split at here <;> contradiction
    | quoted quote =>
      simp only [read] at here
      split at here
      · contradiction
      · split at here <;> contradiction
    | escaped quote => contradiction
    | comment other =>
      simp only [read] at here
      split at here
      · contradiction
      · exact .inl here

theorem Lex.lex_blanks {blanks : List Char} (blank : ∀ c ∈ blanks, lexicon.blank c = true)
    (rest : List Char) : (.code true : Lex lexicon).lex (blanks ++ rest) =
      blanks.map (·, Mark.code) ++ (.code true : Lex lexicon).lex rest := by
  induction blanks with
  | nil => rfl
  | cons c others ih =>
    have here := blank c List.mem_cons_self
    have notDash := lexicon.not_dash_of_blank here
    have unlisted := lexicon.unlisted_of_blank here
    simp [lex, read, notDash, unlisted, here, ih fun d member => blank d (List.mem_cons_of_mem c member)]

/-! ### Words -/

namespace Lexicon

theorem words_nil (lexicon : Lexicon) : lexicon.words [] = [] := rfl

theorem words_append_gap {m : Char × Mark} (apart : lexicon.gap m = true) (before after : Marked) :
    lexicon.words (before ++ m :: after) = lexicon.words before ++ lexicon.words after := by
  rw [words, List.splitOnP_append_cons before after apart, List.filter_append, List.map_append]
  rfl

theorem words_gap_cons {m : Char × Mark} (apart : lexicon.gap m = true) (rest : Marked) :
    lexicon.words (m :: rest) = lexicon.words rest :=
  words_append_gap apart [] rest

theorem words_append_gaps (marked : Marked) {gaps : Marked} (apart : ∀ m ∈ gaps, lexicon.gap m = true) :
    lexicon.words (marked ++ gaps) = lexicon.words marked := by
  induction gaps generalizing marked with
  | nil => rw [List.append_nil]
  | cons m rest ih =>
    rw [words_append_gap (apart m List.mem_cons_self), ← List.nil_append rest,
      ih [] fun n among => apart n (List.mem_cons_of_mem m among), words_nil, List.append_nil]

/-- What no gap goes through lies in one word. -/
theorem run_in_word {run marked : Marked} (whole : ∀ m ∈ run, lexicon.gap m = false)
    (some : run ≠ []) (within : run <:+: marked) :
    ∃ word ∈ lexicon.words marked, run.map Prod.fst <:+: word := by
  obtain ⟨piece, member, inside⟩ := run_in_piece whole within
  have nonempty : piece ≠ [] := by
    rintro rfl
    exact some (List.eq_nil_of_infix_nil inside)
  exact ⟨piece.map Prod.fst, List.mem_map_of_mem (List.mem_filter.mpr ⟨member, by simpa using nonempty⟩),
    inside.map Prod.fst⟩

theorem infix_of_mem_words {word : List Char} {marked : Marked} (member : word ∈ lexicon.words marked) :
    word <:+: marked.map Prod.fst := by
  obtain ⟨piece, among, rfl⟩ := List.mem_map.mp member
  exact (infix_of_mem (List.mem_of_mem_filter among)).map Prod.fst

/-- The words see of a mark only whether it is a gap. -/
theorem words_congr {first second : Marked}
    (same : first.map (fun m => (m.1, lexicon.gap m)) = second.map fun m => (m.1, lexicon.gap m)) :
    lexicon.words first = lexicon.words second := by
  have through (marked : Marked) : lexicon.words marked =
      (((marked.map fun m => (m.1, lexicon.gap m)).splitOnP Prod.snd).filter (· ≠ [])).map
        (List.map Prod.fst) := by
    rw [splitOnP_map, List.filter_map, List.map_map]
    simp only [words, Function.comp_def, List.map_map, ne_eq, List.map_eq_nil_iff]
  rw [through, through, same]

end Lexicon

/-- A state without what it knows of its line. -/
def Lex.offLine : Lex lexicon → Lex lexicon
  | .code _ => .code false
  | .comment _ => .comment false
  | state => state

theorem Lex.read_offLine {state other : Lex lexicon} (same : state.offLine = other.offLine) (c : Char)
    (next : Option Char) : lexicon.gap (c, (state.read c next).1) = lexicon.gap (c, (other.read c next).1) ∧
      (state.read c next).2.offLine = (other.read c next).2.offLine := by
  cases state with
  | code fresh =>
    cases other with
    | code =>
      simp only [read]
      split
      · exact ⟨rfl, rfl⟩
      · split <;> exact ⟨rfl, rfl⟩
    | quoted | escaped | comment => contradiction
  | comment own =>
    cases other with
    | comment =>
      simp only [read]
      split <;> exact ⟨rfl, rfl⟩
    | code | quoted | escaped => contradiction
  | quoted quote =>
    obtain rfl : other = .quoted quote := by
      cases other <;> cases same
      rfl
    exact ⟨rfl, rfl⟩
  | escaped quote =>
    obtain rfl : other = .escaped quote := by
      cases other <;> cases same
      rfl
    exact ⟨rfl, rfl⟩

/-- The gaps do not depend on whether a line has begun. -/
theorem Lex.gaps_offLine {state other : Lex lexicon} (same : state.offLine = other.offLine)
    (text : List Char) : (state.lex text).map (fun m => (m.1, lexicon.gap m)) =
      (other.lex text).map fun m => (m.1, lexicon.gap m) := by
  induction text generalizing state other with
  | nil => rfl
  | cons c rest ih =>
    obtain ⟨gaps, next⟩ := read_offLine same c rest.head?
    simp only [lex, List.map_cons, gaps, ih next]

theorem Lex.words_offLine {state other : Lex lexicon} (same : state.offLine = other.offLine)
    (text : List Char) : lexicon.words (state.lex text) = lexicon.words (other.lex text) :=
  Lexicon.words_congr (gaps_offLine same text)

theorem Lex.words_blank_cons {c : Char} (blank : lexicon.blank c = true) (text : List Char) :
    lexicon.words (lexicon.marks (c :: text)) = lexicon.words (lexicon.marks text) := by
  have read := @lex_blanks lexicon [c] (by simpa using blank) text
  rw [List.singleton_append] at read
  have apart : lexicon.gap (c, .code) = true := blank
  rw [Lexicon.marks, read, List.map_singleton, List.singleton_append, Lexicon.words_gap_cons apart]
  rfl

/-- No blank of an open quote ends the text. -/
def Lexicon.Ends (lexicon : Lexicon) (marked : Marked) : Prop :=
  ∀ m ∈ marked.getLast?, lexicon.blank m.1 = true → m.2 ≠ .literal

theorem Lexicon.gap_of_blank {m : Char × Mark} (blank : lexicon.blank m.1 = true) :
    lexicon.gap m = true ↔ m.2 ≠ .literal := by
  obtain ⟨c, mark⟩ := m
  cases mark with
  | code => simpa [gap] using blank
  | literal => simp [gap]
  | comment => simp [gap]

theorem Lex.ends_offLine {state other : Lex lexicon} (same : state.offLine = other.offLine)
    {text : List Char} (ends : lexicon.Ends (state.lex text)) : lexicon.Ends (other.lex text) := by
  intro m last blank
  have keyed := congrArg List.getLast? (gaps_offLine same text)
  rw [List.getLast?_map, List.getLast?_map, last, Option.map_some, Option.map_eq_some_iff] at keyed
  obtain ⟨n, found, equal⟩ := keyed
  obtain ⟨char, gaps⟩ := Prod.mk.inj equal
  rw [← Lexicon.gap_of_blank blank, ← gaps, Lexicon.gap_of_blank (char ▸ blank)]
  exact ends n found (char ▸ blank)

theorem Lex.words_blank_concat {state : Lex lexicon} {c : Char} {text : List Char}
    (blank : lexicon.blank c = true) (ends : lexicon.Ends (state.lex (text ++ [c]))) :
    lexicon.words (state.lex (text ++ [c])) = lexicon.words (state.lex text) ∧
      lexicon.Ends (state.lex text) := by
  have notDash := lexicon.not_dash_of_blank blank
  have read : state.lex (text ++ [c]) = state.lex text ++ [(c, ((state.after text).read c none).1)] :=
    lex_append fun _ => by simpa using notDash
  rw [read] at ends ⊢
  have last := ends _ (by rw [List.getLast?_concat]; rfl) blank
  refine ⟨Lexicon.words_append_gaps _ ?_, ?_⟩
  · intro m member
    rw [List.mem_singleton.mp member]
    exact (Lexicon.gap_of_blank blank).mpr last
  · intro m endsEarlier blankEnd literal
    obtain ⟨before, split⟩ := List.getLast?_eq_some_iff.mp endsEarlier
    rw [split, List.append_assoc] at read
    exact last (blank_then_literal read literal blankEnd)

theorem Lex.words_trimmed {blanks text trailing : List Char} (leading : ∀ c ∈ blanks, lexicon.blank c = true)
    (after : ∀ c ∈ trailing, lexicon.blank c = true)
    (ends : lexicon.Ends (lexicon.marks (blanks ++ (text ++ trailing)))) :
    lexicon.words (lexicon.marks (blanks ++ (text ++ trailing))) = lexicon.words (lexicon.marks text) := by
  have front : lexicon.marks (blanks ++ (text ++ trailing)) =
      blanks.map (·, Mark.code) ++ lexicon.marks (text ++ trailing) := lex_blanks leading _
  have inner : lexicon.Ends (lexicon.marks (text ++ trailing)) := by
    intro m last
    exact ends m (by rw [front, List.getLast?_append, last]; rfl)
  have dropped : lexicon.words (lexicon.marks (blanks ++ (text ++ trailing))) =
      lexicon.words (lexicon.marks (text ++ trailing)) := by
    clear ends front
    induction blanks with
    | nil => rfl
    | cons c rest ih =>
      rw [List.cons_append, words_blank_cons (leading c List.mem_cons_self)]
      exact ih fun d member => leading d (List.mem_cons_of_mem c member)
  rw [dropped]
  clear dropped front ends
  induction trailing using List.reverseRecOn with
  | nil => rw [List.append_nil]
  | append_singleton rest c ih =>
    rw [← List.append_assoc] at inner ⊢
    obtain ⟨same, shorter⟩ := words_blank_concat (after c (by simp)) inner
    exact same.trans (ih (fun d member => after d (by simp [member])) shorter)

/-! ### Pieces -/

theorem Lexicon.top_iff {m : Char × Mark} : lexicon.top m = true ↔ m = (lexicon.separator, .code) := by
  simp [top, Prod.ext_iff, and_comm]

theorem Lexicon.solid_of_top {m : Char × Mark} (cut : lexicon.top m = true) : lexicon.solid m = true := by
  simp [top_iff.mp cut, solid, lexicon.separator_solid]

theorem Lex.read_separator {state : Lex lexicon} {next : Option Char}
    (top : (state.read lexicon.separator next).1 = .code) :
    (state.read lexicon.separator next).2 = .code false := by
  have onLine : lexicon.separator ≠ '\n' := by
    intro newline
    have solid := lexicon.separator_solid
    rw [newline, lexicon.newline_blank] at solid
    contradiction
  cases state with
  | code fresh =>
    simp [read, lexicon.separator_not_dash, lexicon.separator_plain, lexicon.separator_solid, onLine]
  | quoted | escaped => contradiction
  | comment own =>
    simp only [read, if_neg onLine] at top
    contradiction

/-- A piece reads alone as it does in the text. -/
theorem Lex.piece_lex {text : List Char} {piece : Marked}
    (member : piece ∈ lexicon.pieces (lexicon.marks text)) :
    ∃ fresh, piece = (.code fresh : Lex lexicon).lex (piece.map Prod.fst) := by
  obtain ⟨before, later, split, starts, ends⟩ := stands_of_mem member
  have chars : text = before.map Prod.fst ++ (piece.map Prod.fst ++ later.map Prod.fst) := by
    rw [← lex_fst (.code true : Lex lexicon) text, ← List.map_append, ← List.map_append,
      ← List.append_assoc, ← split]
    rfl
  have closes : (before.map Prod.fst).getLast? ≠ some '-' := by
    obtain rfl | ⟨earlier, cut, top, rfl⟩ := starts
    · simp
    · simp [Lexicon.top_iff.mp top, lexicon.separator_not_dash]
  have opens : (later.map Prod.fst).head? ≠ some '-' := by
    obtain rfl | ⟨cut, rest, top, rfl⟩ := ends
    · simp
    · simp [Lexicon.top_iff.mp top, lexicon.separator_not_dash]
  have read : lexicon.marks text = (.code true : Lex lexicon).lex (before.map Prod.fst) ++
      (((.code true : Lex lexicon).after (before.map Prod.fst)).lex (piece.map Prod.fst) ++
        (((.code true : Lex lexicon).after (before.map Prod.fst)).after (piece.map Prod.fst)).lex
          (later.map Prod.fst)) := by
    conv_lhs => rw [Lexicon.marks, chars]
    rw [lex_append fun last => absurd last closes, lex_append fun _ => opens]
  have length (state : Lex lexicon) (marked : Marked) :
      (state.lex (marked.map Prod.fst)).length = marked.length := by
    rw [← List.length_map Prod.fst, lex_fst, List.length_map]
  rw [split, List.append_assoc] at read
  obtain ⟨first, rest⟩ := List.append_inj read (length _ before).symm
  obtain ⟨here, _⟩ := List.append_inj rest (length _ piece).symm
  obtain rfl | ⟨earlier, cut, top, rfl⟩ := starts
  · exact ⟨true, here⟩
  · refine ⟨false, here.trans ?_⟩
    obtain rfl := Lexicon.top_iff.mp top
    have apart : (earlier.map Prod.fst).getLast? = some '-' →
        [lexicon.separator].head? ≠ some '-' := fun _ => by simpa using lexicon.separator_not_dash
    rw [List.map_append, List.map_singleton, lex_append apart] at first
    have code := (List.append_inj first (length _ earlier).symm).2
    rw [List.map_append, List.map_singleton, after_append apart]
    exact congrArg (fun state => lex state _) (read_separator (Prod.mk.inj (List.cons.inj code).1).2.symm)

/-- Blanks in an open quote end a piece only where they end the text. -/
theorem Lex.piece_ends {text : List Char} {piece : Marked}
    (free : lexicon.Ends (lexicon.marks text)) (member : piece ∈ lexicon.pieces (lexicon.marks text)) :
    lexicon.Ends piece := by
  intro m last blank literal
  obtain ⟨front, rfl⟩ := List.getLast?_eq_some_iff.mp last
  obtain ⟨before, later, split, _, ends⟩ := stands_of_mem member
  obtain rfl | ⟨cut, rest, top, rfl⟩ := ends
  · exact free m (by simp [split]) blank literal
  · rw [← List.append_assoc, List.append_assoc, List.singleton_append] at split
    have inside := blank_then_literal split literal blank
    rw [Lexicon.top_iff.mp top] at inside
    contradiction

/-! ### Texts without their comment lines -/

/-- `thin` is `whole` without some of its blanks and comments, each gone from where no word
is open. No comment is left that has its line to itself. -/
inductive Thinned (lexicon : Lexicon) : Bool → Marked → Marked → Prop
  | done {between : Bool} : Thinned lexicon between [] []
  | keep {between : Bool} {m : Char × Mark} {thin whole : Marked} (kept : m.2 ≠ .comment true)
      (rest : Thinned lexicon (lexicon.gap m) thin whole) :
      Thinned lexicon between (m :: thin) (m :: whole)
  | drop {m : Char × Mark} {thin whole : Marked} (apart : lexicon.gap m = true)
      (soft : lexicon.solid m = false) (rest : Thinned lexicon true thin whole) :
      Thinned lexicon true thin (m :: whole)

namespace Thinned
variable {between : Bool} {thin whole : Marked}

theorem no_own (thinned : Thinned lexicon between thin whole) : ∀ m ∈ thin, m.2 ≠ .comment true := by
  induction thinned with
  | done => simp
  | keep kept _ ih => exact List.forall_mem_cons.mpr ⟨kept, ih⟩
  | drop _ _ _ ih => exact ih

theorem solid (thinned : Thinned lexicon between thin whole) :
    thin.filter lexicon.solid = whole.filter lexicon.solid := by
  induction thinned with
  | done => rfl
  | keep _ _ ih => rw [List.filter_cons, List.filter_cons, ih]
  | drop _ soft _ ih => rw [List.filter_cons_of_neg (by simp [soft]), ih]

/-- A word's end is gone from neither. -/
theorem last (thinned : Thinned lexicon between thin whole) {m : Char × Mark}
    (ends : thin.getLast? = some m) (inside : lexicon.gap m = false) : whole.getLast? = some m := by
  induction thinned with
  | done => exact ends
  | @keep _ n thin whole _ rest ih =>
    cases thin with
    | nil =>
      obtain rfl : n = m := Option.some.inj ends
      rw [inside] at rest
      cases rest with
      | done => exact ends
    | cons first others =>
      rw [List.getLast?_cons, ih ends]
      rfl
  | drop _ _ _ ih =>
    rw [List.getLast?_cons, ih ends]
    rfl

/-- No word is open after `front`. -/
def Closed (lexicon : Lexicon) (front : Marked) : Prop :=
  front = [] ∨ ∃ before m, lexicon.gap m = true ∧ front = before ++ [m]

theorem Closed.words {front : Marked} (closed : Closed lexicon front) (rest : Marked) :
    lexicon.words (front ++ rest) = lexicon.words front ++ lexicon.words rest := by
  obtain rfl | ⟨before, m, apart, rfl⟩ := closed
  · rfl
  · rw [List.append_assoc, List.singleton_append, Lexicon.words_append_gap apart,
      Lexicon.words_append_gap apart, Lexicon.words_nil, List.append_nil]

theorem words_first (thinned : Thinned lexicon between thin whole) :
    ∃ p ps q qs, lexicon.pieces thin = p :: ps ∧ lexicon.pieces whole = q :: qs ∧
      ps.map lexicon.words = qs.map lexicon.words ∧ ∀ front,
        (between = true → Closed lexicon front) → lexicon.words (front ++ p) = lexicon.words (front ++ q) := by
  induction thinned with
  | done => exact ⟨[], [], [], [], rfl, rfl, rfl, fun _ _ => rfl⟩
  | @keep _ m _ _ _ _ ih =>
    obtain ⟨p, ps, q, qs, thinPieces, wholePieces, others, first⟩ := ih
    cases cut : lexicon.top m with
    | true =>
      refine ⟨[], p :: ps, [], q :: qs, ?_, ?_, ?_, fun _ _ => rfl⟩
      · exact (splitOnP_cut cut).trans (congrArg _ thinPieces)
      · exact (splitOnP_cut cut).trans (congrArg _ wholePieces)
      · exact congrArg₂ List.cons (first [] fun _ => .inl rfl) others
    | false =>
      refine ⟨m :: p, ps, m :: q, qs, splitOnP_keep cut thinPieces, splitOnP_keep cut wholePieces,
        others, fun front _ => ?_⟩
      have longer := first (front ++ [m]) fun apart => .inr ⟨front, m, apart, rfl⟩
      rwa [List.append_assoc, List.append_assoc] at longer
  | @drop m _ _ apart soft _ ih =>
    obtain ⟨p, ps, q, qs, thinPieces, wholePieces, others, first⟩ := ih
    have uncut : lexicon.top m = false := by
      by_contra cut
      rw [Lexicon.solid_of_top (by simpa using cut)] at soft
      contradiction
    refine ⟨p, ps, m :: q, qs, thinPieces, splitOnP_keep uncut wholePieces, others, fun front closed => ?_⟩
    rw [first front closed, (closed rfl).words, (closed rfl).words, Lexicon.words_gap_cons apart]

theorem words_pieces (thinned : Thinned lexicon true thin whole) :
    (lexicon.pieces thin).map lexicon.words = (lexicon.pieces whole).map lexicon.words := by
  obtain ⟨p, ps, q, qs, thinPieces, wholePieces, others, first⟩ := thinned.words_first
  rw [thinPieces, wholePieces, List.map_cons, List.map_cons, others]
  exact congrArg (· :: _) (first [] fun _ => .inl rfl)

theorem solid_pieces (thinned : Thinned lexicon between thin whole) :
    (lexicon.pieces thin).map (List.filter lexicon.solid) =
      (lexicon.pieces whole).map (List.filter lexicon.solid) := by
  have keeps : ∀ m, lexicon.top m = true → lexicon.solid m = true := fun _ => Lexicon.solid_of_top
  exact (splitOnP_filter keeps thin).symm.trans
    ((congrArg lexicon.pieces thinned.solid).trans (splitOnP_filter keeps whole))

end Thinned

end Foundation.Quoting
