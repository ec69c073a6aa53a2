import Mathlib.Data.List.DropRight
import TelemetryEngine.Storage.CommentLines

/-! `Migration.statements` against a tokenizer. The code strips what looks like a comment
line and then cuts at every semicolon. The tokenizer knows quotes and comments, and cuts
at the semicolons that are neither in one nor in the other. -/
namespace TelemetryEngine.Storage
open Foundation.Quoting Foundation.Splitting

/-- Migrations must not contain a semicolon inside a literal. -/
def Restricted (sql : List Char) : Prop := ∀ m ∈ clickhouse.marks sql, m.2 = .literal → m.1 ≠ ';'

/-- Word by word, the statements are the tokenizer's. -/
def Faithful (sql : List Char) : Prop :=
  (statements sql).map (fun stmt => clickhouse.words (clickhouse.marks stmt)) = clickhouse.tokenized sql

/-- Without its blanks and the comments on lines of their own a piece is empty or has code,
and after a semicolon it has only semicolons. -/
def Tidy (piece : Marked) : Prop :=
  let solid := piece.filter clickhouse.solid
  (clickhouse.words piece = [] → solid = []) ∧ ∀ m ∈ solid.dropWhile (·.1 ≠ ';'), m.1 = ';'

/-- What the code splits as the tokenizer does. -/
structure Splittable (sql : List Char) : Prop where
  undashed : ¬ Dashed (clickhouse.marks sql)
  ends : clickhouse.Ends (clickhouse.marks sql)
  tidy : ∀ piece ∈ clickhouse.pieces (clickhouse.marks sql), Tidy piece

/-! ### `str.strip` -/

theorem strip_eq_nil {text : List Char} : strip text = [] ↔ ∀ c ∈ text, isSpace c = true := by
  rw [strip, List.reverse_eq_nil_iff, List.dropWhile_eq_nil_iff]
  simp only [List.mem_reverse]
  constructor
  · intro blank c member
    rw [← @List.takeWhile_append_dropWhile _ isSpace text] at member
    exact (List.mem_append.mp member).elim List.mem_takeWhile_imp (blank c)
  · intro blank c member
    exact blank c ((List.dropWhile_suffix isSpace).subset member)

theorem strip_split (text : List Char) : ∃ blanks trailing, text = blanks ++ (strip text ++ trailing) ∧
    (∀ c ∈ blanks, isSpace c = true) ∧ ∀ c ∈ trailing, isSpace c = true := by
  refine ⟨text.takeWhile isSpace, ((text.dropWhile isSpace).reverse.takeWhile isSpace).reverse,
    ?_, fun _ => List.mem_takeWhile_imp, ?_⟩
  · rw [strip, ← List.reverse_append, List.takeWhile_append_dropWhile, List.reverse_reverse,
      List.takeWhile_append_dropWhile]
  · intro c member
    exact List.mem_takeWhile_imp (List.mem_reverse.mp member)

theorem strip_last {text : List Char} : ∀ c ∈ (strip text).getLast?, isSpace c = false := by
  intro c last
  rw [strip, List.getLast?_reverse] at last
  have stop := List.head?_dropWhile_not isSpace (text.dropWhile isSpace).reverse
  rw [Option.mem_def.mp last] at stop
  exact stop

theorem strip_within (text : List Char) : strip text <:+: text := by
  obtain ⟨blanks, trailing, split, _, _⟩ := strip_split text
  exact ⟨blanks, trailing, by rw [List.append_assoc]; exact split.symm⟩

theorem words_strip {fresh : Bool} {text : List Char}
    (ends : clickhouse.Ends ((.code fresh : Lex clickhouse).lex text)) :
    clickhouse.words (clickhouse.marks (strip text)) =
      clickhouse.words ((.code fresh : Lex clickhouse).lex text) := by
  have same : (.code fresh : Lex clickhouse).offLine = (.code true : Lex clickhouse).offLine := rfl
  have readEnds : clickhouse.Ends (clickhouse.marks text) := Lex.ends_offLine same ends
  obtain ⟨blanks, trailing, split, leading, after⟩ := strip_split text
  have trimmed : clickhouse.words (clickhouse.marks text) =
      clickhouse.words (clickhouse.marks (strip text)) := by
    rw [split] at readEnds
    conv_lhs => rw [split]
    exact Lex.words_trimmed leading after readEnds
  exact trimmed.symm.trans (Lex.words_offLine same text).symm

/-! ### Pieces of the stripped text -/

/-- What the code makes of a piece of the stripped text. -/
def sent (piece : Marked) : List (List (List Char)) :=
  (((piece.splitOnP (·.1 == ';')).map (List.map Prod.fst)).filter (strip · ≠ [])).map
    fun text => clickhouse.words (clickhouse.marks (strip text))

/-- What the tokenizer makes of it. -/
def expected (piece : Marked) : List (List (List Char)) :=
  if clickhouse.words piece = [] then [] else [clickhouse.words piece]

theorem statements_sent (sql : List Char) :
    (statements sql).map (fun stmt => clickhouse.words (clickhouse.marks stmt)) =
      (clickhouse.pieces (clickhouse.marks (stripComments (.start []) sql))).flatMap sent := by
  have finer : ∀ m, clickhouse.top m = true → (m.1 == ';') = true := by
    intro m top
    rw [Lexicon.top_iff.mp top]
    rfl
  have cut : (stripComments (.start []) sql).splitOn ';' =
      ((clickhouse.marks (stripComments (.start []) sql)).splitOnP (·.1 == ';')).map (List.map Prod.fst) := by
    have chars := (.code true : Lex clickhouse).lex_fst (stripComments (.start []) sql)
    conv_lhs => rw [List.splitOn_eq_splitOnP, ← chars, splitOnP_map]
    rfl
  rw [statements, List.map_map, cut, splitOnP_finer finer]
  simp only [Lexicon.pieces, List.map_flatMap, List.filter_flatMap, Function.comp_def]
  rfl

theorem tokenized_expected (marked : Marked) :
    ((clickhouse.pieces marked).map clickhouse.words).filter (· ≠ []) =
      (clickhouse.pieces marked).flatMap expected := by
  induction clickhouse.pieces marked with
  | nil => rfl
  | cons piece rest ih =>
    rw [List.map_cons, List.flatMap_cons, List.filter_cons, ih, expected]
    by_cases none : clickhouse.words piece = [] <;> simp [none]

theorem sent_eq_nil {piece : Marked} : sent piece = [] ↔ ∀ m ∈ piece, m.1 = ';' ∨ isSpace m.1 = true := by
  simp only [sent, List.map_eq_nil_iff, List.filter_eq_nil_iff, List.forall_mem_map, ne_eq,
    decide_not, Bool.not_eq_true', decide_eq_false_iff_not, not_not, strip_eq_nil]
  rw [forall_pieces]
  simp

/-- A piece of the stripped text of a restricted file. -/
structure Fit (piece : Marked) : Prop where
  reads : ∃ fresh, piece = (.code fresh : Lex clickhouse).lex (piece.map Prod.fst)
  ends : clickhouse.Ends piece
  noOwn : ∀ m ∈ piece, m.2 ≠ .comment true
  semicolons : ∀ m ∈ piece, m.1 = ';' → m.2 = .comment false

/-- The code makes no fewer statements of a piece than the tokenizer, and the same ones
exactly when the piece is tidy. -/
structure Judged (piece : Marked) : Prop where
  least : (expected piece).length ≤ (sent piece).length
  tidy : (sent piece).length = (expected piece).length → Tidy piece
  same : Tidy piece → sent piece = expected piece

theorem Fit.blank_of_soft {piece : Marked} (fit : Fit piece) {m : Char × Mark} (member : m ∈ piece)
    (soft : clickhouse.solid m = false) : isSpace m.1 = true := by
  have notOwn := fit.noOwn m member
  simp only [Lexicon.solid, ne_eq, notOwn, not_false_eq_true, decide_true, Bool.true_and,
    Bool.not_eq_false'] at soft
  exact soft

theorem Fit.words_strip {piece : Marked} (fit : Fit piece) :
    clickhouse.words (clickhouse.marks (strip (piece.map Prod.fst))) = clickhouse.words piece := by
  obtain ⟨fresh, reads⟩ := fit.reads
  have ends := fit.ends
  rw [reads] at ends
  exact (Storage.words_strip ends).trans (congrArg _ reads.symm)

theorem Fit.strip_eq_nil {piece : Marked} (fit : Fit piece) :
    strip (piece.map Prod.fst) = [] ↔ piece.filter clickhouse.solid = [] := by
  rw [Storage.strip_eq_nil, List.filter_eq_nil_iff, List.forall_mem_map]
  refine forall₂_congr fun m member => ⟨fun blank => ?_, fun dull => ?_⟩
  · have here : clickhouse.blank m.1 = true := blank
    simp [Lexicon.solid, here]
  · exact fit.blank_of_soft member (by simpa using dull)

theorem Fit.sent_whole {piece : Marked} (fit : Fit piece) (none : ∀ m ∈ piece, m.1 ≠ ';') :
    sent piece = if strip (piece.map Prod.fst) = [] then [] else [clickhouse.words piece] := by
  rw [sent, List.splitOnP_eq_singleton (by simpa using none), List.map_singleton, List.filter_singleton]
  by_cases empty : strip (piece.map Prod.fst) = [] <;> simp [empty, fit.words_strip]

theorem Fit.tidy_whole {piece : Marked} (fit : Fit piece) (none : ∀ m ∈ piece, m.1 ≠ ';') :
    Tidy piece ↔ (clickhouse.words piece = [] → strip (piece.map Prod.fst) = []) := by
  have noLater : (piece.filter clickhouse.solid).dropWhile (·.1 ≠ ';') = [] := by
    rw [List.dropWhile_eq_nil_iff]
    intro m member
    simpa using none m (List.mem_of_mem_filter member)
  simp only [Tidy, noLater, fit.strip_eq_nil]
  simp

/-- Without a semicolon a piece is one statement, or none. -/
theorem Fit.whole {piece : Marked} (fit : Fit piece) (none : ∀ m ∈ piece, m.1 ≠ ';') : Judged piece := by
  have wordless : strip (piece.map Prod.fst) = [] → clickhouse.words piece = [] := by
    intro empty
    rw [← fit.words_strip, empty]
    rfl
  refine ⟨?_, ?_, ?_⟩
  · rw [fit.sent_whole none, expected]
    split
    case isTrue => exact Nat.zero_le _
    case isFalse spoken => rw [if_neg fun empty => spoken (wordless empty)]
  · rw [fit.sent_whole none, expected, fit.tidy_whole none]
    intro same silent
    by_contra filled
    simp [silent, filled] at same
  · rw [fit.sent_whole none, expected, fit.tidy_whole none]
    intro silent
    split
    case isTrue empty => rw [if_pos (wordless empty)]
    case isFalse filled => rw [if_neg fun empty => filled (silent empty)]

/-- A piece with a semicolon. The first one is in a comment, whose dashes stand before it. -/
structure Cut (piece : Marked) (fresh : Bool) (front rest : List Char) : Prop where
  split : piece = (.code fresh : Lex clickhouse).lex front ++
    (';', .comment false) :: (.comment false : Lex clickhouse).lex rest
  first : ';' ∉ front
  dash : '-' ∈ front

theorem Fit.exists_cut {piece : Marked} (fit : Fit piece) (some : ∃ m ∈ piece, m.1 = ';') :
    ∃ fresh front rest, Cut piece fresh front rest := by
  obtain ⟨fresh, reads⟩ := fit.reads
  have listed : ';' ∈ piece.map Prod.fst := List.mem_map.mpr some
  obtain ⟨front, rest, chars, first⟩ := List.eq_append_cons_of_mem listed
  rw [chars, Lex.lex_append (by simp), Lex.lex] at reads
  have mark := fit.semicolons _ (reads ▸ List.mem_append_right _ List.mem_cons_self) rfl
  cases state : (.code fresh : Lex clickhouse).after front with
  | code later =>
    rw [state] at mark
    revert mark
    simp [Lex.read, clickhouse]
  | quoted | escaped =>
    rw [state] at mark
    contradiction
  | comment own =>
    rw [state] at mark reads
    obtain rfl : own = false := Mark.comment.inj mark
    exact ⟨fresh, front, rest, reads, first, (Lex.dash_of_comment state).resolve_left (by simp)⟩

namespace Cut
variable {piece : Marked} {fresh : Bool} {front rest : List Char}

theorem mem_of_rest (cut : Cut piece fresh front rest) :
    ∀ m ∈ (.comment false : Lex clickhouse).lex rest, m ∈ piece :=
  fun _ member => cut.split ▸ List.mem_append_right _ (List.mem_cons_of_mem _ member)

theorem uncut (cut : Cut piece fresh front rest) :
    ∀ m ∈ (.code fresh : Lex clickhouse).lex front, (m.1 == ';') = false := by
  intro m member
  rw [beq_eq_false_iff_ne]
  intro here
  have listed := @List.mem_map_of_mem _ _ _ _ Prod.fst member
  rw [Lex.lex_fst, here] at listed
  exact cut.first listed

theorem ends (cut : Cut piece fresh front rest) (fit : Fit piece) :
    clickhouse.Ends ((.code fresh : Lex clickhouse).lex front) := by
  intro m last blank literal
  obtain ⟨before, ending⟩ := List.getLast?_eq_some_iff.mp last
  obtain ⟨again, reads⟩ := fit.reads
  rw [cut.split, ending, List.append_assoc, List.singleton_append] at reads
  exact absurd (Lex.blank_then_literal reads.symm literal blank) (by simp)

/-- The code sends what stands before the semicolon, and then what it makes of the rest. -/
theorem sent_eq (cut : Cut piece fresh front rest) (fit : Fit piece) :
    sent piece = clickhouse.words ((.code fresh : Lex clickhouse).lex front) ::
      sent ((.comment false : Lex clickhouse).lex rest) := by
  have filled : strip front ≠ [] := by
    rw [Ne, strip_eq_nil]
    intro blank
    exact absurd (blank '-' cut.dash) (by decide)
  have pieces := List.splitOnP_append_cons_of_forall_mem cut.uncut (';', .comment false) rfl
    ((.comment false : Lex clickhouse).lex rest)
  rw [sent, cut.split, pieces, List.map_cons, Lex.lex_fst, List.filter_cons_of_pos (by simpa using filled),
    List.map_cons, words_strip (cut.ends fit)]
  rfl

theorem solid_eq (cut : Cut piece fresh front rest) :
    (piece.filter clickhouse.solid).dropWhile (·.1 ≠ ';') = (';', .comment false) ::
      ((.comment false : Lex clickhouse).lex rest).filter clickhouse.solid := by
  have before : ∀ m ∈ ((.code fresh : Lex clickhouse).lex front).filter clickhouse.solid,
      decide (m.1 ≠ ';') = true := by
    intro m member
    simpa using cut.uncut m (List.mem_of_mem_filter member)
  rw [cut.split, List.filter_append, List.dropWhile_append_of_pos before,
    List.filter_cons_of_pos (by decide), List.dropWhile_cons_of_neg (by simp)]

/-- Only semicolons follow the first one exactly when nothing is made of the rest. -/
theorem quiet_iff (cut : Cut piece fresh front rest) (fit : Fit piece) :
    (∀ m ∈ (piece.filter clickhouse.solid).dropWhile (·.1 ≠ ';'), m.1 = ';') ↔
      sent ((.comment false : Lex clickhouse).lex rest) = [] := by
  rw [cut.solid_eq, sent_eq_nil, List.forall_mem_cons]
  simp only [true_and, List.mem_filter, and_imp]
  refine forall₂_congr fun m member => ⟨fun only => ?_, fun dull solid => ?_⟩
  · cases solid : clickhouse.solid m with
    | true => exact .inl (only solid)
    | false => exact .inr (fit.blank_of_soft (cut.mem_of_rest m member) solid)
  · refine dull.resolve_right fun blank => ?_
    have here : clickhouse.blank m.1 = true := blank
    simp [Lexicon.solid, here] at solid

/-- Then the rest has no words. -/
theorem words_eq (cut : Cut piece fresh front rest) (fit : Fit piece)
    (silent : sent ((.comment false : Lex clickhouse).lex rest) = []) :
    clickhouse.words piece = clickhouse.words ((.code fresh : Lex clickhouse).lex front) := by
  rw [sent_eq_nil] at silent
  have plain : ∀ c ∈ rest, c ∉ clickhouse.quotes := by
    intro c member
    rw [← (.comment false : Lex clickhouse).lex_fst rest] at member
    obtain ⟨m, among, rfl⟩ := List.mem_map.mp member
    obtain semicolon | blank := silent m among
    · rw [semicolon]
      exact clickhouse.separator_plain
    · exact clickhouse.unlisted_of_blank blank
  have noLiteral := @Lex.lex_plain clickhouse (.comment false) rest not_false plain
  rw [cut.split]
  refine Lexicon.words_append_gaps _ (List.forall_mem_cons.mpr ⟨rfl, fun m member => ?_⟩)
  obtain semicolon | blank := silent m member
  · rw [Lexicon.gap, fit.semicolons m (cut.mem_of_rest m member) semicolon]
  · exact (Lexicon.gap_of_blank blank).mpr (noLiteral m member)

theorem judged (cut : Cut piece fresh front rest) (fit : Fit piece) : Judged piece := by
  refine ⟨?_, ?_, ?_⟩
  · rw [cut.sent_eq fit, expected]
    split <;> simp
  · rw [cut.sent_eq fit, expected]
    intro same
    split at same
    case isTrue => contradiction
    case isFalse spoken =>
      have silent := List.eq_nil_of_length_eq_zero (Nat.succ.inj same)
      exact ⟨fun wordless => absurd wordless spoken, (cut.quiet_iff fit).mpr silent⟩
  · rintro ⟨spoken, only⟩
    have silent := (cut.quiet_iff fit).mp only
    have some : clickhouse.words piece ≠ [] := by
      intro wordless
      have solid := cut.solid_eq
      rw [spoken wordless] at solid
      contradiction
    rw [cut.sent_eq fit, expected, if_neg some, silent, cut.words_eq fit silent]

end Cut

theorem Fit.judged {piece : Marked} (fit : Fit piece) : Judged piece := by
  by_cases some : ∃ m ∈ piece, m.1 = ';'
  · obtain ⟨fresh, front, rest, cut⟩ := fit.exists_cut some
    exact cut.judged fit
  · exact fit.whole fun m member semicolon => some ⟨m, member, semicolon⟩

theorem fit_of_mem {sql : List Char} {piece thin : Marked} (restricted : Restricted sql)
    (ends : clickhouse.Ends (clickhouse.marks sql)) {text : List Char} (reads : thin = clickhouse.marks text)
    (thinned : Thinned clickhouse true thin (clickhouse.marks sql))
    (member : piece ∈ clickhouse.pieces thin) : Fit piece := by
  subst reads
  have within : ∀ m ∈ piece, m ∈ clickhouse.marks text := (infix_of_mem member).subset
  refine ⟨Lex.piece_lex member, Lex.piece_ends (fun m last blank literal => ?_) member,
    fun m among => thinned.no_own m (within m among), fun m among semicolon => ?_⟩
  · refine ends m (thinned.last last ?_) blank literal
    rw [Lexicon.gap, literal]
  · obtain ⟨c, mark⟩ := m
    obtain rfl : c = ';' := semicolon
    cases mark with
    | code => exact absurd (uncut_of_mem member _ among) (by decide)
    | literal =>
      have solid : (';', Mark.literal) ∈ (clickhouse.marks text).filter clickhouse.solid :=
        List.mem_filter.mpr ⟨within _ among, by decide⟩
      rw [thinned.solid] at solid
      exact absurd rfl (restricted _ (List.mem_of_mem_filter solid) rfl)
    | comment own =>
      cases own with
      | false => rfl
      | true => exact absurd rfl (thinned.no_own _ (within _ among))

theorem tidy_pieces {thin whole : Marked} (thinned : Thinned clickhouse true thin whole) :
    (∀ piece ∈ clickhouse.pieces thin, Tidy piece) ↔ ∀ piece ∈ clickhouse.pieces whole, Tidy piece := by
  have each (marked : Marked) : (∀ piece ∈ clickhouse.pieces marked, Tidy piece) ↔
      ∀ pair ∈ ((clickhouse.pieces marked).map clickhouse.words).zip
        ((clickhouse.pieces marked).map (List.filter clickhouse.solid)),
        (pair.1 = [] → pair.2 = []) ∧ ∀ m ∈ pair.2.dropWhile (·.1 ≠ ';'), m.1 = ';' := by
    rw [List.zip_map', List.forall_mem_map]
    rfl
  rw [each, each, thinned.words_pieces, thinned.solid_pieces]

/-- Where nothing is shorter, equal lengths in all are equal lengths in each. -/
theorem lengths_eq {pieces : List Marked} (judged : ∀ piece ∈ pieces, Judged piece)
    (same : (pieces.flatMap sent).length = (pieces.flatMap expected).length) :
    ∀ piece ∈ pieces, (sent piece).length = (expected piece).length := by
  have least : ∀ few : List Marked, (∀ piece ∈ few, Judged piece) →
      (few.flatMap expected).length ≤ (few.flatMap sent).length := by
    intro few each
    induction few with
    | nil => exact le_rfl
    | cons piece rest ih =>
      rw [List.flatMap_cons, List.flatMap_cons, List.length_append, List.length_append]
      exact Nat.add_le_add (each piece List.mem_cons_self).least
        (ih fun other member => each other (List.mem_cons_of_mem piece member))
  induction pieces with
  | nil => simp
  | cons piece rest ih =>
    obtain ⟨here, later⟩ := List.forall_mem_cons.mp judged
    rw [List.flatMap_cons, List.flatMap_cons, List.length_append, List.length_append] at same
    have first := here.least
    have others := least rest later
    exact List.forall_mem_cons.mpr ⟨by omega, ih later (by omega)⟩

/-- On text without lines like comments in its literals the rest of the condition decides. -/
theorem faithful_of_thinned {sql : List Char} (restricted : Restricted sql)
    (undashed : ¬ Dashed (clickhouse.marks sql)) (ends : clickhouse.Ends (clickhouse.marks sql)) :
    Faithful sql ↔ ∀ piece ∈ clickhouse.pieces (clickhouse.marks sql), Tidy piece := by
  have thinned := strip_thinned undashed
  have judged : ∀ piece ∈ clickhouse.pieces (clickhouse.marks (stripComments (.start []) sql)),
      Judged piece := fun piece member => (fit_of_mem restricted ends rfl thinned member).judged
  rw [Faithful, statements_sent, Lexicon.tokenized, ← thinned.words_pieces, tokenized_expected,
    ← tidy_pieces thinned]
  constructor
  · intro same piece member
    exact (judged piece member).tidy (lengths_eq judged (congrArg List.length same) piece member)
  · intro tidy
    exact List.flatMap_congr fun piece member => (judged piece member).same (tidy piece member)

/-! ### Literals that do not come through -/

/-- A line begins like a comment. -/
def DashedText (text : List Char) : Prop :=
  ∃ blanks, (∀ c ∈ blanks, isSpace c = true) ∧ '\n' :: (blanks ++ ['-', '-']) <:+: text

theorem dashedText_cons {c : Char} {text : List Char} (dashed : DashedText (c :: text))
    (onLine : c ≠ '\n') : DashedText text := by
  obtain ⟨blanks, blank, inside⟩ := dashed
  refine ⟨blanks, blank, (List.infix_cons_iff.mp inside).resolve_left fun starts => ?_⟩
  exact onLine (List.cons_prefix_cons.mp starts).1.symm

theorem dashedText_blanks {blanks text : List Char} (blank : ∀ c ∈ blanks, isSpace c = true)
    (dashed : DashedText ('\n' :: (blanks ++ text))) : DashedText ('\n' :: text) := by
  induction blanks with
  | nil => exact dashed
  | cons c rest ih =>
    refine ih (fun d member => blank d (List.mem_cons_of_mem c member)) ?_
    obtain ⟨held, spaces, inside⟩ := dashed
    obtain starts | later := List.infix_cons_iff.mp inside
    · have line := (List.cons_prefix_cons.mp starts).2
      cases held with
      | nil =>
        obtain rfl := (List.cons_prefix_cons.mp line).1
        exact absurd (blank '-' List.mem_cons_self) (by decide)
      | cons d others =>
        refine ⟨others, fun e member => spaces e (List.mem_cons_of_mem d member), ?_⟩
        exact (List.cons_prefix_cons.mpr ⟨rfl, (List.cons_prefix_cons.mp line).2⟩).isInfix
    · by_cases newline : c = '\n'
      · subst newline
        exact ⟨held, spaces, later⟩
      · obtain ⟨held, spaces, inside⟩ := dashedText_cons ⟨held, spaces, later⟩ newline
        exact ⟨held, spaces, inside.trans (List.suffix_cons _ _).isInfix⟩

theorem dashedText_line {c : Char} {text : List Char} (solid : isSpace c = false)
    (single : ¬ (c = '-' ∧ text.head? = some '-')) (dashed : DashedText ('\n' :: c :: text)) :
    DashedText text := by
  obtain ⟨held, spaces, inside⟩ := dashed
  have onLine : c ≠ '\n' := by
    rintro rfl
    contradiction
  obtain starts | later := List.infix_cons_iff.mp inside
  · have line := (List.cons_prefix_cons.mp starts).2
    cases held with
    | nil =>
      obtain ⟨dash, second⟩ := List.cons_prefix_cons.mp line
      obtain ⟨more, rfl⟩ := second
      exact absurd ⟨dash.symm, rfl⟩ single
    | cons d others =>
      obtain rfl := (List.cons_prefix_cons.mp line).1
      rw [spaces d List.mem_cons_self] at solid
      contradiction
  · exact dashedText_cons ⟨held, spaces, later⟩ onLine

/-- No line of what is stripped begins like a comment, wherever the text begins. -/
structure StripsDashes (text : List Char) : Prop where
  inside : ¬ DashedText (stripComments .inside text)
  comment : ¬ DashedText ('\n' :: stripComments .comment text)
  start : ∀ blanks : List Char, (∀ c ∈ blanks, isSpace c = true) →
    ¬ DashedText ('\n' :: stripComments (.start blanks) text)

theorem StripsDashes.nil : StripsDashes [] := by
  have short : ∀ few : List Char, few.length < 3 → ¬ DashedText few := by
    rintro few less ⟨blanks, _, inside⟩
    have longer := inside.length_le
    simp only [List.length_cons, List.length_append, List.length_nil] at longer
    omega
  refine ⟨short _ (by decide), short _ (by decide), fun blanks blank dashed => ?_⟩
  rw [show stripComments (.start blanks) [] = blanks ++ [] from (List.append_nil _).symm] at dashed
  exact short _ (by decide) (dashedText_blanks blank dashed)

theorem StripsDashes.cons_inside {c : Char} {rest : List Char} (later : StripsDashes rest) :
    ¬ DashedText (stripComments .inside (c :: rest)) := by
  rw [strip_inside]
  by_cases newline : c = '\n'
  · rw [if_pos newline, newline]
    exact later.start [] (by simp)
  · rw [if_neg newline]
    exact fun dashed => later.inside (dashedText_cons dashed newline)

theorem StripsDashes.cons_comment {c : Char} {rest : List Char} (later : StripsDashes rest) :
    ¬ DashedText ('\n' :: stripComments .comment (c :: rest)) := by
  rw [strip_comment]
  by_cases newline : c = '\n'
  · rw [if_pos newline, newline]
    exact fun dashed => later.start [] (by simp)
      (@dashedText_blanks ['\n'] _ (List.forall_mem_singleton.mpr clickhouse.newline_blank) dashed)
  · rw [if_neg newline]
    exact later.comment

theorem StripsDashes.cons_start {c : Char} {rest : List Char} (later : StripsDashes rest)
    {blanks : List Char} (blank : ∀ c ∈ blanks, isSpace c = true) :
    ¬ DashedText ('\n' :: stripComments (.start blanks) (c :: rest)) := by
  by_cases dashes : c = '-' ∧ rest.head? = some '-'
  · obtain ⟨rfl, second⟩ := dashes
    obtain ⟨more, rfl⟩ := List.head?_eq_some_iff.mp second
    rw [strip_dashes]
    exact later.comment
  · cases here : isSpace c with
    | true =>
      rw [strip_blank here]
      exact later.start (blanks ++ [c])
        (List.forall_mem_append.mpr ⟨blank, List.forall_mem_singleton.mpr here⟩)
    | false =>
      rw [strip_code here dashes]
      intro dashed
      refine later.inside (dashedText_line here ?_ (dashedText_blanks blank dashed))
      rwa [strip_inside_head]

theorem strip_undashed (sql : List Char) : ¬ DashedText (stripComments (.start []) sql) := by
  have strips : StripsDashes sql := by
    induction sql with
    | nil => exact .nil
    | cons c rest later => exact ⟨later.cons_inside, later.cons_comment, fun _ => later.cons_start⟩
  rintro ⟨blanks, blank, within⟩
  exact strips.start [] (by simp) ⟨blanks, blank, within.trans (List.suffix_cons _ _).isInfix⟩

theorem statement_within {sql stmt : List Char} (member : stmt ∈ statements sql) :
    stmt <:+: stripComments (.start []) sql := by
  obtain ⟨piece, among, rfl⟩ := List.mem_map.mp member
  have cut := List.mem_of_mem_filter among
  rw [List.splitOn_eq_splitOnP] at cut
  exact (strip_within piece).trans (infix_of_mem cut)

theorem Faithful.word {sql word : List Char} (faithful : Faithful sql) {piece : Marked}
    (member : piece ∈ clickhouse.pieces (clickhouse.marks sql)) (among : word ∈ clickhouse.words piece) :
    ∃ stmt ∈ statements sql, word ∈ clickhouse.words (clickhouse.marks stmt) := by
  have spoken : clickhouse.words piece ≠ [] := List.ne_nil_of_mem among
  have listed : clickhouse.words piece ∈ clickhouse.tokenized sql :=
    List.mem_filter.mpr ⟨List.mem_map_of_mem member, by simpa using spoken⟩
  rw [← faithful] at listed
  obtain ⟨stmt, there, same⟩ := List.mem_map.mp listed
  exact ⟨stmt, there, same ▸ among⟩

theorem Faithful.undashed {sql : List Char} (faithful : Faithful sql) :
    ¬ Dashed (clickhouse.marks sql) := by
  rintro ⟨blanks, blank, inside⟩
  have literal : ∀ m ∈ ('\n' :: (blanks ++ ['-', '-'])).map (·, Mark.literal), m.2 = .literal := by
    intro m member
    obtain ⟨c, _, rfl⟩ := List.mem_map.mp member
    rfl
  obtain ⟨piece, member, within⟩ := @run_in_piece _ clickhouse.top _ _
    (fun m among => by simp [Lexicon.top, literal m among]) inside
  obtain ⟨word, among, part⟩ := Lexicon.run_in_word
    (fun m among => by simp [Lexicon.gap, literal m among]) (by simp) within
  obtain ⟨stmt, there, found⟩ := faithful.word member among
  have text : word <:+: stmt := by
    have spelled := Lexicon.infix_of_mem_words found
    rwa [Lexicon.marks, Lex.lex_fst] at spelled
  rw [List.map_map, show (Prod.fst ∘ fun c : Char => (c, Mark.literal)) = id from rfl, List.map_id] at part
  exact strip_undashed sql ⟨blanks, blank, (part.trans text).trans (statement_within there)⟩

theorem word_last {text word : List Char} (solid : ∀ c ∈ text.getLast?, isSpace c = false)
    (member : word ∈ clickhouse.words (clickhouse.marks text)) : ∀ c ∈ word.getLast?, isSpace c = false := by
  intro c last
  obtain ⟨piece, among, rfl⟩ := List.mem_map.mp member
  have cut := List.mem_of_mem_filter among
  rw [List.getLast?_map, Option.mem_def, Option.map_eq_some_iff] at last
  obtain ⟨m, ending, rfl⟩ := last
  obtain ⟨front, rfl⟩ := List.getLast?_eq_some_iff.mp ending
  have inWord := uncut_of_mem cut m (by simp)
  obtain ⟨before, later, split, _, ends⟩ := stands_of_mem cut
  by_contra filled
  have blank : clickhouse.blank m.1 = true := Bool.eq_true_of_not_eq_false filled
  have literal : m.2 = .literal := by
    by_contra other
    rw [(Lexicon.gap_of_blank blank).mpr other] at inWord
    contradiction
  obtain rfl | ⟨gap, rest, apart, rfl⟩ := ends
  · have chars := congrArg (List.map Prod.fst) split
    rw [Lexicon.marks, Lex.lex_fst] at chars
    have stop : isSpace m.1 = false := solid m.1 (by simp [chars])
    have here : isSpace m.1 = true := blank
    rw [here] at stop
    contradiction
  · rw [← List.append_assoc, List.append_assoc, List.singleton_append] at split
    have goesOn := Lex.blank_then_literal split literal blank
    rw [Lexicon.gap, goesOn] at apart
    contradiction

theorem Faithful.ends {sql : List Char} (faithful : Faithful sql) :
    clickhouse.Ends (clickhouse.marks sql) := by
  intro m last blank literal
  obtain ⟨front, split⟩ := List.getLast?_eq_some_iff.mp last
  obtain ⟨before, member⟩ := @last_in_piece _ clickhouse.top m (by simp [Lexicon.top, literal]) front
  obtain ⟨letters, among⟩ := @last_in_piece _ clickhouse.gap m (by simp [Lexicon.gap, literal]) before
  have word : (letters ++ [m]).map Prod.fst ∈ clickhouse.words (before ++ [m]) :=
    List.mem_map_of_mem (List.mem_filter.mpr ⟨among, by simp⟩)
  rw [← split] at member
  obtain ⟨stmt, there, found⟩ := faithful.word member word
  obtain ⟨text, _, rfl⟩ := List.mem_map.mp there
  have solid := word_last strip_last found m.1 (by simp)
  have here : isSpace m.1 = true := blank
  rw [here] at solid
  contradiction

/-- The code splits a restricted text as the tokenizer does exactly when no literal has a
line like a comment, no open quote ends in blanks, and every piece is tidy. -/
theorem statements_faithful_iff {sql : List Char} (restricted : Restricted sql) :
    Faithful sql ↔ Splittable sql := by
  constructor
  · intro faithful
    have undashed := faithful.undashed
    have ends := faithful.ends
    exact ⟨undashed, ends, (faithful_of_thinned restricted undashed ends).mp faithful⟩
  · intro splittable
    exact (faithful_of_thinned restricted splittable.undashed splittable.ends).mpr splittable.tidy

/-- Two statements, with a note after code, one on its own line and two dashes in a literal. -/
def annotated : List Char :=
  "SELECT 1, -- one\n  'a -- b' AS c;\n-- note; not code\nSELECT 2;\n".toList

theorem statements_faithful_annotated : Splittable annotated := by
  have restricted : Restricted annotated := by
    unfold Restricted
    decide +kernel
  have faithful : Faithful annotated := by
    unfold Faithful
    decide +kernel
  exact (statements_faithful_iff restricted).mp faithful

/-- A note with a semicolon, after a column. -/
def noted : List Char := "CREATE TABLE t (a Int8, -- key; unique\n b Int8)".toList

/-- The definition is cut in two. -/
theorem statements_cut_comment : Restricted noted ∧ ¬ Faithful noted ∧
    statements noted = ["CREATE TABLE t (a Int8, -- key".toList, "unique\n b Int8)".toList] ∧
    clickhouse.tokenized noted =
      [["CREATE", "TABLE", "t", "(a", "Int8,", "b", "Int8)"].map String.toList] := by
  unfold Restricted Faithful
  decide +kernel

end TelemetryEngine.Storage
