import TelemetryEngine.Foundation.Quoting
import TelemetryEngine.Storage.Migrations

/-! `_COMMENT_RE` against a tokenizer: as long as no literal has a line that looks like a
comment, what is stripped are comment lines and blanks. -/
namespace TelemetryEngine.Storage
open Foundation.Quoting

/-- String literals and identifiers in either of two quotes, with backslash escapes. -/
def clickhouse : Lexicon where
  blank := isSpace
  quotes := [39, 34, 96].map Char.ofNat
  escape := Char.ofNat 92
  separator := ';'
  newline_blank := by decide
  dash_solid := by decide
  dash_plain := by decide
  quotes_solid := List.forall_mem_map.mpr (by decide)
  escape_solid := by decide
  separator_solid := by decide
  separator_plain := by decide
  separator_not_dash := by decide

/-- A line inside a literal begins like a comment. -/
def Dashed (marked : Marked) : Prop :=
  ∃ blanks, (∀ c ∈ blanks, isSpace c = true) ∧
    ('\n' :: (blanks ++ ['-', '-'])).map (·, Mark.literal) <:+: marked

theorem strip_dashes (blanks rest : List Char) :
    stripComments (.start blanks) ('-' :: '-' :: rest) = stripComments .comment ('-' :: rest) := rfl

theorem strip_inside (c : Char) (rest : List Char) : stripComments .inside (c :: rest) =
    c :: stripComments (if c = '\n' then .start [] else .inside) rest := rfl

theorem strip_comment (c : Char) (rest : List Char) : stripComments .comment (c :: rest) =
    if c = '\n' then c :: stripComments (.start []) rest else stripComments .comment rest := rfl

theorem strip_blank {c : Char} (blank : isSpace c = true) (blanks rest : List Char) :
    stripComments (.start blanks) (c :: rest) = stripComments (.start (blanks ++ [c])) rest := by
  have notDash : c ≠ '-' := by
    rintro rfl
    contradiction
  rw [stripComments.eq_def]
  simp [notDash, blank]

theorem strip_code {c : Char} {rest : List Char} (solid : isSpace c = false)
    (single : ¬ (c = '-' ∧ rest.head? = some '-')) (blanks : List Char) :
    stripComments (.start blanks) (c :: rest) = blanks ++ c :: stripComments .inside rest := by
  rw [stripComments.eq_def]
  split <;> simp_all

theorem strip_inside_head (rest : List Char) : (stripComments .inside rest).head? = rest.head? := by
  cases rest <;> rfl

/-- Neither at the beginning of a line nor in a comment that has its line to itself. -/
def Within : Lex clickhouse → Prop
  | .code fresh => fresh = false
  | .comment own => own = false
  | _ => True

theorem read_within {state : Lex clickhouse} {c : Char} {next : Option Char} (within : Within state)
    (onLine : c ≠ '\n') : (state.read c next).1 ≠ .comment true ∧ Within (state.read c next).2 := by
  cases state with
  | code fresh =>
    obtain rfl : fresh = false := within
    simp only [Lex.read]
    split
    · exact ⟨by simp, rfl⟩
    · split
      · exact ⟨by simp, trivial⟩
      · exact ⟨by simp, by simp [Within, onLine]⟩
  | quoted quote =>
    refine ⟨by simp [Lex.read], ?_⟩
    simp only [Lex.read]
    split
    · trivial
    · split
      · exact rfl
      · trivial
  | escaped quote => exact ⟨by simp [Lex.read], trivial⟩
  | comment own =>
    obtain rfl : own = false := within
    simp only [Lex.read, if_neg onLine]
    exact ⟨by simp, rfl⟩

theorem read_newline (state : Lex clickhouse) (next : Option Char) :
    state.read '\n' next = (.code, .code true) ∨ ∃ quote, state.read '\n' next = (.literal, .quoted quote) := by
  have unlisted : '\n' ∉ clickhouse.quotes := by decide
  cases state with
  | code fresh => exact .inl (by simp [Lex.read, unlisted])
  | comment own => exact .inl rfl
  | escaped quote => exact .inr ⟨quote, rfl⟩
  | quoted quote =>
    have plain : '\n' ≠ clickhouse.escape := by decide
    have stays : '\n' ≠ (quote : Char) := fun here => unlisted (here ▸ quote.2)
    exact .inr ⟨quote, by simp only [Lex.read, if_neg plain, if_neg stays]⟩

theorem read_quoted {quote : { c : Char // c ∈ clickhouse.quotes }} {c : Char} {next : Option Char}
    (dull : isSpace c = true ∨ c = '-') : (Lex.quoted quote).read c next = (.literal, .quoted quote) := by
  have plain : c ≠ clickhouse.escape := by
    obtain blank | rfl := dull
    · exact clickhouse.not_escape_of_blank blank
    · decide
  have unlisted : c ∉ clickhouse.quotes := by
    obtain blank | rfl := dull
    · exact clickhouse.unlisted_of_blank blank
    · exact clickhouse.dash_plain
  have stays : c ≠ quote := fun here => unlisted (here ▸ quote.2)
  simp only [Lex.read, if_neg plain, if_neg stays]

theorem lex_quoted_blanks (quote : { c : Char // c ∈ clickhouse.quotes }) {blanks : List Char}
    (blank : ∀ c ∈ blanks, isSpace c = true) (rest : List Char) :
    (Lex.quoted quote).lex (blanks ++ rest) =
      blanks.map (·, Mark.literal) ++ (Lex.quoted quote).lex rest := by
  induction blanks with
  | nil => rfl
  | cons c others ih =>
    rw [List.cons_append, Lex.lex, read_quoted (.inl (blank c List.mem_cons_self)),
      ih fun d member => blank d (List.mem_cons_of_mem c member)]
    rfl

theorem Dashed.cons {marked : Marked} (dashed : Dashed marked) (m : Char × Mark) : Dashed (m :: marked) := by
  obtain ⟨blanks, blank, inside⟩ := dashed
  exact ⟨blanks, blank, inside.trans (List.suffix_cons m marked).isInfix⟩

theorem Dashed.append {marked : Marked} (dashed : Dashed marked) (front : Marked) :
    Dashed (front ++ marked) := by
  obtain ⟨blanks, blank, inside⟩ := dashed
  exact ⟨blanks, blank, inside.trans (List.suffix_append front marked).isInfix⟩

theorem thinned_append {held thin whole : Marked} (kept : ∀ m ∈ held, m.2 ≠ .comment true)
    (rest : ∀ between, Thinned clickhouse between thin whole) (between : Bool) :
    Thinned clickhouse between (held ++ thin) (held ++ whole) := by
  induction held generalizing between with
  | nil => exact rest between
  | cons m others ih =>
    exact .keep (kept m List.mem_cons_self) (ih (fun n member => kept n (List.mem_cons_of_mem m member)) _)

/-- What stripping does to a text, wherever it stands when the text begins. `blanks` are
held back since the line began. -/
structure Strips (text : List Char) : Prop where
  line : ∀ blanks : List Char, (∀ c ∈ blanks, isSpace c = true) →
    ¬ Dashed ((.code true : Lex clickhouse).lex text) → Thinned clickhouse true
      ((.code true : Lex clickhouse).lex (stripComments (.start blanks) text))
      (blanks.map (·, Mark.code) ++ (.code true : Lex clickhouse).lex text)
  comment : ¬ Dashed ((.comment true : Lex clickhouse).lex text) → Thinned clickhouse true
    ((.code true : Lex clickhouse).lex (stripComments .comment text))
    ((.comment true : Lex clickhouse).lex text)
  inside : ∀ state : Lex clickhouse, Within state → ¬ Dashed (state.lex text) → ∀ between,
    Thinned clickhouse between (state.lex (stripComments .inside text)) (state.lex text)
  literal : ∀ (quote : { c : Char // c ∈ clickhouse.quotes }) (blanks : List Char),
    (∀ c ∈ blanks, isSpace c = true) →
    ¬ Dashed (('\n' :: blanks).map (·, Mark.literal) ++ (Lex.quoted quote).lex text) → ∀ between,
    Thinned clickhouse between ((Lex.quoted quote).lex (stripComments (.start blanks) text))
      (blanks.map (·, Mark.literal) ++ (Lex.quoted quote).lex text)

theorem Strips.nil : Strips [] where
  line blanks blank _ := by
    have read := @Lex.lex_blanks clickhouse _ blank []
    rw [List.append_nil] at read
    rw [show stripComments (.start blanks) [] = blanks from rfl, read]
    exact thinned_append (by simp) (fun _ => .done) true
  comment _ := .done
  inside _ _ _ _ := .done
  literal quote blanks blank _ between := by
    have read := lex_quoted_blanks quote blank []
    rw [List.append_nil] at read
    rw [show stripComments (.start blanks) [] = blanks from rfl, read]
    exact thinned_append (by simp) (fun _ => .done) between

theorem thinned_blanks {blanks : List Char} (blank : ∀ c ∈ blanks, isSpace c = true) {thin whole : Marked}
    (rest : Thinned clickhouse true thin whole) :
    Thinned clickhouse true thin (blanks.map (·, Mark.code) ++ whole) := by
  induction blanks with
  | nil => exact rest
  | cons c others ih =>
    have here : clickhouse.blank c = true := blank c List.mem_cons_self
    exact .drop here (by simp [Lexicon.solid, here]) (ih fun d member => blank d (List.mem_cons_of_mem c member))

theorem strips_line {c : Char} {rest : List Char} (later : Strips rest) {blanks : List Char}
    (blank : ∀ c ∈ blanks, isSpace c = true)
    (undashed : ¬ Dashed ((.code true : Lex clickhouse).lex (c :: rest))) :
    Thinned clickhouse true ((.code true : Lex clickhouse).lex (stripComments (.start blanks) (c :: rest)))
      (blanks.map (·, Mark.code) ++ (.code true : Lex clickhouse).lex (c :: rest)) := by
  have suffix : ¬ Dashed (((.code true : Lex clickhouse).read c rest.head?).2.lex rest) :=
    fun dashed => undashed (dashed.cons _)
  by_cases dashes : c = '-' ∧ rest.head? = some '-'
  · obtain ⟨rfl, second⟩ := dashes
    obtain ⟨more, rfl⟩ := List.head?_eq_some_iff.mp second
    rw [strip_dashes]
    exact thinned_blanks blank (.drop rfl rfl (later.comment suffix))
  · cases here : isSpace c with
    | true =>
      have read := @Lex.lex_blanks clickhouse [c] (List.forall_mem_singleton.mpr here) rest
      rw [List.singleton_append] at read
      have longer : ∀ d ∈ blanks ++ [c], isSpace d = true :=
        List.forall_mem_append.mpr ⟨blank, List.forall_mem_singleton.mpr here⟩
      have thinned := later.line (blanks ++ [c]) longer fun dashed => undashed (read ▸ dashed.cons _)
      rw [strip_blank here, read]
      rwa [List.map_append, List.append_assoc] at thinned
    | false =>
      have onLine : c ≠ '\n' := by
        rintro rfl
        contradiction
      have read (more : List Char) (head : more.head? = rest.head?) :
          (.code true : Lex clickhouse).lex (c :: more) =
            (c, ((.code false : Lex clickhouse).read c rest.head?).1) ::
              ((.code false : Lex clickhouse).read c rest.head?).2.lex more := by
        have solid : clickhouse.blank c = false := here
        simp only [Lex.lex, head, Lex.read, if_neg dashes, solid, Bool.and_false]
      obtain ⟨kept, within⟩ := @read_within (.code false) c rest.head? rfl onLine
      rw [read rest rfl] at undashed
      rw [strip_code here dashes, Lex.lex_blanks blank, read _ (strip_inside_head rest), read rest rfl]
      exact thinned_append (by simp) (fun _ => .keep kept
        (later.inside _ within (fun dashed => undashed (dashed.cons _)) _)) true

theorem strips_comment {c : Char} {rest : List Char} (later : Strips rest)
    (undashed : ¬ Dashed ((.comment true : Lex clickhouse).lex (c :: rest))) :
    Thinned clickhouse true ((.code true : Lex clickhouse).lex (stripComments .comment (c :: rest)))
      ((.comment true : Lex clickhouse).lex (c :: rest)) := by
  have suffix : ¬ Dashed (((.comment true : Lex clickhouse).read c rest.head?).2.lex rest) :=
    fun dashed => undashed (dashed.cons _)
  by_cases newline : c = '\n'
  · subst newline
    have read (more : List Char) : (.code true : Lex clickhouse).lex ('\n' :: more) =
        ('\n', .code) :: (.code true : Lex clickhouse).lex more :=
      @Lex.lex_blanks clickhouse ['\n'] (List.forall_mem_singleton.mpr clickhouse.newline_blank) more
    rw [strip_comment, if_pos rfl, read]
    exact .keep (by simp) (later.line [] (by simp) suffix)
  · have reads : (.comment true : Lex clickhouse).read c rest.head? = (.comment true, .comment true) :=
      if_neg newline
    rw [reads] at suffix
    rw [strip_comment, if_neg newline, Lex.lex, reads]
    exact .drop rfl rfl (later.comment suffix)

theorem strips_inside {c : Char} {rest : List Char} (later : Strips rest) {state : Lex clickhouse}
    (within : Within state) (undashed : ¬ Dashed (state.lex (c :: rest))) (between : Bool) :
    Thinned clickhouse between (state.lex (stripComments .inside (c :: rest))) (state.lex (c :: rest)) := by
  rw [strip_inside]
  by_cases newline : c = '\n'
  · subst newline
    have next (more : List Char) : state.read '\n' more.head? = state.read '\n' rest.head? :=
      Lex.read_next fun dash => absurd dash (by decide)
    rw [if_pos rfl, Lex.lex, Lex.lex, next]
    rw [Lex.lex] at undashed
    obtain code | ⟨quote, literal⟩ := read_newline state rest.head?
    · rw [code] at undashed ⊢
      exact .keep (by simp) (later.line [] (by simp) fun dashed => undashed (dashed.cons _))
    · rw [literal] at undashed ⊢
      exact .keep (by simp) (later.literal quote [] (by simp) undashed _)
  · obtain ⟨kept, still⟩ := @read_within state c rest.head? within newline
    rw [if_neg newline, Lex.lex, Lex.lex, strip_inside_head]
    rw [Lex.lex] at undashed
    exact .keep kept (later.inside _ still (fun dashed => undashed (dashed.cons _)) _)

theorem strips_literal {c : Char} {rest : List Char} (later : Strips rest)
    (quote : { c : Char // c ∈ clickhouse.quotes }) {blanks : List Char}
    (blank : ∀ c ∈ blanks, isSpace c = true)
    (undashed : ¬ Dashed (('\n' :: blanks).map (·, Mark.literal) ++ (Lex.quoted quote).lex (c :: rest)))
    (between : Bool) : Thinned clickhouse between
      ((Lex.quoted quote).lex (stripComments (.start blanks) (c :: rest)))
      (blanks.map (·, Mark.literal) ++ (Lex.quoted quote).lex (c :: rest)) := by
  by_cases dashes : c = '-' ∧ rest.head? = some '-'
  · obtain ⟨rfl, second⟩ := dashes
    obtain ⟨more, rfl⟩ := List.head?_eq_some_iff.mp second
    refine absurd ⟨blanks, blank, ?_⟩ undashed
    rw [Lex.lex, read_quoted (.inr rfl), Lex.lex, read_quoted (.inr rfl)]
    exact ⟨[], (Lex.quoted quote).lex more, by simp⟩
  · cases here : isSpace c with
    | true =>
      have longer : ∀ d ∈ blanks ++ [c], isSpace d = true :=
        List.forall_mem_append.mpr ⟨blank, List.forall_mem_singleton.mpr here⟩
      have held : (blanks ++ [c]).map (·, Mark.literal) ++ (Lex.quoted quote).lex rest =
          blanks.map (·, Mark.literal) ++ (Lex.quoted quote).lex (c :: rest) := by
        rw [Lex.lex, read_quoted (.inl here), List.map_append, List.append_assoc]
        rfl
      rw [strip_blank here, ← held]
      refine later.literal quote (blanks ++ [c]) longer (fun dashed => undashed ?_) between
      rw [List.map_cons, List.cons_append, held] at dashed
      exact dashed
    | false =>
      have onLine : c ≠ '\n' := by
        rintro rfl
        contradiction
      obtain ⟨kept, still⟩ := @read_within (.quoted quote) c rest.head? trivial onLine
      rw [strip_code here dashes, lex_quoted_blanks quote blank, Lex.lex, Lex.lex, strip_inside_head]
      rw [Lex.lex] at undashed
      exact thinned_append (by simp) (fun _ => .keep kept
        (later.inside _ still (fun dashed => undashed ((dashed.cons _).append _)) _)) between

theorem strips (text : List Char) : Strips text := by
  induction text with
  | nil => exact .nil
  | cons c rest later => exact {
      line := fun _ blank undashed => strips_line later blank undashed
      comment := fun undashed => strips_comment later undashed
      inside := fun _ within undashed between => strips_inside later within undashed between
      literal := fun quote _ blank undashed between => strips_literal later quote blank undashed between }

/-- Unless a literal has a line like a comment, only blanks and comment lines are stripped. -/
theorem strip_thinned {sql : List Char} (undashed : ¬ Dashed (clickhouse.marks sql)) :
    Thinned clickhouse true (clickhouse.marks (stripComments (.start []) sql)) (clickhouse.marks sql) :=
  (strips sql).line [] (by simp) undashed

end TelemetryEngine.Storage
