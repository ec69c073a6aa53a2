import Mathlib.Data.List.DropRight
import TelemetryEngine.Foundation.FloatText

/-! Python's `float` and `int` on texts. They take the digits and the spaces of all of Unicode,
spaces around a number and underscores inside it. -/
namespace Foundation.PythonFloat
open Foundation.Calendar Foundation.FloatText

/-- The spaces of Unicode beyond ASCII. -/
def unicodeSpaces : List Nat :=
  [0x85, 0xA0, 0x1680, 0x2000, 0x2001, 0x2002, 0x2003, 0x2004, 0x2005, 0x2006, 0x2007, 0x2008,
    0x2009, 0x200A, 0x2028, 0x2029, 0x202F, 0x205F, 0x3000]

def isAscii (c : Char) : Bool := c.toNat < 128

def isAsciiSpace (c : Char) : Bool := c = ' ' || 9 ≤ c.toNat && c.toNat ≤ 13

/-- A character of a text that is not all ASCII: decimal digits and spaces become those of
ASCII, other characters beyond it are read as no part of a number. -/
def asciiChar (c : Char) : Option Char :=
  if c.toNat < 127 then some c
  else if c.toNat ∈ unicodeSpaces then some ' '
  else (decimalValue c).map Nat.digitChar

def asciiText (text : List Char) : Option (List Char) :=
  if text.all isAscii then some text else text.mapM asciiChar

def strip (text : List Char) : List Char := (text.dropWhile isAsciiSpace).rdropWhile isAsciiSpace

/-- Underscores stand between digits only. -/
def underscoresJoin (afterDigit : Bool) : List Char → Bool
  | [] => true
  | c :: rest =>
    if c = '_' then afterDigit && rest.head?.any Char.isDigit && underscoresJoin false rest
    else underscoresJoin c.isDigit rest

/-- `float(text)`, and nothing for a `ValueError`. -/
def pyFloat (text : List Char) : Option FloatValue := do
  let ascii ← asciiText text
  let digits := strip ascii
  if underscoresJoin false digits then (literal (digits.filter (· ≠ '_'))).map FloatValue.double
  else none

/-- `int(text)`, and nothing for a `ValueError`. -/
def pyInt (text : List Char) : Option Int := do
  let ascii ← asciiText text
  let digits := strip ascii
  if underscoresJoin false digits then Decimal.parseInt (digits.filter (· ≠ '_')) else none

/-! ### Values with spaces around them -/

theorem isValueChar_class {c : Char} (char : isValueChar c = true) :
    isAscii c = true ∧ isAsciiSpace c = false ∧ c ≠ '_' := by
  have range : 33 ≤ c.toNat ∧ c.toNat < 128 ∧ c.toNat ≠ 95 := by
    simp only [isValueChar, Bool.or_eq_true, decide_eq_true_eq] at char
    rcases char with ((alphanum | rfl) | rfl) | rfl
    · change ((decide (65 ≤ c.val ∧ c.val ≤ 90) || (decide (97 ≤ c.val) && decide (c.val ≤ 122))) ||
        (decide (48 ≤ c.val) && decide (c.val ≤ 57))) = true at alphanum
      simp only [Bool.or_eq_true, Bool.and_eq_true, decide_eq_true_eq,
        UInt32.le_iff_toNat_le] at alphanum
      change ((65 ≤ c.toNat ∧ c.toNat ≤ 90) ∨ 97 ≤ c.toNat ∧ c.toNat ≤ 122) ∨
        48 ≤ c.toNat ∧ c.toNat ≤ 57 at alphanum
      omega
    all_goals decide
  refine ⟨by simpa [isAscii] using range.2.1, ?_, fun same => range.2.2 (by rw [same]; rfl)⟩
  have blank : c ≠ ' ' := fun same => absurd range.1 (by rw [same]; decide)
  simp only [isAsciiSpace, blank, decide_false, Bool.false_or, Bool.and_eq_false_iff,
    decide_eq_false_iff_not]
  omega

theorem isAscii_of_isAsciiSpace {c : Char} (space : isAsciiSpace c = true) : isAscii c = true := by
  simp only [isAsciiSpace, Bool.or_eq_true, Bool.and_eq_true, decide_eq_true_eq] at space
  rcases space with rfl | ⟨_, last⟩
  · decide
  · simp only [isAscii, decide_eq_true_eq]
    omega

theorem underscoresJoin_of_not_mem (afterDigit : Bool) {text : List Char} (absent : '_' ∉ text) :
    underscoresJoin afterDigit text = true := by
  induction text generalizing afterDigit with
  | nil => rfl
  | cons c rest ih =>
    have here : c ≠ '_' := fun same => absent (by simp [same])
    rw [underscoresJoin, if_neg here]
    exact ih _ fun member => absent (by simp [member])

theorem dropWhile_front {p : Char → Bool} {front text back : List Char} (before : front.all p)
    (stop : ∃ c ∈ text.head?, p c = false) : (front ++ text ++ back).dropWhile p = text ++ back := by
  obtain ⟨c, first, stop⟩ := stop
  obtain ⟨rest, rfl⟩ := List.head?_eq_some_iff.mp first
  rw [List.append_assoc, List.dropWhile_append_of_pos (List.all_eq_true.mp before),
    List.cons_append, List.dropWhile_cons_of_neg (by simp [stop])]

/-- A text that neither begins nor ends with a space is what is left without spaces. -/
theorem strip_spaces {front text back : List Char} (before : front.all isAsciiSpace)
    (first : ∃ c ∈ text.head?, isAsciiSpace c = false)
    (last : ∃ c ∈ text.getLast?, isAsciiSpace c = false) (after : back.all isAsciiSpace) :
    strip (front ++ text ++ back) = text := by
  have reversed : (back.reverse ++ text.reverse ++ []).dropWhile isAsciiSpace = text.reverse ++ [] :=
    dropWhile_front (by simpa using after) (by rwa [List.head?_reverse])
  rw [List.append_nil, List.append_nil, ← List.reverse_append] at reversed
  rw [strip, dropWhile_front before first, List.rdropWhile, reversed, List.reverse_reverse]

theorem spaces_ascii {text : List Char} (spaces : text.all isAsciiSpace = true) :
    text.all isAscii = true := by
  rw [List.all_eq_true] at spaces ⊢
  exact fun c member => isAscii_of_isAsciiSpace (spaces c member)

theorem chars_ascii {text : List Char} (chars : text.all isValueChar = true) :
    text.all isAscii = true := by
  rw [List.all_eq_true] at chars ⊢
  exact fun c member => (isValueChar_class (chars c member)).1

theorem chars_ends {text : List Char} (chars : text.all isValueChar = true) (nonempty : text ≠ []) :
    (∃ c ∈ text.head?, isAsciiSpace c = false) ∧ ∃ c ∈ text.getLast?, isAsciiSpace c = false := by
  rw [List.all_eq_true] at chars
  constructor
  · exact ⟨_, List.head?_eq_some_head nonempty,
      (isValueChar_class (chars _ (List.head_mem nonempty))).2.1⟩
  · exact ⟨_, List.getLast?_eq_some_getLast nonempty,
      (isValueChar_class (chars _ (List.getLast_mem nonempty))).2.1⟩

theorem pyFloat_of_ascii {text : List Char} (ascii : text.all isAscii = true) :
    pyFloat text = if underscoresJoin false (strip text) then
      (literal ((strip text).filter (· ≠ '_'))).map FloatValue.double else none := by
  have whole : asciiText text = some text := if_pos ascii
  simp only [pyFloat, whole, Option.bind_eq_bind, Option.bind_some]

/-- A value is read as Prometheus writes it, with spaces around it or without. -/
theorem pyFloat_of_parseFloat {front text back : List Char} {x : FloatValue}
    (before : front.all isAsciiSpace) (read : parseFloat text = some x)
    (after : back.all isAsciiSpace) : pyFloat (front ++ text ++ back) = some x.double := by
  obtain ⟨chars, value, nonempty⟩ := parseFloat_chars read
  obtain ⟨first, last⟩ := chars_ends chars nonempty
  have ascii : (front ++ text ++ back).all isAscii = true := by
    simp only [List.all_append, spaces_ascii before, chars_ascii chars, spaces_ascii after,
      Bool.and_self]
  have other : ∀ c ∈ text, c ≠ '_' := fun c member =>
    (isValueChar_class (List.all_eq_true.mp chars c member)).2.2
  have absent : '_' ∉ text := fun member => other _ member rfl
  have kept : text.filter (· ≠ '_') = text := by
    rw [List.filter_eq_self]
    exact fun c member => by simpa using other c member
  rw [pyFloat_of_ascii ascii, strip_spaces before first last after,
    underscoresJoin_of_not_mem false absent, if_pos rfl, kept, value,
    Option.map_some]

/-! ### What is no number -/

theorem mem_of_mapM {f : Char → Option Char} {text ys : List Char} (mapped : text.mapM f = some ys)
    {c : Char} (member : c ∈ text) (kept : f c = some c) : c ∈ ys := by
  induction text generalizing ys with
  | nil => simp at member
  | cons d rest ih =>
    simp only [List.mapM_cons, Option.bind_eq_bind] at mapped
    obtain ⟨y, first, mapped⟩ := Option.bind_eq_some_iff.mp mapped
    obtain ⟨others, later, mapped⟩ := Option.bind_eq_some_iff.mp mapped
    obtain rfl := Option.some.inj mapped
    rcases List.mem_cons.mp member with rfl | inside
    · simp [Option.some.inj (kept.symm.trans first)]
    · exact List.mem_cons_of_mem _ (ih later inside)

theorem mem_strip {text : List Char} {c : Char} (member : c ∈ text) (kept : isAsciiSpace c = false) :
    c ∈ strip text := by
  have mem_dropWhile (xs : List Char) (inside : c ∈ xs) : c ∈ xs.dropWhile isAsciiSpace := by
    rw [← List.takeWhile_append_dropWhile (p := isAsciiSpace) (l := xs), List.mem_append] at inside
    rcases inside with dropped | left
    · simp [List.mem_takeWhile_imp dropped] at kept
    · exact left
  rw [strip, List.rdropWhile, List.mem_reverse]
  exact mem_dropWhile _ (List.mem_reverse.mpr (mem_dropWhile _ member))

/-- No number has such a character, wherever it stands. -/
theorem pyFloat_none_of_mem {text : List Char} {c : Char} (member : c ∈ text) (ascii : c.toNat < 127)
    (notSpace : isAsciiSpace c = false) (notUnderscore : c ≠ '_') (other : isValueChar c = false) :
    pyFloat text = none := by
  by_contra some
  obtain ⟨x, read⟩ := Option.ne_none_iff_exists'.mp some
  obtain ⟨chars, found, read⟩ := Option.bind_eq_some_iff.mp read
  have inside : c ∈ chars := by
    unfold asciiText at found
    split at found
    case isTrue => exact Option.some.inj found ▸ member
    case isFalse => exact mem_of_mapM found member (if_pos ascii)
  simp only at read
  split at read
  case isTrue =>
    have left : c ∈ (strip chars).filter (· ≠ '_') :=
      List.mem_filter.mpr ⟨mem_strip inside notSpace, by simpa using notUnderscore⟩
    obtain ⟨y, value, _⟩ := Option.map_eq_some_iff.mp read
    simp [literal_chars value c left] at other
  case isFalse => contradiction

theorem pyFloat_spaces {text : List Char} (spaces : text.all isAsciiSpace) : pyFloat text = none := by
  have nothing : strip text = [] := by
    rw [strip, List.dropWhile_eq_nil_iff.mpr (List.all_eq_true.mp spaces), List.rdropWhile_nil]
  rw [pyFloat_of_ascii (spaces_ascii spaces), nothing]
  rfl

theorem pyFloat_apart {front text gap more back : List Char} (before : front.all isAsciiSpace)
    (chars : text.all isValueChar) (nonempty : text ≠ []) (spaces : gap.all isAsciiSpace)
    (apart : gap ≠ []) (chars' : more.all isValueChar) (nonempty' : more ≠ [])
    (after : back.all isAsciiSpace) : pyFloat (front ++ (text ++ gap ++ more) ++ back) = none := by
  have ascii : (front ++ (text ++ gap ++ more) ++ back).all isAscii = true := by
    simp only [List.all_append, spaces_ascii before, chars_ascii chars, spaces_ascii spaces,
      chars_ascii chars', spaces_ascii after, Bool.and_self]
  obtain ⟨c, head, notSpace⟩ := (chars_ends chars nonempty).1
  obtain ⟨d, last, notSpace'⟩ := (chars_ends chars' nonempty').2
  have first : ∃ c ∈ (text ++ gap ++ more).head?, isAsciiSpace c = false :=
    ⟨c, by simp_all, notSpace⟩
  have final : ∃ c ∈ (text ++ gap ++ more).getLast?, isAsciiSpace c = false :=
    ⟨d, by simp_all, notSpace'⟩
  rw [pyFloat_of_ascii ascii, strip_spaces before first final after]
  split
  case isFalse => rfl
  case isTrue =>
    -- a space of the gap is left, and no literal has one
    obtain ⟨e, inside⟩ := List.exists_mem_of_ne_nil gap apart
    have space := List.all_eq_true.mp spaces e inside
    have left : e ∈ (text ++ gap ++ more).filter (· ≠ '_') := by
      have other : e ≠ '_' := by
        rintro rfl
        contradiction
      simp [inside, other]
    by_contra read
    obtain ⟨x, read⟩ := Option.ne_none_iff_exists'.mp read
    obtain ⟨y, value, _⟩ := Option.map_eq_some_iff.mp read
    simp [(isValueChar_class (literal_chars value e left)).2.1] at space

end Foundation.PythonFloat
