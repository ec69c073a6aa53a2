import Mathlib.Algebra.Order.BigOperators.Group.List
import Mathlib.Data.List.DropRight
import TelemetryEngine.Foundation.BinaryFloat
import TelemetryEngine.Foundation.Datetime
import TelemetryEngine.Foundation.Decimal
import TelemetryEngine.Foundation.Rounding

/-! Floating-point numbers as text, as the parsers of Go take them, and their sums. What a text
says is exact; `double` makes a `Float64` of it. The sign of a zero is left out. -/
namespace Foundation.FloatText
open Foundation.BinaryFloat Foundation.BinaryFloat.Format Foundation.Calendar
open Foundation.Decimal Foundation.Rounding

inductive FloatValue where
  | finite (x : ℚ)
  | infinite (negative : Bool)
  | nan
  deriving DecidableEq, Repr

/-- What `int` raises: of a NaN and of an infinity. -/
inductive IntError where
  | value
  | overflow
  deriving DecidableEq, Repr

namespace FloatValue

def isFinite : FloatValue → Bool
  | finite _ => true
  | _ => false

def finitePart : FloatValue → ℚ
  | finite x => x
  | _ => 0

/-- The nearest float, which is an infinity for a number beyond them all. -/
def double : FloatValue → FloatValue
  | finite x =>
    if |binary64.round x| < binary64.overflow then finite (binary64.round x)
    else infinite (x < 0)
  | x => x

def add : FloatValue → FloatValue → FloatValue
  | finite x, finite y => double (finite (x + y))
  | finite _, y => y
  | x, finite _ => x
  | infinite left, infinite right => if left = right then infinite left else nan
  | _, _ => nan

def toInt : FloatValue → Except IntError Int
  | finite x => .ok (truncate x)
  | infinite _ => .error .overflow
  | nan => .error .value

theorem eq_finite {x : FloatValue} (finite : x.isFinite = true) : x = .finite x.finitePart := by
  cases x with
  | finite x => rfl
  | _ => contradiction

theorem add_isFinite {x y : FloatValue} (sum : (x.add y).isFinite = true) :
    x.isFinite = true ∧ y.isFinite = true := by
  cases x <;> cases y <;> simp_all [add, isFinite]
  split_ifs at sum

/-- The sums on the way when numbers are added up from a start. -/
def sums : ℚ → List ℚ → List ℚ
  | _, [] => []
  | start, x :: rest => binary64.round (start + x) :: sums (binary64.round (start + x)) rest

/-- What the roundings add to them in all. -/
def rounding : ℚ → List ℚ → ℚ
  | _, [] => 0
  | start, x :: rest =>
    binary64.round (start + x) - (start + x) + rounding (binary64.round (start + x)) rest

/-- No sum on the way is beyond the floats. -/
def InRange (start : ℚ) (xs : List ℚ) : Prop := ∀ sum ∈ sums start xs, |sum| < binary64.overflow

/-- A sum stays finite when its terms are and it is in range on the way. -/
theorem foldl_add_isFinite {start : ℚ} {values : List FloatValue} :
    (values.foldl add (finite start)).isFinite = true ↔
      (∀ x ∈ values, x.isFinite = true) ∧ InRange start (values.map finitePart) := by
  have spoilt {x : FloatValue} {rest : List FloatValue}
      (whole : (rest.foldl add x).isFinite = true) : x.isFinite = true := by
    induction rest generalizing x with
    | nil => exact whole
    | cons y rest ih => exact (add_isFinite (ih whole)).1
  induction values generalizing start with
  | nil => simp [isFinite, InRange, sums]
  | cons x rest ih =>
    rw [List.foldl_cons, List.forall_mem_cons, InRange, List.map_cons, sums, List.forall_mem_cons]
    constructor
    · intro whole
      have first := spoilt whole
      obtain ⟨y, rfl⟩ : ∃ y, x = finite y := ⟨_, eq_finite (add_isFinite first).2⟩
      by_cases small : |binary64.round (start + y)| < binary64.overflow
      · rw [add, double, if_pos small] at whole
        obtain ⟨later, ranged⟩ := ih.mp whole
        exact ⟨⟨rfl, later⟩, small, ranged⟩
      · rw [add, double, if_neg small] at first
        contradiction
    · rintro ⟨⟨here, later⟩, small, ranged⟩
      rw [eq_finite here, add, double, if_pos small]
      exact ih.mpr ⟨later, ranged⟩

theorem foldl_add_finitePart {start : ℚ} {values : List FloatValue}
    (whole : (values.foldl add (finite start)).isFinite = true) :
    (values.foldl add (finite start)).finitePart =
      start + (values.map finitePart).sum + rounding start (values.map finitePart) := by
  induction values generalizing start with
  | nil => simp [finitePart, rounding]
  | cons x rest ih =>
    obtain ⟨terms, ranged⟩ := foldl_add_isFinite.mp whole
    obtain ⟨y, rfl⟩ : ∃ y, x = finite y := ⟨_, eq_finite (terms x List.mem_cons_self)⟩
    rw [InRange, List.map_cons, sums, List.forall_mem_cons, finitePart] at ranged
    rw [List.foldl_cons, add, double, if_pos ranged.1] at whole ⊢
    rw [ih whole, List.map_cons, List.sum_cons, finitePart, rounding]
    ring

theorem intCast_inRange {n : ℤ} (held : |n| ≤ 2 ^ 53) : |(n : ℚ)| < binary64.overflow :=
  calc |(n : ℚ)| = ((|n| : ℤ) : ℚ) := by rw [Int.cast_abs]
    _ ≤ ((2 ^ 53 : ℤ) : ℚ) := by exact_mod_cast held
    _ < binary64.overflow := by decide +kernel

theorem double_intCast {n : ℤ} (held : |n| ≤ 2 ^ 53) : double (finite n) = finite n := by
  have exact : binary64.round (n : ℚ) = n := round_intCast held
  rw [double, exact, if_pos (intCast_inRange held)]

/-- Sums of integers are exact where the significand holds all that is added. -/
theorem integers_exact {start : ℤ} {xs : List ℤ} (small : |start| + (xs.map abs).sum ≤ 2 ^ 53) :
    InRange start (xs.map fun n : ℤ => (n : ℚ)) ∧ rounding start (xs.map fun n : ℤ => (n : ℚ)) = 0 := by
  induction xs generalizing start with
  | nil => simp [InRange, sums, rounding]
  | cons n rest ih =>
    rw [List.map_cons, List.sum_cons] at small
    have here := abs_add_le start n
    have others : 0 ≤ (rest.map abs).sum := List.sum_nonneg (by simp)
    have held : |start + n| ≤ 2 ^ 53 := by omega
    have exact : binary64.round ((start : ℚ) + n) = ((start + n : ℤ) : ℚ) := by
      rw [← Int.cast_add]
      exact round_intCast held
    obtain ⟨ranged, kept⟩ := @ih (start + n) (by omega)
    rw [InRange, List.map_cons, sums, rounding, exact, List.forall_mem_cons, kept]
    exact ⟨⟨intCast_inRange held, ranged⟩, by simp⟩

theorem toInt_eq_ok {x : FloatValue} {n : Int} :
    x.toInt = .ok n ↔ x.isFinite = true ∧ truncate x.finitePart = n := by
  cases x <;> simp [toInt, isFinite, finitePart]

end FloatValue

/-! ### Literals -/

def signed : List Char → Bool × List Char
  | '-' :: rest => (true, rest)
  | '+' :: rest => (false, rest)
  | rest => (false, rest)

def exponentPower : List Char → Option ℤ
  | [] => some 0
  | _ :: digits => parseInt digits

/-- Digits with a point that may stand anywhere among them, and an exponent. -/
def decimal (text : List Char) : Option ℚ := do
  let (mantissa, exponent) := text.span fun c => c ≠ 'e' && c ≠ 'E'
  let (whole, fraction) := mantissa.span (· ≠ '.')
  let power ← exponentPower exponent
  let digits ← parseNat (whole ++ fraction.tail)
  return digits * 10 ^ (power - fraction.tail.length)

/-- A number, an infinity or a NaN, in letters of either case. -/
def literal (text : List Char) : Option FloatValue :=
  let (negative, rest) := signed text
  let word := rest.map Char.toLower
  if word = "inf".toList ∨ word = "infinity".toList then some (.infinite negative)
  else if word = "nan".toList then some .nan
  else (decimal rest).map fun x => .finite (if negative then -x else x)

def isValueChar (c : Char) : Bool := c.isAlphanum || c = '.' || c = '+' || c = '-'

/-- `parseFloat` of Prometheus: no underscores, no hexadecimal, no sign before a NaN. -/
def parseFloat (text : List Char) : Option FloatValue :=
  if text.all isValueChar ∧ (literal text = some .nan → text.map Char.toLower = "nan".toList) then
    literal text
  else none

/-! ### What numbers are written with -/

theorem isAlpha_of_toLower {c : Char} (alpha : c.toLower.isAlpha = true) : c.isAlpha = true := by
  by_cases upper : 'A'.val ≤ c.val ∧ c.val ≤ 'Z'.val
  · have here : c.isUpper = true := decide_eq_true upper
    exact Bool.or_eq_true_iff.mpr (.inl here)
  · have same : c.toLower = c := dif_neg upper
    rwa [same] at alpha

theorem word_chars {text word : List Char} (letters : word.all Char.isAlpha = true)
    (same : text.map Char.toLower = word) : ∀ c ∈ text, isValueChar c = true := by
  intro c member
  have lower : c.toLower ∈ word := same ▸ List.mem_map_of_mem member
  have alpha := isAlpha_of_toLower (List.all_eq_true.mp letters _ lower)
  simp [isValueChar, Char.isAlphanum, alpha]

theorem parseNat_chars {text : List Char} {n : ℕ} (read : parseNat text = some n) :
    ∀ c ∈ text, isValueChar c = true := by
  unfold parseNat at read
  split at read
  case isTrue digits =>
    intro c member
    simp [isValueChar, Char.isAlphanum, List.all_eq_true.mp digits.2 c member]
  case isFalse => contradiction

theorem signed_chars {text : List Char} (rest : ∀ c ∈ (signed text).2, isValueChar c = true) :
    ∀ c ∈ text, isValueChar c = true := by
  unfold signed at rest
  split at rest
  · exact List.forall_mem_cons.mpr ⟨by decide, rest⟩
  · exact List.forall_mem_cons.mpr ⟨by decide, rest⟩
  · exact rest

theorem parseInt_eq (text : List Char) : parseInt text =
    (parseNat (signed text).2).map fun n : ℕ => if (signed text).1 then -(n : ℤ) else n := by
  unfold parseInt
  split
  case h_1 digits => cases found : parseNat digits <;> simp [signed, found]
  case h_2 digits => cases found : parseNat digits <;> simp [signed, found]
  case h_3 minus plus =>
    have unsigned : signed text = (false, text) := by
      unfold signed
      split
      · exact absurd rfl (minus _)
      · exact absurd rfl (plus _)
      · rfl
    rw [unsigned]
    rfl

theorem parseInt_chars {text : List Char} {n : ℤ} (read : parseInt text = some n) :
    ∀ c ∈ text, isValueChar c = true := by
  rw [parseInt_eq] at read
  obtain ⟨m, digits, _⟩ := Option.map_eq_some_iff.mp read
  exact signed_chars (parseNat_chars digits)

theorem cut_chars {p : Char → Bool} {text : List Char} (cut : ∀ c, p c = false → isValueChar c = true)
    (front : ∀ c ∈ text.takeWhile p, isValueChar c = true)
    (back : ∀ c ∈ (text.dropWhile p).tail, isValueChar c = true) :
    ∀ c ∈ text, isValueChar c = true := by
  induction text with
  | nil => simp
  | cons c rest ih =>
    cases here : p c with
    | true =>
      simp only [List.takeWhile_cons, List.dropWhile_cons, here, if_true, List.forall_mem_cons] at front back
      exact List.forall_mem_cons.mpr ⟨front.1, ih front.2 back⟩
    | false =>
      simp only [List.dropWhile_cons, here, Bool.false_eq_true, if_false, List.tail_cons] at back
      exact List.forall_mem_cons.mpr ⟨cut c here, back⟩

theorem exponent_chars {text : List Char} {n : ℤ} (read : exponentPower text = some n) :
    ∀ c ∈ text.tail, isValueChar c = true := by
  cases text with
  | nil => simp
  | cons c digits => exact parseInt_chars read

theorem decimal_chars {text : List Char} {x : ℚ} (read : decimal text = some x) :
    ∀ c ∈ text, isValueChar c = true := by
  simp only [decimal, List.span_eq_takeWhile_dropWhile, Option.bind_eq_bind] at read
  obtain ⟨power, exponent, read⟩ := Option.bind_eq_some_iff.mp read
  obtain ⟨n, digits, _⟩ := Option.bind_eq_some_iff.mp read
  have digits := parseNat_chars digits
  rw [List.forall_mem_append] at digits
  refine cut_chars (fun c letter => ?_) (cut_chars (fun c point => ?_) digits.1 digits.2)
    (exponent_chars exponent)
  · obtain rfl | rfl : c = 'e' ∨ c = 'E' := by
      by_contra neither
      simp_all
    all_goals decide
  · obtain rfl : c = '.' := by simpa using point
    decide

theorem literal_chars {text : List Char} {x : FloatValue} (read : literal text = some x) :
    ∀ c ∈ text, isValueChar c = true := by
  apply signed_chars
  simp only [literal] at read
  split_ifs at read with infinite nan
  · rcases infinite with same | same
    · exact word_chars (by decide) same
    · exact word_chars (by decide) same
  · exact word_chars (by decide) nan
  all_goals
    obtain ⟨y, number, _⟩ := Option.map_eq_some_iff.mp read
    exact decimal_chars number

theorem toLower_digit {c : Char} (digit : c.isDigit = true) : c.toLower = c := by
  have below : c.toNat ≤ 57 := by
    have bounds : 48 ≤ c.toNat ∧ c.toNat ≤ 57 := by
      simpa [Char.isDigit, UInt32.le_iff_toNat_le] using digit
    exact bounds.2
  apply dif_neg
  rintro ⟨upper, _⟩
  have above : 65 ≤ c.toNat := UInt32.le_iff_toNat_le.mp upper
  omega

theorem decimal_of_digits {text : List Char} {n : ℕ} (digits : ∀ c ∈ text, c.isDigit = true)
    (read : parseNat text = some n) : decimal text = some (n : ℚ) := by
  have other (c d : Char) (letter : d.isDigit = false) (member : c ∈ text) : c ≠ d := by
    rintro rfl
    simp [digits c member] at letter
  have unscaled : ∀ c ∈ text, (c ≠ 'e' && c ≠ 'E') = true := by
    intro c member
    simp [other c 'e' (by decide) member, other c 'E' (by decide) member]
  have whole : ∀ c ∈ text, decide (c ≠ '.') = true := by
    intro c member
    simp [other c '.' (by decide) member]
  simp only [decimal, List.span_eq_takeWhile_dropWhile, List.takeWhile_eq_self_iff.mpr unscaled,
    List.dropWhile_eq_nil_iff.mpr unscaled, List.takeWhile_eq_self_iff.mpr whole,
    List.dropWhile_eq_nil_iff.mpr whole, List.tail_nil, List.append_nil, read, exponentPower]
  simp

theorem parseFloat_chars {text : List Char} (read : parseFloat text = some x) :
    text.all isValueChar = true ∧ literal text = some x ∧ text ≠ [] := by
  unfold parseFloat at read
  split at read
  case isTrue legal =>
    refine ⟨legal.1, read, ?_⟩
    rintro rfl
    contradiction
  case isFalse => contradiction

/-- Integers are read as what they are. -/
theorem parseFloat_of_parseInt {text : List Char} {n : ℤ} (read : parseInt text = some n) :
    parseFloat text = some (.finite n) := by
  rw [parseInt_eq] at read
  obtain ⟨m, digits, value⟩ := Option.map_eq_some_iff.mp read
  have plain : ∀ c ∈ (signed text).2, c.isDigit = true := by
    unfold parseNat at digits
    split at digits
    case isTrue all => exact List.all_eq_true.mp all.2
    case isFalse => contradiction
  have noWord (word : List Char) (letter : 'n' ∈ word) : (signed text).2.map Char.toLower ≠ word := by
    rintro rfl
    obtain ⟨c, member, lower⟩ := List.mem_map.mp letter
    rw [toLower_digit (plain c member)] at lower
    subst lower
    exact absurd (plain _ member) (by decide)
  have value : literal text = some (.finite n) := by
    simp only [literal, decimal_of_digits plain digits, noWord "inf".toList (by decide),
      noWord "infinity".toList (by decide), noWord "nan".toList (by decide), or_self, if_false,
      Option.map_some, ← value]
    cases (signed text).1 <;> simp
  rw [parseFloat, if_pos ⟨List.all_eq_true.mpr (literal_chars value), by simp [value]⟩, value]

end Foundation.FloatText
