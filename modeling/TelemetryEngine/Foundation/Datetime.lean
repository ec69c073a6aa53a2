import TelemetryEngine.Foundation.Calendar

/-! Civil dates and stamps read back. Readers hold the years 1 to 9999. What `stamp` and
`isoFormat` write of an instant in that range, they read as its second and its date. -/
namespace Foundation.Calendar

/-! ### The range -/

def minOrdinal : Int := 1
def maxOrdinal : Int := 3652059

/-- From 0001-01-01T00:00:00 to the last microsecond of 9999-12-31. -/
def InRange (t : Int) : Prop :=
  minOrdinal ≤ dayNumber t + epochOrdinal ∧ dayNumber t + epochOrdinal ≤ maxOrdinal

instance (t : Int) : Decidable (InRange t) := inferInstanceAs (Decidable (_ ∧ _))

def daysInMonth (year : Int) (month : Nat) : Nat :=
  ((monthLengths (isLeap year))[month - 1]?).getD 0

/-- The checks of a date's constructor. -/
@[mk_iff]
structure Date.Valid (date : Date) : Prop where
  year : 1 ≤ date.year ∧ date.year ≤ 9999
  month : 1 ≤ date.month ∧ date.month ≤ 12
  day : 1 ≤ date.day ∧ date.day ≤ daysInMonth date.year date.month

instance (date : Date) : Decidable date.Valid := decidable_of_iff' _ date.valid_iff

theorem monthDay_in_month (inside : n < lengths.sum) :
    (monthDay lengths n).2 ≤ (lengths[(monthDay lengths n).1 - 1]?).getD 0 := by
  induction lengths generalizing n with
  | nil => simp at inside
  | cons length rest ih =>
    unfold monthDay
    split
    case isTrue here => simpa using Nat.succ_le_of_lt here
    case isFalse later =>
      simp only [List.sum_cons] at inside
      obtain ⟨month, _, _⟩ := monthDay_spec rest (n - length)
      have shift : (monthDay rest (n - length)).1 + 1 - 1 =
          (monthDay rest (n - length)).1 - 1 + 1 := by omega
      simpa [shift] using @ih (n - length) (by omega)

theorem year_le_of_ordinal (date : Date) (bound : date.toOrdinal ≤ maxOrdinal) :
    date.year ≤ 9999 := by
  simp only [Date.toOrdinal, daysBeforeYear, maxOrdinal] at bound
  omega

theorem ofOrdinal_valid (low : minOrdinal ≤ ordinal) (high : ordinal ≤ maxOrdinal) :
    (Date.ofOrdinal ordinal).Valid := by
  have last : (Date.ofOrdinal ordinal).year ≤ 9999 :=
    year_le_of_ordinal _ ((toOrdinal_ofOrdinal ordinal).le.trans high)
  have months := (ofOrdinal_bounds ordinal).1
  simp only [minOrdinal] at low
  simp only [Date.ofOrdinal] at last months ⊢
  split at last
  case isTrue december =>
    rw [if_pos december]
    exact ⟨⟨by simp only; omega, last⟩, by simp, by simp [daysInMonth, monthLengths]⟩
  case isFalse ordinary =>
    rw [if_neg ordinary] at months ⊢
    refine ⟨⟨by simp only; omega, last⟩, ⟨(monthDay_spec _ _).1, months⟩,
      ⟨(monthDay_spec _ _).2.1, monthDay_in_month ?_⟩⟩
    have total := (monthLengths_bounds
      (isLeap ((ordinal - 1) / 146097 * 400 + (ordinal - 1) % 146097 / 36524 * 100 +
        (ordinal - 1) % 146097 % 36524 / 1461 * 4 +
        (ordinal - 1) % 146097 % 36524 % 1461 / 365 + 1))).2.1
    omega

theorem dateOf_valid {t : Int} (inside : InRange t) : (dateOf t).Valid :=
  ofOrdinal_valid inside.1 inside.2

/-! ### Digits -/

/-- The zeros of the decimal digits of Unicode. Nine digits follow each. -/
def decimalZeros : List Nat :=
  [48, 1632, 1776, 1984, 2406, 2534, 2662, 2790, 2918, 3046, 3174, 3302, 3430, 3558, 3664, 3792,
    3872, 4160, 4240, 6112, 6160, 6470, 6608, 6784, 6800, 6992, 7088, 7232, 7248, 42528, 43216,
    43264, 43472, 43504, 43600, 44016, 65296, 66720, 68912, 69734, 69872, 69942, 70096, 70384,
    70736, 70864, 71248, 71360, 71472, 71904, 72016, 72784, 73040, 73120, 92768, 92864, 93008,
    120782, 120792, 120802, 120812, 120822, 123200, 123632, 125264, 130032]

/-- The value of a digit `\d` matches. -/
def decimalValue (c : Char) : Option Nat :=
  (decimalZeros.find? fun first => first ≤ c.toNat ∧ c.toNat < first + 10).map fun first =>
    c.toNat - first

def isDecimal (c : Char) : Bool := (decimalValue c).isSome

/-- The value of a digit `[0-9]` matches. -/
def asciiValue (c : Char) : Option Nat := if c.isDigit then some (c.toNat - 48) else none

theorem decimalValue_digitChar : ∀ n < 10, decimalValue (Nat.digitChar n) = some n := by
  decide

theorem asciiValue_digitChar : ∀ n < 10, asciiValue (Nat.digitChar n) = some n := by
  decide

theorem isDecimal_digitChar {d : Nat} (small : d < 10) : isDecimal (Nat.digitChar d) = true := by
  rw [isDecimal, decimalValue_digitChar d small, Option.isSome_some]

def number (value : Char → Option Nat) (digits : List Char) : Option Nat :=
  digits.foldlM (fun n c => (value c).map (10 * n + ·)) 0

theorem number_concat (value : Char → Option Nat) (digits : List Char) (c : Char) :
    number value (digits ++ [c]) =
      (number value digits).bind fun n => (value c).map (10 * n + ·) := by
  simp [number, List.foldlM_append]

theorem number_pad {value : Char → Option Nat} (reads : ∀ n < 10, value (Nat.digitChar n) = some n)
    (width : Nat) (small : n < 10 ^ width) : number value (pad width n) = some n := by
  induction width generalizing n with
  | zero =>
    obtain rfl : n = 0 := by omega
    rfl
  | succ width ih =>
    rw [Nat.pow_succ] at small
    rw [pad, number_concat, ih (by omega), reads _ (Nat.mod_lt _ (by omega))]
    simp only [Option.bind_some, Option.map_some, Option.some.injEq]
    omega

/-! ### Dates -/

/-- `date.fromisoformat`, of ten characters with dashes where they belong. -/
def Date.fromIsoFormat : List Char → Option Date
  | [y₁, y₂, y₃, y₄, '-', m₁, m₂, '-', d₁, d₂] => do
    let year ← number asciiValue [y₁, y₂, y₃, y₄]
    let month ← number asciiValue [m₁, m₂]
    let day ← number asciiValue [d₁, d₂]
    if (⟨year, month, day⟩ : Date).Valid then some ⟨year, month, day⟩ else none
  | _ => none

theorem pad_two (n : Nat) : pad 2 n = [Nat.digitChar (n / 10 % 10), Nat.digitChar (n % 10)] := rfl

theorem pad_four (n : Nat) : pad 4 n = [Nat.digitChar (n / 10 / 10 / 10 % 10),
    Nat.digitChar (n / 10 / 10 % 10), Nat.digitChar (n / 10 % 10), Nat.digitChar (n % 10)] := rfl

theorem yearChars_of_valid {date : Date} (valid : date.Valid) :
    yearChars date.year = pad 4 date.year.toNat := by
  have era : date.year / 10000 = 0 := by
    have := valid.year
    omega
  have same : date.year % 10000 = date.year := by
    have := valid.year
    omega
  simp [yearChars, era, same, eraMark]

theorem daysInMonth_le (year : Int) (month : Nat) : daysInMonth year month ≤ 31 := by
  unfold daysInMonth
  cases found : (monthLengths (isLeap year))[month - 1]? with
  | none => simp
  | some length => exact (monthLengths_bounds _).1 length (List.mem_of_getElem? found)

theorem Date.Valid.short {date : Date} (valid : date.Valid) : date.day ≤ 31 :=
  valid.day.2.trans (daysInMonth_le _ _)

theorem fromIsoFormat_isoFormat {date : Date} (valid : date.Valid) :
    Date.fromIsoFormat date.isoFormat = some date := by
  have short := valid.short
  have year : number asciiValue (pad 4 date.year.toNat) = some date.year.toNat :=
    number_pad asciiValue_digitChar 4 (by have := valid.year; omega)
  have month : number asciiValue (pad 2 date.month) = some date.month :=
    number_pad asciiValue_digitChar 2 (by have := valid.month; omega)
  have day : number asciiValue (pad 2 date.day) = some date.day :=
    number_pad asciiValue_digitChar 2 (by omega)
  have same : (date.year.toNat : Int) = date.year := Int.toNat_of_nonneg (by have := valid.year; omega)
  rw [pad_four] at year
  rw [pad_two] at month day
  rw [Date.isoFormat, yearChars_of_valid valid, pad_four, pad_two, pad_two]
  simp [Date.fromIsoFormat, year, month, day, same, valid]

/-! ### Stamps -/

/-- A field of two digits. The expressions of `_strptime` spell its first digit in ASCII,
and its second where not every digit may follow the first. -/
def field (lo hi : Nat) (a b : Char) : Option Nat := do
  let tens ← asciiValue a
  let value := if lo ≤ 10 * tens ∧ 10 * tens + 9 ≤ hi then decimalValue else asciiValue
  let units ← value b
  if lo ≤ 10 * tens + units ∧ 10 * tens + units ≤ hi then some (10 * tens + units) else none

theorem field_pad {lo hi : Nat} (inside : lo ≤ n ∧ n ≤ hi) (two : n < 100) :
    field lo hi (Nat.digitChar (n / 10 % 10)) (Nat.digitChar (n % 10)) = some n := by
  have units := Nat.mod_lt n (show 0 < 10 by omega)
  have whole : 10 * (n / 10 % 10) + n % 10 = n := by omega
  have tens := asciiValue_digitChar (n / 10 % 10) (Nat.mod_lt _ (by omega))
  simp [field, tens, apply_ite (fun value : Char → Option Nat => value (Nat.digitChar (n % 10))),
    decimalValue_digitChar _ units, asciiValue_digitChar _ units, whole, inside]

/-- `datetime.strptime` with `%Y%m%dT%H%M%S`, of as many characters as a stamp has. -/
def strptime : List Char → Option Int
  | [y₁, y₂, y₃, y₄, m₁, m₂, d₁, d₂, 'T', h₁, h₂, n₁, n₂, s₁, s₂] => do
    let year ← number decimalValue [y₁, y₂, y₃, y₄]
    let month ← field 1 12 m₁ m₂
    let day ← field 1 31 d₁ d₂
    let h ← field 0 23 h₁ h₂
    let m ← field 0 59 n₁ n₂
    let s ← field 0 61 s₁ s₂
    let date : Date := ⟨year, month, day⟩
    if date.Valid ∧ s ≤ 59 then
      some (startOfDay (date.toOrdinal - epochOrdinal) + (h * 3600 + m * 60 + s : Nat) * second)
    else none
  | _ => none

/-- A stamp is read back as the second it was made from. -/
theorem strptime_stamp {t : Int} (inside : InRange t) : strptime (stamp t) = some (floorSecond t) := by
  have valid := dateOf_valid inside
  have short := valid.short
  have bound := secondOfDay_lt t
  have year : number decimalValue (pad 4 (dateOf t).year.toNat) = some (dateOf t).year.toNat :=
    number_pad decimalValue_digitChar 4 (by have := valid.year; omega)
  have same : ((dateOf t).year.toNat : Int) = (dateOf t).year :=
    Int.toNat_of_nonneg (by have := valid.year; omega)
  have month := @field_pad (dateOf t).month 1 12 valid.month (by have := valid.month; omega)
  have day := @field_pad (dateOf t).day 1 31 ⟨valid.day.1, short⟩ (by omega)
  have h := @field_pad (secondOfDay t / 3600) 0 23 (by omega) (by omega)
  have m := @field_pad (secondOfDay t / 60 % 60) 0 59 (by omega) (by omega)
  have s := @field_pad (secondOfDay t % 60) 0 61 (by omega) (by omega)
  have seconds : secondOfDay t / 3600 * 3600 + secondOfDay t / 60 % 60 * 60 + secondOfDay t % 60 =
      secondOfDay t := by omega
  have ordinal : (dateOf t).toOrdinal - epochOrdinal = dayNumber t := by
    rw [dateOf, toOrdinal_ofOrdinal]
    omega
  rw [pad_four] at year
  rw [stamp, yearChars_of_valid valid, pad_four, pad_two, pad_two, pad_two, pad_two, pad_two]
  simp only [List.cons_append, List.nil_append, strptime, year, month, day, h, m, s, same,
    Option.bind_eq_bind, Option.bind_some]
  rw [if_pos ⟨valid, by omega⟩, ordinal, seconds, floorSecond_eq, startOfDay]

end Foundation.Calendar
