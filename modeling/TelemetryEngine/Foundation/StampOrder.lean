import Mathlib.Algebra.BigOperators.Group.List.Basic
import Mathlib.Data.List.Induction
import Mathlib.Tactic.Tauto
import TelemetryEngine.Foundation.Datetime

/-! Dates and stamps in the order of characters. What `isoFormat` and `stamp` write of
the years 1 to 9999 has one length, so comparing texts compares instants, and a date is
read from its own text only. -/
namespace Foundation.Calendar

/-! ### Fields -/

/-- Texts of one length come first in the comparison. -/
theorem append_lt_append_iff {front front' back back' : List Char}
    (length : front.length = front'.length) :
    front ++ back < front' ++ back' ↔ front < front' ∨ front = front' ∧ back < back' := by
  induction front generalizing front' with
  | nil =>
    obtain rfl : front' = [] := List.length_eq_zero_iff.mp length.symm
    simp
  | cons c front ih =>
    cases front' with
    | nil => simp at length
    | cons c' front' =>
      have shorter : front.length = front'.length := by simpa using length
      simp only [List.cons_append, List.cons_lt_cons_iff, ih shorter, List.cons.injEq]
      tauto

theorem digitChar_lt_iff : ∀ m < 10, ∀ n < 10, (Nat.digitChar m < Nat.digitChar n ↔ m < n) := by
  decide

theorem pad_lt_iff (width : Nat) (hm : m < 10 ^ width) (hn : n < 10 ^ width) :
    pad width m < pad width n ↔ m < n := by
  induction width generalizing m n with
  | zero =>
    obtain rfl : m = 0 := by omega
    obtain rfl : n = 0 := by omega
    simp [pad]
  | succ width ih =>
    rw [Nat.pow_succ] at hm hn
    have tens := ih (m := m / 10) (n := n / 10) (by omega) (by omega)
    have units := digitChar_lt_iff _ (Nat.mod_lt m (by omega)) _ (Nat.mod_lt n (by omega))
    have same : pad width (m / 10) = pad width (n / 10) ↔ m / 10 = n / 10 :=
      ⟨pad_injective width (by omega) (by omega), congrArg _⟩
    rw [pad, pad, append_lt_append_iff (by simp [pad_length]), tens, same, List.cons_lt_cons_iff,
      units]
    simp only [List.not_lt_nil, and_false, or_false]
    omega

theorem pad_append (width low : Nat) (small : n < 10 ^ low) :
    pad width m ++ pad low n = pad (width + low) (m * 10 ^ low + n) := by
  induction low generalizing n with
  | zero =>
    obtain rfl : n = 0 := by omega
    simp [pad]
  | succ low ih =>
    rw [Nat.pow_succ] at small
    have tens : (m * 10 ^ (low + 1) + n) / 10 = m * 10 ^ low + n / 10 := by
      rw [Nat.pow_succ, ← Nat.mul_assoc]
      omega
    have units : (m * 10 ^ (low + 1) + n) % 10 = n % 10 := by
      rw [Nat.pow_succ, ← Nat.mul_assoc]
      omega
    rw [← Nat.add_assoc, pad, pad, tens, units, ← ih (by omega), List.append_assoc]

theorem digitChar_asciiValue (read : asciiValue c = some n) : n < 10 ∧ Nat.digitChar n = c := by
  unfold asciiValue at read
  split at read
  case isTrue digit =>
    obtain rfl := Option.some.inj read
    have bounds : 48 ≤ c.toNat ∧ c.toNat ≤ 57 := by
      simpa [Char.isDigit, UInt32.le_iff_toNat_le] using digit
    have small : c.toNat - 48 < 10 := by omega
    refine ⟨small, Char.toNat_inj.mp ?_⟩
    rw [Nat.toNat_digitChar_of_lt_ten small]
    omega
  case isFalse => contradiction

/-- The only text of a number with a given length. -/
theorem pad_of_number {digits : List Char} (read : number asciiValue digits = some n) :
    pad digits.length n = digits := by
  induction digits using List.reverseRecOn generalizing n with
  | nil => rfl
  | append_singleton front c ih =>
    rw [number_concat] at read
    obtain ⟨tens, before, last⟩ := Option.bind_eq_some_iff.mp read
    obtain ⟨units, digit, rfl⟩ := Option.map_eq_some_iff.mp last
    obtain ⟨small, written⟩ := digitChar_asciiValue digit
    have whole : (10 * tens + units) / 10 = tens := by omega
    have rest : (10 * tens + units) % 10 = units := by omega
    rw [List.length_append, List.length_singleton, pad, whole, rest, ih before, written]

/-! ### Dates -/

/-- Only the text of a valid date is read, as that date. -/
theorem fromIsoFormat_eq_some {text : List Char} {date : Date} :
    Date.fromIsoFormat text = some date ↔ date.Valid ∧ text = date.isoFormat := by
  constructor
  · intro read
    unfold Date.fromIsoFormat at read
    split at read
    case h_1 y₁ y₂ y₃ y₄ m₁ m₂ d₁ d₂ =>
      obtain ⟨year, years, read⟩ := Option.bind_eq_some_iff.mp read
      obtain ⟨month, months, read⟩ := Option.bind_eq_some_iff.mp read
      obtain ⟨day, days, read⟩ := Option.bind_eq_some_iff.mp read
      split at read
      case isTrue valid =>
        obtain rfl := Option.some.inj read
        have ys := pad_of_number years
        have ms := pad_of_number months
        have ds := pad_of_number days
        simp only [List.length_cons, List.length_nil] at ys ms ds
        refine ⟨valid, ?_⟩
        rw [Date.isoFormat, yearChars_of_valid valid, Int.toNat_natCast, ys, ms, ds]
        rfl
      case isFalse => contradiction
    case h_2 => contradiction
  · rintro ⟨valid, rfl⟩
    exact fromIsoFormat_isoFormat valid

/-- Year, month and day as one number, in the order of the calendar. -/
def Date.key (date : Date) : Nat := date.year.toNat * 10000 + date.month * 100 + date.day

theorem sum_take_le {lengths : List Nat} (le : m ≤ n) : (lengths.take m).sum ≤ (lengths.take n).sum := by
  obtain ⟨more, rfl⟩ := Nat.exists_eq_add_of_le le
  rw [List.take_add, List.sum_append]
  omega

theorem daysBeforeYear_succ (year : Int) :
    daysBeforeYear (year + 1) = daysBeforeYear year + ((monthLengths (isLeap year)).sum : Nat) := by
  have leap : ((monthLengths (isLeap year)).sum : Int) = if isLeap year then 366 else 365 := by
    cases isLeap year <;> rfl
  rw [leap]
  simp only [daysBeforeYear, isLeap, Bool.and_eq_true, Bool.or_eq_true, decide_eq_true_eq]
  split <;> omega

theorem daysBeforeYear_mono {first last : Int} (le : first ≤ last) :
    daysBeforeYear first ≤ daysBeforeYear last := by
  simp only [daysBeforeYear]
  omega

namespace Date
variable {date other : Date}

theorem Valid.day_le (valid : date.Valid) :
    ((monthLengths (isLeap date.year)).take (date.month - 1)).sum + date.day ≤
      ((monthLengths (isLeap date.year)).take date.month).sum := by
  obtain ⟨first, last⟩ := valid.month
  have inside := valid.day.2
  have twelve := (monthLengths_bounds (isLeap date.year)).2.2
  have here : date.month - 1 < (monthLengths (isLeap date.year)).length := by omega
  rw [daysInMonth, List.getElem?_eq_getElem here, Option.getD_some] at inside
  have next := List.sum_take_succ (monthLengths (isLeap date.year)) (date.month - 1) here
  rw [Nat.sub_add_cancel first] at next
  omega

theorem toOrdinal_lt_of_key_lt (valid : date.Valid) (valid' : other.Valid)
    (earlier : date.key < other.key) : date.toOrdinal < other.toOrdinal := by
  have inside := valid.day_le
  obtain ⟨year, _⟩ := valid.year
  obtain ⟨year', _⟩ := valid'.year
  obtain ⟨_, month⟩ := valid.month
  obtain ⟨month', _⟩ := valid'.month
  have day := valid.day
  have day' := valid'.day
  have short := valid.short
  have short' := valid'.short
  simp only [key] at earlier
  simp only [toOrdinal]
  by_cases years : date.year = other.year
  · rw [years] at inside ⊢
    by_cases months : date.month = other.month
    · rw [months]
      omega
    · have before : date.month ≤ other.month - 1 := by omega
      have upTo := @sum_take_le _ _ (monthLengths (isLeap other.year)) before
      omega
  · have before : date.year + 1 ≤ other.year := by omega
    have upTo := daysBeforeYear_mono before
    have whole := @sum_take_le _ _ (monthLengths (isLeap date.year)) month
    rw [daysBeforeYear_succ] at upTo
    have twelve := (monthLengths_bounds (isLeap date.year)).2.2
    rw [← twelve, List.take_length] at whole
    omega

theorem key_injective (valid : date.Valid) (valid' : other.Valid) (same : date.key = other.key) :
    date = other := by
  have month := valid.month
  have month' := valid'.month
  have day := valid.short
  have day' := valid'.short
  have year := valid.year
  have year' := valid'.year
  simp only [key] at same
  ext <;> omega

theorem key_lt_iff (valid : date.Valid) (valid' : other.Valid) :
    date.key < other.key ↔ date.toOrdinal < other.toOrdinal := by
  refine ⟨toOrdinal_lt_of_key_lt valid valid', fun earlier => ?_⟩
  rcases Nat.lt_trichotomy date.key other.key with before | same | after
  · exact before
  · rw [key_injective valid valid' same] at earlier
    omega
  · have := toOrdinal_lt_of_key_lt valid' valid after
    omega

theorem Valid.key_lt (valid : date.Valid) : date.key < 10 ^ 8 := by
  have day := valid.short
  obtain ⟨_, month⟩ := valid.month
  obtain ⟨_, year⟩ := valid.year
  simp only [key]
  omega

theorem isoFormat_lt_iff (valid : date.Valid) (valid' : other.Valid) :
    date.isoFormat < other.isoFormat ↔ date.toOrdinal < other.toOrdinal := by
  have day := valid.short
  have day' := valid'.short
  have month := valid.month
  have month' := valid'.month
  have year := valid.year
  have year' := valid'.year
  have years := @pad_lt_iff date.year.toNat other.year.toNat 4 (by omega) (by omega)
  have months := @pad_lt_iff date.month other.month 2 (by omega) (by omega)
  have days := @pad_lt_iff date.day other.day 2 (by omega) (by omega)
  have sameYear : pad 4 date.year.toNat = pad 4 other.year.toNat ↔
      date.year.toNat = other.year.toNat :=
    ⟨pad_injective 4 (by omega) (by omega), congrArg _⟩
  have sameMonth : pad 2 date.month = pad 2 other.month ↔ date.month = other.month :=
    ⟨pad_injective 2 (by omega) (by omega), congrArg _⟩
  rw [← key_lt_iff valid valid', isoFormat, isoFormat, yearChars_of_valid valid,
    yearChars_of_valid valid', List.append_assoc, List.append_assoc,
    append_lt_append_iff (by simp [pad_length]), List.cons_append, List.cons_append,
    List.cons_lt_cons_iff, append_lt_append_iff (by simp [pad_length]), List.cons_lt_cons_iff, years,
    months, days, sameYear, sameMonth]
  simp only [Char.lt_irrefl, false_or, true_and, key]
  omega

end Date

/-! ### Stamps -/

/-- Hour, minute and second as one number. -/
def clockKey (t : Int) : Nat :=
  secondOfDay t / 3600 * 10000 + secondOfDay t / 60 % 60 * 100 + secondOfDay t % 60

theorem clockKey_lt_iff {s t : Int} : clockKey s < clockKey t ↔ secondOfDay s < secondOfDay t := by
  have hours (n : Nat) : n / 3600 = n / 60 / 60 := by omega
  simp only [clockKey, hours]
  generalize hm : secondOfDay s / 60 = m
  generalize hn : secondOfDay t / 60 = n
  omega

theorem stamp_eq_keys {t : Int} (inside : InRange t) :
    stamp t = pad 8 (dateOf t).key ++ 'T' :: pad 6 (clockKey t) := by
  have valid := dateOf_valid inside
  have day := valid.short
  have month := valid.month
  have bound := secondOfDay_lt t
  have yearMonth : pad 4 (dateOf t).year.toNat ++ pad 2 (dateOf t).month =
      pad 6 ((dateOf t).year.toNat * 100 + (dateOf t).month) := pad_append 4 2 (by omega)
  have date : pad 6 ((dateOf t).year.toNat * 100 + (dateOf t).month) ++ pad 2 (dateOf t).day =
      pad 8 (dateOf t).key := by
    rw [show (dateOf t).key = ((dateOf t).year.toNat * 100 + (dateOf t).month) * 100 +
      (dateOf t).day by rw [Date.key]; omega]
    exact pad_append 6 2 (by omega)
  have hourMinute : pad 2 (secondOfDay t / 3600) ++ pad 2 (secondOfDay t / 60 % 60) =
      pad 4 (secondOfDay t / 3600 * 100 + secondOfDay t / 60 % 60) := pad_append 2 2 (by omega)
  have clock : pad 4 (secondOfDay t / 3600 * 100 + secondOfDay t / 60 % 60) ++
      pad 2 (secondOfDay t % 60) = pad 6 (clockKey t) := by
    rw [show clockKey t = (secondOfDay t / 3600 * 100 + secondOfDay t / 60 % 60) * 100 +
      secondOfDay t % 60 by rw [clockKey]; omega]
    exact pad_append 4 2 (by omega)
  rw [stamp, yearChars_of_valid valid, hourMinute, clock, ← date, ← yearMonth]
  simp only [List.append_assoc]

theorem stamp_length {t : Int} (inside : InRange t) : (stamp t).length = 15 := by
  simp [stamp_eq_keys inside, pad_length]

theorem toOrdinal_dateOf (t : Int) : (dateOf t).toOrdinal = dayNumber t + epochOrdinal :=
  toOrdinal_ofOrdinal _

/-- Stamps are in the order of the seconds they name. -/
theorem stamp_lt_iff {s t : Int} (inside : InRange s) (inside' : InRange t) :
    stamp s < stamp t ↔ floorSecond s < floorSecond t := by
  have valid := dateOf_valid inside
  have valid' := dateOf_valid inside'
  have bound := secondOfDay_lt s
  have bound' := secondOfDay_lt t
  have small : clockKey s < 10 ^ 6 := by
    simp only [clockKey]
    omega
  have small' : clockKey t < 10 ^ 6 := by
    simp only [clockKey]
    omega
  have clocks : clockKey s < clockKey t ↔ secondOfDay s < secondOfDay t := clockKey_lt_iff
  have days : (dateOf s).key < (dateOf t).key ↔ dayNumber s < dayNumber t := by
    rw [Date.key_lt_iff valid valid', toOrdinal_dateOf, toOrdinal_dateOf]
    omega
  have sameDay : pad 8 (dateOf s).key = pad 8 (dateOf t).key ↔ dayNumber s = dayNumber t := by
    rw [← dateOf_eq_iff]
    exact ⟨fun same => Date.key_injective valid valid' (pad_injective 8 valid.key_lt valid'.key_lt same),
      fun same => by rw [same]⟩
  rw [stamp_eq_keys inside, stamp_eq_keys inside', append_lt_append_iff (by simp [pad_length]),
    pad_lt_iff 8 valid.key_lt valid'.key_lt, days, sameDay, List.cons_lt_cons_iff,
    pad_lt_iff 6 small small', clocks, floorSecond_eq, floorSecond_eq]
  simp only [Char.lt_irrefl, false_or, true_and, day, second]
  omega

end Foundation.Calendar
