import Mathlib.Tactic.Ring
import Mathlib.Data.List.Basic

/-! Proleptic Gregorian calendar on integer instants. An instant counts
microseconds since 1970-01-01T00:00:00 and carries no zone. Civil dates, the
rounding of instants and the decimal stamps made from them are total on all
integers; every stamp determines the second it was made from. -/
namespace Foundation.Calendar

def second : Int := 1000000
def minute : Int := 60000000
def hour : Int := 3600000000
def day : Int := 86400000000

/-- The last multiple of `unit` not after the instant. -/
def floorTo (unit t : Int) : Int := t - t % unit

def floorSecond : Int → Int := floorTo second
def floorMinute : Int → Int := floorTo minute
def floorHour : Int → Int := floorTo hour

/-- Days since the epoch: the calendar date of an instant, as a number. -/
def dayNumber (t : Int) : Int := t / day

def startOfDay (n : Int) : Int := n * day

theorem floorTo_le {unit : Int} (positive : 0 < unit) (t : Int) : floorTo unit t ≤ t := by
  have := Int.emod_nonneg t positive.ne'
  simp only [floorTo]
  omega

theorem floorSecond_le (t : Int) : floorSecond t ≤ t := floorTo_le (by decide) t

theorem floorMinute_le (t : Int) : floorMinute t ≤ t := floorTo_le (by decide) t

theorem floorTo_eq_mul {unit : Int} (t : Int) : floorTo unit t = unit * (t / unit) := by
  have := Int.mul_ediv_add_emod t unit
  simp only [floorTo]
  omega

theorem floorTo_mono {unit : Int} (positive : 0 < unit) {s t : Int} (ordered : s ≤ t) :
    floorTo unit s ≤ floorTo unit t := by
  rw [floorTo_eq_mul, floorTo_eq_mul]
  exact Int.mul_le_mul_of_nonneg_left (Int.ediv_le_ediv positive ordered) positive.le

theorem floorTo_of_dvd {unit t : Int} (aligned : t % unit = 0) : floorTo unit t = t := by
  simp only [floorTo, aligned, Int.sub_zero]

theorem floorSecond_of_whole {t : Int} (whole : t % second = 0) : floorSecond t = t :=
  floorTo_of_dvd whole

theorem floorTo_emod {unit t : Int} : floorTo unit t % unit = 0 := by
  rw [floorTo_eq_mul, Int.mul_emod_right]

/-! ### Civil dates -/

@[ext] structure Date where
  year : Int
  month : Nat
  day : Nat
  deriving DecidableEq, Repr

def isLeap (year : Int) : Bool := year % 4 = 0 && (year % 100 ≠ 0 || year % 400 = 0)

def monthLengths (leap : Bool) : List Nat :=
  [31, if leap then 29 else 28, 31, 30, 31, 30, 31, 31, 30, 31, 30, 31]

/-- Month and day of a zero-based day of the year. -/
def monthDay : List Nat → Nat → Nat × Nat
  | [], n => (1, n + 1)
  | length :: rest, n =>
    if n < length then (1, n + 1) else
      let next := monthDay rest (n - length)
      (next.1 + 1, next.2)

theorem monthDay_spec (lengths : List Nat) (n : Nat) :
    1 ≤ (monthDay lengths n).1 ∧ 1 ≤ (monthDay lengths n).2 ∧
      (lengths.take ((monthDay lengths n).1 - 1)).sum + ((monthDay lengths n).2 - 1) = n := by
  induction lengths generalizing n with
  | nil => simp [monthDay]
  | cons length rest ih =>
    unfold monthDay
    split
    · simp
    · obtain ⟨month, day, total⟩ := ih (n - length)
      have shift : (monthDay rest (n - length)).1 + 1 - 1 =
          (monthDay rest (n - length)).1 - 1 + 1 := by omega
      refine ⟨by simp, day, ?_⟩
      simp only [shift, List.take_succ_cons, List.sum_cons]
      omega

def daysBeforeYear (year : Int) : Int :=
  (year - 1) * 365 + (year - 1) / 4 - (year - 1) / 100 + (year - 1) / 400

/-- Days from 0001-01-01, counting that day as 1. -/
def Date.toOrdinal (date : Date) : Int :=
  daysBeforeYear date.year +
    (((monthLengths (isLeap date.year)).take (date.month - 1)).sum + (date.day - 1) : Nat) + 1

/-- The civil date of an ordinal: peel off cycles of 400, 100, 4 and 1 years,
then walk the months. The last day of a leap cycle would start a fifth (or a
hundred-and-first) year, and is the 31st of December instead. -/
def Date.ofOrdinal (ordinal : Int) : Date :=
  let n := ordinal - 1
  let n400 := n / 146097
  let n := n % 146097
  let n100 := n / 36524
  let n := n % 36524
  let n4 := n / 1461
  let n := n % 1461
  let n1 := n / 365
  let n := n % 365
  let year := n400 * 400 + n100 * 100 + n4 * 4 + n1 + 1
  if n1 = 4 ∨ n100 = 4 then ⟨year - 1, 12, 31⟩ else
    let found := monthDay (monthLengths (isLeap year)) n.toNat
    ⟨year, found.1, found.2⟩

theorem monthLengths_before_december (leap : Bool) :
    ((monthLengths leap).take 11).sum = if leap then 335 else 334 := by
  cases leap <;> rfl

/-- Days before a year given by its place in the 400, 100 and 4 year cycles. -/
theorem daysBeforeYear_cycles (q a b c : Int) (ha : 0 ≤ a ∧ a ≤ 3) (hb : 0 ≤ b ∧ b ≤ 24)
    (hc : 0 ≤ c ∧ c ≤ 3) :
    daysBeforeYear (q * 400 + a * 100 + b * 4 + c + 1) =
      q * 146097 + a * 36524 + b * 1461 + c * 365 := by
  simp only [daysBeforeYear]
  omega

theorem last_year_leap (q a b : Int) (_ : 0 ≤ a ∧ a ≤ 3) (hb : 0 ≤ b ∧ b ≤ 24)
    (century : b = 24 → a = 3) : isLeap (q * 400 + a * 100 + b * 4 + 3 + 1) = true := by
  simp only [isLeap, Bool.and_eq_true, Bool.or_eq_true, decide_eq_true_eq]
  omega

theorem toOrdinal_december (year : Int) (leap : isLeap year = true) :
    (⟨year, 12, 31⟩ : Date).toOrdinal = daysBeforeYear year + 366 := by
  simp only [Date.toOrdinal, leap, Nat.reduceSub, monthLengths_before_december, if_true]
  omega

/-- Converting an ordinal to a civil date loses nothing. -/
theorem toOrdinal_ofOrdinal (ordinal : Int) : (Date.ofOrdinal ordinal).toOrdinal = ordinal := by
  simp only [Date.ofOrdinal]
  generalize hq : (ordinal - 1) / 146097 = q
  generalize ha : (ordinal - 1) % 146097 / 36524 = a
  generalize hb : (ordinal - 1) % 146097 % 36524 / 1461 = b
  generalize hc : (ordinal - 1) % 146097 % 36524 % 1461 / 365 = c
  generalize hn : (ordinal - 1) % 146097 % 36524 % 1461 % 365 = n
  have whole : ordinal - 1 = q * 146097 + a * 36524 + b * 1461 + c * 365 + n := by omega
  split
  case isTrue lastDay =>
    -- Both cases name the last day of a leap year, seen from the cycle it closes.
    by_cases century : a = 4
    · have year : q * 400 + a * 100 + b * 4 + c + 1 - 1 = q * 400 + 3 * 100 + 24 * 4 + 3 + 1 := by
        omega
      rw [year, toOrdinal_december _ (last_year_leap q 3 24 (by omega) (by omega) (by omega)),
        daysBeforeYear_cycles _ _ _ _ (by omega) (by omega) (by omega)]
      omega
    · have year : q * 400 + a * 100 + b * 4 + c + 1 - 1 = q * 400 + a * 100 + b * 4 + 3 + 1 := by
        omega
      rw [year, toOrdinal_december _ (last_year_leap q a b (by omega) (by omega) (by omega)),
        daysBeforeYear_cycles _ _ _ _ (by omega) (by omega) (by omega)]
      omega
  case isFalse ordinary =>
    obtain ⟨_, _, total⟩ :=
      monthDay_spec (monthLengths (isLeap (q * 400 + a * 100 + b * 4 + c + 1))) n.toNat
    simp only [Date.toOrdinal, total, Int.toNat_of_nonneg (show 0 ≤ n by omega)]
    rw [daysBeforeYear_cycles _ _ _ _ (by omega) (by omega) (by omega)]
    omega

theorem ofOrdinal_injective {m n : Int} (same : Date.ofOrdinal m = Date.ofOrdinal n) : m = n := by
  rw [← toOrdinal_ofOrdinal m, same, toOrdinal_ofOrdinal]

def epochOrdinal : Int := 719163

def dateOf (t : Int) : Date := Date.ofOrdinal (dayNumber t + epochOrdinal)

theorem dateOf_eq_iff {s t : Int} : dateOf s = dateOf t ↔ dayNumber s = dayNumber t := by
  constructor
  · intro same
    have := ofOrdinal_injective same
    omega
  · intro same
    simp only [dateOf, same]

theorem monthDay_le (bound : ∀ length ∈ lengths, length ≤ 31) (inside : n < lengths.sum) :
    (monthDay lengths n).1 ≤ lengths.length ∧ (monthDay lengths n).2 ≤ 31 := by
  induction lengths generalizing n with
  | nil => simp at inside
  | cons length rest ih =>
    have first := bound length (by simp)
    unfold monthDay
    split
    · simp only [List.length_cons]
      omega
    · simp only [List.sum_cons] at inside
      obtain ⟨month, day⟩ := ih (n := n - length) (fun l member => bound l (by simp [member]))
        (by omega)
      simp only [List.length_cons]
      omega

theorem monthLengths_bounds (leap : Bool) :
    (∀ length ∈ monthLengths leap, length ≤ 31) ∧ 365 ≤ (monthLengths leap).sum ∧
      (monthLengths leap).length = 12 := by
  cases leap <;> decide

theorem ofOrdinal_bounds (ordinal : Int) :
    (Date.ofOrdinal ordinal).month ≤ 12 ∧ (Date.ofOrdinal ordinal).day ≤ 31 := by
  simp only [Date.ofOrdinal]
  split
  · simp
  · generalize isLeap _ = leap
    obtain ⟨lengths, total, twelve⟩ := monthLengths_bounds leap
    have found := monthDay_le (n := ((ordinal - 1) % 146097 % 36524 % 1461 % 365).toNat)
      lengths (by omega)
    exact twelve ▸ found

/-! ### Decimal stamps -/

/-- The last `width` decimal digits of a number. -/
def pad : Nat → Nat → List Char
  | 0, _ => []
  | width + 1, n => pad width (n / 10) ++ [Nat.digitChar (n % 10)]

theorem pad_length (width n : Nat) : (pad width n).length = width := by
  induction width generalizing n with
  | zero => rfl
  | succ width ih => simp only [pad, List.length_append, ih, List.length_singleton]

theorem digitChar_injective : ∀ m < 10, ∀ n < 10, Nat.digitChar m = Nat.digitChar n → m = n := by
  decide

theorem digitChar_mem : ∀ n < 10, Nat.digitChar n ∈ "0123456789".toList := by
  decide

theorem pad_injective (width : Nat) (hm : m < 10 ^ width) (hn : n < 10 ^ width)
    (same : pad width m = pad width n) : m = n := by
  induction width generalizing m n with
  | zero => omega
  | succ width ih =>
    simp only [pad] at same
    obtain ⟨front, last⟩ := List.append_inj' same (by simp)
    have units := digitChar_injective _ (Nat.mod_lt _ (by omega)) _ (Nat.mod_lt _ (by omega))
      (List.singleton_inj.mp last)
    rw [Nat.pow_succ] at hm hn
    have tens := ih (m := m / 10) (n := n / 10) (by omega) (by omega) front
    omega

theorem exists_digit_of_mem_pad (member : c ∈ pad width n) : ∃ d < 10, c = Nat.digitChar d := by
  induction width generalizing n with
  | zero => simp [pad] at member
  | succ width ih =>
    simp only [pad, List.mem_append, List.mem_singleton] at member
    rcases member with front | last
    · exact ih front
    · exact ⟨n % 10, Nat.mod_lt _ (by omega), last⟩

theorem mem_pad (member : c ∈ pad width n) : c ∈ "0123456789".toList := by
  obtain ⟨d, small, rfl⟩ := exists_digit_of_mem_pad member
  exact digitChar_mem d small

/-- Marks before a year of more than four digits. Civil software has no such
years; the marks keep every stamp decodable. -/
def eraMark (era : Int) : List Char :=
  List.replicate era.toNat '+' ++ List.replicate (-era).toNat '~'

def yearChars (year : Int) : List Char :=
  eraMark (year / 10000) ++ pad 4 (year % 10000).toNat

theorem eraMark_injective (same : eraMark m = eraMark n) : m = n := by
  have after := congrArg (List.count '+') same
  have before := congrArg (List.count '~') same
  simp only [eraMark, List.count_append, List.count_replicate] at after before
  simp only [beq_self_eq_true, if_true, Char.reduceBEq, Bool.false_eq_true, if_false] at after before
  omega

theorem yearChars_injective (same : yearChars m = yearChars n) : m = n := by
  obtain ⟨era, year⟩ := List.append_inj' same (by simp [pad_length])
  have := eraMark_injective era
  have := pad_injective 4 (by omega) (by omega) year
  omega

def Date.isoFormat (date : Date) : List Char :=
  yearChars date.year ++ '-' :: pad 2 date.month ++ '-' :: pad 2 date.day

def secondOfDay (t : Int) : Nat := (t % day / second).toNat

/-- `YYYYMMDDTHHMMSS`: fractions of a second are dropped. -/
def stamp (t : Int) : List Char :=
  yearChars (dateOf t).year ++ (pad 2 (dateOf t).month ++ pad 2 (dateOf t).day ++
    'T' :: (pad 2 (secondOfDay t / 3600) ++ pad 2 (secondOfDay t / 60 % 60) ++
      pad 2 (secondOfDay t % 60)))

theorem secondOfDay_lt (t : Int) : secondOfDay t < 86400 := by
  simp only [secondOfDay, day, second]
  omega

theorem floorSecond_eq (t : Int) :
    floorSecond t = dayNumber t * day + secondOfDay t * second := by
  have nonneg : 0 ≤ t % 86400000000 / 1000000 := by omega
  simp only [floorSecond, floorTo, dayNumber, secondOfDay, day, second, Int.toNat_of_nonneg nonneg]
  omega

theorem stamp_injective (same : stamp s = stamp t) : floorSecond s = floorSecond t := by
  have hs := ofOrdinal_bounds (dayNumber s + epochOrdinal)
  have ht := ofOrdinal_bounds (dayNumber t + epochOrdinal)
  have boundS := secondOfDay_lt s
  have boundT := secondOfDay_lt t
  obtain ⟨years, rest⟩ := List.append_inj' same (by simp [pad_length])
  obtain ⟨dates, times⟩ := List.append_inj' rest (by simp [pad_length])
  obtain ⟨months, days⟩ := List.append_inj' dates (by simp [pad_length])
  obtain ⟨front, seconds⟩ :=
    List.append_inj' (List.cons_inj_right _ |>.mp times) (by simp [pad_length])
  obtain ⟨hours, minutes⟩ := List.append_inj' front (by simp [pad_length])
  have year := yearChars_injective years
  have month := pad_injective 2 (by simp only [dateOf]; omega)
    (by simp only [dateOf]; omega) months
  have date := pad_injective 2 (by simp only [dateOf]; omega)
    (by simp only [dateOf]; omega) days
  have h := pad_injective 2 (by omega) (by omega) hours
  have m := pad_injective 2 (by omega) (by omega) minutes
  have sec := pad_injective 2 (by omega) (by omega) seconds
  have sameDay : dayNumber s = dayNumber t := dateOf_eq_iff.mp (Date.ext year month date)
  have sameSecond : secondOfDay s = secondOfDay t := by omega
  rw [floorSecond_eq, floorSecond_eq, sameDay, sameSecond]

theorem dayNumber_floorSecond (t : Int) : dayNumber (floorSecond t) = dayNumber t := by
  simp only [dayNumber, floorSecond, floorTo, day, second]
  omega

theorem stamp_floorSecond (t : Int) : stamp (floorSecond t) = stamp t := by
  have sameSecond : secondOfDay (floorSecond t) = secondOfDay t := by
    simp only [secondOfDay, floorSecond, floorTo, day, second]
    omega
  simp only [stamp, dateOf_eq_iff.mpr (dayNumber_floorSecond t), sameSecond]

theorem dash_not_mem_stamp (t : Int) : '-' ∉ stamp t := by
  have digits : '-' ∉ "0123456789".toList := by decide
  have pads : ∀ width n, '-' ∉ pad width n := fun _ _ member => digits (mem_pad member)
  simp [stamp, yearChars, eraMark, pads]

example : dateOf 0 = ⟨1970, 1, 1⟩ := by decide
example : stamp (20692 * day + 15 * hour + 250000) = "20260827T150000".toList := by decide

end Foundation.Calendar
