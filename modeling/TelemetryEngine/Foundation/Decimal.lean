import Mathlib.Data.Int.Notation
import Mathlib.Data.String.Basic

/-! Integers written in decimal. -/
namespace Foundation.Decimal

/-- All of the text, which is not empty, is digits. -/
def parseNat (digits : List Char) : Option Nat :=
  if digits ≠ [] ∧ digits.all Char.isDigit then some (Nat.ofDigitChars 10 digits 0) else none

/-- A sign may come first. -/
def parseInt : List Char → Option Int
  | '-' :: digits => (parseNat digits).map fun n => -(n : Int)
  | '+' :: digits => (parseNat digits).map Int.ofNat
  | digits => (parseNat digits).map Int.ofNat

/-- A plus may come first. -/
def parseUnsigned : List Char → Option Nat
  | '+' :: digits => parseNat digits
  | digits => parseNat digits

theorem parseNat_toDigits (n : Nat) : parseNat (Nat.toDigits 10 n) = some n := by
  have digits : (Nat.toDigits 10 n).all Char.isDigit = true :=
    List.all_eq_true.mpr fun c member => Nat.isDigit_of_mem_toDigits (by decide) (by decide) member
  rw [parseNat, if_pos ⟨Nat.toDigits_ne_nil, digits⟩, Nat.ofDigitChars_ten_toDigits]

theorem ofDigitChars_padded (width n : Nat) :
    Nat.ofDigitChars 10 (List.replicate width '0' ++ Nat.toDigits 10 n) 0 = n := by
  rw [Nat.ofDigitChars_append, Nat.ofDigitChars_replicate_zero, Nat.mul_zero,
    Nat.ofDigitChars_ten_toDigits]

theorem not_mem_toDigits {c : Char} (other : c.isDigit = false) (n : Nat) :
    c ∉ Nat.toDigits 10 n := by
  intro member
  have digit := Nat.isDigit_of_mem_toDigits (by decide) (by decide) member
  rw [other] at digit
  contradiction

theorem parseInt_toString (n : Nat) : parseInt (toString n).toList = some (n : Int) := by
  rw [Nat.toString_eq_repr, Nat.toList_repr]
  have minus := not_mem_toDigits (c := '-') (by decide) n
  have plus := not_mem_toDigits (c := '+') (by decide) n
  unfold parseInt
  split
  case h_1 digits same => simp [same] at minus
  case h_2 digits same => simp [same] at plus
  case h_3 => rw [parseNat_toDigits]; rfl

theorem parseUnsigned_toString (n : Nat) : parseUnsigned (toString n).toList = some n := by
  rw [Nat.toString_eq_repr, Nat.toList_repr]
  have plus := not_mem_toDigits (c := '+') (by decide) n
  unfold parseUnsigned
  split
  case h_1 digits same => simp [same] at plus
  case h_2 => exact parseNat_toDigits n

end Foundation.Decimal
