import Mathlib.Order.Lattice
import Mathlib.Data.List.Basic

/-! Half-open intervals laid end to end. The intervals are any values with two
end points in a linear order; a list tiles `[a, b)` when each interval starts
where the one before it ended. -/
namespace Foundation.Tiling
variable {α β : Type} [LinearOrder α] {lo hi : β → α}

def Tiles (lo hi : β → α) : List β → α → α → Prop
  | [], a, b => a = b
  | w :: ws, a, b => lo w = a ∧ lo w < hi w ∧ Tiles lo hi ws (hi w) b

def Contains (lo hi : β → α) (w : β) (x : α) : Prop := lo w ≤ x ∧ x < hi w

theorem tiles_append {xs ys : List β} {a c : α} :
    Tiles lo hi (xs ++ ys) a c ↔ ∃ b, Tiles lo hi xs a b ∧ Tiles lo hi ys b c := by
  induction xs generalizing a with
  | nil => simp [Tiles]
  | cons w ws ih =>
    simp only [List.cons_append, Tiles, ih]
    constructor
    · rintro ⟨start, proper, b, front, back⟩
      exact ⟨b, ⟨start, proper, front⟩, back⟩
    · rintro ⟨b, ⟨start, proper, front⟩, back⟩
      exact ⟨start, proper, b, front, back⟩

theorem tiles_snoc {ws : List β} {w : β} {a b : α} (front : Tiles lo hi ws a b) (start : lo w = b)
    (proper : lo w < hi w) : Tiles lo hi (ws ++ [w]) a (hi w) :=
  tiles_append.mpr ⟨b, front, start, proper, rfl⟩

theorem tiles_le {ws : List β} {a b : α} (tiles : Tiles lo hi ws a b) : a ≤ b := by
  induction ws generalizing a with
  | nil => exact tiles.le
  | cons w ws ih =>
    obtain ⟨rfl, proper, rest⟩ := tiles
    exact proper.le.trans (ih rest)

theorem tiles_bounds {ws : List β} {a b : α} (tiles : Tiles lo hi ws a b) {w : β} (member : w ∈ ws) :
    a ≤ lo w ∧ lo w < hi w ∧ hi w ≤ b := by
  obtain ⟨pre, post, rfl⟩ := List.append_of_mem member
  obtain ⟨c, front, start, proper, rest⟩ := tiles_append.mp tiles
  exact ⟨(tiles_le front).trans start.ge, proper, tiles_le rest⟩

theorem tiles_stop {ws : List β} {a b : α} (tiles : Tiles lo hi ws a b) :
    b = (ws.getLast?.map hi).getD a := by
  induction ws generalizing a with
  | nil => exact tiles.symm
  | cons w ws ih =>
    obtain ⟨_, _, rest⟩ := tiles
    rw [ih rest, List.getLast?_cons]
    cases ws.getLast? <;> rfl

theorem tiles_chain {ws : List β} {a b : α} (tiles : Tiles lo hi ws a b) :
    ws.IsChain fun v w => lo w = hi v := by
  induction ws generalizing a with
  | nil => exact .nil
  | cons u ws ih =>
    obtain ⟨_, _, rest⟩ := tiles
    cases ws with
    | nil => exact .singleton u
    | cons v ws => exact .cons_cons rest.1 (ih rest)

theorem tiles_pairwise {ws : List β} {a b : α} (tiles : Tiles lo hi ws a b) :
    ws.Pairwise (fun v w => hi v ≤ lo w) := by
  induction ws generalizing a with
  | nil => exact .nil
  | cons u ws ih =>
    obtain ⟨_, _, rest⟩ := tiles
    exact .cons (fun w member => (tiles_bounds rest member).1) (ih rest)

theorem tiles_separate {ws : List β} {a b : α} (tiles : Tiles lo hi ws a b) {v w : β}
    (hv : v ∈ ws) (hw : w ∈ ws) : v = w ∨ hi v ≤ lo w ∨ hi w ≤ lo v := by
  induction ws generalizing a with
  | nil => exact absurd hv List.not_mem_nil
  | cons u ws ih =>
    obtain ⟨_, _, rest⟩ := tiles
    rcases List.mem_cons.mp hv with rfl | left <;> rcases List.mem_cons.mp hw with rfl | right
    · exact .inl rfl
    · exact .inr (.inl (tiles_bounds rest right).1)
    · exact .inr (.inr (tiles_bounds rest left).1)
    · exact ih rest left right

theorem tiles_cover {ws : List β} {a b x : α} (tiles : Tiles lo hi ws a b) (after : a ≤ x)
    (before : x < b) : ∃ w ∈ ws, Contains lo hi w x := by
  induction ws generalizing a with
  | nil =>
    subst tiles
    exact absurd before after.not_gt
  | cons w ws ih =>
    obtain ⟨rfl, _, rest⟩ := tiles
    by_cases inside : x < hi w
    · exact ⟨w, by simp, after, inside⟩
    · obtain ⟨v, member, found⟩ := ih rest (le_of_not_gt inside)
      exact ⟨v, by simp [member], found⟩

end Foundation.Tiling
