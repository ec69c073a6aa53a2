import Mathlib.Algebra.Order.Group.Defs
import Mathlib.Order.Monotone.Basic

/-! A timer over polls, some of which are quiet. It runs from the first poll of a stretch
of quiet ones and is dropped at every other poll. What it measures at a poll is the
longest stretch that ends there. -/
namespace Foundation.Stability
variable {τ : Type} [AddCommGroup τ] [LinearOrder τ] [IsOrderedAddMonoid τ]
variable {quiet : ℕ → Prop} {time : ℕ → τ} {length : τ} {first last n : ℕ}

def QuietFrom (quiet : ℕ → Prop) (first last : ℕ) : Prop :=
  ∀ poll, first ≤ poll → poll ≤ last → quiet poll

theorem QuietFrom.succ (before : QuietFrom quiet first n) (here : quiet (n + 1)) :
    QuietFrom quiet first (n + 1) := by
  intro poll after until_
  rcases Nat.lt_or_eq_of_le until_ with earlier | rfl
  · exact before poll after (Nat.lt_succ_iff.mp earlier)
  · exact here

theorem QuietFrom.pred (quietly : QuietFrom quiet first (n + 1)) : QuietFrom quiet first n :=
  fun poll after until_ => quietly poll after (until_.trans n.le_succ)

/-- The poll ends a quiet stretch of that length. -/
def Settled (quiet : ℕ → Prop) (time : ℕ → τ) (length : τ) (last : ℕ) : Prop :=
  ∃ first ≤ last, QuietFrom quiet first last ∧ length ≤ time last - time first

section
variable [DecidablePred quiet]

/-- The first poll of the quiet stretch that comes before a poll. -/
def since (quiet : ℕ → Prop) [DecidablePred quiet] : ℕ → Option ℕ
  | 0 => none
  | n + 1 => if quiet n then some ((since quiet n).getD n) else none

theorem since_quiet (here : quiet n) : since quiet (n + 1) = some ((since quiet n).getD n) :=
  if_pos here

theorem since_unquiet (here : ¬ quiet n) : since quiet (n + 1) = none := if_neg here

theorem quiet_of_since (found : since quiet (n + 1) = some first) : quiet n := by
  by_contra unquiet
  rw [since_unquiet unquiet] at found
  contradiction

/-- It begins a quiet stretch, and none that ends there is longer. -/
theorem since_spec (found : since quiet (n + 1) = some first) :
    first ≤ n ∧ QuietFrom quiet first n ∧
      ∀ other ≤ n, QuietFrom quiet other n → first ≤ other := by
  induction n generalizing first with
  | zero =>
    have here : quiet 0 := quiet_of_since found
    rw [since_quiet here] at found
    obtain rfl : 0 = first := Option.some.inj found
    refine ⟨le_rfl, fun poll _ until_ => ?_, fun other _ _ => other.zero_le⟩
    exact (Nat.le_zero.mp until_) ▸ here
  | succ n ih =>
    have here : quiet (n + 1) := quiet_of_since found
    rw [since_quiet here] at found
    cases earlier : since quiet (n + 1) with
    | none =>
      -- the poll before is not quiet, so the stretch begins here
      rw [earlier, Option.getD_none, Option.some.injEq] at found
      subst found
      have unquiet : ¬ quiet n := by
        intro before
        rw [since_quiet before] at earlier
        contradiction
      refine ⟨le_rfl, fun poll after until_ => le_antisymm until_ after ▸ here, ?_⟩
      intro other until_ quietly
      by_contra sooner
      exact unquiet (quietly n (Nat.lt_succ_iff.mp (not_le.mp sooner)) n.le_succ)
    | some start =>
      rw [earlier, Option.getD_some, Option.some.injEq] at found
      subst found
      obtain ⟨before, quietly, longest⟩ := ih earlier
      refine ⟨before.trans n.le_succ, quietly.succ here, ?_⟩
      intro other until_ others
      rcases Nat.lt_or_eq_of_le until_ with sooner | rfl
      · exact longest other (Nat.lt_succ_iff.mp sooner) others.pred
      · exact before.trans n.le_succ

/-- The timer reads the length exactly where the poll ends a stretch of that length. A
stretch that only begins there is too short. -/
theorem settled_iff (positive : 0 < length) (clock : Monotone time) :
    Settled quiet time length n ↔
      quiet n ∧ ∃ first, since quiet n = some first ∧ length ≤ time n - time first := by
  constructor
  · rintro ⟨other, until_, quietly, long⟩
    have here : quiet n := quietly n until_ le_rfl
    refine ⟨here, ?_⟩
    have found := since_quiet here
    obtain ⟨_, _, longest⟩ := since_spec found
    have before := clock (longest other until_ quietly)
    have enough : length ≤ time n - time ((since quiet n).getD n) :=
      long.trans (sub_le_sub_left before (time n))
    cases earlier : since quiet n with
    | none =>
      rw [earlier, Option.getD_none, sub_self] at enough
      exact absurd positive enough.not_gt
    | some first =>
      rw [earlier, Option.getD_some] at enough
      exact ⟨first, rfl, enough⟩
  · rintro ⟨here, first, earlier, long⟩
    have found := since_quiet here
    rw [earlier, Option.getD_some] at found
    obtain ⟨until_, quietly, _⟩ := since_spec found
    exact ⟨first, until_, quietly, long⟩

end

end Foundation.Stability
