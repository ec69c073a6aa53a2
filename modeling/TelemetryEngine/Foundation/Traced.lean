import Mathlib.Data.List.Basic

/-! Programs that act on the outside world. A run leaves the list of its
effects and ends with a value or an error; what it did before an error stays
done. A process that is killed has performed a prefix of its effects, so a fact
about every prefix is a fact about every point at which it can be cut off. -/
namespace Foundation

structure Traced (Effect Failure Value : Type) where
  trace : List Effect
  outcome : Except Failure Value

namespace Traced
variable {E F A B S : Type}

def perform (effect : E) : Traced E F Unit := ⟨[effect], .ok ()⟩

/-- An answer from outside: a value, or the error it raises. -/
def ask (answer : Except F A) : Traced E F A := ⟨[], answer⟩

instance : Monad (Traced E F) where
  pure a := ⟨[], .ok a⟩
  bind x f :=
    match x.outcome with
    | .ok a => ⟨x.trace ++ (f a).trace, (f a).outcome⟩
    | .error e => ⟨x.trace, .error e⟩

@[simp] theorem pure_trace (a : A) : (pure a : Traced E F A).trace = [] := rfl
@[simp] theorem pure_outcome (a : A) : (pure a : Traced E F A).outcome = .ok a := rfl

theorem bind_ok {x : Traced E F A} {f : A → Traced E F B} (done : x.outcome = .ok a) :
    x >>= f = ⟨x.trace ++ (f a).trace, (f a).outcome⟩ := by
  change (match x.outcome with
    | .ok a => ⟨x.trace ++ (f a).trace, (f a).outcome⟩
    | .error e => ⟨x.trace, .error e⟩ : Traced E F B) = _
  rw [done]

theorem bind_error {x : Traced E F A} {f : A → Traced E F B} (failed : x.outcome = .error e) :
    x >>= f = ⟨x.trace, .error e⟩ := by
  change (match x.outcome with
    | .ok a => ⟨x.trace ++ (f a).trace, (f a).outcome⟩
    | .error e => ⟨x.trace, .error e⟩ : Traced E F B) = _
  rw [failed]

@[simp] theorem perform_bind (effect : E) (f : Unit → Traced E F B) :
    perform effect >>= f = ⟨effect :: (f ()).trace, (f ()).outcome⟩ := rfl

@[simp] theorem ask_ok_bind (a : A) (f : A → Traced E F B) : ask (.ok a) >>= f = f a := rfl

@[simp] theorem ask_error_bind (e : F) (f : A → Traced E F B) :
    ask (.error e) >>= f = ⟨[], .error e⟩ := rfl

end Traced

/-- A prefix of two traces in a row ends in the first or in the second. -/
theorem prefix_append_cases {p xs ys : List E} (cut : p <+: xs ++ ys) :
    p <+: xs ∨ ∃ q, q <+: ys ∧ p = xs ++ q := by
  cases Nat.le_total p.length xs.length with
  | inl short => exact .inl (List.prefix_of_prefix_length_le cut (List.prefix_append xs ys) short)
  | inr long =>
    obtain ⟨q, rfl⟩ := List.prefix_of_prefix_length_le (List.prefix_append xs ys) cut long
    exact .inr ⟨q, (List.prefix_append_right_inj xs).mp cut, rfl⟩

theorem prefix_snoc_append {q xs ys : List E} {e : E} (cut : q ++ [e] <+: xs ++ ys) :
    q ++ [e] <+: xs ∨ ∃ p, q = xs ++ p ∧ p ++ [e] <+: ys := by
  rcases prefix_append_cases cut with inside | ⟨p, inside, same⟩
  · exact .inl inside
  · rcases List.eq_nil_or_concat p with rfl | ⟨p, last, rfl⟩
    · exact .inl (same ▸ by simp)
    · rw [List.concat_eq_append, ← List.append_assoc] at same
      obtain ⟨rfl, last⟩ := List.append_inj' same rfl
      obtain rfl := List.cons.inj last |>.1
      exact .inr ⟨p, rfl, List.concat_eq_append ▸ inside⟩

/-- A prefix of many traces in a row ends in one of them. -/
theorem prefix_snoc_flatMap {F : A → List E} {q : List E} {e : E} {xs : List A}
    (cut : q ++ [e] <+: xs.flatMap F) :
    ∃ front x back p, xs = front ++ x :: back ∧ q = front.flatMap F ++ p ∧ p ++ [e] <+: F x := by
  induction xs generalizing q with
  | nil => simp at cut
  | cons x xs ih =>
    rw [List.flatMap_cons] at cut
    rcases prefix_snoc_append cut with inside | ⟨p, rfl, inside⟩
    · exact ⟨[], x, xs, q, rfl, rfl, inside⟩
    · obtain ⟨front, y, back, p, rfl, rfl, within⟩ := ih inside
      exact ⟨x :: front, y, back, p, rfl, by simp, within⟩

section
variable {apply : S → E → Except F S}

/-- One effect after the other, up to the first that fails. -/
def attempt (apply : S → E → Except F S) : S → List E → S × Option F
  | s, [] => (s, none)
  | s, e :: rest =>
    match apply s e with
    | .ok t => attempt apply t rest
    | .error f => (s, some f)

theorem attempt_cons (step : apply s e = .ok t) :
    attempt apply s (e :: rest) = attempt apply t rest := by
  rw [attempt, step]

theorem attempt_append (done : attempt apply s xs = (t, none)) :
    attempt apply s (xs ++ ys) = attempt apply t ys := by
  induction xs generalizing s with
  | nil => exact (Prod.mk.inj done).1 ▸ rfl
  | cons e xs ih =>
    rw [List.cons_append, attempt]
    rw [attempt] at done
    cases step : apply s e with
    | ok u => exact ih (by simpa [step] using done)
    | error f => simp [step] at done

theorem attempt_invariant {P : S → Prop}
    (preserves : ∀ s, ∀ e ∈ xs, P s → ∀ t, apply s e = .ok t → P t) (initial : P s) :
    P (attempt apply s xs).1 := by
  induction xs generalizing s with
  | nil => exact initial
  | cons e xs ih =>
    rw [attempt]
    cases step : apply s e with
    | ok t =>
      exact ih (fun s e member => preserves s e (by simp [member]))
        (preserves s e (by simp) initial t step)
    | error f => exact initial

/-- An effect that fails wherever the invariant holds ends the attempt there. -/
theorem attempt_stops {P : S → Prop} (ys : List E)
    (preserves : ∀ s, ∀ e ∈ xs, P s → ∀ t, apply s e = .ok t → P t)
    (fails : ∀ s, P s → ∃ f, apply s e = .error f) (initial : P s) :
    P (attempt apply s (xs ++ e :: ys)).1 ∧ (attempt apply s (xs ++ e :: ys)).2 ≠ none := by
  induction xs generalizing s with
  | nil =>
    obtain ⟨f, failed⟩ := fails s initial
    simpa [attempt, failed] using initial
  | cons x xs ih =>
    rw [List.cons_append, attempt]
    cases step : apply s x with
    | ok t =>
      exact ih (fun s e member => preserves s e (by simp [member]))
        (preserves s x (by simp) initial t step)
    | error f => exact ⟨initial, by simp⟩

end

theorem foldl_invariant {P : S → Prop} {apply : S → E → S} {effects : List E}
    (preserves : ∀ s, ∀ e ∈ effects, P s → P (apply s e)) (initial : P s) :
    P (effects.foldl apply s) := by
  induction effects generalizing s with
  | nil => exact initial
  | cons e rest ih =>
    exact ih (fun s e member => preserves s e (by simp [member])) (preserves s e (by simp) initial)

section
variable {S E : Type}

/-- `P` holds of every effect and the state it meets. -/
def Meets (apply : S → E → S) (P : S → E → Prop) : S → List E → Prop
  | _, [] => True
  | s, e :: rest => P s e ∧ Meets apply P (apply s e) rest

instance Meets.decidable {apply : S → E → S} {P : S → E → Prop} [∀ s e, Decidable (P s e)] :
    ∀ s effects, Decidable (Meets apply P s effects)
  | _, [] => .isTrue trivial
  | s, e :: rest =>
    have : Decidable (Meets apply P (apply s e) rest) := Meets.decidable (apply s e) rest
    inferInstanceAs (Decidable (P s e ∧ Meets apply P (apply s e) rest))

theorem meets_append {apply : S → E → S} {P : S → E → Prop} {first second : List E} :
    Meets apply P s (first ++ second) ↔
      Meets apply P s first ∧ Meets apply P (first.foldl apply s) second := by
  induction first generalizing s with
  | nil => simp [Meets]
  | cons e rest ih => simp [Meets, ih, and_assoc]

theorem meets_congr {apply : S → E → S} {P Q : S → E → Prop} (same : ∀ s e, P s e ↔ Q s e)
    {effects : List E} : Meets apply P s effects ↔ Meets apply Q s effects := by
  induction effects generalizing s with
  | nil => rfl
  | cons e rest ih => rw [Meets, Meets, same, ih]

theorem meets_of_forall {apply : S → E → S} {P : S → E → Prop} {effects : List E}
    (always : ∀ s, ∀ e ∈ effects, P s e) : Meets apply P s effects := by
  induction effects generalizing s with
  | nil => trivial
  | cons e rest ih =>
    exact ⟨always s e (by simp), ih fun s e member => always s e (by simp [member])⟩

/-- Where a guard holds, every effect follows a function of what the state stands for. -/
structure Simulates {A F : Type} (apply : S → E → Except F S) (abs : S → A) (f : A → E → A)
    (guard : A → E → Prop) (P : A → Prop) : Prop where
  steps : ∀ s e, P (abs s) → guard (abs s) e → ∃ t, apply s e = .ok t ∧ abs t = f (abs s) e
  preserves : ∀ a e, P a → P (f a e)

namespace Simulates
variable {A F : Type} {apply : S → E → Except F S} {abs : S → A} {f : A → E → A}
  {guard : A → E → Prop} {P : A → Prop} {xs : List E}

/-- Where every guard holds, the attempt is done and stands for the fold. -/
theorem attempt (sim : Simulates apply abs f guard P) (initial : P (abs s))
    (fits : Meets f guard (abs s) xs) :
    (attempt apply s xs).2 = none ∧ abs (attempt apply s xs).1 = xs.foldl f (abs s) := by
  induction xs generalizing s with
  | nil => exact ⟨rfl, rfl⟩
  | cons e rest ih =>
    obtain ⟨here, later⟩ := fits
    obtain ⟨t, step, follows⟩ := sim.steps s e initial here
    rw [attempt_cons step, List.foldl_cons, ← follows]
    exact ih (follows ▸ sim.preserves _ e initial) (follows ▸ later)

/-- Where an effect fails that no guard admits, it is done only so. -/
theorem done_iff (sim : Simulates apply abs f guard P)
    (stops : ∀ s e, P (abs s) → ¬ guard (abs s) e → ∃ failure, apply s e = .error failure)
    (initial : P (abs s)) :
    (Foundation.attempt apply s xs).2 = none ↔ Meets f guard (abs s) xs := by
  refine ⟨fun done => ?_, fun fits => (sim.attempt initial fits).1⟩
  induction xs generalizing s with
  | nil => trivial
  | cons e rest ih =>
    by_cases here : guard (abs s) e
    · obtain ⟨t, step, follows⟩ := sim.steps s e initial here
      rw [attempt_cons step] at done
      exact ⟨here, follows ▸ ih (follows ▸ sim.preserves _ e initial) done⟩
    · obtain ⟨failure, failed⟩ := stops s e initial here
      simp [Foundation.attempt, failed] at done

end Simulates
end
end Foundation
