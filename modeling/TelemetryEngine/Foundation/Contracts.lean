import TelemetryEngine.Foundation.Traced

/-! Contracts of programs that act on the outside world. A contract says what holds of the
outside when the program returns and what when it raises. A cleanup runs in both cases, and
an error of its own replaces the outcome. -/
namespace Foundation.Traced
variable {E F A B S : Type}

/-- `try: body finally: cleanup` -/
def tryFinally (body : Traced E F A) (cleanup : Traced E F Unit) : Traced E F A where
  trace := body.trace ++ cleanup.trace
  outcome := cleanup.outcome.bind fun _ => body.outcome

def onlyIf (condition : Bool) (x : Traced E F Unit) : Traced E F Unit :=
  if condition then x else pure ()

/-- The outside after a program has acted on it. -/
def after (apply : S → E → S) (s : S) (x : Traced E F A) : S := x.trace.foldl apply s

/-- Begun where `P` holds, the program returns with `Q` or raises with `R`. -/
def Contract (apply : S → E → S) (P : S → Prop) (x : Traced E F A) (Q : A → S → Prop)
    (R : F → S → Prop) : Prop :=
  ∀ s, P s → (∀ a, x.outcome = .ok a → Q a (x.after apply s)) ∧
    ∀ e, x.outcome = .error e → R e (x.after apply s)

namespace Contract
variable {apply : S → E → S} {P P' : S → Prop} {Q Q' : A → S → Prop} {R R' : F → S → Prop}
  {x : Traced E F A}

theorem returned {a : A} (holds : ∀ s, P s → Q a s) : Contract apply P (pure a) Q R :=
  fun s before => ⟨fun _ same => Except.ok.inj same ▸ holds s before, fun _ same => nomatch same⟩

theorem asked {answer : Except F A} (returns : ∀ s, P s → ∀ a, answer = .ok a → Q a s)
    (raises : ∀ s, P s → ∀ e, answer = .error e → R e s) : Contract apply P (ask answer) Q R :=
  fun s before => ⟨fun a => returns s before a, fun e => raises s before e⟩

theorem performed {effect : E} {Q : Unit → S → Prop} (holds : ∀ s, P s → Q () (apply s effect)) :
    Contract apply P (perform effect) Q R :=
  fun s before => ⟨fun _ _ => holds s before, fun _ same => nomatch same⟩

theorem weakened (contract : Contract apply P x Q R) (pre : ∀ s, P' s → P s)
    (post : ∀ a s, Q a s → Q' a s) (raised : ∀ e s, R e s → R' e s) : Contract apply P' x Q' R' :=
  fun s before =>
    have ⟨returns, raises⟩ := contract s (pre s before)
    ⟨fun a same => post a _ (returns a same), fun e same => raised e _ (raises e same)⟩

theorem chosen {condition : Bool} {x : Traced E F Unit} {Q : Unit → S → Prop}
    (yes : condition = true → Contract apply P x Q R)
    (no : condition = false → ∀ s, P s → Q () s) : Contract apply P (onlyIf condition x) Q R := by
  cases condition with
  | true => exact yes rfl
  | false => exact .returned (no rfl)

/-- What a program leaves is what the next one meets. -/
theorem followed {M : A → S → Prop} {Q : B → S → Prop} {f : A → Traced E F B}
    (first : Contract apply P x M R) (second : ∀ a, Contract apply (M a) (f a) Q R) :
    Contract apply P (x >>= f) Q R := by
  intro s before
  obtain ⟨returns, raises⟩ := first s before
  cases done : x.outcome with
  | error e =>
    rw [bind_error done]
    refine ⟨fun _ same => (nomatch same), ?_⟩
    rintro _ ⟨⟩
    exact raises e done
  | ok a =>
    rw [bind_ok done]
    have later := second a _ (returns a done)
    simp only [after, List.foldl_append] at later ⊢
    exact later

/-- A cleanup meets what the body leaves, whether it returned or raised. -/
theorem cleaned {Q' : A → S → Prop} {R' : F → S → Prop} {cleanup : Traced E F Unit}
    (body : Contract apply P x Q R)
    (returning : ∀ a, Contract apply (Q a) cleanup (fun _ => Q' a) R')
    (raising : ∀ e, Contract apply (R e) cleanup (fun _ => R' e) R') :
    Contract apply P (tryFinally x cleanup) Q' R' := by
  intro s before
  obtain ⟨returns, raises⟩ := body s before
  have folded : (tryFinally x cleanup).after apply s = cleanup.after apply (x.after apply s) := by
    simp only [after, tryFinally, List.foldl_append]
  rw [folded]
  unfold tryFinally
  cases done : x.outcome with
  | ok a =>
    obtain ⟨cleans, fails⟩ := returning a _ (returns a done)
    cases ended : cleanup.outcome with
    | ok _ =>
      refine ⟨?_, fun _ same => (nomatch same)⟩
      rintro _ ⟨⟩
      exact cleans () ended
    | error e =>
      refine ⟨fun _ same => (nomatch same), ?_⟩
      rintro _ ⟨⟩
      exact fails e ended
  | error e =>
    obtain ⟨cleans, fails⟩ := raising e _ (raises e done)
    cases ended : cleanup.outcome with
    | ok _ =>
      refine ⟨fun _ same => (nomatch same), ?_⟩
      rintro _ ⟨⟩
      exact cleans () ended
    | error e =>
      refine ⟨fun _ same => (nomatch same), ?_⟩
      rintro _ ⟨⟩
      exact fails e ended

end Contract

end Foundation.Traced
