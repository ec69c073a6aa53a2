import Mathlib.Algebra.Order.Archimedean.Basic
import Mathlib.Tactic.Linarith
import TelemetryEngine.Experiments.Backpressure
import TelemetryEngine.Foundation.Stability

/-! `wait_until_quiesced`. Each pass of the loop reads the clock, the lag and the number
of rebalances; all clock readings of one pass are one instant. The passes are an
unbounded sequence, of which the loop takes as many as it needs. -/
namespace TelemetryEngine.Experiments
open Foundation.Stability

/-- Lag below this counts as "caught up". -/
def recoveredLag : Int := 500
def quiesceStableS : ℚ := 20
def quiesceTimeoutS : ℚ := 300

/-- `_rebalance_count`, of the result rows. -/
def rebalanceCount (rows : List (Option Int)) : Int :=
  match rows with
  | [] => 0
  | count :: _ => count.getD 0

/-- What one pass of the loop reads. -/
structure Poll where
  time : ℚ
  totalLag : Int
  consumers : List (Option Int)

def Poll.rebalances (poll : Poll) : Int := rebalanceCount poll.consumers

/-- `stable_since` and `last_rebalances`. -/
structure Waiting where
  stableSince : Option ℚ := none
  lastRebalances : Option Int := none

/-- What the `RuntimeError` says. -/
structure NotQuiesced where
  timeoutS : ℚ
  totalLag : Int

inductive Wait where
  | polling (state : Waiting)
  | quiesced (lag rebalances : Int)
  | raised (error : NotQuiesced)

section
variable (stableS timeoutS started : ℚ)

/-- One pass of the loop: the deadline, then the three-way branch. -/
def Waiting.pass (state : Waiting) (poll : Poll) : Wait :=
  if poll.time < started + timeoutS then
    let moved := state.lastRebalances.any (poll.rebalances ≠ ·)
    let lastRebalances := some poll.rebalances
    if recoveredLag < poll.totalLag ∨ moved then .polling { stableSince := none, lastRebalances }
    else
      match state.stableSince with
      | none => .polling { stableSince := some poll.time, lastRebalances }
      | some stableSince =>
        if stableS ≤ poll.time - stableSince then .quiesced poll.totalLag poll.rebalances
        else .polling { stableSince := some stableSince, lastRebalances }
  else .raised { timeoutS, totalLag := poll.totalLag }

/-- `wait_until_quiesced`, after so many passes. -/
def waitUntilQuiesced (polls : ℕ → Poll) : ℕ → Wait
  | 0 => .polling {}
  | n + 1 =>
    match waitUntilQuiesced polls n with
    | .polling state => state.pass stableS timeoutS started (polls n)
    | ended => ended

/-- The loop is still running when it comes to a poll, and returns there. -/
def ReturnsAt (polls : ℕ → Poll) (n : ℕ) : Prop :=
  (∃ state, waitUntilQuiesced stableS timeoutS started polls n = .polling state) ∧
    ∃ lag rebalances, waitUntilQuiesced stableS timeoutS started polls (n + 1) =
      .quiesced lag rebalances

def Raises (polls : ℕ → Poll) : Prop :=
  ∃ n error, waitUntilQuiesced stableS timeoutS started polls n = .raised error

end

/-- The lag is low and the consumer group has not moved since the poll before. -/
def Quiet (polls : ℕ → Poll) (n : ℕ) : Prop :=
  (polls n).totalLag ≤ recoveredLag ∧
    ∀ before, n = before + 1 → (polls n).rebalances = (polls before).rebalances

instance (polls : ℕ → Poll) : DecidablePred (Quiet polls) := fun n =>
  match n with
  | 0 => decidable_of_iff ((polls 0).totalLag ≤ recoveredLag) (by simp [Quiet])
  | n + 1 => decidable_of_iff ((polls (n + 1)).totalLag ≤ recoveredLag ∧
      (polls (n + 1)).rebalances = (polls n).rebalances) (by simp [Quiet])

/-- The poll ends a run of quiet polls that is long enough. -/
def Quiesces (polls : ℕ → Poll) (stableS : ℚ) (n : ℕ) : Prop :=
  Settled (Quiet polls) (fun poll => (polls poll).time) stableS n

section
variable {polls : ℕ → Poll} {stableS timeoutS started : ℚ} {n : ℕ}

/-- What the loop has in hand when it comes to a poll. -/
def following (polls : ℕ → Poll) (n : ℕ) : Waiting where
  stableSince := (since (Quiet polls) n).map fun first => (polls first).time
  lastRebalances := match n with
    | 0 => none
    | before + 1 => some (polls before).rebalances

theorem moved_iff : (following polls n).lastRebalances.any ((polls n).rebalances ≠ ·) = true ↔
    ¬ ∀ before, n = before + 1 → (polls n).rebalances = (polls before).rebalances := by
  cases n with
  | zero => simp [following]
  | succ before => simp [following]

/-- One pass: over at the deadline, over at a poll that ends a long enough run, and else
on to the next poll with the timer where it belongs. -/
theorem pass_following (positive : 0 < stableS) (clock : Monotone fun n => (polls n).time) :
    (following polls n).pass stableS timeoutS started (polls n) =
      if (polls n).time < started + timeoutS then
        open Classical in
        if Quiesces polls stableS n then .quiesced (polls n).totalLag (polls n).rebalances
        else .polling (following polls (n + 1))
      else .raised { timeoutS, totalLag := (polls n).totalLag } := by
  have settled := @settled_iff _ _ _ _ (Quiet polls) _ _ n _ positive clock
  unfold Waiting.pass
  split
  case isFalse late => rfl
  case isTrue early =>
    by_cases quiet : Quiet polls n
    · have still : ¬ (recoveredLag < (polls n).totalLag ∨
          (following polls n).lastRebalances.any ((polls n).rebalances ≠ ·) = true) := by
        rw [moved_iff, not_or, not_lt, not_not]
        exact quiet
      rw [if_neg still]
      cases earlier : since (Quiet polls) n with
      | none =>
        have unsettled : ¬ Quiesces polls stableS n := by
          rw [Quiesces, settled, earlier]
          simp
        rw [if_neg unsettled]
        simp [following, earlier, since_quiet quiet]
      | some first =>
        have long : Quiesces polls stableS n ↔ stableS ≤ (polls n).time - (polls first).time := by
          rw [Quiesces, settled, earlier]
          simp [quiet]
        simp [following, earlier, since_quiet quiet, long]
    · have unsettled : ¬ Quiesces polls stableS n := by
        rw [Quiesces, settled]
        exact fun ends => quiet ends.1
      have restless : recoveredLag < (polls n).totalLag ∨
          (following polls n).lastRebalances.any ((polls n).rebalances ≠ ·) = true := by
        rw [moved_iff, ← not_le, ← not_and_or]
        exact quiet
      rw [if_pos restless, if_neg unsettled]
      simp [following, since_unquiet quiet]

/-- The loop comes to a poll where none before it was late or ended a long enough run. -/
theorem wait_polling_iff (positive : 0 < stableS) (clock : Monotone fun n => (polls n).time)
    {state : Waiting} : waitUntilQuiesced stableS timeoutS started polls n = .polling state ↔
      state = following polls n ∧ ∀ poll < n, (polls poll).time < started + timeoutS ∧
        ¬ Quiesces polls stableS poll := by
  induction n generalizing state with
  | zero => simp [waitUntilQuiesced, following, since, eq_comm]
  | succ n ih =>
    rw [waitUntilQuiesced]
    cases before : waitUntilQuiesced stableS timeoutS started polls n with
    | polling reached =>
      obtain ⟨rfl, open_⟩ := ih.mp before
      simp only [pass_following positive clock]
      constructor
      · intro passed
        split at passed
        case isFalse late => simp at passed
        case isTrue early =>
          split at passed
          case isTrue ends => simp at passed
          case isFalse unsettled =>
            refine ⟨(Wait.polling.inj passed).symm, fun poll inside => ?_⟩
            rcases Nat.lt_succ_iff_lt_or_eq.mp inside with earlier | rfl
            · exact open_ poll earlier
            · exact ⟨early, unsettled⟩
      · rintro ⟨rfl, open_⟩
        obtain ⟨early, unsettled⟩ := open_ n n.lt_succ_self
        rw [if_pos early, if_neg unsettled]
    | quiesced lag rebalances | raised error =>
      refine iff_of_false (by simp) fun ⟨_, open_⟩ => ?_
      have running := ih.mpr ⟨rfl, fun poll inside => open_ poll (inside.trans n.lt_succ_self)⟩
      rw [before] at running
      contradiction

theorem returnsAt_iff (positive : 0 < stableS) (clock : Monotone fun n => (polls n).time) :
    ReturnsAt stableS timeoutS started polls n ↔ (polls n).time < started + timeoutS ∧
      Quiesces polls stableS n ∧
      ∀ poll < n, (polls poll).time < started + timeoutS → ¬ Quiesces polls stableS poll := by
  constructor
  · rintro ⟨⟨state, running⟩, lag, rebalances, past⟩
    obtain ⟨rfl, open_⟩ := (wait_polling_iff positive clock).mp running
    rw [waitUntilQuiesced, running] at past
    simp only [pass_following positive clock] at past
    split at past
    case isFalse late => simp at past
    case isTrue early =>
      split at past
      case isFalse unsettled => simp at past
      case isTrue ends => exact ⟨early, ends, fun poll inside _ => (open_ poll inside).2⟩
  · rintro ⟨early, ends, first⟩
    have running := (@wait_polling_iff _ _ timeoutS started n positive clock _).mpr
      ⟨rfl, fun poll inside =>
        have before := (clock inside.le).trans_lt early
        ⟨before, first poll inside before⟩⟩
    refine ⟨⟨_, running⟩, (polls n).totalLag, (polls n).rebalances, ?_⟩
    rw [waitUntilQuiesced, running]
    simp only [pass_following positive clock]
    rw [if_pos early, if_pos ends]

theorem late_of_raised {error : NotQuiesced}
    (past : waitUntilQuiesced stableS timeoutS started polls n = .raised error) :
    ∃ poll state, waitUntilQuiesced stableS timeoutS started polls poll = .polling state ∧
      started + timeoutS ≤ (polls poll).time := by
  induction n generalizing error with
  | zero => simp [waitUntilQuiesced] at past
  | succ n ih =>
    rw [waitUntilQuiesced] at past
    cases before : waitUntilQuiesced stableS timeoutS started polls n with
    | polling state =>
      refine ⟨n, state, before, ?_⟩
      by_contra early
      simp only [before, Waiting.pass, if_pos (not_le.mp early)] at past
      split at past
      · contradiction
      · split at past
        · contradiction
        · split at past <;> contradiction
    | quiesced lag rebalances => simp [before] at past
    | raised earlier => exact ih before

theorem raises_iff (positive : 0 < stableS) (clock : Monotone fun n => (polls n).time) :
    Raises stableS timeoutS started polls ↔
      (¬ ∃ n, ReturnsAt stableS timeoutS started polls n) ∧
        ∃ n, started + timeoutS ≤ (polls n).time := by
  constructor
  · rintro ⟨n, error, past⟩
    obtain ⟨poll, state, running, late⟩ := late_of_raised past
    refine ⟨?_, poll, late⟩
    rintro ⟨other, returns⟩
    obtain ⟨early, ends, _⟩ := (returnsAt_iff positive clock).mp returns
    rcases lt_or_ge other poll with before | after
    · exact (((wait_polling_iff positive clock).mp running).2 other before).2 ends
    · exact (late.trans (clock after)).not_gt early
  · rintro ⟨stays, late⟩
    classical
    -- the first poll at the deadline
    have last := Nat.find_spec late
    have early : ∀ poll < Nat.find late, (polls poll).time < started + timeoutS :=
      fun poll inside => not_le.mp (Nat.find_min late inside)
    have unsettled : ∀ poll < Nat.find late, ¬ Quiesces polls stableS poll := by
      intro poll
      induction poll using Nat.strongRecOn with
      | _ poll ih =>
        intro inside ends
        exact stays ⟨poll, (returnsAt_iff positive clock).mpr ⟨early poll inside, ends,
          fun other before _ => ih other before (before.trans inside)⟩⟩
    have running := (@wait_polling_iff _ _ timeoutS started _ positive clock _).mpr
      ⟨rfl, fun poll inside => ⟨early poll inside, unsettled poll inside⟩⟩
    refine ⟨Nat.find late + 1, { timeoutS, totalLag := (polls (Nat.find late)).totalLag }, ?_⟩
    rw [waitUntilQuiesced, running]
    simp only [pass_following positive clock]
    rw [if_neg (not_lt.mpr last)]

theorem rebalances_constant {first : ℕ} (quietly : QuietFrom (Quiet polls) first n) :
    ∀ poll, first ≤ poll → poll ≤ n → (polls poll).rebalances = (polls first).rebalances := by
  intro poll after
  induction poll, after using Nat.le_induction with
  | base => exact fun _ => rfl
  | succ poll after ih =>
    intro until_
    have still := (quietly (poll + 1) (after.trans poll.le_succ) until_).2 poll rfl
    exact still.trans (ih (poll.le_succ.trans until_))

end

/-- `time.sleep(2.0)` -/
def sleepS : ℚ := 2

theorem reaches_deadline {polls : ℕ → Poll}
    (sleeps : ∀ n, (polls n).time + sleepS ≤ (polls (n + 1)).time) (deadline : ℚ) :
    ∃ n, deadline ≤ (polls n).time := by
  have grows : ∀ n : ℕ, (polls 0).time + n * sleepS ≤ (polls n).time := by
    intro n
    induction n with
    | zero => simp
    | succ n ih =>
      have next := sleeps n
      push_cast
      linarith
  obtain ⟨n, enough⟩ := exists_nat_ge (deadline - (polls 0).time)
  refine ⟨n, le_trans ?_ (grows n)⟩
  have counts : (0 : ℚ) ≤ n := n.cast_nonneg
  simp only [sleepS]
  linarith

/-- What waiting promises: where it returns, what held until then, and that it raises where
it does not return. Passes as far apart as the sleep come to one of the two. -/
structure Awaits (polls : ℕ → Poll) (stableS timeoutS started : ℚ) : Prop where
  returns_iff : ∀ n, ReturnsAt stableS timeoutS started polls n ↔
    (polls n).time < started + timeoutS ∧ Quiesces polls stableS n ∧
      ∀ poll < n, (polls poll).time < started + timeoutS → ¬ Quiesces polls stableS poll
  quiet : ∀ n, ReturnsAt stableS timeoutS started polls n →
    ∃ first ≤ n, stableS ≤ (polls n).time - (polls first).time ∧
      ∀ poll, first ≤ poll → poll ≤ n → (polls poll).totalLag ≤ recoveredLag ∧
        (polls poll).rebalances = (polls first).rebalances
  raises_iff : Raises stableS timeoutS started polls ↔
    (¬ ∃ n, ReturnsAt stableS timeoutS started polls n) ∧
      ∃ n, started + timeoutS ≤ (polls n).time
  ends : (∀ n, (polls n).time + sleepS ≤ (polls (n + 1)).time) →
    (∃ n, ReturnsAt stableS timeoutS started polls n) ∨ Raises stableS timeoutS started polls

/-- For every length of stability, timeout and sequence of passes whose clock does not run
backwards. -/
theorem quiescence_is_quiet (polls : ℕ → Poll) {stableS : ℚ} (timeoutS started : ℚ)
    (positive : 0 < stableS) (clock : Monotone fun n => (polls n).time) :
    Awaits polls stableS timeoutS started := by
  have returns_iff := fun n => @returnsAt_iff polls stableS timeoutS started n positive clock
  have raises_iff := @raises_iff polls stableS timeoutS started positive clock
  refine ⟨returns_iff, ?_, raises_iff, ?_⟩
  · intro n returns
    obtain ⟨_, ⟨first, until_, quietly, long⟩, _⟩ := (returns_iff n).mp returns
    exact ⟨first, until_, long, fun poll after inside =>
      ⟨(quietly poll after inside).1, rebalances_constant quietly poll after inside⟩⟩
  · intro sleeps
    by_cases returns : ∃ n, ReturnsAt stableS timeoutS started polls n
    · exact .inl returns
    · exact .inr (raises_iff.mpr ⟨returns, reaches_deadline sleeps _⟩)

/-- An idle pipeline, polled every two seconds. -/
def idlePolls (n : ℕ) : Poll := { time := n * sleepS, totalLag := 0, consumers := [some 3] }

theorem quiescence_idle : ReturnsAt quiesceStableS quiesceTimeoutS 0 idlePolls 10 := by
  have clock : Monotone fun n => (idlePolls n).time := fun m n ordered =>
    mul_le_mul_of_nonneg_right (Nat.cast_le.mpr ordered) (by norm_num [sleepS])
  have awaits := quiescence_is_quiet idlePolls quiesceTimeoutS 0
    (show 0 < quiesceStableS by norm_num [quiesceStableS]) clock
  have always : ∀ n, Quiet idlePolls n := fun n =>
    ⟨(by decide : (0 : Int) ≤ recoveredLag), fun before _ => rfl⟩
  refine (awaits.returns_iff 10).mpr ⟨by norm_num [idlePolls, sleepS, quiesceTimeoutS],
    ⟨0, by omega, fun poll _ _ => always poll, by norm_num [idlePolls, sleepS, quiesceStableS]⟩, ?_⟩
  rintro poll inside _ ⟨first, _, _, long⟩
  have short : (poll : ℚ) ≤ 9 := by exact_mod_cast Nat.lt_succ_iff.mp inside
  have counts : (0 : ℚ) ≤ first := first.cast_nonneg
  simp only [idlePolls, sleepS, quiesceStableS] at long
  linarith

end TelemetryEngine.Experiments
