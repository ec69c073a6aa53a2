import TelemetryEngine.Experiments.Backpressure
import TelemetryEngine.Foundation.Contracts

/-! `run_experiment` of `experiments/backpressure.py`: the phases of a run, and what its
`finally` puts back however the run ends. Each call to the outside has its answer given; any
of them may raise. -/
namespace TelemetryEngine.Experiments
open Foundation Foundation.Traced

inductive Fault where
  | runtimeError (message : String)
  | calledProcessError
  /-- Anything a library raises, an interrupt included. -/
  | other
  deriving DecidableEq, Repr

/-- A call that takes effect if it returns. If it raises, it may have done so. -/
inductive Call where
  | done
  | raises (fault : Fault) (took : Bool)
  deriving DecidableEq, Repr

/-- `endpoint.wait(timeout=30)` -/
inductive Waited where
  | exited
  | timeout
  | raises (fault : Fault)
  deriving DecidableEq, Repr

/-- A `docker` command: whether it took effect, and how the process ended. -/
structure Command where
  took : Bool
  ended : Except Fault Int

inductive Endpoint where
  | absent
  | serving
  | terminating
  | gone
  deriving DecidableEq, Repr

structure Lab where
  /-- The container of ClickHouse is paused. -/
  frozen : Bool := false
  endpoint : Endpoint := .absent
  /-- Sampler and probe are running. -/
  watched : Bool := false
  /-- Whether the container was paused when the burst ran. -/
  burstFrozen : Option Bool := none
  deriving DecidableEq, Repr

inductive Act where
  | launch
  | watch
  | loadBaseline
  | pause
  | loadBurst
  | unpause
  | unwatch
  | terminate
  | reap
  | kill
  deriving DecidableEq, Repr

def Lab.act (lab : Lab) : Act → Lab
  | .launch => { lab with endpoint := .serving }
  | .watch => { lab with watched := true }
  | .loadBaseline => lab
  | .pause => { lab with frozen := true }
  | .loadBurst => { lab with burstFrozen := some lab.frozen }
  | .unpause => { lab with frozen := false }
  | .unwatch => { lab with watched := false }
  | .terminate => { lab with endpoint := .terminating }
  | .reap | .kill => { lab with endpoint := .gone }

/-- One request to the endpoint's health, and the clock before it. -/
structure HealthPoll where
  clock : ℚ
  status : Option Int

/-- The answers a run gets, in the order in which it asks. -/
structure Answers where
  launched : Call
  deadlineSet : ℚ
  polls : List HealthPoll
  quiesced : Except Fault Unit
  rebalancesBefore : Except Fault Int
  rowsBefore : Except Fault Int
  collectorBefore : Except Fault (Option CollectorSnapshot)
  t0 : ℚ
  watched : Call
  baselineStarted : ℚ
  baseline : Except Fault LoadResult
  baselineEnded : ℚ
  rebalancesAfterBaseline : Except Fault Int
  pause : Command
  burstStarted : ℚ
  burst : Except Fault LoadResult
  burstEnded : ℚ
  unpause : Command
  stallReleased : ℚ
  recovered : Except Fault Unit
  unwatched : Call
  samples : List Sample
  probes : List ProbeResult
  settled : Except Fault Unit
  collectorAfter : Except Fault (Option CollectorSnapshot)
  rowsAfter : Except Fault Int
  rebalancesAfter : Except Fault Int
  lastUnpause : Command
  terminate : Call
  wait : Waited
  kill : Call

structure Settings where
  baselineS : ℚ := 45
  burstS : ℚ := 45
  sampleIntervalS : ℚ := 1
  stallConsumer : Bool := true

/-- What is read off a run, and when the stall was released. -/
structure Outcome where
  readings : Readings
  stallReleasedAt : Option ℚ
  rebalancesAfter : Int

structure Report where
  outcome : Outcome
  checks : List Check

abbrev Step (α : Type) := Traced Act Fault α

def call (act : Act) : Call → Step Unit
  | .done => perform act
  | .raises fault took => do
    onlyIf took (perform act)
    ask (.error fault)

/-- `subprocess.run(["docker", …], check=…)` -/
def docker (act : Act) (command : Command) (check : Bool) : Step Unit := do
  onlyIf command.took (perform act)
  let code ← ask command.ended
  onlyIf (check && code ≠ 0) (ask (.error .calledProcessError))

/-- The loop until the endpoint answers. One that is left by neither way was interrupted. -/
def awaitReady (deadline : ℚ) : List HealthPoll → Except Fault Unit
  | [] => .error .other
  | poll :: rest =>
    if poll.clock < deadline then
      if poll.status = some 200 then .ok () else awaitReady deadline rest
    else .error (.runtimeError "mock endpoint did not become ready")

def snapshotOr (message : String) (answer : Except Fault (Option CollectorSnapshot)) :
    Except Fault CollectorSnapshot :=
  match answer with
  | .error fault => .error fault
  | .ok none => .error (.runtimeError message)
  | .ok (some snapshot) => .ok snapshot

/-- The body of the `try`. -/
def phases (settings : Settings) (answers : Answers) : Step Outcome := do
  ask (awaitReady (answers.deadlineSet + 60) answers.polls)
  ask answers.quiesced
  let rebalancesBefore ← ask answers.rebalancesBefore
  let rowsBefore ← ask answers.rowsBefore
  let before ← ask (snapshotOr "collector metrics unreachable; cannot establish a baseline"
    answers.collectorBefore)
  call .watch answers.watched
  perform .loadBaseline
  let baseline ← ask answers.baseline
  let rebalancesAfterBaseline ← ask answers.rebalancesAfterBaseline
  onlyIf settings.stallConsumer (docker .pause answers.pause true)
  perform .loadBurst
  let burst ← ask answers.burst
  onlyIf settings.stallConsumer (docker .unpause answers.unpause true)
  ask answers.recovered
  call .unwatch answers.unwatched
  ask answers.settled
  let after ← ask (snapshotOr "collector metrics unreachable at the end of the run"
    answers.collectorAfter)
  let rowsAfter ← ask answers.rowsAfter
  let rebalancesAfter ← ask answers.rebalancesAfter
  return {
    readings := {
      baselineS := settings.baselineS
      burstS := settings.burstS
      sampleIntervalS := settings.sampleIntervalS
      baseline, burst, before, after, rowsBefore, rowsAfter, rebalancesBefore
      rebalancesAfterBaseline
      samples := answers.samples
      probes := answers.probes
      baselineStartedAt := answers.baselineStarted - answers.t0
      baselineEndedAt := answers.baselineEnded - answers.t0
      burstStartedAt := answers.burstStarted - answers.t0
      burstEndedAt := answers.burstEnded - answers.t0 }
    stallReleasedAt :=
      if settings.stallConsumer then some (answers.stallReleased - answers.t0) else none
    rebalancesAfter }

/-- The `finally`. -/
def putBack (settings : Settings) (answers : Answers) : Step Unit := do
  onlyIf settings.stallConsumer (docker .unpause answers.lastUnpause false)
  call .terminate answers.terminate
  match answers.wait with
  | .exited => perform .reap
  | .timeout => call .kill answers.kill
  | .raises fault => ask (.error fault)

def runExperiment (settings : Settings) (answers : Answers) : Step Report := do
  call .launch answers.launched
  let outcome ← tryFinally (phases settings answers) (putBack settings answers)
  return { outcome, checks := validate outcome.readings.result }

/-! ### What a run leaves behind -/

/-- While the phases go on the endpoint serves, and only a stall freezes the container. -/
def Serving (settings : Settings) (lab : Lab) : Prop :=
  lab.endpoint = .serving ∧ (settings.stallConsumer = false → lab.frozen = false)

/-- The burst has met the container as the settings want it, unless the command that pauses it
says it was done and did nothing. -/
def BurstMet (settings : Settings) (answers : Answers) (lab : Lab) : Prop :=
  (answers.pause.ended = .ok 0 → answers.pause.took = true) →
    lab.burstFrozen = some settings.stallConsumer

theorem kept {A : Type} {P : Lab → Prop} {R : Fault → Lab → Prop} {answer : Except Fault A}
    (raised : ∀ fault lab, P lab → R fault lab) :
    Contract Lab.act P (ask answer) (fun _ => P) R :=
  .asked (fun _ before _ _ => before) fun lab before fault _ => raised fault lab before

theorem call_contract {P Q : Lab → Prop} {R : Fault → Lab → Prop} {act : Act} {made : Call}
    (done : ∀ lab, P lab → Q (lab.act act))
    (fails : ∀ lab, P lab → ∀ fault took, made = .raises fault took →
      R fault (if took then lab.act act else lab)) :
    Contract Lab.act P (call act made) (fun _ => Q) R := by
  cases made with
  | done => exact .performed done
  | raises fault took =>
    refine Contract.followed (M := fun _ lab => R fault lab) ?_ fun _ =>
      .asked (fun _ _ _ raised => nomatch raised) fun lab met _ raised => ?_
    · refine .chosen (fun took => .performed fun lab before => ?_) fun idle lab before => ?_
      · simpa [took] using fails lab before fault _ rfl
      · simpa [idle] using fails lab before fault _ rfl
    · exact Except.error.inj raised ▸ met

theorem docker_contract {P : Lab → Prop} {Q : Lab → Prop} {R : Fault → Lab → Prop} {act : Act}
    {command : Command} {check : Bool}
    (done : ∀ lab, P lab → ∀ code, command.ended = .ok code → (check = true → code = 0) →
      Q (if command.took then lab.act act else lab))
    (fails : ∀ lab, P lab → ∀ fault, command.ended = .error fault ∨ check = true →
      R fault (if command.took then lab.act act else lab)) :
    Contract Lab.act P (docker act command check) (fun _ => Q) R := by
  let acted := fun lab : Lab => if command.took then lab.act act else lab
  refine Contract.followed (M := fun _ lab => ∃ earlier, P earlier ∧ lab = acted earlier) ?_
    fun _ => Contract.followed (M := fun code lab => ∃ earlier, P earlier ∧ lab = acted earlier ∧
      command.ended = .ok code) ?_ fun code => ?_
  · refine .chosen (fun took => ?_) fun idle lab before => ⟨lab, before, by simp [acted, idle]⟩
    exact .performed fun lab before => ⟨lab, before, by simp [acted, took]⟩
  · refine .asked (fun lab met code ended => ?_) fun lab met fault ended => ?_
    · obtain ⟨earlier, before, rfl⟩ := met
      exact ⟨earlier, before, rfl, ended⟩
    · obtain ⟨earlier, before, rfl⟩ := met
      exact fails earlier before fault (.inl ended)
  · refine .chosen (fun strict => ?_) fun passed lab met => ?_
    · refine .asked (fun lab met a raised => nomatch raised) fun lab met fault _ => ?_
      obtain ⟨earlier, before, rfl, _⟩ := met
      exact fails earlier before fault (.inr (Bool.and_eq_true_iff.mp strict).1)
    · obtain ⟨earlier, before, rfl, ended⟩ := met
      refine done earlier before code ended fun strict => ?_
      simpa [strict] using passed

/-- Before a stall. -/
def Unstalled (lab : Lab) : Prop := lab.endpoint = .serving ∧ lab.frozen = false

/-- The container is as the burst is to meet it, under the same reservation. -/
def Stalled (settings : Settings) (answers : Answers) (lab : Lab) : Prop :=
  Serving settings lab ∧ ((answers.pause.ended = .ok 0 → answers.pause.took = true) →
    lab.frozen = settings.stallConsumer)

/-- The burst was met, and everything else still runs. -/
def Burst (settings : Settings) (answers : Answers) (lab : Lab) : Prop :=
  Serving settings lab ∧ BurstMet settings answers lab

section
variable {settings : Settings} {answers : Answers} {lab : Lab}

theorem Unstalled.serving (here : Unstalled lab) : Serving settings lab := ⟨here.1, fun _ => here.2⟩

theorem Stalled.burst (here : Stalled settings answers lab) :
    Burst settings answers (lab.act .loadBurst) :=
  ⟨here.1, fun honest => congrArg some (here.2 honest)⟩

theorem Burst.unpaused (here : Burst settings answers lab) (took : Bool) :
    Burst settings answers (if took then lab.act .unpause else lab) := by
  cases took with
  | true => exact ⟨⟨here.1.1, fun _ => rfl⟩, here.2⟩
  | false => exact here

theorem pause_contract : Contract Lab.act Unstalled
    (onlyIf settings.stallConsumer (docker .pause answers.pause true))
    (fun _ => Stalled settings answers) fun _ => Serving settings := by
  refine .chosen (fun stalls => ?_) fun flows lab here =>
    ⟨here.serving, fun _ => here.2.trans flows.symm⟩
  have serving : ∀ lab, Unstalled lab →
      Serving settings (if answers.pause.took then lab.act .pause else lab) := by
    intro lab here
    refine ⟨?_, fun flows => absurd (stalls.symm.trans flows) (by decide)⟩
    split
    · exact here.1
    · exact here.1
  refine docker_contract (fun lab here code ended zero => ⟨serving lab here, fun honest => ?_⟩)
    fun lab here _ _ => serving lab here
  rw [zero rfl] at ended
  rw [honest ended, stalls]
  rfl

theorem unpause_contract : Contract Lab.act (Burst settings answers)
    (onlyIf settings.stallConsumer (docker .unpause answers.unpause true))
    (fun _ => Burst settings answers) fun _ => Serving settings :=
  .chosen (fun _ => docker_contract (fun _ here _ _ _ => here.unpaused _)
    fun _ here _ _ => (here.unpaused _).1) fun _ _ here => here

end

theorem phases_contract (settings : Settings) (answers : Answers) :
    Contract Lab.act (fun lab => lab = { endpoint := .serving }) (phases settings answers)
      (fun _ lab => Burst settings answers lab ∧ lab.watched = false)
      fun _ lab => Serving settings lab := by
  have launched : ∀ (fault : Fault) (lab : Lab), lab = { endpoint := .serving } →
      Serving settings lab := by
    rintro _ _ rfl
    exact ⟨rfl, fun _ => rfl⟩
  have early : ∀ (fault : Fault) (lab : Lab), Unstalled lab → Serving settings lab :=
    fun _ _ here => here.serving
  have late : ∀ (fault : Fault) (lab : Lab), Burst settings answers lab → Serving settings lab :=
    fun _ _ here => here.1
  have last : ∀ (fault : Fault) (lab : Lab), Burst settings answers lab ∧ lab.watched = false →
      Serving settings lab := fun _ _ here => here.1.1
  refine (kept launched).followed fun _ => (kept launched).followed fun _ =>
    (kept launched).followed fun _ => (kept launched).followed fun _ =>
      (kept launched).followed fun _ => ?_
  -- the watchers start, and the baseline runs
  refine Contract.followed (M := fun _ => Unstalled) (call_contract ?_ ?_) fun _ => ?_
  · rintro _ rfl
    exact ⟨rfl, rfl⟩
  · rintro _ rfl fault took _
    cases took <;> exact ⟨rfl, fun _ => rfl⟩
  refine Contract.followed (M := fun _ => Unstalled) (.performed fun _ here => here) fun _ => ?_
  refine (kept early).followed fun _ => (kept early).followed fun _ => ?_
  refine pause_contract.followed fun _ => ?_
  refine Contract.followed (M := fun _ => Burst settings answers)
    (.performed fun _ here => here.burst) fun _ => (kept late).followed fun _ => ?_
  refine unpause_contract.followed fun _ => (kept late).followed fun _ => ?_
  refine Contract.followed (M := fun _ lab => Burst settings answers lab ∧ lab.watched = false)
    (call_contract (fun lab here => ⟨here, rfl⟩) fun lab here fault took _ => ?_) fun _ => ?_
  · cases took <;> exact here.1
  exact (kept last).followed fun _ => (kept last).followed fun _ => (kept last).followed fun _ =>
    (kept last).followed fun _ => .returned fun _ here => here

/-- The errors with which the cleanup may leave the endpoint so. -/
def Excused (settings : Settings) (answers : Answers) (fault : Fault) : Endpoint → Prop
  | .absent | .gone => True
  | .serving => settings.stallConsumer = true ∧ answers.lastUnpause.ended = .error fault ∨
      answers.terminate = .raises fault false ∨ answers.launched = .raises fault true
  | .terminating => answers.terminate = .raises fault true ∨ answers.wait = .raises fault ∨
      answers.wait = .timeout ∧ answers.kill = .raises fault false

/-- The container as the last command leaves it, and everything else as it was where `P` held. -/
def Thawed (settings : Settings) (answers : Answers) (P : Lab → Prop) (lab : Lab) : Prop :=
  (lab.frozen = true → settings.stallConsumer = true ∧ answers.lastUnpause.took = false) ∧
    ∃ earlier, P earlier ∧ lab.watched = earlier.watched ∧ lab.burstFrozen = earlier.burstFrozen

section
variable {settings : Settings} {answers : Answers} {P : Lab → Prop}

theorem lastUnpause_contract (serving : ∀ lab, P lab → Serving settings lab) :
    Contract Lab.act P (onlyIf settings.stallConsumer (docker .unpause answers.lastUnpause false))
      (fun _ lab => lab.endpoint = .serving ∧ Thawed settings answers P lab)
      fun fault lab => Thawed settings answers P lab ∧ Excused settings answers fault lab.endpoint := by
  refine .chosen (fun stalls => ?_) fun flows lab here => ?_
  · have thawed : ∀ lab, P lab → (if answers.lastUnpause.took then lab.act .unpause else
        lab).endpoint = .serving ∧ Thawed settings answers P
          (if answers.lastUnpause.took then lab.act .unpause else lab) := by
      intro lab here
      cases took : answers.lastUnpause.took with
      | true => exact ⟨(serving lab here).1, fun frozen => (nomatch frozen), lab, here, rfl, rfl⟩
      | false => exact ⟨(serving lab here).1, fun _ => ⟨stalls, took⟩, lab, here, rfl, rfl⟩
    refine docker_contract (fun lab here _ _ _ => thawed lab here) fun lab here fault ended => ?_
    obtain ⟨serves, still⟩ := thawed lab here
    refine ⟨still, ?_⟩
    rw [serves]
    exact .inl ⟨stalls, ended.resolve_right (by decide)⟩
  · exact ⟨(serving lab here).1,
      fun frozen => absurd (((serving lab here).2 flows).symm.trans frozen) (by decide),
      lab, here, rfl, rfl⟩

theorem terminate_contract : Contract Lab.act
    (fun lab => lab.endpoint = .serving ∧ Thawed settings answers P lab)
    (call .terminate answers.terminate)
    (fun _ lab => lab.endpoint = .terminating ∧ Thawed settings answers P lab)
    fun fault lab => Thawed settings answers P lab ∧ Excused settings answers fault lab.endpoint := by
  refine call_contract (fun lab here => ⟨rfl, here.2⟩) fun lab here fault took raised => ?_
  cases took with
  | true => exact ⟨here.2, .inl raised⟩
  | false =>
    refine ⟨here.2, ?_⟩
    rw [if_neg Bool.false_ne_true, here.1]
    exact .inr (.inl raised)

theorem kill_contract (waited : answers.wait = .timeout) : Contract Lab.act
    (fun lab => lab.endpoint = .terminating ∧ Thawed settings answers P lab)
    (call .kill answers.kill)
    (fun _ lab => lab.endpoint = .gone ∧ Thawed settings answers P lab)
    fun fault lab => Thawed settings answers P lab ∧ Excused settings answers fault lab.endpoint := by
  refine call_contract (fun lab here => ⟨rfl, here.2⟩) fun lab here fault took raised => ?_
  cases took with
  | true => exact ⟨here.2, trivial⟩
  | false =>
    refine ⟨here.2, ?_⟩
    rw [if_neg Bool.false_ne_true, here.1]
    exact .inr (.inr ⟨waited, raised⟩)

/-- The `finally` ends the endpoint, unless one of its own calls raises. -/
theorem putBack_contract (serving : ∀ lab, P lab → Serving settings lab) :
    Contract Lab.act P (putBack settings answers)
      (fun _ lab => lab.endpoint = .gone ∧ Thawed settings answers P lab)
      fun fault lab =>
        Thawed settings answers P lab ∧ Excused settings answers fault lab.endpoint := by
  refine (lastUnpause_contract serving).followed fun _ => terminate_contract.followed fun _ => ?_
  cases waited : answers.wait with
  | exited => exact .performed fun lab here => ⟨rfl, here.2⟩
  | timeout => exact kill_contract waited
  | raises fault =>
    refine .asked (fun _ _ _ raised => nomatch raised) fun lab here _ raised => ⟨here.2, ?_⟩
    rw [here.1]
    exact .inr (.inl (waited.trans (congrArg Waited.raises (Except.error.inj raised))))

end

/-- The container is left paused only if the last command to docker takes no effect, and the
endpoint is left running only if its launch or a call that puts it back raises. -/
structure Restored (settings : Settings) (answers : Answers) (outcome : Except Fault Report)
    (lab : Lab) : Prop where
  thawed : lab.frozen = true → settings.stallConsumer = true ∧ answers.lastUnpause.took = false
  ended : lab.endpoint = .absent ∨ lab.endpoint = .gone ∨
    ∃ fault, outcome = .error fault ∧ Excused settings answers fault lab.endpoint

/-- What a run that returns has done. -/
structure Completed (settings : Settings) (answers : Answers) (report : Report) (lab : Lab) :
    Prop where
  gone : lab.endpoint = .gone
  unwatched : lab.watched = false
  burst : BurstMet settings answers lab
  checks : report.checks = validate report.outcome.readings.result

theorem runExperiment_contract (settings : Settings) (answers : Answers) :
    Contract Lab.act (· = {}) (runExperiment settings answers)
      (fun report lab => Restored settings answers (.ok report) lab ∧
        Completed settings answers report lab)
      fun fault lab => Restored settings answers (.error fault) lab := by
  refine Contract.followed (M := fun _ lab => lab = { endpoint := .serving })
    (call_contract ?_ fun lab here fault took raised => ?_) fun _ => ?_
  · rintro _ rfl
    rfl
  · subst here
    cases took with
    | true => exact ⟨fun frozen => (nomatch frozen), .inr (.inr ⟨fault, rfl, .inr (.inr raised)⟩)⟩
    | false => exact ⟨fun frozen => (nomatch frozen), .inl rfl⟩
  refine Contract.followed (M := fun _ lab => lab.endpoint = .gone ∧ Thawed settings answers
    (fun lab => Burst settings answers lab ∧ lab.watched = false) lab)
    (Contract.cleaned (phases_contract settings answers) (fun outcome => ?_) fun fault => ?_)
    fun outcome => .returned fun lab here => ?_
  · refine (putBack_contract fun lab here => here.1.1).weakened (fun _ here => here)
      (fun _ _ here => here) fun fault lab here => ?_
    exact ⟨here.1.1, .inr (.inr ⟨fault, rfl, here.2⟩)⟩
  · refine (putBack_contract fun lab here => here).weakened (fun _ here => here)
      (fun _ lab here => ?_) fun fault lab here => ?_
    · exact ⟨here.2.1, .inr (.inl here.1)⟩
    · exact ⟨here.1.1, .inr (.inr ⟨fault, rfl, here.2⟩)⟩
  · obtain ⟨gone, thawed, earlier, ⟨⟨_, met⟩, unwatched⟩, watch, burst⟩ := here
    exact ⟨⟨thawed, .inr (.inl gone)⟩, gone, watch.trans unwatched,
      fun honest => burst.trans (met honest), rfl⟩

end TelemetryEngine.Experiments
