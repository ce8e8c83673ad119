import Bulwark.Upstream.Health

/-!
# The probe loop

`probe_loop` of one upstream, beside the live queries that change its health as well, and
across reloads that hand the health to the next pool.  The loop sleeps until the probe that
was scheduled when it last looked, and looks again then.
-/

namespace Bulwark.Upstream

open Bulwark.Foundation

inductive ProbePhase where
  | looking
  | sleeping (due : ℚ)
  | probing
  deriving DecidableEq

inductive ProbeMark where
  | scheduled (since : ℚ)
  | probed (since : ℚ)
  | alive (since : ℚ)
  | failed (since : ℚ)
  deriving DecidableEq

inductive LiveResult where
  | success (rtt : Millis)
  | failure (err : UpstreamError)
  | softFailure (err : UpstreamError)
  | ranked (position : Nat) (held : Bool)

inductive ProberAction where
  | tick (now : ℚ)
  | live (result : LiveResult) (factor : ℚ)
  | look
  | wake
  | finish (first second : Shot) (factor : ℚ)
  /-- The next pool adopts the health. -/
  | reload (delay : ℚ)

structure Prober where
  now : ℚ
  health : Health
  phase : ProbePhase := .looking
  marks : List ProbeMark

def LiveResult.event (clock : Clock) : LiveResult → HealthEvent
  | .success rtt => .liveSuccess rtt
  | .failure err => .liveFailure err clock
  | .softFailure err => .softFailure err
  | .ranked position held => .rank position held

def HealthEvent.marks (now : ℚ) : HealthEvent → List ProbeMark
  | .probeSuccess _ _ | .probeAlive _ _ => [.alive now]
  | .liveFailure _ _ | .probeFailure _ _ => [.failed now]
  | _ => []

def isJitter (factor : ℚ) : Bool := 3 / 4 ≤ factor && factor ≤ 5 / 4

def startupProbeSpread : ℚ := 2

def isStartupDelay (delay : ℚ) : Bool := 0 ≤ delay && delay ≤ startupProbeSpread

namespace Prober

def new (now delay : ℚ) : Prober where
  now := now
  health := ({} : Health).scheduleInitialProbe (now + delay)
  marks := [.scheduled now]

def record (settings : PoolSettings) (t : Prober) (event : HealthEvent) : Prober :=
  { t with health := t.health.apply settings event, marks := t.marks ++ event.marks t.now }

/-- `probe_due_in`, and what follows. -/
def look (t : Prober) : Prober :=
  match t.health.nextProbeAt with
  | some due =>
      if t.now < due then { t with phase := .sleeping due }
      else { t with phase := .probing, marks := t.marks ++ [.probed t.now] }
  | none => { t with phase := .probing, marks := t.marks ++ [.probed t.now] }

def step (settings : PoolSettings) (t : Prober) : ProberAction → Option Prober
  | .tick now => if t.now ≤ now then some { t with now := now } else none
  | .live result factor =>
      if isJitter factor then some (t.record settings (result.event ⟨t.now, factor⟩)) else none
  | .look => if t.phase = .looking then some t.look else none
  | .wake =>
      match t.phase with
      | .sleeping due => if due ≤ t.now then some { t with phase := .looking } else none
      | _ => none
  | .finish first second factor =>
      if t.phase = .probing ∧ isJitter factor = true then
        some { t.record settings (probeOnce first second ⟨t.now, factor⟩) with phase := .looking }
      else none
  | .reload delay =>
      if isStartupDelay delay then
        some { t with health := t.health.scheduleInitialProbe (t.now + delay), phase := .looking }
      else none

end Prober

/-! ## Windows -/

namespace ProbeMark

def since : ProbeMark → ℚ
  | .scheduled since | .probed since | .alive since | .failed since => since

def isProbe : ProbeMark → Bool
  | .probed _ => true
  | _ => false

def isResult : ProbeMark → Bool
  | .alive _ | .failed _ => true
  | _ => false

/-- When the next probe may come after this. -/
def Allows (due : ℚ) : ProbeMark → Prop
  | .scheduled since => since ≤ due ∧ due ≤ since + startupProbeSpread
  | .probed _ => False
  | .alive since => since + 135 ≤ due ∧ due ≤ since + 1125
  | .failed since => since + 15 / 4 ≤ due ∧ due ≤ since + 75

end ProbeMark

/-- Probes keep their distance from the results before them. -/
def Apart (earlier later : ProbeMark) : Prop :=
  earlier.isResult = true → later.isProbe = true → earlier.since + 15 / 4 ≤ later.since

/-- The last that a probe was scheduled after. -/
def lastResult (marks : List ProbeMark) : Option ProbeMark :=
  (marks.filter fun m => !m.isProbe).getLast?

theorem Clock.after_between {clock : Clock} {delay low high : ℚ}
    (hfactor : isJitter clock.factor = true) (hlow : low ≤ delay) (hhigh : delay ≤ high)
    (hpos : 0 ≤ low) :
    clock.now + low * (3 / 4) ≤ clock.after delay ∧
      clock.after delay ≤ clock.now + high * (5 / 4) := by
  simp only [isJitter, Bool.and_eq_true, decide_eq_true_eq] at hfactor
  have hleft : low * (3 / 4) ≤ delay * clock.factor :=
    mul_le_mul hlow hfactor.1 (by norm_num) (hpos.trans hlow)
  have hright : delay * clock.factor ≤ high * (5 / 4) :=
    mul_le_mul hhigh hfactor.2 (by linarith [hfactor.1]) (hpos.trans (hlow.trans hhigh))
  simp only [Clock.after]
  constructor <;> linarith

theorem retryBackoff_between (failures : UInt32) :
    5 ≤ retryBackoff failures ∧ retryBackoff failures ≤ 60 := by
  have hpos : 1 ≤ 2 ^ min (failures.toNat - 1) 16 := Nat.one_le_two_pow
  have hlow : 5 ≤ min (5 * 2 ^ min (failures.toNat - 1) 16) 60 := by omega
  have hhigh : min (5 * 2 ^ min (failures.toNat - 1) 16) 60 ≤ 60 := min_le_right _ _
  simp only [retryBackoff]
  constructor
  · exact_mod_cast hlow
  · exact_mod_cast hhigh

theorem healthyProbeWindow_between (rank : Option UInt16) :
    180 ≤ healthyProbeWindow rank ∧ healthyProbeWindow rank ≤ 900 := by
  unfold healthyProbeWindow
  split
  · split <;> norm_num [benchProbeWindow, leadProbeWindow]
  · norm_num [leadProbeWindow]

/-! ## What an event does to the schedule -/

/-- The event takes place at the clock's time. -/
def HealthEvent.At (clock : Clock) : HealthEvent → Prop
  | .liveFailure _ c | .probeSuccess _ c | .probeAlive _ c | .probeFailure _ c => c = clock
  | .schedule _ => False
  | _ => True

theorem at_event (clock : Clock) (result : LiveResult) : (result.event clock).At clock := by
  cases result <;> simp [LiveResult.event, HealthEvent.At]

theorem at_probeOnce (clock : Clock) (first second : Shot) :
    (probeOnce first second clock).At clock := by
  cases first <;> cases second <;> simp [probeOnce, HealthEvent.At]

/-- A result schedules the next probe, and nothing else moves it. -/
inductive Schedules (h h' : Health) (now : ℚ) : List ProbeMark → Prop where
  | alive {due : ℚ} (hnext : h'.nextProbeAt = some due)
      (hallows : (ProbeMark.alive now).Allows due) (hfailures : h'.consecutiveFailures = 0) :
      Schedules h h' now [.alive now]
  | failed {due : ℚ} (hnext : h'.nextProbeAt = some due)
      (hallows : (ProbeMark.failed now).Allows due) : Schedules h h' now [.failed now]
  | same (hnext : h'.nextProbeAt = h.nextProbeAt)
      (hfailures : h'.consecutiveFailures = h.consecutiveFailures ∨ h'.consecutiveFailures = 0) :
      Schedules h h' now []

theorem schedules_apply (settings : PoolSettings) (h : Health) {event : HealthEvent}
    {clock : Clock} (hat : event.At clock) (hfactor : isJitter clock.factor = true) :
    Schedules h (h.apply settings event) clock.now (event.marks clock.now) := by
  have halive : ∀ rank, (ProbeMark.alive clock.now).Allows
      (clock.after (healthyProbeWindow rank)) := by
    intro rank
    obtain ⟨hlow, hhigh⟩ := healthyProbeWindow_between rank
    obtain ⟨hafter, hbefore⟩ := Clock.after_between hfactor hlow hhigh (by norm_num)
    simp only [ProbeMark.Allows]
    constructor <;> linarith
  have hfailed : ∀ failures, (ProbeMark.failed clock.now).Allows
      (clock.after (retryBackoff failures)) := by
    intro failures
    obtain ⟨hlow, hhigh⟩ := retryBackoff_between failures
    obtain ⟨hafter, hbefore⟩ := Clock.after_between hfactor hlow hhigh (by norm_num)
    simp only [ProbeMark.Allows]
    constructor <;> linarith
  cases event with
  | liveSuccess rtt => exact .same rfl (.inr rfl)
  | softFailure err => exact .same rfl (.inl rfl)
  | rank position held => exact .same rfl (.inl rfl)
  | schedule => cases hat
  | liveFailure err c =>
      cases hat
      exact .failed rfl (hfailed _)
  | probeFailure err c =>
      cases hat
      exact .failed rfl (hfailed _)
  | probeSuccess rtt c =>
      cases hat
      exact .alive rfl (halive _) rfl
  | probeAlive err c =>
      cases hat
      exact .alive rfl (halive _) rfl

/-! ## What every run keeps -/

theorem lastResult_append_probe (marks : List ProbeMark) (since : ℚ) :
    lastResult (marks ++ [.probed since]) = lastResult marks := by
  simp [lastResult, ProbeMark.isProbe]

theorem lastResult_append {m : ProbeMark} (h : m.isProbe = false) (marks : List ProbeMark) :
    lastResult (marks ++ [m]) = some m := by
  simp [lastResult, h]

namespace Prober

variable {settings : PoolSettings} {t t' : Prober}

structure Paced (t : Prober) : Prop where
  before : ∀ m ∈ t.marks, m.since ≤ t.now
  next : ∃ due m, t.health.nextProbeAt = some due ∧ lastResult t.marks = some m ∧
    m.Allows due ∧ (t.health.consecutiveFailures ≠ 0 → ∃ since, m = .failed since)
  clear : ∀ due, t.health.nextProbeAt = some due → ∀ m ∈ t.marks, m.isResult = true →
    m.since + 15 / 4 ≤ due
  asleep : ∀ due, t.phase = .sleeping due → ∃ m ∈ t.marks, m.Allows due
  apart : t.marks.Pairwise Apart

theorem paced_new {now delay : ℚ} (hdelay : isStartupDelay delay = true) :
    (new now delay).Paced := by
  simp only [isStartupDelay, Bool.and_eq_true, decide_eq_true_eq] at hdelay
  have hallows : (ProbeMark.scheduled now).Allows (now + delay) := by
    simp only [ProbeMark.Allows]
    constructor <;> linarith
  refine ⟨by simp [new, ProbeMark.since], ⟨_, .scheduled now, rfl, rfl, hallows, ?_⟩, ?_, ?_, ?_⟩
  · simp [new, Health.scheduleInitialProbe]
  · simp [new, ProbeMark.isResult]
  · simp [new]
  · simp [new]

theorem Paced.result {health : Health} {due : ℚ} {m : ProbeMark} (h : t.Paced)
    (hsince : m.since = t.now) (hprobe : m.isProbe = false) (hresult : m.isResult = true)
    (hnext : health.nextProbeAt = some due) (hallows : m.Allows due)
    (hlow : t.now + 15 / 4 ≤ due)
    (hfailures : health.consecutiveFailures ≠ 0 → ∃ since, m = .failed since) :
    Paced { t with health := health, marks := t.marks ++ [m] } where
  before := by
    simp only [List.mem_append, List.mem_singleton]
    rintro m' (hm' | rfl)
    · exact h.before m' hm'
    · exact hsince.le
  next := ⟨due, m, hnext, lastResult_append hprobe t.marks, hallows, hfailures⟩
  clear due' hdue' m' hm' hresult' := by
    rw [hnext] at hdue'
    cases hdue'
    simp only [List.mem_append, List.mem_singleton] at hm'
    rcases hm' with hm' | rfl
    · linarith [h.before m' hm']
    · linarith
  asleep due' hdue' := by
    obtain ⟨m', hm', hallows'⟩ := h.asleep due' hdue'
    exact ⟨m', List.mem_append_left _ hm', hallows'⟩
  apart := by
    simp only [List.pairwise_append, List.pairwise_singleton, List.mem_singleton, true_and]
    refine ⟨h.apart, fun m' _ m'' heq _ hisProbe => ?_⟩
    rw [heq, hprobe] at hisProbe
    cases hisProbe

theorem Paced.record {event : HealthEvent} {factor : ℚ} (h : t.Paced)
    (hat : event.At ⟨t.now, factor⟩) (hfactor : isJitter factor = true) :
    (t.record settings event).Paced := by
  have hschedules := schedules_apply settings t.health hat hfactor
  unfold Prober.record
  generalize t.health.apply settings event = health at hschedules ⊢
  generalize event.marks t.now = marks at hschedules ⊢
  cases hschedules with
  | alive hnext hallows hfailures =>
      refine h.result rfl rfl rfl hnext hallows ?_ (by simp [hfailures])
      linarith [hallows.1]
  | failed hnext hallows =>
      exact h.result rfl rfl rfl hnext hallows hallows.1 fun _ => ⟨t.now, rfl⟩
  | same hnext hfailures =>
      rw [List.append_nil]
      refine ⟨h.before, ?_, fun due hdue => h.clear due (hnext ▸ hdue), h.asleep, h.apart⟩
      obtain ⟨due, m, hdue, hlast, hallows, hfailed⟩ := h.next
      refine ⟨due, m, hnext.trans hdue, hlast, hallows, fun hne => hfailed ?_⟩
      rcases hfailures with hsame | hzero
      · rwa [← hsame]
      · exact absurd hzero hne

theorem Paced.look (h : t.Paced) : t.look.Paced := by
  obtain ⟨due, m, hdue, hlast, hallows, hfailed⟩ := h.next
  unfold Prober.look
  rw [hdue]
  simp only
  split
  · refine ⟨h.before, h.next, h.clear, fun due' hdue' => ?_, h.apart⟩
    cases hdue'
    have hmem := List.mem_of_getLast? hlast
    exact ⟨m, (List.mem_filter.mp hmem).1, hallows⟩
  · rename_i hpast
    refine ⟨?_, ⟨due, m, hdue, ?_, hallows, hfailed⟩, ?_, by simp, ?_⟩
    · simp only [List.mem_append, List.mem_singleton]
      rintro m' (hm' | rfl)
      · exact h.before m' hm'
      · exact le_rfl
    · rw [lastResult_append_probe, hlast]
    · intro due' hdue' m' hm' hresult
      simp only [List.mem_append, List.mem_singleton] at hm'
      rcases hm' with hm' | rfl
      · exact h.clear due' hdue' m' hm' hresult
      · cases hresult
    · simp only [List.pairwise_append, List.pairwise_singleton, List.mem_singleton, true_and]
      refine ⟨h.apart, fun m' hm' m'' heq hresult _ => ?_⟩
      have hclear := h.clear due hdue m' hm' hresult
      rw [heq]
      exact hclear.trans (not_lt.mp hpast)

theorem Paced.step {a : ProberAction} (h : t.Paced) (hstep : t.step settings a = some t') :
    t'.Paced := by
  unfold Prober.step at hstep
  cases a with
  | tick now =>
      simp only at hstep
      split at hstep <;> cases hstep
      rename_i hle
      exact ⟨fun m hm => (h.before m hm).trans hle, h.next, h.clear, h.asleep, h.apart⟩
  | live result factor =>
      simp only at hstep
      split at hstep <;> cases hstep
      exact h.record (at_event ⟨t.now, factor⟩ result) (by assumption)
  | look =>
      simp only at hstep
      split at hstep <;> cases hstep
      exact h.look
  | wake =>
      simp only at hstep
      split at hstep
      · split at hstep <;> cases hstep
        exact ⟨h.before, h.next, h.clear, by simp, h.apart⟩
      · cases hstep
  | finish first second factor =>
      simp only at hstep
      split at hstep <;> cases hstep
      rename_i hphase
      have hrecord : (t.record settings _).Paced :=
        h.record (at_probeOnce ⟨t.now, factor⟩ first second) hphase.2
      exact ⟨hrecord.before, hrecord.next, hrecord.clear, by simp, hrecord.apart⟩
  | reload delay =>
      simp only at hstep
      split at hstep <;> cases hstep
      obtain ⟨due, m, hdue, hrest⟩ := h.next
      have hsame : t.health.scheduleInitialProbe (t.now + delay) = t.health := by
        simp [Health.scheduleInitialProbe, hdue]
      rw [hsame]
      exact ⟨h.before, h.next, h.clear, by simp, h.apart⟩

/--
Probes come no sooner than 3.75 seconds after any result of a probe or failure of a query.
The next one is scheduled within a window after the last such result, or the start; a failing
upstream's, at most 75 seconds after its last failure.  The loop sleeps towards the window of
some result, which need not be the last.
-/
theorem probes_of_run {now delay : ℚ} (hdelay : isStartupDelay delay = true)
    {as : List ProberAction}
    (hrun : runFrom (step settings) (new now delay) as = some t) :
    t.marks.Pairwise Apart ∧
      (∃ due m, t.health.nextProbeAt = some due ∧ lastResult t.marks = some m ∧ m.Allows due ∧
        (t.health.consecutiveFailures ≠ 0 → ∃ since, m = .failed since)) ∧
      ∀ due, t.phase = .sleeping due → ∃ m ∈ t.marks, m.Allows due := by
  have hpaced : t.Paced :=
    runFrom_invariant (C := fun _ _ => True) (I := Paced) (fun _ _ _ _ hstep h => h.step hstep)
      (paced_new hdelay) (eachStep_trivial _ _) hrun
  exact ⟨hpaced.apart, hpaced.next, hpaced.asleep⟩

/-- An upstream that goes down while its loop sleeps: its recovery probe has to wait. -/
def lateRun : List ProberAction :=
  [.look, .tick 1, .wake, .look, .finish (.answered .zero) (.answered .zero) 1, .look,
    .tick 2, .live (.failure .timeout) 1, .live (.failure .timeout) 1, .tick 180]

theorem probes_lateRun : ∃ t, runFrom (step demoSettings) (new 0 1) lateRun = some t ∧
    t.phase = .sleeping 181 ∧ t.health.nextProbeAt = some 12 ∧
      ∃ m ∈ t.marks, m.Allows 181 := by
  have hrun : ((runFrom (step demoSettings) (new 0 1) lateRun).any fun t =>
      t.phase = .sleeping 181 && t.health.nextProbeAt = some 12) = true := by decide +kernel
  obtain ⟨t, ht, hend⟩ := (Option.any_eq_true _ _).mp hrun
  simp only [Bool.and_eq_true, decide_eq_true_eq] at hend
  exact ⟨t, ht, hend.1, hend.2, (probes_of_run (by decide +kernel) ht).2.2 181 hend.1⟩

end Prober

end Bulwark.Upstream
