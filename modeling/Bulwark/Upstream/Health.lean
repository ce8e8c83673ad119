import Mathlib.Algebra.Order.Field.Rat
import Mathlib.Tactic.Linarith
import Mathlib.Tactic.Positivity
import Bulwark.Foundation.Runs
import Bulwark.Upstream.Transport

/-!
# Upstream health

The record every upstream keeps about itself, and the ways live queries and probes
change it.  Instants and durations are rational numbers of seconds; the random factor of
a jittered delay and the current instant are arguments.  Totals and samples are 64-bit
counters of events that are never that many; the 32-bit count of failures wraps around.
-/

namespace Bulwark.Upstream

open Bulwark.Foundation Bulwark.Dns

/-! ## Latencies -/

/-- The timer that ends an attempt counts milliseconds in 64 bits. -/
def maxMillis : ℚ := 2 ^ 64 - 1

structure Millis where
  val : ℚ
  nonneg : 0 ≤ val
  le_max : val ≤ maxMillis
  deriving DecidableEq

def Millis.zero : Millis := ⟨0, le_rfl, by unfold maxMillis; norm_num⟩

structure Alpha where
  val : ℚ
  nonneg : 0 ≤ val
  le_one : val ≤ 1
  deriving DecidableEq

def ewma (samples : Nat) (prev sample : Millis) (alpha : Alpha) : Millis :=
  if samples = 0 then sample
  else
    { val := alpha.val * sample.val + (1 - alpha.val) * prev.val
      nonneg := by
        have hrest : 0 ≤ 1 - alpha.val := by linarith [alpha.le_one]
        have hleft := mul_nonneg alpha.nonneg sample.nonneg
        have hright := mul_nonneg hrest prev.nonneg
        linarith
      le_max := by
        have hrest : 0 ≤ 1 - alpha.val := by linarith [alpha.le_one]
        have hleft := mul_le_mul_of_nonneg_left sample.le_max alpha.nonneg
        have hright := mul_le_mul_of_nonneg_left prev.le_max hrest
        linarith }

/-! ## Probe delays -/

def leadProbeWindow : ℚ := 180
def benchProbeWindow : ℚ := 900
def leadProbeRanks : UInt16 := 2

def healthyProbeWindow (rank : Option UInt16) : ℚ :=
  match rank with
  | some r => if leadProbeRanks ≤ r then benchProbeWindow else leadProbeWindow
  | none => leadProbeWindow

/-- The capped exponential recovery delay, from five seconds to a minute. -/
def retryBackoff (consecutiveFailures : UInt32) : ℚ :=
  let steps := min (consecutiveFailures.toNat - 1) 16
  (min (5 * 2 ^ steps) 60 : Nat)

/-- When something is scheduled: the instant, and the random factor of the delay. -/
structure Clock where
  now : ℚ
  factor : ℚ
  deriving DecidableEq

/-- `Instant::now() + jitter(delay)` -/
def Clock.after (clock : Clock) (delay : ℚ) : ℚ := clock.now + delay * clock.factor

/-! ## The record -/

structure Health where
  /-- Smoothed probe latency used for routing. -/
  probeEwmaMs : Millis := .zero
  probeSamples : Nat := 0
  probeAt : Option ℚ := none
  up : Bool := true
  consecutiveFailures : UInt32 := 0
  totalQueries : Nat := 0
  totalFailures : Nat := 0
  lastRttMs : Option Millis := none
  liveEwmaMs : Millis := .zero
  liveSamples : Nat := 0
  lastRank : Option UInt16 := none
  leadHeld : Bool := false
  lastError : Option UpstreamError := none
  nextProbeAt : Option ℚ := none
  deriving DecidableEq

namespace Health

def routingLatencyMs (h : Health) : Option Millis :=
  if 0 < h.probeSamples then some h.probeEwmaMs else none

def foldProbeAlive (h : Health) (clock : Clock) : Health :=
  { h with
    consecutiveFailures := 0
    up := true
    lastError := none
    nextProbeAt := some (clock.after (healthyProbeWindow h.lastRank)) }

def foldFailure (h : Health) (err : UpstreamError) (threshold : UInt32) (clock : Clock) : Health :=
  let failures := h.consecutiveFailures + 1
  { h with
    consecutiveFailures := failures
    lastError := some err
    up := if threshold ≤ failures then false else h.up
    nextProbeAt := some (clock.after (retryBackoff failures)) }

def recordLiveSuccess (h : Health) (rtt : Millis) (alpha : Alpha) : Health :=
  { h with
    totalQueries := h.totalQueries + 1
    lastRttMs := some rtt
    liveEwmaMs := ewma h.liveSamples h.liveEwmaMs rtt alpha
    liveSamples := h.liveSamples + 1
    consecutiveFailures := 0
    up := true
    lastError := none }

def recordLiveFailure (h : Health) (err : UpstreamError) (threshold : UInt32) (clock : Clock) :
    Health :=
  { h with totalQueries := h.totalQueries + 1, totalFailures := h.totalFailures + 1
    }.foldFailure err threshold clock

/-- A failure of the query, not of the upstream. -/
def recordSoftFailure (h : Health) (err : UpstreamError) : Health :=
  { h with
    totalQueries := h.totalQueries + 1
    totalFailures := h.totalFailures + 1
    lastError := some err }

def recordProbeSuccess (h : Health) (rtt : Millis) (alpha : Alpha) (clock : Clock) : Health :=
  { h with
    probeEwmaMs := ewma h.probeSamples h.probeEwmaMs rtt alpha
    probeSamples := h.probeSamples + 1
    probeAt := some clock.now }.foldProbeAlive clock

/-- Reachable, without a latency. -/
def recordProbeAlive (h : Health) (err : UpstreamError) (clock : Clock) : Health :=
  { h.foldProbeAlive clock with lastError := some err }

def recordProbeFailure (h : Health) (err : UpstreamError) (threshold : UInt32) (clock : Clock) :
    Health :=
  h.foldFailure err threshold clock

/-- The first probe of a new upstream, after a part of the startup delay. -/
def scheduleInitialProbe (h : Health) (at' : ℚ) : Health :=
  if h.nextProbeAt.isNone then { h with nextProbeAt := some at' } else h

/-- What `ordered` writes down. -/
def rank (h : Health) (position : Nat) (held : Bool) : Health :=
  { h with
    lastRank := some (UInt16.ofNat (min position (2 ^ 16 - 1)))
    leadHeld := position = 0 && held }

end Health

/-! ## Events -/

structure PoolSettings where
  ewmaAlpha : Alpha
  failureThreshold : UInt32
  deriving DecidableEq

inductive HealthEvent where
  | liveSuccess (rtt : Millis)
  | liveFailure (err : UpstreamError) (clock : Clock)
  | softFailure (err : UpstreamError)
  | probeSuccess (rtt : Millis) (clock : Clock)
  | probeAlive (err : UpstreamError) (clock : Clock)
  | probeFailure (err : UpstreamError) (clock : Clock)
  | schedule (at' : ℚ)
  | rank (position : Nat) (held : Bool)
  deriving DecidableEq

def Health.apply (settings : PoolSettings) (h : Health) : HealthEvent → Health
  | .liveSuccess rtt => h.recordLiveSuccess rtt settings.ewmaAlpha
  | .liveFailure err clock => h.recordLiveFailure err settings.failureThreshold clock
  | .softFailure err => h.recordSoftFailure err
  | .probeSuccess rtt clock => h.recordProbeSuccess rtt settings.ewmaAlpha clock
  | .probeAlive err clock => h.recordProbeAlive err clock
  | .probeFailure err clock => h.recordProbeFailure err settings.failureThreshold clock
  | .schedule at' => h.scheduleInitialProbe at'
  | .rank position held => h.rank position held

def Health.after (settings : PoolSettings) (events : List HealthEvent) : Health :=
  events.foldl (Health.apply settings) {}

inductive Shot where
  | answered (rtt : Millis)
  | failed (err : UpstreamError)
  deriving DecidableEq

/-- `probe_once`: the first shot is for liveness, the second one for latency. -/
def probeOnce (first second : Shot) (clock : Clock) : HealthEvent :=
  match first, second with
  | .answered _, .answered warm => .probeSuccess warm clock
  | .answered _, .failed err => .probeAlive err clock
  | .failed err, _ => .probeFailure err clock

namespace HealthEvent

def isSuccess : HealthEvent → Bool
  | .liveSuccess _ | .probeSuccess _ _ | .probeAlive _ _ => true
  | _ => false

def isHardFailure : HealthEvent → Bool
  | .liveFailure _ _ | .probeFailure _ _ => true
  | _ => false

def isProbe : HealthEvent → Bool
  | .probeSuccess _ _ | .probeAlive _ _ | .probeFailure _ _ => true
  | _ => false

def isProbeSuccess : HealthEvent → Bool
  | .probeSuccess _ _ => true
  | _ => false

end HealthEvent

/-- The hard failures since the last success of any kind. -/
def hardFailures (events : List HealthEvent) : Nat :=
  events.foldl (fun n event =>
    if event.isSuccess then 0 else if event.isHardFailure then n + 1 else n) 0

/-! ## The state machine -/

section

variable {settings : PoolSettings}

theorem apply_success (h : Health) {event : HealthEvent} (hevent : event.isSuccess = true) :
    (h.apply settings event).up = true ∧ (h.apply settings event).consecutiveFailures = 0 := by
  cases event <;> first | exact ⟨rfl, rfl⟩ | cases hevent

theorem apply_hardFailure (h : Health) {event : HealthEvent}
    (hevent : event.isHardFailure = true) :
    (h.apply settings event).consecutiveFailures = h.consecutiveFailures + 1 ∧
      (h.apply settings event).up =
        if settings.failureThreshold ≤ h.consecutiveFailures + 1 then false else h.up := by
  cases event <;> first | exact ⟨rfl, rfl⟩ | cases hevent

theorem apply_other (h : Health) {event : HealthEvent} (hsuccess : event.isSuccess = false)
    (hfailure : event.isHardFailure = false) :
    (h.apply settings event).up = h.up ∧
      (h.apply settings event).consecutiveFailures = h.consecutiveFailures := by
  cases event with
  | softFailure err => exact ⟨rfl, rfl⟩
  | rank position held => exact ⟨rfl, rfl⟩
  | schedule at' =>
      rw [Health.apply, Health.scheduleInitialProbe]
      split <;> exact ⟨rfl, rfl⟩
  | liveSuccess rtt => cases hsuccess
  | probeSuccess rtt clock => cases hsuccess
  | probeAlive err clock => cases hsuccess
  | liveFailure err clock => cases hfailure
  | probeFailure err clock => cases hfailure

theorem apply_totals (h : Health) (event : HealthEvent) :
    (h.totalFailures ≤ h.totalQueries →
      (h.apply settings event).totalFailures ≤ (h.apply settings event).totalQueries) ∧
    (event.isProbe = true → (h.apply settings event).totalQueries = h.totalQueries ∧
      (h.apply settings event).totalFailures = h.totalFailures) := by
  cases event with
  | liveSuccess rtt => exact ⟨fun hle => Nat.le_succ_of_le hle, fun hprobe => by cases hprobe⟩
  | liveFailure err clock => exact ⟨fun hle => Nat.succ_le_succ hle, fun hprobe => by cases hprobe⟩
  | softFailure err => exact ⟨fun hle => Nat.succ_le_succ hle, fun hprobe => by cases hprobe⟩
  | probeSuccess rtt clock => exact ⟨fun hle => hle, fun _ => ⟨rfl, rfl⟩⟩
  | probeAlive err clock => exact ⟨fun hle => hle, fun _ => ⟨rfl, rfl⟩⟩
  | probeFailure err clock => exact ⟨fun hle => hle, fun _ => ⟨rfl, rfl⟩⟩
  | schedule at' =>
      rw [Health.apply, Health.scheduleInitialProbe]
      split <;> exact ⟨fun hle => hle, fun _ => ⟨rfl, rfl⟩⟩
  | rank position held => exact ⟨fun hle => hle, fun _ => ⟨rfl, rfl⟩⟩

theorem apply_routingLatency (h : Health) {event : HealthEvent}
    (hevent : event.isProbeSuccess = false) :
    (h.apply settings event).routingLatencyMs = h.routingLatencyMs := by
  cases event with
  | probeSuccess rtt clock => cases hevent
  | schedule at' =>
      rw [Health.apply, Health.scheduleInitialProbe]
      split <;> rfl
  | _ => rfl

/-- What the failures so far say about the record. -/
structure Health.Sound (settings : PoolSettings) (h : Health) (failures : Nat) : Prop where
  count : h.consecutiveFailures.toNat = failures % 2 ^ 32
  down : failures < 2 ^ 32 → (h.up = false ↔ settings.failureThreshold.toNat ≤ failures)
  totals : h.totalFailures ≤ h.totalQueries

theorem Health.Sound.apply {h : Health} {failures : Nat} (hsound : h.Sound settings failures)
    (hthreshold : 1 ≤ settings.failureThreshold) (event : HealthEvent) :
    (h.apply settings event).Sound settings
      (if event.isSuccess then 0 else if event.isHardFailure then failures + 1 else failures) := by
  have hpos : 1 ≤ settings.failureThreshold.toNat := hthreshold
  have htotals := (@apply_totals settings h event).1 hsound.totals
  cases hsuccess : event.isSuccess with
  | true =>
      obtain ⟨hup, hzero⟩ := @apply_success settings h event hsuccess
      refine ⟨by rw [hzero]; rfl, fun _ => ?_, htotals⟩
      rw [hup, if_pos rfl]
      simp only [Bool.true_eq_false, false_iff]
      omega
  | false =>
      rw [if_neg (by simp)]
      cases hfailure : event.isHardFailure with
      | false =>
          obtain ⟨hup, hsame⟩ := @apply_other settings h event hsuccess hfailure
          exact ⟨by rw [hsame]; exact hsound.count, by rw [hup]; exact hsound.down, htotals⟩
      | true =>
          obtain ⟨hnext, hup⟩ := @apply_hardFailure settings h event hfailure
          have hcount : (h.consecutiveFailures + 1).toNat = (failures + 1) % 2 ^ 32 := by
            rw [UInt32.toNat_add, hsound.count]
            change (failures % 2 ^ 32 + 1) % 2 ^ 32 = _
            omega
          refine ⟨by rw [hnext, hcount]; rfl, fun hfew => ?_, htotals⟩
          rw [if_pos rfl] at hfew ⊢
          have hle : settings.failureThreshold ≤ h.consecutiveFailures + 1 ↔
              settings.failureThreshold.toNat ≤ failures + 1 := by
            rw [UInt32.le_iff_toNat_le, hcount, Nat.mod_eq_of_lt hfew]
          rw [hup]
          by_cases hreached : settings.failureThreshold ≤ h.consecutiveFailures + 1
          · rw [if_pos hreached]
            exact iff_of_true rfl (hle.mp hreached)
          · rw [if_neg hreached, hsound.down (by omega)]
            have hbelow : ¬ settings.failureThreshold.toNat ≤ failures + 1 :=
              fun hreach => hreached (hle.mpr hreach)
            omega

theorem sound_after (hthreshold : 1 ≤ settings.failureThreshold) (events : List HealthEvent) :
    (Health.after settings events).Sound settings (hardFailures events) := by
  have hpos : 1 ≤ settings.failureThreshold.toNat := hthreshold
  induction events using List.reverseRecOn with
  | nil =>
      refine ⟨rfl, fun _ => ?_, le_rfl⟩
      change true = false ↔ settings.failureThreshold.toNat ≤ 0
      simp only [Bool.true_eq_false, false_iff]
      omega
  | append_singleton events event ih =>
      rw [Health.after, hardFailures, List.foldl_append, List.foldl_append]
      exact ih.apply hthreshold event

/-- Up, failures, totals and the routing latency, whatever the order of events. -/
theorem health_sound (hthreshold : 1 ≤ settings.failureThreshold) (events : List HealthEvent)
    (hfew : hardFailures events < 2 ^ 32) :
    ((Health.after settings events).up = false ↔
      settings.failureThreshold.toNat ≤ hardFailures events) ∧
    (Health.after settings events).consecutiveFailures.toNat = hardFailures events ∧
    (Health.after settings events).totalFailures ≤ (Health.after settings events).totalQueries ∧
    (∀ event, event.isProbe = true →
      (Health.after settings (events ++ [event])).totalQueries =
        (Health.after settings events).totalQueries ∧
      (Health.after settings (events ++ [event])).totalFailures =
        (Health.after settings events).totalFailures) ∧
    ∀ event, event.isProbeSuccess = false →
      (Health.after settings (events ++ [event])).routingLatencyMs =
        (Health.after settings events).routingLatencyMs := by
  have hsound := sound_after hthreshold events
  have hnext : ∀ event, Health.after settings (events ++ [event]) =
      (Health.after settings events).apply settings event := by
    intro event
    rw [Health.after, List.foldl_append]
    rfl
  refine ⟨hsound.down hfew, ?_, hsound.totals, fun event hprobe => ?_, fun event hother => ?_⟩
  · rw [hsound.count, Nat.mod_eq_of_lt hfew]
  · rw [hnext]
    exact (apply_totals _ event).2 hprobe
  · rw [hnext]
    exact apply_routingLatency _ hother

end

def demoSettings : PoolSettings := ⟨⟨1 / 5, by norm_num, by norm_num⟩, 2⟩

def demoFailures : List HealthEvent :=
  [.liveFailure .timeout ⟨0, 1⟩, .softFailure (.rcode 2), .probeFailure .timeout ⟨5, 1⟩]

theorem health_sound_recovers :
    (Health.after demoSettings demoFailures).up = false ∧
      (Health.after demoSettings (demoFailures ++ [.probeAlive .timeout ⟨10, 1⟩])).up = true := by
  have hthreshold : 1 ≤ demoSettings.failureThreshold := by decide
  have hdown := (health_sound hthreshold demoFailures (by decide)).1
  have hup := (health_sound hthreshold (demoFailures ++ [.probeAlive .timeout ⟨10, 1⟩])
    (by decide)).1
  refine ⟨hdown.mpr (by decide), ?_⟩
  rw [← Bool.not_eq_false]
  exact fun h => absurd (hup.mp h) (by decide)

end Bulwark.Upstream
