import Bulwark.Upstream.Identity

/-!
# Probe events

`probe_log.rs`: what is recorded about a probe of an upstream, and the labels it is stored
under.  Times that the program keeps as floating-point milliseconds are exact rationals.
-/

namespace Bulwark.Upstream

open Bulwark.Foundation

/-! ## Labels -/

/-- Unknown labels are UDP. -/
def TransportKind.fromLabel (s : Text) : TransportKind :=
  if s = "tcp".toList then .tcp
  else if s = "tls".toList then .tls
  else if s = "https".toList then .https
  else if s = "quic".toList then .quic
  else .udp

inductive ProbeOutcome where
  | answer
  | measureFail
  | reject
  | softFail
  | timeout
  | error
  deriving DecidableEq, Repr

def ProbeOutcome.asStr : ProbeOutcome → Text
  | .answer => "answer".toList
  | .measureFail => "measure_fail".toList
  | .reject => "reject".toList
  | .softFail => "soft_fail".toList
  | .timeout => "timeout".toList
  | .error => "error".toList

def ProbeOutcome.fromLabel (s : Text) : ProbeOutcome :=
  if s = "answer".toList then .answer
  else if s = "measure_fail".toList then .measureFail
  else if s = "reject".toList then .reject
  else if s = "soft_fail".toList then .softFail
  else if s = "timeout".toList then .timeout
  else .error

inductive ProbeErrorKind where
  | timeout
  | rcode
  | io
  | tls
  | quic
  | http
  | proto
  | bootstrap
  | other
  deriving DecidableEq, Repr

def ProbeErrorKind.asStr : ProbeErrorKind → Text
  | .timeout => "timeout".toList
  | .rcode => "rcode".toList
  | .io => "io".toList
  | .tls => "tls".toList
  | .quic => "quic".toList
  | .http => "http".toList
  | .proto => "proto".toList
  | .bootstrap => "bootstrap".toList
  | .other => "other".toList

def ProbeErrorKind.fromLabel (s : Text) : ProbeErrorKind :=
  if s = "timeout".toList then .timeout
  else if s = "rcode".toList then .rcode
  else if s = "io".toList then .io
  else if s = "tls".toList then .tls
  else if s = "quic".toList then .quic
  else if s = "http".toList then .http
  else if s = "proto".toList then .proto
  else if s = "bootstrap".toList then .bootstrap
  else .other

@[simp] theorem TransportKind.fromLabel_asStr (kind : TransportKind) :
    fromLabel kind.asStr = kind := by
  cases kind <;> decide

@[simp] theorem ProbeOutcome.fromLabel_asStr (outcome : ProbeOutcome) :
    fromLabel outcome.asStr = outcome := by
  cases outcome <;> decide

@[simp] theorem ProbeErrorKind.fromLabel_asStr (kind : ProbeErrorKind) :
    fromLabel kind.asStr = kind := by
  cases kind <;> decide

/-! ## Events -/

structure ProbeEvent where
  timeMs : Int
  upstream : Text
  name : Text
  kind : TransportKind
  outcome : ProbeOutcome
  /-- The warm round trip, and the first one. -/
  rttMs : Option ℚ
  firstRttMs : Option ℚ
  ewmaMs : Option ℚ
  up : Bool
  consecutiveFailures : UInt32
  detail : Option Text
  errorKind : Option ProbeErrorKind
  liveEwmaMs : Option ℚ
  liveQueries : UInt64
  liveFailures : UInt64
  /-- The rank in the latest selection, 0 for the leader. -/
  rank : Option UInt16
  leadHeld : Bool
  deriving DecidableEq, Repr

end Bulwark.Upstream
