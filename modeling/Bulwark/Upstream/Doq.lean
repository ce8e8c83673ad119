import Bulwark.Foundation.Lease
import Bulwark.Upstream.Shared

/-!
# The DoQ transport

`doq.rs`: queries take turns at the lock of the connection, and each has a stream of it to
itself.  Whatever goes wrong with a query, it takes the lock once more and drops the
connection that is kept then.
-/

namespace Bulwark.Upstream

open Bulwark.Foundation Bulwark.Dns

inductive DoqPhase where
  | starting
  /-- Before the lock. -/
  | connecting
  /-- With the lock, before and behind the endpoint. -/
  | binding
  | dialing
  | exchanging (conn : Nat)
  /-- Before the lock once more, with an error. -/
  | clearing (e : UpstreamError)
  | done (ending : QueryEnding)

def DoqPhase.answer : DoqPhase → Option Message
  | .done (some (.ok msg)) => some msg
  | _ => none

theorem DoqPhase.eq_done {phase : DoqPhase} {msg : Message} (h : phase.answer = some msg) :
    phase = .done (some (.ok msg)) := by
  unfold answer at h
  split at h
  · cases h
    rfl
  · cases h

def DoqPhase.locked : DoqPhase → Bool
  | .binding | .dialing => true
  | _ => false

structure DoqQuery where
  message : Message
  body : Bytes := []
  conn : Option Nat := none
  phase : DoqPhase := .starting

structure DoqSetting where
  host : Text
  toVec : Message → Except Text Bytes
  fromVec : Bytes → Except Text Message

structure DoqTransport where
  endpoint : Bool := false
  lease : Lease := {}
  closed : List Nat := []
  queries : List DoqQuery := []
  cleared : List Nat := []

inductive DoqAction where
  | query (message : Message)
  | start (i : Nat)
  | lock (i : Nat)
  | bind (i : Nat) (error : Option UpstreamError)
  /-- What the bootstrap says, and how each address answers. -/
  | dial (i : Nat) (ips : Except UpstreamError (List (Except UpstreamError Unit)))
  /-- All that comes on the stream, or the error at any step of the exchange. -/
  | reply (i : Nat) (data : Except Text Bytes)
  | clear (i : Nat)
  | close (c : Nat)
  | drop (i : Nat)

def maxDoqResponse : Nat := 64 * 1024

def DoqQuery.request (q : DoqQuery) : Bytes := toBe16 (.ofNat q.body.length) ++ q.body

namespace DoqTransport

variable (s : DoqSetting)

def setQuery (t : DoqTransport) (i : Nat) (q : DoqQuery) : DoqTransport :=
  { t with queries := t.queries.set i q }

def setPhase (t : DoqTransport) (i : Nat) (q : DoqQuery) (phase : DoqPhase) : DoqTransport :=
  t.setQuery i { q with phase := phase }

def exchange (t : DoqTransport) (i : Nat) (q : DoqQuery) (c : Nat) : DoqTransport :=
  t.setQuery i { q with conn := some c, phase := .exchanging c }

def alive (t : DoqTransport) (c : Nat) : Bool := !t.closed.contains c

/-- The body without its id; a message of less than two bytes is a panic. -/
def startBody (message : Message) : Option (Except UpstreamError Bytes) :=
  match s.toVec message with
  | .error e => some (.error (.proto e))
  | .ok bytes =>
      if bytes.length > 65535 then some (.error (.proto "message too large".toList))
      else if bytes.length < 2 then none
      else some (.ok (0 :: 0 :: bytes.drop 2))

def startQuery (t : DoqTransport) (i : Nat) (q : DoqQuery) : Option DoqTransport :=
  (startBody s q.message).map fun
    | .ok body => t.setQuery i { q with body := body, phase := .connecting }
    | .error e => t.setPhase i q (.clearing e)

def lockSlot (t : DoqTransport) (i : Nat) (q : DoqQuery) : Option DoqTransport :=
  (t.lease.acquire i t.alive).map fun (got, lease) =>
    match got with
    | some c => { t with lease := lease }.exchange i q c
    | none => { t with lease := lease }.setPhase i q .binding

def failLocked (t : DoqTransport) (i : Nat) (q : DoqQuery) (e : UpstreamError) :
    Option DoqTransport :=
  (t.lease.giveUp i).map fun lease => { t with lease := lease }.setPhase i q (.clearing e)

def dialed (t : DoqTransport) (i : Nat) (q : DoqQuery) :
    Except UpstreamError Unit → Option DoqTransport
  | .ok () => (t.lease.fill i).map fun lease =>
      { t with lease := lease }.exchange i q t.lease.made
  | .error e => t.failLocked i q e

def readReply (q : DoqQuery) (data : Except Text Bytes) : Except UpstreamError Message := do
  let data ← data.mapError .quic
  if data.length > maxDoqResponse then .error (.quic "stream too long".toList)
  else if data.length < 2 then .error (.proto "short DoQ response".toList)
  else
    let msg ← (s.fromVec (data.drop 2)).mapError .proto
    acceptReply .quic q.message msg

def replied (t : DoqTransport) (i : Nat) (q : DoqQuery) :
    Except UpstreamError Message → DoqTransport
  | .ok msg => t.setPhase i q (.done (some (.ok msg)))
  | .error e => t.setPhase i q (.clearing e)

def clearSlot (t : DoqTransport) (i : Nat) (q : DoqQuery) (e : UpstreamError) :
    Option DoqTransport :=
  (t.lease.forget fun _ => true).map fun lease =>
    { t with lease := lease, cleared := t.cleared ++ [i] }.setPhase i q (.done (some (.error e)))

def dropQuery (t : DoqTransport) (i : Nat) (q : DoqQuery) : Option DoqTransport :=
  match q.phase with
  | .done _ => none
  | .binding | .dialing => (t.lease.giveUp i).map fun lease =>
      { t with lease := lease }.setPhase i q (.done none)
  | _ => some (t.setPhase i q (.done none))

def step (t : DoqTransport) : DoqAction → Option DoqTransport
  | .query message => some { t with queries := t.queries ++ [{ message := message }] }
  | .start i => do
      let q ← t.queries[i]?
      match q.phase with
      | .starting => t.startQuery s i q
      | _ => none
  | .lock i => do
      let q ← t.queries[i]?
      match q.phase with
      | .connecting => t.lockSlot i q
      | _ => none
  | .bind i error => do
      let q ← t.queries[i]?
      match q.phase with
      | .binding =>
          match t.endpoint, error with
          | false, some e => t.failLocked i q e
          | _, _ => some ({ t with endpoint := true }.setPhase i q .dialing)
      | _ => none
  | .dial i ips => do
      let q ← t.queries[i]?
      match q.phase with
      | .dialing => t.dialed i q (connect s.host ips)
      | _ => none
  | .reply i data => do
      let q ← t.queries[i]?
      match q.phase with
      | .exchanging _ => some (t.replied i q (readReply s q data))
      | _ => none
  | .clear i => do
      let q ← t.queries[i]?
      match q.phase with
      | .clearing e => t.clearSlot i q e
      | _ => none
  | .close c =>
      if c < t.lease.made ∧ t.alive c = true then some { t with closed := t.closed ++ [c] }
      else none
  | .drop i => do
      let q ← t.queries[i]?
      t.dropQuery i q

end DoqTransport

end Bulwark.Upstream
