import Bulwark.Upstream.AltSvc
import Bulwark.Upstream.Bootstrap
import Bulwark.Upstream.Tcp

/-!
# The DoH transport

`doh.rs`: a query takes a client for its version of HTTP, built from addresses that are kept
for five minutes as the client is, and exchanges the message.  Which version comes first is
what an earlier response has said.  Queries run at the same time, and the clock goes on
between any two steps.
-/

namespace Bulwark.Upstream

open Bulwark.Foundation Bulwark.Dns

def maxDohBody : Nat := 64 * 1024

def dohPinTtl : Int := secs 300

structure DohClient where
  http3 : Bool
  ips : List IpAddr
  port : UInt16

inductive DohPhase where
  | starting
  /-- Before the client is looked for, and so on. -/
  | client (http3 : Bool)
  | ips (http3 : Bool)
  | cache (http3 : Bool)
  | lookup (http3 : Bool)
  /-- With addresses, and the time they were read. -/
  | pinning (http3 : Bool) (ips : List IpAddr) (since : Int)
  | building (http3 : Bool) (ips : List IpAddr) (since : Int)
  | sending (http3 : Bool)
  | receiving (http3 : Bool)
  | done (ending : QueryEnding)

def DohPhase.answer : DohPhase → Option Message
  | .done (some (.ok msg)) => some msg
  | _ => none

theorem DohPhase.eq_done {phase : DohPhase} {msg : Message} (h : phase.answer = some msg) :
    phase = .done (some (.ok msg)) := by
  unfold answer at h
  split at h
  · cases h
    rfl
  · cases h

/-- The upstream, and what is outside of the program. -/
structure DohSetting where
  bootstrap : Bootstrap
  host : Text
  port : UInt16
  statusText : Nat → Text
  toVec : Message → Except Text Bytes
  fromVec : Bytes → Except Text Message

structure DohRequest where
  client : DohClient
  body : Bytes
  since : Int

structure DohQuery where
  message : Message
  body : Bytes := []
  phase : DohPhase := .starting
  /-- When it was told which version comes first. -/
  started : Int := 0
  requests : List DohRequest := []

def DohQuery.over (q : DohQuery) : Bool :=
  match q.phase with
  | .done _ => true
  | _ => false

structure Advert where
  query : Nat
  since : Int
  value : Text
  ma : Nat

/-- The head of a response, with its `Alt-Svc` if that is text. -/
structure HttpHead where
  status : Nat
  altSvc : Option Text
  contentLength : Option Nat

structure DohTransport where
  clock : Instant
  bootstrap : BootstrapCache := {}
  ips : Option (Pin (List IpAddr)) := none
  clientH12 : Option (Pin DohClient) := none
  clientH3 : Option (Pin DohClient) := none
  h3 : H3Mode
  queries : List DohQuery := []
  adverts : List Advert := []
  /-- The longest that a query has taken from reading a value to putting it away. -/
  slowest : Int := 0

inductive DohAction where
  | tick (clock : Instant)
  /-- Another transport resolves a host. -/
  | resolved (host : Text) (world : Lookups)
  | query (message : Message)
  | start (i : Nat)
  | readClient (i : Nat)
  | readIps (i : Nat)
  | readCache (i : Nat)
  | lookup (i : Nat) (world : Lookups)
  | pinIps (i : Nat)
  | build (i : Nat) (error : Option Text)
  | head (i : Nat) (response : Except Text HttpHead)
  /-- The pieces of the body, and the error it is cut off by. -/
  | body (i : Nat) (chunks : List Bytes) (error : Option Text)
  | drop (i : Nat)

def HttpHead.isSuccess (head : HttpHead) : Bool := 200 ≤ head.status && head.status < 300

def readBody (error : Option Text) (body : Bytes) : List Bytes → Except UpstreamError Bytes
  | [] =>
      match error with
      | some e => .error (.http e)
      | none => .ok body
  | chunk :: chunks =>
      if body.length + chunk.length > maxDohBody then
        .error (.http "DoH response exceeded size cap".toList)
      else readBody error (body ++ chunk) chunks

namespace DohTransport

def new (forceHttp3 : Bool) (clock : Instant) : DohTransport where
  clock := clock
  h3 := if forceHttp3 then .forced else .auto none

def now (t : DohTransport) : Int := t.clock.total

def client (t : DohTransport) (http3 : Bool) : Option (Pin DohClient) :=
  if http3 then t.clientH3 else t.clientH12

def setClient (t : DohTransport) (p : Pin DohClient) : DohTransport :=
  if p.value.http3 then { t with clientH3 := some p } else { t with clientH12 := some p }

def setQuery (t : DohTransport) (i : Nat) (q : DohQuery) : DohTransport :=
  { t with queries := t.queries.set i q }

def setPhase (t : DohTransport) (i : Nat) (q : DohQuery) (phase : DohPhase) : DohTransport :=
  t.setQuery i { q with phase := phase }

def fail (t : DohTransport) (i : Nat) (q : DohQuery) (e : UpstreamError) : DohTransport :=
  t.setPhase i q (.done (some (.error e)))

def send (t : DohTransport) (i : Nat) (q : DohQuery) (c : DohClient) : DohTransport :=
  t.setQuery i
    { q with phase := .sending c.http3, requests := q.requests ++ [⟨c, q.body, t.now⟩] }

def delayed (t : DohTransport) (since : Int) : DohTransport :=
  { t with slowest := max t.slowest (t.now - since) }

/-- An exchange fails: over HTTP/3 there is another, unless it is forced. -/
def exchangeFails (t : DohTransport) (i : Nat) (q : DohQuery) (http3 : Bool)
    (e : UpstreamError) : DohTransport :=
  match t.h3, http3 with
  | .auto _, true => { t with h3 := .auto none }.setPhase i q (.client false)
  | _, _ => t.fail i q e

def exchangeEnds (t : DohTransport) (i : Nat) (q : DohQuery) (http3 : Bool) :
    Except UpstreamError Message → DohTransport
  | .ok msg => t.setPhase i q (.done (some (.ok msg)))
  | .error e => t.exchangeFails i q http3 e

def advertsIn (t : DohTransport) (i : Nat) (value : Text) : List Advert :=
  match parseAltSvcH3 value with
  | .found ma => [⟨i, t.now, value, ma⟩]
  | _ => []

/-- The `Alt-Svc` header of a response over HTTP/1.1 or HTTP/2. -/
def learn (t : DohTransport) (i : Nat) (value : Text) : Option DohTransport :=
  (learnAltSvc t.h3 t.clock (parseAltSvcH3 value)).map fun mode =>
    { t with
      h3 := mode
      adverts := t.adverts ++ t.advertsIn i value }

def learnFrom (t : DohTransport) (i : Nat) (http3 : Bool) (head : HttpHead) :
    Option DohTransport :=
  match http3, head.altSvc with
  | false, some value => t.learn i value
  | _, _ => some t

def checkLength (t : DohTransport) (i : Nat) (q : DohQuery) (http3 : Bool) (head : HttpHead) :
    DohTransport :=
  if head.contentLength.any fun n => n > maxDohBody then
    t.exchangeFails i q http3 (.http "DoH response too large".toList)
  else t.setPhase i q (.receiving http3)

def startsWithH3 (t : DohTransport) : Bool :=
  match t.h3 with
  | .forced => true
  | .auto _ => h3Fresh t.h3 t.clock

section

variable (s : DohSetting)

/-- `none` for a message of less than two bytes, where the code panics. -/
def startQuery (t : DohTransport) (i : Nat) (q : DohQuery) : Option DohTransport :=
  match s.toVec q.message with
  | .error e => some (t.fail i q (.proto e))
  | .ok bytes =>
      if bytes.length < 2 then none
      else
        some (t.setQuery i
          { q with
            body := 0 :: 0 :: bytes.drop 2
            started := t.now
            phase := .client t.startsWithH3 })

def readCache (t : DohTransport) (i : Nat) (q : DohQuery) (http3 : Bool) : DohTransport :=
  match parseIpAddr s.host with
  | some ip => t.setPhase i q (.pinning http3 [ip] t.now)
  | none =>
      match t.bootstrap.cached s.host t.now with
      | some ips => t.setPhase i q (.pinning http3 ips t.now)
      | none => t.setPhase i q (.lookup http3)

def found (t : DohTransport) (host : Text) (ips : List IpAddr) : DohTransport :=
  { t with bootstrap := t.bootstrap.insert host ⟨t.now, ips⟩ }

def decodeBody (q : DohQuery) (chunks : List Bytes) (error : Option Text) :
    Except UpstreamError Message := do
  let body ← readBody error [] chunks
  let msg ← (s.fromVec body).mapError .proto
  acceptReply .https q.message msg

def step (t : DohTransport) : DohAction → Option DohTransport
  | .tick clock => if t.now ≤ clock.total then some { t with clock := clock } else none
  | .resolved other world =>
      match parseIpAddr other, s.bootstrap.resolve other world with
      | none, .ok ips => some (t.found other ips)
      | _, _ => some t
  | .query message => some { t with queries := t.queries ++ [{ message := message }] }
  | .start i => do
      let q ← t.queries[i]?
      match q.phase with
      | .starting => t.startQuery s i q
      | _ => none
  | .readClient i => do
      let q ← t.queries[i]?
      match q.phase with
      | .client http3 =>
          match (t.client http3).bind fun p => p.read dohPinTtl t.now with
          | some c => some (t.send i q c)
          | none => some (t.setPhase i q (.ips http3))
      | _ => none
  | .readIps i => do
      let q ← t.queries[i]?
      match q.phase with
      | .ips http3 =>
          match t.ips.bind fun p => p.read dohPinTtl t.now with
          | some ips => some (t.setPhase i q (.building http3 ips t.now))
          | none => some (t.setPhase i q (.cache http3))
      | _ => none
  | .readCache i => do
      let q ← t.queries[i]?
      match q.phase with
      | .cache http3 => some (t.readCache s i q http3)
      | _ => none
  | .lookup i world => do
      let q ← t.queries[i]?
      match q.phase with
      | .lookup http3 =>
          match s.bootstrap.resolve s.host world with
          | .ok ips => some ((t.found s.host ips).setPhase i q (.pinning http3 ips t.now))
          | .error e => some (t.fail i q e)
      | _ => none
  | .pinIps i => do
      let q ← t.queries[i]?
      match q.phase with
      | .pinning http3 ips since =>
          some ({ t.delayed since with ips := some ⟨t.now, ips⟩ }.setPhase i q
            (.building http3 ips t.now))
      | _ => none
  | .build i error => do
      let q ← t.queries[i]?
      match q.phase with
      | .building http3 ips since =>
          match error with
          | some e => some (t.fail i q (.http e))
          | none =>
              some (((t.delayed since).setClient ⟨t.now, ⟨http3, ips, s.port⟩⟩).send i q
                ⟨http3, ips, s.port⟩)
      | _ => none
  | .head i response => do
      let q ← t.queries[i]?
      match q.phase with
      | .sending http3 =>
          match response with
          | .error e => some (t.exchangeFails i q http3 (.http e))
          | .ok head =>
              if head.isSuccess then do
                let t' ← t.learnFrom i http3 head
                some (t'.checkLength i q http3 head)
              else some (t.exchangeFails i q http3
                (.http ("status ".toList ++ s.statusText head.status)))
      | _ => none
  | .body i chunks error => do
      let q ← t.queries[i]?
      match q.phase with
      | .receiving http3 => some (t.exchangeEnds i q http3 (decodeBody s q chunks error))
      | _ => none
  | .drop i => do
      let q ← t.queries[i]?
      if q.over then none else some (t.setPhase i q (.done none))

end

end DohTransport

end Bulwark.Upstream
