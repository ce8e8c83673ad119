import Bulwark.Foundation.Runs
import Bulwark.Upstream.Transport

/-!
# The upstream pool

`UpstreamPool::resolve` and what runs below it, as steps of many callers.  A caller looks
into the map of flights, builds a future when it finds none, looks again and joins or
inserts; whoever waits drives the shared future.  The future asks one upstream after the
other.  Connections are shared between flights: replies come in any order and may be late,
duplicated or made up.
-/

namespace Bulwark.Upstream

open Bulwark.Foundation Bulwark.Dns

/-! ## Demultiplexing -/

/-- A shared socket: the flights that wait for a reply, by the id they sent. -/
structure Conn where
  nextId : UInt16 := 0
  pending : UInt16 → Option Nat := fun _ => none
  dead : Bool := false

inductive Slot where
  | empty
  | delivered (msg : Message)
  | closed
  deriving DecidableEq, Repr

inductive Attempt where
  /-- Nothing has been sent yet; `retry` after a failure on a shared connection. -/
  | start (retry : Bool)
  | exchange (conn : Nat) (id : UInt16) (slot : Slot) (retry : Bool)
  | stream
  | request
  deriving DecidableEq, Repr

/-! ## Asking one upstream after the other -/

/-- An upstream of the pool; its health only decides the order. -/
structure UpstreamEntry where
  name : Text
  kind : TransportKind
  deriving DecidableEq, Repr

structure Resolved where
  message : Message
  upstream : Text
  rttMs : ℚ
  deriving DecidableEq

abbrev ResolveResult := Except UpstreamError Resolved

/-- A run of `resolve_sequential`. -/
structure Run where
  query : Message
  /-- The upstreams that have not failed yet; the first one is being asked. -/
  remaining : List UpstreamEntry
  fallback : Option Resolved := none
  last : UpstreamError := .noUpstreams
  attempt : Attempt := .start false
  /-- A future does nothing until it is polled. -/
  started : Bool := false
  result : Option ResolveResult := none

def Run.exhausted (run : Run) : ResolveResult :=
  match run.fallback with
  | some resolved => .ok resolved
  | none => .error (.allFailed run.last)

/-- One pass of the loop: what becomes of the answer of the current upstream. -/
def Run.settle (run : Run) (outcome : Except UpstreamError Message) (rttMs : ℚ) : Run :=
  match run.remaining with
  | [] => { run with result := some run.exhausted }
  | up :: rest =>
      let next := { run with remaining := rest, attempt := .start false }
      match outcome with
      | .ok resp =>
          let resolved : Resolved := ⟨resp, up.name, rttMs⟩
          match classify resp with
          | .answer => { next with result := some (.ok resolved) }
          | .reject | .softFail =>
              let next := { next with
                fallback := run.fallback.or (some resolved)
                last := .rcode resp.metadata.responseCode }
              if rest = [] then { next with result := some next.exhausted } else next
      | .error e =>
          let next := { next with last := e }
          if rest = [] then { next with result := some next.exhausted } else next

/-! ## Callers -/

inductive Phase where
  /-- Before the first look into the map. -/
  | called
  /-- Nothing was found; the lock is free. -/
  | building
  /-- The future is built; before the second look. -/
  | built (run : Nat)
  | waiting (run : Nat) (guard : Bool)
  /-- The future has been awaited; the guard is not dropped yet. -/
  | finished (run : Nat) (guard : Bool) (result : ResolveResult)
  | returned (result : ResolveResult)
  | dropped

structure Caller where
  query : Message
  phase : Phase

structure Pool where
  upstreams : List UpstreamEntry
  inflight : QueryKey → Option Nat := fun _ => none
  runs : Nat → Option Run := fun _ => none
  nextRun : Nat := 0
  callers : Nat → Option Caller := fun _ => none
  conns : Nat → Conn := fun _ => {}

/-- `resolved.message.metadata.id = query.metadata.id` -/
def withQueryId (query : Message) : ResolveResult → ResolveResult
  | .ok resolved =>
      .ok { resolved with message := resolved.message.withId query.metadata.id }
  | .error e => .error e

namespace Pool

def setPhase (p : Pool) (c : Nat) (query : Message) (phase : Phase) : Pool :=
  { p with callers := Function.update p.callers c (some ⟨query, phase⟩) }

def setConn (p : Pool) (conn : Nat) (cn : Conn) : Pool :=
  { p with conns := Function.update p.conns conn cn }

def setRun (p : Pool) (r : Nat) (run : Run) : Pool :=
  { p with runs := Function.update p.runs r (some run) }

/-- The guard of the caller that inserted the entry is dropped. -/
def release (p : Pool) (query : Message) (guard : Bool) : Pool :=
  match guard, QueryKey.fromMessage query with
  | true, some key => { p with inflight := Function.update p.inflight key none }
  | _, _ => p

end Pool

/-! ## Steps -/

inductive RunEvent where
  | send (conn : Nat)
  | connect
  | take (rttMs : ℚ)
  | receive (msg : Message) (rttMs : ℚ)
  | fail (error : UpstreamError)
  | timeout
  deriving DecidableEq

inductive PoolAction where
  | call (c : Nat) (query : Message)
  | look (c : Nat)
  | build (c : Nat) (ordered : List UpstreamEntry)
  | insert (c : Nat)
  | poll (c : Nat)
  | resume (c : Nat)
  | leave (c : Nat)
  | cancel (c : Nat)
  | run (r : Nat) (event : RunEvent)
  | deliver (conn : Nat) (msg : Message)
  | close (conn : Nat)
  deriving DecidableEq

/-- The channel of a flight is written to or dropped. -/
def Pool.fill (p : Pool) (r : Nat) (slot : Slot) : Pool :=
  match p.runs r with
  | some run =>
      match run.attempt with
      | .exchange conn id .empty retry =>
          p.setRun r { run with attempt := .exchange conn id slot retry }
      | _ => p
  | none => p

/-- Whoever waits under an id of a connection finds its channel closed. -/
def Pool.unregister (p : Pool) (conn : Nat) (id : UInt16) : Pool :=
  let cn := p.conns conn
  let p := match cn.pending id with
    | some r => p.fill r .closed
    | none => p
  p.setConn conn { cn with pending := Function.update cn.pending id none }

/-- `next_id.fetch_add(1)`, which wraps around. -/
def Pool.bumpId (p : Pool) (conn : Nat) : Pool :=
  p.setConn conn { p.conns conn with nextId := (p.conns conn).nextId + 1 }

def Pool.register (p : Pool) (conn : Nat) (id : UInt16) (r : Nat) : Pool :=
  p.setConn conn
    { p.conns conn with pending := Function.update (p.conns conn).pending id (some r) }

/-- `PendingGuard`: the id a flight waits under is given up, whoever waits there now. -/
def Pool.abandon (p : Pool) (run : Run) : Pool :=
  match run.attempt with
  | .exchange conn id _ _ => p.unregister conn id
  | _ => p

/-- The exchange on a shared connection has failed: once more, or the upstream has failed. -/
def Run.failExchange (run : Run) (retry : Bool) (e : UpstreamError) : Run :=
  if retry then run.settle (.error e) 0 else { run with attempt := .start true }

def isShared : TransportKind → Bool
  | .udp | .tls => true
  | .tcp | .https | .quic => false

def socketClosed : TransportKind → UpstreamError
  | .tls => .io "DoT connection closed".toList
  | _ => .io "UDP socket closed".toList

/-- An accepted reply; a truncated one is asked for again over TCP. -/
def Run.accept (run : Run) (kind : TransportKind) (retry : Bool) (reply : Message) (rttMs : ℚ) :
    Run :=
  match acceptReply kind run.query reply with
  | .ok msg =>
      if kind = .udp ∧ msg.metadata.truncation then { run with attempt := .stream }
      else run.settle (.ok msg) rttMs
  | .error e => if isShared kind then run.failExchange retry e else run.settle (.error e) rttMs

/-- A flight's own steps; `none` where the event does not fit its attempt. -/
def Pool.runStep (p : Pool) (r : Nat) (run : Run) (up : UpstreamEntry) (event : RunEvent) :
    Option Pool :=
  match event, run.attempt with
  | .send conn, .start retry =>
      if isShared up.kind then
        let id := (p.conns conn).nextId
        if (p.conns conn).dead then
          some ((p.bumpId conn).setRun r (run.failExchange retry (socketClosed up.kind)))
        else
          -- the id may still be in use after 65536 queries
          some (((p.unregister conn id).bumpId conn).register conn id r |>.setRun r
            { run with attempt := .exchange conn id .empty retry })
      else none
  | .connect, .start _ =>
      match up.kind with
      | .tcp => some (p.setRun r { run with attempt := .stream })
      | .https | .quic => some (p.setRun r { run with attempt := .request })
      | .udp | .tls => none
  | .take rttMs, .exchange _ _ (.delivered msg) retry =>
      some ((p.abandon run).setRun r (run.accept up.kind retry msg rttMs))
  | .take _, .exchange _ _ .closed retry =>
      some ((p.abandon run).setRun r (run.failExchange retry (socketClosed up.kind)))
  | .receive msg rttMs, .stream =>
      -- messages that do not match are read over
      if matchesQuery run.query msg then some (p.setRun r (run.settle (.ok msg) rttMs)) else some p
  | .receive msg rttMs, .request => some (p.setRun r (run.accept up.kind true msg rttMs))
  | .fail e, .exchange _ _ _ retry => some ((p.abandon run).setRun r (run.failExchange retry e))
  | .fail e, .start _ | .fail e, .stream | .fail e, .request =>
      some (p.setRun r (run.settle (.error e) 0))
  | .timeout, _ => some ((p.abandon run).setRun r (run.settle (.error .timeout) 0))
  | _, _ => none

def Run.closeOn (conn : Nat) (run : Run) : Run :=
  match run.attempt with
  | .exchange conn' id .empty retry =>
      if conn' = conn then { run with attempt := .exchange conn' id .closed retry } else run
  | _ => run

def Pool.step (p : Pool) : PoolAction → Option Pool
  | .call c query =>
      match p.callers c with
      | some _ => none
      | none =>
          if p.upstreams = [] then some (p.setPhase c query (.returned (.error .noUpstreams)))
          else if QueryKey.fromMessage query = none then
            some (p.setPhase c query
              (.returned (.error (.proto "query has no question".toList))))
          else some (p.setPhase c query .called)
  | .look c => do
      let caller ← p.callers c
      let key ← QueryKey.fromMessage caller.query
      match caller.phase with
      | .called =>
          match p.inflight key with
          | some r => some (p.setPhase c caller.query (.waiting r false))
          | none => some (p.setPhase c caller.query .building)
      | _ => none
  | .build c ordered => do
      let caller ← p.callers c
      match caller.phase with
      | .building =>
          if ordered.Perm p.upstreams then
            let run : Run := { query := normalizeUpstreamEdns caller.query, remaining := ordered }
            some { (p.setRun p.nextRun run).setPhase c caller.query (.built p.nextRun) with
              nextRun := p.nextRun + 1 }
          else none
      | _ => none
  | .insert c => do
      let caller ← p.callers c
      let key ← QueryKey.fromMessage caller.query
      match caller.phase with
      | .built r =>
          match p.inflight key with
          | some r' => some (p.setPhase c caller.query (.waiting r' false))
          | none =>
              some { p.setPhase c caller.query (.waiting r true) with
                inflight := Function.update p.inflight key (some r) }
      | _ => none
  | .poll c => do
      let caller ← p.callers c
      match caller.phase with
      | .waiting r _ => do
          let run ← p.runs r
          some (p.setRun r { run with started := true })
      | _ => none
  | .resume c => do
      let caller ← p.callers c
      match caller.phase with
      | .waiting r guard => do
          let run ← p.runs r
          let result ← run.result
          some (p.setPhase c caller.query (.finished r guard result))
      | _ => none
  | .leave c => do
      let caller ← p.callers c
      match caller.phase with
      | .finished _ guard result =>
          some ((p.setPhase c caller.query (.returned (withQueryId caller.query result))).release
            caller.query guard)
      | _ => none
  | .cancel c => do
      let caller ← p.callers c
      match caller.phase with
      | .returned _ | .dropped => none
      | .waiting _ guard | .finished _ guard _ =>
          some ((p.setPhase c caller.query .dropped).release caller.query guard)
      | .called | .building | .built _ => some (p.setPhase c caller.query .dropped)
  | .run r event => do
      let run ← p.runs r
      let up ← run.remaining.head?
      if run.started && run.result.isNone then p.runStep r run up event else none
  | .deliver conn msg =>
      match (p.conns conn).pending msg.metadata.id with
      | some r => some ((p.fill r (.delivered msg)).unregister conn msg.metadata.id)
      | none => some p
  | .close conn =>
      some ({ p with runs := fun r => (p.runs r).map (Run.closeOn conn) }.setConn conn
        { p.conns conn with dead := true, pending := fun _ => none })

def Pool.new (upstreams : List UpstreamEntry) : Pool := { upstreams := upstreams }

end Bulwark.Upstream
