import Bulwark.Foundation.Lease
import Bulwark.Upstream.DemuxReplies
import Bulwark.Upstream.Tcp

/-!
# A transport with a shared connection

`UdpTransport` and `DotTransport`: queries take turns at the lock of the cached connection,
exchange their messages on it at the same time, and try once more on another connection
when that fails.  Over UDP a truncated reply is asked for again over TCP.
-/

namespace Bulwark.Upstream

open Bulwark.Foundation Bulwark.Dns

structure SharedConn where
  state : Demux.Connection := {}
  /-- Dropped, and its reader with it. -/
  aborted : Bool := false

inductive SharedPhase where
  /-- Before the lock, with the first connection or the second one ahead. -/
  | connecting
  | dialing
  | connected
  | exchanging (k : Nat)
  | invalidating
  | falling
  | done (ending : QueryEnding)

def SharedPhase.answer : SharedPhase → Option Message
  | .done (some (.ok msg)) => some msg
  | _ => none

theorem SharedPhase.eq_done {phase : SharedPhase} {msg : Message} (h : phase.answer = some msg) :
    phase = .done (some (.ok msg)) := by
  unfold answer at h
  split at h
  · cases h
    rfl
  · cases h

/-- A call of `query`, with the variables it holds its connections in. -/
structure SharedQuery where
  message : Message
  conn : Option Nat := none
  fresh : Option Nat := none
  tcp : Option TcpQuery := none
  phase : SharedPhase := .connecting

def SharedQuery.current (q : SharedQuery) : Option Nat := q.fresh.or q.conn

def SharedQuery.take (q : SharedQuery) (c : Nat) : SharedQuery :=
  match q.conn with
  | none => { q with conn := some c, phase := .connected }
  | some _ => { q with fresh := some c, phase := .connected }

def SharedQuery.over (q : SharedQuery) : Bool :=
  match q.phase with
  | .done _ => true
  | _ => false

def SharedConn.new : SharedConn := {}

structure SharedTransport where
  conns : List SharedConn := []
  lease : Lease := {}
  queries : List SharedQuery := []

inductive SharedAction where
  | query (message : Message)
  | lock (i : Nat)
  /-- What the bootstrap says, and how each address answers. -/
  | dial (i : Nat) (ips : Except UpstreamError (List (Except UpstreamError Unit)))
  | start (i : Nat) (encodeError : Option UpstreamError)
  | conn (c : Nat) (a : Demux.Action)
  | finish (i : Nat)
  | invalidate (i : Nat)
  | tcp (i : Nat) (a : TcpAction)
  | drop (i : Nat)
  | abort (c : Nat)

def firstOk {ε α : Type} (last : ε) : List (Except ε α) → Except ε α
  | [] => .error last
  | .ok a :: _ => .ok a
  | .error e :: rest => firstOk e rest

/-- `DotTransport::connect`; `UdpTransport::dial` has the one address. -/
def connect (host : Text) (ips : Except UpstreamError (List (Except UpstreamError Unit))) :
    Except UpstreamError Unit :=
  ips.bind (firstOk (.bootstrap host))

def Demux.Action.isReader : Demux.Action → Bool
  | .recv _ | .deliver | .close => true
  | _ => false

namespace SharedTransport

def setQuery (t : SharedTransport) (i : Nat) (q : SharedQuery) : SharedTransport :=
  { t with queries := t.queries.set i q }

def setPhase (t : SharedTransport) (i : Nat) (q : SharedQuery) (phase : SharedPhase) :
    SharedTransport :=
  t.setQuery i { q with phase := phase }

def setConn (t : SharedTransport) (c : Nat) (state : Demux.Connection) : SharedTransport :=
  { t with conns := t.conns.modify c fun conn => { conn with state := state } }

/-- `!is_dead()` -/
def alive (t : SharedTransport) (c : Nat) : Bool := (t.conns[c]?).any fun conn => !conn.state.dead

/-- Whether anyone holds the connection: the cache, or a query that is not over. -/
def held (t : SharedTransport) (c : Nat) : Bool :=
  t.lease.kept == some c ||
    t.queries.any fun q => !q.over && (q.conn == some c || q.fresh == some c)

section

variable (kind : TransportKind) (host : Text) (toVec : Message → Except Text Bytes)
  (fromVec : Bytes → Except Text Message)

def lockSlot (t : SharedTransport) (i : Nat) (q : SharedQuery) : Option SharedTransport :=
  (t.lease.acquire i t.alive).map fun (got, lease) =>
    match got with
    | some c => { t with lease := lease }.setQuery i (q.take c)
    | none => { t with lease := lease }.setPhase i q .dialing

def dialed (t : SharedTransport) (i : Nat) (q : SharedQuery) :
    Except UpstreamError Unit → Option SharedTransport
  | .ok () => (t.lease.fill i).map fun lease =>
      { t with conns := t.conns ++ [SharedConn.new], lease := lease }.setQuery i
        (q.take t.conns.length)
  | .error e => (t.lease.giveUp i).map fun lease =>
      { t with lease := lease }.setPhase i q (.done (some (.error e)))

/-- How a query goes on behind an exchange. -/
def afterExchange (t : SharedTransport) (i : Nat) (q : SharedQuery) :
    QueryEnding → SharedTransport
  | none => t.setPhase i q (.done none)
  | some (.ok msg) =>
      if kind = .udp ∧ msg.metadata.truncation = true then
        t.setQuery i { q with tcp := some { query := q.message }, phase := .falling }
      else t.setPhase i q (.done (some (.ok msg)))
  | some (.error e) =>
      if q.fresh.isSome then t.setPhase i q (.done (some (.error e)))
      else t.setPhase i q .invalidating

def finishQuery (t : SharedTransport) (i : Nat) (q : SharedQuery) : Option SharedTransport :=
  match q.phase with
  | .exchanging k => do
      let c ← q.current
      let conn ← t.conns[c]?
      let x ← conn.state.exchanges k
      match x.phase with
      | .done ending => some (t.afterExchange kind i q ending)
      | _ => none
  | .falling => do
      let tcp ← q.tcp
      match tcp.phase with
      | .done ending => some (t.setPhase i q (.done ending))
      | _ => none
  | _ => none

/-- A query is dropped where it waits for the lock, or holds it; elsewhere its exchange is. -/
def dropQuery (t : SharedTransport) (i : Nat) (q : SharedQuery) : Option SharedTransport :=
  match q.phase with
  | .connecting | .invalidating => some (t.setPhase i q (.done none))
  | .dialing => (t.lease.giveUp i).map fun lease =>
      { t with lease := lease }.setPhase i q (.done none)
  | _ => none

def step (t : SharedTransport) : SharedAction → Option SharedTransport
  | .query message => some { t with queries := t.queries ++ [{ message := message }] }
  | .lock i => do
      let q ← t.queries[i]?
      match q.phase with
      | .connecting => t.lockSlot i q
      | _ => none
  | .dial i ips => do
      let q ← t.queries[i]?
      match q.phase with
      | .dialing => t.dialed i q (connect host ips)
      | _ => none
  | .start i encodeError => do
      let q ← t.queries[i]?
      match q.phase with
      | .connected => do
          let c ← q.current
          let conn ← t.conns[c]?
          let state ← Demux.step kind conn.state (.start q.message encodeError)
          some ((t.setConn c state).setPhase i q (.exchanging conn.state.started))
      | _ => none
  | .conn c a =>
      match a with
      | .start _ _ => none
      | _ => do
          let conn ← t.conns[c]?
          if conn.aborted && a.isReader then none
          else do
            let state ← Demux.step kind conn.state a
            some (t.setConn c state)
  | .finish i => do
      let q ← t.queries[i]?
      t.finishQuery kind i q
  | .invalidate i => do
      let q ← t.queries[i]?
      match q.phase with
      | .invalidating =>
          (t.lease.forget fun c => q.conn == some c).map fun lease =>
            { t with lease := lease }.setPhase i q .connecting
      | _ => none
  | .tcp i a => do
      let q ← t.queries[i]?
      match q.phase with
      | .falling => do
          let tcp ← q.tcp
          let tcp' ← tcp.step toVec fromVec a
          some (t.setQuery i { q with tcp := some tcp' })
      | _ => none
  | .drop i => do
      let q ← t.queries[i]?
      t.dropQuery i q
  | .abort c => do
      let conn ← t.conns[c]?
      if t.held c then none
      else some { t with conns := t.conns.set c { conn with aborted := true } }

end

/-! ## What a step does -/

section

variable {kind : TransportKind} {host : Text} {toVec : Message → Except Text Bytes}
  {fromVec : Bytes → Except Text Message}

def exchange? (t : SharedTransport) (c k : Nat) : Option Demux.Exchange :=
  (t.conns[c]?).bind fun conn => conn.state.exchanges k

variable (kind host toVec fromVec) in
inductive Moves (t : SharedTransport) : SharedAction → SharedTransport → Prop where
  | query (message : Message) :
      t.Moves (.query message) { t with queries := t.queries ++ [{ message := message }] }
  | take {i c : Nat} {q : SharedQuery} (hq : t.queries[i]? = some q)
      (hphase : q.phase = .connecting) (hfree : t.lease.holder = none)
      (hkept : t.lease.kept = some c) (halive : t.alive c = true) :
      t.Moves (.lock i) (t.setQuery i (q.take c))
  | hold {i : Nat} {q : SharedQuery} (hq : t.queries[i]? = some q)
      (hphase : q.phase = .connecting) (hfree : t.lease.holder = none)
      (hdead : ∀ c, t.lease.kept = some c → t.alive c = false) :
      t.Moves (.lock i)
        ({ t with lease := { t.lease with holder := some i } }.setPhase i q .dialing)
  | dialed {i : Nat} {q : SharedQuery} {lease : Lease}
      {ips : Except UpstreamError (List (Except UpstreamError Unit))}
      (hq : t.queries[i]? = some q) (hphase : q.phase = .dialing)
      (hfill : t.lease.fill i = some lease) :
      t.Moves (.dial i ips)
        ({ t with conns := t.conns ++ [SharedConn.new], lease := lease }.setQuery i
          (q.take t.conns.length))
  | dialFails {i : Nat} {q : SharedQuery} {lease : Lease} {e : UpstreamError}
      {ips : Except UpstreamError (List (Except UpstreamError Unit))}
      (hq : t.queries[i]? = some q) (hphase : q.phase = .dialing)
      (hgiveUp : t.lease.giveUp i = some lease) (hfails : connect host ips = .error e) :
      t.Moves (.dial i ips) ({ t with lease := lease }.setPhase i q (.done (some (.error e))))
  | start {i c : Nat} {q : SharedQuery} {conn : SharedConn} {state : Demux.Connection}
      {encodeError : Option UpstreamError} (hq : t.queries[i]? = some q)
      (hphase : q.phase = .connected) (hcurrent : q.current = some c)
      (hconn : t.conns[c]? = some conn)
      (hstep : Demux.step kind conn.state (.start q.message encodeError) = some state) :
      t.Moves (.start i encodeError)
        ((t.setConn c state).setPhase i q (.exchanging conn.state.started))
  | conn {c : Nat} {conn : SharedConn} {state : Demux.Connection} {a : Demux.Action}
      (hconn : t.conns[c]? = some conn) (hstep : Demux.step kind conn.state a = some state) :
      t.Moves (.conn c a) (t.setConn c state)
  | finish {i c k : Nat} {q : SharedQuery} {x : Demux.Exchange} {ending : QueryEnding}
      (hq : t.queries[i]? = some q) (hphase : q.phase = .exchanging k)
      (hcurrent : q.current = some c) (hx : t.exchange? c k = some x)
      (hdone : x.phase = .done ending) :
      t.Moves (.finish i) (t.afterExchange kind i q ending)
  | finishTcp {i : Nat} {q : SharedQuery} {tcp : TcpQuery} {ending : QueryEnding}
      (hq : t.queries[i]? = some q) (hphase : q.phase = .falling) (htcp : q.tcp = some tcp)
      (hdone : tcp.phase = .done ending) :
      t.Moves (.finish i) (t.setPhase i q (.done ending))
  | invalidate {i : Nat} {q : SharedQuery} {lease : Lease} (hq : t.queries[i]? = some q)
      (hphase : q.phase = .invalidating)
      (hforget : t.lease.forget (fun c => q.conn == some c) = some lease) :
      t.Moves (.invalidate i) ({ t with lease := lease }.setPhase i q .connecting)
  | tcp {i : Nat} {q : SharedQuery} {tcp tcp' : TcpQuery} {a : TcpAction}
      (hq : t.queries[i]? = some q) (hphase : q.phase = .falling) (htcp : q.tcp = some tcp)
      (hstep : tcp.step toVec fromVec a = some tcp') :
      t.Moves (.tcp i a) (t.setQuery i { q with tcp := some tcp' })
  | drop {i : Nat} {q : SharedQuery} {lease : Lease} (hq : t.queries[i]? = some q)
      (hlease : q.phase ≠ .dialing ∧ lease = t.lease ∨
        q.phase = .dialing ∧ t.lease.giveUp i = some lease) :
      t.Moves (.drop i) ({ t with lease := lease }.setPhase i q (.done none))
  | abort {c : Nat} {conn : SharedConn} (hconn : t.conns[c]? = some conn)
      (hfree : t.held c = false) :
      t.Moves (.abort c) { t with conns := t.conns.set c { conn with aborted := true } }

theorem moves_of_finishQuery {t t' : SharedTransport} {i : Nat} {q : SharedQuery}
    (hq : t.queries[i]? = some q) (h : t.finishQuery kind i q = some t') :
    t.Moves kind host toVec fromVec (.finish i) t' := by
  unfold finishQuery at h
  split at h
  · rename_i k hphase
    simp only [Option.bind_eq_bind, Option.bind_eq_some_iff] at h
    obtain ⟨c, hcurrent, conn, hconn, x, hx, h⟩ := h
    split at h <;> cases h
    have hx' : t.exchange? c k = some x := by simp [exchange?, hconn, hx]
    exact .finish hq hphase hcurrent hx' (by assumption)
  · simp only [Option.bind_eq_bind, Option.bind_eq_some_iff] at h
    obtain ⟨tcp, htcp, h⟩ := h
    split at h <;> cases h
    exact .finishTcp hq (by assumption) htcp (by assumption)
  · cases h

theorem moves_of_lockSlot {t t' : SharedTransport} {i : Nat} {q : SharedQuery}
    (hq : t.queries[i]? = some q) (hphase : q.phase = .connecting)
    (h : t.lockSlot i q = some t') : t.Moves kind host toVec fromVec (.lock i) t' := by
  simp only [lockSlot, Option.map_eq_some_iff, Prod.exists] at h
  obtain ⟨got, lease, hacquire, rfl⟩ := h
  obtain ⟨hfree, ⟨c, rfl, hkept, halive, rfl⟩ | ⟨rfl, hdead, rfl⟩⟩ :=
    Lease.acquire_eq_some hacquire
  · exact .take hq hphase hfree hkept halive
  · exact .hold hq hphase hfree hdead

theorem moves_of_dialed {t t' : SharedTransport} {i : Nat} {q : SharedQuery}
    {ips : Except UpstreamError (List (Except UpstreamError Unit))}
    (hq : t.queries[i]? = some q) (hphase : q.phase = .dialing)
    (h : t.dialed i q (connect host ips) = some t') :
    t.Moves kind host toVec fromVec (.dial i ips) t' := by
  cases hresult : connect host ips with
  | ok =>
      simp only [hresult, dialed, Option.map_eq_some_iff] at h
      obtain ⟨lease, hfill, rfl⟩ := h
      exact .dialed hq hphase hfill
  | error e =>
      simp only [hresult, dialed, Option.map_eq_some_iff] at h
      obtain ⟨lease, hgiveUp, rfl⟩ := h
      exact .dialFails hq hphase hgiveUp hresult

theorem moves_of_dropQuery {t t' : SharedTransport} {i : Nat} {q : SharedQuery}
    (hq : t.queries[i]? = some q) (h : t.dropQuery i q = some t') :
    t.Moves kind host toVec fromVec (.drop i) t' := by
  unfold dropQuery at h
  split at h
  · cases h
    exact .drop hq (.inl ⟨by simp [*], rfl⟩)
  · cases h
    exact .drop hq (.inl ⟨by simp [*], rfl⟩)
  · obtain ⟨lease, hgiveUp, rfl⟩ := Option.map_eq_some_iff.mp h
    exact .drop hq (.inr ⟨by assumption, hgiveUp⟩)
  · cases h

theorem moves_of_step {t t' : SharedTransport} {a : SharedAction}
    (h : t.step kind host toVec fromVec a = some t') :
    t.Moves kind host toVec fromVec a t' := by
  cases a with
  | query message =>
      cases h
      exact .query message
  | lock i =>
      simp only [step, Option.bind_eq_bind, Option.bind_eq_some_iff] at h
      obtain ⟨q, hq, h⟩ := h
      split at h
      · exact moves_of_lockSlot hq (by assumption) h
      · cases h
  | dial i ips =>
      simp only [step, Option.bind_eq_bind, Option.bind_eq_some_iff] at h
      obtain ⟨q, hq, h⟩ := h
      split at h
      · exact moves_of_dialed hq (by assumption) h
      · cases h
  | start i encodeError =>
      simp only [step, Option.bind_eq_bind, Option.bind_eq_some_iff] at h
      obtain ⟨q, hq, h⟩ := h
      split at h
      · simp only [Option.bind_eq_some_iff, Option.some.injEq] at h
        obtain ⟨c, hcurrent, conn, hconn, state, hstep, rfl⟩ := h
        exact .start hq (by assumption) hcurrent hconn hstep
      · cases h
  | conn c a =>
      simp only [step] at h
      split at h
      · cases h
      · simp only [Option.bind_eq_bind, Option.bind_eq_some_iff] at h
        obtain ⟨conn, hconn, h⟩ := h
        split at h
        · cases h
        · simp only [Option.bind_eq_some_iff, Option.some.injEq] at h
          obtain ⟨state, hstep, rfl⟩ := h
          exact .conn hconn hstep
  | finish i =>
      simp only [step, Option.bind_eq_bind, Option.bind_eq_some_iff] at h
      obtain ⟨q, hq, h⟩ := h
      exact moves_of_finishQuery hq h
  | invalidate i =>
      simp only [step, Option.bind_eq_bind, Option.bind_eq_some_iff] at h
      obtain ⟨q, hq, h⟩ := h
      split at h
      · obtain ⟨lease, hforget, rfl⟩ := Option.map_eq_some_iff.mp h
        exact .invalidate hq (by assumption) hforget
      · cases h
  | tcp i a =>
      simp only [step, Option.bind_eq_bind, Option.bind_eq_some_iff] at h
      obtain ⟨q, hq, h⟩ := h
      split at h
      · simp only [Option.bind_eq_some_iff, Option.some.injEq] at h
        obtain ⟨tcp, htcp, tcp', hstep, rfl⟩ := h
        exact .tcp hq (by assumption) htcp hstep
      · cases h
  | drop i =>
      simp only [step, Option.bind_eq_bind, Option.bind_eq_some_iff] at h
      obtain ⟨q, hq, h⟩ := h
      exact moves_of_dropQuery hq h
  | abort c =>
      simp only [step, Option.bind_eq_bind, Option.bind_eq_some_iff] at h
      obtain ⟨conn, hconn, h⟩ := h
      split at h
      · cases h
      · cases h
        exact .abort hconn (by simpa using ‹¬ t.held c = true›)

end

end SharedTransport

end Bulwark.Upstream
