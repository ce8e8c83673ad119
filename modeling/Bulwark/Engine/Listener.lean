import Bulwark.Foundation.Framing
import Bulwark.Engine.Questions
import Bulwark.Engine.Udp

/-!
# The listener of one address

`spawn_udp`, `spawn_tcp` and `serve_tcp_conn` over one engine.  The engine may have other
callers, which take their steps in between.  A TCP connection reads a query, has it
handled and writes the response before it reads the next one; a permit is held for every
open connection and for every datagram in flight.
-/

namespace Bulwark.Engine

open Bulwark.Foundation Bulwark.Dns Bulwark.Filter Bulwark.Upstream

def maxUdpInflight : Nat := 1024

def maxTcpConns : Nat := 512

/-- The bytes of a datagram behind the buffer's end are lost. -/
def udpBuffer : Nat := 4096

structure Peer where
  ip : IpAddr
  port : UInt16

structure Datagram where
  raw : Bytes
  peer : Peer

inductive UdpTask where
  | spawned (d : Datagram)
  | handling (d : Datagram) (t : Nat)
  | finished (d : Datagram) (t : Nat)

inductive Serving where
  | reading
  | handling (t : Nat)
  | writing (bytes : Bytes)
  | closed

structure TcpConn where
  peer : Peer
  reader : FrameReader UInt8
  serving : Serving
  arrived : Bytes
  sent : Bytes
  tasks : List Nat

def TcpConn.new (peer : Peer) : TcpConn := ⟨peer, .start, .reading, [], [], []⟩

structure Listener (env : EngineEnv) where
  world : World env
  udpFree : Nat
  waiting : Option Datagram
  datagrams : List UdpTask
  outbox : List (Peer × Bytes)
  tcpFree : Nat
  /-- Whether a permit is held for the next connection. -/
  accepting : Bool
  conns : List TcpConn

inductive ListenerAction (rx : RegexEngine) where
  | engine (a : EngineAction rx)
  | recv (raw : Bytes) (peer : Peer)
  | spawnUdp
  | handleUdp (i t : Nat)
  | replyUdp (i : Nat) (delivered : Bool)
  | acquireTcp
  | accept (peer : Peer)
  | acceptError
  | arrive (c : Nat) (chunk : Bytes)
  | read (c t : Nat)
  /-- The stream ends, fails or stalls while something is read. -/
  | stop (c : Nat)
  | respond (c : Nat)
  | write (c : Nat)
  /-- Writing fails or stalls behind the first `k` bytes. -/
  | writeFails (c k : Nat)

section

variable {env : EngineEnv} (toVec : Message → Option Bytes)

/-- What a task returned from `handle`. -/
def World.reply? (w : World env) (t : Nat) : Option (Call env.rx × Reply) :=
  match w.tasks t with
  | some (.replied call reply) => some (call, reply)
  | _ => none

namespace Listener

def setConn (l : Listener env) (c : Nat) (conn : TcpConn) : Listener env :=
  { l with conns := l.conns.set c conn }

/-- The task of the connection ends and gives its permit back. -/
def close (l : Listener env) (c : Nat) (conn : TcpConn) : Listener env :=
  { l.setConn c { conn with serving := .closed } with tcpFree := l.tcpFree + 1 }

def readConn (l : Listener env) (c t : Nat) (conn : TcpConn) : Option (Listener env) := do
  let (body, reader) ← conn.reader.next be16Framing
  let conn := { conn with reader := reader }
  match body with
  | none => some (l.setConn c conn)
  | some raw =>
      match Ingress.parse raw with
      | none => some (l.close c conn)
      | some _ => do
          let world ← l.world.step (.load t raw conn.peer.ip)
          some ({ l with world := world }.setConn c
            { conn with serving := .handling t, tasks := conn.tasks ++ [t] })

def respondConn (l : Listener env) (c : Nat) (conn : TcpConn) (reply : Reply) : Listener env :=
  match reply.response.intoWire toVec with
  | none => l.close c conn
  | some bytes =>
      if 65535 < bytes.length then l.close c conn
      else l.setConn c { conn with serving := .writing bytes }

def step (l : Listener env) : ListenerAction env.rx → Option (Listener env)
  | .engine a => (l.world.step a).map fun world => { l with world := world }
  | .recv raw peer =>
      match l.waiting with
      | some _ => none
      | none =>
          match Ingress.parse (raw.take udpBuffer) with
          | none => some l
          | some _ => some { l with waiting := some ⟨raw.take udpBuffer, peer⟩ }
  | .spawnUdp =>
      match l.waiting, l.udpFree with
      | some d, free + 1 => some { l with
          waiting := none
          udpFree := free
          datagrams := l.datagrams ++ [.spawned d] }
      | _, _ => none
  | .handleUdp i t =>
      match l.datagrams[i]? with
      | some (.spawned d) => do
          let world ← l.world.step (.load t d.raw d.peer.ip)
          some { l with world := world, datagrams := l.datagrams.set i (.handling d t) }
      | _ => none
  | .replyUdp i delivered =>
      match l.datagrams[i]? with
      | some (.handling d t) => do
          let (call, reply) ← l.world.reply? t
          -- an error of `send_to` is ignored
          let bytes := if delivered then udpDatagram toVec call.ingress reply.response else none
          some { l with
            udpFree := l.udpFree + 1
            datagrams := l.datagrams.set i (.finished d t)
            outbox := l.outbox ++ (bytes.map fun bytes => (d.peer, bytes)).toList }
      | _ => none
  | .acquireTcp =>
      match l.accepting, l.tcpFree with
      | false, free + 1 => some { l with accepting := true, tcpFree := free }
      | _, _ => none
  | .accept peer =>
      if l.accepting then
        some { l with accepting := false, conns := l.conns ++ [.new peer] }
      else none
  | .acceptError =>
      if l.accepting then some { l with accepting := false, tcpFree := l.tcpFree + 1 } else none
  | .arrive c chunk => do
      let conn ← l.conns[c]?
      match conn.serving with
      | .closed => none
      | _ => some (l.setConn c
          { conn with reader := conn.reader.feed chunk, arrived := conn.arrived ++ chunk })
  | .read c t => do
      let conn ← l.conns[c]?
      match conn.serving with
      | .reading => l.readConn c t conn
      | _ => none
  | .stop c => do
      let conn ← l.conns[c]?
      match conn.serving with
      | .reading => some (l.close c conn)
      | _ => none
  | .respond c => do
      let conn ← l.conns[c]?
      match conn.serving with
      | .handling t => do
          let (_, reply) ← l.world.reply? t
          some (l.respondConn toVec c conn reply)
      | _ => none
  | .write c => do
      let conn ← l.conns[c]?
      match conn.serving with
      | .writing bytes => some (l.setConn c
          { conn with serving := .reading, sent := conn.sent ++ be16Framing.frame bytes })
      | _ => none
  | .writeFails c k => do
      let conn ← l.conns[c]?
      match conn.serving with
      | .writing bytes => some (l.close c
          { conn with sent := conn.sent ++ (be16Framing.frame bytes).take k })
      | _ => none

def new (world : World env) : Listener env :=
  ⟨world, maxUdpInflight, none, [], [], maxTcpConns, false, []⟩

end Listener

/-! ## What a step does -/

def TcpConn.closed (conn : TcpConn) : Bool :=
  match conn.serving with
  | .closed => true
  | _ => false

/-- How a connection goes on, and the engine with it. -/
inductive TcpConn.Moves (conn : TcpConn) (w : World env) : World env → TcpConn → Prop where
  | arrive (chunk : Bytes) (hopen : conn.closed = false) :
      conn.Moves w w
        { conn with reader := conn.reader.feed chunk, arrived := conn.arrived ++ chunk }
  | header {reader : FrameReader UInt8} (hreading : conn.serving = .reading)
      (hnext : conn.reader.next be16Framing = some (none, reader)) :
      conn.Moves w w { conn with reader := reader }
  | refuse {raw : Bytes} {reader : FrameReader UInt8} (hreading : conn.serving = .reading)
      (hnext : conn.reader.next be16Framing = some (some raw, reader)) :
      conn.Moves w w { conn with reader := reader, serving := .closed }
  | ask {raw : Bytes} {reader : FrameReader UInt8} {t : Nat} {v : World env}
      (hreading : conn.serving = .reading)
      (hnext : conn.reader.next be16Framing = some (some raw, reader))
      (hload : w.step (.load t raw conn.peer.ip) = some v) :
      conn.Moves w v
        { conn with reader := reader, serving := .handling t, tasks := conn.tasks ++ [t] }
  | stop (hreading : conn.serving = .reading) :
      conn.Moves w w { conn with serving := .closed }
  | drop {t : Nat} (hhandling : conn.serving = .handling t) :
      conn.Moves w w { conn with serving := .closed }
  | respond {t : Nat} {call : Call env.rx} {reply : Reply} {bytes : Bytes}
      (hhandling : conn.serving = .handling t) (hreply : w.reply? t = some (call, reply))
      (hbytes : reply.response.intoWire toVec = some bytes) (hsize : bytes.length ≤ 65535) :
      conn.Moves w w { conn with serving := .writing bytes }
  | write {bytes : Bytes} (hwriting : conn.serving = .writing bytes) :
      conn.Moves w w
        { conn with serving := .reading, sent := conn.sent ++ be16Framing.frame bytes }
  | writeFails {bytes : Bytes} (k : Nat) (hwriting : conn.serving = .writing bytes) :
      conn.Moves w w
        { conn with
          serving := .closed
          sent := conn.sent ++ (be16Framing.frame bytes).take k }

def ListenerAction.conn? : ListenerAction env.rx → Option Nat
  | .arrive c _ | .read c _ | .stop c | .respond c | .write c | .writeFails c _ => some c
  | _ => none

inductive Listener.Steps (l : Listener env) : ListenerAction env.rx → Listener env → Prop where
  | engine {a : EngineAction env.rx} {world : World env} (h : l.world.step a = some world) :
      l.Steps (.engine a) { l with world := world }
  | ignore {raw : Bytes} {peer : Peer} (hparse : Ingress.parse (raw.take udpBuffer) = none) :
      l.Steps (.recv raw peer) l
  | recv {raw : Bytes} {peer : Peer} {ingress : Ingress} (hfree : l.waiting = none)
      (hparse : Ingress.parse (raw.take udpBuffer) = some ingress) :
      l.Steps (.recv raw peer) { l with waiting := some ⟨raw.take udpBuffer, peer⟩ }
  | spawnUdp {d : Datagram} {free : Nat} (hwaiting : l.waiting = some d)
      (hfree : l.udpFree = free + 1) :
      l.Steps .spawnUdp { l with
        waiting := none
        udpFree := free
        datagrams := l.datagrams ++ [.spawned d] }
  | handleUdp {i t : Nat} {d : Datagram} {world : World env}
      (hi : l.datagrams[i]? = some (.spawned d))
      (hload : l.world.step (.load t d.raw d.peer.ip) = some world) :
      l.Steps (.handleUdp i t)
        { l with world := world, datagrams := l.datagrams.set i (.handling d t) }
  | replyUdp {i t : Nat} {delivered : Bool} {d : Datagram} {call : Call env.rx} {reply : Reply}
      {sent : List Bytes} (hi : l.datagrams[i]? = some (.handling d t))
      (hreply : l.world.reply? t = some (call, reply))
      (hsent : sent = [] ∨ ∃ bytes, sent = [bytes] ∧
        udpDatagram toVec call.ingress reply.response = some bytes) :
      l.Steps (.replyUdp i delivered) { l with
        udpFree := l.udpFree + 1
        datagrams := l.datagrams.set i (.finished d t)
        outbox := l.outbox ++ sent.map fun bytes => (d.peer, bytes) }
  | acquireTcp {free : Nat} (hidle : l.accepting = false) (hfree : l.tcpFree = free + 1) :
      l.Steps .acquireTcp { l with accepting := true, tcpFree := free }
  | accept (peer : Peer) (haccepting : l.accepting = true) :
      l.Steps (.accept peer) { l with accepting := false, conns := l.conns ++ [.new peer] }
  | acceptError (haccepting : l.accepting = true) :
      l.Steps .acceptError { l with accepting := false, tcpFree := l.tcpFree + 1 }
  | conn {a : ListenerAction env.rx} {c : Nat} {conn conn' : TcpConn} {world : World env}
      (ha : a.conn? = some c) (hc : l.conns[c]? = some conn)
      (hmoves : conn.Moves toVec l.world world conn') :
      l.Steps a { l with
        world := world
        conns := l.conns.set c conn'
        tcpFree := l.tcpFree + conn'.closed.toNat }

theorem Listener.steps_setConn {l : Listener env} {a : ListenerAction env.rx} {c : Nat}
    {conn conn' : TcpConn} {world : World env} (ha : a.conn? = some c)
    (hc : l.conns[c]? = some conn) (hmoves : conn.Moves toVec l.world world conn')
    (hopen : conn'.closed = false) :
    l.Steps toVec a ({ l with world := world }.setConn c conn') := by
  have h : l.Steps toVec a _ := .conn ha hc hmoves
  rw [hopen] at h
  exact h

theorem Listener.steps_close {l : Listener env} {a : ListenerAction env.rx} {c : Nat}
    {conn conn' : TcpConn} (ha : a.conn? = some c) (hc : l.conns[c]? = some conn)
    (hmoves : conn.Moves toVec l.world l.world { conn' with serving := .closed }) :
    l.Steps toVec a (l.close c conn') :=
  .conn ha hc hmoves

theorem Listener.steps_of_readConn {l m : Listener env} {a : ListenerAction env.rx} {c t : Nat}
    {conn : TcpConn} (ha : a.conn? = some c) (hc : l.conns[c]? = some conn)
    (hreading : conn.serving = .reading) (h : l.readConn c t conn = some m) :
    l.Steps toVec a m := by
  simp only [readConn, Option.bind_eq_bind, Option.bind_eq_some_iff, Prod.exists] at h
  obtain ⟨body, reader, hnext, h⟩ := h
  cases body with
  | none =>
      cases h
      exact steps_setConn toVec ha hc (.header hreading hnext) (by simp [TcpConn.closed, hreading])
  | some raw =>
      dsimp only at h
      split at h
      · cases h
        exact steps_close toVec ha hc (.refuse hreading hnext)
      · simp only [Option.bind_eq_some_iff, Option.some.injEq] at h
        obtain ⟨world, hload, rfl⟩ := h
        exact steps_setConn toVec ha hc (.ask hreading hnext hload) rfl

theorem Listener.steps_of_step {l m : Listener env} {a : ListenerAction env.rx}
    (h : l.step toVec a = some m) : l.Steps toVec a m := by
  cases a with
  | engine a =>
      rw [step, Option.map_eq_some_iff] at h
      obtain ⟨world, hworld, rfl⟩ := h
      exact .engine hworld
  | recv raw peer =>
      rw [step] at h
      split at h
      · cases h
      · rename_i hfree
        split at h
        · cases h
          exact .ignore ‹_›
        · rename_i hparse
          cases h
          exact .recv hfree hparse
  | spawnUdp =>
      rw [step] at h
      split at h
      · rename_i hwaiting hfree
        cases h
        exact .spawnUdp hwaiting hfree
      · cases h
  | handleUdp i t =>
      rw [step] at h
      split at h
      · rename_i hi
        simp only [Option.bind_eq_bind, Option.bind_eq_some_iff, Option.some.injEq] at h
        obtain ⟨world, hload, rfl⟩ := h
        exact .handleUdp hi hload
      · cases h
  | replyUdp i delivered =>
      rw [step] at h
      split at h
      · rename_i hi
        simp only [Option.bind_eq_bind, Option.bind_eq_some_iff, Prod.exists,
          Option.some.injEq] at h
        obtain ⟨call, reply, hreply, rfl⟩ := h
        split
        · cases hsent : udpDatagram toVec call.ingress reply.response with
          | none => exact @Steps.replyUdp _ _ _ _ _ _ _ _ _ [] hi hreply (.inl rfl)
          | some bytes =>
              exact @Steps.replyUdp _ _ _ _ _ _ _ _ _ [bytes] hi hreply (.inr ⟨bytes, rfl, hsent⟩)
        · exact @Steps.replyUdp _ _ _ _ _ _ _ _ _ [] hi hreply (.inl rfl)
      · cases h
  | acquireTcp =>
      rw [step] at h
      split at h
      · rename_i hidle hfree
        cases h
        exact .acquireTcp hidle hfree
      · cases h
  | accept peer =>
      rw [step] at h
      split at h
      · rename_i haccepting
        cases h
        exact .accept peer haccepting
      · cases h
  | acceptError =>
      rw [step] at h
      split at h
      · rename_i haccepting
        cases h
        exact .acceptError haccepting
      · cases h
  | arrive c chunk =>
      simp only [step, Option.bind_eq_bind, Option.bind_eq_some_iff] at h
      obtain ⟨conn, hc, h⟩ := h
      split at h
      · cases h
      · rename_i hopen
        cases h
        have hclosed : conn.closed = false := by
          unfold TcpConn.closed
          split
          · exact (hopen ‹_›).elim
          · rfl
        exact steps_setConn toVec rfl hc (.arrive chunk hclosed) hclosed
  | read c t =>
      simp only [step, Option.bind_eq_bind, Option.bind_eq_some_iff] at h
      obtain ⟨conn, hc, h⟩ := h
      split at h
      · exact steps_of_readConn toVec rfl hc ‹_› h
      · cases h
  | stop c =>
      simp only [step, Option.bind_eq_bind, Option.bind_eq_some_iff] at h
      obtain ⟨conn, hc, h⟩ := h
      split at h
      · cases h
        exact steps_close toVec rfl hc (.stop ‹_›)
      · cases h
  | respond c =>
      simp only [step, Option.bind_eq_bind, Option.bind_eq_some_iff] at h
      obtain ⟨conn, hc, h⟩ := h
      split at h
      · rename_i hhandling
        simp only [Option.bind_eq_some_iff, Prod.exists, Option.some.injEq] at h
        obtain ⟨call, reply, hreply, rfl⟩ := h
        unfold respondConn
        split
        · exact steps_close toVec rfl hc (.drop hhandling)
        · rename_i hbytes
          split
          · exact steps_close toVec rfl hc (.drop hhandling)
          · rename_i hsize
            exact steps_setConn toVec rfl hc (.respond hhandling hreply hbytes (by omega)) rfl
      · cases h
  | write c =>
      simp only [step, Option.bind_eq_bind, Option.bind_eq_some_iff] at h
      obtain ⟨conn, hc, h⟩ := h
      split at h
      · cases h
        exact steps_setConn toVec rfl hc (.write ‹_›) rfl
      · cases h
  | writeFails c k =>
      simp only [step, Option.bind_eq_bind, Option.bind_eq_some_iff] at h
      obtain ⟨conn, hc, h⟩ := h
      split at h
      · cases h
        exact steps_close toVec rfl hc (.writeFails k ‹_›)
      · cases h

/-! ## Permits -/

def UdpTask.inFlight : UdpTask → Bool
  | .finished _ _ => false
  | _ => true

/-- Every permit is free, held by an open connection or by the one that is accepted next. -/
structure Listener.PermitsKept (l : Listener env) : Prop where
  udp : l.udpFree + l.datagrams.countP UdpTask.inFlight = maxUdpInflight
  tcp : l.tcpFree + l.accepting.toNat + l.conns.countP (!·.closed) = maxTcpConns

theorem countP_set_of_getElem? {α : Type} {p : α → Bool} {xs : List α} {i : Nat} {x : α}
    (h : xs[i]? = some x) (y : α) :
    (xs.set i y).countP p + (p x).toNat = xs.countP p + (p y).toNat := by
  obtain ⟨hi, rfl⟩ := List.getElem?_eq_some_iff.mp h
  have hset := @List.countP_set _ p xs i y hi
  have htoNat : ∀ b : Bool, b.toNat = if b = true then 1 else 0 := by decide
  have hle : (p xs[i]).toNat ≤ xs.countP p := by
    cases hp : p xs[i] with
    | false => simp
    | true => simpa using List.countP_pos_iff.mpr ⟨_, List.getElem_mem hi, hp⟩
  simp only [htoNat] at hle ⊢
  omega

theorem TcpConn.open_of_moves {conn conn' : TcpConn} {w v : World env}
    (h : conn.Moves toVec w v conn') : conn.closed = false := by
  cases h with
  | arrive chunk hopen => exact hopen
  | header hreading | refuse hreading | ask hreading | stop hreading =>
      simp [closed, hreading]
  | drop hhandling | respond hhandling => simp [closed, hhandling]
  | write hwriting | writeFails k hwriting => simp [closed, hwriting]

theorem Listener.PermitsKept.step {l m : Listener env} {a : ListenerAction env.rx}
    (h : l.PermitsKept) (hsteps : l.Steps toVec a m) : m.PermitsKept := by
  obtain ⟨hudp, htcp⟩ := h
  cases hsteps with
  | engine | ignore | recv => exact ⟨hudp, htcp⟩
  | spawnUdp hwaiting hfree =>
      refine ⟨?_, htcp⟩
      simp [UdpTask.inFlight]
      omega
  | @handleUdp i t d world hi hload =>
      refine ⟨?_, htcp⟩
      have := @countP_set_of_getElem? _ UdpTask.inFlight _ _ _ hi (.handling d t)
      simp [UdpTask.inFlight] at this ⊢
      omega
  | @replyUdp i t delivered d call reply sent hi hreply hsent =>
      refine ⟨?_, htcp⟩
      have := @countP_set_of_getElem? _ UdpTask.inFlight _ _ _ hi (.finished d t)
      simp [UdpTask.inFlight] at this ⊢
      omega
  | acquireTcp hidle hfree =>
      refine ⟨hudp, ?_⟩
      simp [hidle] at htcp ⊢
      omega
  | accept peer haccepting =>
      refine ⟨hudp, ?_⟩
      simp [haccepting, TcpConn.new, TcpConn.closed] at htcp ⊢
      omega
  | acceptError haccepting =>
      refine ⟨hudp, ?_⟩
      simp [haccepting] at htcp ⊢
      omega
  | @conn a c conn conn' world ha hc hmoves =>
      refine ⟨hudp, ?_⟩
      have hset := @countP_set_of_getElem? _ (!·.closed) _ _ _ hc conn'
      have hopen := TcpConn.open_of_moves toVec hmoves
      cases hclosed : conn'.closed <;> simp [hopen, hclosed] at hset htcp ⊢ <;> omega

/-- In every run every permit is accounted for: at most as many connections are open, and as
many datagrams in flight, as there are permits, and none is lost when one ends. -/
theorem Listener.permits_of_run {state : EngineState env.rx} {cache : DnsCache}
    {upstreams : Nat → List UpstreamEntry} {as : List (ListenerAction env.rx)} {l : Listener env}
    (hrun : runFrom (step toVec) (new (World.new state cache upstreams)) as = some l) :
    l.PermitsKept :=
  runFrom_invariant (C := fun _ _ => True) (fun _ _ _ _ hstep h =>
    h.step toVec (steps_of_step toVec hstep)) ⟨rfl, rfl⟩ (eachStep_trivial _ _) hrun

end

/-! ## A run -/

def demoPeer : Peer := ⟨.v4 1, 5000⟩

/-- A query in two pieces over TCP, and another over UDP while the first one waits. -/
def listenerRun : List (ListenerAction demoEnv.rx) :=
  [.acquireTcp, .accept demoPeer,
    .arrive 0 ((be16Framing.frame (demoQuery 7)).take 5), .read 0 0,
    .arrive 0 ((be16Framing.frame (demoQuery 7)).drop 5), .read 0 0,
    .recv (demoQuery 9) demoPeer, .spawnUdp, .handleUdp 0 1] ++
  (resolveDemo 0 2 0 (demoQuery 7) demoAnswer).tail.map .engine ++
  [.engine (.look 1 3 0), .replyUdp 0 true, .respond 0, .write 0]

theorem permits_listenerRun :
    ∃ l, runFrom (Listener.step demoEnv.cache.codec.encode)
        (.new (World.new (demoState emptyFilter) demoCache demoUpstreams)) listenerRun = some l ∧
      l.conns.length = 1 ∧ l.PermitsKept := by
  have hrun : ((runFrom (Listener.step demoEnv.cache.codec.encode)
      (.new (World.new (demoState emptyFilter) demoCache demoUpstreams)) listenerRun).any
        fun l => l.conns.length == 1) = true := by decide +kernel
  obtain ⟨l, hl, hconns⟩ := (Option.any_eq_true _ _).mp hrun
  exact ⟨l, hl, by simpa using hconns, Listener.permits_of_run _ hl⟩

end Bulwark.Engine
