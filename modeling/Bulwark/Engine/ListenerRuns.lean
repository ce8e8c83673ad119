import Bulwark.Engine.Listener

/-!
# What clients are sent

In every run of a listener each TCP connection answers its queries one by one and in
their order, and each datagram is answered at most once and where it came from.
-/

namespace Bulwark.Engine

open Bulwark.Foundation Bulwark.Dns Bulwark.Filter Bulwark.Upstream

section

variable {env : EngineEnv} (toVec : Message → Option Bytes)

/-! ## Calls and replies last -/

def Task.call? : Task env → Option (Call env.rx)
  | .loaded call | .rewriting call _ _ _ | .forwarding call _ _ _ | .replied call _ => some call
  | _ => none

def World.call? (w : World env) (t : Nat) : Option (Call env.rx) := (w.tasks t).bind Task.call?

/-- The calls of `w` are still those of `v`, and so are its replies. -/
structure World.Later (w v : World env) : Prop where
  call : ∀ {t call}, w.call? t = some call → v.call? t = some call
  reply : ∀ {t p}, w.reply? t = some p → v.reply? t = some p

theorem World.later_refl (w : World env) : w.Later w := ⟨id, id⟩

theorem World.later_setTask {w u : World env} (htasks : u.tasks = w.tasks) {t : Nat}
    {task : Task env} (hcall : ∀ call, w.call? t = some call → task.call? = some call)
    (hopen : w.reply? t = none) : w.Later (u.setTask t task) where
  call {t' call} h := by
    by_cases ht : t' = t
    · subst ht
      simpa [call?, setTask] using hcall call h
    · simpa [call?, setTask, ht, htasks] using h
  reply {t' p} h := by
    by_cases ht : t' = t
    · subst ht
      rw [hopen] at h
      cases h
    · simpa [reply?, setTask, ht, htasks] using h

theorem World.later_of_task {w u : World env} (htasks : u.tasks = w.tasks) {t : Nat}
    {old task : Task env} (htask : w.tasks t = some old)
    (hcall : ∀ call, old.call? = some call → task.call? = some call)
    (hopen : ∀ call reply, old ≠ .replied call reply) : w.Later (u.setTask t task) := by
  refine later_setTask htasks (fun call h => ?_) ?_
  · rw [call?, htask, Option.bind_some] at h
    exact hcall call h
  · rw [reply?, htask]
    split
    · rename_i call reply heq
      cases heq
      exact (hopen call reply rfl).elim
    · rfl

theorem World.later_of_free {w u : World env} (htasks : u.tasks = w.tasks) {t : Nat}
    {task : Task env} (hfree : w.tasks t = none) : w.Later (u.setTask t task) := by
  refine later_setTask htasks (fun call h => ?_) ?_
  · rw [call?, hfree] at h
    cases h
  · rw [reply?, hfree]

theorem World.later_of_steps {w v : World env} {a : EngineAction env.rx} (h : w.Steps a v) :
    w.Later v := by
  cases h with
  | load hfree => exact later_of_free (by rfl) hfree
  | reply htask | rewrite htask | hit htask | undecodable htask | forward htask =>
      exact later_of_task (by rfl) htask (by simp [Task.call?]) (by simp)
  | rewritten htask | answered htask =>
      exact later_of_task (by rfl) htask (by simp [Task.call?]) (by simp)
  | refreshed htask | abandon htask | refresh htask =>
      exact later_of_task (by rfl) htask (by simp [Task.call?]) (by simp)
  | @hitStale t u id call fields lazy log hit cache reply refresh htask _ _ _ hother hfree =>
      have hreplied : w.Later ((w.setCache cache).setTask t (.replied call reply)) :=
        later_of_task (by rfl) htask (by simp [Task.call?]) (by simp)
      have hspawned : ((w.setCache cache).setTask t (.replied call reply)).Later
          (((w.setCache cache).setTask t (.replied call reply)).setTask u (.spawned refresh)) :=
        later_of_free (by rfl) (by simpa [setTask, setCache, hother] using hfree)
      exact ⟨fun h => hspawned.call (hreplied.call h), fun h => hspawned.reply (hreplied.reply h)⟩
  | _ => exact ⟨id, id⟩

/-! ## Queries and responses of a connection -/

/-- The task was called with these bytes from this address. -/
def World.Asks (w : World env) (ip : IpAddr) (t : Nat) (raw : Bytes) : Prop :=
  ∃ call, w.call? t = some call ∧ call.raw = raw ∧ call.clientIp = ip

/-- The task has replied, and this is its reply over TCP. -/
def World.Answers (w : World env) (t : Nat) (bytes : Bytes) : Prop :=
  ∃ call reply, w.reply? t = some (call, reply) ∧
    reply.response.intoWire toVec = some bytes ∧ bytes.length ≤ 65535

theorem World.Later.asks {w v : World env} (h : w.Later v) {ip : IpAddr} {t : Nat} {raw : Bytes}
    (hasks : w.Asks ip t raw) : v.Asks ip t raw := by
  obtain ⟨call, hcall, hraw, hip⟩ := hasks
  exact ⟨call, h.call hcall, hraw, hip⟩

theorem World.Later.answers {w v : World env} (h : w.Later v) {t : Nat} {bytes : Bytes}
    (hanswers : w.Answers toVec t bytes) : v.Answers toVec t bytes := by
  obtain ⟨call, reply, hreply, hbytes⟩ := hanswers
  exact ⟨call, reply, h.reply hreply, hbytes⟩

theorem World.asks_of_load {w v : World env} {t : Nat} {raw : Bytes} {ip : IpAddr}
    (h : w.step (.load t raw ip) = some v) : v.Asks ip t raw := by
  rw [step] at h
  split at h
  · cases h
  · split at h
    · rename_i ingress hparse
      cases h
      exact ⟨⟨raw, ingress, hparse, ip, w.state⟩, by simp [call?, setTask, Task.call?], rfl, rfl⟩
    · cases h

/-- The last query, by the stage of the connection: whether it is still to be answered, what
has arrived behind it, and the part of its response that was written. -/
def TcpConn.Stage (conn : TcpConn) (w : World env) (pending : List Nat) (rest cut : Bytes) :
    Prop :=
  match conn.serving with
  | .reading => pending = [] ∧ rest = conn.reader.held be16Framing ∧ cut = []
  | .handling t => pending = [t] ∧ rest = conn.reader.held be16Framing ∧ cut = []
  | .writing bytes => (∃ t, pending = [t] ∧ w.Answers toVec t bytes) ∧
      rest = conn.reader.held be16Framing ∧ cut = []
  | .closed => pending.length ≤ 1 ∧ (cut = [] ∨ ∃ t bytes, pending = [t] ∧
      w.Answers toVec t bytes ∧ cut <+: be16Framing.frame bytes)

/-- A connection that has read `queries` and written `answers`. -/
structure TcpConn.Served (conn : TcpConn) (w : World env) (done pending : List Nat)
    (queries answers : List Bytes) (rest cut : Bytes) : Prop where
  sound : conn.reader.Sound be16Framing
  tasks : conn.tasks = done ++ pending
  asks : List.Forall₂ (w.Asks conn.peer.ip) conn.tasks queries
  answered : List.Forall₂ (w.Answers toVec) done answers
  fits : be16Framing.Fits queries
  arrived : conn.arrived = be16Framing.stream queries ++ rest
  sent : conn.sent = be16Framing.stream answers ++ cut
  stage : conn.Stage toVec w pending rest cut

def TcpConn.Serves (conn : TcpConn) (w : World env) : Prop :=
  ∃ done pending queries answers rest cut,
    conn.Served toVec w done pending queries answers rest cut

theorem TcpConn.Serves.later {conn : TcpConn} {w v : World env} (h : conn.Serves toVec w)
    (hlater : w.Later v) : conn.Serves toVec v := by
  obtain ⟨done, pending, queries, answers, rest, cut, h⟩ := h
  refine ⟨done, pending, queries, answers, rest, cut, h.sound, h.tasks,
    h.asks.imp fun _ _ => hlater.asks, h.answered.imp fun _ _ => hlater.answers toVec, h.fits,
    h.arrived, h.sent, ?_⟩
  have hstage := h.stage
  unfold Stage at hstage ⊢
  split at hstage
  · exact hstage
  · exact hstage
  · obtain ⟨⟨t, hpending, hanswers⟩, hrest⟩ := hstage
    exact ⟨⟨t, hpending, hlater.answers toVec hanswers⟩, hrest⟩
  · obtain ⟨hpending, hcut | ⟨t, bytes, ht, hanswers, hprefix⟩⟩ := hstage
    · exact ⟨hpending, .inl hcut⟩
    · exact ⟨hpending, .inr ⟨t, bytes, ht, hlater.answers toVec hanswers, hprefix⟩⟩

theorem TcpConn.serves_new (peer : Peer) (w : World env) : (new peer).Serves toVec w :=
  ⟨[], [], [], [], [], [], by simp [new], rfl, .nil, .nil, by simp, rfl, rfl, rfl, rfl, rfl⟩

theorem TcpConn.Serves.moves {conn conn' : TcpConn} {w v : World env} (h : conn.Serves toVec w)
    (hmoves : conn.Moves toVec w v conn') : conn'.Serves toVec v := by
  obtain ⟨done, pending, queries, answers, rest, cut, h⟩ := h
  have hstage := h.stage
  unfold Stage at hstage
  cases hmoves with
  | arrive chunk hopen =>
      refine ⟨done, pending, queries, answers, rest ++ chunk, cut, h.sound, h.tasks, h.asks,
        h.answered, h.fits, by simp [h.arrived], h.sent, ?_⟩
      unfold Stage
      split at hstage <;> rename_i hserving <;> simp only [hserving]
      · simpa [hstage.1, hstage.2.2] using congrArg (· ++ chunk) hstage.2.1
      · simpa [hstage.1, hstage.2.2] using congrArg (· ++ chunk) hstage.2.1
      · simpa [hstage.1, hstage.2.2] using congrArg (· ++ chunk) hstage.2.1
      · simp [closed, hserving] at hopen
  | header hreading hnext =>
      rw [hreading] at hstage
      obtain ⟨hpending, hrest, hcut⟩ := hstage
      obtain ⟨hheld, -, hsound⟩ := FrameReader.held_of_next h.sound hnext
      refine ⟨done, pending, queries, answers, rest, cut, hsound, h.tasks, h.asks, h.answered,
        h.fits, h.arrived, h.sent, ?_⟩
      simpa [Stage, hreading, hpending, hcut, hrest] using hheld
  | refuse hreading hnext =>
      rw [hreading] at hstage
      obtain ⟨-, -, hsound⟩ := FrameReader.held_of_next h.sound hnext
      exact ⟨done, pending, queries, answers, rest, cut, hsound, h.tasks, h.asks, h.answered,
        h.fits, h.arrived, h.sent, by simp [hstage.1], .inl hstage.2.2⟩
  | @ask raw reader t v hreading hnext hload =>
      rw [hreading] at hstage
      obtain ⟨rfl, rfl, rfl⟩ := hstage
      obtain ⟨hheld, hfits, hsound⟩ := FrameReader.held_of_next h.sound hnext
      have hlater := World.later_of_steps (World.steps_of_step hload)
      have htasks : conn.tasks = done := by simpa using h.tasks
      refine ⟨done, [t], queries ++ [raw], answers, reader.held be16Framing, [], hsound,
        by simp [htasks], ?_, h.answered.imp fun _ _ => hlater.answers toVec, ?_, ?_, h.sent,
        rfl, rfl, rfl⟩
      · exact List.rel_append (h.asks.imp fun _ _ => hlater.asks)
          (.cons (World.asks_of_load hload) .nil)
      · simpa using ⟨h.fits, hfits⟩
      · simp [h.arrived, hheld]
  | stop hreading =>
      rw [hreading] at hstage
      exact ⟨done, pending, queries, answers, rest, cut, h.sound, h.tasks, h.asks, h.answered,
        h.fits, h.arrived, h.sent, by simp [hstage.1], .inl hstage.2.2⟩
  | drop hhandling =>
      rw [hhandling] at hstage
      exact ⟨done, pending, queries, answers, rest, cut, h.sound, h.tasks, h.asks, h.answered,
        h.fits, h.arrived, h.sent, by simp [hstage.1], .inl hstage.2.2⟩
  | @respond t call reply bytes hhandling hreply hbytes hsize =>
      rw [hhandling] at hstage
      exact ⟨done, pending, queries, answers, rest, cut, h.sound, h.tasks, h.asks, h.answered,
        h.fits, h.arrived, h.sent, ⟨t, hstage.1, call, reply, hreply, hbytes, hsize⟩, hstage.2⟩
  | @write bytes hwriting =>
      rw [hwriting] at hstage
      obtain ⟨⟨t, rfl, hanswers⟩, rfl, rfl⟩ := hstage
      refine ⟨done ++ [t], [], queries, answers ++ [bytes], _, [], h.sound, by simp [h.tasks],
        h.asks, List.rel_append h.answered (.cons hanswers .nil), h.fits, h.arrived,
        by simp [h.sent], rfl, rfl, rfl⟩
  | @writeFails bytes k hwriting =>
      rw [hwriting] at hstage
      obtain ⟨⟨t, rfl, hanswers⟩, rfl, rfl⟩ := hstage
      exact ⟨done, [t], queries, answers, _, (be16Framing.frame bytes).take k, h.sound, h.tasks,
        h.asks, h.answered, h.fits, h.arrived, by simp [h.sent], by simp,
        .inr ⟨t, bytes, rfl, hanswers, List.take_prefix _ _⟩⟩

/-! ## Runs -/

/-- Imported records keep their question. -/
def ListenerAction.ImportsKept : ListenerAction env.rx → Prop
  | .engine (.importSnapshot _ data) => ∀ parsed ∈ snapshotRecords data, parsed.QuestionKept
  | _ => True

theorem World.Keeps.of_step {w v : World env} {a : EngineAction env.rx}
    (h : (questionContract env).Keeps w)
    (himports : ∀ unix data, a = .importSnapshot unix data →
      ∀ parsed ∈ snapshotRecords data, parsed.QuestionKept)
    (hstep : w.step a = some v) : (questionContract env).Keeps v := by
  refine Contract.Keeps.step (questionContract_lawful env) h ?_ (World.steps_of_step hstep)
  cases a with
  | load t raw clientIp => exact fun _ _ => trivial
  | look t u id => exact fun _ _ _ _ _ _ _ _ => trivial
  | pool i a => exact fun p _ hstep hok => Pool.Matching.step hok hstep
  | importSnapshot unix data =>
      intro parsed hparsed hlower id ttl
      exact carries_of_snapshot hparsed (himports unix data rfl parsed hparsed) hlower id ttl
  | _ => trivial

theorem World.Keeps.of_load {w v : World env} {t : Nat} {raw : Bytes} {ip : IpAddr}
    (h : (questionContract env).Keeps w) (hload : w.step (.load t raw ip) = some v) :
    (questionContract env).Keeps v :=
  of_step h (fun _ _ ha => by cases ha) hload

theorem TcpConn.world_of_moves {conn conn' : TcpConn} {w v : World env}
    (h : conn.Moves toVec w v conn') :
    v = w ∨ ∃ t raw ip, w.step (.load t raw ip) = some v := by
  cases h with
  | ask hreading hnext hload => exact .inr ⟨_, _, _, hload⟩
  | _ => exact .inl rfl

def UdpTask.Asked (task : UdpTask) (w : World env) : Prop :=
  match task with
  | .spawned _ => True
  | .handling d t | .finished d t => w.Asks d.peer.ip t d.raw

def World.Sent (w : World env) (datagrams : List UdpTask) (i : Nat) (sent : Peer × Bytes) : Prop :=
  ∃ d t call reply, datagrams[i]? = some (.finished d t) ∧ w.reply? t = some (call, reply) ∧
    sent.1 = d.peer ∧ udpDatagram toVec call.ingress reply.response = some sent.2

structure Listener.Orderly (l : Listener env) : Prop where
  keeps : (questionContract env).Keeps l.world
  serves : ∀ conn ∈ l.conns, conn.Serves toVec l.world
  asked : ∀ task ∈ l.datagrams, task.Asked l.world
  sent : ∃ order : List Nat, order.Nodup ∧
    List.Forall₂ (l.world.Sent toVec l.datagrams) order l.outbox

theorem UdpTask.Asked.later {task : UdpTask} {w v : World env} (h : task.Asked w)
    (hlater : w.Later v) : task.Asked v := by
  cases task with
  | spawned d => trivial
  | handling d t => exact hlater.asks h
  | finished d t => exact hlater.asks h

theorem World.sent_mono {w v : World env} {datagrams datagrams' : List UdpTask}
    {order : List Nat} {outbox : List (Peer × Bytes)}
    (h : List.Forall₂ (w.Sent toVec datagrams) order outbox) (hlater : w.Later v)
    (hkept : ∀ (i : Nat) d t, datagrams[i]? = some (UdpTask.finished d t) →
      datagrams'[i]? = some (UdpTask.finished d t)) :
    List.Forall₂ (v.Sent toVec datagrams') order outbox := by
  refine h.imp fun i sent hsent => ?_
  obtain ⟨d, t, call, reply, hi, hreply, hsent⟩ := hsent
  exact ⟨d, t, call, reply, hkept i d t hi, hlater.reply hreply, hsent⟩

theorem Listener.Orderly.engine {l : Listener env} {w : World env} (h : l.Orderly toVec)
    (hkeeps : (questionContract env).Keeps w) (hlater : l.world.Later w) :
    { l with world := w }.Orderly toVec where
  keeps := hkeeps
  serves conn hconn := (h.serves conn hconn).later toVec hlater
  asked task htask := (h.asked task htask).later hlater
  sent := by
    obtain ⟨order, hnodup, hsent⟩ := h.sent
    exact ⟨order, hnodup, World.sent_mono toVec hsent hlater fun _ _ _ hi => hi⟩

theorem Listener.Orderly.load {l : Listener env} {w : World env} {t : Nat} {raw : Bytes}
    {ip : IpAddr} (h : l.Orderly toVec) (hload : l.world.step (.load t raw ip) = some w) :
    { l with world := w }.Orderly toVec :=
  h.engine toVec (World.Keeps.of_load h.keeps hload)
    (World.later_of_steps (World.steps_of_step hload))

theorem Listener.Orderly.setConn {l : Listener env} {c : Nat} {conn : TcpConn} {free : Nat}
    (h : l.Orderly toVec) (hconn : conn.Serves toVec l.world) :
    { l with conns := l.conns.set c conn, tcpFree := free }.Orderly toVec where
  keeps := h.keeps
  serves conn' hmem := by
    rcases List.mem_or_eq_of_mem_set hmem with hold | rfl
    · exact h.serves conn' hold
    · exact hconn
  asked := h.asked
  sent := h.sent

theorem Listener.Orderly.setDatagram {l : Listener env} {i : Nat} {old task : UdpTask}
    {free : Nat} {outbox : List (Peer × Bytes)} (h : l.Orderly toVec)
    (hi : l.datagrams[i]? = some old) (hopen : ∀ d t, old ≠ .finished d t)
    (htask : task.Asked l.world)
    (hsent : outbox = [] ∨ ∃ sent, outbox = [sent] ∧
      l.world.Sent toVec (l.datagrams.set i task) i sent) :
    { l with
      udpFree := free
      datagrams := l.datagrams.set i task
      outbox := l.outbox ++ outbox }.Orderly toVec where
  keeps := h.keeps
  serves := h.serves
  asked task' hmem := by
    rcases List.mem_or_eq_of_mem_set hmem with hold | rfl
    · exact h.asked task' hold
    · exact htask
  sent := by
    obtain ⟨order, hnodup, hold⟩ := h.sent
    have hkept : ∀ (j : Nat) d t, l.datagrams[j]? = some (UdpTask.finished d t) →
        (l.datagrams.set i task)[j]? = some (UdpTask.finished d t) := by
      intro j d t hj
      rw [List.getElem?_set_ne, hj]
      rintro rfl
      rw [hi, Option.some.injEq] at hj
      exact hopen d t hj
    -- a datagram that is answered now was not answered before
    have hfresh : i ∉ order := by
      intro hmem
      obtain ⟨n, hn, rfl⟩ := List.getElem_of_mem hmem
      obtain ⟨d, t, -, -, hfinished, -⟩ := hold.get hn (hold.length_eq ▸ hn)
      exact hopen d t (Option.some.inj (hi.symm.trans hfinished))
    rcases hsent with rfl | ⟨sent, rfl, hsent⟩
    · refine ⟨order, hnodup, ?_⟩
      rw [List.append_nil]
      exact World.sent_mono toVec hold (World.later_refl _) hkept
    · refine ⟨order ++ [i], ?_, List.rel_append
        (World.sent_mono toVec hold (World.later_refl _) hkept) (.cons hsent .nil)⟩
      simpa [List.nodup_append, hnodup] using fun j hj => ne_of_mem_of_not_mem hj hfresh

theorem Listener.Orderly.step {l m : Listener env} {a : ListenerAction env.rx}
    (h : l.Orderly toVec) (himports : a.ImportsKept) (hsteps : l.Steps toVec a m) :
    m.Orderly toVec := by
  cases hsteps with
  | @engine a world hworld =>
      refine h.engine toVec (World.Keeps.of_step h.keeps ?_ hworld)
        (World.later_of_steps (World.steps_of_step hworld))
      rintro unix data rfl
      exact himports
  | ignore => exact h
  | recv | acquireTcp | acceptError => exact ⟨h.keeps, h.serves, h.asked, h.sent⟩
  | spawnUdp hwaiting hfree =>
      refine ⟨h.keeps, h.serves, fun task htask => ?_, ?_⟩
      · rcases List.mem_append.mp htask with hold | hnew
        · exact h.asked task hold
        · rw [List.mem_singleton.mp hnew]
          trivial
      · obtain ⟨order, hnodup, hsent⟩ := h.sent
        refine ⟨order, hnodup,
          World.sent_mono toVec hsent (World.later_refl _) fun i d t hi => ?_⟩
        rw [List.getElem?_append_left (List.getElem?_eq_some_iff.mp hi).1, hi]
  | @handleUdp i t d world hi hload =>
      have hasked : (UdpTask.handling d t).Asked world := World.asks_of_load hload
      have hloaded := @setDatagram _ toVec _ i _ _ l.udpFree [] (h.load toVec hload) hi (by simp)
        hasked (.inl rfl)
      simpa using hloaded
  | @replyUdp i t delivered d call reply sent hi hreply hsent =>
      have hasked : (UdpTask.handling d t).Asked l.world := h.asked _ (List.mem_of_getElem? hi)
      refine h.setDatagram toVec hi (by simp) hasked ?_
      rcases hsent with rfl | ⟨bytes, rfl, hbytes⟩
      · exact .inl rfl
      · refine .inr ⟨_, rfl, d, t, call, reply, ?_, hreply, rfl, hbytes⟩
        simp [(List.getElem?_eq_some_iff.mp hi).1]
  | accept peer haccepting =>
      refine ⟨h.keeps, fun conn hconn => ?_, h.asked, h.sent⟩
      rcases List.mem_append.mp hconn with hold | hnew
      · exact h.serves conn hold
      · rw [List.mem_singleton.mp hnew]
        exact TcpConn.serves_new toVec peer l.world
  | @conn a c conn conn' world ha hc hmoves =>
      have hconn := (h.serves conn (List.mem_of_getElem? hc)).moves toVec hmoves
      rcases TcpConn.world_of_moves toVec hmoves with rfl | ⟨t, raw, ip, hload⟩
      · exact h.setConn toVec hconn
      · exact (h.load toVec hload).setConn toVec hconn

/-- The datagram that an action receives, if it is a query. -/
def ListenerAction.received : ListenerAction env.rx → Option Datagram
  | .recv raw peer =>
      if (Ingress.parse (raw.take udpBuffer)).isSome then some ⟨raw.take udpBuffer, peer⟩ else none
  | _ => none

def UdpTask.datagram : UdpTask → Datagram
  | .spawned d | .handling d _ | .finished d _ => d

theorem map_set_of_getElem? {α β : Type} {f : α → β} {xs : List α} {i : Nat} {x y : α}
    (h : xs[i]? = some x) (hxy : f y = f x) : (xs.set i y).map f = xs.map f := by
  refine List.ext_getElem? fun j => ?_
  by_cases hj : i = j
  · subst hj
    obtain ⟨hi, rfl⟩ := List.getElem?_eq_some_iff.mp h
    simp [hxy, hi]
  · simp [List.getElem?_set_ne hj]

/-- Datagrams are taken in the order in which they are received, each of them once. -/
theorem Listener.received_of_steps {l m : Listener env} {a : ListenerAction env.rx}
    (h : l.Steps toVec a m) :
    m.datagrams.map UdpTask.datagram ++ m.waiting.toList =
      l.datagrams.map UdpTask.datagram ++ l.waiting.toList ++ a.received.toList := by
  cases h with
  | engine | acquireTcp | accept | acceptError => simp [ListenerAction.received]
  | ignore hparse => simp [ListenerAction.received, hparse]
  | recv hfree hparse => simp [ListenerAction.received, hparse, hfree]
  | spawnUdp hwaiting hfree => simp [ListenerAction.received, hwaiting, UdpTask.datagram]
  | @handleUdp i t d world hi hload =>
      have hsame : (l.datagrams.set i (.handling d t)).map UdpTask.datagram =
          l.datagrams.map UdpTask.datagram := map_set_of_getElem? hi rfl
      simp [ListenerAction.received, hsame]
  | @replyUdp i t delivered d call reply sent hi hreply hsent =>
      have hsame : (l.datagrams.set i (.finished d t)).map UdpTask.datagram =
          l.datagrams.map UdpTask.datagram := map_set_of_getElem? hi rfl
      simp [ListenerAction.received, hsame]
  | @conn a c conn conn' world ha hc hmoves =>
      cases a <;> simp [ListenerAction.conn?] at ha <;> simp [ListenerAction.received]

section

variable {toVec} {state : EngineState env.rx} {cache : DnsCache}
  {upstreams : Nat → List UpstreamEntry} {as : List (ListenerAction env.rx)} {l : Listener env}

theorem Listener.received_of_run
    (hrun : runFrom (step toVec) (new (World.new state cache upstreams)) as = some l) :
    l.datagrams.map UdpTask.datagram ++ l.waiting.toList =
      as.filterMap ListenerAction.received := by
  refine runFrom_induction (H := fun as l => l.datagrams.map UdpTask.datagram ++
    l.waiting.toList = as.filterMap ListenerAction.received) rfl ?_ (eachStep_trivial _ _) hrun
  intro as l a m _ _ hstep ih
  rw [received_of_steps toVec (steps_of_step toVec hstep), ih, List.filterMap_append]
  cases h : a.received <;> simp [h]

theorem Listener.orderly_of_run (hempty : ∀ k, cache.peek k = none)
    (himports : ∀ a ∈ as, a.ImportsKept)
    (hrun : runFrom (step toVec) (new (World.new state cache upstreams)) as = some l) :
    l.Orderly toVec := by
  refine runFrom_invariant (C := fun _ a => a.ImportsKept) (fun _ _ _ ha hstep h =>
    h.step toVec ha (steps_of_step toVec hstep)) ?_ (eachStep_of_actions himports _) hrun
  have hkeeps : (questionContract env).Keeps (World.new state cache upstreams) :=
    @Contract.keeps_of_run _ _ (questionContract_lawful env) _ _ _ [] _ hempty Pool.matching_new
      trivial rfl
  exact ⟨hkeeps, by simp [new], by simp [new], [], List.nodup_nil, .nil⟩

/-- The `i`-th query of the connection has been replied to, and this is the reply. -/
def TcpConn.Answer (toVec : Message → Option Bytes) (w : World env) (conn : TcpConn)
    (queries : List Bytes) (i : Nat) (bytes : Bytes) : Prop :=
  ∃ t call reply, w.tasks t = some (.replied call reply) ∧ queries[i]? = some call.raw ∧
    call.clientIp = conn.peer.ip ∧ call.AnsweredBy reply.response ∧
    reply.response.intoWire toVec = some bytes

/-- What has arrived is queries and what was written is their answers, in the same order. -/
structure TcpConn.InOrder (toVec : Message → Option Bytes) (w : World env) (conn : TcpConn)
    (queries answers : List Bytes) (rest cut : Bytes) : Prop where
  queriesFit : be16Framing.Fits queries
  answersFit : be16Framing.Fits answers
  arrived : conn.arrived = be16Framing.stream queries ++ rest
  sent : conn.sent = be16Framing.stream answers ++ cut
  answered : ∀ i bytes, answers[i]? = some bytes → conn.Answer toVec w queries i bytes
  /-- One query at a time. -/
  pending : answers.length ≤ queries.length ∧ queries.length ≤ answers.length + 1
  /-- Only a connection that fails while it writes leaves part of a response. -/
  cut : cut = [] ∨ conn.closed = true ∧ ∃ bytes, cut <+: be16Framing.frame bytes ∧
    conn.Answer toVec w queries answers.length bytes
  /-- One that waits for its peer has answered every query that has arrived whole. -/
  waits : conn.serving = .reading → conn.reader.next be16Framing = none →
    queries.length = answers.length ∧ ∀ body tail, body.length ≤ be16Framing.limit →
      rest ≠ be16Framing.frame body ++ tail

theorem World.tasks_of_reply {w : World env} {t : Nat} {call : Call env.rx} {reply : Reply}
    (h : w.reply? t = some (call, reply)) : w.tasks t = some (.replied call reply) := by
  rw [reply?] at h
  split at h
  · cases h
    assumption
  · cases h

theorem TcpConn.answer_of_answers {w : World env} {conn : TcpConn} {tasks : List Nat}
    {queries : List Bytes} (hkeeps : (questionContract env).Keeps w)
    (hasks : List.Forall₂ (w.Asks conn.peer.ip) tasks queries) {i t : Nat} {bytes : Bytes}
    (ht : tasks[i]? = some t) (hanswers : w.Answers toVec t bytes) :
    conn.Answer toVec w queries i bytes := by
  obtain ⟨call, reply, hreply, hbytes, -⟩ := hanswers
  have htask := World.tasks_of_reply hreply
  obtain ⟨hi, rfl⟩ := List.getElem?_eq_some_iff.mp ht
  obtain ⟨call', hcall', hraw, hip⟩ := hasks.get hi (hasks.length_eq ▸ hi)
  have hsame : call = call' := by
    simpa [World.call?, htask, Task.call?] using hcall'
  subst hsame
  refine ⟨_, call, reply, htask, ?_, hip, hkeeps.tasks _ _ htask, hbytes⟩
  rw [List.getElem?_eq_some_iff]
  exact ⟨hasks.length_eq ▸ hi, hraw.symm⟩

/-- In every run of a listener, whatever else uses the engine and however the bytes arrive: each
connection answers its queries one by one, in their order, each with its own id and question. -/
theorem Listener.tcp_inOrder (hempty : ∀ k, cache.peek k = none)
    (himports : ∀ a ∈ as, a.ImportsKept)
    (hrun : runFrom (step toVec) (new (World.new state cache upstreams)) as = some l) :
    ∀ conn ∈ l.conns, ∃ queries answers rest cut,
      conn.InOrder toVec l.world queries answers rest cut := by
  intro conn hconn
  have horderly := orderly_of_run hempty himports hrun
  obtain ⟨done, pending, queries, answers, rest, cut, h⟩ := horderly.serves conn hconn
  have hanswer : ∀ {i t bytes}, conn.tasks[i]? = some t → l.world.Answers toVec t bytes →
      conn.Answer toVec l.world queries i bytes :=
    TcpConn.answer_of_answers horderly.keeps h.asks
  have hstage := h.stage
  unfold TcpConn.Stage at hstage
  have hqueries : queries.length = answers.length + pending.length := by
    rw [← h.asks.length_eq, h.tasks, List.length_append, h.answered.length_eq]
  have hpending : pending.length ≤ 1 := by
    split at hstage
    · simp [hstage.1]
    · simp [hstage.1]
    · obtain ⟨⟨t, rfl, -⟩, -⟩ := hstage
      simp
    · exact hstage.1
  refine ⟨queries, answers, rest, cut, h.fits, ?_, h.arrived, h.sent, ?_, by omega, ?_, ?_⟩
  · intro bytes hbytes
    obtain ⟨i, hi, rfl⟩ := List.getElem_of_mem hbytes
    obtain ⟨-, -, -, -, hsize⟩ := h.answered.get (h.answered.length_eq ▸ hi) hi
    exact hsize
  · intro i bytes hbytes
    obtain ⟨hi, rfl⟩ := List.getElem?_eq_some_iff.mp hbytes
    have hdone : i < done.length := h.answered.length_eq ▸ hi
    refine hanswer ?_ (h.answered.get hdone hi)
    rw [h.tasks, List.getElem?_append_left hdone]
    exact List.getElem?_eq_getElem hdone
  · split at hstage
    · exact .inl hstage.2.2
    · exact .inl hstage.2.2
    · exact .inl hstage.2.2
    · rename_i hclosed
      obtain ⟨-, hcut | ⟨t, bytes, rfl, hanswers, hprefix⟩⟩ := hstage
      · exact .inl hcut
      · refine .inr ⟨by simp [TcpConn.closed, hclosed], bytes, hprefix, hanswer ?_ hanswers⟩
        simp [h.tasks, ← h.answered.length_eq]
  · intro hreading hnext
    rw [hreading] at hstage
    refine ⟨by simp [hqueries, hstage.1], fun body tail hbody => ?_⟩
    rw [hstage.2.1]
    exact FrameReader.incomplete_of_next h.sound hnext hbody

/-- What goes out over UDP: to distinct queries among the datagrams that came in, each time the
reply of the engine to it, to where it came from. -/
theorem Listener.udp_answered (hempty : ∀ k, cache.peek k = none)
    (himports : ∀ a ∈ as, a.ImportsKept)
    (hrun : runFrom (step toVec) (new (World.new state cache upstreams)) as = some l) :
    ∃ order : List Nat, order.Nodup ∧ List.Forall₂ (fun i sent => ∃ d t call reply,
      (as.filterMap ListenerAction.received)[i]? = some d ∧ sent.1 = d.peer ∧
        l.world.tasks t = some (.replied call reply) ∧ call.raw = d.raw ∧
        call.clientIp = d.peer.ip ∧ call.AnsweredBy reply.response ∧
        udpDatagram toVec call.ingress reply.response = some sent.2) order l.outbox := by
  have horderly := orderly_of_run hempty himports hrun
  obtain ⟨order, hnodup, hsent⟩ := horderly.sent
  refine ⟨order, hnodup, hsent.imp fun i sent h => ?_⟩
  obtain ⟨d, t, call, reply, hi, hreply, hpeer, hbytes⟩ := h
  have htask := World.tasks_of_reply hreply
  obtain ⟨call', hcall', hraw, hip⟩ : l.world.Asks d.peer.ip t d.raw :=
    horderly.asked _ (List.mem_of_getElem? hi)
  have hsame : call = call' := by
    simpa [World.call?, htask, Task.call?] using hcall'
  subst hsame
  have hlt := (List.getElem?_eq_some_iff.mp hi).1
  refine ⟨d, t, call, reply, ?_, hpeer, htask, hraw, hip, horderly.keeps.tasks _ _ htask, hbytes⟩
  rw [← received_of_run hrun, List.getElem?_append_left (by simpa using hlt), List.getElem?_map, hi]
  rfl

end

end

/-! ## A run -/

theorem importsKept_listenerRun : ∀ a ∈ listenerRun, a.ImportsKept := by
  simp [listenerRun, resolveDemo, ListenerAction.ImportsKept]

theorem inOrder_listenerRun :
    ∃ l, runFrom (Listener.step demoEnv.cache.codec.encode)
        (.new (World.new (demoState emptyFilter) demoCache demoUpstreams)) listenerRun = some l ∧
      (∀ conn ∈ l.conns, conn.sent ≠ []) ∧ ∀ conn ∈ l.conns, ∃ queries answers rest cut,
        conn.InOrder demoEnv.cache.codec.encode l.world queries answers rest cut := by
  have hrun : ((runFrom (Listener.step demoEnv.cache.codec.encode)
      (.new (World.new (demoState emptyFilter) demoCache demoUpstreams)) listenerRun).any
        fun l => l.conns.all fun conn => conn.sent.length == 37) = true := by decide +kernel
  obtain ⟨l, hl, hsent⟩ := (Option.any_eq_true _ _).mp hrun
  refine ⟨l, hl, fun conn hconn hnil => ?_,
    Listener.tcp_inOrder (fun _ => rfl) importsKept_listenerRun hl⟩
  have := List.all_eq_true.mp hsent conn hconn
  simp [hnil] at this

theorem answered_listenerRun :
    ∃ l order, runFrom (Listener.step demoEnv.cache.codec.encode)
        (.new (World.new (demoState emptyFilter) demoCache demoUpstreams)) listenerRun = some l ∧
      l.outbox.length = 1 ∧ order.Nodup ∧ List.Forall₂ (fun (i : Nat) sent => ∃ d,
        (listenerRun.filterMap ListenerAction.received)[i]? = some d ∧ sent.1 = d.peer)
        order l.outbox := by
  have hrun : ((runFrom (Listener.step demoEnv.cache.codec.encode)
      (.new (World.new (demoState emptyFilter) demoCache demoUpstreams)) listenerRun).any
        fun l => l.outbox.length == 1) = true := by decide +kernel
  obtain ⟨l, hl, hsent⟩ := (Option.any_eq_true _ _).mp hrun
  obtain ⟨order, hnodup, horder⟩ :=
    Listener.udp_answered (fun _ => rfl) importsKept_listenerRun hl
  refine ⟨l, order, hl, by simpa using hsent, hnodup, horder.imp fun i sent h => ?_⟩
  obtain ⟨d, -, -, -, hd, hpeer, -⟩ := h
  exact ⟨d, hd, hpeer⟩

end Bulwark.Engine
