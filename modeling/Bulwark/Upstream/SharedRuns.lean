import Bulwark.Upstream.Shared

/-!
# Runs of a transport with a shared connection

A connection is replaced only when it has died or has failed an exchange, a query never
tries the connection again that failed it, and no connection is dropped under a query.
What a query returns came in on a connection it was given, under the id of its exchange.
-/

namespace Bulwark.Upstream

open Bulwark.Foundation Bulwark.Dns

namespace SharedTransport

section

variable {kind : TransportKind} {host : Text} {toVec : Message → Except Text Bytes}
  {fromVec : Bytes → Except Text Message}

@[simp] theorem conns_afterExchange (t : SharedTransport) (i : Nat) (q : SharedQuery)
    (ending : QueryEnding) : (t.afterExchange kind i q ending).conns = t.conns := by
  unfold afterExchange
  split
  · rfl
  · split <;> rfl
  · split <;> rfl

@[simp] theorem lease_afterExchange (t : SharedTransport) (i : Nat) (q : SharedQuery)
    (ending : QueryEnding) : (t.afterExchange kind i q ending).lease = t.lease := by
  unfold afterExchange
  split
  · rfl
  · split <;> rfl
  · split <;> rfl

/-! ## Connections go on -/

/-- Connections stay as they are or take a step, and one may be added. -/
structure ConnsStep (kind : TransportKind) (t : SharedTransport) (a : SharedAction)
    (t' : SharedTransport) : Prop where
  forward : ∀ (c : Nat) (conn : SharedConn), t.conns[c]? = some conn →
    ∃ conn', t'.conns[c]? = some conn' ∧
      (conn'.aborted = true → conn.aborted = true ∨ t.held c = false) ∧
      (conn'.state = conn.state ∨ ∃ b, Demux.step kind conn.state b = some conn'.state ∧
        ∀ msg, b = .recv (.message msg) → a = .conn c b)
  new : t'.conns.length = t.conns.length ∨ t'.conns = t.conns ++ [SharedConn.new]

variable {t t' : SharedTransport} {a : SharedAction} {as : List SharedAction}

theorem ConnsStep.same (h : t'.conns = t.conns) : ConnsStep kind t a t' where
  forward _ conn hconn := ⟨conn, h ▸ hconn, .inl, .inl rfl⟩
  new := .inl (h ▸ rfl)

theorem ConnsStep.append (h : t'.conns = t.conns ++ [SharedConn.new]) :
    ConnsStep kind t a t' where
  forward c conn hconn := by
    have hlt := (List.getElem?_eq_some_iff.mp hconn).1
    exact ⟨conn, by simp [h, List.getElem?_append_left hlt, hconn], .inl, .inl rfl⟩
  new := .inr h

theorem ConnsStep.setConn {c : Nat} {conn : SharedConn} {state : Demux.Connection}
    {b : Demux.Action} (hconn : t.conns[c]? = some conn)
    (hstep : Demux.step kind conn.state b = some state)
    (ha : ∀ msg, b = .recv (.message msg) → a = .conn c b)
    (h : t'.conns = (t.setConn c state).conns) : ConnsStep kind t a t' where
  forward d other hother := by
    rw [h]
    by_cases hd : c = d
    · subst hd
      rw [hconn] at hother
      cases hother
      exact ⟨{ conn with state := state }, by simp [SharedTransport.setConn, hconn],
        .inl, .inr ⟨b, hstep, ha⟩⟩
    · exact ⟨other, by simp [SharedTransport.setConn, hd, hother], .inl, .inl rfl⟩
  new := .inl (by simp [h, SharedTransport.setConn])

theorem connsStep_of_moves (h : t.Moves kind host toVec fromVec a t') :
    ConnsStep kind t a t' := by
  cases h with
  | dialed => exact .append rfl
  | start _ _ _ hconn hstep => exact .setConn hconn hstep (by simp) rfl
  | conn hconn hstep => exact .setConn hconn hstep (by simp) rfl
  | finish => exact .same (by simp)
  | @abort c conn hconn hfree =>
      refine ⟨fun d other hother => ?_, .inl (by simp)⟩
      by_cases hd : c = d
      · subst hd
        rw [hconn] at hother
        cases hother
        have hlt := (List.getElem?_eq_some_iff.mp hconn).1
        exact ⟨{ conn with aborted := true }, by simp [hlt], fun _ => .inr hfree, .inl rfl⟩
      · exact ⟨other, by simp [hd, hother], .inl, .inl rfl⟩
  | _ => exact .same rfl

/-- Every connection is a run of its own, and what it has received came in with this one. -/
def Histories (kind : TransportKind) (as : List SharedAction) (t : SharedTransport) : Prop :=
  ∀ (c : Nat) (conn : SharedConn), t.conns[c]? = some conn →
    ∃ actions, runFrom (Demux.step kind) {} actions = some conn.state ∧
      ∀ msg, .recv (.message msg) ∈ actions → .conn c (.recv (.message msg)) ∈ as

theorem Histories.step (h : Histories kind as t) (hstep : ConnsStep kind t a t') :
    Histories kind (as ++ [a]) t' := by
  intro c conn' hconn'
  by_cases hlt : c < t.conns.length
  · obtain ⟨actions, hrun, hreceived⟩ := h c _ (List.getElem?_eq_getElem hlt)
    obtain ⟨conn'', hconn'', -, hstate⟩ := hstep.forward c _ (List.getElem?_eq_getElem hlt)
    rw [hconn'] at hconn''
    cases hconn''
    rcases hstate with hsame | ⟨b, hb, ha⟩
    · exact ⟨actions, hsame ▸ hrun, fun msg hmsg => List.mem_append_left _ (hreceived msg hmsg)⟩
    · refine ⟨actions ++ [b], runFrom_snoc.mpr ⟨_, hrun, hb⟩, fun msg hmsg => ?_⟩
      rcases List.mem_append.mp hmsg with hmsg | hmsg
      · exact List.mem_append_left _ (hreceived msg hmsg)
      · have hb' := (List.mem_singleton.mp hmsg).symm
        simp [ha msg hb', hb']
  · have hlt' := (List.getElem?_eq_some_iff.mp hconn').1
    rcases hstep.new with hlength | happend
    · omega
    · rw [happend, List.getElem?_append_right (by omega), List.getElem?_singleton] at hconn'
      split at hconn' <;> cases hconn'
      exact ⟨[], rfl, by simp⟩

theorem Histories.numbered (h : Histories kind as t) {c : Nat} {conn : SharedConn}
    (hconn : t.conns[c]? = some conn) : Demux.Numbered conn.state := by
  obtain ⟨actions, hrun, -⟩ := h c conn hconn
  exact Demux.numbered_of_run hrun

/-! ## What lasts -/

def Ended (t : SharedTransport) (m : Message) (c : Nat) (ending : QueryEnding) : Prop :=
  ∃ k x, t.exchange? c k = some x ∧ x.query = m ∧ x.phase = .done ending

def Failed (t : SharedTransport) (m : Message) (c : Nat) : Prop :=
  ∃ e, t.Ended m c (some (.error e))

/-- A connection that is dead, or failed someone. -/
def Spent (t : SharedTransport) (c : Nat) : Prop :=
  (∃ conn, t.conns[c]? = some conn ∧ conn.state.dead = true) ∨ ∃ m, t.Failed m c

structure Later (t t' : SharedTransport) : Prop where
  conns : ∀ (c : Nat) (conn : SharedConn), t.conns[c]? = some conn →
    ∃ conn', t'.conns[c]? = some conn' ∧ conn.state.Later conn'.state
  lease : t.lease.Later t'.lease

theorem later_lease_of_moves (h : t.Moves kind host toVec fromVec a t') :
    t.lease.Later t'.lease := by
  cases h with
  | hold => exact ⟨le_rfl, fun _ => .inl⟩
  | dialed _ _ hfill => exact Lease.later_of_fill hfill
  | dialFails _ _ hgiveUp _ => exact Lease.later_of_giveUp hgiveUp
  | finish =>
      rw [lease_afterExchange]
      exact .refl _
  | invalidate _ _ hforget => exact Lease.later_of_forget hforget
  | drop _ hlease =>
      rcases hlease with ⟨-, rfl⟩ | ⟨-, hgiveUp⟩
      · exact .refl _
      · exact Lease.later_of_giveUp hgiveUp
  | _ => exact .refl _

theorem Histories.later (h : Histories kind as t)
    (hmoves : t.Moves kind host toVec fromVec a t') : t.Later t' where
  conns c conn hconn := by
    obtain ⟨conn', hconn', -, hstate⟩ := (connsStep_of_moves hmoves).forward c conn hconn
    refine ⟨conn', hconn', ?_⟩
    rcases hstate with hsame | ⟨b, hb, -⟩
    · rw [hsame]
      exact .refl _
    · exact Demux.Connection.later_of_moves (h.numbered hconn) (Demux.moves_of_step hb)
  lease := later_lease_of_moves hmoves

theorem Later.exchange (h : t.Later t') {c k : Nat} {x : Demux.Exchange}
    (hx : t.exchange? c k = some x) : ∃ x', t'.exchange? c k = some x' ∧ x.Later x' := by
  obtain ⟨conn, hconn, hx⟩ := Option.bind_eq_some_iff.mp hx
  obtain ⟨conn', hconn', hlater⟩ := h.conns c conn hconn
  obtain ⟨x', hx', hxx'⟩ := hlater.exchange k x hx
  exact ⟨x', by simp [exchange?, hconn', hx'], hxx'⟩

theorem Ended.mono {m : Message} {c : Nat} {ending : QueryEnding} (h : t.Ended m c ending)
    (hlater : t.Later t') : t'.Ended m c ending := by
  obtain ⟨k, x, hx, hquery, hdone⟩ := h
  obtain ⟨x', hx', hxx'⟩ := hlater.exchange hx
  exact ⟨k, x', hx', hxx'.query.trans hquery, hxx'.done ending hdone⟩

theorem Failed.mono {m : Message} {c : Nat} (h : t.Failed m c) (hlater : t.Later t') :
    t'.Failed m c :=
  h.imp fun _ h => h.mono hlater

theorem Spent.mono {c : Nat} (h : t.Spent c) (hlater : t.Later t') : t'.Spent c := by
  rcases h with ⟨conn, hconn, hdead⟩ | ⟨m, hfailed⟩
  · obtain ⟨conn', hconn', hstate⟩ := hlater.conns c conn hconn
    exact .inl ⟨conn', hconn', hstate.dead hdead⟩
  · exact .inr ⟨m, hfailed.mono hlater⟩

/-! ## Where a query is -/

/-- Before its first connection, or behind the failure of it. -/
def Tried (t : SharedTransport) (q : SharedQuery) : Prop :=
  q.fresh = none ∧ ∀ c, q.conn = some c →
    c < t.lease.made ∧ t.Failed q.message c ∧ t.lease.kept ≠ some c

/-- It was given a connection, and a newer one after the first had failed it. -/
def Took (t : SharedTransport) (q : SharedQuery) : Prop :=
  ∃ c, q.conn = some c ∧ c < t.lease.made ∧
    ∀ c', q.fresh = some c' → c < c' ∧ c' < t.lease.made ∧ t.Failed q.message c

/-- The last reply over TCP is asked for again. -/
def Fell (kind : TransportKind) (fromVec : Bytes → Except Text Message) (q : SharedQuery)
    (tcp : TcpQuery) : Prop :=
  kind = .udp ∧ q.tcp = some tcp ∧ tcp.query = q.message ∧ ∃ bodies, tcp.Sound fromVec bodies

/-- How it came to an error. -/
inductive Fails (kind : TransportKind) (host : Text) (fromVec : Bytes → Except Text Message)
    (as : List SharedAction) (t : SharedTransport) (q : SharedQuery) (e : UpstreamError) :
    Prop where
  | dial {i : Nat} {ips : Except UpstreamError (List (Except UpstreamError Unit))}
      (hfresh : q.fresh = none) (hconn : ∀ c, q.conn = some c → t.Failed q.message c)
      (hdial : .dial i ips ∈ as) (hfails : connect host ips = .error e)
  | exchange {c c' : Nat} (hconn : q.conn = some c) (hfresh : q.fresh = some c') (hlt : c < c')
      (hfirst : t.Failed q.message c) (hsecond : t.Ended q.message c' (some (.error e)))
  | tcp {tcp : TcpQuery} (hfell : Fell kind fromVec q tcp)
      (hdone : tcp.phase = .done (some (.error e)))

inductive Returns (kind : TransportKind) (fromVec : Bytes → Except Text Message)
    (t : SharedTransport) (q : SharedQuery) (msg : Message) : Prop where
  | exchange {c : Nat} (hcurrent : q.current = some c)
      (hended : t.Ended q.message c (some (.ok msg)))
      (hwhole : ¬ (kind = .udp ∧ msg.metadata.truncation = true))
  | tcp {tcp : TcpQuery} (hfell : Fell kind fromVec q tcp)
      (hdone : tcp.phase = .done (some (.ok msg)))

variable (kind host fromVec) in
def Facts (as : List SharedAction) (t : SharedTransport) (q : SharedQuery) : Prop :=
  match q.phase with
  | .connecting | .dialing => t.Tried q
  | .connected => t.Took q
  | .exchanging k => t.Took q ∧ ∃ c x, q.current = some c ∧ t.exchange? c k = some x ∧
      x.query = q.message
  | .invalidating => q.fresh = none ∧ ∃ c, q.conn = some c ∧ c < t.lease.made ∧
      t.Failed q.message c
  | .falling => t.Took q ∧ ∃ tcp, Fell kind fromVec q tcp
  | .done none => True
  | .done (some (.error e)) => Fails kind host fromVec as t q e
  | .done (some (.ok msg)) => t.Took q ∧ Returns kind fromVec t q msg

theorem Tried.mono {q : SharedQuery} (h : t.Tried q) (hlater : t.Later t') : t'.Tried q := by
  refine ⟨h.1, fun c hc => ?_⟩
  obtain ⟨hlt, hfailed, hgone⟩ := h.2 c hc
  exact ⟨hlt.trans_le hlater.lease.made_le, hfailed.mono hlater,
    hlater.lease.forgotten hlt hgone⟩

theorem Took.mono {q : SharedQuery} (h : t.Took q) (hlater : t.Later t') : t'.Took q := by
  obtain ⟨c, hc, hlt, hfresh⟩ := h
  refine ⟨c, hc, hlt.trans_le hlater.lease.made_le, fun c' hc' => ?_⟩
  obtain ⟨hnewer, hlt', hfailed⟩ := hfresh c' hc'
  exact ⟨hnewer, hlt'.trans_le hlater.lease.made_le, hfailed.mono hlater⟩

theorem Facts.mono {bs : List SharedAction} {q : SharedQuery}
    (h : Facts kind host fromVec as t q) (hlater : t.Later t') (hactions : ∀ a ∈ as, a ∈ bs) :
    Facts kind host fromVec bs t' q := by
  unfold Facts at h ⊢
  split at h
  · exact h.mono hlater
  · exact h.mono hlater
  · exact h.mono hlater
  · obtain ⟨htook, c, x, hcurrent, hx, hquery⟩ := h
    obtain ⟨x', hx', hxx'⟩ := hlater.exchange hx
    exact ⟨htook.mono hlater, c, x', hcurrent, hx', hxx'.query.trans hquery⟩
  · obtain ⟨hfresh, c, hc, hlt, hfailed⟩ := h
    exact ⟨hfresh, c, hc, hlt.trans_le hlater.lease.made_le, hfailed.mono hlater⟩
  · exact h.imp_left fun h => h.mono hlater
  · trivial
  · cases h with
    | dial hfresh hconn hdial hfails =>
        exact .dial hfresh (fun c hc => (hconn c hc).mono hlater) (hactions _ hdial) hfails
    | exchange hconn hfresh hlt hfirst hsecond =>
        exact .exchange hconn hfresh hlt (hfirst.mono hlater) (hsecond.mono hlater)
    | tcp hfell hdone => exact .tcp hfell hdone
  · refine h.imp (fun h => h.mono hlater) fun h => ?_
    cases h with
    | exchange hcurrent hended hwhole => exact .exchange hcurrent (hended.mono hlater) hwhole
    | tcp hfell hdone => exact .tcp hfell hdone

/-! ## What holds in every state -/

variable (kind host fromVec) in
structure Sound (as : List SharedAction) (t : SharedTransport) : Prop where
  histories : Histories kind as t
  made : t.lease.made = t.conns.length
  dialers : ∀ i, t.lease.holder = some i ↔ ∃ q, t.queries[i]? = some q ∧ q.phase = .dialing
  lease : t.lease.Sound t.Spent
  queries : ∀ (i : Nat) (q : SharedQuery), t.queries[i]? = some q → Facts kind host fromVec as t q
  held : ∀ (c : Nat) (conn : SharedConn), t.conns[c]? = some conn → t.held c = true →
    conn.aborted = false

theorem sound_new : Sound kind host fromVec [] {} where
  histories := by simp [Histories]
  made := rfl
  dialers := by simp
  lease := .init _
  queries := by simp
  held := by simp

theorem Sound.dead_of_not_alive (h : Sound kind host fromVec as t) {c : Nat}
    (hkept : t.lease.kept = some c) (hdead : t.alive c = false) : t.Spent c := by
  have hlt := h.lease.lt hkept
  rw [h.made] at hlt
  refine .inl ⟨t.conns[c], List.getElem?_eq_getElem hlt, ?_⟩
  simpa [alive, hlt] using hdead

theorem Sound.step_lease (h : Sound kind host fromVec as t) (hlater : t.Later t')
    (hmoves : t.Moves kind host toVec fromVec a t') : t'.lease.Sound t'.Spent := by
  have hmono : t.lease.Sound t'.Spent := h.lease.mono fun _ _ hs => hs.mono hlater
  cases hmoves with
  | hold _ _ _ hdead =>
      exact hmono.hold fun c hc => (h.dead_of_not_alive hc (hdead c hc)).mono hlater
  | dialed _ _ hfill => exact hmono.fill hfill
  | dialFails _ _ hgiveUp _ => exact hmono.giveUp hgiveUp
  | finish =>
      simp only [lease_afterExchange]
      exact hmono
  | @invalidate i q lease hq hphase hforget =>
      refine hmono.forget hforget fun c _ hc => ?_
      have hfacts := h.queries i q hq
      simp only [Facts, hphase] at hfacts
      obtain ⟨-, d, hd, -, hfailed⟩ := hfacts
      simp only [hd, beq_iff_eq, Option.some.injEq] at hc
      exact .inr ⟨q.message, (hc ▸ hfailed).mono hlater⟩
  | drop _ hlease =>
      rcases hlease with ⟨-, rfl⟩ | ⟨-, hgiveUp⟩
      · exact hmono
      · exact hmono.giveUp hgiveUp
  | _ => exact hmono

theorem Sound.step_made (h : Sound kind host fromVec as t)
    (hmoves : t.Moves kind host toVec fromVec a t') : t'.lease.made = t'.conns.length := by
  have hmade := h.made
  cases hmoves with
  | @dialed i q lease ips _ _ hfill =>
      obtain ⟨-, rfl⟩ := Lease.fill_eq_some hfill
      simp [setQuery, hmade]
  | dialFails _ _ hgiveUp _ =>
      obtain ⟨-, rfl⟩ := Lease.giveUp_eq_some hgiveUp
      exact hmade
  | finish => simpa using hmade
  | invalidate _ _ hforget =>
      obtain ⟨-, rfl⟩ := Lease.forget_eq_some hforget
      exact hmade
  | drop _ hlease =>
      rcases hlease with ⟨-, rfl⟩ | ⟨-, hgiveUp⟩
      · exact hmade
      · obtain ⟨-, rfl⟩ := Lease.giveUp_eq_some hgiveUp
        exact hmade
  | start | conn => simpa [setConn, setPhase, setQuery] using hmade
  | abort => simpa using hmade
  | _ => exact hmade

/-- One query changes its phase, and with it perhaps who dials. -/
theorem Sound.dialers_set (h : Sound kind host fromVec as t) {i : Nat} {q q' : SharedQuery}
    (hq : t.queries[i]? = some q) (hqueries : t'.queries = t.queries.set i q')
    (hself : t'.lease.holder = some i ↔ q'.phase = .dialing)
    (hothers : ∀ j, j ≠ i → (t'.lease.holder = some j ↔ t.lease.holder = some j)) :
    ∀ j, t'.lease.holder = some j ↔ ∃ q, t'.queries[j]? = some q ∧ q.phase = .dialing := by
  intro j
  have hlt := (List.getElem?_eq_some_iff.mp hq).1
  by_cases hj : j = i
  · subst hj
    simp [hself, hqueries, hlt]
  · rw [hothers j hj, h.dialers j]
    simp [hqueries, Ne.symm hj]

/-- Nobody dials, before and behind. -/
theorem Sound.dialers_idle (h : Sound kind host fromVec as t) {i : Nat} {q q' : SharedQuery}
    (hq : t.queries[i]? = some q) (hqueries : t'.queries = t.queries.set i q')
    (hholder : t'.lease.holder = t.lease.holder) (hbefore : q.phase ≠ .dialing)
    (hbehind : q'.phase ≠ .dialing) :
    ∀ j, t'.lease.holder = some j ↔ ∃ q, t'.queries[j]? = some q ∧ q.phase = .dialing := by
  refine h.dialers_set hq hqueries ?_ fun j _ => by rw [hholder]
  rw [hholder, h.dialers i]
  simp [hq, hbefore, hbehind]

theorem Sound.dialers_released (h : Sound kind host fromVec as t) {i : Nat} {q q' : SharedQuery}
    (hq : t.queries[i]? = some q) (hqueries : t'.queries = t.queries.set i q')
    (hheld : t.lease.holder = some i) (hfree : t'.lease.holder = none)
    (hbehind : q'.phase ≠ .dialing) :
    ∀ j, t'.lease.holder = some j ↔ ∃ q, t'.queries[j]? = some q ∧ q.phase = .dialing := by
  refine h.dialers_set hq hqueries (by simp [hfree, hbehind]) fun j hj => ?_
  simp [hfree, hheld, Ne.symm hj]

theorem phase_take (q : SharedQuery) (c : Nat) : (q.take c).phase = .connected := by
  unfold SharedQuery.take
  split <;> rfl

variable (kind) in
theorem afterExchange_eq (t : SharedTransport) (i : Nat) (q : SharedQuery)
    (ending : QueryEnding) : ∃ q', t.afterExchange kind i q ending = t.setQuery i q' ∧
      q'.phase ≠ .dialing := by
  unfold afterExchange
  split
  · exact ⟨_, rfl, by simp⟩
  · split <;> exact ⟨_, rfl, by simp⟩
  · split <;> exact ⟨_, rfl, by simp⟩

theorem Sound.step_dialers (h : Sound kind host fromVec as t)
    (hmoves : t.Moves kind host toVec fromVec a t') :
    ∀ i, t'.lease.holder = some i ↔ ∃ q, t'.queries[i]? = some q ∧ q.phase = .dialing := by
  cases hmoves with
  | query message =>
      intro i
      rw [h.dialers i]
      constructor
      · rintro ⟨q, hq, hphase⟩
        have hlt := (List.getElem?_eq_some_iff.mp hq).1
        exact ⟨q, by simp [List.getElem?_append_left hlt, hq], hphase⟩
      · rintro ⟨q, hq, hphase⟩
        simp only [List.getElem?_append] at hq
        split at hq
        · exact ⟨q, hq, hphase⟩
        · rw [List.getElem?_singleton] at hq
          split at hq <;> cases hq
          cases hphase
  | take hq hphase _ _ _ =>
      exact h.dialers_idle hq rfl rfl (by simp [hphase]) (by simp [phase_take])
  | hold hq hphase hfree _ =>
      exact h.dialers_set hq rfl (by simp [setPhase, setQuery])
        fun j hj => by simp [setPhase, setQuery, hfree, Ne.symm hj]
  | dialed hq _ hfill =>
      obtain ⟨hheld, rfl⟩ := Lease.fill_eq_some hfill
      exact h.dialers_released hq rfl hheld rfl (by simp [phase_take])
  | dialFails hq _ hgiveUp _ =>
      obtain ⟨hheld, rfl⟩ := Lease.giveUp_eq_some hgiveUp
      exact h.dialers_released hq rfl hheld rfl (by simp)
  | start hq hphase _ _ _ =>
      exact h.dialers_idle hq rfl rfl (by simp [hphase]) (by simp)
  | @finish _ _ _ q _ ending hq hphase _ _ _ =>
      obtain ⟨q', heq, hq'⟩ := afterExchange_eq kind t _ q ending
      rw [heq]
      exact h.dialers_idle hq rfl rfl (by simp [hphase]) hq'
  | finishTcp hq hphase _ _ => exact h.dialers_idle hq rfl rfl (by simp [hphase]) (by simp)
  | invalidate hq hphase hforget =>
      obtain ⟨-, rfl⟩ := Lease.forget_eq_some hforget
      exact h.dialers_idle hq rfl rfl (by simp [hphase]) (by simp)
  | tcp hq hphase _ _ => exact h.dialers_idle hq rfl rfl (by simp [hphase]) (by simp [hphase])
  | drop hq hlease =>
      rcases hlease with ⟨hphase, rfl⟩ | ⟨-, hgiveUp⟩
      · exact h.dialers_idle hq rfl rfl hphase (by simp)
      · obtain ⟨hheld, rfl⟩ := Lease.giveUp_eq_some hgiveUp
        exact h.dialers_released hq rfl hheld rfl (by simp)
  | conn => exact h.dialers
  | abort => exact h.dialers

/-! ## Queries -/

theorem exchange?_setConn {c k : Nat} {conn : SharedConn} {state : Demux.Connection}
    (hconn : t.conns[c]? = some conn) :
    (t.setConn c state).exchange? c k = state.exchanges k := by
  simp [exchange?, setConn, hconn]

theorem Tried.take {q : SharedQuery} (h : t.Tried q) (hlater : t.Later t') {c : Nat}
    (hc : c < t'.lease.made)
    (hnewer : ∀ c₀, c₀ < t.lease.made → t.lease.kept ≠ some c₀ → c₀ < c) :
    t'.Took (q.take c) := by
  unfold SharedQuery.take
  split
  · rename_i hconn
    exact ⟨c, rfl, hc, by simp [h.1]⟩
  · rename_i c₀ hconn
    obtain ⟨hlt, hfailed, hgone⟩ := h.2 c₀ hconn
    refine ⟨c₀, hconn, hlt.trans_le hlater.lease.made_le, fun c' hc' => ?_⟩
    cases hc'
    exact ⟨hnewer c₀ hlt hgone, hc, hfailed.mono hlater⟩

theorem Took.current {q : SharedQuery} (h : t.Took q) :
    (q.fresh = none ∧ ∃ c, q.conn = some c ∧ q.current = some c ∧ c < t.lease.made) ∨
      ∃ c c', q.conn = some c ∧ q.fresh = some c' ∧ q.current = some c' ∧ c < c' ∧
        t.Failed q.message c := by
  obtain ⟨c, hconn, hlt, hfresh⟩ := h
  cases hq : q.fresh with
  | none => exact .inl ⟨rfl, c, hconn, by simp [SharedQuery.current, hq, hconn], hlt⟩
  | some c' =>
      obtain ⟨hnewer, -, hfailed⟩ := hfresh c' hq
      exact .inr ⟨c, c', hconn, rfl, by simp [SharedQuery.current, hq], hnewer, hfailed⟩

theorem Sound.queries_set (h : Sound kind host fromVec as t) (hlater : t.Later t') {i : Nat}
    {q' : SharedQuery} (hqueries : t'.queries = t.queries.set i q')
    (hq' : Facts kind host fromVec (as ++ [a]) t' q') (j : Nat) (q : SharedQuery)
    (hq : t'.queries[j]? = some q) : Facts kind host fromVec (as ++ [a]) t' q := by
  rw [hqueries, List.getElem?_set] at hq
  split at hq
  · split at hq <;> cases hq
    exact hq'
  · exact (h.queries j q hq).mono hlater fun b hb => List.mem_append_left _ hb

variable (kind host fromVec as) in
theorem Facts.afterExchange {q : SharedQuery} {i c : Nat} {ending : QueryEnding}
    (htook : t.Took q) (hcurrent : q.current = some c)
    (hended : t.Ended q.message c ending) :
    ∃ q', t.afterExchange kind i q ending = t.setQuery i q' ∧
      Facts kind host fromVec as t q' := by
  unfold SharedTransport.afterExchange
  split
  · exact ⟨_, rfl, trivial⟩
  · rename_i msg
    split
    · rename_i hcut
      exact ⟨_, rfl, htook, _, hcut.1, rfl, rfl, [], TcpQuery.sound_new _⟩
    · rename_i hwhole
      exact ⟨_, rfl, htook, .exchange hcurrent hended hwhole⟩
  · rename_i e
    split
    · rename_i hfresh
      obtain ⟨hnone, -⟩ | ⟨c₁, c₂, hconn, hsecond, hlast, hlt, hfailed⟩ := htook.current
      · simp [hnone] at hfresh
      · rw [hlast] at hcurrent
        cases hcurrent
        exact ⟨_, rfl, .exchange hconn hsecond hlt hfailed hended⟩
    · rename_i hfresh
      obtain ⟨hnone, c₁, hconn, hlast, hlt⟩ | ⟨c₁, c₂, -, hsecond, -⟩ := htook.current
      · rw [hlast] at hcurrent
        cases hcurrent
        exact ⟨_, rfl, hnone, c, hconn, hlt, e, hended⟩
      · simp [hsecond] at hfresh

theorem Sound.step_queries (h : Sound kind host fromVec as t) (hlater : t.Later t')
    (hmoves : t.Moves kind host toVec fromVec a t') (j : Nat) (q : SharedQuery)
    (hq : t'.queries[j]? = some q) : Facts kind host fromVec (as ++ [a]) t' q := by
  cases hmoves with
  | query message =>
      rw [List.getElem?_append] at hq
      split at hq
      · exact (h.queries j q hq).mono hlater fun b hb => List.mem_append_left _ hb
      · rw [List.getElem?_singleton] at hq
        split at hq <;> cases hq
        exact ⟨rfl, by simp⟩
  | @take i c q hq' hphase _ hkept _ =>
      refine h.queries_set hlater rfl ?_ j _ hq
      have hfacts := h.queries i q hq'
      simp only [Facts, hphase] at hfacts
      simp only [Facts, phase_take]
      have hlast := h.lease.last c hkept
      refine hfacts.take hlater (h.lease.lt hkept) fun c₀ hlt hgone => ?_
      have hne : c₀ ≠ c := by
        rintro rfl
        exact hgone hkept
      omega
  | @hold i q hq' hphase _ _ =>
      refine h.queries_set hlater rfl ?_ j _ hq
      have hfacts := h.queries i q hq'
      simp only [Facts, hphase] at hfacts
      exact hfacts.mono hlater
  | @dialed i q lease ips hq' hphase hfill =>
      refine h.queries_set hlater rfl ?_ j _ hq
      have hfacts := h.queries i q hq'
      simp only [Facts, hphase] at hfacts
      simp only [Facts, phase_take]
      obtain ⟨-, rfl⟩ := Lease.fill_eq_some hfill
      have hmade := h.made
      refine hfacts.take hlater ?_ fun c₀ hlt _ => by omega
      simp [setQuery, hmade]
  | @dialFails i q lease e ips hq' hphase hgiveUp hfails =>
      refine h.queries_set hlater rfl ?_ j _ hq
      have hfacts := h.queries i q hq'
      simp only [Facts, hphase] at hfacts
      obtain ⟨hfresh, hconn⟩ := hfacts.mono hlater
      have hdial : SharedAction.dial i ips ∈ as ++ [.dial i ips] := by simp
      exact .dial hfresh (fun c hc => (hconn c hc).2.1) hdial hfails
  | @start i c q conn state encodeError hq' hphase hcurrent hconn hstep =>
      refine h.queries_set hlater rfl ?_ j _ hq
      have hfacts := h.queries i q hq'
      simp only [Facts, hphase] at hfacts
      obtain ⟨x, hx, hquery⟩ := Demux.exchange_of_start hstep
      exact ⟨hfacts.mono hlater, c, x, hcurrent, (exchange?_setConn hconn).trans hx, hquery⟩
  | conn => exact (h.queries j q hq).mono hlater fun b hb => List.mem_append_left _ hb
  | @finish i c k q x ending hq' hphase hcurrent hx hdone =>
      have hfacts := h.queries i q hq'
      simp only [Facts, hphase] at hfacts
      obtain ⟨htook, c', x', hcurrent', hx', hquery⟩ := hfacts
      rw [hcurrent] at hcurrent'
      cases hcurrent'
      rw [hx] at hx'
      cases hx'
      obtain ⟨q', heq, hq''⟩ := Facts.afterExchange kind host fromVec (as ++ [.finish i])
        htook hcurrent ⟨k, x, hx, hquery, hdone⟩
      rw [heq] at hq hlater ⊢
      exact h.queries_set hlater rfl (hq''.mono hlater fun _ hb => hb) j _ hq
  | @finishTcp i q tcp ending hq' hphase htcp hdone =>
      refine h.queries_set hlater rfl ?_ j _ hq
      have hfacts := h.queries i q hq'
      simp only [Facts, hphase] at hfacts
      obtain ⟨htook, tcp', hfell⟩ := hfacts
      have hsame : tcp' = tcp := by
        have := hfell.2.1
        rw [htcp] at this
        exact (Option.some.inj this).symm
      subst hsame
      cases ending with
      | none => trivial
      | some result =>
          cases result with
          | error e => exact .tcp hfell hdone
          | ok msg => exact ⟨htook.mono hlater, .tcp hfell hdone⟩
  | @invalidate i q lease hq' hphase hforget =>
      refine h.queries_set hlater rfl ?_ j _ hq
      have hfacts := h.queries i q hq'
      simp only [Facts, hphase] at hfacts
      obtain ⟨hfresh, c, hconn, hlt, hfailed⟩ := hfacts
      obtain ⟨-, rfl⟩ := Lease.forget_eq_some hforget
      refine ⟨hfresh, fun c' hc' => ?_⟩
      have hsame : c' = c := by
        rw [hconn] at hc'
        exact (Option.some.inj hc').symm
      subst hsame
      refine ⟨hlt, hfailed.mono hlater, ?_⟩
      simp [setPhase, setQuery, hconn, Option.filter_eq_some_iff]
  | @tcp i q tcp tcp' b hq' hphase htcp hstep =>
      have hfacts := h.queries i q hq'
      simp only [Facts, hphase] at hfacts
      obtain ⟨htook, tcp'', hfell⟩ := hfacts
      have hsame : tcp'' = tcp := by
        have := hfell.2.1
        rw [htcp] at this
        exact (Option.some.inj this).symm
      subst hsame
      obtain ⟨hkind, -, hquery, bodies, hsound⟩ := hfell
      have hnext : ∀ u, t.Later u → Facts kind host fromVec (as ++ [.tcp i b]) u
          { q with tcp := some tcp' } := by
        intro u hu
        simp only [Facts, hphase]
        exact ⟨htook.mono hu, tcp', hkind, rfl, (TcpQuery.query_of_step hstep).trans hquery,
          hsound.step hstep⟩
      exact h.queries_set hlater rfl (hnext _ hlater) j _ hq
  | drop => exact h.queries_set hlater rfl trivial j _ hq
  | abort => exact (h.queries j q hq).mono hlater fun b hb => List.mem_append_left _ hb

/-! ## Nobody is left on a connection that is dropped -/

theorem held_iff {c : Nat} : t.held c = true ↔ t.lease.kept = some c ∨
    ∃ q ∈ t.queries, q.over = false ∧ (q.conn = some c ∨ q.fresh = some c) := by
  simp [held]

theorem held_of_query {i c : Nat} {q : SharedQuery} (hq : t.queries[i]? = some q)
    (hopen : q.over = false) (hc : q.conn = some c ∨ q.fresh = some c) : t.held c = true :=
  held_iff.mpr (.inr ⟨q, List.mem_of_getElem? hq, hopen, hc⟩)

/-- A step of one query, which gives it no connection but the one that is kept or a new one. -/
theorem held_of_set {i c : Nat} {q q' : SharedQuery} (h : t'.held c = true)
    (hq : t.queries[i]? = some q) (hqueries : t'.queries = t.queries.set i q')
    (hkept : ∀ c, t'.lease.kept = some c → t.lease.kept = some c ∨ c = t.conns.length)
    (hvars : ∀ c, q'.over = false → q'.conn = some c ∨ q'.fresh = some c →
      (q.over = false ∧ (q.conn = some c ∨ q.fresh = some c)) ∨ t.lease.kept = some c ∨
        c = t.conns.length) : t.held c = true ∨ c = t.conns.length := by
  rcases held_iff.mp h with hkept' | ⟨p, hp, hp', hc⟩
  · exact (hkept c hkept').imp_left fun hkept => held_iff.mpr (.inl hkept)
  · rw [hqueries] at hp
    rcases List.mem_or_eq_of_mem_set hp with hp | rfl
    · exact .inl (held_iff.mpr (.inr ⟨p, hp, hp', hc⟩))
    · rcases hvars c hp' hc with ⟨hopen, hc⟩ | hkept | hnew
      · exact .inl (held_of_query hq hopen hc)
      · exact .inl (held_iff.mpr (.inl hkept))
      · exact .inr hnew

theorem vars_take {q : SharedQuery} {c c' : Nat}
    (h : (q.take c).conn = some c' ∨ (q.take c).fresh = some c') :
    (q.conn = some c' ∨ q.fresh = some c') ∨ c' = c := by
  unfold SharedQuery.take at h
  split at h
  · rcases h with h | h
    · exact .inr (Option.some.inj h).symm
    · exact .inl (.inr h)
  · rcases h with h | h
    · exact .inl (.inl h)
    · exact .inr (Option.some.inj h).symm

variable (kind) in
theorem vars_afterExchange (t : SharedTransport) (i : Nat) (q : SharedQuery)
    (ending : QueryEnding) : ∃ q', t.afterExchange kind i q ending = t.setQuery i q' ∧
      q'.conn = q.conn ∧ q'.fresh = q.fresh := by
  unfold afterExchange
  split
  · exact ⟨_, rfl, rfl, rfl⟩
  · split <;> exact ⟨_, rfl, rfl, rfl⟩
  · split <;> exact ⟨_, rfl, rfl, rfl⟩

theorem over_eq_false {q : SharedQuery} {phase : SharedPhase} (h : q.phase = phase)
    (hphase : ∀ ending, phase ≠ .done ending) : q.over = false := by
  unfold SharedQuery.over
  split
  · rename_i ending hdone
    exact absurd (h ▸ hdone) (hphase ending)
  · rfl

theorem kept_of_giveUp {lease : Lease} {i : Nat} (h : t.lease.giveUp i = some lease) {c : Nat}
    (hc : lease.kept = some c) : t.lease.kept = some c := by
  obtain ⟨-, rfl⟩ := Lease.giveUp_eq_some h
  exact hc

theorem held_of_moves (hmade : t.lease.made = t.conns.length)
    (hmoves : t.Moves kind host toVec fromVec a t') {c : Nat}
    (h : t'.held c = true) : t.held c = true ∨ c = t.conns.length := by
  cases hmoves with
  | query message =>
      refine .inl (held_iff.mpr ?_)
      rcases held_iff.mp h with hkept | ⟨q, hq, hopen, hc⟩
      · exact .inl hkept
      · rcases List.mem_append.mp hq with hq | hq
        · exact .inr ⟨q, hq, hopen, hc⟩
        · rw [List.mem_singleton] at hq
          subst hq
          simp at hc
  | take hq hphase _ hkept _ =>
      refine held_of_set h hq rfl (fun _ => .inl) (fun d _ hd => ?_)
      rcases vars_take hd with hd | rfl
      · exact .inl ⟨over_eq_false hphase (by simp), hd⟩
      · exact .inr (.inl hkept)
  | hold hq hphase _ _ =>
      exact held_of_set h hq rfl (fun _ => .inl)
        (fun d _ hd => .inl ⟨over_eq_false hphase (by simp), hd⟩)
  | dialed hq hphase hfill =>
      obtain ⟨-, rfl⟩ := Lease.fill_eq_some hfill
      refine held_of_set h hq rfl (fun d hd => .inr ?_) (fun d _ hd => ?_)
      · exact (Option.some.inj hd).symm.trans hmade
      · rcases vars_take hd with hd | rfl
        · exact .inl ⟨over_eq_false hphase (by simp), hd⟩
        · exact .inr (.inr rfl)
  | dialFails hq hphase hgiveUp _ =>
      exact held_of_set h hq rfl (fun _ hc => .inl (kept_of_giveUp hgiveUp hc))
        (fun d hd => by simp [SharedQuery.over] at hd)
  | start hq hphase _ _ _ =>
      exact held_of_set h hq rfl (fun _ => .inl)
        (fun d _ hd => .inl ⟨over_eq_false hphase (by simp), hd⟩)
  | conn => exact .inl h
  | @finish _ _ _ q _ ending hq hphase _ _ _ =>
      obtain ⟨q', heq, hconn, hfresh⟩ := vars_afterExchange kind t _ q ending
      rw [heq] at h
      refine held_of_set h hq rfl (fun _ => .inl) (fun d _ hd => ?_)
      rw [hconn, hfresh] at hd
      exact .inl ⟨over_eq_false hphase (by simp), hd⟩
  | finishTcp hq hphase _ _ =>
      exact held_of_set h hq rfl (fun _ => .inl) (fun d hd => by simp [SharedQuery.over] at hd)
  | invalidate hq hphase hforget =>
      refine held_of_set h hq rfl (fun d hd => .inl ?_)
        (fun d _ hd => .inl ⟨over_eq_false hphase (by simp), hd⟩)
      obtain ⟨-, rfl⟩ := Lease.forget_eq_some hforget
      exact (Option.filter_eq_some_iff.mp hd).1
  | tcp hq hphase _ _ =>
      exact held_of_set h hq rfl (fun _ => .inl)
        (fun d _ hd => .inl ⟨over_eq_false hphase (by simp), hd⟩)
  | drop hq hlease =>
      refine held_of_set h hq rfl (fun d hd => .inl ?_)
        (fun d hd => by simp [SharedQuery.over] at hd)
      rcases hlease with ⟨-, rfl⟩ | ⟨-, hgiveUp⟩
      · exact hd
      · exact kept_of_giveUp hgiveUp hd
  | abort => exact .inl h

theorem Sound.step_held (h : Sound kind host fromVec as t)
    (hmoves : t.Moves kind host toVec fromVec a t') (c : Nat) (conn' : SharedConn)
    (hconn' : t'.conns[c]? = some conn') (hheld : t'.held c = true) : conn'.aborted = false := by
  have hsteps := connsStep_of_moves hmoves
  by_cases hlt : c < t.conns.length
  · have hheld : t.held c = true := by
      rcases held_of_moves h.made hmoves hheld with hheld | rfl
      · exact hheld
      · omega
    obtain ⟨conn'', hconn'', haborted, -⟩ := hsteps.forward c _ (List.getElem?_eq_getElem hlt)
    rw [hconn'] at hconn''
    cases hconn''
    have hbefore := h.held c _ (List.getElem?_eq_getElem hlt) hheld
    by_contra hnow
    simp [hbefore, hheld, Bool.eq_true_of_not_eq_false hnow] at haborted
  · have hlt' := (List.getElem?_eq_some_iff.mp hconn').1
    rcases hsteps.new with hlength | happend
    · omega
    · rw [happend, List.getElem?_append_right (by omega), List.getElem?_singleton] at hconn'
      split at hconn' <;> cases hconn'
      rfl

/-! ## Runs -/

theorem Sound.step (h : Sound kind host fromVec as t)
    (hstep : t.step kind host toVec fromVec a = some t') :
    Sound kind host fromVec (as ++ [a]) t' := by
  have hmoves := moves_of_step hstep
  have hlater := h.histories.later hmoves
  exact ⟨h.histories.step (connsStep_of_moves hmoves), h.step_made hmoves, h.step_dialers hmoves,
    h.step_lease hlater hmoves, h.step_queries hlater hmoves, h.step_held hmoves⟩

theorem sound_of_run
    (hrun : runFrom (SharedTransport.step kind host toVec fromVec) {} as = some t) :
    Sound kind host fromVec as t :=
  runFrom_induction (H := Sound kind host fromVec) sound_new
    (fun _ _ _ _ _ _ hstep h => h.step hstep) (eachStep_trivial _ _) hrun

/-- A connection is replaced only when it is dead or has failed an exchange, nobody else dials
meanwhile, and whoever waits for a reply can be reached by a reader that nobody has aborted. -/
theorem connections_of_run
    (hrun : runFrom (SharedTransport.step kind host toVec fromVec) {} as = some t) :
    (∀ c, c < t.conns.length → t.lease.kept = some c ∨ t.Spent c) ∧
    (∀ c, t.lease.kept = some c → c + 1 = t.conns.length) ∧
    (∀ (i j : Nat) (p q : SharedQuery), t.queries[i]? = some p → t.queries[j]? = some q →
      p.phase = .dialing → q.phase = .dialing → i = j) ∧
    (∀ (i c k : Nat) (q : SharedQuery) (x : Demux.Exchange), t.queries[i]? = some q →
      q.phase = .exchanging k → q.current = some c → t.exchange? c k = some x → x.Waiting →
      ∃ conn, t.conns[c]? = some conn ∧ conn.aborted = false ∧
        (conn.state.dead = false ∧ conn.state.map x.id = some k ∨
          ∃ msg, conn.state.reader = .holding k msg)) := by
  have h := sound_of_run hrun
  refine ⟨fun c hc => ?_, fun c hc => h.made ▸ h.lease.last c hc,
    fun i j p q hp hq hdialing hdialing' => ?_, fun i c k q x hq hphase hc hx hwaiting => ?_⟩
  · by_cases hkept : t.lease.kept = some c
    · exact .inl hkept
    · exact .inr (h.lease.spent_of_gone c (h.made ▸ hc) hkept)
  · have hi := (h.dialers i).mpr ⟨p, hp, hdialing⟩
    have hj := (h.dialers j).mpr ⟨q, hq, hdialing'⟩
    rw [hi] at hj
    exact Option.some.inj hj
  · obtain ⟨conn, hconn, hx⟩ := Option.bind_eq_some_iff.mp hx
    have hvar : q.conn = some c ∨ q.fresh = some c := by
      cases hfresh : q.fresh with
      | none => simpa [SharedQuery.current, hfresh] using hc
      | some d => exact .inr (by simpa [SharedQuery.current, hfresh] using hc)
    have hopen : q.over = false := over_eq_false hphase (by simp)
    obtain ⟨actions, hactions, -⟩ := h.histories c conn hconn
    have hsound := Demux.sound_of_run hactions
    refine ⟨conn, hconn, h.held c conn hconn (held_of_query hq hopen hvar), ?_⟩
    refine (hsound.sender k x hx hwaiting).imp_left fun hentry => ⟨?_, hentry⟩
    by_contra hdead
    rw [hsound.empty_of_dead (Bool.eq_true_of_not_eq_false hdead)] at hentry
    cases hentry

theorem received_of_ended (h : Histories kind as t) {q : SharedQuery} {msg : Message} {c : Nat}
    (hended : t.Ended q.message c (some (.ok msg))) :
    ∃ k x reply, t.exchange? c k = some x ∧ .conn c (.recv (.message reply)) ∈ as ∧
      reply.metadata.id = x.id ∧ acceptReply kind q.message reply = .ok msg := by
  obtain ⟨k, x, hx, hquery, hdone⟩ := hended
  obtain ⟨conn, hconn, hx'⟩ := Option.bind_eq_some_iff.mp hx
  obtain ⟨actions, hactions, hreceived⟩ := h c conn hconn
  obtain ⟨reply, hreply, hid, haccept⟩ :=
    (Demux.replied_of_run hactions).accepted k x msg hx' (.inr hdone)
  exact ⟨k, x, reply, hx, hreceived reply hreply, hid, hquery ▸ haccept⟩

theorem Fell.firstMatch {q : SharedQuery} {tcp : TcpQuery} {msg : Message}
    (h : Fell kind fromVec q tcp) (hdone : tcp.phase = .done (some (.ok msg))) :
    TcpQuery.FirstMatch fromVec q.message tcp.arrived msg := by
  obtain ⟨-, -, hquery, bodies, hsound⟩ := h
  exact hquery ▸ hsound.firstMatch hdone

/--
What a query returns is a reply that came in under the id of its exchange, on its first
connection or on a newer one after the first had failed it, and is whole; or, over UDP, the
first match on a stream of its own.  And it fails only if nothing could be dialled, or two
connections have failed it, or that stream has.
-/
theorem results_of_run
    (hrun : runFrom (SharedTransport.step kind host toVec fromVec) {} as = some t) {i : Nat}
    {q : SharedQuery} (hq : t.queries[i]? = some q) :
    (∀ msg, q.phase = .done (some (.ok msg)) → matchesQuery q.message msg = true ∧ t.Took q ∧
      ((∃ c k x reply, q.current = some c ∧ t.exchange? c k = some x ∧
          .conn c (.recv (.message reply)) ∈ as ∧ reply.metadata.id = x.id ∧
          acceptReply kind q.message reply = .ok msg ∧
          ¬ (kind = .udp ∧ msg.metadata.truncation = true)) ∨
        kind = .udp ∧ ∃ tcp, q.tcp = some tcp ∧
          TcpQuery.FirstMatch fromVec q.message tcp.arrived msg)) ∧
    ∀ e, q.phase = .done (some (.error e)) → Fails kind host fromVec as t q e := by
  have h := sound_of_run hrun
  have hfacts := h.queries i q hq
  constructor
  · intro msg hdone
    simp only [Facts, hdone] at hfacts
    obtain ⟨htook, hreturns⟩ := hfacts
    cases hreturns with
    | @exchange c hcurrent hended hwhole =>
        obtain ⟨k, x, reply, hx, hreply, hid, haccept⟩ := received_of_ended h.histories hended
        exact ⟨matchesQuery_of_acceptReply haccept, htook,
          .inl ⟨c, k, x, reply, hcurrent, hx, hreply, hid, haccept, hwhole⟩⟩
    | @tcp tcp hfell hdone' =>
        have hmatch := hfell.firstMatch hdone'
        obtain ⟨-, -, -, -, -, -, -, hmatches⟩ := hmatch
        exact ⟨hmatches, htook, .inr ⟨hfell.1, tcp, hfell.2.1, hfell.firstMatch hdone'⟩⟩
  · intro e hdone
    simpa only [Facts, hdone] using hfacts

end

/-! ## A run -/

/-- The first connection breaks, and the second one answers. -/
def retryRun : List SharedAction :=
  [.query tcpQuestion, .lock 0, .dial 0 (.ok [.ok ()]), .start 0 none, .conn 0 (.register 0),
    .conn 0 (.send 0 none), .conn 0 (.recv .error), .conn 0 .close, .conn 0 (.poll 0),
    .conn 0 (.release 0), .finish 0, .invalidate 0, .lock 0,
    .dial 0 (.ok [.error (.io []), .ok ()]), .start 0 none, .conn 1 (.register 0),
    .conn 1 (.send 0 none), .conn 1 (.recv (.message (tcpQuestion.withId 0))), .conn 1 .deliver,
    .conn 1 (.poll 0), .conn 1 (.release 0), .finish 0]

theorem connections_retryRun :
    ∃ t, runFrom (SharedTransport.step .udp [] (fun _ => .ok (tcpWire 7)) tcpFromVec) {}
        retryRun = some t ∧ t.conns.length = 2 ∧ t.Spent 0 := by
  have hrun : ((runFrom (SharedTransport.step .udp [] (fun _ => .ok (tcpWire 7)) tcpFromVec) {}
      retryRun).any fun t => t.conns.length == 2 && t.lease.kept != some 0) = true := by
    decide +kernel
  obtain ⟨t, ht, hend⟩ := (Option.any_eq_true _ _).mp hrun
  simp only [Bool.and_eq_true, beq_iff_eq, bne_iff_ne] at hend
  have hspent := (connections_of_run ht).1 0 (by omega)
  exact ⟨t, ht, hend.1, hspent.resolve_left hend.2⟩

theorem results_retryRun :
    ∃ t q msg, runFrom (SharedTransport.step .udp [] (fun _ => .ok (tcpWire 7)) tcpFromVec) {}
        retryRun = some t ∧ t.queries[0]? = some q ∧ q.phase = .done (some (.ok msg)) ∧
      matchesQuery q.message msg = true ∧ t.Took q := by
  have hrun : ((runFrom (SharedTransport.step .udp [] (fun _ => .ok (tcpWire 7)) tcpFromVec) {}
      retryRun).any fun t => (t.queries[0]?).any fun q => q.phase.answer.isSome) = true := by
    decide +kernel
  obtain ⟨t, ht, hend⟩ := (Option.any_eq_true _ _).mp hrun
  obtain ⟨q, hq, hdone⟩ := (Option.any_eq_true _ _).mp hend
  obtain ⟨msg, hmsg⟩ := Option.isSome_iff_exists.mp hdone
  have hphase := SharedPhase.eq_done hmsg
  obtain ⟨hmatches, htook, -⟩ := (results_of_run ht hq).1 msg hphase
  exact ⟨t, q, msg, ht, hq, hphase, hmatches, htook⟩

end SharedTransport

end Bulwark.Upstream
