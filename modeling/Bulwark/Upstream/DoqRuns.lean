import Bulwark.Upstream.Doq

/-!
# What every run of the DoQ transport keeps

Each connection but the last was closed or dropped by a query that failed.  A query that
fails does not leave its connection behind, and one that succeeds has its own reply.
-/

namespace Bulwark.Upstream

open Bulwark.Foundation Bulwark.Dns

namespace DoqTransport

variable {s : DoqSetting} {t t' : DoqTransport}

/-! ## What a step does -/

/-- A query goes on: how the transport is then, apart from the query, and the query. -/
inductive Turns (s : DoqSetting) (t : DoqTransport) (i : Nat) (q : DoqQuery) :
    DoqTransport → DoqQuery → Prop where
  | start {body : Bytes} (hphase : q.phase = .starting)
      (hbody : startBody s q.message = some (.ok body)) :
      Turns s t i q t { q with body := body, phase := .connecting }
  | fails (e : UpstreamError) (hphase : q.phase.locked = false)
      (hover : ∀ ending, q.phase ≠ .done ending) :
      Turns s t i q t { q with phase := .clearing e }
  | take {c : Nat} (hphase : q.phase = .connecting) (hkept : t.lease.kept = some c) :
      Turns s t i q t { q with conn := some c, phase := .exchanging c }
  | hold (hphase : q.phase = .connecting) (hfree : t.lease.holder = none)
      (hdead : ∀ c, t.lease.kept = some c → t.alive c = false) :
      Turns s t i q { t with lease := { t.lease with holder := some i } }
        { q with phase := .binding }
  | bound (hphase : q.phase = .binding) :
      Turns s t i q { t with endpoint := true } { q with phase := .dialing }
  | failsLocked {lease : Lease} (e : UpstreamError) (hphase : q.phase.locked = true)
      (hgiveUp : t.lease.giveUp i = some lease) :
      Turns s t i q { t with lease := lease } { q with phase := .clearing e }
  | dialed {lease : Lease} (hphase : q.phase = .dialing) (hfill : t.lease.fill i = some lease) :
      Turns s t i q { t with lease := lease }
        { q with conn := some t.lease.made, phase := .exchanging t.lease.made }
  | answered {c : Nat} {msg : Message} {data : Except Text Bytes}
      (hphase : q.phase = .exchanging c) (hmsg : readReply s q data = .ok msg) :
      Turns s t i q t { q with phase := .done (some (.ok msg)) }
  | cleared {e : UpstreamError} {lease : Lease} (hphase : q.phase = .clearing e)
      (hforget : t.lease.forget (fun _ => true) = some lease) :
      Turns s t i q { t with lease := lease, cleared := t.cleared ++ [i] }
        { q with phase := .done (some (.error e)) }
  | drop (hphase : q.phase.locked = false) (hover : ∀ ending, q.phase ≠ .done ending) :
      Turns s t i q t { q with phase := .done none }
  | dropLocked {lease : Lease} (hphase : q.phase.locked = true)
      (hgiveUp : t.lease.giveUp i = some lease) :
      Turns s t i q { t with lease := lease } { q with phase := .done none }

inductive Moves (s : DoqSetting) (t : DoqTransport) : DoqTransport → Prop where
  | query (message : Message) :
      Moves s t { t with queries := t.queries ++ [{ message := message }] }
  | close {c : Nat} (hmade : c < t.lease.made) (halive : t.alive c = true) :
      Moves s t { t with closed := t.closed ++ [c] }
  | turn {i : Nat} {q q' : DoqQuery} {t1 : DoqTransport} (hq : t.queries[i]? = some q)
      (hturn : Turns s t i q t1 q') : Moves s t (t1.setQuery i q')

theorem moves_of_failLocked {i : Nat} {q : DoqQuery} {e : UpstreamError}
    (hq : t.queries[i]? = some q) (hphase : q.phase.locked = true)
    (h : t.failLocked i q e = some t') : Moves s t t' := by
  obtain ⟨lease, hgiveUp, rfl⟩ := Option.map_eq_some_iff.mp h
  exact .turn hq (.failsLocked e hphase hgiveUp)

theorem moves_of_step {a : DoqAction} (h : t.step s a = some t') : Moves s t t' := by
  unfold step at h
  cases a with
  | query message =>
      cases h
      exact .query message
  | start i =>
      simp only [Option.bind_eq_bind, Option.bind_eq_some_iff] at h
      obtain ⟨q, hq, h⟩ := h
      split at h
      · rename_i hphase
        obtain ⟨result, hbody, rfl⟩ := Option.map_eq_some_iff.mp h
        cases result with
        | ok body => exact .turn hq (.start hphase hbody)
        | error e => exact .turn hq (.fails e (by rw [hphase]; rfl) (by simp [hphase]))
      · cases h
  | lock i =>
      simp only [Option.bind_eq_bind, Option.bind_eq_some_iff] at h
      obtain ⟨q, hq, h⟩ := h
      split at h
      · rename_i hphase
        obtain ⟨⟨got, lease⟩, hacquire, rfl⟩ := Option.map_eq_some_iff.mp h
        obtain ⟨hfree, ⟨c, rfl, hkept, -, rfl⟩ | ⟨rfl, hdead, rfl⟩⟩ :=
          Lease.acquire_eq_some hacquire
        · exact .turn hq (.take hphase hkept)
        · exact .turn hq (.hold hphase hfree hdead)
      · cases h
  | bind i error =>
      simp only [Option.bind_eq_bind, Option.bind_eq_some_iff] at h
      obtain ⟨q, hq, h⟩ := h
      split at h
      · rename_i hphase
        split at h
        · exact moves_of_failLocked hq (by rw [hphase]; rfl) h
        · cases h
          exact .turn hq (.bound hphase)
      · cases h
  | dial i ips =>
      simp only [Option.bind_eq_bind, Option.bind_eq_some_iff] at h
      obtain ⟨q, hq, h⟩ := h
      split at h
      · rename_i hphase
        unfold dialed at h
        split at h
        · obtain ⟨lease, hfill, rfl⟩ := Option.map_eq_some_iff.mp h
          exact .turn hq (.dialed hphase hfill)
        · exact moves_of_failLocked hq (by rw [hphase]; rfl) h
      · cases h
  | reply i data =>
      simp only [Option.bind_eq_bind, Option.bind_eq_some_iff] at h
      obtain ⟨q, hq, h⟩ := h
      split at h
      · rename_i c hphase
        cases h
        cases hmsg : readReply s q data with
        | ok msg => exact .turn hq (.answered hphase hmsg)
        | error e => exact .turn hq (.fails e (by rw [hphase]; rfl) (by simp [hphase]))
      · cases h
  | clear i =>
      simp only [Option.bind_eq_bind, Option.bind_eq_some_iff] at h
      obtain ⟨q, hq, h⟩ := h
      split at h
      · rename_i e hphase
        obtain ⟨lease, hforget, rfl⟩ := Option.map_eq_some_iff.mp h
        exact .turn hq (.cleared hphase hforget)
      · cases h
  | close c =>
      simp only at h
      split at h <;> cases h
      rename_i hclose
      exact .close hclose.1 hclose.2
  | drop i =>
      simp only [Option.bind_eq_bind, Option.bind_eq_some_iff] at h
      obtain ⟨q, hq, h⟩ := h
      unfold dropQuery at h
      split at h
      · cases h
      · rename_i hphase
        obtain ⟨lease, hgiveUp, rfl⟩ := Option.map_eq_some_iff.mp h
        exact .turn hq (.dropLocked (by rw [hphase]; rfl) hgiveUp)
      · rename_i hphase
        obtain ⟨lease, hgiveUp, rfl⟩ := Option.map_eq_some_iff.mp h
        exact .turn hq (.dropLocked (by rw [hphase]; rfl) hgiveUp)
      · rename_i hdone hbinding hdialing
        cases h
        refine .turn hq (.drop ?_ hdone)
        unfold DoqPhase.locked
        split
        · exact absurd (by assumption) hbinding
        · exact absurd (by assumption) hdialing
        · rfl

theorem over_of_turns {i : Nat} {q q' : DoqQuery} {t1 : DoqTransport} (h : Turns s t i q t1 q') :
    ∀ ending, q.phase ≠ .done ending := by
  intro ending hdone
  cases h with
  | fails _ _ hover => exact hover ending hdone
  | drop _ hover => exact hover ending hdone
  | failsLocked _ hphase => simp [hdone, DoqPhase.locked] at hphase
  | dropLocked hphase => simp [hdone, DoqPhase.locked] at hphase
  | start hphase | take hphase | hold hphase | bound hphase | dialed hphase | answered hphase
  | cleared hphase =>
      rw [hdone] at hphase
      cases hphase

theorem queries_of_turns {i : Nat} {q q' : DoqQuery} {t1 : DoqTransport}
    (h : Turns s t i q t1 q') : t1.queries = t.queries := by
  cases h <;> rfl

theorem later_of_turns {i : Nat} {q q' : DoqQuery} {t1 : DoqTransport}
    (h : Turns s t i q t1 q') : t.lease.Later t1.lease := by
  cases h with
  | hold => exact ⟨le_rfl, fun _ => .inl⟩
  | failsLocked _ _ hgiveUp => exact Lease.later_of_giveUp hgiveUp
  | dropLocked _ hgiveUp => exact Lease.later_of_giveUp hgiveUp
  | dialed _ hfill => exact Lease.later_of_fill hfill
  | cleared _ hforget => exact Lease.later_of_forget hforget
  | _ => exact .refl _

/-! ## Queries -/

/-- A reply to the query, read from all that came on its stream. -/
def Received (s : DoqSetting) (q : DoqQuery) (msg : Message) : Prop :=
  matchesQuery q.message msg = true ∧ ∃ (data : Bytes) (reply : Message),
    data.length ≤ maxDoqResponse ∧ s.fromVec (data.drop 2) = .ok reply ∧
      msg = reply.withId q.message.metadata.id

/-- The message without its id, behind its length. -/
def Requests (s : DoqSetting) (q : DoqQuery) : Prop :=
  ∃ bytes, s.toVec q.message = .ok bytes ∧ bytes.length ≤ 65535 ∧
    q.request = toBe16 (.ofNat bytes.length) ++ (0 :: 0 :: bytes.drop 2)

theorem received_of_readReply {q : DoqQuery} {msg : Message} {data : Except Text Bytes}
    (h : readReply s q data = .ok msg) : Received s q msg := by
  unfold readReply at h
  cases data with
  | error e => cases h
  | ok data =>
      simp only [Except.mapError, bind, Except.bind] at h
      split at h
      · cases h
      · rename_i hfits
        split at h
        · cases h
        · cases hreply : s.fromVec (data.drop 2) with
          | error e => simp [hreply] at h
          | ok reply =>
              simp only [hreply] at h
              refine ⟨matchesQuery_of_acceptReply h, data, reply, by omega, hreply, ?_⟩
              simp only [acceptReply] at h
              split at h <;> cases h
              rfl

theorem startBody_eq_ok {message : Message} {body : Bytes}
    (h : startBody s message = some (.ok body)) : ∃ bytes, s.toVec message = .ok bytes ∧
      bytes.length ≤ 65535 ∧ 2 ≤ bytes.length ∧ body = 0 :: 0 :: bytes.drop 2 := by
  unfold startBody at h
  split at h
  · cases h
  · rename_i bytes hbytes
    split at h
    · cases h
    · split at h
      · cases h
      · cases h
        exact ⟨bytes, hbytes, by omega, by omega, rfl⟩

structure Facts (s : DoqSetting) (lease : Lease) (q : DoqQuery) : Prop where
  made : ∀ c, q.conn = some c → c < lease.made
  fresh : q.phase = .starting → q.conn = none
  ready : q.phase = .connecting ∨ q.phase.locked = true → Requests s q
  sent : q.conn.isSome = true → Requests s q
  current : ∀ c, q.phase = .exchanging c → q.conn = some c
  gone : ∀ e, q.phase = .done (some (.error e)) → ∀ c, q.conn = some c → lease.kept ≠ some c
  answer : ∀ msg, q.phase = .done (some (.ok msg)) → q.conn.isSome = true ∧ Received s q msg

theorem facts_new (lease : Lease) (message : Message) : Facts s lease { message := message } where
  made := by simp
  fresh := by simp
  ready := by simp [DoqPhase.locked]
  sent := by simp
  current := by simp
  gone := by simp
  answer := by simp

theorem Facts.later {lease lease' : Lease} {q : DoqQuery} (h : Facts s lease q)
    (hlater : lease.Later lease') : Facts s lease' q where
  made c hc := (h.made c hc).trans_le hlater.made_le
  fresh := h.fresh
  ready := h.ready
  sent := h.sent
  current := h.current
  gone e he c hc := hlater.forgotten (h.made c hc) (h.gone e he c hc)
  answer := h.answer

theorem Facts.goes {lease : Lease} {q : DoqQuery} {phase : DoqPhase} (h : Facts s lease q)
    (hstarting : phase ≠ .starting) (hready : phase = .connecting ∨ phase.locked = true →
      q.phase = .connecting ∨ q.phase.locked = true)
    (hcurrent : ∀ c, phase ≠ .exchanging c) (hover : ∀ result, phase ≠ .done (some result)) :
    Facts s lease { q with phase := phase } where
  made := h.made
  fresh hphase := absurd hphase hstarting
  ready hphase := h.ready (hready hphase)
  sent := h.sent
  current c hc := absurd hc (hcurrent c)
  gone _ he := absurd he (hover _)
  answer _ hmsg := absurd hmsg (hover _)

theorem Facts.takes {lease : Lease} {q : DoqQuery} {c : Nat} (h : Facts s lease q)
    (hready : q.phase = .connecting ∨ q.phase.locked = true) (hmade : c < lease.made) :
    Facts s lease { q with conn := some c, phase := .exchanging c } where
  made c' hc' := by
    cases hc'
    exact hmade
  fresh := by simp
  ready := by simp [DoqPhase.locked]
  sent _ := h.ready hready
  current c' hc' := by
    cases hc'
    rfl
  gone := by simp
  answer := by simp

theorem Facts.turn {i : Nat} {q q' : DoqQuery} {t1 : DoqTransport} (h : Facts s t.lease q)
    (hkept : ∀ c, t.lease.kept = some c → c < t.lease.made) (hturn : Turns s t i q t1 q') :
    Facts s t1.lease q' := by
  have hlater := h.later (later_of_turns hturn)
  cases hturn with
  | start hphase hbody =>
      obtain ⟨bytes, hbytes, hfits, hlong, rfl⟩ := startBody_eq_ok hbody
      have hrequest : Requests s
          { q with body := 0 :: 0 :: bytes.drop 2, phase := .connecting } := by
        refine ⟨bytes, hbytes, hfits, ?_⟩
        simp only [DoqQuery.request, List.length_cons, List.length_drop]
        rw [show bytes.length - 2 + 1 + 1 = bytes.length by omega]
      refine ⟨h.made, by simp, fun _ => hrequest, fun _ => hrequest, by simp, by simp, by simp⟩
  | fails | failsLocked | drop | dropLocked =>
      exact hlater.goes (by simp) (by simp [DoqPhase.locked]) (by simp) (by simp)
  | take hphase hc => exact h.takes (.inl hphase) (hkept _ hc)
  | hold hphase => exact hlater.goes (by simp) (fun _ => .inl hphase) (by simp) (by simp)
  | bound hphase =>
      exact h.goes (by simp) (fun _ => .inr (by rw [hphase]; rfl)) (by simp) (by simp)
  | dialed hphase hfill =>
      obtain ⟨-, rfl⟩ := Lease.fill_eq_some hfill
      exact hlater.takes (.inr (by rw [hphase]; rfl)) (Nat.lt_succ_self _)
  | answered hphase hmsg =>
      refine ⟨h.made, by simp, by simp [DoqPhase.locked], h.sent, by simp, by simp, ?_⟩
      intro msg heq
      cases heq
      exact ⟨by simp [h.current _ hphase], received_of_readReply hmsg⟩
  | cleared hphase hforget =>
      obtain ⟨-, rfl⟩ := Lease.forget_eq_some hforget
      refine ⟨hlater.made, by simp, by simp [DoqPhase.locked], h.sent, by simp, ?_, by simp⟩
      intro e he c hc
      simp

/-! ## What holds in every state -/

structure Sound (s : DoqSetting) (t : DoqTransport) : Prop where
  lease : t.lease.Sound fun _ => True
  counted : t.lease.Counted t.alive (t.closed.length + t.cleared.length)
  holders : ∀ i, t.lease.holder = some i ↔
    ∃ q, t.queries[i]? = some q ∧ q.phase.locked = true
  closed : t.closed.Nodup ∧ ∀ c ∈ t.closed, c < t.lease.made
  cleared : t.cleared.Nodup ∧ ∀ i ∈ t.cleared, ∃ q e, t.queries[i]? = some q ∧
    q.phase = .done (some (.error e))
  queries : ∀ (i : Nat) (q : DoqQuery), t.queries[i]? = some q → Facts s t.lease q

theorem sound_new : Sound s {} where
  lease := .init _
  counted := .init _
  holders := by simp
  closed := by simp
  cleared := by simp
  queries := by simp

theorem locked_set {i : Nat} {q : DoqQuery} (hq : t.queries[i]? = some q) (q' : DoqQuery)
    (j : Nat) : (∃ p, (t.queries.set i q')[j]? = some p ∧ p.phase.locked = true) ↔
      if j = i then q'.phase.locked = true
      else ∃ p, t.queries[j]? = some p ∧ p.phase.locked = true := by
  have hlt : i < t.queries.length := (List.getElem?_eq_some_iff.mp hq).1
  by_cases hji : j = i
  · subst hji
    simp [hlt]
  · simp [hji, List.getElem?_set_ne (Ne.symm hji)]

/-- The lock stays with whoever has it. -/
theorem Sound.holders_same (h : Sound s t) {i : Nat} {q q' : DoqQuery}
    (hq : t.queries[i]? = some q) (hsame : q'.phase.locked = q.phase.locked) (j : Nat) :
    t.lease.holder = some j ↔
      ∃ p, (t.queries.set i q')[j]? = some p ∧ p.phase.locked = true := by
  rw [locked_set hq, h.holders j]
  split
  · rename_i hji
    subst hji
    rw [hq, hsame]
    simp
  · rfl

theorem Sound.holders_free (h : Sound s t) {i : Nat} {q q' : DoqQuery}
    (hq : t.queries[i]? = some q) (hheld : t.lease.holder = some i)
    (hfree : q'.phase.locked = false) (j : Nat) :
    none = some j ↔ ∃ p, (t.queries.set i q')[j]? = some p ∧ p.phase.locked = true := by
  rw [locked_set hq, ← h.holders j, hheld]
  split
  · simp [hfree]
  · rename_i hji
    simp [Ne.symm hji]

theorem Sound.turn_holders (h : Sound s t) {i : Nat} {q q' : DoqQuery} {t1 : DoqTransport}
    (hq : t.queries[i]? = some q) (hturn : Turns s t i q t1 q') :
    ∀ j, (t1.setQuery i q').lease.holder = some j ↔
      ∃ p, (t1.setQuery i q').queries[j]? = some p ∧ p.phase.locked = true := by
  cases hturn with
  | start hphase | take hphase | bound hphase | answered hphase =>
      exact h.holders_same hq (by simp [hphase, DoqPhase.locked])
  | fails _ hphase => exact h.holders_same hq (by rw [hphase]; rfl)
  | drop hphase => exact h.holders_same hq (by rw [hphase]; rfl)
  | cleared hphase hforget =>
      obtain ⟨-, rfl⟩ := Lease.forget_eq_some hforget
      exact h.holders_same hq (by simp [hphase, DoqPhase.locked])
  | hold hphase hfree =>
      intro j
      simp only [setQuery]
      rw [locked_set hq, ← h.holders j, hfree]
      split
      · rename_i hji
        simp [hji, DoqPhase.locked]
      · rename_i hji
        simp [Ne.symm hji]
  | failsLocked _ _ hgiveUp =>
      obtain ⟨hheld, rfl⟩ := Lease.giveUp_eq_some hgiveUp
      exact h.holders_free hq hheld rfl
  | dropLocked _ hgiveUp =>
      obtain ⟨hheld, rfl⟩ := Lease.giveUp_eq_some hgiveUp
      exact h.holders_free hq hheld rfl
  | dialed _ hfill =>
      obtain ⟨hheld, rfl⟩ := Lease.fill_eq_some hfill
      exact h.holders_free hq hheld rfl

theorem Sound.turn_lease (h : Sound s t) {i : Nat} {q q' : DoqQuery} {t1 : DoqTransport}
    (hturn : Turns s t i q t1 q') : (t1.lease.Sound fun _ => True) ∧
      t1.lease.Counted t1.alive (t1.closed.length + t1.cleared.length) := by
  cases hturn with
  | hold _ _ hdead => exact ⟨h.lease.hold fun _ _ => trivial, h.counted.hold hdead⟩
  | failsLocked _ _ hgiveUp => exact ⟨h.lease.giveUp hgiveUp, h.counted.giveUp hgiveUp⟩
  | dropLocked _ hgiveUp => exact ⟨h.lease.giveUp hgiveUp, h.counted.giveUp hgiveUp⟩
  | dialed _ hfill =>
      refine ⟨h.lease.fill hfill, h.counted.fill hfill ?_⟩
      have hnew : t.lease.made ∉ t.closed := fun hmem => lt_irrefl _ (h.closed.2 _ hmem)
      simpa [alive] using hnew
  | cleared _ hforget =>
      refine ⟨h.lease.forget hforget fun _ _ _ => trivial, ?_⟩
      have hforgot := h.counted.forget hforget
      simp only [List.length_append, List.length_singleton, ← Nat.add_assoc]
      exact hforgot
  | _ => exact ⟨h.lease, h.counted⟩

theorem Sound.turn_cleared (h : Sound s t) {i : Nat} {q q' : DoqQuery} {t1 : DoqTransport}
    (hq : t.queries[i]? = some q) (hturn : Turns s t i q t1 q') :
    t1.cleared.Nodup ∧ ∀ j ∈ t1.cleared, ∃ p e, (t1.setQuery i q').queries[j]? = some p ∧
      p.phase = .done (some (.error e)) := by
  have hover := over_of_turns hturn
  have hlt : i < t.queries.length := (List.getElem?_eq_some_iff.mp hq).1
  have hother : ∀ j ∈ t.cleared, j ≠ i := by
    rintro j hj rfl
    obtain ⟨p, e, hp, hphase⟩ := h.cleared.2 j hj
    rw [hq] at hp
    cases hp
    exact hover _ hphase
  have hold : ∀ j ∈ t.cleared, ∃ p e, (t1.setQuery i q').queries[j]? = some p ∧
      p.phase = .done (some (.error e)) := by
    intro j hj
    obtain ⟨p, e, hp, hphase⟩ := h.cleared.2 j hj
    refine ⟨p, e, ?_, hphase⟩
    simp only [setQuery, queries_of_turns hturn]
    rw [List.getElem?_set_ne (hother j hj).symm, hp]
  cases hturn with
  | @cleared e =>
      refine ⟨?_, fun j hj => ?_⟩
      · simp only [List.nodup_append, List.nodup_singleton, List.mem_singleton]
        exact ⟨h.cleared.1, trivial, fun j hj j' hj' => hj' ▸ hother j hj⟩
      · simp only [List.mem_append, List.mem_singleton] at hj
        rcases hj with hj | rfl
        · exact hold j hj
        · exact ⟨_, e, by simp [setQuery, hlt]; rfl, rfl⟩
  | _ => exact ⟨h.cleared.1, hold⟩

theorem Sound.turn_queries (h : Sound s t) {i : Nat} {q q' : DoqQuery} {t1 : DoqTransport}
    (hq : t.queries[i]? = some q) (hturn : Turns s t i q t1 q') :
    ∀ (j : Nat) p, (t1.setQuery i q').queries[j]? = some p → Facts s t1.lease p := by
  intro j p hp
  simp only [setQuery, queries_of_turns hturn, List.getElem?_set] at hp
  split at hp
  · split at hp <;> cases hp
    exact (h.queries i q hq).turn (fun c hc => h.lease.lt hc) hturn
  · exact (h.queries j p hp).later (later_of_turns hturn)

theorem closed_of_turns {i : Nat} {q q' : DoqQuery} {t1 : DoqTransport}
    (h : Turns s t i q t1 q') : t1.closed = t.closed := by
  cases h <;> rfl

theorem Sound.moves (h : Sound s t) (hmoves : Moves s t t') : Sound s t' := by
  cases hmoves with
  | query message =>
      refine ⟨h.lease, h.counted, fun i => ?_, h.closed, h.cleared.imp_right fun hc i hi => ?_, ?_⟩
      · rw [h.holders i]
        constructor
        · rintro ⟨q, hq, hphase⟩
          have hlt := (List.getElem?_eq_some_iff.mp hq).1
          exact ⟨q, by simp [List.getElem?_append_left hlt, hq], hphase⟩
        · rintro ⟨q, hq, hphase⟩
          simp only [List.getElem?_append] at hq
          split at hq
          · exact ⟨q, hq, hphase⟩
          · rw [List.getElem?_singleton] at hq
            split at hq <;> cases hq
            cases hphase
      · obtain ⟨q, e, hq, hphase⟩ := hc i hi
        have hlt := (List.getElem?_eq_some_iff.mp hq).1
        exact ⟨q, e, by simp [List.getElem?_append_left hlt, hq], hphase⟩
      · intro i q hq
        simp only [List.getElem?_append] at hq
        split at hq
        · exact h.queries i q hq
        · rw [List.getElem?_singleton] at hq
          split at hq <;> cases hq
          exact facts_new _ _
  | @close c hmade halive =>
      have hnew : c ∉ t.closed := by simpa [alive] using halive
      refine ⟨h.lease, ?_, h.holders, ⟨?_, fun c' hc' => ?_⟩, h.cleared, h.queries⟩
      · have hdies : t.lease.Counted (alive { t with closed := t.closed ++ [c] }) _ :=
          h.counted.dies fun r hr => by simp_all [alive]
        simpa [Nat.add_right_comm] using hdies
      · simp only [List.nodup_append, List.nodup_singleton, List.mem_singleton]
        refine ⟨h.closed.1, trivial, fun c' hc' c'' hc'' heq => ?_⟩
        rw [heq, hc''] at hc'
        exact hnew hc'
      · simp only [List.mem_append, List.mem_singleton] at hc'
        rcases hc' with hc' | rfl
        · exact h.closed.2 c' hc'
        · exact hmade
  | @turn i q q' t1 hq hturn =>
      obtain ⟨hlease, hcounted⟩ := h.turn_lease hturn
      refine ⟨hlease, hcounted, h.turn_holders hq hturn, ?_, h.turn_cleared hq hturn,
        h.turn_queries hq hturn⟩
      simp only [setQuery, closed_of_turns hturn]
      exact h.closed.imp_right fun hclosed c hc =>
        (hclosed c hc).trans_le (later_of_turns hturn).made_le

/-- Every connection but one was closed or dropped by a query that failed, each by its own.  No
two queries dial at the same time, a query that failed does not leave its connection to
others, and one that succeeds has a reply to the request it sent. -/
theorem quicConnections_of_run {as : List DoqAction} (hrun : runFrom (step s) {} as = some t) :
    t.lease.made ≤ t.closed.length + t.cleared.length + 1 ∧
      (t.closed.Nodup ∧ t.cleared.Nodup ∧ ∀ i ∈ t.cleared, ∃ q e, t.queries[i]? = some q ∧
        q.phase = .done (some (.error e))) ∧
      (∀ (i j : Nat) q q', t.queries[i]? = some q → t.queries[j]? = some q' →
        q.phase.locked = true → q'.phase.locked = true → i = j) ∧
      ∀ (i : Nat) q, t.queries[i]? = some q →
        (∀ e, q.phase = .done (some (.error e)) → ∀ c, q.conn = some c →
          t.lease.kept ≠ some c) ∧
        ∀ msg, q.phase = .done (some (.ok msg)) → Requests s q ∧ Received s q msg := by
  have hsound : Sound s t :=
    runFrom_invariant (C := fun _ _ => True) (I := Sound s)
      (fun _ _ _ _ hstep h => h.moves (moves_of_step hstep)) sound_new (eachStep_trivial _ _) hrun
  refine ⟨?_, ⟨hsound.closed.1, hsound.cleared⟩, ?_, fun i q hq => ?_⟩
  · have hmade := hsound.counted.made_le
    have hone := Bool.toNat_le (t.lease.kept.any t.alive)
    omega
  · intro i j q q' hq hq' hlocked hlocked'
    have hi := (hsound.holders i).mpr ⟨q, hq, hlocked⟩
    have hj := (hsound.holders j).mpr ⟨q', hq', hlocked'⟩
    rw [hi] at hj
    simpa using hj
  · have hfacts := hsound.queries i q hq
    refine ⟨hfacts.gone, fun msg hmsg => ?_⟩
    obtain ⟨hconn, hreceived⟩ := hfacts.answer msg hmsg
    exact ⟨hfacts.sent hconn, hreceived⟩

def quicSetting : DoqSetting where
  host := "dns.test".toList
  toVec _ := .ok (tcpWire 7)
  fromVec := tcpFromVec

/-- The second query fails on the connection of the first, which has its reply by then. -/
def quicRun : List DoqAction :=
  let ips := .ok [.error .timeout, .ok ()]
  [.query tcpQuestion, .query tcpQuestion, .start 0, .lock 0, .bind 0 none, .dial 0 ips, .start 1,
    .lock 1, .reply 0 (.ok (be16Framing.frame (tcpWire 0))), .reply 1 (.error []), .clear 1,
    .query tcpQuestion, .start 2, .lock 2, .bind 2 none, .dial 2 ips]

theorem connections_quicRun : ∃ t q msg, runFrom (step quicSetting) {} quicRun = some t ∧
    t.lease.made = 2 ∧ t.cleared = [1] ∧ t.lease.made ≤ t.closed.length + t.cleared.length + 1 ∧
      t.queries[0]? = some q ∧ q.phase = .done (some (.ok msg)) ∧
      Received quicSetting q msg := by
  have hrun : ((runFrom (step quicSetting) {} quicRun).any fun t =>
      t.lease.made == 2 && t.cleared == [1] &&
        (t.queries[0]?).any fun q => q.phase.answer.isSome) = true := by decide +kernel
  obtain ⟨t, ht, hend⟩ := (Option.any_eq_true _ _).mp hrun
  simp only [Bool.and_eq_true, beq_iff_eq, Option.any_eq_true] at hend
  obtain ⟨⟨hmade, hcleared⟩, q, hq, hanswer⟩ := hend
  obtain ⟨msg, hmsg⟩ := Option.isSome_iff_exists.mp hanswer
  have hphase := DoqPhase.eq_done hmsg
  obtain ⟨hbound, -, -, hqueries⟩ := quicConnections_of_run ht
  exact ⟨t, q, msg, ht, hmade, hcleared, hbound, hq, hphase, ((hqueries 0 q hq).2 msg hphase).2⟩

end DoqTransport

end Bulwark.Upstream
