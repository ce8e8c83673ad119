import Bulwark.Foundation.Runs
import Bulwark.Upstream.Doh

/-!
# What every run of the DoH transport keeps

Addresses are found by a lookup, and kept three times on their way into a request.  A query
makes its requests in a fixed order of versions, and starts with HTTP/3 only where that is
forced or advertised.
-/

namespace Bulwark.Upstream

open Bulwark.Foundation Bulwark.Dns

namespace DohTransport

variable {s : DohSetting} {t t' : DohTransport}

/-! ## What a step does -/

/-- A query goes on: how the transport is then, apart from the query, and the query. -/
inductive Turns (s : DohSetting) (t : DohTransport) (i : Nat) (q : DohQuery) :
    DohTransport → DohQuery → Prop where
  | fails (e : UpstreamError) :
      Turns s t i q t { q with phase := .done (some (.error e)) }
  | drop : Turns s t i q t { q with phase := .done none }
  | start {bytes : Bytes} (hphase : q.phase = .starting) (hbytes : s.toVec q.message = .ok bytes) :
      Turns s t i q t
        { q with
          body := 0 :: 0 :: bytes.drop 2
          started := t.now
          phase := .client t.startsWithH3 }
  | keptClient {http3 : Bool} {p : Pin DohClient} {c : DohClient} (hphase : q.phase = .client http3)
      (hp : t.client http3 = some p) (hread : p.read dohPinTtl t.now = some c) :
      Turns s t i q t
        { q with phase := .sending c.http3, requests := q.requests ++ [⟨c, q.body, t.now⟩] }
  | noClient {http3 : Bool} (hphase : q.phase = .client http3) :
      Turns s t i q t { q with phase := .ips http3 }
  | keptIps {http3 : Bool} {p : Pin (List IpAddr)} {ips : List IpAddr}
      (hphase : q.phase = .ips http3) (hp : t.ips = some p)
      (hread : p.read dohPinTtl t.now = some ips) :
      Turns s t i q t { q with phase := .building http3 ips t.now }
  | noIps {http3 : Bool} (hphase : q.phase = .ips http3) :
      Turns s t i q t { q with phase := .cache http3 }
  | literal {http3 : Bool} {ip : IpAddr} (hphase : q.phase = .cache http3)
      (hip : parseIpAddr s.host = some ip) :
      Turns s t i q t { q with phase := .pinning http3 [ip] t.now }
  | cached {http3 : Bool} {ips : List IpAddr} (hphase : q.phase = .cache http3)
      (hname : parseIpAddr s.host = none) (hips : t.bootstrap.cached s.host t.now = some ips) :
      Turns s t i q t { q with phase := .pinning http3 ips t.now }
  | notCached {http3 : Bool} (hphase : q.phase = .cache http3)
      (hname : parseIpAddr s.host = none) :
      Turns s t i q t { q with phase := .lookup http3 }
  | lookedUp {http3 : Bool} {ips : List IpAddr} {world : Lookups}
      (hphase : q.phase = .lookup http3) (hips : s.bootstrap.resolve s.host world = .ok ips) :
      Turns s t i q (t.found s.host ips)
        { q with phase := .pinning http3 ips t.now }
  | pinned {http3 : Bool} {ips : List IpAddr} {since : Int}
      (hphase : q.phase = .pinning http3 ips since) :
      Turns s t i q { t.delayed since with ips := some ⟨t.now, ips⟩ }
        { q with phase := .building http3 ips t.now }
  | built {http3 : Bool} {ips : List IpAddr} {since : Int}
      (hphase : q.phase = .building http3 ips since) :
      Turns s t i q
        ((t.delayed since).setClient ⟨t.now, ⟨http3, ips, s.port⟩⟩)
        { q with
          phase := .sending http3
          requests := q.requests ++ [⟨⟨http3, ips, s.port⟩, q.body, t.now⟩] }
  | again {until' : Option Instant} (hphase : q.phase = .sending true ∨ q.phase = .receiving true)
      (hmode : t.h3 = .auto until') :
      Turns s t i q { t with h3 := .auto none }
        { q with phase := .client false }
  | failsLearnt {t' : DohTransport} {http3 : Bool} {head : HttpHead} (e : UpstreamError)
      (hphase : q.phase = .sending http3) (hlearn : t.learnFrom i http3 head = some t') :
      Turns s t i q t' { q with phase := .done (some (.error e)) }
  | head {t' : DohTransport} {http3 : Bool} {head : HttpHead} (hphase : q.phase = .sending http3)
      (hlearn : t.learnFrom i http3 head = some t') :
      Turns s t i q t' { q with phase := .receiving http3 }
  | answered {http3 : Bool} {msg : Message} {chunks : List Bytes} {error : Option Text}
      (hphase : q.phase = .receiving http3)
      (hmsg : decodeBody s q chunks error = .ok msg) :
      Turns s t i q t { q with phase := .done (some (.ok msg)) }

@[simp] theorem now_setQuery (t : DohTransport) (i : Nat) (q : DohQuery) :
    (t.setQuery i q).now = t.now := rfl

@[simp] theorem now_delayed (t : DohTransport) (since : Int) : (t.delayed since).now = t.now := rfl

@[simp] theorem now_setClient (t : DohTransport) (p : Pin DohClient) :
    (t.setClient p).now = t.now := by
  unfold setClient
  split <;> rfl

@[simp] theorem slowest_setClient (t : DohTransport) (p : Pin DohClient) :
    (t.setClient p).slowest = t.slowest := by
  unfold setClient
  split <;> rfl

theorem adverts_setClient (t : DohTransport) (p : Pin DohClient) :
    (t.setClient p).adverts = t.adverts := by
  unfold setClient
  split <;> rfl

theorem h3_setClient (t : DohTransport) (p : Pin DohClient) : (t.setClient p).h3 = t.h3 := by
  unfold setClient
  split <;> rfl

@[simp] theorem learnFrom_true (t : DohTransport) (i : Nat) (head : HttpHead) :
    t.learnFrom i true head = some t := rfl

theorem turns_of_exchangeFails {i : Nat} {q : DohQuery} {http3 : Bool} (e : UpstreamError)
    (hphase : q.phase = .sending http3 ∨ q.phase = .receiving http3) :
    ∃ t1 q', Turns s t i q t1 q' ∧ t.exchangeFails i q http3 e = t1.setQuery i q' := by
  unfold exchangeFails
  split
  · rename_i hmode
    exact ⟨_, _, .again hphase hmode, rfl⟩
  · exact ⟨_, _, .fails e, rfl⟩

theorem turns_of_checkLength {i : Nat} {q : DohQuery} {http3 : Bool} {head : HttpHead}
    (hphase : q.phase = .sending http3) (hlearn : t.learnFrom i http3 head = some t') :
    ∃ t1 q', Turns s t i q t1 q' ∧ t'.checkLength i q http3 head = t1.setQuery i q' := by
  unfold checkLength
  split
  · cases http3 with
    | true =>
        rw [learnFrom_true] at hlearn
        cases hlearn
        exact turns_of_exchangeFails _ (.inl hphase)
    | false =>
        unfold exchangeFails
        split
        · contradiction
        · exact ⟨_, _, .failsLearnt _ hphase hlearn, rfl⟩
  · exact ⟨_, _, .head hphase hlearn, rfl⟩

theorem learn_eq_some {i : Nat} {value : Text} (h : t.learn i value = some t') :
    ∃ mode, learnAltSvc t.h3 t.clock (parseAltSvcH3 value) = some mode ∧
      t' = { t with h3 := mode, adverts := t.adverts ++ t.advertsIn i value } := by
  obtain ⟨mode, hmode, rfl⟩ := Option.map_eq_some_iff.mp h
  exact ⟨mode, hmode, rfl⟩

/-- The clock, the bootstrap's other users and new queries; or a query goes on. -/
inductive Moves (s : DohSetting) (t : DohTransport) : DohTransport → Prop where
  | tick {clock : Instant} (hclock : t.now ≤ clock.total) : Moves s t { t with clock := clock }
  | resolved {other : Text} {ips : List IpAddr} (hips : ips ≠ []) :
      Moves s t (t.found other ips)
  | unresolved : Moves s t t
  | query (message : Message) :
      Moves s t { t with queries := t.queries ++ [{ message := message }] }
  | turn {i : Nat} {q q' : DohQuery} {t1 : DohTransport} (hq : t.queries[i]? = some q)
      (hturn : Turns s t i q t1 q') : Moves s t (t1.setQuery i q')

theorem moves_of_step {a : DohAction} (h : t.step s a = some t') : Moves s t t' := by
  unfold step at h
  cases a with
  | tick clock =>
      simp only at h
      split at h <;> cases h
      exact .tick (by assumption)
  | resolved other world =>
      simp only at h
      split at h <;> cases h
      · exact .resolved (Bootstrap.resolve_eq_ok (by assumption))
      · exact .unresolved
  | query message =>
      cases h
      exact .query message
  | start i =>
      simp only [Option.bind_eq_bind, Option.bind_eq_some_iff] at h
      obtain ⟨q, hq, h⟩ := h
      split at h
      · unfold startQuery at h
        split at h
        · cases h
          exact .turn hq (.fails _)
        · split at h <;> cases h
          exact .turn hq (.start (by assumption) (by assumption))
      · cases h
  | readClient i =>
      simp only [Option.bind_eq_bind, Option.bind_eq_some_iff] at h
      obtain ⟨q, hq, h⟩ := h
      split at h
      · rename_i http3 hphase
        split at h <;> cases h
        · rename_i c hread
          obtain ⟨p, hp, hread⟩ := Option.bind_eq_some_iff.mp hread
          exact .turn hq (.keptClient hphase hp hread)
        · exact .turn hq (.noClient hphase)
      · cases h
  | readIps i =>
      simp only [Option.bind_eq_bind, Option.bind_eq_some_iff] at h
      obtain ⟨q, hq, h⟩ := h
      split at h
      · rename_i http3 hphase
        split at h <;> cases h
        · rename_i ips hread
          obtain ⟨p, hp, hread⟩ := Option.bind_eq_some_iff.mp hread
          exact .turn hq (.keptIps hphase hp hread)
        · exact .turn hq (.noIps hphase)
      · cases h
  | readCache i =>
      simp only [Option.bind_eq_bind, Option.bind_eq_some_iff] at h
      obtain ⟨q, hq, h⟩ := h
      split at h
      · rename_i http3 hphase
        cases h
        unfold readCache
        split
        · exact .turn hq (.literal hphase (by assumption))
        · split
          · exact .turn hq (.cached hphase (by assumption) (by assumption))
          · exact .turn hq (.notCached hphase (by assumption))
      · cases h
  | lookup i world =>
      simp only [Option.bind_eq_bind, Option.bind_eq_some_iff] at h
      obtain ⟨q, hq, h⟩ := h
      split at h
      · split at h <;> cases h
        · exact .turn hq (.lookedUp (by assumption) (by assumption))
        · exact .turn hq (.fails _)
      · cases h
  | pinIps i =>
      simp only [Option.bind_eq_bind, Option.bind_eq_some_iff] at h
      obtain ⟨q, hq, h⟩ := h
      split at h <;> cases h
      exact .turn hq (.pinned (by assumption))
  | build i error =>
      simp only [Option.bind_eq_bind, Option.bind_eq_some_iff] at h
      obtain ⟨q, hq, h⟩ := h
      split at h
      · rename_i http3 ips since hphase
        split at h <;> cases h
        · exact .turn hq (.fails _)
        · rw [send, now_setClient, now_delayed]
          exact .turn hq (.built hphase)
      · cases h
  | head i response =>
      simp only [Option.bind_eq_bind, Option.bind_eq_some_iff] at h
      obtain ⟨q, hq, h⟩ := h
      split at h
      · rename_i http3 hphase
        split at h
        · cases h
          obtain ⟨t1, q', hturn, heq⟩ := turns_of_exchangeFails (t := t) (i := i) _ (.inl hphase)
          rw [heq]
          exact .turn hq hturn
        · split at h
          · obtain ⟨t1, hlearn, h⟩ := Option.bind_eq_some_iff.mp h
            cases h
            obtain ⟨t2, q', hturn, heq⟩ := turns_of_checkLength hphase hlearn
            rw [heq]
            exact .turn hq hturn
          · cases h
            obtain ⟨t1, q', hturn, heq⟩ := turns_of_exchangeFails (t := t) (i := i) _ (.inl hphase)
            rw [heq]
            exact .turn hq hturn
      · cases h
  | body i chunks error =>
      simp only [Option.bind_eq_bind, Option.bind_eq_some_iff] at h
      obtain ⟨q, hq, h⟩ := h
      split at h
      · rename_i http3 hphase
        cases h
        cases hmsg : decodeBody s q chunks error with
        | ok msg => exact .turn hq (.answered hphase hmsg)
        | error e =>
            obtain ⟨t1, q', hturn, heq⟩ := turns_of_exchangeFails (t := t) (i := i) e (.inr hphase)
            rw [exchangeEnds, heq]
            exact .turn hq hturn
      · cases h
  | drop i =>
      simp only [Option.bind_eq_bind, Option.bind_eq_some_iff] at h
      obtain ⟨q, hq, h⟩ := h
      split at h <;> cases h
      exact .turn hq .drop

/-! ## Only more happens -/

structure Later (t t' : DohTransport) : Prop where
  now : t.now ≤ t'.now
  slowest : t.slowest ≤ t'.slowest
  lookups : ∀ l ∈ t.bootstrap.lookups, l ∈ t'.bootstrap.lookups
  adverts : ∀ a ∈ t.adverts, a ∈ t'.adverts
  forced : t.h3 = .forced ↔ t'.h3 = .forced

theorem Later.refl (t : DohTransport) : t.Later t :=
  ⟨le_rfl, le_rfl, fun _ => id, fun _ => id, .rfl⟩

theorem Later.trans {t1 : DohTransport} (h : t.Later t1) (h' : t1.Later t') : t.Later t' where
  now := h.now.trans h'.now
  slowest := h.slowest.trans h'.slowest
  lookups l hl := h'.lookups l (h.lookups l hl)
  adverts a ha := h'.adverts a (h.adverts a ha)
  forced := h.forced.trans h'.forced

theorem later_delayed (t : DohTransport) (since : Int) : t.Later (t.delayed since) :=
  ⟨le_rfl, le_max_left _ _, fun _ => id, fun _ => id, .rfl⟩

theorem later_setClient (t : DohTransport) (p : Pin DohClient) : t.Later (t.setClient p) := by
  unfold setClient
  split <;> exact ⟨le_rfl, le_rfl, fun _ => id, fun _ => id, .rfl⟩

theorem later_found (t : DohTransport) (other : Text) (ips : List IpAddr) :
    t.Later (t.found other ips) where
  now := le_rfl
  slowest := le_rfl
  lookups l hl := by simp [found, BootstrapCache.insert, hl]
  adverts _ := id
  forced := .rfl

theorem learnAltSvc_forced {mode mode' : H3Mode} {clock : Instant} {decision : AltSvcH3}
    (h : learnAltSvc mode clock decision = some mode') : mode = .forced ↔ mode' = .forced := by
  unfold learnAltSvc at h
  split at h
  · cases h
    rfl
  · split at h
    · obtain ⟨until', -, rfl⟩ := Option.map_eq_some_iff.mp h
      simp
    · cases h
      simp
    · cases h
      simp

theorem later_learnFrom {i : Nat} {http3 : Bool} {head : HttpHead}
    (h : t.learnFrom i http3 head = some t') : t.Later t' := by
  unfold learnFrom at h
  split at h
  · obtain ⟨mode, hmode, rfl⟩ := learn_eq_some h
    exact ⟨le_rfl, le_rfl, fun _ => id, fun _ => List.mem_append_left _, learnAltSvc_forced hmode⟩
  · cases h
    exact .refl t

theorem later_of_turns {i : Nat} {q q' : DohQuery} {t1 : DohTransport}
    (h : Turns s t i q t1 q') : t.Later t1 := by
  cases h with
  | lookedUp => exact later_found t _ _
  | pinned => exact (later_delayed t _).trans ⟨le_rfl, le_rfl, fun _ => id, fun _ => id, .rfl⟩
  | built => exact (later_delayed t _).trans (later_setClient _ _)
  | again _ hmode => exact ⟨le_rfl, le_rfl, fun _ => id, fun _ => id, by simp [hmode]⟩
  | failsLearnt _ _ hlearn => exact later_learnFrom hlearn
  | head _ hlearn => exact later_learnFrom hlearn
  | _ => exact .refl t

theorem queries_of_turns {i : Nat} {q q' : DohQuery} {t1 : DohTransport}
    (h : Turns s t i q t1 q') : t1.queries = t.queries := by
  cases h with
  | built =>
      unfold setClient
      split <;> rfl
  | failsLearnt _ _ hlearn | head _ hlearn =>
      unfold learnFrom at hlearn
      split at hlearn
      · obtain ⟨mode, -, rfl⟩ := learn_eq_some hlearn
        rfl
      · cases hlearn
        rfl
  | _ => rfl

/-! ## Addresses -/

/-- The addresses of the upstream's host. -/
def Current (s : DohSetting) (t : DohTransport) (age now : Int) (ips : List IpAddr) : Prop :=
  t.bootstrap.Current s.host age now ips

theorem Current.later {age age' now : Int} {ips : List IpAddr} (h : Current s t age now ips)
    (hlater : t.Later t') (hage : age ≤ age') : Current s t' age' now ips :=
  h.mono hlater.lookups hage

/-- What a query has in its hands. -/
def Held (s : DohSetting) (t : DohTransport) (q : DohQuery) : Prop :=
  match q.phase with
  | .lookup _ => parseIpAddr s.host = none
  | .pinning _ ips since => since ≤ t.now ∧ Current s t bootstrapTtl since ips
  | .building _ ips since => since ≤ t.now ∧ Current s t (secs 600 + t.slowest) since ips
  | _ => True

structure Sent (s : DohSetting) (t : DohTransport) (q : DohQuery) : Prop where
  held : Held s t q
  requests : ∀ r ∈ q.requests, r.since ≤ t.now ∧
    Current s t (secs 900 + 2 * t.slowest) r.since r.client.ips

structure Kept (s : DohSetting) (t : DohTransport) : Prop where
  cache : t.bootstrap.Sound t.now
  slowest : 0 ≤ t.slowest
  ips : ∀ p, t.ips = some p → p.since ≤ t.now ∧
    Current s t (secs 300 + t.slowest) p.since p.value
  clients : ∀ http3 p, t.client http3 = some p → p.since ≤ t.now ∧
    Current s t (secs 600 + 2 * t.slowest) p.since p.value.ips

theorem Held.later {q : DohQuery} (h : Held s t q) (hlater : t.Later t') : Held s t' q := by
  have hslowest := hlater.slowest
  cases hphase : q.phase with
  | lookup => simpa [Held, hphase] using h
  | pinning =>
      simp only [Held, hphase] at h ⊢
      exact ⟨h.1.trans hlater.now, h.2.later hlater le_rfl⟩
  | building =>
      simp only [Held, hphase] at h ⊢
      exact ⟨h.1.trans hlater.now, h.2.later hlater (by omega)⟩
  | _ => simp [Held, hphase]

theorem Sent.later {q : DohQuery} (h : Sent s t q) (hlater : t.Later t') : Sent s t' q where
  held := h.held.later hlater
  requests r hr := by
    obtain ⟨hbefore, hcurrent⟩ := h.requests r hr
    have hslowest := hlater.slowest
    exact ⟨hbefore.trans hlater.now, hcurrent.later hlater (by omega)⟩

theorem client_setClient (t : DohTransport) (p : Pin DohClient) (http3 : Bool) :
    (t.setClient p).client http3 = if p.value.http3 = http3 then some p else t.client http3 := by
  unfold setClient client
  cases hversion : p.value.http3 <;> cases http3 <;> simp

theorem Kept.setClient {p : Pin DohClient} (h : Kept s t) (hbefore : p.since ≤ t.now)
    (hcurrent : Current s t (secs 600 + 2 * t.slowest) p.since p.value.ips) :
    Kept s (t.setClient p) := by
  have hclients : ∀ http3 p', (t.setClient p).client http3 = some p' → p'.since ≤ t.now ∧
      Current s t (secs 600 + 2 * t.slowest) p'.since p'.value.ips := by
    intro http3 p' hp'
    rw [client_setClient] at hp'
    split at hp'
    · cases hp'
      exact ⟨hbefore, hcurrent⟩
    · exact h.clients http3 p' hp'
  cases hversion : p.value.http3 with
  | true =>
      simp only [DohTransport.setClient, hversion, if_true] at hclients ⊢
      exact ⟨h.cache, h.slowest, h.ips, hclients⟩
  | false =>
      simp only [DohTransport.setClient, hversion, Bool.false_eq_true, if_false] at hclients ⊢
      exact ⟨h.cache, h.slowest, h.ips, hclients⟩

theorem Kept.delayed (h : Kept s t) (since : Int) : Kept s (t.delayed since) where
  cache := h.cache
  slowest := h.slowest.trans (le_max_left _ _)
  ips p hp := by
    obtain ⟨hbefore, hcurrent⟩ := h.ips p hp
    have hslowest := (later_delayed t since).slowest
    exact ⟨hbefore, hcurrent.later (later_delayed t since) (by omega)⟩
  clients http3 p hp := by
    obtain ⟨hbefore, hcurrent⟩ := h.clients http3 p hp
    have hslowest := (later_delayed t since).slowest
    exact ⟨hbefore, hcurrent.later (later_delayed t since) (by omega)⟩

theorem Kept.found {other : Text} {ips : List IpAddr} (h : Kept s t) (hips : ips ≠ []) :
    Kept s (t.found other ips) where
  cache := h.cache.insert hips
  slowest := h.slowest
  ips p hp := (h.ips p hp).imp_right fun h => h.later (later_found t other ips) le_rfl
  clients http3 p hp :=
    (h.clients http3 p hp).imp_right fun h => h.later (later_found t other ips) le_rfl

theorem Kept.turn (h : Kept s t) {i : Nat} {q q' : DohQuery} {t1 : DohTransport}
    (hq : Sent s t q) (hturn : Turns s t i q t1 q') : Kept s t1 := by
  have hheld := hq.held
  cases hturn with
  | lookedUp _ hips => exact h.found (Bootstrap.resolve_eq_ok hips)
  | @pinned _ ips since hphase =>
      simp only [Held, hphase] at hheld
      obtain ⟨hbefore, hcurrent⟩ := hheld
      have hdelay : t.now - since ≤ (t.delayed since).slowest := le_max_right _ _
      have hkept := h.delayed since
      refine ⟨hkept.cache, hkept.slowest, fun p hp => ?_, hkept.clients⟩
      cases hp
      exact ⟨le_rfl, hcurrent.wait hbefore (by simp only [bootstrapTtl]; omega)⟩
  | @built _ ips since hphase =>
      simp only [Held, hphase] at hheld
      obtain ⟨hbefore, hcurrent⟩ := hheld
      have hdelay : t.now - since ≤ (t.delayed since).slowest := le_max_right _ _
      have hslowest := (later_delayed t since).slowest
      refine (h.delayed since).setClient le_rfl (hcurrent.wait hbefore ?_)
      simp only
      omega
  | failsLearnt _ _ hlearn | head _ hlearn =>
      unfold learnFrom at hlearn
      split at hlearn
      · obtain ⟨mode, -, rfl⟩ := learn_eq_some hlearn
        exact ⟨h.cache, h.slowest, h.ips, h.clients⟩
      · cases hlearn
        exact h
  | _ => exact ⟨h.cache, h.slowest, h.ips, h.clients⟩

theorem Sent.turn (h : Kept s t) {i : Nat} {q q' : DohQuery} {t1 : DohTransport}
    (hq : Sent s t q) (hturn : Turns s t i q t1 q') : Sent s t1 q' := by
  have hlater := later_of_turns hturn
  have hsent := hq.later hlater
  have hheld := hq.held
  have hslow := h.slowest
  cases hturn with
  | @keptClient http3 p c hphase hp hread =>
      obtain ⟨hbefore, hcurrent⟩ := h.clients http3 p hp
      have hpinned := hcurrent.read hread hbefore
      obtain ⟨rfl, -⟩ := Pin.read_eq_some hread
      refine ⟨by simp [Held], fun r hr => ?_⟩
      rcases List.mem_append.mp hr with hr | hr
      · exact hsent.requests r hr
      · cases List.mem_singleton.mp hr
        exact ⟨le_rfl, hpinned.wait le_rfl (by simp only [dohPinTtl, secs]; omega)⟩
  | keptIps hphase hp hread =>
      obtain ⟨hbefore, hcurrent⟩ := h.ips _ hp
      have hpinned := hcurrent.read hread hbefore
      obtain ⟨rfl, -⟩ := Pin.read_eq_some hread
      refine ⟨?_, hsent.requests⟩
      simp only [Held]
      exact ⟨le_rfl, hpinned.wait le_rfl (by simp only [dohPinTtl, secs]; omega)⟩
  | literal hphase hip =>
      refine ⟨?_, hsent.requests⟩
      simp [Held, Current, BootstrapCache.Current, hip]
  | cached hphase hname hips =>
      refine ⟨?_, hsent.requests⟩
      simp only [Held]
      exact ⟨le_rfl, h.cache.current_cached hname hips⟩
  | notCached hphase hname => exact ⟨by simpa [Held] using hname, hsent.requests⟩
  | lookedUp hphase hips =>
      simp only [Held, hphase] at hheld
      refine ⟨?_, hsent.requests⟩
      simp only [Held]
      exact ⟨le_rfl, BootstrapCache.current_insert hheld (Bootstrap.resolve_eq_ok hips)⟩
  | @pinned _ ips since hphase =>
      simp only [Held, hphase] at hheld
      obtain ⟨hbefore, hcurrent⟩ := hheld
      have hdelay : t.now - since ≤ (t.delayed since).slowest := le_max_right _ _
      refine ⟨?_, hsent.requests⟩
      simp only [Held]
      exact ⟨le_rfl, hcurrent.wait hbefore (by simp only [bootstrapTtl, secs]; omega)⟩
  | @built http3 ips since hphase =>
      simp only [Held, hphase] at hheld
      obtain ⟨hbefore, hcurrent⟩ := hheld
      have hdelay : t.now - since ≤ (t.delayed since).slowest := le_max_right _ _
      refine ⟨by simp [Held], fun r hr => ?_⟩
      rcases List.mem_append.mp hr with hr | hr
      · exact hsent.requests r hr
      · cases List.mem_singleton.mp hr
        have hnow := hcurrent.wait hbefore le_rfl
        have hslowest := hlater.slowest
        refine ⟨by simp, Current.later hnow hlater ?_⟩
        simp only [slowest_setClient, secs] at hslowest ⊢
        omega
  | _ => exact ⟨by simp [Held], hsent.requests⟩

theorem later_setQuery (t : DohTransport) (i : Nat) (q : DohQuery) : t.Later (t.setQuery i q) :=
  ⟨le_rfl, le_rfl, fun _ => id, fun _ => id, .rfl⟩

theorem later_of_moves (h : Moves s t t') : t.Later t' := by
  cases h with
  | tick hclock => exact ⟨hclock, le_rfl, fun _ => id, fun _ => id, .rfl⟩
  | resolved => exact later_found t _ _
  | unresolved => exact .refl t
  | query => exact ⟨le_rfl, le_rfl, fun _ => id, fun _ => id, .rfl⟩
  | turn _ hturn => exact (later_of_turns hturn).trans (later_setQuery _ _ _)

/-- What holds of every query: of a new one, and on as the others and the query itself go on. -/
theorem queries_of_moves {P : DohTransport → DohQuery → Prop}
    (h : ∀ (i : Nat) q, t.queries[i]? = some q → P t q) (hmoves : Moves s t t')
    (hlater : ∀ t t' q, DohTransport.Later t t' → P t q → P t' q)
    (hnew : ∀ message, P t' { message := message })
    (hturn : ∀ i q t1 q', t.queries[i]? = some q → Turns s t i q t1 q' → P t1 q') :
    ∀ (i : Nat) q, t'.queries[i]? = some q → P t' q := by
  have hmono := fun q => hlater t t' q (later_of_moves hmoves)
  cases hmoves with
  | tick | resolved | unresolved => exact fun i q hq => hmono q (h i q hq)
  | query message =>
      intro i q hq
      simp only [List.getElem?_append] at hq
      split at hq
      · exact hmono q (h i q hq)
      · rw [List.getElem?_singleton] at hq
        split at hq <;> cases hq
        exact hnew message
  | @turn i q q' t1 hq hturns =>
      intro j q'' hq''
      simp only [setQuery, queries_of_turns hturns, List.getElem?_set] at hq''
      split at hq''
      · split at hq'' <;> cases hq''
        exact hlater _ _ _ (later_setQuery t1 i q') (hturn i q t1 q' hq hturns)
      · exact hmono q'' (h j q'' hq'')

structure Addressed (s : DohSetting) (t : DohTransport) : Prop where
  kept : Kept s t
  sent : ∀ (i : Nat) q, t.queries[i]? = some q → Sent s t q

theorem addressed_new (forceHttp3 : Bool) (clock : Instant) :
    Addressed s (.new forceHttp3 clock) where
  kept :=
    { cache := .init _
      slowest := le_rfl
      ips := by simp [new]
      clients := by simp [new, client] }
  sent := by simp [new]

theorem Addressed.moves (h : Addressed s t) (hmoves : Moves s t t') : Addressed s t' where
  kept := by
    have hkept := h.kept
    cases hmoves with
    | @tick clock hclock =>
        refine ⟨hkept.cache.wait hclock, hkept.slowest, fun p hp => ?_, fun http3 p hp => ?_⟩
        · exact (hkept.ips p hp).imp_left fun hp => hp.trans hclock
        · exact (hkept.clients http3 p hp).imp_left fun hp => hp.trans hclock
    | resolved hips => exact hkept.found hips
    | unresolved => exact hkept
    | query => exact ⟨hkept.cache, hkept.slowest, hkept.ips, hkept.clients⟩
    | @turn i q q' t1 hq hturn =>
        have hturned := hkept.turn (h.sent i q hq) hturn
        exact ⟨hturned.cache, hturned.slowest, hturned.ips, hturned.clients⟩
  sent := by
    refine queries_of_moves h.sent hmoves (fun _ _ _ hlater h => h.later hlater) (fun _ => ?_)
      fun i q t1 q' hq hturn => (h.sent i q hq).turn h.kept hturn
    exact ⟨by simp [Held], by simp⟩

/-- No request goes to an address that a lookup of the host gave a quarter of an hour before
it, but for the time two queries took to put away what they had read. -/
theorem addresses_of_run {forceHttp3 : Bool} {clock : Instant} {as : List DohAction}
    (hrun : runFrom (step s) (.new forceHttp3 clock) as = some t) {i : Nat}
    {q : DohQuery} (hq : t.queries[i]? = some q) {r : DohRequest} (hr : r ∈ q.requests) :
    (∀ ip, parseIpAddr s.host = some ip → r.client.ips = [ip]) ∧
      (parseIpAddr s.host = none → r.client.ips ≠ [] ∧
        ∃ l : Pin (List IpAddr), (s.host, l) ∈ t.bootstrap.lookups ∧ l.value = r.client.ips ∧
          l.since ≤ r.since ∧ r.since - l.since < secs (15 * 60) + 2 * t.slowest) := by
  have haddressed : Addressed s t :=
    runFrom_invariant (C := fun _ _ => True) (I := Addressed s)
      (fun _ _ _ _ hstep h => h.moves (moves_of_step hstep)) (addressed_new forceHttp3 clock)
      (eachStep_trivial _ _) hrun
  obtain ⟨-, hcurrent⟩ := (haddressed.sent i q hq).requests r hr
  unfold Current BootstrapCache.Current at hcurrent
  split at hcurrent
  · rename_i ip hip
    refine ⟨fun ip' hip' => ?_, fun hname => ?_⟩
    · rw [hip] at hip'
      cases hip'
      exact hcurrent
    · rw [hip] at hname
      cases hname
  · rename_i hname
    obtain ⟨l, ⟨hl, hips⟩, hvalue, hbefore, hyoung⟩ := hcurrent
    refine ⟨fun ip hip => ?_, fun _ => ⟨hvalue ▸ hips, l, hl, hvalue, hbefore, hyoung⟩⟩
    rw [hname] at hip
    cases hip

def demoWorld : Lookups where
  ask _ msg := some (.ok { msg with
    answers := msg.queries.filterMap fun q =>
      if q.queryType = typeA then some ⟨q.name, typeA, 1, 60, [.raw [192, 0, 2, 1]]⟩ else none })
  idA := 1
  idAaaa := 2

def demoSetting : DohSetting where
  bootstrap := .new [] fun _ => .ok [[97]]
  host := "dns.test".toList
  port := 443
  statusText := renderDecimal
  toVec _ := .ok (tcpWire 7)
  fromVec := tcpFromVec

def demoClock (secs : Fin 1000) : Instant :=
  ⟨secs, 0, by omega, by omega, by decide⟩

/-- HTTP/3 is offered to the first query, and fails the second one. -/
def demoRun : List DohAction :=
  let offer := "h3=\":443\"; ma=3600".toList
  [.query tcpQuestion, .start 0, .readClient 0, .readIps 0, .readCache 0, .lookup 0 demoWorld,
    .pinIps 0, .build 0 none, .head 0 (.ok ⟨200, some offer, none⟩), .body 0 [tcpWire 0] none,
    .tick (demoClock 299), .query tcpQuestion, .start 1, .readClient 1, .readIps 1,
    .build 1 none, .head 1 (.error []), .readClient 1, .head 1 (.ok ⟨200, none, none⟩),
    .body 1 [tcpWire 0] none]

theorem addresses_demoRun : ∃ t q, ∃ r : DohRequest,
    runFrom (step demoSetting) (new false (demoClock 0)) demoRun = some t ∧
      t.queries[1]? = some q ∧ r ∈ q.requests ∧ r.client.ips ≠ [] ∧
      ∃ l : Pin (List IpAddr), (demoSetting.host, l) ∈ t.bootstrap.lookups ∧
        l.value = r.client.ips ∧ l.since ≤ r.since ∧
        r.since - l.since < secs (15 * 60) + 2 * t.slowest := by
  have hrun : ((runFrom (step demoSetting) (new false (demoClock 0)) demoRun).any
      fun t => (t.queries[1]?).any fun q => q.requests.head?.isSome) = true := by decide +kernel
  obtain ⟨t, ht, hend⟩ := (Option.any_eq_true _ _).mp hrun
  obtain ⟨q, hq, hrequest⟩ := (Option.any_eq_true _ _).mp hend
  obtain ⟨r, hr⟩ := Option.isSome_iff_exists.mp hrequest
  have hmem := List.mem_of_head? hr
  exact ⟨t, q, r, ht, hq, hmem, (addresses_of_run ht hq hmem).2 (by decide +kernel)⟩

end DohTransport

end Bulwark.Upstream
