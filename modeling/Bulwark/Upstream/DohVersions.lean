import Bulwark.Upstream.DohRuns

/-!
# The order of HTTP versions

A query asks over HTTP/3 alone where that is forced.  Elsewhere it asks over HTTP/3 only
first, if an earlier response offered it for a time that was not over yet, and after that
over HTTP/1.1 or HTTP/2, at most once each.
-/

namespace Bulwark.Upstream

open Bulwark.Foundation Bulwark.Dns

namespace DohQuery

/-- Whether each request was over HTTP/3. -/
def versions (q : DohQuery) : List Bool := q.requests.map fun r => r.client.http3

end DohQuery

/-- The version of the request that is being prepared. -/
def DohPhase.coming : DohPhase → List Bool
  | .client http3 | .ips http3 | .cache http3 | .lookup http3 => [http3]
  | .pinning http3 _ _ | .building http3 _ _ => [http3]
  | _ => []

/-- The version of the request that waits for its response. -/
def DohPhase.current : DohPhase → Option Bool
  | .sending http3 | .receiving http3 => some http3
  | _ => none

@[simp] theorem DohPhase.coming_client (http3 : Bool) :
    (DohPhase.client http3).coming = [http3] := rfl

@[simp] theorem DohPhase.coming_sending (http3 : Bool) : (DohPhase.sending http3).coming = [] := rfl

@[simp] theorem DohPhase.coming_receiving (http3 : Bool) :
    (DohPhase.receiving http3).coming = [] := rfl

@[simp] theorem DohPhase.coming_done (ending : QueryEnding) :
    (DohPhase.done ending).coming = [] := rfl

@[simp] theorem DohPhase.coming_starting : DohPhase.starting.coming = [] := rfl

def DohQuery.planned (q : DohQuery) : List Bool := q.versions ++ q.phase.coming

/-- The orders there are, the first two where HTTP/3 is forced. -/
def orders (forced : Bool) : List (List Bool) :=
  if forced then [[], [true]] else [[], [true], [false], [true, false]]

theorem prefix_mem_orders {forced : Bool} {vs ws : List Bool} (h : vs ++ ws ∈ orders forced) :
    vs ∈ orders forced := by
  unfold orders at h ⊢
  cases vs with
  | nil => cases forced <;> simp
  | cons v vs =>
      cases vs with
      | nil => cases forced <;> cases v <;> simp_all
      | cons w vs => cases forced <;> simp_all

theorem orders_again {vs : List Bool} (h : vs ∈ orders false) (hlast : vs.getLast? = some true) :
    vs ++ [false] ∈ orders false := by
  simp only [orders, Bool.false_eq_true, if_false, List.mem_cons, List.not_mem_nil, or_false] at h
  rcases h with rfl | rfl | rfl | rfl <;> simp [orders] at hlast ⊢

theorem readBody_eq_ok {error : Option Text} {chunks : List Bytes} {body body' : Bytes}
    (h : readBody error body chunks = .ok body') (hfits : body.length ≤ maxDohBody) :
    body' = body ++ chunks.flatten ∧ body'.length ≤ maxDohBody := by
  induction chunks generalizing body with
  | nil =>
      unfold readBody at h
      split at h <;> cases h
      simpa using hfits
  | cons chunk chunks ih =>
      unfold readBody at h
      split at h
      · cases h
      · have happend := ih h (by simp; omega)
        simpa [List.append_assoc] using happend

namespace DohTransport

variable {s : DohSetting} {t t' : DohTransport}

/-- What comes back to the caller: a body, decoded, with the id of the query. -/
def Accepted (s : DohSetting) (q : DohQuery) (msg : Message) : Prop :=
  matchesQuery q.message msg = true ∧ ∃ body reply, body.length ≤ maxDohBody ∧
    s.fromVec body = .ok reply ∧ msg = reply.withId q.message.metadata.id

theorem accepted_of_decodeBody {q : DohQuery} {chunks : List Bytes} {error : Option Text}
    {msg : Message} (h : decodeBody s q chunks error = .ok msg) : Accepted s q msg := by
  unfold decodeBody at h
  cases hbody : readBody error [] chunks with
  | error e =>
      rw [hbody] at h
      cases h
  | ok body =>
      cases hreply : s.fromVec body with
      | error e =>
          simp [hbody, hreply, bind, Except.bind, Except.mapError] at h
      | ok reply =>
          simp only [hbody, hreply, bind, Except.bind, Except.mapError] at h
          refine ⟨matchesQuery_of_acceptReply h, body, reply,
            (readBody_eq_ok hbody (by simp [maxDohBody])).2, hreply, ?_⟩
          simp only [acceptReply] at h
          split at h <;> cases h
          rfl

def forced (t : DohTransport) : Bool :=
  match t.h3 with
  | .forced => true
  | .auto _ => false

/-- HTTP/3 was offered when the query started. -/
def Offered (t : DohTransport) (q : DohQuery) (a : Advert) : Prop :=
  a ∈ t.adverts ∧ a.since ≤ q.started ∧ q.started < a.since + secs a.ma

/-- The request that a query sends: the message without its id. -/
def Encodes (s : DohSetting) (q : DohQuery) (body : Bytes) : Prop :=
  ∃ bytes, s.toVec q.message = .ok bytes ∧ body = 0 :: 0 :: bytes.drop 2

structure Ordered (s : DohSetting) (t : DohTransport) (q : DohQuery) : Prop where
  planned : q.planned ∈ orders t.forced
  last : ∀ http3, q.phase.current = some http3 → q.versions.getLast? = some http3
  offered : true ∈ q.planned → t.forced = true ∨ ∃ a, Offered t q a
  fresh : q.phase = .starting → q.requests = []
  body : q.phase.coming ≠ [] ∨ q.phase.current.isSome = true → Encodes s q q.body
  bodies : ∀ r ∈ q.requests, Encodes s q r.body
  answer : ∀ msg, q.phase = .done (some (.ok msg)) → q.requests ≠ [] ∧ Accepted s q msg

theorem forced_eq (hlater : t.Later t') : t'.forced = t.forced := by
  have hforced := hlater.forced
  unfold forced
  cases hold : t.h3 <;> cases hnew : t'.h3 <;> simp_all

theorem Offered.later {q : DohQuery} {a : Advert} (h : Offered t q a) (hlater : t.Later t') :
    Offered t' q a := ⟨hlater.adverts a h.1, h.2⟩

theorem Ordered.later {q : DohQuery} (h : Ordered s t q) (hlater : t.Later t') :
    Ordered s t' q where
  planned := by
    rw [forced_eq hlater]
    exact h.planned
  last := h.last
  offered hplanned := by
    rw [forced_eq hlater]
    exact (h.offered hplanned).imp_right fun ⟨a, ha⟩ => ⟨a, ha.later hlater⟩
  fresh := h.fresh
  body := h.body
  bodies := h.bodies
  answer := h.answer

theorem ordered_new (message : Message) : Ordered s t { message := message } where
  planned := by cases hforced : t.forced <;> simp [orders, DohQuery.planned, DohQuery.versions]
  last := by simp [DohPhase.current]
  offered := by simp [DohQuery.planned, DohQuery.versions]
  fresh := by simp
  body := by simp [DohPhase.current]
  bodies := by simp
  answer := by simp

theorem Ordered.goes {q : DohQuery} {phase : DohPhase} {http3 : Bool} (h : Ordered s t q)
    (hold : q.phase.coming = [http3]) (hnew : phase.coming = [http3])
    (hcurrent : phase.current = none) : Ordered s t { q with phase := phase } where
  planned := by simpa [DohQuery.planned, DohQuery.versions, hold, hnew] using h.planned
  last := by simp [hcurrent]
  offered hmem := h.offered (by
    simpa [DohQuery.planned, DohQuery.versions, hold, hnew] using hmem)
  fresh := by
    rintro rfl
    simp at hnew
  body _ := h.body (.inl (by simp [hold]))
  bodies := h.bodies
  answer := by
    rintro msg rfl
    simp at hnew

theorem Ordered.sends {q : DohQuery} {c : DohClient} {now : Int} (h : Ordered s t q)
    (hcoming : q.phase.coming = [c.http3]) :
    Ordered s t { q with
      phase := .sending c.http3
      requests := q.requests ++ [⟨c, q.body, now⟩] } where
  planned := by simpa [DohQuery.planned, DohQuery.versions, hcoming] using h.planned
  last := by simp [DohPhase.current, DohQuery.versions]
  offered hmem := h.offered (by
    simpa [DohQuery.planned, DohQuery.versions, hcoming, or_comm] using hmem)
  fresh := by simp
  body _ := h.body (.inl (by simp [hcoming]))
  bodies r hr := by
    simp only [List.mem_append, List.mem_singleton] at hr
    rcases hr with hr | rfl
    · exact h.bodies r hr
    · exact h.body (.inl (by simp [hcoming]))
  answer := by simp

theorem Ordered.ends {q : DohQuery} {ending : QueryEnding} (h : Ordered s t q)
    (hanswer : ∀ msg, ending = some (.ok msg) → q.requests ≠ [] ∧ Accepted s q msg) :
    Ordered s t { q with phase := .done ending } where
  planned := by
    have hplanned := prefix_mem_orders h.planned
    simpa [DohQuery.planned, DohQuery.versions] using hplanned
  last := by simp [DohPhase.current]
  offered hmem := h.offered (List.mem_append_left _ (by
    simpa [DohQuery.planned, DohQuery.versions] using hmem))
  fresh := by simp
  body := by simp [DohPhase.current]
  bodies := h.bodies
  answer msg hmsg := hanswer msg (by simpa using hmsg)

theorem Ordered.again {q : DohQuery} (h : Ordered s t q) (hcurrent : q.phase.current = some true)
    (hforced : t.forced = false) : Ordered s t { q with phase := .client false } where
  planned := by
    have hversions := prefix_mem_orders h.planned
    rw [hforced] at hversions ⊢
    exact orders_again hversions (h.last true hcurrent)
  last := by simp [DohPhase.current]
  offered hmem := h.offered (List.mem_append_left _ (by
    simpa [DohQuery.planned, DohQuery.versions] using hmem))
  fresh := by simp
  body _ := h.body (.inr (by simp [hcurrent]))
  bodies := h.bodies
  answer := by simp

/-! ## Adverts -/

/-- What the adverts say, and that a request over HTTP/1.1 or HTTP/2 came before each. -/
def Earned (t : DohTransport) (a : Advert) : Prop :=
  Advertises a.value a.ma ∧ a.since ≤ t.now ∧ ∃ q, t.queries[a.query]? = some q ∧
    ∃ r ∈ q.requests, r.client.http3 = false ∧ r.since ≤ a.since

structure Advertised (t : DohTransport) : Prop where
  versions : ∀ http3 p, t.client http3 = some p → p.value.http3 = http3
  adverts : ∀ a ∈ t.adverts, Earned t a
  mode : ∀ u, t.h3 = .auto (some u) → ∃ a ∈ t.adverts, u.total = a.since + secs a.ma

theorem advertised_new (forceHttp3 : Bool) (clock : Instant) :
    Advertised (.new forceHttp3 clock) where
  versions := by simp [new, client]
  adverts := by simp [new]
  mode u hu := by cases forceHttp3 <;> simp [new] at hu

theorem total_addSecs {clock u : Instant} {n : Nat} (h : clock.addSecs n = some u) :
    u.total = clock.total + secs n := by
  unfold Instant.addSecs at h
  split at h <;> cases h
  simp only [Instant.total, secs]
  omega

theorem learnAltSvc_auto {mode : H3Mode} {clock u : Instant} {decision : AltSvcH3}
    (h : learnAltSvc mode clock decision = some (.auto (some u))) :
    (∃ ma, decision = .found ma ∧ u.total = clock.total + secs ma) ∨ mode = .auto (some u) := by
  unfold learnAltSvc at h
  split at h
  · cases h
  · split at h
    · obtain ⟨u', hu', hmode⟩ := Option.map_eq_some_iff.mp h
      cases hmode
      exact .inl ⟨_, rfl, total_addSecs hu'⟩
    · cases h
    · cases h
      exact .inr rfl

theorem mem_advertsIn {i : Nat} {value : Text} {a : Advert} (h : a ∈ t.advertsIn i value) :
    ∃ ma, parseAltSvcH3 value = .found ma ∧ a = ⟨i, t.now, value, ma⟩ := by
  unfold advertsIn at h
  split at h
  · exact ⟨_, by assumption, List.mem_singleton.mp h⟩
  · cases h

/-- The mode after a response, and what it was learned from. -/
theorem Advertised.learnFrom (h : Advertised t) {i : Nat} {q : DohQuery} {http3 : Bool}
    {head : HttpHead} (hq : t.queries[i]? = some q)
    (hsent : ∃ r ∈ q.requests, r.client.http3 = http3 ∧ r.since ≤ t.now)
    (hlearn : t.learnFrom i http3 head = some t') : Advertised t' := by
  unfold DohTransport.learnFrom at hlearn
  split at hlearn
  · rename_i value hvalue
    obtain ⟨mode, hmode, rfl⟩ := learn_eq_some hlearn
    refine ⟨h.versions, fun a ha => ?_, fun u hu => ?_⟩
    · simp only [List.mem_append] at ha
      rcases ha with ha | ha
      · exact h.adverts a ha
      · obtain ⟨ma, hfound, rfl⟩ := mem_advertsIn ha
        exact ⟨parseAltSvcH3_eq_found.mp hfound, le_rfl, q, hq, hsent⟩
    · simp only at hu
      rw [hu] at hmode
      rcases learnAltSvc_auto hmode with ⟨ma, hfound, htotal⟩ | hold
      · refine ⟨⟨i, t.now, value, ma⟩, ?_, htotal⟩
        simp [advertsIn, hfound]
      · obtain ⟨a, ha, htotal⟩ := h.mode u hold
        exact ⟨a, List.mem_append_left _ ha, htotal⟩
  · cases hlearn
    exact h

theorem Earned.later {a : Advert} (h : Earned t a) (hlater : t.Later t')
    (hqueries : ∀ (i : Nat) q, t.queries[i]? = some q →
      ∃ q', t'.queries[i]? = some q' ∧ ∀ r ∈ q.requests, r ∈ q'.requests) : Earned t' a := by
  obtain ⟨hvalue, hbefore, q, hq, r, hr, hversion, hsent⟩ := h
  obtain ⟨q', hq', hrequests⟩ := hqueries _ q hq
  exact ⟨hvalue, hbefore.trans hlater.now, q', hq', r, hrequests r hr, hversion, hsent⟩

theorem requests_of_turns {i : Nat} {q q' : DohQuery} {t1 : DohTransport}
    (h : Turns s t i q t1 q') : ∀ r ∈ q.requests, r ∈ q'.requests := by
  cases h with
  | keptClient | built => exact fun r hr => List.mem_append_left _ hr
  | _ => exact fun r hr => hr

theorem requests_setQuery {i : Nat} {q q' : DohQuery} (hq : t.queries[i]? = some q)
    (hsub : ∀ r ∈ q.requests, r ∈ q'.requests) {j : Nat} {p : DohQuery}
    (hp : t.queries[j]? = some p) :
    ∃ p', (t.setQuery i q').queries[j]? = some p' ∧ ∀ r ∈ p.requests, r ∈ p'.requests := by
  simp only [setQuery, List.getElem?_set]
  split
  · rename_i heq
    subst heq
    have hlt : i < t.queries.length := (List.getElem?_eq_some_iff.mp hq).1
    rw [hq] at hp
    cases hp
    exact ⟨q', by simp [hlt], hsub⟩
  · exact ⟨p, hp, fun _ => id⟩

theorem requests_of_moves (h : Moves s t t') {i : Nat} {q : DohQuery}
    (hq : t.queries[i]? = some q) :
    ∃ q', t'.queries[i]? = some q' ∧ ∀ r ∈ q.requests, r ∈ q'.requests := by
  cases h with
  | tick | resolved | unresolved => exact ⟨q, hq, fun _ => id⟩
  | query message =>
      have hlt : i < t.queries.length := (List.getElem?_eq_some_iff.mp hq).1
      refine ⟨q, ?_, fun _ => id⟩
      simp only
      rw [List.getElem?_append_left hlt, hq]
  | @turn j p p' t1 hp hturn =>
      rw [← queries_of_turns hturn] at hp hq
      exact requests_setQuery hp (requests_of_turns hturn) hq

theorem startsWithH3_of_forced (h : t.forced = true) : t.startsWithH3 = true := by
  cases hmode : t.h3 with
  | forced => simp only [startsWithH3, hmode]
  | auto _ => simp [forced, hmode] at h

theorem startsWithH3_eq_true (h : Advertised t) (hstarts : t.startsWithH3 = true) :
    t.forced = true ∨ ∃ a ∈ t.adverts, a.since ≤ t.now ∧ t.now < a.since + secs a.ma := by
  unfold startsWithH3 at hstarts
  split at hstarts
  · rename_i hmode
    simp [forced, hmode]
  · rename_i until' hmode
    rw [hmode, h3Fresh, Option.any_eq_true] at hstarts
    obtain ⟨u, rfl, hafter⟩ := hstarts
    rw [Instant.isAfter_iff] at hafter
    obtain ⟨a, ha, htotal⟩ := h.mode u hmode
    refine .inr ⟨a, ha, (h.adverts a ha).2.1, ?_⟩
    rw [← htotal]
    exact hafter

theorem Ordered.starts {q : DohQuery} {bytes : Bytes} (h : Ordered s t q) (hmode : Advertised t)
    (hphase : q.phase = .starting) (hbytes : s.toVec q.message = .ok bytes) :
    Ordered s t { q with
      body := 0 :: 0 :: bytes.drop 2
      started := t.now
      phase := .client t.startsWithH3 } where
  planned := by
    simp only [DohQuery.planned, DohQuery.versions, h.fresh hphase]
    cases hforced : t.forced with
    | true => simp [orders, startsWithH3_of_forced hforced]
    | false => cases hstarts : t.startsWithH3 <;> simp [orders]
  last := by simp [DohPhase.current]
  offered hmem := by
    refine (startsWithH3_eq_true hmode ?_).imp_right fun ⟨a, ha, hoffered⟩ => ⟨a, ha, hoffered⟩
    simpa [DohQuery.planned, DohQuery.versions, h.fresh hphase] using hmem
  fresh := by simp
  body _ := ⟨bytes, hbytes, rfl⟩
  bodies := by simp [h.fresh hphase]
  answer := by simp

theorem Ordered.receives {q : DohQuery} {http3 : Bool} (h : Ordered s t q)
    (hphase : q.phase = .sending http3) : Ordered s t { q with phase := .receiving http3 } where
  planned := by simpa [DohQuery.planned, DohQuery.versions, hphase] using h.planned
  last version hversion := h.last version (by rw [hphase]; exact hversion)
  offered hmem := h.offered (by
    simpa [DohQuery.planned, DohQuery.versions, hphase] using hmem)
  fresh := by simp
  body _ := h.body (.inr (by simp [hphase, DohPhase.current]))
  bodies := h.bodies
  answer := by simp

theorem Ordered.request {q : DohQuery} {http3 : Bool} (h : Ordered s t q)
    (hcurrent : q.phase.current = some http3) : ∃ r ∈ q.requests, r.client.http3 = http3 :=
  List.mem_map.mp (List.mem_of_getLast? (h.last http3 hcurrent))

theorem Ordered.turn (h : Advertised t) {i : Nat} {q q' : DohQuery} {t1 : DohTransport}
    (hq : Ordered s t q) (hturn : Turns s t i q t1 q') : Ordered s t1 q' := by
  have hlater := later_of_turns hturn
  have hq' := hq.later hlater
  cases hturn with
  | fails | failsLearnt => exact hq'.ends (by simp)
  | drop => exact hq'.ends (by simp)
  | start hphase hbytes => exact hq.starts h hphase hbytes
  | @keptClient http3 p c hphase hp hread =>
      obtain ⟨rfl, -⟩ := Pin.read_eq_some hread
      exact hq'.sends (by simp [hphase, h.versions http3 p hp])
  | @built http3 ips _ hphase =>
      exact Ordered.sends (c := ⟨http3, ips, s.port⟩) hq' (by rw [hphase]; rfl)
  | noClient hphase | keptIps hphase | noIps hphase | literal hphase | cached hphase
  | notCached hphase | lookedUp hphase | pinned hphase =>
      exact hq'.goes (by rw [hphase]; rfl) rfl rfl
  | again hphase hmode =>
      have hcurrent : q.phase.current = some true := by
        rcases hphase with hphase | hphase <;> rw [hphase] <;> rfl
      exact (hq.again hcurrent (by simp [forced, hmode])).later hlater
  | head hphase => exact hq'.receives hphase
  | answered hphase hmsg =>
      refine hq'.ends fun msg heq => ?_
      cases heq
      obtain ⟨r, hr, -⟩ := hq.request (by rw [hphase]; rfl)
      exact ⟨List.ne_nil_of_mem hr, accepted_of_decodeBody hmsg⟩

theorem Advertised.of_eq (h : Advertised t) (hlater : t.Later t')
    (hqueries : ∀ (i : Nat) q, t.queries[i]? = some q →
      ∃ q', t'.queries[i]? = some q' ∧ ∀ r ∈ q.requests, r ∈ q'.requests)
    (hclient : ∀ http3 p, t'.client http3 = some p → p.value.http3 = http3)
    (hadverts : t'.adverts = t.adverts) (hmode : t'.h3 = t.h3 ∨ t'.h3 = .auto none) :
    Advertised t' where
  versions := hclient
  adverts a ha := (h.adverts a (hadverts ▸ ha)).later hlater hqueries
  mode u hu := by
    rcases hmode with hmode | hmode
    · rw [hadverts]
      exact h.mode u (hmode ▸ hu)
    · rw [hmode] at hu
      cases hu

theorem Advertised.turn (h : Advertised t) {i : Nat} {q q' : DohQuery} {t1 : DohTransport}
    (hq : t.queries[i]? = some q) (hordered : Ordered s t q) (hsent : Sent s t q)
    (hturn : Turns s t i q t1 q') : Advertised t1 := by
  have hlater := later_of_turns hturn
  have hqueries : ∀ (i : Nat) q, t.queries[i]? = some q →
      ∃ q', t1.queries[i]? = some q' ∧ ∀ r ∈ q.requests, r ∈ q'.requests := by
    intro i q hq
    exact ⟨q, by rw [queries_of_turns hturn, hq], fun _ => id⟩
  have hlearnt : ∀ {http3 head}, q.phase = .sending http3 → t.learnFrom i http3 head = some t1 →
      Advertised t1 := by
    intro http3 head hphase hlearn
    obtain ⟨r, hr, hversion⟩ := hordered.request (by rw [hphase]; rfl)
    exact h.learnFrom hq ⟨r, hr, hversion, (hsent.requests r hr).1⟩ hlearn
  cases hturn with
  | failsLearnt _ hphase hlearn => exact hlearnt hphase hlearn
  | head hphase hlearn => exact hlearnt hphase hlearn
  | again => exact h.of_eq hlater hqueries h.versions rfl (.inr rfl)
  | @built http3 ips since hphase =>
      refine h.of_eq hlater hqueries (fun version p hp => ?_) (adverts_setClient _ _)
        (.inl (h3_setClient _ _))
      rw [client_setClient] at hp
      split at hp
      · cases hp
        assumption
      · exact h.versions version p hp
  | _ => exact h.of_eq hlater hqueries h.versions rfl (.inl rfl)

structure Versioned (s : DohSetting) (t : DohTransport) : Prop where
  addressed : Addressed s t
  advertised : Advertised t
  ordered : ∀ (i : Nat) q, t.queries[i]? = some q → Ordered s t q

theorem versioned_new (forceHttp3 : Bool) (clock : Instant) :
    Versioned s (.new forceHttp3 clock) where
  addressed := addressed_new forceHttp3 clock
  advertised := advertised_new forceHttp3 clock
  ordered := by simp [new]

theorem Versioned.moves (h : Versioned s t) (hmoves : Moves s t t') : Versioned s t' where
  addressed := h.addressed.moves hmoves
  advertised := by
    have hlater := later_of_moves hmoves
    have hqueries := fun (i : Nat) q => requests_of_moves hmoves (i := i) (q := q)
    cases hmoves with
    | tick | resolved | unresolved | query =>
        exact h.advertised.of_eq hlater hqueries h.advertised.versions rfl (.inl rfl)
    | @turn i q q' t1 hq hturn =>
        have hturned := h.advertised.turn hq (h.ordered i q hq) (h.addressed.sent i q hq) hturn
        rw [← queries_of_turns hturn] at hq
        exact hturned.of_eq (later_setQuery _ _ _)
          (fun j p hp => requests_setQuery hq (requests_of_turns hturn) hp) hturned.versions rfl
          (.inl rfl)
  ordered :=
    queries_of_moves h.ordered hmoves (fun _ _ _ hlater h => h.later hlater)
      (fun message => ordered_new message)
      fun i q t1 q' hq hturn => (h.ordered i q hq).turn h.advertised hturn

theorem versioned_of_run {forceHttp3 : Bool} {clock : Instant} {as : List DohAction}
    (hrun : runFrom (step s) (.new forceHttp3 clock) as = some t) : Versioned s t :=
  runFrom_invariant (C := fun _ _ => True) (I := Versioned s)
    (fun _ _ _ _ hstep h => h.moves (moves_of_step hstep)) (versioned_new forceHttp3 clock)
    (eachStep_trivial _ _) hrun

theorem forced_of_run {forceHttp3 : Bool} {clock : Instant} {as : List DohAction}
    (hrun : runFrom (step s) (.new forceHttp3 clock) as = some t) :
    t.forced = forceHttp3 := by
  refine runFrom_invariant (C := fun _ _ => True) (I := fun t => t.forced = forceHttp3)
    (fun _ _ _ _ hstep h => ?_) ?_ (eachStep_trivial _ _) hrun
  · rw [forced_eq (later_of_moves (moves_of_step hstep)), h]
  · cases forceHttp3 <;> rfl

/-- The versions a query asks over, in this order.  Where HTTP/3 is not forced, it comes first
only if an earlier response over another version has offered it for a time not over yet. -/
theorem versions_of_run {forceHttp3 : Bool} {clock : Instant} {as : List DohAction}
    (hrun : runFrom (step s) (.new forceHttp3 clock) as = some t) {i : Nat}
    {q : DohQuery} (hq : t.queries[i]? = some q) :
    (forceHttp3 = true → q.versions = [] ∨ q.versions = [true]) ∧
      (q.versions = [] ∨ q.versions = [true] ∨ q.versions = [false] ∨
        q.versions = [true, false]) ∧
      (true ∈ q.versions → forceHttp3 = true ∨ ∃ a ∈ t.adverts, Earned t a ∧
        a.since ≤ q.started ∧ q.started < a.since + secs a.ma) := by
  have hversioned := versioned_of_run hrun
  have hforced := forced_of_run hrun
  have hordered := hversioned.ordered i q hq
  have horder := prefix_mem_orders hordered.planned
  rw [hforced] at horder
  refine ⟨?_, ?_, fun hmem => ?_⟩
  · rintro rfl
    simpa [orders] using horder
  · cases forceHttp3 with
    | true =>
        have horder : q.versions = [] ∨ q.versions = [true] := by simpa [orders] using horder
        exact horder.imp_right .inl
    | false => simpa [orders] using horder
  · have hoffered := hordered.offered (List.mem_append_left _ hmem)
    rw [hforced] at hoffered
    exact hoffered.imp_right fun ⟨a, ha, hsince, hbefore⟩ =>
      ⟨a, ha, hversioned.advertised.adverts a ha, hsince, hbefore⟩

theorem versions_demoRun : ∃ t q,
    runFrom (step demoSetting) (new false (demoClock 0)) demoRun = some t ∧
      t.queries[1]? = some q ∧ q.versions = [true, false] ∧ ∃ a ∈ t.adverts, Earned t a := by
  have hrun : ((runFrom (step demoSetting) (new false (demoClock 0)) demoRun).any
      fun t => (t.queries[1]?).any fun q => q.versions == [true, false]) = true := by
    decide +kernel
  obtain ⟨t, ht, hend⟩ := (Option.any_eq_true _ _).mp hrun
  obtain ⟨q, hq, hversions⟩ := (Option.any_eq_true _ _).mp hend
  have hversions := eq_of_beq hversions
  refine ⟨t, q, ht, hq, hversions, ?_⟩
  rcases (versions_of_run ht hq).2.2 (by simp [hversions]) with hforced | ⟨a, ha, hearned, -⟩
  · cases hforced
  · exact ⟨a, ha, hearned⟩

/-- Every request is the query's message with no id, and a result is a reply to the query. -/
theorem answers_of_run {forceHttp3 : Bool} {clock : Instant} {as : List DohAction}
    (hrun : runFrom (step s) (.new forceHttp3 clock) as = some t) {i : Nat}
    {q : DohQuery} (hq : t.queries[i]? = some q) :
    (∀ r ∈ q.requests, Encodes s q r.body) ∧
      ∀ msg, q.phase = .done (some (.ok msg)) → q.requests ≠ [] ∧ Accepted s q msg := by
  have hordered := (versioned_of_run hrun).ordered i q hq
  exact ⟨hordered.bodies, hordered.answer⟩

theorem answers_demoRun : ∃ t q msg,
    runFrom (step demoSetting) (new false (demoClock 0)) demoRun = some t ∧
      t.queries[1]? = some q ∧ q.phase = .done (some (.ok msg)) ∧ Accepted demoSetting q msg := by
  have hrun : ((runFrom (step demoSetting) (new false (demoClock 0)) demoRun).any
      fun t => (t.queries[1]?).any fun q => q.phase.answer.isSome) = true := by decide +kernel
  obtain ⟨t, ht, hend⟩ := (Option.any_eq_true _ _).mp hrun
  obtain ⟨q, hq, hanswer⟩ := (Option.any_eq_true _ _).mp hend
  obtain ⟨msg, hmsg⟩ := Option.isSome_iff_exists.mp hanswer
  have hphase := DohPhase.eq_done hmsg
  exact ⟨t, q, msg, ht, hq, hphase, ((answers_of_run ht hq).2 msg hphase).2⟩

end DohTransport

end Bulwark.Upstream
