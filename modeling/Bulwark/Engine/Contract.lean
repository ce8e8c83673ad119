import Bulwark.Upstream.PoolSteps
import Bulwark.Engine.HandleSteps

/-!
# What a run keeps about responses

Responses reach a client from a pool, from the cache, from a rewrite or a block.  A
contract says what is kept about the messages in flight and in the cache and what follows
for the response that is returned; every run under the conditions of a contract keeps it.
-/

namespace Bulwark.Engine

open Bulwark.Foundation Bulwark.Dns Bulwark.Filter Bulwark.Upstream

/-! ## Callers keep their query -/

theorem caller_of_steps {p q : Pool} {a : PoolAction} (h : p.Steps a q) {c : Nat}
    {query : Message} {phase : Phase} (hcaller : p.callers c = some ⟨query, phase⟩) :
    ∃ phase', q.callers c = some ⟨query, phase'⟩ := by
  -- a step of a caller leaves its query and the other callers alone
  have hset : ∀ {c' query' phase'}, (∀ old, p.callers c' = some old → old.query = query') →
      ∃ phase'', (p.setPhase c' query' phase').callers c = some ⟨query, phase''⟩ := by
    intro c' query' phase' hold
    by_cases hc : c = c'
    · have hquery : query = query' := hold _ (hc ▸ hcaller)
      exact ⟨phase', callers_setPhase.mpr (.inl ⟨hc, by rw [hquery]⟩)⟩
    · exact ⟨phase, callers_setPhase.mpr (.inr ⟨hc, hcaller⟩)⟩
  have hown : ∀ {c' query' phase'}, p.callers c' = some ⟨query', phase'⟩ →
      ∀ old, p.callers c' = some old → old.query = query' := by
    intro c' query' phase' hc' old hold
    rw [hc'] at hold
    cases hold
    rfl
  have hnew : ∀ {c' query'}, p.callers c' = none →
      ∀ old, p.callers c' = some old → old.query = query' := by
    intro c' query' hc' old hold
    rw [hc'] at hold
    cases hold
  cases h with
  | refuse hfree hwhy => exact hset (hnew hfree)
  | call hfree => exact hset (hnew hfree)
  | join hc hkey hfound => exact hset (hown hc)
  | miss hc => exact hset (hown hc)
  | build hc => exact hset (hown hc)
  | joinLate hc hkey hfound => exact hset (hown hc)
  | insert hc hkey hfree => exact hset (hown hc)
  | poll hc hrun => exact ⟨phase, hcaller⟩
  | resume hc hrun hresult => exact hset (hown hc)
  | leave hc =>
      rw [callers_release]
      exact hset (hown hc)
  | cancel hc hlive =>
      rw [callers_release]
      exact hset (hown hc)
  | drive ha hdrives => exact ⟨phase, by rw [hdrives.callers, hcaller]⟩

theorem caller_of_call {p q : Pool} {c : Nat} {query : Message}
    (h : p.step (.call c query) = some q) : ∃ phase, q.callers c = some ⟨query, phase⟩ := by
  cases Pool.steps_of_step h with
  | refuse hfree hwhy => exact ⟨_, Function.update_self _ _ _⟩
  | call hfree => exact ⟨_, Function.update_self _ _ _⟩
  | drive ha hdrives =>
      rcases ha with ⟨_, _, ⟨⟩⟩ | ⟨_, _, ⟨⟩⟩ | ⟨_, ⟨⟩⟩

/-! ## Contracts -/

def CachedResponse.toResponse : CachedResponse → EngineResponse
  | .wire bytes _ _ => .wire bytes
  | .message msg => .message msg

theorem response_hitReply (env : EngineEnv) (log : LogBuilder) (response : CachedResponse) :
    (hitReply env log response).response = response.toResponse := by
  cases response <;> rfl

/-- What is asked of upstreams, kept in pools and in the cache, and returned. -/
structure Contract (env : EngineEnv) where
  asked : Message → Prop
  callOk : Call env.rx → Prop
  poolOk : Pool → Prop
  good : QueryKey → Message → Prop
  carried : UInt16 → QueryKey → EngineResponse → Prop
  served : Call env.rx → EngineResponse → Prop

section

variable {env : EngineEnv}

/-- The parts of a contract fit together. -/
structure Contract.Lawful (C : Contract env) : Prop where
  asked_call : ∀ {call : Call env.rx} {fields lazy query}, C.callOk call →
    call.ingress.intoParts = .ok (fields, lazy) → lazy.intoMessage = some query → C.asked query
  pool_call : ∀ {p q : Pool} {c query}, C.poolOk p → C.asked query →
    p.step (.call c query) = some q → C.poolOk q
  pool_returned : ∀ {p : Pool} {c query resolved key}, C.poolOk p →
    p.callers c = some ⟨query, .returned (.ok resolved)⟩ →
    QueryKey.fromMessage query = some key →
    resolved.message.metadata.id = query.metadata.id ∧ C.good key resolved.message
  stored : ∀ {key msg}, C.good key msg → ∀ cfg id ttl,
    C.carried id key ((env.cache.store cfg msg).respond id ttl).toResponse
  passed : ∀ {key msg}, C.good key msg → C.carried msg.metadata.id key (.message msg) ∧
    ∀ bytes, env.cache.codec.encode msg = some bytes →
      C.carried msg.metadata.id key (.wire bytes)
  serves : ∀ {call : Call env.rx} {fields lazy response}, C.callOk call →
    call.ingress.intoParts = .ok (fields, lazy) → C.carried fields.id fields.key response →
    C.served call response
  shell : ∀ {call : Call env.rx} {fields lazy query msg}, C.callOk call →
    call.ingress.intoParts = .ok (fields, lazy) → lazy.intoMessage = some query →
    Shells query msg → C.served call (.message msg)
  undecodable : ∀ {call : Call env.rx} {fields lazy}, C.callOk call →
    call.ingress.intoParts = .ok (fields, lazy) → lazy.intoMessage = none →
    C.served call (.message (formerr fields.id))
  refused : ∀ {call : Call env.rx} {msg}, call.ingress.intoParts = .error msg →
    C.served call (.message (errorResponse msg rcodeFormErr))

def Contract.Allows (C : Contract env) (w : World env) : EngineAction env.rx → Prop
  | .load _ raw _ => ∀ call : Call env.rx, call.raw = raw → C.callOk call
  | .look t _ id => ∀ call msg target rtype action log, w.tasks t = some (.loaded call) →
      call.begin = some (.resolveCname msg target rtype action log) →
      C.asked (cnameQuery id target rtype)
  | .pool i a => ∀ p, World.isCall a = false → (w.pools i).step a = some p → C.poolOk (w.pools i) →
      C.poolOk p
  | .importSnapshot _ data => ∀ parsed ∈ snapshotRecords data,
      toAsciiLowercase parsed.key.name = parsed.key.name → ∀ id ttl,
        C.carried id parsed.key (parsed.stored.respond id ttl).toResponse
  | _ => True

theorem Call.parsed_fast {call : Call env.rx} {bytes : Bytes} {parsed : ParsedQuery}
    (h : call.ingress = .fast bytes parsed) :
    bytes = call.raw ∧ parseQuery bytes = some parsed := by
  have hparsed := call.parsed
  rw [h, Ingress.parse] at hparsed
  split at hparsed
  · rename_i p hp
    cases hparsed
    exact ⟨rfl, hp⟩
  · rw [Option.map_eq_some_iff] at hparsed
    obtain ⟨_, -, ⟨⟩⟩ := hparsed

theorem Call.parsed_full {call : Call env.rx} {msg : Message} (h : call.ingress = .full msg) :
    decode call.raw = some msg := by
  have hparsed := call.parsed
  rw [h, Ingress.parse] at hparsed
  split at hparsed
  · cases hparsed
  · rw [Option.map_eq_some_iff] at hparsed
    obtain ⟨msg', hdecode, ⟨⟩⟩ := hparsed
    exact hdecode

theorem Call.decode_of_parts {call : Call env.rx} {fields : QueryFields} {lazy : Lazy}
    {query : Message} (hparts : call.ingress.intoParts = .ok (fields, lazy))
    (hquery : lazy.intoMessage = some query) : decode call.raw = some query := by
  rcases Ingress.intoParts_ok hparts with
    ⟨bytes, parsed, hingress, -, rfl⟩ | ⟨msg, hingress, -, rfl⟩
  · rw [← (Call.parsed_fast hingress).1]
    exact hquery
  · cases hquery
    exact Call.parsed_full hingress

theorem Call.key_of_parts {call : Call env.rx} {fields : QueryFields} {lazy : Lazy}
    {query : Message} (hparts : call.ingress.intoParts = .ok (fields, lazy))
    (hquery : lazy.intoMessage = some query) :
    query.metadata.id = fields.id ∧ QueryKey.fromMessage query = some fields.key := by
  have hfull : ∀ {msg fields}, QueryFields.fromMessage msg = some fields →
      msg.metadata.id = fields.id ∧ QueryKey.fromMessage msg = some fields.key := by
    intro msg fields h
    rw [QueryFields.fromMessage, Option.map_eq_some_iff] at h
    obtain ⟨q, hq, rfl⟩ := h
    exact ⟨rfl, by rw [QueryKey.fromMessage, hq]; rfl⟩
  rcases Ingress.intoParts_ok hparts with
    ⟨bytes, parsed, hingress, rfl, rfl⟩ | ⟨msg, hingress, hfields, rfl⟩
  · obtain ⟨layout, hboth⟩ := bothRead_of_accepted (Call.parsed_fast hingress).2 hquery
    exact hfull hboth.fields
  · cases hquery
    exact hfull hfields

theorem Call.lower_key {call : Call env.rx} {fields : QueryFields} {lazy : Lazy}
    (hparts : call.ingress.intoParts = .ok (fields, lazy)) :
    toAsciiLowercase fields.key.name = fields.key.name := by
  rcases Ingress.intoParts_ok hparts with ⟨bytes, parsed, -, rfl, -⟩ | ⟨msg, -, hfields, -⟩
  · exact toAsciiLowercase_idem _
  · rw [QueryFields.fromMessage, Option.map_eq_some_iff] at hfields
    obtain ⟨q, -, rfl⟩ := hfields
    exact toAsciiLowercase_idem _

/-! ## Keeping a contract -/

/-- What a contract says of a task; a task that waits is a caller with its query. -/
def Contract.TaskOk (C : Contract env) (pools : Nat → Pool) (t : Nat) : Task env → Prop
  | .loaded call => C.callOk call
  | .rewriting call msg _ _ => C.callOk call ∧ ∃ fields lazy query,
      call.ingress.intoParts = .ok (fields, lazy) ∧ lazy.intoMessage = some query ∧
      Shells query msg
  | .forwarding call fields query _ => C.callOk call ∧
      (∃ lazy, call.ingress.intoParts = .ok (fields, lazy) ∧ lazy.intoMessage = some query) ∧
      ∃ phase, (pools call.state.pool).callers t = some ⟨query, phase⟩
  | .replied call reply => C.served call reply.response
  | .spawned r => ∀ query, r.lazy.intoMessage = some query →
      C.asked query ∧ QueryKey.fromMessage query = some r.key
  | .refreshing r query => QueryKey.fromMessage query = some r.key ∧
      ∃ phase, (pools r.pool).callers t = some ⟨query, phase⟩
  | .ended => True

structure Contract.Keeps (C : Contract env) (w : World env) : Prop where
  pools : ∀ i, C.poolOk (w.pools i)
  entries : ∀ key e, w.cache.peek key = some e → toAsciiLowercase key.name = key.name →
    ∀ id ttl, C.carried id key (e.stored.respond id ttl).toResponse
  tasks : ∀ t task, w.tasks t = some task → C.TaskOk w.pools t task

variable {C : Contract env} {w : World env}

theorem Contract.TaskOk.mono {pools pools' : Nat → Pool}
    (hpools : ∀ i c query phase, (pools i).callers c = some ⟨query, phase⟩ →
      ∃ phase', (pools' i).callers c = some ⟨query, phase'⟩) {t : Nat} {task : Task env}
    (h : C.TaskOk pools t task) : C.TaskOk pools' t task := by
  cases task with
  | forwarding call fields query log =>
      obtain ⟨hcall, hparts, phase, hphase⟩ := h
      exact ⟨hcall, hparts, hpools _ _ _ _ hphase⟩
  | refreshing r query =>
      obtain ⟨hkey, phase, hphase⟩ := h
      exact ⟨hkey, hpools _ _ _ _ hphase⟩
  | _ => exact h

namespace Contract.Keeps

theorem setTask (h : C.Keeps w) {t : Nat} {task : Task env} (htask : C.TaskOk w.pools t task) :
    C.Keeps (w.setTask t task) where
  pools := h.pools
  entries := h.entries
  tasks t' task' hother := by
    rcases World.tasks_setTask.mp hother with ⟨rfl, rfl⟩ | ⟨-, hother⟩
    · exact htask
    · exact h.tasks t' task' hother

theorem setCache (h : C.Keeps w) {cache : DnsCache}
    (hentries : ∀ key e, cache.peek key = some e → w.cache.peek key = some e ∨
      (toAsciiLowercase key.name = key.name →
        ∀ id ttl, C.carried id key (e.stored.respond id ttl).toResponse)) :
    C.Keeps (w.setCache cache) where
  pools := h.pools
  entries key e he hlower := by
    rcases hentries key e he with hold | hnew
    · exact h.entries key e hold hlower
    · exact hnew hlower
  tasks := h.tasks

theorem get (h : C.Keeps w) {key : QueryKey} {id : UInt16} {hit : Option CacheHit}
    {cache : DnsCache} (hget : w.cache.get w.now key id = (hit, cache)) :
    C.Keeps (w.setCache cache) := by
  refine h.setCache fun k e he => .inl ?_
  have hcache : cache = (w.cache.get w.now key id).2 := by rw [hget]
  rw [hcache] at he
  exact peek_of_get he

theorem insert (hC : C.Lawful) (h : C.Keeps w) {key : QueryKey} {msg : Message}
    (hgood : C.good key msg) (verdict : Option ResponseVerdict) :
    C.Keeps (w.setCache (w.cache.insertInner env.cache w.now key msg verdict).2) := by
  refine h.setCache fun k e he => ?_
  rcases peek_of_insertInner he with ⟨ttl, rfl, -, rfl⟩ | ⟨hold, -⟩
  · exact .inr fun _ id ttl' => hC.stored hgood _ id ttl'
  · exact .inl hold

theorem setPool (h : C.Keeps w) {i : Nat} {p : Pool} {a : PoolAction}
    (hstep : (w.pools i).step a = some p) (hok : C.poolOk p) : C.Keeps (w.setPool i p) := by
  refine ⟨fun j => ?_, h.entries, fun t task htask => ?_⟩
  · change C.poolOk (Function.update w.pools i p j)
    rw [Function.update_apply]
    split
    · exact hok
    · exact h.pools j
  · refine Contract.TaskOk.mono (fun j c query phase hcaller => ?_) (h.tasks t task htask)
    change ∃ phase', (Function.update w.pools i p j).callers c = some ⟨query, phase'⟩
    rw [Function.update_apply]
    split
    · rename_i hj
      subst hj
      exact caller_of_steps (Pool.steps_of_step hstep) hcaller
    · exact ⟨phase, hcaller⟩

theorem ask (hC : C.Lawful) (h : C.Keeps w) {i t : Nat} {query : Message} {p : Pool}
    (hcall : (w.pools i).step (.call t query) = some p) (hasked : C.asked query) :
    C.Keeps (w.setPool i p) ∧
      ∃ phase, ((w.setPool i p).pools i).callers t = some ⟨query, phase⟩ := by
  refine ⟨h.setPool hcall (hC.pool_call (h.pools i) hasked hcall), ?_⟩
  obtain ⟨phase, hphase⟩ := caller_of_call hcall
  refine ⟨phase, ?_⟩
  change (Function.update w.pools i p i).callers t = _
  rw [Function.update_self, hphase]

end Contract.Keeps

theorem Contract.good_of_returned (hC : C.Lawful) (h : C.Keeps w) {i t : Nat} {query : Message}
    {phase : Phase} {key : QueryKey} {resolved : Resolved}
    (hcaller : (w.pools i).callers t = some ⟨query, phase⟩)
    (hkey : QueryKey.fromMessage query = some key)
    (hreturned : w.returned i t = some (.ok resolved)) :
    resolved.message.metadata.id = query.metadata.id ∧ C.good key resolved.message := by
  rw [World.returned, hcaller] at hreturned
  cases phase with
  | returned result =>
      cases hreturned
      exact hC.pool_returned (h.pools i) hcaller hkey
  | _ => cases hreturned

theorem encode_of_inserted {cache : DnsCache} {now : Nat} {key : QueryKey} {msg : Message}
    {verdict : Option ResponseVerdict} {wire : InsertedWire}
    (h : (cache.insertInner env.cache now key msg verdict).1 = some wire) :
    env.cache.codec.encode msg = some wire.bytes := by
  rw [DnsCache.insertInner] at h
  split at h
  · cases h
  split at h
  · cases h
  · change ((env.cache.store cache.cfg msg).served) = some wire at h
    rw [CacheEnv.store] at h
    cases hencode : env.cache.codec.encode msg with
    | none =>
        rw [hencode] at h
        cases h
    | some bytes =>
        rw [hencode] at h
        dsimp only at h
        split at h
        · cases h
          rfl
        · cases h

theorem Contract.served_forward (hC : C.Lawful) {call : Call env.rx} {fields : QueryFields}
    {lazy : Lazy} (hcall : C.callOk call) (hparts : call.ingress.intoParts = .ok (fields, lazy))
    {resolved : Resolved} (hid : resolved.message.metadata.id = fields.id)
    (hgood : C.good fields.key resolved.message) (log : LogBuilder) {cache : DnsCache} {now : Nat}
    {verdict : Option ResponseVerdict} :
    C.served call (forwardReply env resolved log
      (cache.insertInner env.cache now fields.key resolved.message verdict).1).response := by
  obtain ⟨hmessage, hwire⟩ := hC.passed hgood
  rw [hid] at hmessage hwire
  rw [forwardReply.eq_def]
  split
  · rename_i wire hserved
    exact hC.serves hcall hparts (hwire _ (encode_of_inserted hserved))
  · exact hC.serves hcall hparts hmessage

theorem Contract.served_begin (hC : C.Lawful) {call : Call env.rx} (hcall : C.callOk call)
    {reply : Reply} (h : call.begin = some (.reply reply)) : C.served call reply.response := by
  cases Call.begins_of_begin h with
  | refused hparts => exact hC.refused hparts
  | undecodable hparts hnone => exact hC.undecodable hcall hparts hnone
  | blocked hparts hquery hverdict =>
      exact hC.shell hcall hparts hquery (shells_blockResponse _ _ _ _ _ _)
  | rewritten hparts hquery hverdict hrewrite =>
      rename_i fields lazy query info data msg
      have hshells := shells_rewriteResponse env.parseName query data call.state.blockedTtl
      rw [hrewrite] at hshells
      exact hC.shell hcall hparts hquery hshells

theorem Contract.served_hit (hC : C.Lawful) (h : C.Keeps w) {call : Call env.rx}
    (hcall : C.callOk call) {fields : QueryFields} {lazy : Lazy} {log : LogBuilder}
    {hit : CacheHit} {cache : DnsCache} {reply : Reply} {refresh : Option (Refresh env.rx)}
    (hbegin : call.begin = some (.lookup fields lazy log))
    (hget : w.cache.get w.now fields.key fields.id = (some hit, cache))
    (hhit : call.onHit fields lazy log hit = some (reply, refresh)) :
    C.served call reply.response := by
  have hparts := Call.parts_of_lookup hbegin
  cases Call.hits_of_onHit hhit with
  | undecodable hblock hnone => exact hC.undecodable hcall hparts hnone
  | blocked hblock hquery hrefresh =>
      exact hC.shell hcall hparts hquery (shells_blockResponse _ _ _ _ _ _)
  | served hclean hrefresh =>
      obtain ⟨entry, ttl, hpeek, hresponse, -⟩ := entry_of_hit hget
      rw [response_hitReply, hresponse]
      exact hC.serves hcall hparts
        (h.entries fields.key entry hpeek (Call.lower_key hparts) fields.id ttl)

theorem Contract.Keeps.step (hC : C.Lawful) (h : C.Keeps w) {v : World env}
    {a : EngineAction env.rx} (hallow : C.Allows w a) (hstep : w.Steps a v) : C.Keeps v := by
  cases hstep with
  | load hfree hparse => exact h.setTask (hallow _ rfl)
  | reply htask hbegin => exact h.setTask (Contract.served_begin hC (h.tasks _ _ htask) hbegin)
  | rewrite htask hbegin hcall =>
      rename_i t u id call msg target rtype action log p
      have hok := h.tasks _ _ htask
      obtain ⟨hpool, -⟩ := h.ask hC hcall (hallow _ _ _ _ _ _ htask hbegin)
      refine hpool.setTask ⟨hok, ?_⟩
      cases Call.begins_of_begin hbegin with
      | resolveCname hparts hquery hverdict hrewrite =>
          rename_i fields lazy query info data
          have hshells := shells_rewriteResponse env.parseName query data call.state.blockedTtl
          rw [hrewrite] at hshells
          exact ⟨fields, lazy, query, hparts, hquery, hshells⟩
  | hit htask hbegin hget hhit =>
      exact (h.get hget).setTask (Contract.served_hit hC h (h.tasks _ _ htask) hbegin hget hhit)
  | hitStale htask hbegin hget hhit hother hfree =>
      rename_i t u id call fields lazy log hit cache reply refresh
      have hok := h.tasks _ _ htask
      have hparts := Call.parts_of_lookup hbegin
      have hreplied := @Contract.Keeps.setTask _ C _ (h.get hget) t (.replied call reply)
        (Contract.served_hit hC h hok hbegin hget hhit)
      refine hreplied.setTask fun query hquery => ?_
      -- the refresh has the query of the call
      have hsame : refresh.key = fields.key ∧ lazy.intoMessage = some query := by
        cases Call.hits_of_onHit hhit with
        | blocked hblock hquery' hrefresh =>
            rw [hrefresh refresh rfl] at hquery ⊢
            cases hquery
            exact ⟨rfl, hquery'⟩
        | served hclean hrefresh =>
            rw [hrefresh refresh rfl] at hquery ⊢
            exact ⟨rfl, hquery⟩
      rw [hsame.1]
      exact ⟨hC.asked_call hok hparts hsame.2, (Call.key_of_parts hparts hsame.2).2⟩
  | undecodable htask hbegin hget hnone =>
      exact (h.get hget).setTask
        (hC.undecodable (h.tasks _ _ htask) (Call.parts_of_lookup hbegin) hnone)
  | forward htask hbegin hget hquery hcall =>
      have hok := h.tasks _ _ htask
      have hparts := Call.parts_of_lookup hbegin
      obtain ⟨hpool, hcaller⟩ := (h.get hget).ask hC hcall (hC.asked_call hok hparts hquery)
      exact hpool.setTask ⟨hok, ⟨_, hparts, hquery⟩, hcaller⟩
  | rewritten htask hresult =>
      rename_i t call msg action log result
      obtain ⟨hok, fields, lazy, query, hparts, hquery, hshells⟩ := h.tasks _ _ htask
      have happended : Shells query (appendResolved msg result) := by
        cases result <;> exact ⟨hshells.id, hshells.opCode, hshells.recursionDesired,
          hshells.queries, hshells.edns⟩
      exact h.setTask (hC.shell hok hparts hquery happended)
  | answered htask hresult hreply =>
      obtain ⟨hok, ⟨lazy, hparts, hquery⟩, phase, hcaller⟩ := h.tasks _ _ htask
      obtain ⟨hid, hkey⟩ := Call.key_of_parts hparts hquery
      cases Call.resolves_of_onResolved hreply with
      | failed e =>
          exact (h.setCache fun _ _ he => .inl he).setTask
            (hC.shell hok hparts hquery (shells_errorResponse _ _))
      | blocked hfiltering hblock hverdict =>
          obtain ⟨-, hgood⟩ := Contract.good_of_returned hC h hcaller hkey hresult
          exact (h.insert hC hgood _).setTask
            (hC.shell hok hparts hquery (shells_blockResponse _ _ _ _ _ _))
      | forwarded hclean hverdict =>
          obtain ⟨hsame, hgood⟩ := Contract.good_of_returned hC h hcaller hkey hresult
          exact (h.insert hC hgood _).setTask
            (Contract.served_forward hC hok hparts (hsame.trans hid) hgood _)
  | refreshed htask hresult hfinish =>
      obtain ⟨hkey, phase, hcaller⟩ := h.tasks _ _ htask
      rcases Refresh.finish_cases hfinish with rfl | ⟨resolved, verdict, rfl, -, rfl⟩
      · exact (h.setCache fun _ _ he => .inl he).setTask trivial
      · obtain ⟨-, hgood⟩ := Contract.good_of_returned hC h hcaller hkey hresult
        exact (h.insert hC hgood verdict).setTask trivial
  | abandon htask => exact h.setTask trivial
  | refresh htask hquery hcall =>
      obtain ⟨hasked, hkey⟩ := h.tasks _ _ htask _ hquery
      obtain ⟨hpool, hcaller⟩ := h.ask hC hcall hasked
      exact hpool.setTask ⟨hkey, hcaller⟩
  | pool hcall hstep => exact h.setPool hstep (hallow _ hcall hstep (h.pools _))
  | swapState state => exact ⟨h.pools, h.entries, h.tasks⟩
  | tick nanos => exact ⟨h.pools, h.entries, h.tasks⟩
  | shrink hkept => exact h.setCache fun k e he => .inl (hkept k e he)
  | importSnapshot unix data =>
      refine h.setCache fun k e he => ?_
      rcases peek_of_importSnapshot he with hold | ⟨parsed, hmem, rfl, hstored, -⟩
      · exact .inl hold
      · rw [hstored]
        exact .inr (hallow parsed hmem)

/-- A contract holds in every state of a run whose steps all meet its conditions. -/
theorem Contract.keeps_of_run (hC : C.Lawful) {state : EngineState env.rx} {cache : DnsCache}
    {upstreams : Nat → List UpstreamEntry} {as : List (EngineAction env.rx)} {w : World env}
    (hempty : ∀ k, cache.peek k = none) (hpools : ∀ ups, C.poolOk (.new ups))
    (hallow : EachStep World.step C.Allows (World.new state cache upstreams) as)
    (hrun : runFrom World.step (World.new state cache upstreams) as = some w) : C.Keeps w := by
  refine runFrom_invariant (fun t a u hc ha hkeeps => hkeeps.step hC hc (World.steps_of_step ha))
    ?_ hallow hrun
  refine ⟨fun i => hpools _, fun key e he => ?_, fun t task htask => by cases htask⟩
  have hnone : cache.peek key = some e := he
  rw [hempty] at hnone
  cases hnone

end

end Bulwark.Engine
