import Bulwark.Engine.CacheRuns
import Bulwark.Engine.Handle

/-!
# What a step of the engine can do

Each step of a task changes that task and at most the cache or one pool.  Entries come
into the cache by an insert of a resolved message or out of a snapshot.
-/

namespace Bulwark.Engine

open Bulwark.Foundation Bulwark.Dns Bulwark.Filter Bulwark.Upstream

/-! ## The cache -/

section

variable {c : DnsCache} {now : Nat}

theorem entry_of_hit {key : QueryKey} {id : UInt16} {hit : CacheHit} {c' : DnsCache}
    (h : c.get now key id = (some hit, c')) :
    ∃ entry ttl, c.peek key = some entry ∧ hit.response = entry.stored.respond id ttl ∧
      hit.verdict = entry.verdict := by
  cases henabled : c.cfg.enabled with
  | false =>
      rw [get_of_disabled henabled] at h
      cases h
  | true =>
      rcases get_cases henabled now key id with
        ⟨-, heq⟩ | ⟨entry, hpeek, ⟨-, heq⟩ | ⟨-, -, heq⟩ | ⟨-, -, heq⟩⟩
      · rw [heq] at h
        cases h
      · rw [heq] at h
        cases h
        exact ⟨entry, _, hpeek, rfl, rfl⟩
      · rw [heq] at h
        cases h
        exact ⟨entry, _, hpeek, rfl, rfl⟩
      · rw [heq] at h
        cases h

/-- The records of a snapshot, up to the first one that is rejected. -/
def readEntries : Nat → Bytes → List ParsedEntry
  | 0, _ => []
  | n + 1, data =>
      match readEntry data with
      | none => []
      | some (parsed, data) => parsed :: readEntries n data

def snapshotRecords (data : Bytes) : List ParsedEntry :=
  match readHead data with
  | none => []
  | some (_, count, data) => readEntries count data

theorem wire_of_readEntry {data rest : Bytes} {parsed : ParsedEntry}
    (h : readEntry data = some (parsed, rest)) :
    ∃ bytes offsets rcode answers, parsed.stored = .wire bytes offsets rcode answers ∧
      wireMatchesKey bytes parsed.key = true ∧ bytes.length ≤ maxSnapshotWireLen := by
  simp only [readEntry, Option.bind_eq_bind, Option.bind_eq_some_iff, Option.some.injEq,
    Prod.exists, Prod.mk.injEq] at h
  obtain ⟨key, _, -, _, _, -, _, _, -, rcode, _, -, answers, _, -, wire, _, hwire, offsets, _, -,
    rfl, -⟩ := h
  refine ⟨wire, offsets, _, answers, rfl, ?_⟩
  simp only [readWire, Option.bind_eq_bind, Option.bind_eq_some_iff, Prod.exists] at hwire
  obtain ⟨len, _, -, hwire⟩ := hwire
  split at hwire
  · cases hwire
  rename_i hlen
  simp only [Option.bind_eq_some_iff, Prod.exists] at hwire
  obtain ⟨bytes, _, htake, hwire⟩ := hwire
  split at hwire
  · cases hwire
  · rename_i hmatch
    cases hwire
    rw [takeBytes] at htake
    split at htake
    · cases htake
      refine ⟨by simpa using hmatch, ?_⟩
      rw [List.length_take]
      omega
    · cases htake

theorem readEntry_of_mem {n : Nat} {data : Bytes} {parsed : ParsedEntry}
    (h : parsed ∈ readEntries n data) : ∃ data rest, readEntry data = some (parsed, rest) := by
  induction n generalizing data with
  | zero => cases h
  | succ n ih =>
      rw [readEntries] at h
      cases hread : readEntry data with
      | none =>
          rw [hread] at h
          cases h
      | some found =>
          rw [hread] at h
          rcases List.mem_cons.mp h with rfl | hmem
          · exact ⟨data, found.2, hread⟩
          · exact ih hmem

theorem wire_of_snapshotRecords {data : Bytes} {parsed : ParsedEntry}
    (h : parsed ∈ snapshotRecords data) :
    ∃ bytes offsets rcode answers, parsed.stored = .wire bytes offsets rcode answers ∧
      wireMatchesKey bytes parsed.key = true ∧ bytes.length ≤ maxSnapshotWireLen := by
  rw [snapshotRecords] at h
  split at h
  · cases h
  · obtain ⟨data', rest, hread⟩ := readEntry_of_mem h
    exact wire_of_readEntry hread

theorem peek_of_restore {elapsed : Nat} {parsed : ParsedEntry} {k : QueryKey} {e : Entry}
    (h : (c.restore now elapsed parsed).peek k = some e) :
    c.peek k = some e ∨ k = parsed.key ∧ e.stored = parsed.stored ∧ e.verdict = none := by
  rw [DnsCache.restore] at h
  dsimp only at h
  split at h
  · exact .inl h
  split at h
  · exact .inl h
  by_cases hk : k = parsed.key
  · subst hk
    rw [peek_setShard, if_pos rfl, Lru.peek_put_self] at h
    cases h
    exact .inr ⟨rfl, rfl, rfl⟩
  · exact .inl (peek_of_setShard (fun he => Lru.peek_of_put hk he) h)

theorem peek_of_restoreAll {elapsed n : Nat} {data : Bytes} {k : QueryKey} {e : Entry}
    (h : (c.restoreAll now elapsed n data).peek k = some e) :
    c.peek k = some e ∨ ∃ parsed ∈ readEntries n data,
      k = parsed.key ∧ e.stored = parsed.stored ∧ e.verdict = none := by
  induction n generalizing c data with
  | zero => exact .inl h
  | succ n ih =>
      rw [DnsCache.restoreAll] at h
      rw [readEntries]
      cases hread : readEntry data with
      | none =>
          rw [hread] at h
          exact .inl h
      | some found =>
          obtain ⟨parsed, rest⟩ := found
          rw [hread] at h
          rcases ih h with hold | ⟨other, hmem, hother⟩
          · rcases peek_of_restore hold with hold | hnew
            · exact .inl hold
            · exact .inr ⟨parsed, List.mem_cons_self, hnew⟩
          · exact .inr ⟨other, List.mem_cons_of_mem _ hmem, hother⟩

theorem peek_of_importSnapshot {unix : UInt64} {data : Bytes} {k : QueryKey} {e : Entry}
    (h : (c.importSnapshot now unix data).peek k = some e) :
    c.peek k = some e ∨ ∃ parsed ∈ snapshotRecords data,
      k = parsed.key ∧ e.stored = parsed.stored ∧ e.verdict = none := by
  rw [DnsCache.importSnapshot] at h
  rw [snapshotRecords]
  cases hhead : readHead data with
  | none =>
      rw [hhead] at h
      exact .inl h
  | some found =>
      rw [hhead] at h
      exact peek_of_restoreAll h

end

/-! ## What a call replies and stores -/

section

variable {env : EngineEnv}

def Call.verdict (call : Call env.rx) (fields : QueryFields) : Option Verdict :=
  call.state.filter.check (trimEndMatches '.' fields.nameLower) (env.rtypeLabel fields.rtype)
    call.client.info

def Call.newLog (call : Call env.rx) (fields : QueryFields) : LogBuilder :=
  .new call.client fields.qnameDisplay (env.rtypeLabel fields.rtype)

inductive Call.Begins (call : Call env.rx) : Begin → Prop where
  | refused {msg : Message} (hparts : call.ingress.intoParts = .error msg) :
      call.Begins (.reply ⟨.message (errorResponse msg rcodeFormErr), none⟩)
  | undecodable {fields : QueryFields} {lazy : Lazy}
      (hparts : call.ingress.intoParts = .ok (fields, lazy)) (hnone : lazy.intoMessage = none) :
      call.Begins (.reply (Call.undecodable env fields.id (call.newLog fields)))
  | blocked {fields : QueryFields} {lazy : Lazy} {query : Message} {info : MatchInfo}
      (hparts : call.ingress.intoParts = .ok (fields, lazy))
      (hquery : lazy.intoMessage = some query)
      (hverdict : call.verdict fields = some (.block info)) :
      call.Begins (.reply (finalize env (call.state.block query) (.blocked info.rule info.listId)
        (call.newLog fields)))
  | rewritten {fields : QueryFields} {lazy : Lazy} {query : Message} {info : MatchInfo}
      {data : RewriteData} {msg : Message} (hparts : call.ingress.intoParts = .ok (fields, lazy))
      (hquery : lazy.intoMessage = some query)
      (hverdict : call.verdict fields = some (.rewrite info data))
      (hrewrite : rewriteResponse env.parseName query data call.state.blockedTtl = .done msg) :
      call.Begins (.reply (finalize env msg (.rewritten info.rule info.listId)
        (call.newLog fields)))
  | resolveCname {fields : QueryFields} {lazy : Lazy} {query : Message} {info : MatchInfo}
      {data : RewriteData} {msg : Message} {target : Name}
      (hparts : call.ingress.intoParts = .ok (fields, lazy))
      (hquery : lazy.intoMessage = some query)
      (hverdict : call.verdict fields = some (.rewrite info data))
      (hrewrite : rewriteResponse env.parseName query data call.state.blockedTtl =
        .resolveCname msg target) :
      call.Begins (.resolveCname msg target fields.rtype (.rewritten info.rule info.listId)
        (call.newLog fields))
  | unfiltered {fields : QueryFields} {lazy : Lazy}
      (hparts : call.ingress.intoParts = .ok (fields, lazy)) (hoff : call.filtering = false) :
      call.Begins (.lookup fields lazy (call.newLog fields))
  | allowed {fields : QueryFields} {lazy : Lazy} {rule : Option MatchInfo}
      (hparts : call.ingress.intoParts = .ok (fields, lazy)) (hon : call.filtering = true)
      (hverdict : call.verdict fields = some (.allow rule)) :
      call.Begins (.lookup fields lazy { call.newLog fields with allowlisted := rule.isSome })

theorem Call.begins_of_begin {call : Call env.rx} {b : Begin} (h : call.begin = some b) :
    call.Begins b := by
  rw [Call.begin] at h
  split at h
  · rename_i msg hparts
    cases h
    exact .refused hparts
  · rename_i fields lazy hparts
    dsimp only at h
    split at h
    · rename_i hon
      simp only [Option.bind_eq_bind, Option.bind_eq_some_iff] at h
      obtain ⟨verdict, hverdict, h⟩ := h
      cases verdict with
      | block info =>
          dsimp only at h
          split at h
          · rename_i hnone
            cases h
            exact .undecodable hparts hnone
          · rename_i query hquery
            cases h
            exact .blocked hparts hquery hverdict
      | rewrite info data =>
          dsimp only at h
          split at h
          · rename_i hnone
            cases h
            exact .undecodable hparts hnone
          · rename_i query hquery
            split at h
            · rename_i msg hrewrite
              cases h
              exact .rewritten hparts hquery hverdict hrewrite
            · rename_i msg target hrewrite
              cases h
              exact .resolveCname hparts hquery hverdict hrewrite
      | allow rule =>
          cases h
          exact .allowed hparts hon hverdict
    · rename_i hoff
      cases h
      exact .unfiltered hparts (by simpa using hoff)

theorem Call.parts_of_lookup {call : Call env.rx} {fields : QueryFields} {lazy : Lazy}
    {log : LogBuilder} (h : call.begin = some (.lookup fields lazy log)) :
    call.ingress.intoParts = .ok (fields, lazy) := by
  cases Call.begins_of_begin h with
  | unfiltered hparts hoff => exact hparts
  | allowed hparts hon hverdict => exact hparts

def hitReply (env : EngineEnv) (log : LogBuilder) : CachedResponse → Reply
  | .wire bytes rcode answers => finalizeWire env bytes rcode answers .cached log
  | .message msg => finalize env msg .cached log

/-- Every way a hit can go; a refresh has the key of the query and its message. -/
inductive Call.Hits (call : Call env.rx) (fields : QueryFields) (lazy : Lazy) (log : LogBuilder)
    (hit : CacheHit) : Reply → Option (Refresh env.rx) → Prop where
  | undecodable {info : MatchInfo} (hblock : call.hitBlock hit = some (some info))
      (hnone : lazy.intoMessage = none) :
      call.Hits fields lazy log hit (Call.undecodable env fields.id log) none
  | blocked {info : MatchInfo} {query : Message} {refresh : Option (Refresh env.rx)}
      (hblock : call.hitBlock hit = some (some info)) (hquery : lazy.intoMessage = some query)
      (hrefresh : ∀ r, refresh = some r → r = call.refresh (.msg query) fields.key) :
      call.Hits fields lazy log hit
        (finalize env (call.state.block query) (.blocked info.rule info.listId) log) refresh
  | served {refresh : Option (Refresh env.rx)} (hclean : call.hitBlock hit = some none)
      (hrefresh : ∀ r, refresh = some r → r = call.refresh lazy fields.key) :
      call.Hits fields lazy log hit (hitReply env log hit.response) refresh

theorem Call.hits_of_onHit {call : Call env.rx} {fields : QueryFields} {lazy : Lazy}
    {log : LogBuilder} {hit : CacheHit} {reply : Reply} {refresh : Option (Refresh env.rx)}
    (h : call.onHit fields lazy log hit = some (reply, refresh)) :
    call.Hits fields lazy log hit reply refresh := by
  have hspawn : ∀ lazy r,
      (if hit.freshness.requiresRefresh = true then some (call.refresh lazy fields.key)
        else none) = some r → r = call.refresh lazy fields.key := by
    intro lazy r hr
    split at hr
    · exact (Option.some.inj hr).symm
    · cases hr
  simp only [Call.onHit, Option.bind_eq_bind, Option.bind_eq_some_iff] at h
  obtain ⟨block, hblock, h⟩ := h
  cases block with
  | some info =>
      dsimp only at h
      split at h
      · rename_i hnone
        cases h
        exact .undecodable hblock hnone
      · rename_i query hquery
        cases h
        exact .blocked hblock hquery (hspawn _)
  | none =>
      have hserved := @Call.Hits.served env call fields lazy log hit refresh hblock
      dsimp only at h
      split at h
      · rename_i bytes rcode answers hresponse
        cases h
        rw [hresponse] at hserved
        exact hserved (hspawn _)
      · rename_i msg hresponse
        cases h
        rw [hresponse] at hserved
        exact hserved (hspawn _)

/-- A verdict is stored only where verdicts hold for every client, and as it was found. -/
def Judged (filter : LiveFilter env.rx) (client : ClientInfo) (memoize : Bool)
    (answers : List Record) (verdict : Option ResponseVerdict) : Prop :=
  verdict = none ∨ (memoize = true ∧ ∃ info, filterAnswers filter client answers = some info ∧
    verdict = some (verdictOf info filter.contentHash))

/-- The reply when an answer is passed on, encoded where the cache has encoded it. -/
def forwardReply (env : EngineEnv) (resolved : Resolved) (log : LogBuilder)
    (served : Option InsertedWire) : Reply :=
  match served with
  | some wire =>
      finalizeWire env wire.bytes wire.rcode wire.answers (.forwarded resolved.upstream) log
  | none => finalize env resolved.message (.forwarded resolved.upstream) log

inductive Call.Resolves (call : Call env.rx) (key : QueryKey) (query : Message)
    (log : LogBuilder) (now : Nat) (cache : DnsCache) :
    ResolveResult → Reply → DnsCache → Prop where
  | failed (e : UpstreamError) :
      call.Resolves key query log now cache (.error e)
        (finalize env (errorResponse query rcodeServFail) .error log) cache
  | blocked {resolved : Resolved} {info : MatchInfo} {verdict : Option ResponseVerdict}
      (hfiltering : call.filtering = true)
      (hblock : filterAnswers call.state.filter call.client.info resolved.message.answers =
        some (some info))
      (hverdict : Judged call.state.filter call.client.info call.state.memoize
        resolved.message.answers verdict) :
      call.Resolves key query log now cache (.ok resolved)
        (finalize env (call.state.block query) (.blocked info.rule info.listId)
          { log with upstreamRttMs := some resolved.rttMs })
        (cache.insertInner env.cache now key resolved.message verdict).2
  | forwarded {resolved : Resolved} {verdict : Option ResponseVerdict}
      (hclean : call.filtering = true →
        filterAnswers call.state.filter call.client.info resolved.message.answers = some none)
      (hverdict : Judged call.state.filter call.client.info call.state.memoize
        resolved.message.answers verdict) :
      call.Resolves key query log now cache (.ok resolved)
        (forwardReply env resolved { log with upstreamRttMs := some resolved.rttMs }
          (cache.insertInner env.cache now key resolved.message verdict).1)
        (cache.insertInner env.cache now key resolved.message verdict).2

theorem Call.judged_cleanVerdict {call : Call env.rx} {answers : List Record}
    {verdict : Option ResponseVerdict}
    (hclean : call.filtering = true →
      filterAnswers call.state.filter call.client.info answers = some none)
    (h : call.cleanVerdict answers = some verdict) :
    Judged call.state.filter call.client.info call.state.memoize answers verdict := by
  rw [Call.cleanVerdict] at h
  split at h
  · rename_i hmemoize
    refine .inr ⟨hmemoize, ?_⟩
    split at h
    · rename_i hfiltering
      cases h
      exact ⟨none, hclean hfiltering, rfl⟩
    · obtain ⟨info, hinfo, rfl⟩ := Option.map_eq_some_iff.mp h
      exact ⟨info, hinfo, rfl⟩
  · cases h
    exact .inl rfl

theorem Call.resolves_of_onResolved {call : Call env.rx} {key : QueryKey} {query : Message}
    {log : LogBuilder} {result : ResolveResult} {now : Nat} {cache cache' : DnsCache}
    {reply : Reply} (h : call.onResolved key query log result now cache = some (reply, cache')) :
    call.Resolves key query log now cache result reply cache' := by
  cases result with
  | error e =>
      cases h
      exact .failed e
  | ok resolved =>
      simp only [Call.onResolved, Option.bind_eq_bind, Option.bind_eq_some_iff] at h
      obtain ⟨thisBlock, hblock, h⟩ := h
      rw [Call.thisBlock] at hblock
      cases thisBlock with
      | some info =>
          have hfiltering : call.filtering = true := by
            by_contra hoff
            rw [if_neg hoff] at hblock
            cases hblock
          rw [if_pos hfiltering] at hblock
          cases h
          refine .blocked hfiltering hblock ?_
          split
          · rename_i hmemoize
            exact .inr ⟨hmemoize, some info, hblock, rfl⟩
          · exact .inl rfl
      | none =>
          simp only [Option.bind_eq_some_iff] at h
          obtain ⟨verdict, hverdict, h⟩ := h
          have hclean : call.filtering = true → filterAnswers call.state.filter call.client.info
              resolved.message.answers = some none := by
            intro hfiltering
            rwa [if_pos hfiltering] at hblock
          have hforward := @Call.Resolves.forwarded env call key query log now cache resolved
            verdict hclean (Call.judged_cleanVerdict hclean hverdict)
          rw [forwardReply.eq_def] at hforward
          split at h
          · rename_i wire hserved
            cases h
            rw [hserved] at hforward
            exact hforward
          · rename_i hserved
            cases h
            rw [hserved] at hforward
            exact hforward

theorem Refresh.finish_cases {r : Refresh env.rx} {result : ResolveResult} {now : Nat}
    {cache cache' : DnsCache} (h : r.finish env result now cache = some cache') :
    cache' = cache ∨ ∃ resolved verdict, result = .ok resolved ∧
      Judged r.filter placeholder r.memoize resolved.message.answers verdict ∧
      cache' = (cache.insertInner env.cache now r.key resolved.message verdict).2 := by
  cases result with
  | error e =>
      cases h
      exact .inl rfl
  | ok resolved =>
      simp only [Refresh.finish, Option.bind_eq_bind, Option.bind_eq_some_iff,
        Option.some.injEq] at h
      obtain ⟨verdict, hverdict, rfl⟩ := h
      refine .inr ⟨resolved, verdict, rfl, ?_, rfl⟩
      rw [Refresh.verdict] at hverdict
      split at hverdict
      · rename_i hmemoize
        obtain ⟨info, hinfo, rfl⟩ := Option.map_eq_some_iff.mp hverdict
        exact .inr ⟨hmemoize, info, hinfo, rfl⟩
      · cases hverdict
        exact .inl rfl

end

/-! ## Steps -/

namespace World

variable {env : EngineEnv}

inductive Steps (w : World env) : EngineAction env.rx → World env → Prop where
  | load {t : Nat} {raw : Bytes} {ip : IpAddr} {ingress : Ingress} (hfree : w.tasks t = none)
      (hparse : Ingress.parse raw = some ingress) :
      w.Steps (.load t raw ip) (w.setTask t (.loaded ⟨raw, ingress, hparse, ip, w.state⟩))
  | reply {t u : Nat} {id : UInt16} {call : Call env.rx} {reply : Reply}
      (htask : w.tasks t = some (.loaded call)) (hbegin : call.begin = some (.reply reply)) :
      w.Steps (.look t u id) (w.setTask t (.replied call reply))
  | rewrite {t u : Nat} {id : UInt16} {call : Call env.rx} {msg : Message} {target : Name}
      {rtype : UInt16} {action : QueryAction} {log : LogBuilder} {p : Pool}
      (htask : w.tasks t = some (.loaded call))
      (hbegin : call.begin = some (.resolveCname msg target rtype action log))
      (hcall : (w.pools call.state.pool).step (.call t (cnameQuery id target rtype)) = some p) :
      w.Steps (.look t u id)
        ((w.setPool call.state.pool p).setTask t (.rewriting call msg action log))
  | hit {t u : Nat} {id : UInt16} {call : Call env.rx} {fields : QueryFields} {lazy : Lazy}
      {log : LogBuilder} {hit : CacheHit} {cache : DnsCache} {reply : Reply}
      (htask : w.tasks t = some (.loaded call))
      (hbegin : call.begin = some (.lookup fields lazy log))
      (hget : w.cache.get w.now fields.key fields.id = (some hit, cache))
      (hhit : call.onHit fields lazy log hit = some (reply, none)) :
      w.Steps (.look t u id) ((w.setCache cache).setTask t (.replied call reply))
  | hitStale {t u : Nat} {id : UInt16} {call : Call env.rx} {fields : QueryFields} {lazy : Lazy}
      {log : LogBuilder} {hit : CacheHit} {cache : DnsCache} {reply : Reply}
      {refresh : Refresh env.rx} (htask : w.tasks t = some (.loaded call))
      (hbegin : call.begin = some (.lookup fields lazy log))
      (hget : w.cache.get w.now fields.key fields.id = (some hit, cache))
      (hhit : call.onHit fields lazy log hit = some (reply, some refresh)) (hother : u ≠ t)
      (hfree : w.tasks u = none) :
      w.Steps (.look t u id)
        (((w.setCache cache).setTask t (.replied call reply)).setTask u (.spawned refresh))
  | undecodable {t u : Nat} {id : UInt16} {call : Call env.rx} {fields : QueryFields} {lazy : Lazy}
      {log : LogBuilder} {cache : DnsCache} (htask : w.tasks t = some (.loaded call))
      (hbegin : call.begin = some (.lookup fields lazy log))
      (hget : w.cache.get w.now fields.key fields.id = (none, cache))
      (hnone : lazy.intoMessage = none) :
      w.Steps (.look t u id) ((w.setCache cache).setTask t
        (.replied call (Call.undecodable env fields.id log)))
  | forward {t u : Nat} {id : UInt16} {call : Call env.rx} {fields : QueryFields} {lazy : Lazy}
      {log : LogBuilder} {cache : DnsCache} {query : Message} {p : Pool}
      (htask : w.tasks t = some (.loaded call))
      (hbegin : call.begin = some (.lookup fields lazy log))
      (hget : w.cache.get w.now fields.key fields.id = (none, cache))
      (hquery : lazy.intoMessage = some query)
      (hcall : (w.pools call.state.pool).step (.call t query) = some p) :
      w.Steps (.look t u id) (((w.setCache cache).setPool call.state.pool p).setTask t
        (.forwarding call fields query log))
  | rewritten {t : Nat} {call : Call env.rx} {msg : Message} {action : QueryAction}
      {log : LogBuilder} {result : ResolveResult}
      (htask : w.tasks t = some (.rewriting call msg action log))
      (hresult : w.returned call.state.pool t = some result) :
      w.Steps (.resume t) (w.setTask t
        (.replied call (finalize env (appendResolved msg result) action log)))
  | answered {t : Nat} {call : Call env.rx} {fields : QueryFields} {query : Message}
      {log : LogBuilder} {result : ResolveResult} {reply : Reply} {cache : DnsCache}
      (htask : w.tasks t = some (.forwarding call fields query log))
      (hresult : w.returned call.state.pool t = some result)
      (hreply : call.onResolved fields.key query log result w.now w.cache = some (reply, cache)) :
      w.Steps (.resume t) ((w.setCache cache).setTask t (.replied call reply))
  | refreshed {t : Nat} {r : Refresh env.rx} {query : Message} {result : ResolveResult}
      {cache : DnsCache} (htask : w.tasks t = some (.refreshing r query))
      (hresult : w.returned r.pool t = some result)
      (hfinish : r.finish env result w.now w.cache = some cache) :
      w.Steps (.resume t) ((w.setCache cache).setTask t .ended)
  | abandon {t : Nat} {r : Refresh env.rx} (htask : w.tasks t = some (.spawned r)) :
      w.Steps (.startRefresh t) (w.setTask t .ended)
  | refresh {t : Nat} {r : Refresh env.rx} {query : Message} {p : Pool}
      (htask : w.tasks t = some (.spawned r)) (hquery : r.lazy.intoMessage = some query)
      (hcall : (w.pools r.pool).step (.call t query) = some p) :
      w.Steps (.startRefresh t) ((w.setPool r.pool p).setTask t (.refreshing r query))
  | pool {i : Nat} {a : PoolAction} {p : Pool} (hcall : isCall a = false)
      (hstep : (w.pools i).step a = some p) : w.Steps (.pool i a) (w.setPool i p)
  | swapState (state : EngineState env.rx) :
      w.Steps (.swapState state) { w with state := state }
  | tick (nanos : Nat) : w.Steps (.tick nanos) { w with now := w.now + nanos }
  | shrink {a : EngineAction env.rx} {cache : DnsCache}
      (hkept : ∀ k e, cache.peek k = some e → w.cache.peek k = some e) :
      w.Steps a (w.setCache cache)
  | importSnapshot (unix : UInt64) (data : Bytes) :
      w.Steps (.importSnapshot unix data) (w.setCache (w.cache.importSnapshot w.now unix data))

theorem steps_of_look {w v : World env} {t u : Nat} {id : UInt16} {call : Call env.rx}
    {b : Begin} (htask : w.tasks t = some (.loaded call)) (hbegin : call.begin = some b)
    (h : w.look t u id call b = some v) : w.Steps (.look t u id) v := by
  cases b with
  | reply reply =>
      cases h
      exact .reply htask hbegin
  | resolveCname msg target rtype action log =>
      simp only [look, ask, Option.bind_eq_bind, Option.bind_eq_some_iff, Option.some.injEq] at h
      obtain ⟨p, hp, rfl⟩ := h
      exact .rewrite htask hbegin hp
  | lookup fields lazy log =>
      rw [look] at h
      cases hget : w.cache.get w.now fields.key fields.id with
      | mk found cache =>
          rw [hget] at h
          cases found with
          | some hit =>
              simp only [Option.bind_eq_bind, Option.bind_eq_some_iff, Prod.exists] at h
              obtain ⟨reply, refresh, hhit, h⟩ := h
              cases refresh with
              | none =>
                  cases h
                  exact .hit htask hbegin hget hhit
              | some r =>
                  rw [spawn] at h
                  split at h
                  · rename_i hfree
                    cases h
                    refine .hitStale htask hbegin hget hhit hfree.1 ?_
                    have hsame := hfree.2
                    change Function.update w.tasks t _ u = none at hsame
                    rwa [Function.update_of_ne hfree.1] at hsame
                  · cases h
          | none =>
              dsimp only at h
              cases hquery : lazy.intoMessage with
              | none =>
                  rw [hquery] at h
                  cases h
                  exact .undecodable htask hbegin hget hquery
              | some query =>
                  rw [hquery] at h
                  simp only [ask, Option.bind_eq_bind, Option.bind_eq_some_iff,
                    Option.some.injEq] at h
                  obtain ⟨p, hp, rfl⟩ := h
                  exact .forward htask hbegin hget hquery hp

theorem steps_of_resume {w v : World env} {t : Nat} {task : Task env}
    (htask : w.tasks t = some task) (h : w.resume t task = some v) : w.Steps (.resume t) v := by
  cases task with
  | rewriting call msg action log =>
      simp only [resume, Option.bind_eq_bind, Option.bind_eq_some_iff, Option.some.injEq] at h
      obtain ⟨result, hresult, rfl⟩ := h
      exact .rewritten htask hresult
  | forwarding call fields query log =>
      simp only [resume, Option.bind_eq_bind, Option.bind_eq_some_iff, Option.some.injEq,
        Prod.exists] at h
      obtain ⟨result, hresult, reply, cache, hreply, rfl⟩ := h
      exact .answered htask hresult hreply
  | refreshing r query =>
      simp only [resume, Option.bind_eq_bind, Option.bind_eq_some_iff, Option.some.injEq] at h
      obtain ⟨result, hresult, cache, hfinish, rfl⟩ := h
      exact .refreshed htask hresult hfinish
  | _ => cases h

theorem steps_of_step {w v : World env} {a : EngineAction env.rx} (h : w.step a = some v) :
    w.Steps a v := by
  cases a with
  | load t raw ip =>
      rw [step] at h
      split at h
      · cases h
      · rename_i hfree
        split at h
        · rename_i ingress hparse
          cases h
          exact .load hfree hparse
        · cases h
  | look t u id =>
      rw [step] at h
      split at h
      · rename_i call htask
        obtain ⟨b, hbegin, h⟩ := Option.bind_eq_some_iff.mp h
        exact steps_of_look htask hbegin h
      · cases h
  | resume t =>
      rw [step] at h
      obtain ⟨task, htask, h⟩ := Option.bind_eq_some_iff.mp h
      exact steps_of_resume htask h
  | startRefresh t =>
      rw [step] at h
      split at h
      · rename_i r htask
        cases hquery : r.lazy.intoMessage with
        | none =>
            rw [hquery] at h
            cases h
            exact .abandon htask
        | some query =>
            rw [hquery] at h
            simp only [ask, Option.bind_eq_bind, Option.bind_eq_some_iff, Option.some.injEq] at h
            obtain ⟨p, hp, rfl⟩ := h
            exact .refresh htask hquery hp
      · cases h
  | pool i a =>
      rw [step] at h
      split at h
      · cases h
      · rename_i hcall
        obtain ⟨p, hp, rfl⟩ := Option.map_eq_some_iff.mp h
        exact .pool (by simpa using hcall) hp
  | swapState state =>
      cases h
      exact .swapState state
  | tick nanos =>
      cases h
      exact .tick nanos
  | clear =>
      cases h
      refine .shrink fun k e he => ?_
      rw [peek_clear] at he
      cases he
  | reconfigure enabled capacity minTtl maxTtl stale =>
      cases h
      exact .shrink fun k e he => peek_of_reconfigure he
  | setStoreSummaries store =>
      cases h
      exact .shrink fun k e he => he
  | importSnapshot unix data =>
      cases h
      exact .importSnapshot unix data

theorem tasks_setTask {w : World env} {t t' : Nat} {task task' : Task env} :
    (w.setTask t task).tasks t' = some task' ↔
      (t' = t ∧ task' = task) ∨ (t' ≠ t ∧ w.tasks t' = some task') :=
  update_eq_some

end World

end Bulwark.Engine
