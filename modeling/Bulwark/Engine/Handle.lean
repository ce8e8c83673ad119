import Bulwark.Upstream.Pool
import Bulwark.Engine.Block
import Bulwark.Engine.Query
import Bulwark.Engine.ResponseFilter
import Bulwark.Engine.Snapshot

/-!
# The engine

`Engine::handle` and `Engine::spawn_refresh` as steps of tasks that share the cache, the
pools and the state.  A task runs from one point where others can get in between to the
next: after the state is loaded, after the cache is asked, while a pool resolves.
-/

namespace Bulwark.Engine

open Bulwark.Foundation Bulwark.Dns Bulwark.Filter Bulwark.Upstream

/-! ## State -/

/-- What is outside: the encoder, the regex engine, name parsing and the texts of the library. -/
structure EngineEnv where
  cache : CacheEnv
  rx : RegexEngine
  parseName : Text → Option Name
  typeText : UInt16 → Text
  rcodeText : UInt16 → Text

/-- The hot-swappable part of the configuration; pools are known by number. -/
structure EngineState (rx : RegexEngine) where
  filter : LiveFilter rx
  pool : Nat
  clients : ClientMatcher
  filteringEnabled : Bool
  blockingMode : BlockingMode
  blockV4 : Ipv4Addr
  blockV6 : Ipv6Addr
  blockedTtl : UInt32

def EngineState.block {env : EngineEnv} (state : EngineState env.rx) (query : Message) : Message :=
  blockResponse env.parseName query state.blockingMode state.blockV4 state.blockV6 state.blockedTtl

/-! ## Labels -/

def commonTypes : List (UInt16 × Text) :=
  [(typeA, "A".toList), (typeAaaa, "AAAA".toList), (typeCname, "CNAME".toList),
    (typeMx, "MX".toList), (2, "NS".toList), (typePtr, "PTR".toList), (typeSoa, "SOA".toList),
    (33, "SRV".toList), (typeTxt, "TXT".toList), (257, "CAA".toList),
    (typeHttps, "HTTPS".toList), (typeSvcb, "SVCB".toList), (43, "DS".toList),
    (48, "DNSKEY".toList), (35, "NAPTR".toList), (52, "TLSA".toList)]

def EngineEnv.rtypeLabel (env : EngineEnv) (rtype : UInt16) : Text :=
  (commonTypes.lookup rtype).getD (env.typeText rtype)

def commonRcodes : List (UInt16 × Text) :=
  [(rcodeNoError, "NOERROR".toList), (rcodeFormErr, "FORMERR".toList),
    (rcodeServFail, "SERVFAIL".toList), (rcodeNxDomain, "NXDOMAIN".toList), (4, "NOTIMP".toList),
    (rcodeRefused, "REFUSED".toList)]

def EngineEnv.rcodeLabel (env : EngineEnv) (code : UInt16) : Text :=
  (commonRcodes.lookup code).getD (env.rcodeText code)

/-! ## Replies -/

inductive EngineResponse where
  | message (msg : Message)
  | wire (bytes : Bytes)
  deriving DecidableEq, Repr

structure LogBuilder where
  clientIp : IpAddr
  question : Text
  qtype : Text
  allowlisted : Bool
  upstreamRttMs : Option ℚ
  deriving DecidableEq

def LogBuilder.new (client : ResolvedClient) (question qtype : Text) : LogBuilder :=
  ⟨client.ip, question, qtype, false, none⟩

/-- What `record` is called with. -/
structure LogRecord where
  action : QueryAction
  log : LogBuilder
  rcode : Text
  answers : List Text
  deriving DecidableEq

def LogRecord.entry (r : LogRecord) (timeMs : Int) (elapsedMs : ℚ) (logOn : Bool) :
    QueryLogEntry where
  id := 0
  timeMs := timeMs
  clientIp := renderIpAddr r.log.clientIp
  question := r.log.question
  qtype := r.log.qtype
  action := r.action
  allowlisted := r.log.allowlisted
  rcode := r.rcode
  answers := if logOn then r.answers else []
  elapsedMs := elapsedMs

/-- A query without a question is answered and not recorded. -/
structure Reply where
  response : EngineResponse
  record : Option LogRecord
  deriving DecidableEq

def Reply.action (reply : Reply) : Option QueryAction := reply.record.map LogRecord.action

def finalize (env : EngineEnv) (msg : Message) (action : QueryAction) (log : LogBuilder) : Reply :=
  ⟨.message msg, some ⟨action, log, env.rcodeLabel msg.metadata.responseCode,
    msg.answers.map env.cache.summarize⟩⟩

def finalizeWire (env : EngineEnv) (bytes : Bytes) (rcode : UInt16) (answers : List Text)
    (action : QueryAction) (log : LogBuilder) : Reply :=
  ⟨.wire bytes, some ⟨action, log, env.rcodeLabel rcode, answers⟩⟩

/-! ## A call -/

/-- A query as it came in, and the state `handle` has loaded for it. -/
structure Call (rx : RegexEngine) where
  raw : Bytes
  ingress : Ingress
  parsed : Ingress.parse raw = some ingress
  clientIp : IpAddr
  state : EngineState rx

section

variable {env : EngineEnv}

def Call.client (call : Call env.rx) : ResolvedClient := call.state.clients.identify call.clientIp

def Call.filtering (call : Call env.rx) : Bool :=
  call.state.filteringEnabled && call.client.filteringEnabled

/-- Verdicts are kept where they hold for every client. -/
def EngineState.memoize (state : EngineState env.rx) : Bool :=
  state.filteringEnabled && !state.filter.hasClientDependentRules

/-- How far a call gets before the cache is asked. -/
inductive Begin where
  | reply (reply : Reply)
  | resolveCname (msg : Message) (target : Name) (rtype : UInt16) (action : QueryAction)
      (log : LogBuilder)
  | lookup (fields : QueryFields) (lazy : Lazy) (log : LogBuilder)

def Call.undecodable (env : EngineEnv) (id : UInt16) (log : LogBuilder) : Reply :=
  finalize env (formerr id) .error log

def Call.begin (call : Call env.rx) : Option Begin :=
  match call.ingress.intoParts with
  | .error msg => some (.reply ⟨.message (errorResponse msg rcodeFormErr), none⟩)
  | .ok (fields, lazy) =>
      let rtypeStr := env.rtypeLabel fields.rtype
      let domain := trimEndMatches '.' fields.nameLower
      let log := LogBuilder.new call.client fields.qnameDisplay rtypeStr
      if call.filtering then do
        match ← call.state.filter.check domain rtypeStr call.client.info with
        | .block info =>
            match lazy.intoMessage with
            | none => some (.reply (Call.undecodable env fields.id log))
            | some query =>
                some (.reply (finalize env (call.state.block query)
                  (.blocked info.rule info.listId) log))
        | .rewrite info data =>
            match lazy.intoMessage with
            | none => some (.reply (Call.undecodable env fields.id log))
            | some query =>
                let action := QueryAction.rewritten info.rule info.listId
                match rewriteResponse env.parseName query data call.state.blockedTtl with
                | .done msg => some (.reply (finalize env msg action log))
                | .resolveCname msg target =>
                    some (.resolveCname msg target fields.rtype action log)
        | .allow rule => some (.lookup fields lazy { log with allowlisted := rule.isSome })
      else some (.lookup fields lazy log)

def cachedAnswers : CachedResponse → List Record
  | .wire bytes _ _ => ((decode bytes).map Message.answers).getD []
  | .message msg => msg.answers

structure Refresh (rx : RegexEngine) where
  filter : LiveFilter rx
  pool : Nat
  memoize : Bool
  lazy : Lazy
  key : QueryKey

def Call.refresh (call : Call env.rx) (lazy : Lazy) (key : QueryKey) : Refresh env.rx where
  filter := call.state.filter
  pool := call.state.pool
  memoize := call.state.memoize
  lazy := lazy
  key := key

def Outcome.info : Outcome → Option MatchInfo
  | .clean => none
  | .block info => some info

/-- The block a hit leads to; a stored verdict is trusted under its own filter only. -/
def Call.hitBlock (call : Call env.rx) (hit : CacheHit) : Option (Option MatchInfo) :=
  if call.filtering then
    match hit.verdict with
    | some v =>
        if !call.state.filter.hasClientDependentRules &&
            v.generation = call.state.filter.contentHash then some v.outcome.info
        else filterAnswers call.state.filter call.client.info (cachedAnswers hit.response)
    | none => filterAnswers call.state.filter call.client.info (cachedAnswers hit.response)
  else some none

def HitFreshness.requiresRefresh : HitFreshness → Bool
  | .fresh => false
  | .stale => true

def Call.onHit (call : Call env.rx) (fields : QueryFields) (lazy : Lazy) (log : LogBuilder)
    (hit : CacheHit) : Option (Reply × Option (Refresh env.rx)) := do
  let refresh (lazy : Lazy) :=
    if hit.freshness.requiresRefresh then some (call.refresh lazy fields.key) else none
  match ← call.hitBlock hit with
  | some info =>
      match lazy.intoMessage with
      | none => some (Call.undecodable env fields.id log, none)
      | some query =>
          some (finalize env (call.state.block query) (.blocked info.rule info.listId) log,
            refresh (.msg query))
  | none =>
      match hit.response with
      | .wire bytes rcode answers =>
          some (finalizeWire env bytes rcode answers .cached log, refresh lazy)
      | .message msg => some (finalize env msg .cached log, refresh lazy)

def verdictOf (info : Option MatchInfo) (generation : Nat) : ResponseVerdict :=
  match info with
  | some info => ⟨generation, .block info⟩
  | none => ⟨generation, .clean⟩

/-- `this_block`: what the filter says to the answers of an upstream. -/
def Call.thisBlock (call : Call env.rx) (answers : List Record) : Option (Option MatchInfo) :=
  if call.filtering then filterAnswers call.state.filter call.client.info answers else some none

/-- The verdict stored with answers that are passed on; a client without filtering has them
judged all the same. -/
def Call.cleanVerdict (call : Call env.rx) (answers : List Record) :
    Option (Option ResponseVerdict) :=
  let generation := call.state.filter.contentHash
  if call.state.memoize then
    if call.filtering then some (some (verdictOf none generation))
    else
      (filterAnswers call.state.filter call.client.info answers).map fun info =>
        some (verdictOf info generation)
  else some none

def Call.onResolved (call : Call env.rx) (key : QueryKey) (query : Message) (log : LogBuilder)
    (result : ResolveResult) (now : Nat) (cache : DnsCache) : Option (Reply × DnsCache) :=
  match result with
  | .error _ => some (finalize env (errorResponse query rcodeServFail) .error log, cache)
  | .ok resolved => do
      let log := { log with upstreamRttMs := some resolved.rttMs }
      match ← call.thisBlock resolved.message.answers with
      | some info =>
          let generation := call.state.filter.contentHash
          let verdict :=
            if call.state.memoize then some (verdictOf (some info) generation) else none
          let (_, cache) := cache.insertInner env.cache now key resolved.message verdict
          some (finalize env (call.state.block query) (.blocked info.rule info.listId) log, cache)
      | none => do
          let verdict ← call.cleanVerdict resolved.message.answers
          let (served, cache) := cache.insertInner env.cache now key resolved.message verdict
          let action := QueryAction.forwarded resolved.upstream
          match served with
          | some wire =>
              some (finalizeWire env wire.bytes wire.rcode wire.answers action log, cache)
          | none => some (finalize env resolved.message action log, cache)

def cnameQuery (id : UInt16) (target : Name) (rtype : UInt16) : Message where
  metadata := ⟨id, false, 0, false, false, true, false, false, false, 0⟩
  queries := [⟨target, rtype, classIn⟩]
  answers := []
  authorities := []
  additionals := []
  edns := none

/-- What was found for the target of a rewrite is appended; errors are ignored. -/
def appendResolved (msg : Message) : ResolveResult → Message
  | .ok resolved => { msg with answers := msg.answers ++ resolved.message.answers }
  | .error _ => msg

/-- The client a refresh filters for. -/
def placeholder : ClientInfo := ⟨some (.v4 0), none, []⟩

def Refresh.verdict (r : Refresh env.rx) (answers : List Record) :
    Option (Option ResponseVerdict) :=
  if r.memoize then
    (filterAnswers r.filter placeholder answers).map fun info =>
      some (verdictOf info r.filter.contentHash)
  else some none

def Refresh.finish (env : EngineEnv) (r : Refresh env.rx) (result : ResolveResult) (now : Nat)
    (cache : DnsCache) : Option DnsCache :=
  match result with
  | .error _ => some cache
  | .ok resolved => do
      let verdict ← r.verdict resolved.message.answers
      some (cache.insertInner env.cache now r.key resolved.message verdict).2

end

/-! ## Tasks -/

inductive Task (env : EngineEnv) where
  | loaded (call : Call env.rx)
  | rewriting (call : Call env.rx) (msg : Message) (action : QueryAction) (log : LogBuilder)
  | forwarding (call : Call env.rx) (fields : QueryFields) (query : Message) (log : LogBuilder)
  | replied (call : Call env.rx) (reply : Reply)
  | spawned (refresh : Refresh env.rx)
  | refreshing (refresh : Refresh env.rx) (query : Message)
  | ended

structure World (env : EngineEnv) where
  now : Nat
  state : EngineState env.rx
  cache : DnsCache
  pools : Nat → Pool
  /-- A task is the caller of the same number in the pool it asks. -/
  tasks : Nat → Option (Task env)

inductive EngineAction (rx : RegexEngine) where
  /-- `handle` is called with a query from a client. -/
  | load (t : Nat) (raw : Bytes) (clientIp : IpAddr)
  /-- It runs on; `u` is the refresh it may spawn, `id` the random id of a query of its own. -/
  | look (t u : Nat) (id : UInt16)
  | resume (t : Nat)
  | startRefresh (t : Nat)
  | pool (i : Nat) (a : PoolAction)
  | swapState (state : EngineState rx)
  | tick (nanos : Nat)
  | clear
  | reconfigure (enabled : Bool) (capacity : Nat) (minTtl maxTtl staleMaxAge : UInt32)
  | setStoreSummaries (store : Bool)
  | importSnapshot (unix : UInt64) (data : Bytes)

namespace World

variable {env : EngineEnv}

def setTask (w : World env) (t : Nat) (task : Task env) : World env :=
  { w with tasks := Function.update w.tasks t (some task) }

def setPool (w : World env) (i : Nat) (p : Pool) : World env :=
  { w with pools := Function.update w.pools i p }

def setCache (w : World env) (cache : DnsCache) : World env := { w with cache := cache }

def ask (w : World env) (i t : Nat) (query : Message) (task : Task env) : Option (World env) := do
  let p ← (w.pools i).step (.call t query)
  some ((w.setPool i p).setTask t task)

/-- What `resolve` has returned to a task. -/
def returned (w : World env) (i t : Nat) : Option ResolveResult :=
  match w.pools i |>.callers t with
  | some ⟨_, .returned result⟩ => some result
  | _ => none

def spawn (w : World env) (t u : Nat) (refresh : Option (Refresh env.rx)) : Option (World env) :=
  match refresh with
  | none => some w
  | some r => if u ≠ t ∧ w.tasks u = none then some (w.setTask u (.spawned r)) else none

def look (w : World env) (t u : Nat) (id : UInt16) (call : Call env.rx) :
    Begin → Option (World env)
  | .reply reply => some (w.setTask t (.replied call reply))
  | .resolveCname msg target rtype action log =>
      w.ask call.state.pool t (cnameQuery id target rtype) (.rewriting call msg action log)
  | .lookup fields lazy log =>
      let (hit, cache) := w.cache.get w.now fields.key fields.id
      let w := w.setCache cache
      match hit with
      | some hit => do
          let (reply, refresh) ← call.onHit fields lazy log hit
          (w.setTask t (.replied call reply)).spawn t u refresh
      | none =>
          match lazy.intoMessage with
          | none => some (w.setTask t (.replied call (Call.undecodable env fields.id log)))
          | some query => w.ask call.state.pool t query (.forwarding call fields query log)

def resume (w : World env) (t : Nat) : Task env → Option (World env)
  | .rewriting call msg action log => do
      let result ← w.returned call.state.pool t
      some (w.setTask t (.replied call (finalize env (appendResolved msg result) action log)))
  | .forwarding call fields query log => do
      let result ← w.returned call.state.pool t
      let (reply, cache) ← call.onResolved fields.key query log result w.now w.cache
      some ((w.setCache cache).setTask t (.replied call reply))
  | .refreshing r _ => do
      let result ← w.returned r.pool t
      let cache ← r.finish env result w.now w.cache
      some ((w.setCache cache).setTask t .ended)
  | _ => none

def isCall : PoolAction → Bool
  | .call _ _ => true
  | _ => false

def step (w : World env) : EngineAction env.rx → Option (World env)
  | .load t raw clientIp =>
      match w.tasks t with
      | some _ => none
      | none =>
          match h : Ingress.parse raw with
          | some ingress => some (w.setTask t (.loaded ⟨raw, ingress, h, clientIp, w.state⟩))
          | none => none
  | .look t u id =>
      match w.tasks t with
      | some (.loaded call) => call.begin.bind (w.look t u id call)
      | _ => none
  | .resume t => (w.tasks t).bind (w.resume t)
  | .startRefresh t =>
      match w.tasks t with
      | some (.spawned r) =>
          match r.lazy.intoMessage with
          | none => some (w.setTask t .ended)
          | some query => w.ask r.pool t query (.refreshing r query)
      | _ => none
  | .pool i a =>
      -- only tasks call `resolve`
      if isCall a then none else ((w.pools i).step a).map (w.setPool i)
  | .swapState state => some { w with state := state }
  | .tick nanos => some { w with now := w.now + nanos }
  | .clear => some (w.setCache w.cache.clear)
  | .reconfigure enabled capacity minTtl maxTtl stale =>
      some (w.setCache (w.cache.reconfigure enabled capacity minTtl maxTtl stale))
  | .setStoreSummaries store => some (w.setCache (w.cache.setStoreSummaries store))
  | .importSnapshot unix data => some (w.setCache (w.cache.importSnapshot w.now unix data))

/-- An engine before its first query; each pool has the upstreams of its configuration. -/
def new (state : EngineState env.rx) (cache : DnsCache) (upstreams : Nat → List UpstreamEntry) :
    World env where
  now := 0
  state := state
  cache := cache
  pools i := .new (upstreams i)
  tasks _ := none

end World

/-! ## A concrete engine -/

def demoQuery (id : UInt16) : Bytes :=
  toBe16 id ++ [1, 0, 0, 1, 0, 0, 0, 0, 0, 0, 1, 97, 0, 0, 1, 0, 1]

def demoAnswer : Message where
  metadata := ⟨7, true, 0, false, false, true, false, false, false, 0⟩
  queries := [⟨[[97]], typeA, 1⟩]
  answers := [⟨[[97]], typeA, 1, 60, [.raw [1, 2, 3, 4]]⟩]
  authorities := []
  additionals := []
  edns := none

def demoBytes : Bytes :=
  [0, 7, 0x81, 0, 0, 1, 0, 1, 0, 0, 0, 0, 1, 97, 0, 0, 1, 0, 1,
    0xC0, 12, 0, 1, 0, 1, 0, 0, 0, 60, 0, 4, 1, 2, 3, 4]

/-- An encoder for that one answer is enough here. -/
def demoEnv : EngineEnv where
  cache := ⟨.single demoAnswer demoBytes (by decide +kernel) (by decide +kernel) (by decide),
    fun _ => []⟩
  rx := referenceEngine
  parseName _ := none
  typeText _ := []
  rcodeText _ := []

def customList (rules : Text) : Lists := [(1, "custom".toList, rules)]

def demoCache : DnsCache := .new 8 (fun _ => 3) 100 0 0 10

def demoUpstreams (_ : Nat) : List UpstreamEntry := [⟨['u'], .tcp⟩]

def demoState (filter : LiveFilter demoEnv.rx) : EngineState demoEnv.rx where
  filter := filter
  pool := 0
  clients := .empty
  filteringEnabled := true
  blockingMode := .nullIp
  blockV4 := 0
  blockV6 := 0
  blockedTtl := 10

/-- Task `t` asks upstream and gets `reply`, over the flight `r`. -/
def resolveDemo (t u r : Nat) (raw : Bytes) (reply : Message) : List (EngineAction demoEnv.rx) :=
  [.load t raw (.v4 1), .look t u 0, .pool 0 (.look t), .pool 0 (.build t (demoUpstreams 0)),
    .pool 0 (.insert t), .pool 0 (.poll t), .pool 0 (.run r .connect),
    .pool 0 (.run r (.receive reply 0)), .pool 0 (.resume t), .pool 0 (.leave t), .resume t]

end Bulwark.Engine
