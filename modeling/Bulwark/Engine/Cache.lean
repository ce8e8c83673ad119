import Bulwark.Foundation.Lru
import Bulwark.Filter.Engine
import Bulwark.Engine.Wire
import Bulwark.Engine.Stats

/-!
# The response cache

`cache.rs`: responses under the key of their question, in shards that each keep the
most recently used entries.  Responses are stored encoded where their TTLs can be
found in the encoding.  Instants are nanoseconds since the earliest one the clock
can show; the time of an operation is its argument.
-/

namespace Bulwark.Engine

open Bulwark.Foundation Bulwark.Dns

/-! ## Entries -/

inductive Stored where
  | wire (bytes : Bytes) (ttlOffsets : List UInt32) (rcode : UInt16) (answers : List Text)
  | message (msg : Message)
  deriving DecidableEq, Repr

inductive Outcome where
  | clean
  | block (info : Filter.MatchInfo)
  deriving DecidableEq, Repr

structure ResponseVerdict where
  generation : Nat
  outcome : Outcome
  deriving DecidableEq, Repr

structure Entry where
  stored : Stored
  storedAt : Nat
  ttl : UInt32
  /-- `none` forces response filtering on the next hit. -/
  verdict : Option ResponseVerdict
  deriving DecidableEq, Repr

def nanosPerSec : Nat := 1000000000

def elapsedSecs (start now : Nat) : Nat := (now - start) / nanosPerSec

/-- Whole seconds since the entry was stored, as far as 32 bits count. -/
def Entry.ageSecs (entry : Entry) (now : Nat) : UInt32 :=
  UInt32.ofNat (min (elapsedSecs entry.storedAt now) (2 ^ 32 - 1))

inductive CachedResponse where
  | wire (bytes : Bytes) (rcode : UInt16) (answers : List Text)
  | message (msg : Message)
  deriving DecidableEq, Repr

/-- `Message::new(id, MessageType::Response, OpCode::Query)` -/
def Message.newResponse (id : UInt16) : Message where
  metadata := ⟨id, true, 0, false, false, false, false, false, false, 0⟩
  queries := []
  answers := []
  authorities := []
  additionals := []
  edns := none

def CachedResponse.intoMessage : CachedResponse → Message
  | .message msg => msg
  | .wire bytes _ _ => (decode bytes).getD (Message.newResponse 0)

inductive HitFreshness where
  | fresh
  /-- Past its TTL but within the serve-stale window. -/
  | stale
  deriving DecidableEq, Repr

structure CacheHit where
  response : CachedResponse
  freshness : HitFreshness
  verdict : Option ResponseVerdict
  deriving DecidableEq, Repr

/-! ## Lifetimes -/

def defaultNegativeTtl : UInt32 := 30
def staleServeTtl : UInt32 := 1

def rcodeNoError : UInt16 := 0
def rcodeNxDomain : UInt16 := 3

/-- The `minimum` field of SOA data. -/
def soaMinimum (r : Record) : Option UInt32 :=
  if r.recordType = typeSoa then
    match r.data with
    | [.name _, .name _, .raw bytes] => u32At bytes 16
    | _ => none
  else none

def negativeTtl (msg : Message) : UInt32 :=
  match msg.authorities.find? (soaMinimum · |>.isSome) with
  | some r => u32Max (u32Min ((soaMinimum r).getD 0) r.ttl) 1
  | none => defaultNegativeTtl

structure CacheConfig where
  enabled : Bool
  minTtl : UInt32
  /-- 0 means no upper clamp. -/
  maxTtl : UInt32
  /-- Serve-stale window; 0 disables it. -/
  staleMaxAge : UInt32
  storeSummaries : Bool
  deriving DecidableEq, Repr

/-- The smallest TTL of the records, `none` without one. -/
def minTtlOf : List Record → Option UInt32
  | [] => none
  | r :: rs => some (rs.foldl (fun ttl r => u32Min ttl r.ttl) r.ttl)

def CacheConfig.cacheableTtl (cfg : CacheConfig) (msg : Message) : Option UInt32 :=
  let rcode := msg.metadata.responseCode
  if rcode ≠ rcodeNoError ∧ rcode ≠ rcodeNxDomain then none
  else if msg.metadata.truncation then none
  else
    let baseTtl :=
      if msg.answers ≠ [] then (minTtlOf msg.answers).getD defaultNegativeTtl
      else negativeTtl msg
    let ttl := u32Max baseTtl cfg.minTtl
    let ttl := if cfg.maxTtl ≠ 0 then u32Min ttl cfg.maxTtl else ttl
    if ttl = 0 then none else some ttl

/-! ## The cache -/

/-- The encoder for messages and the text of a record in the query log. -/
structure CacheEnv where
  codec : Codec
  summarize : Record → Text

/-- Per-shard capacity for a given total, never zero. -/
def shardCap (total shards : Nat) : Nat := max (total / shards) 1

theorem shardCap_pos (total shards : Nat) : 0 < shardCap total shards :=
  lt_of_lt_of_le Nat.one_pos (Nat.le_max_right _ _)

structure DnsCache where
  shardCount : Nat
  shards : Nat → Lru QueryKey Entry
  hash : QueryKey → Nat
  cfg : CacheConfig
  capacity : Nat
  hits : Nat
  misses : Nat
  staleHits : Nat

def DnsCache.new (shardCount : Nat) (hash : QueryKey → Nat) (capacity : Nat)
    (minTtl maxTtl staleMaxAge : UInt32) : DnsCache where
  shardCount := shardCount
  shards _ := .empty (shardCap (max capacity 1) shardCount) (shardCap_pos _ _)
  hash := hash
  cfg := ⟨true, minTtl, maxTtl, staleMaxAge, true⟩
  capacity := max capacity 1
  hits := 0
  misses := 0
  staleHits := 0

def DnsCache.index (c : DnsCache) (key : QueryKey) : Nat := c.hash key &&& (c.shardCount - 1)

def DnsCache.shard (c : DnsCache) (key : QueryKey) : Lru QueryKey Entry := c.shards (c.index key)

def DnsCache.setShard (c : DnsCache) (key : QueryKey) (shard : Lru QueryKey Entry) : DnsCache :=
  { c with shards := Function.update c.shards (c.index key) shard }

def DnsCache.clear (c : DnsCache) : DnsCache := { c with shards := fun i => (c.shards i).clear }

def DnsCache.reconfigure (c : DnsCache) (enabled : Bool) (capacity : Nat)
    (minTtl maxTtl staleMaxAge : UInt32) : DnsCache :=
  let cap := max capacity 1
  let c :=
    { c with
      cfg := { c.cfg with enabled := enabled, minTtl := minTtl, maxTtl := maxTtl,
                          staleMaxAge := staleMaxAge }
      capacity := cap
      shards := fun i =>
        if cap ≠ c.capacity then
          (c.shards i).resize (shardCap cap c.shardCount) (shardCap_pos _ _)
        else c.shards i }
  if enabled then c else c.clear

def DnsCache.setStoreSummaries (c : DnsCache) (store : Bool) : DnsCache :=
  { c with cfg := { c.cfg with storeSummaries := store } }

def Stored.respond (id : UInt16) (ttl : UInt32) : Stored → CachedResponse
  | .wire bytes ttlOffsets rcode answers => .wire (patch bytes id ttl ttlOffsets) rcode answers
  | .message msg => .message ((adjustTtls msg ttl).withId id)

def DnsCache.get (c : DnsCache) (now : Nat) (key : QueryKey) (id : UInt16) :
    Option CacheHit × DnsCache :=
  if !c.cfg.enabled then (none, c)
  else
    match (c.shard key).get key with
    | (none, _) => (none, { c with misses := c.misses + 1 })
    | (some entry, map) =>
        let age := entry.ageSecs now
        if age < entry.ttl then
          (some ⟨entry.stored.respond id (u32Max (entry.ttl - age) 1), .fresh, entry.verdict⟩,
            { c.setShard key map with hits := c.hits + 1 })
        else if age - entry.ttl < c.cfg.staleMaxAge then
          (some ⟨entry.stored.respond id staleServeTtl, .stale, entry.verdict⟩,
            { c.setShard key map with hits := c.hits + 1, staleHits := c.staleHits + 1 })
        else (none, { c.setShard key (map.pop key) with misses := c.misses + 1 })

structure InsertedWire where
  bytes : Bytes
  rcode : UInt16
  answers : List Text
  deriving DecidableEq, Repr

/-- How a response is stored: encoded where the encoding can be scanned. -/
def CacheEnv.store (env : CacheEnv) (cfg : CacheConfig) (msg : Message) : Stored :=
  match env.codec.encode msg with
  | some bytes =>
      match scanTtlOffsets bytes with
      | some offsets =>
          .wire bytes offsets msg.metadata.responseCode
            (if cfg.storeSummaries then msg.answers.map env.summarize else [])
      | none => .message msg
  | none => .message msg

def Stored.served : Stored → Option InsertedWire
  | .wire bytes _ rcode answers => some ⟨bytes, rcode, answers⟩
  | .message _ => none

def DnsCache.insertInner (env : CacheEnv) (c : DnsCache) (now : Nat) (key : QueryKey)
    (msg : Message) (verdict : Option ResponseVerdict) : Option InsertedWire × DnsCache :=
  if !c.cfg.enabled then (none, c)
  else
    match c.cfg.cacheableTtl msg with
    | none => (none, c)
    | some ttl =>
        let stored := env.store c.cfg msg
        (stored.served, c.setShard key ((c.shard key).put key ⟨stored, now, ttl, verdict⟩))

def DnsCache.peek (c : DnsCache) (key : QueryKey) : Option Entry := (c.shard key).peek key

end Bulwark.Engine
