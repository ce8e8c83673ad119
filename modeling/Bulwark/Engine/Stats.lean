import Mathlib.Data.List.MinMax
import Mathlib.Data.Rat.Defs
import Mathlib.Algebra.Order.Ring.Unbundled.Rat
import Bulwark.Foundation.Bytes
import Bulwark.Foundation.Runs
import Bulwark.Foundation.Tally
import Bulwark.Engine.QueryLog

/-!
# Statistics

`stats.rs`: counters split into shards, one of which every thread records into,
merged for display and for the file that survives a restart.  Counters do not wrap.
An index outside a histogram, which panics, is `none`.  The file holds the merged
counters themselves.
-/

namespace Bulwark.Engine

open Bulwark.Foundation

/-! ## Histograms -/

/-- Upper bounds of the latency buckets in milliseconds; the last bucket has none. -/
def latencyBucketsMs : List ℚ := [1, 2, 5, 10, 20, 50, 100, 200, 500, 1000]

def histIndex (ms : ℚ) : Nat := latencyBucketsMs.findIdx (ms ≤ ·)

def emptyHist : List Nat := List.replicate (latencyBucketsMs.length + 1) 0

/-- `hist[i] += 1` -/
def bumpAt (hist : List Nat) (i : Nat) : Option (List Nat) :=
  if i < hist.length then some (hist.modify i (· + 1)) else none

/-- `Vec::resize(n, 0)` -/
def resize (n : Nat) (hist : List Nat) : List Nat :=
  hist.take n ++ List.replicate (n - hist.length) 0

def addInto : List Nat → List Nat → List Nat
  | a :: as, b :: bs => (a + b) :: addInto as bs
  | as, _ => as

/-! ## Top names -/

/-- The order in which a hash map is visited. -/
structure Iteration where
  visit : List (Sigma fun _ : Text => ℕ) → List (Sigma fun _ : Text => ℕ)
  perm : ∀ entries, (visit entries).Perm entries

structure HeavyHitters where
  counts : Tally Text
  deriving DecidableEq

def HeavyHitters.empty : HeavyHitters := ⟨∅⟩

/-- Records `n` observations of `key`, holding the live key set at `cap`. -/
def HeavyHitters.bump (order : Iteration) (h : HeavyHitters) (key : Text) (n cap : Nat) :
    HeavyHitters :=
  match h.counts.lookup key with
  | some v => ⟨h.counts.insert key (v + n)⟩
  | none =>
      if h.counts.keys.length < cap then ⟨h.counts.insert key n⟩
      else
        -- new keys inherit the evicted minimum count
        match (order.visit h.counts.entries).argmin (·.2) with
        | some least => ⟨(h.counts.erase least.1).insert key (least.2 + n)⟩
        | none => h

def HeavyHitters.mergeFrom (h other : HeavyHitters) : HeavyHitters :=
  ⟨h.counts.merge other.counts⟩

/-- The map without eviction: new keys past the cap are not counted. -/
def bumpCapped (map : Tally Text) (key : Text) (n cap : Nat) : Tally Text :=
  match map.lookup key with
  | some v => map.insert key (v + n)
  | none => if map.keys.length < cap then map.insert key n else map

/-! ## The hourly series -/

structure Bucket where
  /-- Unix epoch hour. -/
  hour : Int
  total : Nat
  blocked : Nat
  cached : Nat
  deriving DecidableEq, Repr

/-- `while series.len() > max { series.remove(0) }` -/
def keepLast (max : Nat) (series : List Bucket) : List Bucket :=
  series.drop (series.length - max)

def Bucket.ofEntry (entry : QueryLogEntry) : Bucket where
  hour := (entry.timeMs.tdiv 1000).tdiv 3600
  total := 1
  blocked := entry.isBlocked.toNat
  cached := entry.cached.toNat

def Bucket.add (b c : Bucket) : Bucket :=
  { b with total := b.total + c.total, blocked := b.blocked + c.blocked,
           cached := b.cached + c.cached }

def recordSeries (max : Nat) (series : List Bucket) (b : Bucket) : List Bucket :=
  match series.getLast? with
  | some last =>
      if last.hour = b.hour then series.dropLast ++ [last.add b]
      else keepLast max (series ++ [b])
  | none => keepLast max (series ++ [b])

def mergeBucket : List Bucket → Bucket → List Bucket
  | [], b => [b]
  | x :: xs, b => if x.hour = b.hour then x.add b :: xs else x :: mergeBucket xs b

/-! ## One shard -/

structure StatsInner where
  total : Nat
  blocked : Nat
  cached : Nat
  rewritten : Nat
  errors : Nat
  /-- Whole-query latency, errors excluded. -/
  procTimeHist : List Nat
  resolvedDomains : HeavyHitters
  blockedDomains : HeavyHitters
  clients : HeavyHitters
  upstreams : Tally Text
  upstreamRttCount : Tally Text
  upstreamLatencyHist : AList fun _ : Text => List Nat
  series : List Bucket
  cacheHits : Nat
  cacheMisses : Nat
  cacheStaleHits : Nat
  cacheRefreshes : Nat
  cacheRefreshFailures : Nat
  deriving DecidableEq

def StatsInner.default : StatsInner where
  total := 0
  blocked := 0
  cached := 0
  rewritten := 0
  errors := 0
  procTimeHist := []
  resolvedDomains := .empty
  blockedDomains := .empty
  clients := .empty
  upstreams := ∅
  upstreamRttCount := ∅
  upstreamLatencyHist := ∅
  series := []
  cacheHits := 0
  cacheMisses := 0
  cacheStaleHits := 0
  cacheRefreshes := 0
  cacheRefreshFailures := 0

def mergeHist (hists : AList fun _ : Text => List Nat) (k : Text) (hist : List Nat) :
    AList fun _ : Text => List Nat :=
  let dst := (hists.lookup k).getD emptyHist
  hists.insert k (if dst.length = hist.length then addInto dst hist else dst)

/-- Merges another shard; the cache counters are not merged. -/
def StatsInner.mergeFrom (s other : StatsInner) : StatsInner :=
  { s with
    total := s.total + other.total
    blocked := s.blocked + other.blocked
    cached := s.cached + other.cached
    rewritten := s.rewritten + other.rewritten
    errors := s.errors + other.errors
    procTimeHist :=
      if other.procTimeHist = [] then s.procTimeHist
      else addInto (resize (latencyBucketsMs.length + 1) s.procTimeHist) other.procTimeHist
    resolvedDomains := s.resolvedDomains.mergeFrom other.resolvedDomains
    blockedDomains := s.blockedDomains.mergeFrom other.blockedDomains
    clients := s.clients.mergeFrom other.clients
    upstreams := s.upstreams.merge other.upstreams
    upstreamRttCount := s.upstreamRttCount.merge other.upstreamRttCount
    upstreamLatencyHist :=
      other.upstreamLatencyHist.entries.foldl (fun hists e => mergeHist hists e.1 e.2)
        s.upstreamLatencyHist
    series := other.series.foldl mergeBucket s.series }

def bumpHist (hists : AList fun _ : Text => List Nat) (up : Text) (i : Nat) :
    Option (AList fun _ : Text => List Nat) := do
  let hist ← bumpAt ((hists.lookup up).getD emptyHist) i
  some (hists.insert up hist)

structure Limits where
  keyCap : Nat
  anonymize : Bool
  maxBuckets : Nat
  deriving DecidableEq, Repr

/-- The histogram of whole queries; errors have their own signal and do not skew it. -/
def StatsInner.recordProcTime (s : StatsInner) (entry : QueryLogEntry) : Option (List Nat) :=
  if entry.isError then some s.procTimeHist
  else
    bumpAt (if s.procTimeHist = [] then emptyHist else s.procTimeHist)
      (histIndex entry.elapsedMs)

def StatsInner.recordLatency (s : StatsInner) (entry : QueryLogEntry)
    (upstreamRttMs : Option ℚ) : Option (AList fun _ : Text => List Nat) :=
  match entry.upstream with
  | some up =>
      bumpHist s.upstreamLatencyHist up (histIndex (upstreamRttMs.getD entry.elapsedMs))
  | none => some s.upstreamLatencyHist

def StatsInner.counted (order : Iteration) (limits : Limits) (s : StatsInner)
    (entry : QueryLogEntry) (procTimeHist : List Nat)
    (upstreamLatencyHist : AList fun _ : Text => List Nat) : StatsInner :=
  let blocked := entry.isBlocked
  let domain := trimEndMatches '.' entry.question
  let cap := limits.keyCap
  { s with
    total := s.total + 1
    cached := match entry.action with
      | .cached => s.cached + 1
      | _ => s.cached
    rewritten := match entry.action with
      | .rewritten _ _ => s.rewritten + 1
      | _ => s.rewritten
    errors := match entry.action with
      | .error => s.errors + 1
      | _ => s.errors
    blocked := if blocked then s.blocked + 1 else s.blocked
    procTimeHist := procTimeHist
    blockedDomains :=
      if blocked then s.blockedDomains.bump order domain 1 cap else s.blockedDomains
    resolvedDomains :=
      if blocked then s.resolvedDomains else s.resolvedDomains.bump order domain 1 cap
    clients :=
      if limits.anonymize then s.clients else s.clients.bump order entry.clientIp 1 cap
    upstreams := match entry.upstream with
      | some up => bumpCapped s.upstreams up 1 cap
      | none => s.upstreams
    upstreamRttCount := match entry.upstream with
      | some up => s.upstreamRttCount.add up 1
      | none => s.upstreamRttCount
    upstreamLatencyHist := upstreamLatencyHist
    series := recordSeries limits.maxBuckets s.series (.ofEntry entry) }

def StatsInner.record (order : Iteration) (limits : Limits) (s : StatsInner)
    (entry : QueryLogEntry) (upstreamRttMs : Option ℚ) : Option StatsInner := do
  let procTimeHist ← s.recordProcTime entry
  let upstreamLatencyHist ← s.recordLatency entry upstreamRttMs
  some (s.counted order limits entry procTimeHist upstreamLatencyHist)

/-! ## All shards -/

def topkKeys : Nat := 4096

structure Stats where
  shards : List StatsInner
  limits : Limits
  enabled : Bool
  deriving DecidableEq

/-- The bucket limit for a number of days, in 32-bit arithmetic. -/
def bucketLimit (retentionDays : UInt32) : Nat := (u32Max retentionDays 1 * 24).toNat

def Stats.new (shards : Nat) (enabled : Bool) (retentionDays : UInt32) (anonymize : Bool) :
    Stats where
  shards := List.replicate shards .default
  limits := ⟨max (topkKeys / shards) 256, anonymize, bucketLimit retentionDays⟩
  enabled := enabled

def Stats.shardIndex (s : Stats) (threadSlot : Nat) : Nat := threadSlot &&& (s.shards.length - 1)

def Stats.reconfigure (s : Stats) (enabled : Bool) (retentionDays : UInt32) (anonymize : Bool) :
    Stats where
  shards := s.shards.map fun shard =>
    { shard with series := keepLast (bucketLimit retentionDays) shard.series }
  limits := ⟨s.limits.keyCap, anonymize, bucketLimit retentionDays⟩
  enabled := enabled

def Stats.record (order : Iteration) (s : Stats) (threadSlot : Nat) (entry : QueryLogEntry)
    (upstreamRttMs : Option ℚ) : Option Stats :=
  if s.enabled then do
    let i := s.shardIndex threadSlot
    let shard ← s.shards[i]?
    let shard ← shard.record order s.limits entry upstreamRttMs
    some { s with shards := s.shards.set i shard }
  else some s

def Stats.reset (s : Stats) : Stats := { s with shards := s.shards.map fun _ => .default }

def sortByHour (series : List Bucket) : List Bucket :=
  series.mergeSort fun a b => a.hour ≤ b.hour

def Stats.merged (s : Stats) : StatsInner :=
  let acc := s.shards.foldl StatsInner.mergeFrom .default
  { acc with series := keepLast s.limits.maxBuckets (sortByHour acc.series) }

structure CacheCounters where
  hits : Nat
  misses : Nat
  staleHits : Nat
  refreshes : Nat
  refreshFailures : Nat
  deriving DecidableEq, Repr

def Stats.export (s : Stats) (cache : CacheCounters) : StatsInner :=
  { s.merged with
    cacheHits := cache.hits
    cacheMisses := cache.misses
    cacheStaleHits := cache.staleHits
    cacheRefreshes := cache.refreshes
    cacheRefreshFailures := cache.refreshFailures }

/-- All that was loaded goes into the first shard. -/
def Stats.import (s : Stats) (loaded : StatsInner) : Stats × CacheCounters :=
  ({ s with shards := s.shards.mapIdx fun i _ => if i = 0 then loaded else .default },
    ⟨loaded.cacheHits, loaded.cacheMisses, loaded.cacheStaleHits, loaded.cacheRefreshes,
      loaded.cacheRefreshFailures⟩)

/-! ## Runs -/

structure StatsWorld where
  stats : Stats
  exports : List StatsInner
  deriving DecidableEq

inductive StatsAction where
  | record (order : Iteration) (threadSlot : Nat) (entry : QueryLogEntry)
      (upstreamRttMs : Option ℚ)
  | save (cache : CacheCounters)
  | load (file : Nat)
  /-- A new process with so many shards, which loads what the old one wrote at its end. -/
  | restart (cache : CacheCounters) (shards : Nat)
  | reset
  | reconfigure (enabled : Bool) (retentionDays : UInt32) (anonymize : Bool)

def Stats.fresh (s : Stats) (shards : Nat) : Stats where
  shards := List.replicate shards .default
  limits := { s.limits with keyCap := max (topkKeys / shards) 256 }
  enabled := s.enabled

def statsStep (w : StatsWorld) : StatsAction → Option StatsWorld
  | .record order threadSlot entry upstreamRttMs => do
      let stats ← w.stats.record order threadSlot entry upstreamRttMs
      some { w with stats := stats }
  | .save cache => some { w with exports := w.exports ++ [w.stats.export cache] }
  | .load file => do
      let loaded ← w.exports[file]?
      some { w with stats := (w.stats.import loaded).1 }
  | .restart cache shards =>
      if shards = 0 then none
      else
        let file := w.stats.export cache
        some ⟨((w.stats.fresh shards).import file).1, w.exports ++ [file]⟩
  | .reset => some { w with stats := w.stats.reset }
  | .reconfigure enabled retentionDays anonymize =>
      some { w with stats := w.stats.reconfigure enabled retentionDays anonymize }

def recordedSinceReset (as : List StatsAction) : List QueryLogEntry :=
  as.foldl (fun entries a =>
    match a with
    | .record _ _ entry _ => entries ++ [entry]
    | .reset => []
    | _ => entries) []

end Bulwark.Engine
