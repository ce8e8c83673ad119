import Bulwark.Foundation.AtomicFile
import Bulwark.Engine.StatsCounts

/-!
# Statistics across restarts

A snapshot of the statistics is written every minute and at the end of a process.  It is
taken from one shard after another while queries are recorded, and a process can end at any
point.  The next one goes on from the last snapshot that was renamed into place, and the
counts are those of exactly the queries that are in it and those recorded since.
-/

namespace Bulwark.Server

open Bulwark.Foundation Bulwark.Engine

/-! ## What is counted -/

inductive Count where
  | total
  | blocked
  | cached
  | rewritten
  | errors
  | answeredBy (upstream : Text)
  deriving DecidableEq, Repr

def statCount (s : StatsInner) : Count → Nat
  | .total => s.total
  | .blocked => s.blocked
  | .cached => s.cached
  | .rewritten => s.rewritten
  | .errors => s.errors
  | .answeredBy upstream => s.upstreamRttCount.get upstream

def isCounted (entry : QueryLogEntry) : Count → Bool
  | .total => true
  | .blocked => entry.isBlocked
  | .cached => entry.cached
  | .rewritten =>
      match entry.action with
      | .rewritten _ _ => true
      | _ => false
  | .errors => entry.isError
  | .answeredBy upstream => entry.upstream = some upstream

def countOf (c : Count) (entries : List QueryLogEntry) : Nat :=
  entries.countP (isCounted · c)

/-! ## Processes and their snapshots -/

structure StatsJson where
  toString : StatsInner → Text
  fromStr : Text → Option StatsInner

inductive Snapshotter where
  /-- The task that does so every minute. -/
  | periodic
  /-- The end of the process. -/
  | shutdown
  deriving DecidableEq, Repr

inductive Snapshot where
  /-- Shards before number `next` are merged; the cache was asked first. -/
  | merging (cache : CacheCounters) (next : Nat) (acc : StatsInner)
  | file (writer : Writer Char)
  deriving DecidableEq

structure StatsProcess where
  stats : Stats
  cache : CacheCounters
  snapshots : Snapshotter → Snapshot

structure StatsSite where
  /-- `stats.json` and `stats.json.tmp`. -/
  volume : Volume Char
  process : Option StatsProcess

inductive StatsSiteAction where
  | record (order : Iteration) (threadSlot : Nat) (entry : QueryLogEntry)
      (upstreamRttMs : Option ℚ)
  /-- The cache counts on. -/
  | count (cache : CacheCounters)
  /-- A reset clears one shard after another, and then the counters of the cache. -/
  | resetShard (i : Nat)
  | resetCache
  | reconfigure (enabled : Bool) (retentionDays : UInt32) (anonymize : Bool)
  | begin (who : Snapshotter)
  | take (who : Snapshotter)
  /-- The merged statistics become text, and the temporary file is opened. -/
  | create (who : Snapshotter)
  | write (who : Snapshotter) (n : Nat)
  | fail (who : Snapshotter)
  | rename (who : Snapshotter)
  | kill
  /-- `loads`: statistics are kept across restarts, and the file can be read. -/
  | start (loads : Bool) (shards : Nat) (enabled : Bool) (retentionDays : UInt32)
      (anonymize : Bool)

/-- `merged`, once all shards are merged, and what `export` adds to it. -/
def exported (stats : Stats) (cache : CacheCounters) (acc : StatsInner) : StatsInner :=
  { acc with
    series := keepLast stats.limits.maxBuckets (sortByHour acc.series)
    cacheHits := cache.hits
    cacheMisses := cache.misses
    cacheStaleHits := cache.staleHits
    cacheRefreshes := cache.refreshes
    cacheRefreshFailures := cache.refreshFailures }

def noCounters : CacheCounters := ⟨0, 0, 0, 0, 0⟩

namespace StatsProcess

def setSnapshot (p : StatsProcess) (who : Snapshotter) (snapshot : Snapshot) : StatsProcess :=
  { p with snapshots := Function.update p.snapshots who snapshot }

def setStats (p : StatsProcess) (stats : Stats) : StatsProcess := { p with stats := stats }

def fileStep (v : Volume Char) (p : StatsProcess) (who : Snapshotter) (a : FileAction Char) :
    Option (Volume Char × StatsProcess) :=
  match p.snapshots who with
  | .file writer =>
      (replaceStep (Char.ofNat 0) v writer a).map fun r => (r.1, p.setSnapshot who (.file r.2))
  | .merging _ _ _ => none

def step (json : StatsJson) (v : Volume Char) (p : StatsProcess) :
    StatsSiteAction → Option (Volume Char × StatsProcess)
  | .record order threadSlot entry upstreamRttMs =>
      (p.stats.record order threadSlot entry upstreamRttMs).map fun stats => (v, p.setStats stats)
  | .count cache => some (v, { p with cache := cache })
  | .resetShard i => some (v, p.setStats { p.stats with shards := p.stats.shards.set i .default })
  | .resetCache => some (v, { p with cache := noCounters })
  | .reconfigure enabled retentionDays anonymize =>
      some (v, p.setStats (p.stats.reconfigure enabled retentionDays anonymize))
  | .begin who =>
      match p.snapshots who with
      | .file .idle => some (v, p.setSnapshot who (.merging p.cache 0 .default))
      | _ => none
  | .take who =>
      match p.snapshots who with
      | .merging cache next acc =>
          (p.stats.shards[next]?).map fun shard =>
            (v, p.setSnapshot who (.merging cache (next + 1) (acc.mergeFrom shard)))
      | .file _ => none
  | .create who =>
      match p.snapshots who with
      | .merging cache next acc =>
          if next = p.stats.shards.length then
            let text := json.toString (exported p.stats cache acc)
            (p.setSnapshot who (.file .idle)).fileStep v who (.create text)
          else none
      | .file _ => none
  | .write who n => p.fileStep v who (.write n)
  | .fail who => p.fileStep v who .fail
  | .rename who => p.fileStep v who .rename
  | .kill | .start _ _ _ _ _ => none

/-- A process with fresh statistics, into which `load_stats` puts the text it has read. -/
def started (json : StatsJson) (text : Option Text) (shards : Nat) (enabled : Bool)
    (retentionDays : UInt32) (anonymize : Bool) : StatsProcess :=
  let stats := Stats.new shards enabled retentionDays anonymize
  match text.bind json.fromStr with
  | some loaded => ⟨(stats.import loaded).1, (stats.import loaded).2, fun _ => .file .idle⟩
  | none => ⟨stats, noCounters, fun _ => .file .idle⟩

end StatsProcess

def siteStep (json : StatsJson) (site : StatsSite) (a : StatsSiteAction) : Option StatsSite :=
  match site.process, a with
  | none, .start loads shards enabled retentionDays anonymize =>
      if 0 < shards then
        let text := if loads then site.volume.read else none
        some ⟨site.volume, some (.started json text shards enabled retentionDays anonymize)⟩
      else none
  | some _, .kill => some ⟨site.volume, none⟩
  | some p, a => (p.step json site.volume a).map fun r => ⟨r.1, some r.2⟩
  | none, _ => none

/-! ## What is remembered -/

structure Remembered where
  entries : List QueryLogEntry
  cache : CacheCounters

/-- The queries that the counts stand for: in memory, in a snapshot being made, on disk. -/
structure Ledger where
  shards : List (List QueryLogEntry)
  cache : CacheCounters
  taken : Snapshotter → Remembered
  disk : Option Remembered

def nothing : Remembered := ⟨[], noCounters⟩

namespace Ledger

def empty : Ledger := ⟨[], noCounters, fun _ => nothing, none⟩

def after (l : Ledger) (p : StatsProcess) : StatsSiteAction → Ledger
  | .record _ threadSlot entry _ =>
      { l with
        shards :=
          if p.stats.enabled then l.shards.modify (p.stats.shardIndex threadSlot) (· ++ [entry])
          else l.shards }
  | .count cache => { l with cache := cache }
  | .resetShard i => { l with shards := l.shards.set i [] }
  | .resetCache => { l with cache := noCounters }
  | .begin who => { l with taken := Function.update l.taken who ⟨[], l.cache⟩ }
  | .take who =>
      match p.snapshots who with
      | .merging _ next _ =>
          let taken := l.taken who
          let entries := taken.entries ++ (l.shards[next]?).getD []
          { l with taken := Function.update l.taken who ⟨entries, taken.cache⟩ }
      | .file _ => l
  | .rename who => { l with disk := some (l.taken who) }
  | _ => l

def restarted (l : Ledger) (loads : Bool) (shards : Nat) : Ledger :=
  let m := if loads then l.disk.getD nothing else nothing
  { l with shards := m.entries :: List.replicate (shards - 1) [], cache := m.cache }

end Ledger

structure Chronicle where
  site : StatsSite
  ledger : Ledger

namespace Chronicle

def fresh : Chronicle := ⟨⟨.empty, none⟩, .empty⟩

def next (ch : Chronicle) (a : StatsSiteAction) : Ledger :=
  match ch.site.process, a with
  | none, .start loads shards _ _ _ => ch.ledger.restarted loads shards
  | some p, a => ch.ledger.after p a
  | none, _ => ch.ledger

def step (json : StatsJson) (ch : Chronicle) (a : StatsSiteAction) : Option Chronicle :=
  (siteStep json ch.site a).map fun site => ⟨site, ch.next a⟩

end Chronicle

def Snapshot.writer : Snapshot → Writer Char
  | .merging _ _ _ => .idle
  | .file writer => writer

def countersOf (loaded : StatsInner) : CacheCounters :=
  ⟨loaded.cacheHits, loaded.cacheMisses, loaded.cacheStaleHits, loaded.cacheRefreshes,
    loaded.cacheRefreshFailures⟩

/-- As far as counts go; the order of a hash map is lost in its text. -/
def SameCounts (s other : StatsInner) : Prop :=
  (∀ c, statCount s c = statCount other c) ∧ countersOf s = countersOf other

def StatsJson.Reads (json : StatsJson) (s : StatsInner) : Prop :=
  ∃ loaded, json.fromStr (json.toString s) = some loaded ∧ SameCounts loaded s

/-- Snapshots are not written at the same time, and what is written can be read again. -/
def TakesTurns (json : StatsJson) (ch : Chronicle) (a : StatsSiteAction) : Prop :=
  match ch.site.process, a with
  | some p, .create who =>
      (∀ other, other ≠ who → (p.snapshots other).writer = .idle) ∧
      ∀ cache next acc, p.snapshots who = .merging cache next acc →
        json.Reads (exported p.stats cache acc)
  | _, _ => True

def recordedIn (as : List StatsSiteAction) : List QueryLogEntry :=
  as.filterMap fun
    | .record _ _ entry _ => some entry
    | _ => none

/-! ## Counts of one shard -/

section

variable {s other s' : StatsInner} {c : Count} {entry : QueryLogEntry}

@[simp] theorem statCount_default (c : Count) : statCount .default c = 0 := by
  cases c <;> rfl

@[simp] theorem statCount_mergeFrom (s other : StatsInner) (c : Count) :
    statCount (s.mergeFrom other) c = statCount s c + statCount other c := by
  cases c with
  | answeredBy upstream => exact Tally.get_merge _ _ _
  | _ => rfl

@[simp] theorem statCount_exported (stats : Stats) (cache : CacheCounters) (acc : StatsInner)
    (c : Count) : statCount (exported stats cache acc) c = statCount acc c := by
  cases c <;> rfl

@[simp] theorem countOf_nil (c : Count) : countOf c [] = 0 := rfl

@[simp] theorem countOf_append (c : Count) (xs ys : List QueryLogEntry) :
    countOf c (xs ++ ys) = countOf c xs + countOf c ys := List.countP_append

theorem statCount_counted (order : Iteration) (limits : Limits) (s : StatsInner)
    (entry : QueryLogEntry) (hist : List Nat) (hists : AList fun _ : Text => List Nat)
    (c : Count) :
    statCount (s.counted order limits entry hist hists) c = statCount s c + countOf c [entry] := by
  cases c with
  | total => rfl
  | blocked =>
      simp only [statCount, StatsInner.counted, countOf, isCounted, List.countP_singleton]
      split <;> rfl
  | cached =>
      simp only [statCount, StatsInner.counted, countOf, isCounted, List.countP_singleton,
        QueryLogEntry.cached]
      cases entry.action <;> rfl
  | rewritten =>
      simp only [statCount, StatsInner.counted, countOf, isCounted, List.countP_singleton]
      cases entry.action <;> rfl
  | errors =>
      simp only [statCount, StatsInner.counted, countOf, isCounted, List.countP_singleton,
        QueryLogEntry.isError]
      cases entry.action <;> rfl
  | answeredBy upstream =>
      simp only [statCount, StatsInner.counted, countOf, isCounted, List.countP_singleton]
      cases entry.upstream with
      | none => simp
      | some up =>
          by_cases hup : upstream = up <;> simp [Tally.get_add, hup, eq_comm]

theorem statCount_record {order : Iteration} {limits : Limits} {rtt : Option ℚ}
    (h : s.record order limits entry rtt = some s') (c : Count) :
    statCount s' c = statCount s c + countOf c [entry] := by
  simp only [StatsInner.record, Option.bind_eq_bind, Option.bind_eq_some_iff,
    Option.some.injEq] at h
  obtain ⟨hist, -, hists, -, rfl⟩ := h
  exact statCount_counted order limits s entry hist hists c

end

/-! ## Shards -/

/-- Every shard counts the queries that are remembered for it. -/
def Tells (stats : Stats) (shards : List (List QueryLogEntry)) : Prop :=
  List.Forall₂ (fun s entries => ∀ c, statCount s c = countOf c entries) stats.shards shards

section

variable {α β : Type} {R : α → β → Prop} {as : List α} {bs : List β}

theorem forall₂_set (h : List.Forall₂ R as bs) {a : α} {b : β} (hab : R a b) (i : Nat) :
    List.Forall₂ R (as.set i a) (bs.set i b) := by
  induction h generalizing i with
  | nil => exact .nil
  | cons hx hxs ih =>
      cases i with
      | zero => exact .cons hab hxs
      | succ i => exact .cons hx (ih i)

theorem forall₂_modify (h : List.Forall₂ R as bs) {i : Nat} {a a' : α} {f : β → β}
    (ha : as[i]? = some a) (hf : ∀ b, R a b → R a' (f b)) :
    List.Forall₂ R (as.set i a') (bs.modify i f) := by
  induction h generalizing i with
  | nil => cases ha
  | cons hx hxs ih =>
      cases i with
      | zero =>
          cases ha
          exact .cons (hf _ hx) hxs
      | succ i => exact .cons hx (ih ha)

theorem forall₂_getElem? (h : List.Forall₂ R as bs) {i : Nat} {a : α} (ha : as[i]? = some a) :
    ∃ b, bs[i]? = some b ∧ R a b := by
  induction h generalizing i with
  | nil => cases ha
  | cons hx hxs ih =>
      cases i with
      | zero =>
          cases ha
          exact ⟨_, rfl, hx⟩
      | succ i => exact ih ha

end

section

variable {stats stats' : Stats} {shards : List (List QueryLogEntry)}

theorem statCount_foldl {ss : List StatsInner}
    (h : List.Forall₂ (fun s entries => ∀ c, statCount s c = countOf c entries) ss shards)
    (acc : StatsInner) (c : Count) :
    statCount (ss.foldl StatsInner.mergeFrom acc) c =
      statCount acc c + countOf c shards.flatten := by
  induction h generalizing acc with
  | nil => simp
  | cons hx hxs ih => simp [ih, hx, Nat.add_assoc]

theorem Tells.merged (h : Tells stats shards) (c : Count) :
    statCount stats.merged c = countOf c shards.flatten := by
  have hfold := statCount_foldl h .default c
  rw [statCount_default, Nat.zero_add] at hfold
  rw [← hfold]
  cases c <;> rfl

theorem Tells.record {order : Iteration} {slot : Nat} {entry : QueryLogEntry} {rtt : Option ℚ}
    (h : Tells stats shards) (hrecord : stats.record order slot entry rtt = some stats') :
    Tells stats' (if stats.enabled then
      shards.modify (stats.shardIndex slot) (· ++ [entry]) else shards) := by
  unfold Stats.record at hrecord
  split at hrecord
  · rename_i henabled
    simp only [Option.bind_eq_bind, Option.bind_eq_some_iff, Option.some.injEq] at hrecord
    obtain ⟨shard, hshard, shard', hcounted, rfl⟩ := hrecord
    rw [if_pos henabled]
    refine forall₂_modify h hshard fun entries hentries c => ?_
    rw [statCount_record hcounted, hentries, countOf_append]
  · rename_i henabled
    cases hrecord
    rwa [if_neg henabled]

theorem Tells.resetShard (h : Tells stats shards) (i : Nat) :
    Tells { stats with shards := stats.shards.set i .default } (shards.set i []) :=
  forall₂_set h (fun c => statCount_default c) i

theorem Tells.reconfigure (h : Tells stats shards) (enabled : Bool) (days : UInt32)
    (anonymize : Bool) : Tells (stats.reconfigure enabled days anonymize) shards := by
  simp only [Tells, Stats.reconfigure, List.forall₂_map_left_iff]
  refine h.imp fun s entries hs c => ?_
  rw [← hs c]
  cases c <;> rfl

theorem tells_replicate (n : Nat) : List.Forall₂
    (fun s (entries : List QueryLogEntry) => ∀ c, statCount s c = countOf c entries)
    (List.replicate n .default) (List.replicate n []) := by
  induction n with
  | zero => exact .nil
  | succ n ih => exact .cons (fun c => statCount_default c) ih

theorem tells_new {n : Nat} (hn : 0 < n) (enabled : Bool) (days : UInt32) (anonymize : Bool) :
    Tells (.new n enabled days anonymize) ([] :: List.replicate (n - 1) []) := by
  obtain ⟨k, rfl⟩ := Nat.exists_eq_succ_of_ne_zero hn.ne'
  exact tells_replicate (k + 1)

theorem tells_import {n : Nat} (hn : 0 < n) (enabled : Bool) (days : UInt32) (anonymize : Bool)
    {loaded : StatsInner} {entries : List QueryLogEntry}
    (h : ∀ c, statCount loaded c = countOf c entries) :
    Tells ((Stats.new n enabled days anonymize).import loaded).1
      (entries :: List.replicate (n - 1) []) := by
  obtain ⟨k, rfl⟩ := Nat.exists_eq_succ_of_ne_zero hn.ne'
  have hnonempty : (Stats.new (k + 1) enabled days anonymize).shards ≠ [] := by
    simp [Stats.new]
  unfold Tells
  rw [shards_import hnonempty]
  have hlength : (Stats.new (k + 1) enabled days anonymize).shards.length = k + 1 := by
    simp [Stats.new]
  rw [hlength]
  exact .cons h (tells_replicate _)

end

end Bulwark.Server
