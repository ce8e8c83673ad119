import Bulwark.Engine.StatsBound

/-!
# Loaded statistics

What becomes of statistics read from a file.  Decoding the text is left open: any record of
counters may come out of it, with histograms of any length.  The summary for display
reads the merged histograms, whose length does not depend on the file; recording goes into
the vectors of the file themselves.
-/

namespace Bulwark.Engine

open Bulwark.Foundation

/-! ## The summary -/

/-- Lower and upper bound of a bucket; the last one is open above. -/
def bucketBounds (i : Nat) : Option (ℚ × Option ℚ) := do
  let lower ← if i = 0 then some 0 else latencyBucketsMs[i - 1]?
  some (lower, latencyBucketsMs[i]?)

/-- The rest of the loop over the buckets, from bucket `i` with `cum` samples behind it. -/
def quantileFrom (target : ℚ) : Nat → Nat → List Nat → Option ℚ
  | _, _, [] => latencyBucketsMs.getLast?
  | i, cum, c :: hist =>
      if c = 0 then quantileFrom target (i + 1) cum hist
      else if target ≤ (cum + c : Nat) then do
        let (lower, upper) ← bucketBounds i
        match upper with
        | none => some lower
        | some upper => some (lower + (upper - lower) * ((target - cum) / c))
      else quantileFrom target (i + 1) (cum + c) hist

def quantile (hist : List Nat) (total : Nat) (q : ℚ) : Option ℚ :=
  if total = 0 then some 0 else quantileFrom (q * total) 0 0 hist

structure LatencyPercentiles where
  p50 : ℚ
  p90 : ℚ
  p99 : ℚ
  deriving DecidableEq

def percentiles (hist : List Nat) : Option LatencyPercentiles := do
  let total := hist.sum
  let p50 ← quantile hist total (50 / 100)
  let p90 ← quantile hist total (90 / 100)
  let p99 ← quantile hist total (99 / 100)
  some ⟨p50, p90, p99⟩

structure TopEntry where
  name : Text
  count : Nat
  deriving DecidableEq, Repr

/-- By count, the largest first, then by name. -/
def topNOf (map : Tally Text) (n : Nat) : List TopEntry :=
  let v : List TopEntry := map.entries.map fun e => ⟨e.1, e.2⟩
  (v.mergeSort fun a b => b.count < a.count || (a.count = b.count && textLe a.name b.name)).take n

def topClientsResolved (counts : Tally Text) (nameFor : Text → Option Text) (n : Nat) :
    List TopEntry :=
  let byLabel := counts.entries.foldl (fun m e => m.add ((nameFor e.1).getD e.1) e.2)
    (∅ : Tally Text)
  topNOf byLabel n

structure StatsSummary where
  total : Nat
  blocked : Nat
  cached : Nat
  rewritten : Nat
  errors : Nat
  blockRate : ℚ
  p95ProcessingMs : ℚ
  topResolvedDomains : List TopEntry
  topBlockedDomains : List TopEntry
  topClients : List TopEntry
  topUpstreams : List TopEntry
  upstreamLatencyPct : List (Text × LatencyPercentiles)
  series : List Bucket
  deriving DecidableEq

def Stats.snapshot (stats : Stats) (topN : Nat) (nameFor : Text → Option Text) :
    Option StatsSummary := do
  let s := stats.merged
  let p95 ← quantile s.procTimeHist s.procTimeHist.sum (95 / 100)
  let upstreamLatencyPct ← s.upstreamLatencyHist.entries.mapM fun e =>
    (percentiles e.2).map fun pct => (e.1, pct)
  some
    { total := s.total
      blocked := s.blocked
      cached := s.cached
      rewritten := s.rewritten
      errors := s.errors
      blockRate := if 0 < s.total then s.blocked / s.total else 0
      p95ProcessingMs := p95
      topResolvedDomains := topNOf s.resolvedDomains.counts topN
      topBlockedDomains := topNOf s.blockedDomains.counts topN
      topClients := topClientsResolved s.clients.counts nameFor topN
      topUpstreams := topNOf s.upstreams topN
      upstreamLatencyPct := upstreamLatencyPct
      series := s.series }

/-! ## Loading -/

/-- A text that cannot be decoded changes nothing. -/
def Stats.importText (parse : Text → Option StatsInner) (s : Stats) (json : Text) :
    Stats × CacheCounters :=
  match parse json with
  | none => (s, ⟨0, 0, 0, 0, 0⟩)
  | some loaded => s.import loaded

inductive StatsCall where
  | record (order : Iteration) (threadSlot : Nat) (entry : QueryLogEntry)
      (upstreamRttMs : Option ℚ)
  | snapshot (topN : Nat) (nameFor : Text → Option Text)
  | export (cache : CacheCounters)
  | reset

def callStep (s : Stats) : StatsCall → Option Stats
  | .record order threadSlot entry upstreamRttMs => s.record order threadSlot entry upstreamRttMs
  | .snapshot topN nameFor => (s.snapshot topN nameFor).map fun _ => s
  -- merging adds as far as both histograms reach, and indexes nothing
  | .export _ => some s
  | .reset => some s.reset

/-! ## The merged histograms -/

structure StatsInner.Readable (s : StatsInner) : Prop where
  procTime : s.procTimeHist.length ≤ emptyHist.length
  upstream : ∀ up hist, s.upstreamLatencyHist.lookup up = some hist →
    hist.length ≤ emptyHist.length

theorem length_resize (n : Nat) (hist : List Nat) : (resize n hist).length = n := by
  rw [resize, List.length_append, List.length_take, List.length_replicate]
  omega

theorem readable_mergeHist {hists : AList fun _ : Text => List Nat} {k : Text} {hist : List Nat}
    (h : ∀ up hist, hists.lookup up = some hist → hist.length ≤ emptyHist.length) (up : Text)
    (hist' : List Nat) (hlookup : (mergeHist hists k hist).lookup up = some hist') :
    hist'.length ≤ emptyHist.length := by
  rw [mergeHist] at hlookup
  by_cases hup : up = k
  · subst hup
    have hdst : ((hists.lookup up).getD emptyHist).length ≤ emptyHist.length := by
      cases hold : hists.lookup up with
      | none => exact le_rfl
      | some dst => exact h up dst hold
    rw [AList.lookup_insert] at hlookup
    cases hlookup
    split
    · rw [length_addInto]
      exact hdst
    · exact hdst
  · rw [AList.lookup_insert_ne hup] at hlookup
    exact h up hist' hlookup

theorem StatsInner.Readable.mergeFrom {s : StatsInner} (h : s.Readable) (other : StatsInner) :
    (s.mergeFrom other).Readable where
  procTime := by
    change (if other.procTimeHist = [] then s.procTimeHist else _ : List Nat).length ≤ _
    split
    · exact h.procTime
    · rw [length_addInto, length_resize]
      exact le_rfl
  upstream := by
    change ∀ up hist, (other.upstreamLatencyHist.entries.foldl (fun m e => mergeHist m e.1 e.2)
      s.upstreamLatencyHist).lookup up = some hist → hist.length ≤ emptyHist.length
    generalize other.upstreamLatencyHist.entries = entries
    have hstart := h.upstream
    generalize s.upstreamLatencyHist = hists at hstart
    induction entries generalizing hists with
    | nil => exact hstart
    | cons e entries ih => exact ih _ (readable_mergeHist hstart)

theorem readable_merged (s : Stats) : s.merged.Readable := by
  have hfold : ∀ (shards : List StatsInner) (acc : StatsInner), acc.Readable →
      (shards.foldl StatsInner.mergeFrom acc).Readable := by
    intro shards
    induction shards with
    | nil => exact fun _ h => h
    | cons shard shards ih => exact fun acc h => ih _ (h.mergeFrom shard)
  have hdefault : StatsInner.default.Readable := ⟨Nat.zero_le _, fun up hist h => by cases h⟩
  have hmerged := hfold s.shards .default hdefault
  exact ⟨hmerged.procTime, hmerged.upstream⟩

theorem isSome_bucketBounds {i : Nat} (hi : i < emptyHist.length) :
    (bucketBounds i).isSome = true := by
  rw [bucketBounds]
  cases i with
  | zero => rfl
  | succ i =>
      have hlt : i < latencyBucketsMs.length := by
        rw [length_emptyHist] at hi
        omega
      rw [if_neg (Nat.succ_ne_zero i), Nat.add_sub_cancel, List.getElem?_eq_getElem hlt]
      rfl

theorem isSome_quantileFrom (target : ℚ) {i : Nat} (cum : Nat) {hist : List Nat}
    (hlen : i + hist.length ≤ emptyHist.length) :
    (quantileFrom target i cum hist).isSome = true := by
  induction hist generalizing i cum with
  | nil => rfl
  | cons c hist ih =>
      rw [List.length_cons] at hlen
      rw [quantileFrom]
      split
      · exact ih cum (by omega)
      · split
        · obtain ⟨⟨lower, upper⟩, hbounds⟩ := Option.isSome_iff_exists.mp
            (@isSome_bucketBounds i (by omega))
          rw [hbounds]
          cases upper <;> rfl
        · exact ih (cum + c) (by omega)

theorem isSome_quantile {hist : List Nat} (hlen : hist.length ≤ emptyHist.length) (total : Nat)
    (q : ℚ) : (quantile hist total q).isSome = true := by
  rw [quantile]
  split
  · rfl
  · exact isSome_quantileFrom _ _ (by omega)

theorem isSome_percentiles {hist : List Nat} (hlen : hist.length ≤ emptyHist.length) :
    (percentiles hist).isSome = true := by
  obtain ⟨p50, h50⟩ := Option.isSome_iff_exists.mp (isSome_quantile hlen hist.sum (50 / 100))
  obtain ⟨p90, h90⟩ := Option.isSome_iff_exists.mp (isSome_quantile hlen hist.sum (90 / 100))
  obtain ⟨p99, h99⟩ := Option.isSome_iff_exists.mp (isSome_quantile hlen hist.sum (99 / 100))
  rw [percentiles, h50, h90, h99]
  rfl

theorem isSome_mapM {α β : Type} {f : α → Option β} {l : List α}
    (h : ∀ a ∈ l, (f a).isSome = true) : (l.mapM f).isSome = true := by
  induction l with
  | nil => rfl
  | cons a l ih =>
      obtain ⟨b, hb⟩ := Option.isSome_iff_exists.mp (h a List.mem_cons_self)
      obtain ⟨bs, hbs⟩ := Option.isSome_iff_exists.mp
        (ih fun a' ha' => h a' (List.mem_cons_of_mem _ ha'))
      rw [List.mapM_cons, hb, hbs]
      rfl

theorem isSome_snapshot (s : Stats) (topN : Nat) (nameFor : Text → Option Text) :
    (s.snapshot topN nameFor).isSome = true := by
  obtain ⟨hproc, hups⟩ := readable_merged s
  obtain ⟨p95, h95⟩ := Option.isSome_iff_exists.mp
    (isSome_quantile hproc s.merged.procTimeHist.sum (95 / 100))
  have hentries : ∀ e ∈ s.merged.upstreamLatencyHist.entries,
      ((percentiles e.2).map fun pct => (e.1, pct)).isSome = true := by
    intro e he
    rw [Option.isSome_map]
    exact isSome_percentiles (hups e.1 e.2 (AList.mem_lookup_iff.mpr he))
  obtain ⟨pct, hpct⟩ := Option.isSome_iff_exists.mp (isSome_mapM hentries)
  rw [Stats.snapshot]
  simp only [h95, hpct]
  rfl

/-! ## Recording into loaded histograms -/

structure StatsInner.Sized (s : StatsInner) : Prop where
  procTime : s.procTimeHist = [] ∨ emptyHist.length ≤ s.procTimeHist.length
  upstream : ∀ up hist, s.upstreamLatencyHist.lookup up = some hist →
    emptyHist.length ≤ hist.length

theorem sized_default : StatsInner.default.Sized := ⟨.inl rfl, fun up hist h => by cases h⟩

theorem bumpAt_of_sized {hist : List Nat} (h : emptyHist.length ≤ hist.length) (ms : ℚ) :
    ∃ hist', bumpAt hist (histIndex ms) = some hist' ∧ emptyHist.length ≤ hist'.length := by
  have hlt : histIndex ms < hist.length := Nat.lt_of_lt_of_le (histIndex_lt ms) h
  refine ⟨_, if_pos hlt, ?_⟩
  rw [List.length_modify]
  exact h

section

variable {s : StatsInner} (hs : s.Sized)

include hs

theorem StatsInner.Sized.recordProcTime (entry : QueryLogEntry) :
    ∃ hist, s.recordProcTime entry = some hist ∧
      (hist = [] ∨ emptyHist.length ≤ hist.length) := by
  rw [StatsInner.recordProcTime]
  split
  · exact ⟨_, rfl, hs.procTime⟩
  · have hstart : emptyHist.length ≤
        (if s.procTimeHist = [] then emptyHist else s.procTimeHist).length := by
      split
      · exact le_rfl
      · rename_i hne
        exact hs.procTime.resolve_left hne
    obtain ⟨hist, hbump, hlen⟩ := bumpAt_of_sized hstart entry.elapsedMs
    exact ⟨hist, hbump, .inr hlen⟩

theorem StatsInner.Sized.recordLatency (entry : QueryLogEntry) (rtt : Option ℚ) :
    ∃ hists, s.recordLatency entry rtt = some hists ∧
      ∀ up hist, hists.lookup up = some hist → emptyHist.length ≤ hist.length := by
  rw [StatsInner.recordLatency]
  cases entry.upstream with
  | none => exact ⟨_, rfl, hs.upstream⟩
  | some up =>
      have hstart : emptyHist.length ≤
          ((s.upstreamLatencyHist.lookup up).getD emptyHist).length := by
        cases hold : s.upstreamLatencyHist.lookup up with
        | none => exact le_rfl
        | some hist => exact hs.upstream up hist hold
      obtain ⟨hist, hbump, hlen⟩ := bumpAt_of_sized hstart (rtt.getD entry.elapsedMs)
      refine ⟨s.upstreamLatencyHist.insert up hist, ?_, fun up' hist' hlookup => ?_⟩
      · dsimp only
        rw [bumpHist, hbump]
        rfl
      · by_cases hup : up' = up
        · subst hup
          rw [AList.lookup_insert] at hlookup
          cases hlookup
          exact hlen
        · rw [AList.lookup_insert_ne hup] at hlookup
          exact hs.upstream up' hist' hlookup

theorem StatsInner.Sized.record (order : Iteration) (limits : Limits) (entry : QueryLogEntry)
    (rtt : Option ℚ) : ∃ s', s.record order limits entry rtt = some s' ∧ s'.Sized := by
  obtain ⟨hist, hhist, hproc⟩ := hs.recordProcTime entry
  obtain ⟨hists, hhists, hups⟩ := hs.recordLatency entry rtt
  refine ⟨s.counted order limits entry hist hists, ?_, hproc, hups⟩
  rw [StatsInner.record, hhist, hhists]
  rfl

end

/-- Statistics that every call leaves usable. -/
structure Stats.Safe (s : Stats) : Prop where
  nonempty : s.shards ≠ []
  sized : s.enabled = false ∨ ∀ shard ∈ s.shards, shard.Sized

theorem Stats.Safe.call {s : Stats} (h : s.Safe) (call : StatsCall) :
    ∃ t, callStep s call = some t ∧ t.Safe := by
  cases call with
  | record order slot entry rtt =>
      change ∃ t, s.record order slot entry rtt = some t ∧ t.Safe
      cases henabled : s.enabled with
      | false =>
          refine ⟨s, ?_, h⟩
          rw [Stats.record, henabled, if_neg (by simp)]
      | true =>
          have hall := h.sized.resolve_left (by simp [henabled])
          have hlt := s.shardIndex_lt h.nonempty slot
          obtain ⟨shard, hshard, hsized⟩ :=
            (hall _ (List.getElem_mem hlt)).record order s.limits entry rtt
          refine ⟨_, Stats.record_eq henabled (List.getElem?_eq_getElem hlt) hshard, ?_, .inr ?_⟩
          · rw [← List.length_pos_iff, List.length_set]
            omega
          · intro other hother
            rcases List.mem_or_eq_of_mem_set hother with hother | rfl
            · exact hall other hother
            · exact hsized
  | snapshot topN nameFor =>
      obtain ⟨summary, hsummary⟩ := Option.isSome_iff_exists.mp (isSome_snapshot s topN nameFor)
      exact ⟨s, by rw [callStep, hsummary]; rfl, h⟩
  | «export» cache => exact ⟨s, rfl, h⟩
  | reset =>
      refine ⟨s.reset, rfl, ?_, h.sized.imp_right fun _ shard hshard => ?_⟩
      · exact fun hnil => h.nonempty (List.map_eq_nil_iff.mp hnil)
      · obtain ⟨-, -, rfl⟩ := List.mem_map.mp hshard
        exact sized_default

def slowEntry (action : QueryAction) : QueryLogEntry :=
  { entryFor ['a', '.'] action with elapsedMs := 1001 }

theorem bumpAt_last {hist : List Nat} (h : hist.length < emptyHist.length) :
    bumpAt hist (histIndex 1001) = none := by
  have hlast : histIndex 1001 = latencyBucketsMs.length := by decide +kernel
  rw [length_emptyHist] at h
  rw [bumpAt, hlast, if_neg (by omega)]

theorem record_none_of_not_sized {s : StatsInner} (hs : ¬ s.Sized) (order : Iteration)
    (limits : Limits) : ∃ action, s.record order limits (slowEntry action) none = none := by
  by_cases hproc : s.procTimeHist = [] ∨ emptyHist.length ≤ s.procTimeHist.length
  · have hups : ¬ ∀ up hist, s.upstreamLatencyHist.lookup up = some hist →
        emptyHist.length ≤ hist.length := fun hups => hs ⟨hproc, hups⟩
    simp only [not_forall, not_le] at hups
    obtain ⟨up, hist, hlookup, hshort⟩ := hups
    refine ⟨.forwarded up, ?_⟩
    have hlatency : s.recordLatency (slowEntry (.forwarded up)) none = none := by
      change bumpHist s.upstreamLatencyHist up (histIndex 1001) = none
      rw [bumpHist, hlookup, Option.getD_some, bumpAt_last hshort]
      rfl
    rw [StatsInner.record, hlatency]
    cases s.recordProcTime (slowEntry (.forwarded up)) <;> rfl
  · rw [not_or, not_le] at hproc
    refine ⟨.cached, ?_⟩
    have hnone : s.recordProcTime (slowEntry .cached) = none := by
      change bumpAt (if s.procTimeHist = [] then emptyHist else s.procTimeHist) (histIndex 1001) =
        none
      rw [if_neg hproc.1, bumpAt_last hproc.2]
    rw [StatsInner.record, hnone]
    rfl

/-- Every sequence of calls after loading a file completes if and only if nothing is
recorded, or the histograms of the file have a bucket for every latency. -/
theorem import_safe_iff (parse : Text → Option StatsInner) {s : Stats} (hshards : s.shards ≠ [])
    {json : Text} {loaded : StatsInner} (haccept : parse json = some loaded) :
    (∀ calls, (runFrom callStep (s.importText parse json).1 calls).isSome = true) ↔
      s.enabled = false ∨
        (loaded.procTimeHist = [] ∨ latencyBucketsMs.length + 1 ≤ loaded.procTimeHist.length) ∧
        ∀ up hist, loaded.upstreamLatencyHist.lookup up = some hist →
          latencyBucketsMs.length + 1 ≤ hist.length := by
  have hshape : (loaded.procTimeHist = [] ∨
      latencyBucketsMs.length + 1 ≤ loaded.procTimeHist.length) ∧
      (∀ up hist, loaded.upstreamLatencyHist.lookup up = some hist →
        latencyBucketsMs.length + 1 ≤ hist.length) ↔ loaded.Sized :=
    ⟨fun h => ⟨h.1, h.2⟩, fun h => ⟨h.procTime, h.upstream⟩⟩
  rw [hshape]
  have hload : (s.importText parse json).1 = (s.import loaded).1 := by
    rw [Stats.importText, haccept]
  have hshardsOf := @shards_import s loaded hshards
  rw [hload]
  constructor
  · intro hall
    by_contra hbad
    rw [not_or, Bool.not_eq_false] at hbad
    obtain ⟨henabled, hsized⟩ := hbad
    obtain ⟨action, hnone⟩ := record_none_of_not_sized hsized storedOrder s.limits
    have hcall := hall [.record storedOrder 0 (slowEntry action) none]
    have hfirst : (s.import loaded).1.record storedOrder 0 (slowEntry action) none = none := by
      have henabled' : (s.import loaded).1.enabled = true := henabled
      rw [Stats.record, if_pos henabled', Stats.shardIndex, Nat.zero_and, hshardsOf]
      change (loaded.record storedOrder s.limits (slowEntry action) none).bind _ = none
      rw [hnone]
      rfl
    rw [runFrom, callStep, hfirst] at hcall
    cases hcall
  · intro hgood calls
    have hsafe : (s.import loaded).1.Safe := by
      refine ⟨by rw [hshardsOf]; exact List.cons_ne_nil _ _, hgood.imp_right fun hsized => ?_⟩
      intro shard hshard
      rw [hshardsOf] at hshard
      rcases List.mem_cons.mp hshard with rfl | hshard
      · exact hsized
      · rw [List.eq_of_mem_replicate hshard]
        exact sized_default
    obtain ⟨t, ht, -⟩ : ∃ t, runFrom callStep (s.import loaded).1 calls = some t ∧ t.Safe :=
      runFrom_progress (A := fun _ => True) (H := fun _ (t : Stats) => t.Safe) hsafe
        (fun _ t call _ h => h.call call) fun _ _ => trivial
    rw [ht]
    rfl

def fileWith (buckets : Nat) : Text :=
  "\x7b\"total\":0,\"blocked\":0,\"cached\":0,\"rewritten\":0,\"errors\":0,".toList ++
  "\"proc_time_hist\":[".toList ++ joinWith [','] (List.replicate buckets ['0']) ++
  "],\"blocked_domains\":\x7b\x7d,\"clients\":\x7b\x7d,\"upstreams\":\x7b\x7d,".toList ++
  "\"upstream_rtt_sum\":\x7b\x7d,\"upstream_rtt_count\":\x7b\x7d\x7d".toList

def loadedWith (buckets : Nat) : StatsInner :=
  { StatsInner.default with procTimeHist := List.replicate buckets 0 }

def parseFile (buckets : Nat) (json : Text) : Option StatsInner :=
  if json = fileWith buckets then some (loadedWith buckets) else none

theorem import_safe_moreBuckets :
    parseFile 16 (fileWith 16) = some (loadedWith 16) ∧
    ∀ calls, (runFrom callStep
      ((Stats.new 2 true 1 false).importText (parseFile 16) (fileWith 16)).1 calls).isSome =
        true := by
  have hshards : (Stats.new 2 true 1 false).shards ≠ [] := List.cons_ne_nil _ _
  refine ⟨if_pos rfl, ?_⟩
  refine (import_safe_iff (parseFile 16) hshards (if_pos rfl)).mpr (.inr ⟨.inr ?_, ?_⟩)
  · decide
  · intro up hist h
    cases h

/-- A file with fewer buckets, and a query that took more than a second. -/
theorem record_panics_fewerBuckets :
    runFrom callStep ((Stats.new 2 true 1 false).importText (parseFile 8) (fileWith 8)).1
      [.record storedOrder 0 (slowEntry .cached) none] = none := by
  decide +kernel

end Bulwark.Engine
