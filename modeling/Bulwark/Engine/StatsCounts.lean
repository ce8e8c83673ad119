import Bulwark.Engine.Stats

/-!
# Conservation of counts

Every recorded query is counted once: in the total, under one name, and in one
bucket of a histogram or among the errors.  The equations hold in every shard and
survive merging, so they hold in what is shown and in what a restart loads.
-/

namespace Bulwark.Engine

open Bulwark.Foundation

/-! ## Histograms -/

theorem histIndex_lt (ms : ℚ) : histIndex ms < emptyHist.length := by
  rw [histIndex, emptyHist, List.length_replicate]
  exact Nat.lt_succ_of_le List.findIdx_le_length

theorem sum_modify {hist : List Nat} {i : Nat} (h : i < hist.length) :
    (hist.modify i (· + 1)).sum = hist.sum + 1 := by
  induction hist generalizing i with
  | nil => cases h
  | cons a hist ih =>
      cases i with
      | zero =>
          rw [List.modify_zero_cons, List.sum_cons, List.sum_cons]
          omega
      | succ i =>
          rw [List.modify_succ_cons, List.sum_cons, List.sum_cons,
            ih (Nat.lt_of_succ_lt_succ h)]
          omega

theorem sum_set {l : List Nat} {i : Nat} (h : i < l.length) (a : Nat) :
    (l.set i a).sum + l[i] = l.sum + a := by
  induction l generalizing i with
  | nil => cases h
  | cons b l ih =>
      cases i with
      | zero =>
          rw [List.set_cons_zero, List.sum_cons, List.sum_cons, List.getElem_cons_zero]
          omega
      | succ i =>
          have := ih (Nat.lt_of_succ_lt_succ h)
          rw [List.set_cons_succ, List.sum_cons, List.sum_cons, List.getElem_cons_succ]
          omega

theorem bumpAt_of_length {hist : List Nat} (h : hist.length = emptyHist.length) (ms : ℚ) :
    ∃ hist', bumpAt hist (histIndex ms) = some hist' ∧
      hist'.length = emptyHist.length ∧ hist'.sum = hist.sum + 1 := by
  have hlt : histIndex ms < hist.length := h ▸ histIndex_lt ms
  refine ⟨_, if_pos hlt, ?_, sum_modify hlt⟩
  rw [List.length_modify, h]

theorem length_addInto (as bs : List Nat) : (addInto as bs).length = as.length := by
  induction as generalizing bs with
  | nil => rfl
  | cons a as ih =>
      cases bs with
      | nil => rfl
      | cons b bs => rw [addInto, List.length_cons, List.length_cons, ih]

theorem sum_addInto {as bs : List Nat} (h : as.length = bs.length) :
    (addInto as bs).sum = as.sum + bs.sum := by
  induction as generalizing bs with
  | nil =>
      cases bs with
      | nil => rfl
      | cons b bs => cases h
  | cons a as ih =>
      cases bs with
      | nil => cases h
      | cons b bs =>
          rw [addInto, List.sum_cons, List.sum_cons, List.sum_cons, ih (Nat.succ.inj h)]
          omega

@[simp] theorem length_emptyHist : emptyHist.length = latencyBucketsMs.length + 1 :=
  List.length_replicate

@[simp] theorem sum_emptyHist : emptyHist.sum = 0 := rfl

/-- Either nothing was counted yet or every bucket is there. -/
def HistShape (hist : List Nat) : Prop := hist = [] ∨ hist.length = emptyHist.length

theorem HistShape.resize {hist : List Nat} (h : HistShape hist) :
    (resize (latencyBucketsMs.length + 1) hist).length = emptyHist.length ∧
      (resize (latencyBucketsMs.length + 1) hist).sum = hist.sum := by
  rcases h with rfl | h
  · exact ⟨rfl, sum_emptyHist⟩
  · rw [length_emptyHist] at h
    rw [Engine.resize, h, Nat.sub_self, List.replicate_zero, List.append_nil,
      List.take_of_length_le (le_of_eq h)]
    exact ⟨h, rfl⟩

/-! ## Top names -/

section

variable {order : Iteration} {h : HeavyHitters} {key : Text} {n cap : Nat}

/-- What a bump does: count a known key, add one while there is room, or replace a least one. -/
theorem bump_cases (hcap : 0 < cap) :
    (∃ v, h.counts.lookup key = some v ∧
      h.bump order key n cap = ⟨h.counts.insert key (v + n)⟩) ∨
    (h.counts.lookup key = none ∧ h.counts.keys.length < cap ∧
      h.bump order key n cap = ⟨h.counts.insert key n⟩) ∨
    (h.counts.lookup key = none ∧ cap ≤ h.counts.keys.length ∧
      ∃ k v, h.counts.lookup k = some v ∧ (∀ e ∈ h.counts.entries, v ≤ e.2) ∧
        h.bump order key n cap = ⟨(h.counts.erase k).insert key (v + n)⟩) := by
  rw [HeavyHitters.bump]
  cases hkey : h.counts.lookup key with
  | some v => exact .inl ⟨v, rfl, rfl⟩
  | none =>
      refine .inr ?_
      dsimp only
      split
      · rename_i hroom
        exact .inl ⟨rfl, hroom, rfl⟩
      · rename_i hfull
        have hle := Nat.le_of_not_lt hfull
        refine .inr ⟨rfl, hle, ?_⟩
        cases hleast : (order.visit h.counts.entries).argmin (·.2) with
        | none =>
            have hnil := List.argmin_eq_none.mp hleast
            have hperm := (order.perm h.counts.entries).length_eq
            have hlen : h.counts.keys.length = h.counts.entries.length := List.length_map ..
            rw [hnil, List.length_nil] at hperm
            omega
        | some least =>
            have hmem := (order.perm _).mem_iff.mp (List.argmin_mem hleast)
            refine ⟨least.1, least.2, ?_, ?_, rfl⟩
            · exact AList.mem_lookup_iff.mpr hmem
            · intro e he
              have hvisit := (order.perm _).mem_iff.mpr he
              exact Nat.le_of_not_lt (List.not_lt_of_mem_argmin hvisit hleast)

theorem total_bump (hcap : 0 < cap) :
    (h.bump order key n cap).counts.total = h.counts.total + n := by
  rcases bump_cases hcap with ⟨v, hkey, heq⟩ | ⟨hkey, -, heq⟩ | ⟨hkey, -, k, v, hk, -, heq⟩
  · have hinsert := Tally.total_insert h.counts key (v + n)
    rw [Tally.get_of_lookup hkey] at hinsert
    rw [heq]
    dsimp only
    omega
  · have hinsert := Tally.total_insert h.counts key n
    rw [Tally.get_of_lookup_none hkey] at hinsert
    rw [heq]
    exact hinsert
  · have herase := Tally.total_erase h.counts k
    have hinsert := Tally.total_insert (h.counts.erase k) key (v + n)
    have hgone : (h.counts.erase k).lookup key = none := by
      rw [AList.lookup_eq_none] at hkey ⊢
      exact fun hmem => hkey (AList.mem_erase.mp hmem).2
    rw [Tally.get_of_lookup_none hgone] at hinsert
    rw [Tally.get_of_lookup hk] at herase
    rw [heq]
    dsimp only
    omega

end

/-! ## One shard -/

/-- Every query of the shard is counted once in each way. -/
structure Balanced (s : StatsInner) : Prop where
  blocked : s.blocked = s.blockedDomains.counts.total
  total : s.total = s.blockedDomains.counts.total + s.resolvedDomains.counts.total
  hist : s.procTimeHist.sum + s.errors = s.total
  histShape : HistShape s.procTimeHist
  upstreamShape : ∀ up hist, s.upstreamLatencyHist.lookup up = some hist →
    hist.length = emptyHist.length
  upstream : ∀ up, ((s.upstreamLatencyHist.lookup up).getD []).sum = s.upstreamRttCount.get up

theorem balanced_default : Balanced .default where
  blocked := rfl
  total := rfl
  hist := rfl
  histShape := .inl rfl
  upstreamShape := by
    intro up hist h
    cases h
  upstream _ := rfl

theorem sum_getD_emptyHist (o : Option (List Nat)) : (o.getD emptyHist).sum = (o.getD []).sum := by
  cases o with
  | none => exact sum_emptyHist
  | some hist => rfl

theorem lookup_mergeHist {hists : AList fun _ : Text => List Nat} {k : Text} {hist : List Nat}
    (hshape : ∀ up hist, hists.lookup up = some hist → hist.length = emptyHist.length)
    (hlen : hist.length = emptyHist.length) :
    (∀ up hist', (mergeHist hists k hist).lookup up = some hist' →
      hist'.length = emptyHist.length) ∧
      ∀ up, (((mergeHist hists k hist).lookup up).getD []).sum =
        ((hists.lookup up).getD []).sum + if up = k then hist.sum else 0 := by
  have hdst : ((hists.lookup k).getD emptyHist).length = emptyHist.length := by
    cases h : hists.lookup k with
    | none => rfl
    | some dst => exact hshape k dst h
  have hsame := hdst.trans hlen.symm
  constructor
  · intro up hist' h
    rw [mergeHist] at h
    by_cases hup : up = k
    · subst hup
      rw [AList.lookup_insert, if_pos hsame] at h
      cases h
      rw [length_addInto, hdst]
    · rw [AList.lookup_insert_ne hup] at h
      exact hshape up hist' h
  · intro up
    rw [mergeHist]
    by_cases hup : up = k
    · subst hup
      rw [AList.lookup_insert, if_pos hsame, Option.getD_some, sum_addInto hsame, if_pos rfl,
        sum_getD_emptyHist]
    · rw [AList.lookup_insert_ne hup, if_neg hup, Nat.add_zero]

section

variable {s : StatsInner} (hs : Balanced s)

include hs

theorem Balanced.histAt (up : Text) :
    ((s.upstreamLatencyHist.lookup up).getD emptyHist).length = emptyHist.length := by
  cases h : s.upstreamLatencyHist.lookup up with
  | none => rfl
  | some hist => exact hs.upstreamShape up hist h

theorem Balanced.recordLatency (entry : QueryLogEntry) (rtt : Option ℚ) :
    ∃ hists, s.recordLatency entry rtt = some hists ∧
      (∀ up hist, hists.lookup up = some hist → hist.length = emptyHist.length) ∧
      ∀ up, ((hists.lookup up).getD []).sum =
        (match entry.upstream with
          | some up => s.upstreamRttCount.add up 1
          | none => s.upstreamRttCount).get up := by
  rw [StatsInner.recordLatency]
  cases entry.upstream with
  | none => exact ⟨_, rfl, hs.upstreamShape, hs.upstream⟩
  | some up =>
      obtain ⟨hist, hbump, hlen, hsum⟩ :=
        bumpAt_of_length (hs.histAt up) (rtt.getD entry.elapsedMs)
      refine ⟨s.upstreamLatencyHist.insert up hist, ?_, ?_, ?_⟩
      · dsimp only
        rw [bumpHist, hbump]
        rfl
      · intro up' hist' h
        by_cases hup : up' = up
        · subst hup
          rw [AList.lookup_insert] at h
          cases h
          exact hlen
        · rw [AList.lookup_insert_ne hup] at h
          exact hs.upstreamShape up' hist' h
      · intro up'
        dsimp only
        rw [Tally.get_add]
        by_cases hup : up' = up
        · subst hup
          rw [AList.lookup_insert, Option.getD_some, hsum, if_pos rfl, ← hs.upstream,
            sum_getD_emptyHist]
        · rw [AList.lookup_insert_ne hup, if_neg hup, hs.upstream, Nat.add_zero]

theorem Balanced.recordProcTime (entry : QueryLogEntry) :
    ∃ hist, s.recordProcTime entry = some hist ∧ HistShape hist ∧
      hist.sum + (if entry.isError then 1 else 0) = s.procTimeHist.sum + 1 := by
  rw [StatsInner.recordProcTime]
  cases entry.isError with
  | true => exact ⟨s.procTimeHist, rfl, hs.histShape, rfl⟩
  | false =>
      have hshape : (if s.procTimeHist = [] then emptyHist else s.procTimeHist).length =
            emptyHist.length ∧
          (if s.procTimeHist = [] then emptyHist else s.procTimeHist).sum =
            s.procTimeHist.sum := by
        split
        · rename_i hnil
          rw [hnil]
          exact ⟨rfl, sum_emptyHist⟩
        · rename_i hcons
          exact ⟨hs.histShape.resolve_left hcons, rfl⟩
      obtain ⟨hist, hbump, hlen, hsum⟩ := bumpAt_of_length hshape.1 entry.elapsedMs
      exact ⟨hist, hbump, .inr hlen, by rw [hsum, hshape.2]; rfl⟩

theorem Balanced.counted (order : Iteration) {limits : Limits} (hcap : 0 < limits.keyCap)
    {entry : QueryLogEntry} {hist : List Nat} {hists : AList fun _ : Text => List Nat}
    (hshape : HistShape hist)
    (hsum : hist.sum + (if entry.isError then 1 else 0) = s.procTimeHist.sum + 1)
    (hshapes : ∀ up hist, hists.lookup up = some hist → hist.length = emptyHist.length)
    (hsums : ∀ up, ((hists.lookup up).getD []).sum =
      (match entry.upstream with
        | some up => s.upstreamRttCount.add up 1
        | none => s.upstreamRttCount).get up) :
    Balanced (s.counted order limits entry hist hists) := by
  have herrors : (s.counted order limits entry hist hists).errors =
      s.errors + if entry.isError then 1 else 0 := by
    rw [StatsInner.counted, QueryLogEntry.isError]
    cases entry.action <;> rfl
  have hblocked := hs.blocked
  have htotal := hs.total
  have hhist := hs.hist
  refine ⟨?_, ?_, ?_, hshape, hshapes, hsums⟩
  · rw [StatsInner.counted]
    cases entry.isBlocked with
    | true =>
        simp only [if_true, total_bump hcap]
        omega
    | false => exact hblocked
  · rw [StatsInner.counted]
    cases entry.isBlocked with
    | true =>
        simp only [if_true, total_bump hcap]
        omega
    | false =>
        simp only [Bool.false_eq_true, if_false, total_bump hcap]
        omega
  · rw [herrors]
    change hist.sum + _ = s.total + 1
    omega

theorem Balanced.record (order : Iteration) {limits : Limits} (hcap : 0 < limits.keyCap)
    (entry : QueryLogEntry) (rtt : Option ℚ) :
    ∃ hist hists,
      s.record order limits entry rtt = some (s.counted order limits entry hist hists) ∧
        Balanced (s.counted order limits entry hist hists) := by
  obtain ⟨hist, hhist, hshape, hsum⟩ := hs.recordProcTime entry
  obtain ⟨hists, hhists, hshapes, hsums⟩ := hs.recordLatency entry rtt
  refine ⟨hist, hists, ?_, ?_⟩
  · rw [StatsInner.record, hhist, hhists]
    rfl
  · exact hs.counted order hcap hshape hsum hshapes hsums

theorem Balanced.mergeHists {hists : AList fun _ : Text => List Nat}
    (hshape : ∀ up hist, hists.lookup up = some hist → hist.length = emptyHist.length) :
    let merged := s.upstreamLatencyHist.entries.foldl (fun m e => mergeHist m e.1 e.2) hists
    (∀ up hist, merged.lookup up = some hist → hist.length = emptyHist.length) ∧
      ∀ up, ((merged.lookup up).getD []).sum =
        ((hists.lookup up).getD []).sum + s.upstreamRttCount.get up := by
  have hfold : ∀ (l : List (Sigma fun _ : Text => List Nat)), l.NodupKeys →
      (∀ e ∈ l, e.2.length = emptyHist.length) →
      ∀ hists : AList fun _ : Text => List Nat,
      (∀ up hist, hists.lookup up = some hist → hist.length = emptyHist.length) →
      let merged := l.foldl (fun m e => mergeHist m e.1 e.2) hists
      (∀ up hist, merged.lookup up = some hist → hist.length = emptyHist.length) ∧
        ∀ up, ((merged.lookup up).getD []).sum =
          ((hists.lookup up).getD []).sum + ((l.dlookup up).getD []).sum := by
    intro l
    induction l with
    | nil =>
        intro _ _ hists hshape
        exact ⟨hshape, fun up => rfl⟩
    | cons e l ih =>
        intro hkeys hlens hists hshape
        obtain ⟨hnot, hrest⟩ := List.nodupKeys_cons.mp hkeys
        obtain ⟨hshape', hlookup⟩ := lookup_mergeHist hshape (hlens e List.mem_cons_self)
        obtain ⟨hshapes, hsums⟩ := ih hrest (fun e' he' => hlens e' (List.mem_cons_of_mem _ he'))
          (mergeHist hists e.1 e.2) hshape'
        refine ⟨hshapes, fun up => ?_⟩
        rw [List.foldl_cons, hsums, hlookup]
        by_cases hup : up = e.1
        · subst hup
          rw [if_pos rfl, List.dlookup_cons_eq, List.dlookup_eq_none.mpr hnot]
          rfl
        · rw [if_neg hup, List.dlookup_cons_ne l e hup, Nat.add_zero]
  have hentries : ∀ e ∈ s.upstreamLatencyHist.entries, e.2.length = emptyHist.length := by
    intro e he
    exact hs.upstreamShape e.1 e.2 (AList.mem_lookup_iff.mpr he)
  obtain ⟨hshapes, hsums⟩ := hfold _ s.upstreamLatencyHist.nodupKeys hentries hists hshape
  refine ⟨hshapes, fun up => ?_⟩
  rw [hsums, ← hs.upstream]
  rfl

end

theorem Balanced.mergeFrom {s other : StatsInner} (hs : Balanced s) (ho : Balanced other) :
    Balanced (s.mergeFrom other) := by
  have hhist : HistShape (s.mergeFrom other).procTimeHist ∧
      (s.mergeFrom other).procTimeHist.sum =
        s.procTimeHist.sum + other.procTimeHist.sum := by
    rw [StatsInner.mergeFrom]
    dsimp only
    split
    · rename_i hnil
      rw [hnil]
      exact ⟨hs.histShape, rfl⟩
    · rename_i hcons
      obtain ⟨hlen, hsum⟩ := hs.histShape.resize
      have hother := ho.histShape.resolve_left hcons
      refine ⟨.inr (by rw [length_addInto, hlen]), ?_⟩
      rw [sum_addInto (hlen.trans hother.symm), hsum]
  obtain ⟨hshapes, hsums⟩ := ho.mergeHists hs.upstreamShape
  have hblocked : (s.mergeFrom other).blockedDomains.counts.total =
      s.blockedDomains.counts.total + other.blockedDomains.counts.total :=
    Tally.total_merge ..
  have hresolved : (s.mergeFrom other).resolvedDomains.counts.total =
      s.resolvedDomains.counts.total + other.resolvedDomains.counts.total :=
    Tally.total_merge ..
  refine ⟨?_, ?_, ?_, hhist.1, hshapes, ?_⟩
  · rw [hblocked, ← hs.blocked, ← ho.blocked]
    rfl
  · have hst := hs.total
    have hot := ho.total
    rw [hblocked, hresolved]
    change s.total + other.total = _
    omega
  · have hsh := hs.hist
    have hoh := ho.hist
    rw [hhist.2]
    change _ + (s.errors + other.errors) = s.total + other.total
    omega
  · intro up
    have hmerge : (s.mergeFrom other).upstreamRttCount.get up =
        s.upstreamRttCount.get up + other.upstreamRttCount.get up := Tally.get_merge ..
    rw [hmerge, ← hs.upstream]
    exact hsums up

/-! ## All shards -/

theorem balanced_foldl {shards : List StatsInner} {acc : StatsInner} (hacc : Balanced acc)
    (h : ∀ shard ∈ shards, Balanced shard) :
    Balanced (shards.foldl StatsInner.mergeFrom acc) ∧
      (shards.foldl StatsInner.mergeFrom acc).total =
        acc.total + (shards.map (·.total)).sum := by
  induction shards generalizing acc with
  | nil => exact ⟨hacc, rfl⟩
  | cons shard shards ih =>
      obtain ⟨hbalanced, htotal⟩ := ih (hacc.mergeFrom (h shard List.mem_cons_self))
        fun other hother => h other (List.mem_cons_of_mem _ hother)
      refine ⟨hbalanced, ?_⟩
      rw [List.foldl_cons, htotal, List.map_cons, List.sum_cons, ← Nat.add_assoc]
      rfl

/-- Every shard is balanced, and together they count `n` queries. -/
structure Counts (stats : Stats) (n : Nat) : Prop where
  nonempty : stats.shards ≠ []
  enabled : stats.enabled = true
  cap : 0 < stats.limits.keyCap
  balanced : ∀ shard ∈ stats.shards, Balanced shard
  total : (stats.shards.map (·.total)).sum = n

section

variable {stats : Stats} {n : Nat}

theorem Counts.merged (h : Counts stats n) : Balanced stats.merged ∧ stats.merged.total = n := by
  obtain ⟨hbalanced, htotal⟩ := balanced_foldl balanced_default h.balanced
  refine ⟨?_, ?_⟩
  · exact ⟨hbalanced.blocked, hbalanced.total, hbalanced.hist, hbalanced.histShape,
      hbalanced.upstreamShape, hbalanced.upstream⟩
  · rw [← h.total, ← Nat.zero_add (List.sum _)]
    exact htotal

theorem shards_import {loaded : StatsInner} (h : stats.shards ≠ []) :
    (stats.import loaded).1.shards =
      loaded :: List.replicate (stats.shards.length - 1) .default := by
  rw [Stats.import, List.mapIdx_eq_iff]
  intro i
  cases i with
  | zero => simp [List.getElem?_eq_getElem (List.length_pos_of_ne_nil h)]
  | succ i =>
      rw [List.getElem?_cons_succ, List.getElem?_replicate]
      split
      · rename_i hi
        have hlt : i + 1 < stats.shards.length := by omega
        rw [List.getElem?_eq_getElem hlt]
        rfl
      · rename_i hi
        have hge : stats.shards.length ≤ i + 1 := by omega
        rw [List.getElem?_eq_none hge]
        rfl

theorem Stats.shardIndex_lt (stats : Stats) (h : stats.shards ≠ []) (slot : Nat) :
    stats.shardIndex slot < stats.shards.length := by
  have hle : stats.shardIndex slot ≤ stats.shards.length - 1 := Nat.and_le_right
  have hpos := List.length_pos_of_ne_nil h
  omega

theorem Stats.record_eq {order : Iteration} {slot : Nat} {entry : QueryLogEntry}
    {rtt : Option ℚ} {shard shard' : StatsInner} (henabled : stats.enabled = true)
    (hshard : stats.shards[stats.shardIndex slot]? = some shard)
    (hrecord : shard.record order stats.limits entry rtt = some shard') :
    stats.record order slot entry rtt =
      some { stats with shards := stats.shards.set (stats.shardIndex slot) shard' } := by
  rw [Stats.record, if_pos henabled]
  simp only [hshard, hrecord, Option.bind_eq_bind, Option.bind_some]

theorem Counts.record (h : Counts stats n) (order : Iteration) (slot : Nat)
    (entry : QueryLogEntry) (rtt : Option ℚ) :
    ∃ t, stats.record order slot entry rtt = some t ∧ Counts t (n + 1) := by
  have hlt := stats.shardIndex_lt h.nonempty slot
  obtain ⟨shard, hget⟩ : ∃ shard, stats.shards[stats.shardIndex slot] = shard := ⟨_, rfl⟩
  have hmem : shard ∈ stats.shards := hget ▸ List.getElem_mem hlt
  obtain ⟨hist, hists, hshard, hbalanced⟩ := (h.balanced _ hmem).record order h.cap entry rtt
  refine ⟨_, Stats.record_eq h.enabled (by rw [List.getElem?_eq_getElem hlt, hget]) hshard, ?_⟩
  · refine ⟨?_, h.enabled, h.cap, ?_, ?_⟩
    · rw [← List.length_pos_iff, List.length_set]
      omega
    · intro other hother
      rcases List.mem_or_eq_of_mem_set hother with hother | rfl
      · exact h.balanced other hother
      · exact hbalanced
    · have hlt' : stats.shardIndex slot < (stats.shards.map (·.total)).length := by
        rw [List.length_map]
        exact hlt
      have hsum := sum_set hlt' (shard.total + 1)
      rw [List.getElem_map, hget, h.total] at hsum
      rw [List.map_set]
      change ((stats.shards.map (·.total)).set _ (shard.total + 1)).sum = n + 1
      omega

theorem Counts.reset (h : Counts stats n) : Counts stats.reset 0 := by
  refine ⟨?_, h.enabled, h.cap, ?_, ?_⟩
  · intro hnil
    exact h.nonempty (List.map_eq_nil_iff.mp hnil)
  · intro shard hshard
    obtain ⟨_, -, rfl⟩ := List.mem_map.mp hshard
    exact balanced_default
  · simp [Stats.reset, StatsInner.default]

theorem counts_import {loaded : StatsInner} (hnonempty : stats.shards ≠ [])
    (henabled : stats.enabled = true) (hcap : 0 < stats.limits.keyCap)
    (hloaded : Balanced loaded) : Counts (stats.import loaded).1 loaded.total := by
  refine ⟨?_, henabled, hcap, ?_, ?_⟩
  · rw [shards_import hnonempty]
    exact List.cons_ne_nil _ _
  · rw [shards_import hnonempty]
    intro shard hshard
    rcases List.mem_cons.mp hshard with rfl | hshard
    · exact hloaded
    · rw [List.eq_of_mem_replicate hshard]
      exact balanced_default
  · rw [shards_import hnonempty, List.map_cons, List.sum_cons, List.map_replicate]
    simp [StatsInner.default]

end

/-! ## Runs -/

/-- Queries are recorded, statistics are reset or reconfigured, processes restart. -/
def StatsAction.keepsCounting : StatsAction → Bool
  | .record _ _ _ _ => true
  | .save _ => true
  | .load _ => false
  | .restart _ shards => shards != 0
  | .reset => true
  | .reconfigure enabled _ _ => enabled

theorem recordedSinceReset_snoc (as : List StatsAction) (a : StatsAction) :
    recordedSinceReset (as ++ [a]) =
      match a with
      | .record _ _ entry _ => recordedSinceReset as ++ [entry]
      | .reset => []
      | _ => recordedSinceReset as := by
  rw [recordedSinceReset, List.foldl_append, List.foldl_cons, List.foldl_nil]
  rfl

theorem counts_step {as : List StatsAction} {w : StatsWorld} {a : StatsAction}
    (ha : a.keepsCounting = true) (h : Counts w.stats (recordedSinceReset as).length) :
    ∃ u, statsStep w a = some u ∧ Counts u.stats (recordedSinceReset (as ++ [a])).length := by
  rw [recordedSinceReset_snoc]
  cases a with
  | record order slot entry rtt =>
      obtain ⟨t, ht, hcounts⟩ := h.record order slot entry rtt
      refine ⟨{ w with stats := t }, ?_, ?_⟩
      · rw [statsStep, ht]
        rfl
      · dsimp only
        rw [List.length_append]
        exact hcounts
  | save cache => exact ⟨_, rfl, h⟩
  | load file => cases ha
  | restart cache shards =>
      have hshards : shards ≠ 0 := by simpa [StatsAction.keepsCounting] using ha
      refine ⟨_, if_neg hshards, ?_⟩
      obtain ⟨hbalanced, htotal⟩ := h.merged
      dsimp only
      rw [← htotal]
      refine counts_import ?_ ?_ ?_ ?_
      · rw [← List.length_pos_iff]
        simpa [Stats.fresh, Nat.pos_iff_ne_zero] using hshards
      · exact h.enabled
      · exact lt_of_lt_of_le (by decide) (Nat.le_max_right _ 256)
      · exact ⟨hbalanced.blocked, hbalanced.total, hbalanced.hist, hbalanced.histShape,
          hbalanced.upstreamShape, hbalanced.upstream⟩
  | reset => exact ⟨_, rfl, h.reset⟩
  | reconfigure enabled days anonymize =>
      refine ⟨_, rfl, ?_, ha, h.cap, ?_, ?_⟩
      · intro hnil
        exact h.nonempty (List.map_eq_nil_iff.mp hnil)
      · intro shard hshard
        obtain ⟨shard', hshard', rfl⟩ := List.mem_map.mp hshard
        have hbalanced := h.balanced shard' hshard'
        exact ⟨hbalanced.blocked, hbalanced.total, hbalanced.hist, hbalanced.histShape,
          hbalanced.upstreamShape, hbalanced.upstream⟩
      · rw [← h.total]
        simp [Stats.reconfigure, List.map_map, Function.comp_def]

theorem counts_new {shards : Nat} (hshards : 0 < shards) (days : UInt32) (anonymize : Bool) :
    Counts (Stats.new shards true days anonymize) 0 := by
  refine ⟨?_, rfl, lt_of_lt_of_le (by decide) (Nat.le_max_right _ 256), ?_, ?_⟩
  · rw [← List.length_pos_iff]
    simpa [Stats.new] using hshards
  · intro shard hshard
    rw [List.eq_of_mem_replicate hshard]
    exact balanced_default
  · simp [Stats.new, StatsInner.default]

theorem counts_run {stats : Stats} (h : Counts stats 0) {as : List StatsAction}
    (has : ∀ a ∈ as, a.keepsCounting = true) :
    ∃ w, runFrom statsStep ⟨stats, []⟩ as = some w ∧
      Counts w.stats (recordedSinceReset as).length :=
  runFrom_progress (H := fun as (w : StatsWorld) => Counts w.stats (recordedSinceReset as).length)
    h (fun _ _ _ ha h => counts_step ha h) has

/--
However queries are spread over the shards, and through any resets and restarts:
the merged statistics count every query recorded since the last reset once.
-/
theorem merged_conserved {shards : Nat} (hshards : 0 < shards) (days : UInt32)
    (anonymize : Bool) {as : List StatsAction} (has : ∀ a ∈ as, a.keepsCounting = true) :
    ∃ w, runFrom statsStep ⟨Stats.new shards true days anonymize, []⟩ as = some w ∧
      w.stats.merged.total = (recordedSinceReset as).length ∧
      w.stats.merged.blocked = w.stats.merged.blockedDomains.counts.total ∧
      w.stats.merged.total = w.stats.merged.blockedDomains.counts.total +
        w.stats.merged.resolvedDomains.counts.total ∧
      w.stats.merged.procTimeHist.sum + w.stats.merged.errors = w.stats.merged.total ∧
      ∀ up, ((w.stats.merged.upstreamLatencyHist.lookup up).getD []).sum =
        w.stats.merged.upstreamRttCount.get up := by
  obtain ⟨w, hrun, hcounts⟩ := counts_run (counts_new hshards days anonymize) has
  obtain ⟨hbalanced, htotal⟩ := hcounts.merged
  exact ⟨w, hrun, htotal, hbalanced.blocked, hbalanced.total, hbalanced.hist,
    hbalanced.upstream⟩

def entryFor (question : Text) (action : QueryAction) : QueryLogEntry where
  id := 0
  timeMs := 0
  clientIp := ['c']
  question := question
  qtype := ['A']
  action := action
  allowlisted := false
  rcode := []
  answers := []
  elapsedMs := 3

def storedOrder : Iteration := ⟨id, fun _ => List.Perm.refl _⟩

def twoShardRun : List StatsAction :=
  [.record storedOrder 0 (entryFor ['a', '.'] (.blocked ['r'] 1)) none,
    .record storedOrder 1 (entryFor ['b', '.'] (.forwarded ['u'])) (some 7),
    .restart ⟨0, 0, 0, 0, 0⟩ 4,
    .record storedOrder 3 (entryFor ['b', '.'] .error) none]

theorem merged_conserved_twoShardRun :
    (0 < 2 ∧ ∀ a ∈ twoShardRun, a.keepsCounting = true) ∧
      ∃ w, runFrom statsStep ⟨Stats.new 2 true 1 false, []⟩ twoShardRun = some w ∧
        w.stats.merged.total = 3 := by
  have has : ∀ a ∈ twoShardRun, a.keepsCounting = true := by
    intro a ha
    simp only [twoShardRun, List.mem_cons, List.not_mem_nil, or_false] at ha
    rcases ha with rfl | rfl | rfl | rfl <;> rfl
  obtain ⟨w, hrun, htotal, -⟩ := merged_conserved (by decide : 0 < 2) 1 false has
  exact ⟨⟨by decide, has⟩, w, hrun, htotal⟩

end Bulwark.Engine
