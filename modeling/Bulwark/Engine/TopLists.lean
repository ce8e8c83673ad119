import Bulwark.Engine.Retention
import Bulwark.Engine.StatsLoad
import Bulwark.Engine.TopNames

/-!
# Top lists

Each shard keeps its own estimators, and the summary for display adds them up before it
takes the largest counts.  A shard is off by at most the average of its table, so the sum
is off by at most the average over all queries, however these were spread.  The lists of
the summary are those of the most frequent names up to that error.
-/

namespace Bulwark.Engine

open Bulwark.Foundation

/-! ## The list -/

def TopEntry.Before (a b : TopEntry) : Prop :=
  b.count < a.count ∨ a.count = b.count ∧ textLe a.name b.name = true

/-- The names with the largest counts, where no count is off by more than `slack`. -/
structure TopList (slack n : Nat) (seen : List Text) (top : List TopEntry) : Prop where
  length_le : top.length ≤ n
  distinct : (top.map (·.name)).Nodup
  sorted : top.Pairwise TopEntry.Before
  close : ∀ e ∈ top, e.count ≤ Tally.frequency seen e.name + slack ∧
    Tally.frequency seen e.name ≤ e.count + slack
  /-- A name may only be left out if it is rare or all that are listed count as much. -/
  complete : ∀ name, name ∉ top.map (·.name) → Tally.frequency seen name ≤ slack ∨
    top.length = n ∧ ∀ e ∈ top, Tally.frequency seen name ≤ e.count + slack

theorem sorted_mergeSort (v : List TopEntry) :
    (v.mergeSort fun a b =>
      b.count < a.count || (a.count = b.count && textLe a.name b.name)).Pairwise
        TopEntry.Before := by
  have htrans : ∀ a b c : TopEntry, TopEntry.Before a b → TopEntry.Before b c →
      TopEntry.Before a c := by
    intro a b c hab hbc
    rcases hab with hab | ⟨hab, hnames⟩ <;> rcases hbc with hbc | ⟨hbc, hnames'⟩
    · exact .inl (by omega)
    · exact .inl (by omega)
    · exact .inl (by omega)
    · exact .inr ⟨hab.trans hbc, textLe_trans _ _ _ hnames hnames'⟩
  have htotal : ∀ a b : TopEntry, TopEntry.Before a b ∨ TopEntry.Before b a := by
    intro a b
    rcases Nat.lt_trichotomy a.count b.count with hlt | heq | hgt
    · exact .inr (.inl hlt)
    · have hnames : textLe a.name b.name ∨ textLe b.name a.name := by
        simpa using textLe_total a.name b.name
      exact hnames.imp (fun h => .inr ⟨heq, h⟩) fun h => .inr ⟨heq.symm, h⟩
    · exact .inl (.inl hgt)
  have hsorted : (v.mergeSort fun a b =>
      b.count < a.count || (a.count = b.count && textLe a.name b.name)).Pairwise fun a b =>
        (b.count < a.count || (a.count = b.count && textLe a.name b.name)) = true := by
    apply List.pairwise_mergeSort
    · simpa [TopEntry.Before] using htrans
    · simpa [TopEntry.Before] using htotal
  simp only [Bool.or_eq_true, decide_eq_true_eq, Bool.and_eq_true] at hsorted
  exact hsorted

theorem exists_topNOf (map : Tally Text) (n : Nat) :
    ∃ v : List TopEntry, v.Perm (map.entries.map fun e => ⟨e.1, e.2⟩) ∧
      v.Pairwise TopEntry.Before ∧ topNOf map n = v.take n :=
  ⟨_, List.mergeSort_perm _ _, sorted_mergeSort _, rfl⟩

theorem topList_topNOf {slack n : Nat} {seen : List Text} {map : Tally Text}
    (h : map.Near slack seen) : TopList slack n seen (topNOf map n) := by
  obtain ⟨v, hperm, hsorted, htop⟩ := exists_topNOf map n
  have hmem : ∀ e : TopEntry, e ∈ v ↔ map.lookup e.name = some e.count := by
    intro e
    rw [hperm.mem_iff, List.mem_map, ← Option.mem_def, AList.mem_lookup_iff]
    exact ⟨fun ⟨_, hmem, heq⟩ => heq ▸ hmem, fun hmem => ⟨_, hmem, rfl⟩⟩
  have hnames : (v.map (·.name)).Nodup := by
    have hkeys : ((map.entries.map fun e => (⟨e.1, e.2⟩ : TopEntry)).map (·.name)).Nodup := by
      rw [List.map_map]
      exact map.nodupKeys
    exact (hperm.map _).nodup_iff.mpr hkeys
  rw [htop]
  refine ⟨List.length_take_le n v, hnames.sublist ((List.take_sublist n v).map _),
    hsorted.sublist (List.take_sublist n v), fun e he => ?_, fun name hout => ?_⟩
  · have hcount := Tally.get_of_lookup ((hmem e).mp (List.mem_of_mem_take he))
    have hnear := h e.name
    rwa [hcount] at hnear
  · have hnear := h name
    cases hlookup : map.lookup name with
    | none =>
        rw [Tally.get_of_lookup_none hlookup] at hnear
        omega
    | some count =>
        rw [Tally.get_of_lookup hlookup] at hnear
        -- the name is in the sorted list, and not in its front
        have hdrop : (⟨name, count⟩ : TopEntry) ∈ v.drop n := by
          have hall := (hmem ⟨name, count⟩).mpr hlookup
          rw [← List.take_append_drop n v, List.mem_append] at hall
          exact hall.resolve_left fun htake => hout (List.mem_map.mpr ⟨_, htake, rfl⟩)
        have hlength := List.length_pos_of_mem hdrop
        rw [List.length_drop] at hlength
        refine .inr ⟨by rw [List.length_take]; omega, fun e he => ?_⟩
        have hpairs := hsorted
        rw [← List.take_append_drop n v, List.pairwise_append] at hpairs
        have hbefore := hpairs.2.2 e he _ hdrop
        simp only [TopEntry.Before] at hbefore
        omega

/-! ## One shard -/

def domainOf (entry : QueryLogEntry) : Text := trimEndMatches '.' entry.question

def resolvedIn (entries : List QueryLogEntry) : List Text :=
  (entries.filter fun entry => !entry.isBlocked).map domainOf

def blockedIn (entries : List QueryLogEntry) : List Text :=
  (entries.filter (·.isBlocked)).map domainOf

structure StatsInner.Ranks (cap : Nat) (entries : List QueryLogEntry) (s : StatsInner) :
    Prop where
  resolved : s.resolvedDomains.Estimates cap (resolvedIn entries)
  blocked : s.blockedDomains.Estimates cap (blockedIn entries)

theorem StatsInner.ranks_default (cap : Nat) : StatsInner.default.Ranks cap [] where
  resolved := HeavyHitters.Estimates.empty cap
  blocked := HeavyHitters.Estimates.empty cap

theorem StatsInner.Ranks.counted {order : Iteration} {limits : Limits} {s : StatsInner}
    {entries : List QueryLogEntry} (h : s.Ranks limits.keyCap entries)
    (hcap : 0 < limits.keyCap) (entry : QueryLogEntry) (hist : List Nat)
    (hists : AList fun _ : Text => List Nat) :
    (s.counted order limits entry hist hists).Ranks limits.keyCap (entries ++ [entry]) := by
  obtain ⟨hresolved, hblocked⟩ := h
  have hdomain : trimEndMatches '.' entry.question = domainOf entry := rfl
  constructor
  · cases hb : entry.isBlocked with
    | true => simpa [StatsInner.counted, resolvedIn, hb] using hresolved
    | false =>
        simpa [StatsInner.counted, resolvedIn, hb, hdomain] using
          hresolved.bump hcap order (domainOf entry)
  · cases hb : entry.isBlocked with
    | true =>
        simpa [StatsInner.counted, blockedIn, hb, hdomain] using
          hblocked.bump hcap order (domainOf entry)
    | false => simpa [StatsInner.counted, blockedIn, hb] using hblocked

/-! ## All shards -/

/-- Each table is off by the average over its own part, and the parts add up. -/
theorem near_foldl {est : StatsInner → HeavyHitters}
    (hmerge : ∀ s other, est (s.mergeFrom other) = (est s).mergeFrom (est other)) {cap : Nat}
    (hcap : 0 < cap) {shards : List StatsInner} {seens : List (List Text)}
    (h : List.Forall₂ (fun shard seen => (est shard).Estimates cap seen) shards seens)
    {acc : StatsInner} {xs : List Text} (hacc : (est acc).counts.Near (xs.length / cap) xs) :
    (est (shards.foldl StatsInner.mergeFrom acc)).counts.Near
      ((xs ++ seens.flatten).length / cap) (xs ++ seens.flatten) := by
  induction h generalizing acc xs with
  | nil => simpa using hacc
  | @cons shard seen shards seens hshard _ ih =>
      obtain ⟨slack, hslack⟩ := hshard
      have hle : xs.length / cap + slack ≤ (xs ++ seen).length / cap := by
        have hadd := @Nat.div_add_div_le_add_div xs.length seen.length cap
        have hown := hslack.slack_le hcap
        rw [List.length_append]
        omega
      have hnext : (est (acc.mergeFrom shard)).counts.Near ((xs ++ seen).length / cap)
          (xs ++ seen) := by
        rw [hmerge]
        exact (hacc.merge hslack.near).mono hle
      simpa using ih hnext

/-- The same for the tables of those entries that have the property `p`. -/
theorem near_merged (est : StatsInner → HeavyHitters)
    (hmerge : ∀ s other, est (s.mergeFrom other) = (est s).mergeFrom (est other))
    (hempty : (est .default).counts = ∅) {p : QueryLogEntry → Bool} {cap : Nat}
    (hcap : 0 < cap) {shards : List StatsInner} {parts : List (List QueryLogEntry)}
    {entries : List QueryLogEntry}
    (h : List.Forall₂ (fun shard part => (est shard).Estimates cap ((part.filter p).map domainOf))
      shards parts)
    (hperm : parts.flatten.Perm entries) :
    (est (shards.foldl StatsInner.mergeFrom .default)).counts.Near
      (((entries.filter p).map domainOf).length / cap) ((entries.filter p).map domainOf) := by
  have hstart : (est .default).counts.Near (([] : List Text).length / cap) [] := by
    rw [hempty, List.length_nil, Nat.zero_div]
    exact Tally.Near.empty
  have hnear := near_foldl hmerge hcap (List.forall₂_map_right_iff.mpr h) hstart
  have hnames : (parts.map fun part => (part.filter p).map domainOf).flatten.Perm
      ((entries.filter p).map domainOf) := by
    have hparts : (parts.map fun part => (part.filter p).map domainOf).flatten =
        (parts.flatten.filter p).map domainOf := by
      rw [List.filter_flatten, List.map_flatten, List.map_map]
      rfl
    rw [hparts]
    exact (hperm.filter p).map domainOf
  rw [List.nil_append, hnames.length_eq] at hnear
  exact hnear.perm hnames

/-! ## Runs -/

/-- Queries are recorded and saved, statistics are reset or reconfigured, none are loaded. -/
def StatsAction.keepsShards : StatsAction → Bool
  | .record _ _ _ _ => true
  | .save _ => true
  | .load _ => false
  | .restart _ _ => false
  | .reset => true
  | .reconfigure enabled _ _ => enabled

theorem StatsAction.keepsCounting_of_keepsShards {a : StatsAction}
    (h : a.keepsShards = true) : a.keepsCounting = true := by
  cases a with
  | record order slot entry rtt => rfl
  | save cache => rfl
  | load file => cases h
  | restart cache shards => cases h
  | reset => rfl
  | reconfigure enabled days anonymize => exact h

/-- Every query since the last reset was recorded in one of the shards. -/
structure RanksRun (cap : Nat) (as : List StatsAction) (w : StatsWorld) : Prop where
  limit : w.stats.limits.keyCap = cap
  enabled : w.stats.enabled = true
  parts : ∃ parts : List (List QueryLogEntry),
    List.Forall₂ (fun shard part => shard.Ranks cap part) w.stats.shards parts ∧
      parts.flatten.Perm (recordedSinceReset as)

theorem ranksRun_step {cap : Nat} (hcap : 0 < cap) {as : List StatsAction} {w u : StatsWorld}
    {a : StatsAction} (ha : a.keepsShards = true) (hstep : statsStep w a = some u)
    (h : RanksRun cap as w) : RanksRun cap (as ++ [a]) u := by
  obtain ⟨hlimit, henabled, parts, hparts, hperm⟩ := h
  cases a with
  | record order slot entry rtt =>
      simp only [statsStep, Option.bind_eq_bind, Option.bind_eq_some_iff,
        Option.some.injEq] at hstep
      obtain ⟨t, ht, rfl⟩ := hstep
      rw [Stats.record, if_pos henabled] at ht
      simp only [Option.bind_eq_bind, Option.bind_eq_some_iff, Option.some.injEq,
        StatsInner.record] at ht
      obtain ⟨shard, hshard, shard', ⟨hist, -, hists, -, rfl⟩, rfl⟩ := ht
      obtain ⟨front, back, hsplit, hset⟩ := exists_split hshard
      rw [hsplit] at hparts
      obtain ⟨front', part, back', rfl, hfront, hown, hback⟩ := forall₂_split hparts
      refine ⟨hlimit, henabled, front' ++ (part ++ [entry]) :: back', ?_, ?_⟩
      · dsimp only
        rw [hset]
        subst hlimit
        exact List.rel_append hfront (.cons (hown.counted hcap entry hist hists) hback)
      · rw [recordedSinceReset_snoc]
        refine List.Perm.trans ?_ (hperm.append_right [entry])
        simp only [List.flatten_append, List.flatten_cons, List.append_assoc]
        have hswap : ([entry] ++ back'.flatten).Perm (back'.flatten ++ [entry]) :=
          List.perm_append_comm
        exact (hswap.append_left part).append_left _
  | save cache =>
      cases hstep
      exact ⟨hlimit, henabled, parts, hparts, by rwa [recordedSinceReset_snoc]⟩
  | load file => cases ha
  | restart cache shards => cases ha
  | reset =>
      cases hstep
      refine ⟨hlimit, henabled, w.stats.shards.map fun _ => [], ?_, ?_⟩
      · simp only [Stats.reset, List.forall₂_map_left_iff, List.forall₂_map_right_iff,
          List.forall₂_same]
        exact fun _ _ => StatsInner.ranks_default cap
      · rw [recordedSinceReset_snoc]
        simp
  | reconfigure enabled days anonymize =>
      cases hstep
      refine ⟨hlimit, ha, parts, ?_, by rwa [recordedSinceReset_snoc]⟩
      simp only [Stats.reconfigure, List.forall₂_map_left_iff]
      exact hparts.imp fun _ _ hr => ⟨hr.resolved, hr.blocked⟩

theorem ranksRun_new {shards : Nat} (days : UInt32) (anonymize : Bool) :
    RanksRun (max (topkKeys / shards) 256) [] ⟨Stats.new shards true days anonymize, []⟩ where
  limit := rfl
  enabled := rfl
  parts := by
    refine ⟨List.replicate shards [], ?_, by simp [recordedSinceReset]⟩
    have hshards : ∀ n, List.Forall₂
        (fun (shard : StatsInner) part => shard.Ranks (max (topkKeys / shards) 256) part)
        (List.replicate n .default) (List.replicate n []) := by
      intro n
      induction n with
      | zero => exact .nil
      | succ n ih => exact .cons (StatsInner.ranks_default _) ih
    exact hshards shards

/--
However queries are spread over the shards, and through any resets and changes of the
settings: the summary lists the names that were asked for most, among those that were
blocked and among the others, and is off by no more than the average count of one table
over all these queries.
-/
theorem topNames_of_run {shards : Nat} (hshards : 0 < shards) (days : UInt32)
    (anonymize : Bool) {as : List StatsAction} (has : ∀ a ∈ as, a.keepsShards = true)
    (topN : Nat) (nameFor : Text → Option Text) :
    let cap := max (topkKeys / shards) 256
    let resolved := resolvedIn (recordedSinceReset as)
    let blocked := blockedIn (recordedSinceReset as)
    ∃ w summary, runFrom statsStep ⟨Stats.new shards true days anonymize, []⟩ as = some w ∧
      w.stats.snapshot topN nameFor = some summary ∧
      TopList (resolved.length / cap) topN resolved summary.topResolvedDomains ∧
      TopList (blocked.length / cap) topN blocked summary.topBlockedDomains := by
  intro cap resolved blocked
  have hcap : 0 < cap := lt_of_lt_of_le (by decide) (Nat.le_max_right _ 256)
  obtain ⟨w, hrun, -⟩ := counts_run (counts_new hshards days anonymize) fun a ha =>
    StatsAction.keepsCounting_of_keepsShards (has a ha)
  obtain ⟨summary, hsummary⟩ := Option.isSome_iff_exists.mp (isSome_snapshot w.stats topN nameFor)
  have hranks : RanksRun cap as w :=
    runFrom_induction (ranksRun_new days anonymize)
      (fun _ _ _ _ _ ha hstep h => ranksRun_step hcap ha hstep h) (eachStep_of_actions has _) hrun
  obtain ⟨parts, hparts, hperm⟩ := hranks.parts
  have hresolved : w.stats.merged.resolvedDomains.counts.Near (resolved.length / cap) resolved :=
    near_merged (·.resolvedDomains) (fun _ _ => rfl) rfl hcap
      (hparts.imp fun _ _ hr => hr.resolved) hperm
  have hblocked : w.stats.merged.blockedDomains.counts.Near (blocked.length / cap) blocked :=
    near_merged (·.blockedDomains) (fun _ _ => rfl) rfl hcap
      (hparts.imp fun _ _ hr => hr.blocked) hperm
  refine ⟨w, summary, hrun, hsummary, ?_⟩
  simp only [Stats.snapshot, Option.bind_eq_bind, Option.bind_eq_some_iff,
    Option.some.injEq] at hsummary
  obtain ⟨p95, -, pct, -, rfl⟩ := hsummary
  exact ⟨topList_topNOf hresolved, topList_topNOf hblocked⟩

def topRun : List StatsAction :=
  [.record storedOrder 0 (entryFor ['a', '.'] (.forwarded ['u'])) none, .reset,
    .record storedOrder 0 (entryFor ['b', '.'] (.forwarded ['u'])) none,
    .record storedOrder 1 (entryFor ['b'] (.forwarded ['u'])) (some 7),
    .record storedOrder 1 (entryFor ['c'] (.blocked ['r'] 1)) none,
    .reconfigure true 7 false]

/-- So few queries leave every table far from full, and the counts are exact. -/
theorem topNames_topRun :
    (0 < 2 ∧ ∀ a ∈ topRun, a.keepsShards = true) ∧
      ∃ w summary, runFrom statsStep ⟨Stats.new 2 true 1 false, []⟩ topRun = some w ∧
        w.stats.snapshot 5 (fun _ => none) = some summary ∧
        (∀ e ∈ summary.topResolvedDomains, e.count = Tally.frequency [['b'], ['b']] e.name) ∧
        ∀ e ∈ summary.topBlockedDomains, e.count = Tally.frequency [['c']] e.name := by
  have hshards : 0 < 2 := by decide
  have has : ∀ a ∈ topRun, a.keepsShards = true := by
    intro a ha
    simp only [topRun, List.mem_cons, List.not_mem_nil, or_false] at ha
    rcases ha with rfl | rfl | rfl | rfl | rfl | rfl <;> rfl
  obtain ⟨w, summary, hrun, hsummary, hresolved, hblocked⟩ :=
    topNames_of_run hshards 1 false has 5 fun _ => none
  have hresolvedIn : resolvedIn (recordedSinceReset topRun) = [['b'], ['b']] := by decide
  have hblockedIn : blockedIn (recordedSinceReset topRun) = [['c']] := by decide
  rw [hresolvedIn] at hresolved
  rw [hblockedIn] at hblocked
  refine ⟨⟨hshards, has⟩, w, summary, hrun, hsummary, fun e he => ?_, fun e he => ?_⟩
  · obtain ⟨hle, hge⟩ := hresolved.close e he
    exact Nat.le_antisymm hle hge
  · obtain ⟨hle, hge⟩ := hblocked.close e he
    exact Nat.le_antisymm hle hge

end Bulwark.Engine
