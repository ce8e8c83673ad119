import Bulwark.Engine.StatsCounts

/-!
# The size of the statistics

A bump never takes an estimator past its cap, but a restart loads the merged
estimators of all shards into one.  The estimators stay bounded exactly where no
more is loaded than one shard may hold.
-/

namespace Bulwark.Engine

open Bulwark.Foundation

/-! ## Estimators -/

def StatsInner.estimators (s : StatsInner) : List HeavyHitters :=
  [s.resolvedDomains, s.blockedDomains, s.clients]

def StatsInner.Fits (cap : Nat) (s : StatsInner) : Prop :=
  ∀ h ∈ s.estimators, h.counts.keys.length ≤ cap

/-- Every estimator of every shard keeps to the cap, and so does their sum. -/
def Stats.Bounded (s : Stats) : Prop :=
  (∀ shard ∈ s.shards, shard.Fits s.limits.keyCap) ∧
    s.merged.Fits (s.shards.length * s.limits.keyCap)

theorem StatsInner.fits_iff {cap : Nat} {s : StatsInner} :
    s.Fits cap ↔ s.resolvedDomains.counts.keys.length ≤ cap ∧
      s.blockedDomains.counts.keys.length ≤ cap ∧ s.clients.counts.keys.length ≤ cap := by
  simp [StatsInner.Fits, StatsInner.estimators]

theorem StatsInner.fits_default (cap : Nat) : StatsInner.default.Fits cap :=
  StatsInner.fits_iff.mpr ⟨Nat.zero_le _, Nat.zero_le _, Nat.zero_le _⟩

theorem length_keys_bump_le {order : Iteration} {h : HeavyHitters} {key : Text} {n cap : Nat}
    (hcap : 0 < cap) (hle : h.counts.keys.length ≤ cap) :
    (h.bump order key n cap).counts.keys.length ≤ cap := by
  rcases bump_cases hcap with ⟨v, hkey, heq⟩ | ⟨hkey, hroom, heq⟩ | ⟨hkey, -, k, v, hk, -, heq⟩
  · rw [heq, Tally.length_keys_insert hkey]
    exact hle
  · rw [heq, Tally.keys_insert_new hkey]
    exact hroom
  · have hgone : (h.counts.erase k).lookup key = none := by
      rw [AList.lookup_eq_none] at hkey ⊢
      exact fun hmem => hkey (AList.mem_erase.mp hmem).2
    rw [heq, Tally.keys_insert_new hgone, List.length_cons, Tally.length_keys_erase hk]
    exact hle

theorem StatsInner.Fits.counted {cap : Nat} {s : StatsInner} (h : s.Fits cap)
    (order : Iteration) {limits : Limits} (hlimits : limits.keyCap = cap) (hcap : 0 < cap)
    (entry : QueryLogEntry) (hist : List Nat) (hists : AList fun _ : Text => List Nat) :
    (s.counted order limits entry hist hists).Fits cap := by
  obtain ⟨hresolved, hblocked, hclients⟩ := StatsInner.fits_iff.mp h
  subst hlimits
  rw [StatsInner.fits_iff, StatsInner.counted]
  dsimp only
  refine ⟨?_, ?_, ?_⟩
  · split
    · exact hresolved
    · exact length_keys_bump_le hcap hresolved
  · split
    · exact length_keys_bump_le hcap hblocked
    · exact hblocked
  · split
    · exact hclients
    · exact length_keys_bump_le hcap hclients

theorem StatsInner.Fits.mergeFrom {m n : Nat} {s other : StatsInner} (hs : s.Fits m)
    (ho : other.Fits n) : (s.mergeFrom other).Fits (m + n) := by
  obtain ⟨hresolved, hblocked, hclients⟩ := StatsInner.fits_iff.mp hs
  obtain ⟨hresolved', hblocked', hclients'⟩ := StatsInner.fits_iff.mp ho
  rw [StatsInner.fits_iff]
  exact ⟨(Tally.length_keys_merge_le ..).trans (Nat.add_le_add hresolved hresolved'),
    (Tally.length_keys_merge_le ..).trans (Nat.add_le_add hblocked hblocked'),
    (Tally.length_keys_merge_le ..).trans (Nat.add_le_add hclients hclients')⟩

theorem fits_foldl {cap m : Nat} {shards : List StatsInner} {acc : StatsInner}
    (hacc : acc.Fits m) (h : ∀ shard ∈ shards, shard.Fits cap) :
    (shards.foldl StatsInner.mergeFrom acc).Fits (m + shards.length * cap) := by
  induction shards generalizing acc m with
  | nil =>
      rw [List.length_nil, Nat.zero_mul, Nat.add_zero]
      exact hacc
  | cons shard shards ih =>
      have hrest := ih (hacc.mergeFrom (h shard List.mem_cons_self))
        fun other hother => h other (List.mem_cons_of_mem _ hother)
      have hsum : m + cap + shards.length * cap = m + (shard :: shards).length * cap := by
        rw [List.length_cons]
        ring
      rwa [hsum] at hrest

theorem Stats.bounded_of_shards {s : Stats}
    (h : ∀ shard ∈ s.shards, shard.Fits s.limits.keyCap) : s.Bounded := by
  refine ⟨h, ?_⟩
  have hfold := fits_foldl (StatsInner.fits_default 0) h
  rw [Nat.zero_add] at hfold
  exact hfold

/-! ## Steps -/

theorem Stats.record_cases {s t : Stats} {order : Iteration} {slot : Nat}
    {entry : QueryLogEntry} {rtt : Option ℚ} (h : s.record order slot entry rtt = some t) :
    t = s ∨ ∃ shard hist hists, s.shards[s.shardIndex slot]? = some shard ∧
      t = { s with shards :=
        s.shards.set (s.shardIndex slot) (shard.counted order s.limits entry hist hists) } := by
  rw [Stats.record] at h
  split at h
  · simp only [Option.bind_eq_bind, Option.bind_eq_some_iff, Option.some.injEq,
      StatsInner.record] at h
    obtain ⟨shard, hshard, shard', ⟨hist, -, hists, -, rfl⟩, rfl⟩ := h
    exact .inr ⟨shard, hist, hists, hshard, rfl⟩
  · cases h
    exact .inl rfl

def LoadFits (w : StatsWorld) : StatsAction → Prop
  | .load file => ∀ loaded, w.exports[file]? = some loaded → loaded.Fits w.stats.limits.keyCap
  | .restart _ shards => w.stats.merged.Fits (max (topkKeys / shards) 256)
  | _ => True

structure Stats.Usable (s : Stats) : Prop where
  nonempty : s.shards ≠ []
  cap : 0 < s.limits.keyCap

theorem fresh_usable (s : Stats) {shards : Nat} (h : shards ≠ 0) : (s.fresh shards).Usable := by
  refine ⟨?_, lt_of_lt_of_le (by decide) (Nat.le_max_right _ 256)⟩
  rw [← List.length_pos_iff]
  simpa [Stats.fresh, Nat.pos_iff_ne_zero] using h

theorem Stats.Usable.import {s : Stats} (h : s.Usable) (loaded : StatsInner) :
    (s.import loaded).1.Usable := by
  refine ⟨?_, h.cap⟩
  rw [shards_import h.nonempty]
  exact List.cons_ne_nil _ _

theorem usable_step {w u : StatsWorld} {a : StatsAction} (hstep : statsStep w a = some u)
    (h : w.stats.Usable) : u.stats.Usable := by
  cases a with
  | record order slot entry rtt =>
      simp only [statsStep, Option.bind_eq_bind, Option.bind_eq_some_iff,
        Option.some.injEq] at hstep
      obtain ⟨t, ht, rfl⟩ := hstep
      rcases Stats.record_cases ht with rfl | ⟨shard, hist, hists, -, rfl⟩
      · exact h
      · refine ⟨?_, h.cap⟩
        dsimp only
        rw [← List.length_pos_iff, List.length_set]
        exact List.length_pos_of_ne_nil h.nonempty
  | save cache =>
      cases hstep
      exact h
  | load file =>
      simp only [statsStep, Option.bind_eq_bind, Option.bind_eq_some_iff,
        Option.some.injEq] at hstep
      obtain ⟨loaded, -, rfl⟩ := hstep
      exact h.import loaded
  | restart cache shards =>
      rw [statsStep] at hstep
      split at hstep
      · cases hstep
      · rename_i hshards
        cases hstep
        exact (fresh_usable w.stats hshards).import _
  | reset =>
      cases hstep
      refine ⟨fun hnil => h.nonempty (List.map_eq_nil_iff.mp hnil), h.cap⟩
  | reconfigure enabled days anonymize =>
      cases hstep
      refine ⟨fun hnil => h.nonempty (List.map_eq_nil_iff.mp hnil), h.cap⟩

theorem fits_import {s : Stats} {loaded : StatsInner} (h : s.shards ≠ []) :
    (∀ shard ∈ (s.import loaded).1.shards, shard.Fits s.limits.keyCap) ↔
      loaded.Fits s.limits.keyCap := by
  rw [shards_import h]
  constructor
  · intro hall
    exact hall loaded List.mem_cons_self
  · intro hloaded shard hshard
    rcases List.mem_cons.mp hshard with rfl | hshard
    · exact hloaded
    · rw [List.eq_of_mem_replicate hshard]
      exact StatsInner.fits_default _

theorem fits_step {w u : StatsWorld} {a : StatsAction} (hload : LoadFits w a)
    (hstep : statsStep w a = some u) (husable : w.stats.Usable)
    (h : ∀ shard ∈ w.stats.shards, shard.Fits w.stats.limits.keyCap) :
    ∀ shard ∈ u.stats.shards, shard.Fits u.stats.limits.keyCap := by
  cases a with
  | record order slot entry rtt =>
      simp only [statsStep, Option.bind_eq_bind, Option.bind_eq_some_iff,
        Option.some.injEq] at hstep
      obtain ⟨t, ht, rfl⟩ := hstep
      rcases Stats.record_cases ht with rfl | ⟨shard, hist, hists, hshard, rfl⟩
      · exact h
      · intro other hother
        rcases List.mem_or_eq_of_mem_set hother with hother | rfl
        · exact h other hother
        · exact (h shard (List.mem_of_getElem? hshard)).counted order rfl husable.cap _ _ _
  | save cache =>
      cases hstep
      exact h
  | load file =>
      simp only [statsStep, Option.bind_eq_bind, Option.bind_eq_some_iff,
        Option.some.injEq] at hstep
      obtain ⟨loaded, hfile, rfl⟩ := hstep
      exact (fits_import husable.nonempty).mpr (hload loaded hfile)
  | restart cache shards =>
      rw [statsStep] at hstep
      split at hstep
      · cases hstep
      · rename_i hshards
        cases hstep
        exact (fits_import (fresh_usable w.stats hshards).nonempty).mpr hload
  | reset =>
      cases hstep
      intro shard hshard
      obtain ⟨_, -, rfl⟩ := List.mem_map.mp hshard
      exact StatsInner.fits_default _
  | reconfigure enabled days anonymize =>
      cases hstep
      intro shard hshard
      obtain ⟨shard', hshard', rfl⟩ := List.mem_map.mp hshard
      exact h shard' hshard'

theorem loadFits_of_fits {w u : StatsWorld} {a : StatsAction} (hstep : statsStep w a = some u)
    (husable : w.stats.Usable)
    (h : ∀ shard ∈ u.stats.shards, shard.Fits u.stats.limits.keyCap) : LoadFits w a := by
  cases a with
  | load file =>
      intro loaded hfile
      simp only [statsStep, hfile, Option.bind_eq_bind, Option.bind_some,
        Option.some.injEq] at hstep
      cases hstep
      exact (fits_import husable.nonempty).mp h
  | restart cache shards =>
      rw [statsStep] at hstep
      split at hstep
      · cases hstep
      · rename_i hshards
        cases hstep
        have hfits : (w.stats.export cache).Fits (max (topkKeys / shards) 256) :=
          (fits_import (fresh_usable w.stats hshards).nonempty).mp h
        exact hfits
  | record order slot entry rtt => trivial
  | save cache => trivial
  | reset => trivial
  | reconfigure enabled days anonymize => trivial

/-! ## Runs -/

/--
The estimators stay bounded after every step of a run exactly where every load of the
run, at a restart or later, fits into one shard.
-/
theorem bounded_iff_loadFits {shards : Nat} (hshards : 0 < shards) (enabled : Bool)
    (days : UInt32) (anonymize : Bool) {as : List StatsAction} {w : StatsWorld}
    (hrun : runFrom statsStep ⟨Stats.new shards enabled days anonymize, []⟩ as = some w) :
    (∀ bs cs u, as = bs ++ cs →
        runFrom statsStep ⟨Stats.new shards enabled days anonymize, []⟩ bs = some u →
        u.stats.Bounded) ↔
      EachStep statsStep LoadFits ⟨Stats.new shards enabled days anonymize, []⟩ as := by
  have hinit : (Stats.new shards enabled days anonymize).Usable := by
    refine ⟨?_, lt_of_lt_of_le (by decide) (Nat.le_max_right _ 256)⟩
    rw [← List.length_pos_iff]
    simpa [Stats.new] using hshards
  constructor
  · intro hbounded
    apply eachStep_of_visited
    intro bs a cs t has ht
    have husable : t.stats.Usable :=
      runFrom_invariant (I := fun w : StatsWorld => w.stats.Usable)
        (fun _ _ _ _ hstep => usable_step hstep) hinit (eachStep_trivial _ bs) ht
    rw [has, runFrom_append, ht, Option.bind_some, runFrom] at hrun
    cases hstep : statsStep t a with
    | none =>
        rw [hstep] at hrun
        cases hrun
    | some u =>
        have hsnoc : runFrom statsStep ⟨Stats.new shards enabled days anonymize, []⟩
            (bs ++ [a]) = some u := runFrom_snoc.mpr ⟨t, ht, hstep⟩
        have has' : as = bs ++ [a] ++ cs := by
          rw [has, List.append_assoc, List.singleton_append]
        exact loadFits_of_fits hstep husable (hbounded (bs ++ [a]) cs u has' hsnoc).1
  · intro hloads bs cs u has hu
    rw [has] at hloads
    apply Stats.bounded_of_shards
    refine (runFrom_invariant (I := fun w : StatsWorld => w.stats.Usable ∧
      ∀ shard ∈ w.stats.shards, shard.Fits w.stats.limits.keyCap) ?_ ⟨hinit, ?_⟩
      (eachStep_append hloads) hu).2
    · intro t a t' hload hstep h
      exact ⟨usable_step hstep h.1, fits_step hload hstep h.1 h.2⟩
    · intro shard hshard
      rw [List.eq_of_mem_replicate hshard]
      exact StatsInner.fits_default _

def restartRun : List StatsAction :=
  [.record storedOrder 1 (entryFor ['a'] (.forwarded ['u'])) none, .restart ⟨0, 0, 0, 0, 0⟩ 2]

theorem bounded_restartRun :
    ∃ w, runFrom statsStep ⟨Stats.new 2 true 1 false, []⟩ restartRun = some w ∧
      EachStep statsStep LoadFits ⟨Stats.new 2 true 1 false, []⟩ restartRun ∧
      ∀ bs cs u, restartRun = bs ++ cs →
        runFrom statsStep ⟨Stats.new 2 true 1 false, []⟩ bs = some u → u.stats.Bounded := by
  have has : ∀ a ∈ restartRun, a.keepsCounting = true := by
    intro a ha
    simp only [restartRun, List.mem_cons, List.not_mem_nil, or_false] at ha
    rcases ha with rfl | rfl <;> rfl
  obtain ⟨w, hrun, -⟩ := counts_run (counts_new (by decide : 0 < 2) 1 false) has
  have hloads : EachStep statsStep LoadFits ⟨Stats.new 2 true 1 false, []⟩ restartRun := by
    refine ⟨trivial, fun t ht => ⟨?_, fun _ _ => trivial⟩⟩
    cases ht
    rw [LoadFits, StatsInner.fits_iff]
    decide +kernel
  exact ⟨w, hrun, hloads, (bounded_iff_loadFits (by decide) true 1 false hrun).mpr hloads⟩

/-! ## Too many names after a restart -/

def repeatedName (k : Nat) : Text := List.replicate k 'a'

/-- One thread resolves `k` names. -/
def fillRun (k : Nat) : List StatsAction :=
  (List.range k).map fun i =>
    .record storedOrder 0 (entryFor (repeatedName i) (.forwarded ['u'])) none

/-- The names of one full shard, and one more in another; then a restart. -/
def overflowRun : List StatsAction :=
  fillRun 256 ++
    [.record storedOrder 1 (entryFor (repeatedName 256) (.forwarded ['u'])) none,
      .restart ⟨0, 0, 0, 0, 0⟩ 64]

theorem trimEndMatches_repeatedName (k : Nat) :
    trimEndMatches '.' (repeatedName k) = repeatedName k := by
  rw [trimEndMatches, repeatedName]
  cases k with
  | zero => rfl
  | succ k =>
      rw [List.replicate_succ', List.rdropWhile_concat_neg]
      decide

theorem repeatedName_injective : Function.Injective repeatedName := by
  intro i j h
  have := congrArg List.length h
  rwa [repeatedName, repeatedName, List.length_replicate, List.length_replicate] at this

theorem keys_counted_new {s : StatsInner} {limits : Limits} {k : Nat} {hist : List Nat}
    {hists : AList fun _ : Text => List Nat}
    (hnew : repeatedName k ∉ s.resolvedDomains.counts.keys)
    (hroom : s.resolvedDomains.counts.keys.length < limits.keyCap) :
    (s.counted storedOrder limits (entryFor (repeatedName k) (.forwarded ['u'])) hist
      hists).resolvedDomains.counts.keys =
        repeatedName k :: s.resolvedDomains.counts.keys := by
  have hnone : s.resolvedDomains.counts.lookup (repeatedName k) = none := by
    rw [AList.lookup_eq_none, AList.mem_keys]
    exact hnew
  rw [StatsInner.counted]
  change (s.resolvedDomains.bump storedOrder (trimEndMatches '.' (repeatedName k)) 1
    limits.keyCap).counts.keys = _
  rw [trimEndMatches_repeatedName, HeavyHitters.bump, hnone]
  dsimp only
  rw [if_pos hroom, Tally.keys_insert_new hnone]

def filling (shard : StatsInner) : Stats where
  shards := shard :: List.replicate 63 .default
  limits := ⟨256, false, 24⟩
  enabled := true

theorem runFrom_fillRun {k : Nat} (hk : k ≤ 256) :
    ∃ shard, runFrom statsStep ⟨Stats.new 64 true 1 false, []⟩ (fillRun k) =
        some ⟨filling shard, []⟩ ∧ Balanced shard ∧
      shard.resolvedDomains.counts.keys = ((List.range k).map repeatedName).reverse := by
  induction k with
  | zero => exact ⟨.default, rfl, balanced_default, rfl⟩
  | succ k ih =>
      obtain ⟨shard, hrun, hbalanced, hkeys⟩ := ih (by omega)
      obtain ⟨hist, hists, hrecord, hbalanced'⟩ := hbalanced.record storedOrder
        (by decide : 0 < (⟨256, false, 24⟩ : Limits).keyCap)
        (entryFor (repeatedName k) (.forwarded ['u'])) none
      have hnew : repeatedName k ∉ shard.resolvedDomains.counts.keys := by
        rw [hkeys, List.mem_reverse, List.mem_map_of_injective repeatedName_injective,
          List.mem_range]
        exact Nat.lt_irrefl k
      refine ⟨_, ?_, hbalanced', ?_⟩
      · rw [fillRun, List.range_succ, List.map_append, List.map_singleton, runFrom_snoc]
        refine ⟨⟨filling shard, []⟩, hrun, ?_⟩
        have hindex : (filling shard).shardIndex 0 = 0 := Nat.zero_and _
        have hfirst : (filling shard).shards[(filling shard).shardIndex 0]? = some shard := by
          rw [hindex]
          rfl
        rw [statsStep, Stats.record_eq rfl hfirst hrecord, hindex]
        rfl
      · rw [keys_counted_new hnew, hkeys, List.range_succ, List.map_append, List.reverse_append]
        · rfl
        · rw [hkeys, List.length_reverse, List.length_map, List.length_range]
          exact hk

theorem mem_keys_foldl {shards : List StatsInner} {acc : StatsInner} {name : Text}
    (h : name ∈ acc.resolvedDomains.counts.keys ∨
      ∃ shard ∈ shards, name ∈ shard.resolvedDomains.counts.keys) :
    name ∈ (shards.foldl StatsInner.mergeFrom acc).resolvedDomains.counts.keys := by
  induction shards generalizing acc with
  | nil =>
      rcases h with h | ⟨shard, hshard, -⟩
      · exact h
      · cases hshard
  | cons first shards ih =>
      apply ih
      have hmerge := Tally.mem_keys_merge acc.resolvedDomains.counts
        first.resolvedDomains.counts name
      rcases h with h | ⟨shard, hshard, h⟩
      · exact .inl (hmerge.mpr (.inl h))
      · rcases List.mem_cons.mp hshard with rfl | hshard
        · exact .inl (hmerge.mpr (.inr h))
        · exact .inr ⟨shard, hshard, h⟩

def overfull (shard other : StatsInner) : Stats where
  shards := shard :: other :: List.replicate 62 .default
  limits := ⟨256, false, 24⟩
  enabled := true

theorem length_keys_overfull {shard other : StatsInner}
    (hkeys : shard.resolvedDomains.counts.keys =
      ((List.range 256).map repeatedName).reverse)
    (hother : other.resolvedDomains.counts.keys = [repeatedName 256]) :
    256 < (overfull shard other).merged.resolvedDomains.counts.keys.length := by
  have hsubset : (List.range 257).map repeatedName ⊆
      (overfull shard other).merged.resolvedDomains.counts.keys := by
    intro name hname
    apply mem_keys_foldl
    right
    rw [List.range_succ, List.map_append, List.mem_append, List.map_singleton,
      ← List.mem_reverse, ← hkeys, ← hother] at hname
    rcases hname with hname | hname
    · exact ⟨shard, List.mem_cons_self, hname⟩
    · exact ⟨other, List.mem_cons_of_mem _ List.mem_cons_self, hname⟩
  have hnodup : ((List.range 257).map repeatedName).Nodup :=
    List.nodup_range.map repeatedName_injective
  have hlen := (List.subperm_of_subset hnodup hsubset).length_le
  rwa [List.length_map, List.length_range] at hlen

theorem restart_exceeds_cap :
    ∃ w, runFrom statsStep ⟨Stats.new 64 true 1 false, []⟩ overflowRun = some w ∧
      ¬ w.stats.Bounded := by
  obtain ⟨shard, hrun, -, hkeys⟩ := runFrom_fillRun (Nat.le_refl 256)
  obtain ⟨hist, hists, hrecord, -⟩ := balanced_default.record storedOrder
    (by decide : 0 < (⟨256, false, 24⟩ : Limits).keyCap)
    (entryFor (repeatedName 256) (.forwarded ['u'])) none
  obtain ⟨other, hother⟩ : ∃ other, StatsInner.default.counted storedOrder ⟨256, false, 24⟩
    (entryFor (repeatedName 256) (.forwarded ['u'])) hist hists = other := ⟨_, rfl⟩
  have hkeys' : other.resolvedDomains.counts.keys = [repeatedName 256] := by
    rw [← hother]
    exact keys_counted_new (by simp [StatsInner.default, HeavyHitters.empty]) (by decide)
  rw [hother] at hrecord
  have hindex : (filling shard).shardIndex 1 = 1 := by
    have hlen : (filling shard).shards.length - 1 = 63 := by simp [filling]
    rw [Stats.shardIndex, hlen]
    decide
  have hsecond : (filling shard).shards[(filling shard).shardIndex 1]? = some .default := by
    rw [hindex]
    rfl
  have hstep : statsStep ⟨filling shard, []⟩
      (.record storedOrder 1 (entryFor (repeatedName 256) (.forwarded ['u'])) none) =
        some ⟨overfull shard other, []⟩ := by
    rw [statsStep, Stats.record_eq rfl hsecond hrecord, hindex]
    rfl
  refine ⟨⟨(((overfull shard other).fresh 64).import
    ((overfull shard other).export ⟨0, 0, 0, 0, 0⟩)).1,
    [(overfull shard other).export ⟨0, 0, 0, 0, 0⟩]⟩, ?_, ?_⟩
  · rw [overflowRun, runFrom_append, hrun, Option.bind_some, runFrom, hstep]
    rfl
  · intro hbounded
    have hnonempty := (fresh_usable (overfull shard other) (by decide : 64 ≠ 0)).nonempty
    have hfits := (fits_import hnonempty).mp hbounded.1
    have hle : (overfull shard other).merged.resolvedDomains.counts.keys.length ≤ 256 :=
      (StatsInner.fits_iff.mp hfits).1
    have := length_keys_overfull hkeys hkeys'
    omega

end Bulwark.Engine
