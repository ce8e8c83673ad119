import Mathlib.Algebra.Order.Monoid.Prod
import Mathlib.Data.List.Range
import Bulwark.Engine.StatsSeries

/-!
# What retention keeps

The statistics are configured with a number of days and hold so many hours.  A shard
that held hours before is compared with one that starts empty and records the same
queries: it carries all that the empty one does.  The number of hours is a 32-bit
product, so a large number of days keeps next to nothing.
-/

namespace Bulwark.Engine

open Bulwark.Foundation

/-! ## The setting -/

/-- The hours that so many days are meant to keep. -/
def retentionHours (days : UInt32) : Nat := 24 * max 1 days.toNat

/-- The statistics right after the number of days was set. -/
inductive Configured (days : UInt32) : Stats → Prop where
  | new (shards : Nat) (enabled anonymize : Bool) :
      Configured days (Stats.new shards enabled days anonymize)
  | reconfigure (s : Stats) (enabled anonymize : Bool) :
      Configured days (s.reconfigure enabled days anonymize)

def StatsAction.isRecord : StatsAction → Bool
  | .record _ _ _ _ => true
  | _ => false

/-- The clock has not gone back behind what the shard holds, nor behind the start. -/
def Onward (start : Stats) (w : StatsWorld) : StatsAction → Prop
  | .record order slot entry rtt => InOrder w (.record order slot entry rtt) ∧
      ∀ hour ∈ hoursOf (start.shards.flatMap (·.series)), hour ≤ hourOf entry
  | _ => True

/-- What was recorded from `start` on: nothing where statistics are off. -/
def recordedFrom (start : Stats) (as : List StatsAction) : List QueryLogEntry :=
  if start.enabled then recordedSinceReset as else []

/-- Each of the last `max` recorded hours has its bucket, with all that was recorded in it. -/
def Retains (max : Nat) (entries : List QueryLogEntry) (series : List Bucket) : Prop :=
  ∀ hour ∈ top max (entries.map hourOf).toFinset,
    ∃ b ∈ series, b.hour = hour ∧ (hourBucket entries hour).counts ≤ b.counts

theorem bucketLimit_eq (days : UInt32) :
    bucketLimit days = retentionHours days % 2 ^ 32 := by
  have hmax : (u32Max days 1).toNat = max 1 days.toNat := by
    rw [toNat_u32Max, max_comm]
    rfl
  unfold bucketLimit retentionHours
  rw [UInt32.toNat_mul, hmax, Nat.mul_comm]
  rfl

theorem bucketLimit_eq_iff {days : UInt32} :
    bucketLimit days = retentionHours days ↔ retentionHours days < 2 ^ 32 := by
  rw [bucketLimit_eq]
  exact Nat.mod_eq_iff_lt (by decide)

theorem retentionHours_pos (days : UInt32) : 0 < retentionHours days := by
  unfold retentionHours
  omega

theorem Configured.limit {days : UInt32} {start : Stats} (h : Configured days start) :
    start.limits.maxBuckets = bucketLimit days := by
  cases h <;> rfl

/-! ## Carrying a series -/

/-- The bucket counts all that the other does, in the same hour. -/
def Carries (b c : Bucket) : Prop := b.hour = c.hour ∧ c.counts ≤ b.counts

/-- The end of the series carries `fresh`. -/
def Extends (series fresh : List Bucket) : Prop :=
  ∃ old tail, series = old ++ tail ∧ List.Forall₂ Carries tail fresh

theorem Carries.add {b c : Bucket} (h : Carries b c) (d : Bucket) :
    Carries (b.add d) (c.add d) := by
  refine ⟨h.1, ?_⟩
  simp only [counts_add]
  exact add_le_add_left h.2 _

theorem Carries.ofAdd {b c : Bucket} (h : b.hour = c.hour) : Carries (b.add c) c := by
  refine ⟨h, ?_⟩
  rw [counts_add]
  simp

theorem forall₂_carries_refl (bs : List Bucket) : List.Forall₂ Carries bs bs := by
  induction bs with
  | nil => exact .nil
  | cons b bs ih => exact .cons ⟨rfl, le_rfl⟩ ih

theorem recordSeries_concat (max : Nat) (init : List Bucket) (last b : Bucket) :
    recordSeries max (init ++ [last]) b =
      if last.hour = b.hour then init ++ [last.add b]
      else keepLast max (init ++ [last] ++ [b]) := by
  simp [recordSeries]

theorem keepLast_append (max : Nat) (old tail : List Bucket) :
    keepLast max (old ++ tail) =
      old.drop ((old ++ tail).length - max) ++ keepLast max tail := by
  have hcut : (old ++ tail).length - max - old.length = tail.length - max := by
    simp only [List.length_append]
    omega
  unfold keepLast
  rw [List.drop_append, hcut]

section

variable {max : Nat} {series fresh : List Bucket}

theorem Extends.keepLast (h : Extends series fresh) (max : Nat) :
    Extends (keepLast max series) (keepLast max fresh) := by
  obtain ⟨old, tail, rfl, hcarries⟩ := h
  refine ⟨_, _, keepLast_append max old tail, ?_⟩
  unfold Engine.keepLast
  rw [hcarries.length_eq]
  exact List.forall₂_drop _ hcarries

theorem Extends.snoc (h : Extends series fresh) (b : Bucket) :
    Extends (series ++ [b]) (fresh ++ [b]) := by
  obtain ⟨old, tail, rfl, hcarries⟩ := h
  refine ⟨old, tail ++ [b], by simp, ?_⟩
  exact List.rel_append hcarries (forall₂_carries_refl [b])

/-- The last bucket of `fresh` is carried by the last of the series. -/
theorem Extends.concat {init : List Bucket} {c : Bucket} (h : Extends series (init ++ [c])) :
    ∃ front b, series = front ++ [b] ∧ Extends front init ∧ Carries b c := by
  obtain ⟨old, tail, rfl, hcarries⟩ := h
  have hinit := List.forall₂_take_append tail init [c] hcarries
  have hlast := List.forall₂_drop_append tail init [c] hcarries
  rw [← List.take_append_drop init.length tail]
  generalize tail.drop init.length = last at hlast ⊢
  cases hlast with
  | cons hb hnil =>
      cases hnil
      exact ⟨old ++ tail.take init.length, _, by simp, ⟨old, _, rfl, hinit⟩, hb⟩

theorem Extends.record (hmax : 0 < max) (h : Extends series fresh) (b : Bucket) :
    Extends (recordSeries max series b) (recordSeries max fresh b) := by
  rcases fresh.eq_nil_or_concat' with rfl | ⟨init, c, rfl⟩
  · have hkept : Engine.keepLast max [b] = [b] := by
      simp [Engine.keepLast, Nat.sub_eq_zero_of_le hmax]
    have hone : recordSeries max [] b = [b] := hkept
    rw [hone]
    rcases series.eq_nil_or_concat' with rfl | ⟨front, last, rfl⟩
    · rw [hone]
      exact ⟨[], [b], rfl, forall₂_carries_refl [b]⟩
    · rw [recordSeries_concat]
      split
      · rename_i heq
        exact ⟨front, [last.add b], rfl, .cons (.ofAdd heq) .nil⟩
      · have hcut := (h.snoc b).keepLast max
        rwa [List.nil_append, hkept] at hcut
  · obtain ⟨front, last, rfl, hfront, hcarries⟩ := h.concat
    rw [recordSeries_concat, recordSeries_concat, hcarries.1]
    split
    · obtain ⟨old, tail, rfl, htail⟩ := hfront
      refine ⟨old, tail ++ [last.add b], by simp, ?_⟩
      exact List.rel_append htail (.cons (hcarries.add b) .nil)
    · exact (h.snoc b).keepLast max

theorem Extends.countsAt_le (h : Extends series fresh) (hour : Int) :
    countsAt hour fresh ≤ countsAt hour series := by
  obtain ⟨old, tail, rfl, hcarries⟩ := h
  rw [countsAt_append]
  refine le_trans ?_ le_add_self
  induction hcarries with
  | nil => exact le_rfl
  | cons hb _ ih =>
      rw [countsAt_cons, countsAt_cons, hb.1]
      split
      · exact add_le_add hb.2 ih
      · simpa using ih

end

/-! ## Shards that start empty -/

/-- All that shards hold which start empty and record the same queries is carried. -/
structure Retaining (start : Stats) (entries : List QueryLogEntry) (s : Stats) : Prop where
  limits : s.limits = start.limits
  enabled : s.enabled = start.enabled
  onward : ∀ entry ∈ entries, ∀ hour ∈ hoursOf (start.shards.flatMap (·.series)),
    hour ≤ hourOf entry
  hours : hoursOf (s.shards.flatMap (·.series)) ⊆
    hoursOf (start.shards.flatMap (·.series)) ∪ hoursOf (entries.map Bucket.ofEntry)
  carried : ∃ fresh : List StatsInner, Tracks s.limits.maxBuckets fresh entries ∧
    List.Forall₂ (fun shard other => Extends shard.series other.series) s.shards fresh

theorem forall₂_split {α β : Type} {R : α → β → Prop} {front back : List α} {a : α} {l : List β}
    (h : List.Forall₂ R (front ++ a :: back) l) :
    ∃ front' b back', l = front' ++ b :: back' ∧ List.Forall₂ R front front' ∧ R a b ∧
      List.Forall₂ R back back' := by
  induction front generalizing l with
  | nil =>
      cases h with
      | cons hab hback => exact ⟨[], _, _, rfl, .nil, hab, hback⟩
  | cons x front ih =>
      cases h with
      | cons hx hrest =>
          obtain ⟨front', b, back', rfl, hfront, hab, hback⟩ := ih hrest
          exact ⟨_ :: front', b, back', rfl, .cons hx hfront, hab, hback⟩

theorem countsAt_flatMap_le {shards fresh : List StatsInner}
    (h : List.Forall₂ (fun shard other => Extends shard.series other.series) shards fresh)
    (hour : Int) :
    countsAt hour (fresh.flatMap (·.series)) ≤ countsAt hour (shards.flatMap (·.series)) := by
  induction h with
  | nil => exact le_rfl
  | cons hshard _ ih =>
      simp only [List.flatMap_cons, countsAt_append]
      exact add_le_add (hshard.countsAt_le hour) ih

theorem hoursOf_recordSeries_subset (max : Nat) (series : List Bucket) (b : Bucket) :
    hoursOf (recordSeries max series b) ⊆ hoursOf series ∪ {b.hour} := by
  have hcut : hoursOf (keepLast max (series ++ [b])) ⊆ hoursOf series ∪ {b.hour} := by
    intro hour hmem
    obtain ⟨c, hc, rfl⟩ := mem_hoursOf.mp hmem
    have hc := List.mem_of_mem_drop hc
    rw [List.mem_append, List.mem_singleton] at hc
    rcases hc with hc | rfl
    · exact Finset.mem_union_left _ (mem_hoursOf.mpr ⟨c, hc, rfl⟩)
    · simp
  rcases series.eq_nil_or_concat' with rfl | ⟨init, last, rfl⟩
  · exact hcut
  · rw [recordSeries_concat]
    split
    · rw [hoursOf_append, hoursOf_append]
      exact Finset.subset_union_left
    · exact hcut

section

variable {start s : Stats} {entries : List QueryLogEntry}

theorem retaining_start (start : Stats) :
    Retaining start [] start where
  limits := rfl
  enabled := rfl
  onward := by simp
  hours := Finset.subset_union_left
  carried := by
    refine ⟨List.replicate start.shards.length .default, tracks_nil _ _, ?_⟩
    induction start.shards with
    | nil => exact .nil
    | cons shard shards ih => exact .cons ⟨shard.series, [], by simp, .nil⟩ ih

theorem Retaining.set {front back : List StatsInner} {shard shard' : StatsInner}
    {entry : QueryLogEntry} (h : Retaining start entries s)
    (hsplit : s.shards = front ++ shard :: back) (hmax : 0 < s.limits.maxBuckets)
    (horder : ∀ last, shard.series.getLast? = some last → last.hour ≤ hourOf entry)
    (honward : ∀ hour ∈ hoursOf (start.shards.flatMap (·.series)), hour ≤ hourOf entry)
    (hshard : shard'.series = recordSeries s.limits.maxBuckets shard.series (.ofEntry entry)) :
    Retaining start (entries ++ [entry]) { s with shards := front ++ shard' :: back } where
  limits := h.limits
  enabled := h.enabled
  onward := by
    intro other hother
    rcases List.mem_append.mp hother with hother | hother
    · exact h.onward other hother
    · rw [List.mem_singleton.mp hother]
      exact honward
  hours := by
    have hhours := h.hours
    rw [hsplit] at hhours
    have hrecord := hoursOf_recordSeries_subset s.limits.maxBuckets shard.series (.ofEntry entry)
    simp only [List.flatMap_append, List.flatMap_cons, hoursOf_append, List.map_append,
      List.map_singleton, hshard] at hhours ⊢
    intro hour hmem
    simp only [Finset.mem_union] at hmem
    have hnew : hoursOf [Bucket.ofEntry entry] = {hourOf entry} := rfl
    rw [hnew]
    have hold : hour ∈ hoursOf (front.flatMap (·.series)) ∨ hour ∈ hoursOf shard.series ∨
        hour ∈ hoursOf (back.flatMap (·.series)) ∨ hour = hourOf entry := by
      rcases hmem with hmem | hmem | hmem
      · exact .inl hmem
      · rcases Finset.mem_union.mp (hrecord hmem) with hmem | hmem
        · exact .inr (.inl hmem)
        · exact .inr (.inr (.inr (Finset.mem_singleton.mp hmem)))
      · exact .inr (.inr (.inl hmem))
    have hsub := @hhours hour
    simp only [Finset.mem_union, Finset.mem_singleton] at hsub ⊢
    tauto
  carried := by
    obtain ⟨fresh, htracks, hfresh⟩ := h.carried
    rw [hsplit] at hfresh
    obtain ⟨front', other, back', rfl, hfront, hextends, hback⟩ := forall₂_split hfresh
    refine ⟨front' ++ { other with
      series := recordSeries s.limits.maxBuckets other.series (.ofEntry entry) } :: back', ?_, ?_⟩
    · refine htracks.record (fun last hlast => ?_) rfl
      obtain ⟨init, hinit⟩ := List.getLast?_eq_some_iff.mp hlast
      rw [hinit] at hextends
      obtain ⟨front, b, hseries, -, hb⟩ := hextends.concat
      rw [← hb.1]
      exact horder b (by simp [hseries])
    · refine List.rel_append hfront (.cons ?_ hback)
      rw [hshard]
      exact hextends.record hmax _

/-- The merged series has the last hours among those recorded since the start. -/
theorem Retaining.retains (h : Retaining start entries s) :
    Retains s.limits.maxBuckets entries s.merged.series := by
  intro hour hhour
  obtain ⟨all, hinc, hhours, hcounts, hmerged⟩ := merged_series s
  obtain ⟨fresh, htracks, hfresh⟩ := h.carried
  obtain ⟨hmem, hfew⟩ := mem_top.mp hhour
  have hrecorded : ∃ entry ∈ entries, hourOf entry = hour := by simpa using hmem
  have hle : (hourBucket entries hour).counts ≤ countsAt hour all := by
    rw [hcounts, ← countsAt_entries, ← htracks.full hour (by rwa [hoursOf_entries])]
    exact countsAt_flatMap_le hfresh hour
  have hall : hour ∈ hoursOf all := by
    by_contra hnot
    rw [countsAt_of_notMem hnot] at hle
    have hzero : entries.countP (hourOf · = hour) ≤ 0 := hle.1
    obtain ⟨entry, hentry, heq⟩ := hrecorded
    have hpos : 0 < entries.countP (hourOf · = hour) :=
      List.countP_pos_iff.mpr ⟨entry, hentry, by simpa using heq⟩
    omega
  have hlater : ((hoursOf all).filter (hour < ·)) ⊆
      (entries.map hourOf).toFinset.filter (hour < ·) := by
    intro later hlater
    obtain ⟨hin, hlt⟩ := Finset.mem_filter.mp hlater
    rw [hhours] at hin
    refine Finset.mem_filter.mpr ⟨?_, hlt⟩
    rcases Finset.mem_union.mp (h.hours hin) with hold | hnew
    · obtain ⟨entry, hentry, rfl⟩ := hrecorded
      have := h.onward entry hentry later hold
      omega
    · rwa [hoursOf_entries] at hnew
  have hkept : hour ∈ hoursOf s.merged.series := by
    rw [hmerged, hoursOf_keepLast hinc]
    exact mem_top.mpr ⟨hall, lt_of_le_of_lt (Finset.card_le_card hlater) hfew⟩
  obtain ⟨b, hb, rfl⟩ := mem_hoursOf.mp hkept
  refine ⟨b, hb, rfl, ?_⟩
  rw [hmerged] at hb
  rwa [hinc.countsAt_mem (List.mem_of_mem_drop hb)] at hle

end

/-! ## Runs -/

theorem recordedFrom_snoc (start : Stats) (as : List StatsAction) (order : Iteration)
    (slot : Nat) (entry : QueryLogEntry) (rtt : Option ℚ) :
    recordedFrom start (as ++ [.record order slot entry rtt]) =
      if start.enabled then recordedFrom start as ++ [entry] else [] := by
  unfold recordedFrom
  rw [recordedSinceReset_snoc]
  split <;> rfl

theorem retaining_record {start : Stats} {as : List StatsAction} {w u : StatsWorld}
    {a : StatsAction} (hmax : 0 < start.limits.maxBuckets) (ha : a.isRecord = true)
    (honward : Onward start w a) (hstep : statsStep w a = some u)
    (h : Retaining start (recordedFrom start as) w.stats) :
    Retaining start (recordedFrom start (as ++ [a])) u.stats := by
  cases a with
  | record order slot entry rtt =>
      simp only [statsStep, Option.bind_eq_bind, Option.bind_eq_some_iff,
        Option.some.injEq] at hstep
      obtain ⟨t, ht, rfl⟩ := hstep
      rw [recordedFrom_snoc]
      unfold Stats.record at ht
      by_cases henabled : start.enabled = true
      · rw [if_pos henabled]
        rw [if_pos (h.enabled.trans henabled)] at ht
        simp only [Option.bind_eq_bind, Option.bind_eq_some_iff, Option.some.injEq,
          StatsInner.record] at ht
        obtain ⟨shard, hshard, shard', ⟨hist, -, hists, -, rfl⟩, rfl⟩ := ht
        obtain ⟨front, back, hsplit, hset⟩ := exists_split hshard
        rw [hset]
        refine h.set hsplit (by rwa [h.limits]) (fun last => ?_) honward.2 ?_
        · exact honward.1 shard last hshard
        · rw [StatsInner.counted]
      · rw [if_neg henabled]
        rw [if_neg (by rwa [h.enabled])] at ht
        cases ht
        unfold recordedFrom at h
        rwa [if_neg henabled] at h
  | save cache => cases ha
  | load file => cases ha
  | restart cache shards => cases ha
  | reset => cases ha
  | reconfigure enabled days anonymize => cases ha

theorem retaining_run {start : Stats} {as : List StatsAction} {w : StatsWorld}
    {exports : List StatsInner} (hmax : 0 < start.limits.maxBuckets)
    (has : ∀ a ∈ as, a.isRecord = true)
    (honward : EachStep statsStep (Onward start) ⟨start, exports⟩ as)
    (hrun : runFrom statsStep ⟨start, exports⟩ as = some w) :
    Retaining start (recordedFrom start as) w.stats := by
  have hnone : recordedFrom start [] = [] := by
    unfold recordedFrom
    split <;> rfl
  refine runFrom_induction
    (H := fun as (w : StatsWorld) => Retaining start (recordedFrom start as) w.stats)
    ?_ ?_ ((eachStep_of_actions has _).and honward) hrun
  · rw [hnone]
    exact retaining_start start
  · intro as t a u _ hC hstep h
    exact retaining_record hmax hC.1 hC.2 hstep h

/-! ## Too many days -/

def entryAt (hour : Nat) : QueryLogEntry :=
  { entryFor ['a'] (.forwarded ['u']) with timeMs := hour * 3600000 }

def recordRun (entries : List QueryLogEntry) : List StatsAction :=
  entries.map fun entry => .record storedOrder 0 entry none

theorem hourOf_entryAt (hour : Nat) : hourOf (entryAt hour) = hour := by
  have hms : (entryAt hour).timeMs = ((hour * 3600000 : Nat) : Int) := by
    simp [entryAt]
  unfold hourOf Bucket.ofEntry
  rw [hms]
  change (((hour * 3600000 : Nat) : Int).tdiv ((1000 : Nat) : Int)).tdiv ((3600 : Nat) : Int) = hour
  rw [← Int.ofNat_tdiv, ← Int.ofNat_tdiv]
  omega

theorem recordedSinceReset_recordRun (entries : List QueryLogEntry) :
    recordedSinceReset (recordRun entries) = entries := by
  induction entries using List.reverseRecOn with
  | nil => rfl
  | append_singleton entries entry ih =>
      unfold recordRun at ih ⊢
      rw [List.map_append, List.map_singleton, recordedSinceReset_snoc, ih]

theorem length_merged_le (s : Stats) : s.merged.series.length ≤ s.limits.maxBuckets := by
  simp only [Stats.merged, keepLast, List.length_drop]
  omega

theorem isRecord_recordRun (entries : List QueryLogEntry) :
    ∀ a ∈ recordRun entries, a.isRecord = true := by
  simp [recordRun, StatsAction.isRecord]

theorem keepsCounting_of_isRecord {a : StatsAction} (h : a.isRecord = true) :
    a.keepsCounting = true := by
  cases a <;> first | rfl | cases h

theorem shards_recordRun {max : Nat} {as : List StatsAction} {w : StatsWorld} {start : Stats}
    (hstart : start.shards = [.default]) (hlimit : start.limits.maxBuckets = max)
    (henabled : start.enabled = true) (has : ∀ a ∈ as, a.isRecord = true)
    (hrun : runFrom statsStep ⟨start, []⟩ as = some w) :
    w.stats.limits.maxBuckets = max ∧ w.stats.enabled = true ∧
      ∃ shard, w.stats.shards = [shard] ∧
        shard.series = unsharded max (recordedSinceReset as) := by
  refine runFrom_induction (H := fun as (w : StatsWorld) => w.stats.limits.maxBuckets = max ∧
    w.stats.enabled = true ∧ ∃ shard, w.stats.shards = [shard] ∧
      shard.series = unsharded max (recordedSinceReset as))
    ⟨hlimit, henabled, .default, hstart, rfl⟩ ?_ (eachStep_of_actions has _) hrun
  rintro as t a u - ha hstep ⟨hmax, hon, shard, hshards, hseries⟩
  cases a with
  | record order slot entry rtt =>
      simp only [statsStep, Option.bind_eq_bind, Option.bind_eq_some_iff,
        Option.some.injEq] at hstep
      obtain ⟨s, hs, rfl⟩ := hstep
      have hslot : t.stats.shardIndex slot = 0 := by simp [Stats.shardIndex, hshards]
      unfold Stats.record at hs
      rw [if_pos hon, hslot, hshards] at hs
      simp only [Option.bind_eq_bind, Option.bind_eq_some_iff, Option.some.injEq,
        StatsInner.record, List.getElem?_cons_zero, exists_eq_left'] at hs
      obtain ⟨shard', ⟨hist, -, hists, -, rfl⟩, rfl⟩ := hs
      refine ⟨hmax, hon, _, rfl, ?_⟩
      rw [StatsInner.counted, recordedSinceReset_snoc, unsharded, List.foldl_append, hmax,
        hseries]
      rfl
  | save cache => cases ha
  | load file => cases ha
  | restart cache shards => cases ha
  | reset => cases ha
  | reconfigure enabled days anonymize => cases ha

theorem exists_recordRun (days : UInt32) (entries : List QueryLogEntry) :
    ∃ w, runFrom statsStep ⟨Stats.new 1 true days false, []⟩ (recordRun entries) = some w ∧
      w.stats.limits.maxBuckets = bucketLimit days ∧
      ∃ shard, w.stats.shards = [shard] ∧
        shard.series = unsharded (bucketLimit days) entries := by
  obtain ⟨w, hrun, -⟩ := counts_run (counts_new (by decide : 0 < 1) days false)
    fun a ha => keepsCounting_of_isRecord (isRecord_recordRun entries a ha)
  obtain ⟨hlimit, -, shard, hshards, hseries⟩ :=
    shards_recordRun rfl rfl rfl (isRecord_recordRun entries) hrun
  rw [recordedSinceReset_recordRun] at hseries
  exact ⟨w, hrun, hlimit, shard, hshards, hseries⟩

theorem hoursOf_unsharded (max : Nat) (entries : List QueryLogEntry) :
    hoursOf (unsharded max entries) ⊆ (entries.map hourOf).toFinset := by
  induction entries using List.reverseRecOn with
  | nil => simp [unsharded, hoursOf]
  | append_singleton entries entry ih =>
      have hsnoc : unsharded max (entries ++ [entry]) =
          recordSeries max (unsharded max entries) (.ofEntry entry) := by
        simp [unsharded]
      rw [hsnoc, List.map_append, List.toFinset_append]
      exact (hoursOf_recordSeries_subset _ _ _).trans (Finset.union_subset_union_left ih)

theorem onward_recordRun (days : UInt32) {entries : List QueryLogEntry}
    (h : entries.Pairwise fun a b => hourOf a ≤ hourOf b) :
    EachStep statsStep (Onward (Stats.new 1 true days false)) ⟨Stats.new 1 true days false, []⟩
      (recordRun entries) := by
  apply eachStep_of_visited
  intro bs a cs t has hrun
  obtain ⟨before, rest, rfl, rfl, hrest⟩ := List.map_eq_append_iff.mp has
  obtain ⟨entry, after, rfl, rfl, -⟩ := List.map_eq_cons_iff.mp hrest
  obtain ⟨-, -, shard, hshards, hseries⟩ :=
    shards_recordRun rfl rfl rfl (isRecord_recordRun before) hrun
  refine ⟨fun shard' last hshard' hlast => ?_, ?_⟩
  · have hmem : shard' ∈ t.stats.shards := List.mem_of_getElem? hshard'
    rw [hshards, List.mem_singleton] at hmem
    subst hmem
    have hin : last.hour ∈ hoursOf shard'.series :=
      mem_hoursOf.mpr ⟨last, List.mem_of_getLast? hlast, rfl⟩
    rw [hseries] at hin
    have hbefore := hoursOf_unsharded _ _ hin
    change last.hour ∈ ((recordedSinceReset (recordRun before)).map hourOf).toFinset at hbefore
    rw [recordedSinceReset_recordRun, List.mem_toFinset, List.mem_map] at hbefore
    obtain ⟨earlier, hearlier, heq⟩ := hbefore
    rw [← heq]
    exact (List.pairwise_append.mp h).2.2 earlier hearlier entry List.mem_cons_self
  · intro hour hhour
    simp [Stats.new, StatsInner.default, hoursOf] at hhour

theorem loses_of_limit_lt {days : UInt32} (h : bucketLimit days < retentionHours days) :
    ∃ entries w, entries.Pairwise (fun a b => hourOf a ≤ hourOf b) ∧
      runFrom statsStep ⟨Stats.new 1 true days false, []⟩ (recordRun entries) = some w ∧
      ¬ Retains (retentionHours days) entries w.stats.merged.series := by
  set limit := bucketLimit days
  obtain ⟨entries, hentries⟩ : ∃ entries, entries = (List.range (limit + 1)).map entryAt :=
    ⟨_, rfl⟩
  obtain ⟨w, hrun, hlimit, -⟩ := exists_recordRun days entries
  have hhours : entries.map hourOf = (List.range (limit + 1)).map Nat.cast := by
    simp [hentries, hourOf_entryAt, Function.comp_def]
  refine ⟨entries, w, ?_, hrun, fun hretains => ?_⟩
  · rw [← List.pairwise_map, hhours, List.pairwise_map]
    exact List.pairwise_lt_range.imp fun hab => by exact_mod_cast hab.le
  · have hcard : ((entries.map hourOf).toFinset).card = limit + 1 := by
      rw [hhours, List.toFinset_card_of_nodup, List.length_map, List.length_range]
      exact List.nodup_range.map Nat.cast_injective
    have hsubset : (entries.map hourOf).toFinset ⊆ hoursOf w.stats.merged.series := by
      intro hour hhour
      have hfew : ((entries.map hourOf).toFinset.filter (hour < ·)).card < limit + 1 := by
        rw [← hcard]
        exact Finset.card_lt_card (Finset.filter_ssubset.mpr ⟨hour, hhour, lt_irrefl _⟩)
      obtain ⟨b, hb, rfl, -⟩ := hretains hour (mem_top.mpr ⟨hhour, by omega⟩)
      exact mem_hoursOf.mpr ⟨b, hb, rfl⟩
    have hle := Finset.card_le_card hsubset
    have hlen : (hoursOf w.stats.merged.series).card ≤ w.stats.merged.series.length := by
      unfold hoursOf
      exact (List.toFinset_card_le _).trans (List.length_map _).le
    have hmerged := length_merged_le w.stats
    omega

/--
Where the clock does not go back, every run of records keeps the hours that were meant
to be kept exactly where their number fits into 32 bits.
-/
theorem retained_iff_hoursFit (days : UInt32) :
    (∀ start exports as w, Configured days start → (∀ a ∈ as, a.isRecord = true) →
        EachStep statsStep (Onward start) ⟨start, exports⟩ as →
        runFrom statsStep ⟨start, exports⟩ as = some w →
        Retains (retentionHours days) (recordedFrom start as) w.stats.merged.series) ↔
      retentionHours days < 2 ^ 32 := by
  constructor
  · intro hall
    by_contra hbig
    have hlt : bucketLimit days < retentionHours days := by
      rw [bucketLimit_eq]
      have := Nat.mod_lt (retentionHours days) (show 0 < 2 ^ 32 by decide)
      omega
    obtain ⟨entries, w, hsorted, hrun, hloses⟩ := loses_of_limit_lt hlt
    have hretains := hall _ [] _ w (.new 1 true false) (isRecord_recordRun entries)
      (onward_recordRun days hsorted) hrun
    have henabled : (Stats.new 1 true days false).enabled = true := rfl
    unfold recordedFrom at hretains
    rw [if_pos henabled, recordedSinceReset_recordRun] at hretains
    exact hloses hretains
  · intro hfits start exports as w hstart has honward hrun
    have hlimit : start.limits.maxBuckets = retentionHours days := by
      rw [hstart.limit, bucketLimit_eq_iff]
      exact hfits
    have hmax : 0 < start.limits.maxBuckets := by
      rw [hlimit]
      exact retentionHours_pos days
    have hretaining := retaining_run hmax has honward hrun
    rw [← hlimit, ← hretaining.limits]
    exact hretaining.retains

/-- For 2²⁹ days the limit is 0, and not even the hour of the only query is kept. -/
theorem onlyHour_lost :
    ¬ ∀ w, runFrom statsStep ⟨Stats.new 1 true 536870912 false, []⟩ (recordRun [entryAt 0]) =
        some w → Retains (retentionHours 536870912) [entryAt 0] w.stats.merged.series := by
  intro hall
  obtain ⟨w, hrun, hlimit, -⟩ := exists_recordRun 536870912 [entryAt 0]
  have htop : hourOf (entryAt 0) ∈
      top (retentionHours 536870912) ([entryAt 0].map hourOf).toFinset := by
    have hpos := retentionHours_pos 536870912
    simp [top, Finset.filter_singleton, hpos]
  obtain ⟨b, hb, -⟩ := hall w hrun _ htop
  have hlen := length_merged_le w.stats
  have hzero : bucketLimit 536870912 = 0 := by decide
  rw [hlimit, hzero] at hlen
  rw [List.eq_nil_of_length_eq_zero (Nat.le_zero.mp hlen)] at hb
  cases hb

/-! ## A clock that goes back -/

theorem unsharded_of_alternating (max : Nat) {entries : List QueryLogEntry}
    (h : entries.IsChain fun a b => hourOf a ≠ hourOf b) :
    unsharded max entries = keepLast max (entries.map Bucket.ofEntry) := by
  induction entries using List.reverseRecOn with
  | nil => simp [unsharded, keepLast]
  | append_singleton entries entry ih =>
      obtain ⟨hentries, -, hlast⟩ := List.isChain_append.mp h
      have hsnoc : unsharded max (entries ++ [entry]) =
          recordSeries max (keepLast max (entries.map Bucket.ofEntry)) (.ofEntry entry) := by
        rw [← ih hentries]
        simp [unsharded]
      have hcut : keepLast max (keepLast max (entries.map Bucket.ofEntry) ++ [.ofEntry entry]) =
          keepLast max ((entries ++ [entry]).map Bucket.ofEntry) := by
        rw [List.map_append, List.map_singleton, keepLast_append, keepLast_append]
        congr 1
        simp only [keepLast, List.drop_drop, List.length_append, List.length_drop,
          List.length_singleton]
        congr 1
        omega
      rw [hsnoc, ← hcut]
      unfold recordSeries
      split
      · rename_i last hget
        have hne : last.hour ≠ (Bucket.ofEntry entry).hour := by
          unfold keepLast at hget
          rw [List.getLast?_drop] at hget
          split at hget
          · cases hget
          · rw [List.getLast?_map, Option.map_eq_some_iff] at hget
            obtain ⟨before, hbefore, rfl⟩ := hget
            exact hlast before hbefore entry rfl
        rw [if_neg hne]
      · rfl

/-- The hours of a clock that goes back and forth. -/
def backAndForth (n : Nat) : List QueryLogEntry :=
  (List.range (n + 1)).map fun i => entryAt (if i = 0 then 0 else 1 + i % 2)

theorem keepLast_backAndForth (n : Nat) :
    keepLast n ((backAndForth n).map Bucket.ofEntry) =
      (List.range n).map fun i => .ofEntry (entryAt (1 + (i + 1) % 2)) := by
  unfold backAndForth keepLast
  rw [List.range_succ_eq_map]
  simp

/-- Whatever the number of days: where the clock goes back, an hour can be lost. -/
theorem loses_of_clockBack (days : UInt32) :
    ∃ w, runFrom statsStep ⟨Stats.new 1 true days false, []⟩
        (recordRun (backAndForth (bucketLimit days))) = some w ∧
      ¬ Retains (retentionHours days) (backAndForth (bucketLimit days))
        w.stats.merged.series := by
  set limit := bucketLimit days
  obtain ⟨w, hrun, -, shard, hshards, hseries⟩ := exists_recordRun days (backAndForth limit)
  have hchain : (backAndForth limit).IsChain fun a b => hourOf a ≠ hourOf b := by
    unfold backAndForth
    rw [List.isChain_map, List.isChain_range]
    intro i _
    rw [hourOf_entryAt, hourOf_entryAt]
    split <;> simp <;> omega
  rw [unsharded_of_alternating _ hchain] at hseries
  have hhours : ∀ hour, hour ∈ (backAndForth limit).map hourOf →
      hour = 0 ∨ hour = 1 ∨ hour = 2 := by
    intro hour hhour
    simp only [backAndForth, List.map_map, List.mem_map, Function.comp_apply,
      hourOf_entryAt] at hhour
    obtain ⟨i, -, rfl⟩ := hhour
    split <;> omega
  refine ⟨w, hrun, fun hretains => ?_⟩
  have hfirst : (0 : Int) ∈ (backAndForth limit).map hourOf := by
    simp [backAndForth, hourOf_entryAt, List.range_succ_eq_map]
  have hfew : (((backAndForth limit).map hourOf).toFinset.filter ((0 : Int) < ·)).card <
      retentionHours days := by
    have hsub : ((backAndForth limit).map hourOf).toFinset.filter ((0 : Int) < ·) ⊆ {1, 2} := by
      intro hour hhour
      simp only [Finset.mem_filter, List.mem_toFinset] at hhour
      have := hhours hour hhour.1
      simp
      omega
    have hcard := Finset.card_le_card hsub
    have htwo : ({1, 2} : Finset Int).card = 2 := rfl
    unfold retentionHours
    omega
  obtain ⟨b, hb, hhour, -⟩ := hretains 0 (mem_top.mpr ⟨by simpa using hfirst, hfew⟩)
  obtain ⟨all, -, hall, -, hmerged⟩ := merged_series w.stats
  rw [hmerged] at hb
  have hin : (0 : Int) ∈ hoursOf all := mem_hoursOf.mpr ⟨b, List.mem_of_mem_drop hb, hhour⟩
  rw [hall, hshards, List.flatMap_singleton, hseries] at hin
  obtain ⟨c, hc, hzero⟩ := mem_hoursOf.mp hin
  rw [keepLast_backAndForth, List.mem_map] at hc
  obtain ⟨i, -, rfl⟩ := hc
  change hourOf (entryAt _) = 0 at hzero
  rw [hourOf_entryAt] at hzero
  omega

end Bulwark.Engine
