import Mathlib.Algebra.Group.Prod
import Mathlib.Algebra.Order.BigOperators.Group.List
import Bulwark.Foundation.Selection
import Bulwark.Foundation.Window
import Bulwark.Engine.StatsCounts

/-!
# The hourly series

Every shard keeps the last hours it has seen, and so does the merged series.  No
hour of the merged window has been dropped by a shard before: a shard drops an hour
only after as many later ones.
-/

namespace Bulwark.Engine

open Bulwark.Foundation

/-! ## Counts by hour -/

def Bucket.counts (b : Bucket) : ℕ × ℕ × ℕ := (b.total, b.blocked, b.cached)

/-- All that the buckets of an hour count together. -/
def countsAt (hour : Int) (bs : List Bucket) : ℕ × ℕ × ℕ :=
  ((bs.filter (·.hour = hour)).map Bucket.counts).sum

def hoursOf (bs : List Bucket) : Finset Int := (bs.map (·.hour)).toFinset

def Increasing (bs : List Bucket) : Prop := bs.Pairwise fun a b => a.hour < b.hour

theorem counts_add (b c : Bucket) : (b.add c).counts = b.counts + c.counts := rfl

@[simp] theorem countsAt_nil (hour : Int) : countsAt hour [] = 0 := rfl

theorem countsAt_cons (hour : Int) (b : Bucket) (bs : List Bucket) :
    countsAt hour (b :: bs) = (if b.hour = hour then b.counts else 0) + countsAt hour bs := by
  rw [countsAt, List.filter_cons]
  by_cases h : b.hour = hour
  · simp [h, countsAt]
  · simp [h, countsAt]

theorem countsAt_append (hour : Int) (bs cs : List Bucket) :
    countsAt hour (bs ++ cs) = countsAt hour bs + countsAt hour cs := by
  rw [countsAt, List.filter_append, List.map_append, List.sum_append, countsAt, countsAt]

theorem countsAt_of_notMem {hour : Int} {bs : List Bucket} (h : hour ∉ hoursOf bs) :
    countsAt hour bs = 0 := by
  have hnil : bs.filter (·.hour = hour) = [] := by
    rw [List.filter_eq_nil_iff]
    intro b hb heq
    apply h
    rw [hoursOf, List.mem_toFinset, List.mem_map]
    exact ⟨b, hb, by simpa using heq⟩
  rw [countsAt, hnil]
  rfl

theorem mem_hoursOf {hour : Int} {bs : List Bucket} :
    hour ∈ hoursOf bs ↔ ∃ b ∈ bs, b.hour = hour := by
  rw [hoursOf, List.mem_toFinset, List.mem_map]

theorem hoursOf_append (bs cs : List Bucket) : hoursOf (bs ++ cs) = hoursOf bs ∪ hoursOf cs := by
  rw [hoursOf, List.map_append, List.toFinset_append, hoursOf, hoursOf]

theorem countsAt_perm {bs cs : List Bucket} (h : bs.Perm cs) (hour : Int) :
    countsAt hour bs = countsAt hour cs :=
  ((h.filter _).map _).sum_eq

theorem hoursOf_perm {bs cs : List Bucket} (h : bs.Perm cs) : hoursOf bs = hoursOf cs :=
  List.toFinset_eq_of_perm _ _ (h.map _)

theorem Increasing.hours {bs : List Bucket} (h : Increasing bs) :
    (bs.map (·.hour)).Pairwise (· < ·) :=
  List.pairwise_map.mpr h

theorem Increasing.countsAt_mem {bs : List Bucket} (h : Increasing bs) {b : Bucket}
    (hb : b ∈ bs) : countsAt b.hour bs = b.counts := by
  induction bs with
  | nil => cases hb
  | cons c bs ih =>
      obtain ⟨hfirst, hrest⟩ := List.pairwise_cons.mp h
      rw [countsAt_cons]
      rcases List.mem_cons.mp hb with rfl | hb
      · have hnot : b.hour ∉ hoursOf bs := by
          intro hmem
          obtain ⟨d, hd, heq⟩ := mem_hoursOf.mp hmem
          have := hfirst d hd
          omega
        rw [if_pos rfl, countsAt_of_notMem hnot, add_zero]
      · have := hfirst b hb
        rw [if_neg (by omega), zero_add, ih hrest hb]

/-! ## Cutting -/

theorem keepLast_increasing {bs : List Bucket} (h : Increasing bs) (max : Nat) :
    Increasing (keepLast max bs) :=
  h.sublist (List.drop_sublist _ _)

theorem hoursOf_keepLast {bs : List Bucket} (h : Increasing bs) (max : Nat) :
    hoursOf (keepLast max bs) = top max (hoursOf bs) := by
  ext hour
  rw [hoursOf, hoursOf, ← mem_drop_iff_top h.hours, List.mem_toFinset, keepLast, List.map_drop,
    List.length_map]

theorem countsAt_keepLast {bs : List Bucket} {max : Nat} {hour : Int} (h : Increasing bs)
    (hfew : ((hoursOf bs).filter (hour < ·)).card < max) :
    countsAt hour (keepLast max bs) = countsAt hour bs := by
  by_cases hmem : hour ∈ hoursOf bs
  · have hkept : hour ∈ hoursOf (keepLast max bs) := by
      rw [hoursOf_keepLast h]
      exact mem_top.mpr ⟨hmem, hfew⟩
    obtain ⟨b, hb, rfl⟩ := mem_hoursOf.mp hkept
    rw [(keepLast_increasing h max).countsAt_mem hb, h.countsAt_mem (List.mem_of_mem_drop hb)]
  · have hnot : hour ∉ hoursOf (keepLast max bs) := by
      intro hkept
      obtain ⟨b, hb, rfl⟩ := mem_hoursOf.mp hkept
      exact hmem (mem_hoursOf.mpr ⟨b, List.mem_of_mem_drop hb, rfl⟩)
    rw [countsAt_of_notMem hmem, countsAt_of_notMem hnot]

/-! ## Recording in one shard -/

section

variable {max : Nat} {series : List Bucket} {b : Bucket}

theorem Increasing.snoc (h : Increasing series) (hlt : ∀ c ∈ series, c.hour < b.hour) :
    Increasing (series ++ [b]) := by
  rw [Increasing, List.pairwise_append]
  refine ⟨h, List.pairwise_singleton _ _, fun c hc d hd => ?_⟩
  rw [List.mem_singleton.mp hd]
  exact hlt c hc

/-- What a record in order does: add to the last bucket, or append one and cut. -/
theorem recordSeries_cases (max : Nat) (h : Increasing series)
    (horder : ∀ last, series.getLast? = some last → last.hour ≤ b.hour) :
    (∃ init last, series = init ++ [last] ∧ last.hour = b.hour ∧
      recordSeries max series b = init ++ [last.add b]) ∨
    (Increasing (series ++ [b]) ∧ recordSeries max series b = keepLast max (series ++ [b])) := by
  rw [recordSeries]
  cases hlast : series.getLast? with
  | none =>
      right
      rw [List.getLast?_eq_none_iff.mp hlast]
      exact ⟨List.pairwise_singleton _ _, rfl⟩
  | some last =>
      obtain ⟨init, rfl⟩ := List.getLast?_eq_some_iff.mp hlast
      dsimp only
      split
      · rename_i heq
        left
        exact ⟨init, last, rfl, heq, by rw [List.dropLast_concat]⟩
      · rename_i hne
        right
        refine ⟨h.snoc fun c hc => ?_, rfl⟩
        have hle := horder last hlast
        have hlt : last.hour < b.hour := lt_of_le_of_ne hle hne
        rcases List.mem_append.mp hc with hc | hc
        · have := (List.pairwise_append.mp h).2.2 c hc last (List.mem_singleton_self _)
          omega
        · rw [List.mem_singleton.mp hc]
          exact hlt

theorem recordSeries_increasing (h : Increasing series)
    (horder : ∀ last, series.getLast? = some last → last.hour ≤ b.hour) :
    Increasing (recordSeries max series b) := by
  rcases recordSeries_cases max h horder with ⟨init, last, rfl, -, heq⟩ | ⟨hinc, heq⟩
  · rw [heq, Increasing, List.pairwise_append]
    obtain ⟨hinit, -, hlast⟩ := List.pairwise_append.mp h
    refine ⟨hinit, List.pairwise_singleton _ _, fun c hc d hd => ?_⟩
    rw [List.mem_singleton.mp hd]
    exact hlast c hc last (List.mem_singleton_self _)
  · rw [heq]
    exact keepLast_increasing hinc max

theorem hoursOf_recordSeries (h : Increasing series)
    (horder : ∀ last, series.getLast? = some last → last.hour ≤ b.hour) :
    hoursOf (recordSeries max series b) ⊆ hoursOf (series ++ [b]) := by
  rcases recordSeries_cases max h horder with ⟨init, last, rfl, -, heq⟩ | ⟨hinc, heq⟩
  · rw [heq, hoursOf_append, hoursOf_append, hoursOf_append]
    exact Finset.subset_union_left
  · rw [heq, hoursOf_keepLast hinc]
    exact top_subset _ _

theorem countsAt_recordSeries {hour : Int} (h : Increasing series)
    (horder : ∀ last, series.getLast? = some last → last.hour ≤ b.hour)
    (hfew : ((hoursOf (series ++ [b])).filter (hour < ·)).card < max) :
    countsAt hour (recordSeries max series b) = countsAt hour (series ++ [b]) := by
  rcases recordSeries_cases max h horder with ⟨init, last, rfl, hsame, heq⟩ | ⟨hinc, heq⟩
  · rw [heq, countsAt_append, countsAt_append, countsAt_append, countsAt_cons, countsAt_cons,
      countsAt_cons, countsAt_nil, add_zero, add_zero, add_zero, add_assoc, counts_add]
    have hhour : (last.add b).hour = last.hour := rfl
    rw [hhour, hsame]
    split
    · rfl
    · rw [add_zero, add_zero, add_zero]
  · rw [heq, countsAt_keepLast hinc hfew]

theorem length_recordSeries (h : series.length ≤ max) :
    (recordSeries max series b).length ≤ max := by
  have hcut : (keepLast max (series ++ [b])).length ≤ max := by
    rw [keepLast, List.length_drop]
    omega
  rw [recordSeries]
  split
  · rename_i last hlast
    split
    · obtain ⟨init, rfl⟩ := List.getLast?_eq_some_iff.mp hlast
      rw [List.dropLast_concat]
      simpa using h
    · exact hcut
  · exact hcut

end

/-! ## Merging -/

def Distinct (bs : List Bucket) : Prop := (bs.map (·.hour)).Nodup

theorem hours_mergeBucket (bs : List Bucket) (b : Bucket) :
    (mergeBucket bs b).map (·.hour) =
      if b.hour ∈ bs.map (·.hour) then bs.map (·.hour) else bs.map (·.hour) ++ [b.hour] := by
  induction bs with
  | nil => rfl
  | cons x xs ih =>
      rw [mergeBucket]
      by_cases h : x.hour = b.hour
      · rw [if_pos h, if_pos (by simp [h])]
        rfl
      · rw [if_neg h, List.map_cons, ih]
        have hne : b.hour ≠ x.hour := fun heq => h heq.symm
        simp only [List.map_cons, List.mem_cons, hne, false_or]
        split <;> rfl

theorem Distinct.mergeBucket {bs : List Bucket} (h : Distinct bs) (b : Bucket) :
    Distinct (mergeBucket bs b) := by
  rw [Distinct, hours_mergeBucket]
  split
  · exact h
  · rename_i hnot
    exact List.nodup_append.mpr ⟨h, List.nodup_singleton _, by
      intro x hx y hy
      rw [List.mem_singleton.mp hy]
      rintro rfl
      exact hnot hx⟩

theorem hoursOf_mergeBucket (bs : List Bucket) (b : Bucket) :
    hoursOf (mergeBucket bs b) = hoursOf (bs ++ [b]) := by
  ext hour
  rw [hoursOf, hours_mergeBucket, hoursOf, List.map_append, List.mem_toFinset,
    List.mem_toFinset]
  split
  · rename_i hmem
    rw [List.mem_append, List.map_singleton, List.mem_singleton]
    constructor
    · exact .inl
    · rintro (h | rfl)
      · exact h
      · exact hmem
  · rfl

theorem countsAt_mergeBucket (hour : Int) (bs : List Bucket) (b : Bucket) :
    countsAt hour (mergeBucket bs b) = countsAt hour (bs ++ [b]) := by
  induction bs with
  | nil => rfl
  | cons x xs ih =>
      rw [mergeBucket, List.cons_append, countsAt_cons]
      by_cases h : x.hour = b.hour
      · have hhour : (x.add b).hour = x.hour := rfl
        rw [if_pos h, countsAt_cons, countsAt_append, countsAt_cons, countsAt_nil, hhour,
          counts_add, h]
        split
        · rw [add_zero, add_assoc, add_comm b.counts]
        · rw [add_zero]
          simp
      · rw [if_neg h, countsAt_cons, ih]

theorem foldl_mergeBucket {bs acc : List Bucket} (h : Distinct acc) :
    Distinct (bs.foldl mergeBucket acc) ∧
      hoursOf (bs.foldl mergeBucket acc) = hoursOf (acc ++ bs) ∧
      ∀ hour, countsAt hour (bs.foldl mergeBucket acc) = countsAt hour (acc ++ bs) := by
  induction bs generalizing acc with
  | nil =>
      rw [List.append_nil]
      exact ⟨h, rfl, fun _ => rfl⟩
  | cons b bs ih =>
      obtain ⟨hdistinct, hhours, hcounts⟩ := ih (h.mergeBucket b)
      refine ⟨hdistinct, ?_, fun hour => ?_⟩
      · rw [List.foldl_cons, hhours, hoursOf_append, hoursOf_mergeBucket, ← hoursOf_append,
          List.append_assoc, List.singleton_append]
      · rw [List.foldl_cons, hcounts, countsAt_append, countsAt_mergeBucket, ← countsAt_append,
          List.append_assoc, List.singleton_append]

theorem series_foldl (shards : List StatsInner) (acc : StatsInner) :
    (shards.foldl StatsInner.mergeFrom acc).series =
      (shards.flatMap (·.series)).foldl mergeBucket acc.series := by
  induction shards generalizing acc with
  | nil => rfl
  | cons shard shards ih =>
      rw [List.foldl_cons, ih, List.flatMap_cons, List.foldl_append]
      rfl

theorem sortByHour_perm (bs : List Bucket) : (sortByHour bs).Perm bs := List.mergeSort_perm _ _

theorem sortByHour_increasing {bs : List Bucket} (h : Distinct bs) :
    Increasing (sortByHour bs) := by
  have hle : (sortByHour bs).Pairwise fun a b => a.hour ≤ b.hour :=
    pairwise_mergeSort_key Bucket.hour bs
  have hne : (sortByHour bs).Pairwise fun a b => a.hour ≠ b.hour :=
    List.pairwise_map.mp (((sortByHour_perm bs).map _).nodup_iff.mpr h)
  exact (hle.and hne).imp fun hab => lt_of_le_of_ne hab.1 hab.2

theorem merged_series (s : Stats) :
    ∃ all, Increasing all ∧ hoursOf all = hoursOf (s.shards.flatMap (·.series)) ∧
      (∀ hour, countsAt hour all = countsAt hour (s.shards.flatMap (·.series))) ∧
      s.merged.series = keepLast s.limits.maxBuckets all := by
  obtain ⟨hdistinct, hhours, hcounts⟩ :=
    @foldl_mergeBucket (s.shards.flatMap (·.series)) [] List.nodup_nil
  refine ⟨_, sortByHour_increasing hdistinct, ?_, fun hour => ?_, ?_⟩
  · rw [hoursOf_perm (sortByHour_perm _), hhours]
    rfl
  · rw [countsAt_perm (sortByHour_perm _), hcounts]
    rfl
  · rw [Stats.merged, series_foldl]
    rfl

/-! ## Shards together -/

def hourOf (entry : QueryLogEntry) : Int := (Bucket.ofEntry entry).hour

def hourBucket (entries : List QueryLogEntry) (hour : Int) : Bucket where
  hour := hour
  total := entries.countP (hourOf · = hour)
  blocked := entries.countP fun entry => hourOf entry = hour && entry.isBlocked
  cached := entries.countP fun entry => hourOf entry = hour && entry.cached

/-- The last `max` hours in which anything was recorded, in order, with all their queries. -/
def hourly (max : Nat) (entries : List QueryLogEntry) : List Bucket :=
  ((top max (entries.map hourOf).toFinset).sort (· ≤ ·)).map (hourBucket entries)

def unsharded (max : Nat) (entries : List QueryLogEntry) : List Bucket :=
  entries.foldl (fun series entry => recordSeries max series (.ofEntry entry)) []

/-- The hour of a record is not before the last one its shard holds. -/
def InOrder (w : StatsWorld) : StatsAction → Prop
  | .record _ slot entry _ => ∀ shard last,
      w.stats.shards[w.stats.shardIndex slot]? = some shard →
      shard.series.getLast? = some last → last.hour ≤ hourOf entry
  | _ => True

/-- Each series is in order, and together they have every hour of the window in full. -/
structure Tracks (max : Nat) (shards : List StatsInner) (entries : List QueryLogEntry) :
    Prop where
  increasing : ∀ shard ∈ shards, Increasing shard.series
  hours : hoursOf (shards.flatMap (·.series)) ⊆ hoursOf (entries.map Bucket.ofEntry)
  full : ∀ hour ∈ top max (hoursOf (entries.map Bucket.ofEntry)),
    countsAt hour (shards.flatMap (·.series)) = countsAt hour (entries.map Bucket.ofEntry)

theorem countsAt_entries (entries : List QueryLogEntry) (hour : Int) :
    countsAt hour (entries.map Bucket.ofEntry) = (hourBucket entries hour).counts := by
  induction entries with
  | nil => rfl
  | cons entry entries ih =>
      rw [List.map_cons, countsAt_cons, ih]
      simp only [hourBucket, Bucket.counts, List.countP_cons]
      by_cases h : hourOf entry = hour
      · have h' : (Bucket.ofEntry entry).hour = hour := h
        rw [if_pos h']
        simp only [h, decide_true, Bool.true_and, if_true, Prod.mk_add_mk]
        refine Prod.ext (Nat.add_comm _ _) (Prod.ext ?_ ?_)
        · change entry.isBlocked.toNat + _ = _
          cases entry.isBlocked <;> simp [Nat.add_comm]
        · change entry.cached.toNat + _ = _
          cases entry.cached <;> simp [Nat.add_comm]
      · have h' : ¬ (Bucket.ofEntry entry).hour = hour := h
        rw [if_neg h', zero_add]
        simp [h]

theorem hoursOf_entries (entries : List QueryLogEntry) :
    hoursOf (entries.map Bucket.ofEntry) = (entries.map hourOf).toFinset := by
  rw [hoursOf, List.map_map]
  rfl

theorem keepLast_eq_hourly {max : Nat} {all : List Bucket} {entries : List QueryLogEntry}
    (hinc : Increasing all) (hhours : hoursOf all ⊆ hoursOf (entries.map Bucket.ofEntry))
    (hfull : ∀ hour ∈ top max (hoursOf (entries.map Bucket.ofEntry)),
      countsAt hour all = countsAt hour (entries.map Bucket.ofEntry)) :
    keepLast max all = hourly max entries := by
  have hlo : top max (hoursOf (entries.map Bucket.ofEntry)) ⊆ hoursOf all := by
    intro hour hhour
    by_contra hnot
    have hzero := hfull hour hhour
    rw [countsAt_of_notMem hnot, countsAt_entries] at hzero
    have htotal : entries.countP (hourOf · = hour) = 0 := (congrArg Prod.fst hzero).symm
    have hmem := top_subset _ _ hhour
    rw [hoursOf_entries, List.mem_toFinset, List.mem_map] at hmem
    obtain ⟨entry, hentry, heq⟩ := hmem
    rw [List.countP_eq_zero] at htotal
    exact htotal entry hentry (by simpa using heq)
  have hwindow : hoursOf (keepLast max all) = top max (entries.map hourOf).toFinset := by
    rw [hoursOf_keepLast hinc, top_of_between hlo hhours, hoursOf_entries]
  have hsorted : (keepLast max all).map (·.hour) =
      (top max (entries.map hourOf).toFinset).sort (· ≤ ·) := by
    rw [← hwindow, hoursOf]
    have hlt := (keepLast_increasing hinc max).hours
    exact ((List.toFinset_sort (· ≤ ·) (hlt.imp ne_of_lt)).mpr (hlt.imp le_of_lt)).symm
  rw [hourly, ← hsorted, List.map_map]
  conv_lhs => rw [← List.map_id (keepLast max all)]
  apply List.map_congr_left
  intro b hb
  have htop : b.hour ∈ top max (hoursOf (entries.map Bucket.ofEntry)) := by
    rw [hoursOf_entries, ← hwindow]
    exact mem_hoursOf.mpr ⟨b, hb, rfl⟩
  have hcounts : b.counts = (hourBucket entries b.hour).counts := by
    rw [← countsAt_entries, ← hfull _ htop, hinc.countsAt_mem (List.mem_of_mem_drop hb)]
  obtain ⟨htotal, hpair⟩ := Prod.mk.inj hcounts
  obtain ⟨hblocked, hcached⟩ := Prod.mk.inj hpair
  cases b
  simp only [id, Function.comp_apply, hourBucket, Bucket.mk.injEq, true_and]
  exact ⟨htotal, hblocked, hcached⟩

theorem exists_split {α : Type} {l : List α} {i : Nat} {a : α} (h : l[i]? = some a) :
    ∃ front back, l = front ++ a :: back ∧ ∀ b, l.set i b = front ++ b :: back := by
  obtain ⟨hi, rfl⟩ := List.getElem?_eq_some_iff.mp h
  refine ⟨l.take i, l.drop (i + 1), ?_, fun b => ?_⟩
  · rw [← List.drop_eq_getElem_cons hi, List.take_append_drop]
  · rw [List.set_eq_take_append_cons_drop, if_pos hi]

section

variable {max : Nat} {entries : List QueryLogEntry}

theorem Tracks.record {front back : List StatsInner} {shard shard' : StatsInner}
    {entry : QueryLogEntry} (h : Tracks max (front ++ shard :: back) entries)
    (horder : ∀ last, shard.series.getLast? = some last → last.hour ≤ hourOf entry)
    (hshard : shard'.series = recordSeries max shard.series (.ofEntry entry)) :
    Tracks max (front ++ shard' :: back) (entries ++ [entry]) := by
  have hinc := h.increasing shard (by simp)
  have hflat : (front ++ shard :: back).flatMap (·.series) =
      front.flatMap (·.series) ++ shard.series ++ back.flatMap (·.series) := by
    simp [List.flatMap_append, List.flatMap_cons]
  have hflat' : (front ++ shard' :: back).flatMap (·.series) =
      front.flatMap (·.series) ++ shard'.series ++ back.flatMap (·.series) := by
    simp [List.flatMap_append, List.flatMap_cons]
  have hentries : (entries ++ [entry]).map Bucket.ofEntry =
      entries.map Bucket.ofEntry ++ [.ofEntry entry] := by
    rw [List.map_append, List.map_singleton]
  have hsubset := h.hours
  rw [hflat, hoursOf_append, hoursOf_append] at hsubset
  have hown : hoursOf (shard.series ++ [.ofEntry entry]) ⊆
      hoursOf ((entries ++ [entry]).map Bucket.ofEntry) := by
    rw [hentries, hoursOf_append, hoursOf_append]
    apply Finset.union_subset_union_left
    exact (Finset.subset_union_right.trans Finset.subset_union_left).trans hsubset
  refine ⟨?_, ?_, ?_⟩
  · intro other hother
    rcases List.mem_append.mp hother with hother | hother
    · exact h.increasing other (List.mem_append_left _ hother)
    · rcases List.mem_cons.mp hother with rfl | hother
      · rw [hshard]
        exact recordSeries_increasing hinc horder
      · exact h.increasing other
          (List.mem_append_right _ (List.mem_cons_of_mem _ hother))
  · rw [hflat', hoursOf_append, hoursOf_append, hshard]
    have hrecorded := (@hoursOf_recordSeries max _ _ hinc horder).trans hown
    have hgrow : hoursOf (entries.map Bucket.ofEntry) ⊆
        hoursOf ((entries ++ [entry]).map Bucket.ofEntry) := by
      rw [hentries, hoursOf_append]
      exact Finset.subset_union_left
    refine Finset.union_subset (Finset.union_subset ?_ hrecorded) ?_
    · exact (Finset.subset_union_left.trans Finset.subset_union_left).trans (hsubset.trans hgrow)
    · exact Finset.subset_union_right.trans (hsubset.trans hgrow)
  · intro hour hhour
    obtain ⟨hmem, hfew⟩ := mem_top.mp hhour
    have hfew' := lt_of_le_of_lt (card_above_mono hown hour) hfew
    rw [hflat', countsAt_append, countsAt_append, hshard,
      countsAt_recordSeries hinc horder hfew', countsAt_append, hentries, countsAt_append]
    have hbefore : countsAt hour ((front ++ shard :: back).flatMap (·.series)) =
        countsAt hour (entries.map Bucket.ofEntry) := by
      by_cases hold : hour ∈ hoursOf (entries.map Bucket.ofEntry)
      · apply h.full
        apply mem_top_of_subset _ hold hhour
        rw [hentries, hoursOf_append]
        exact Finset.subset_union_left
      · rw [countsAt_of_notMem hold, countsAt_of_notMem fun hin => hold (h.hours hin)]
    rw [← hbefore, hflat, countsAt_append, countsAt_append]
    ac_rfl

theorem Tracks.merged {s : Stats} (h : Tracks s.limits.maxBuckets s.shards entries) :
    s.merged.series = hourly s.limits.maxBuckets entries ∧
      Tracks s.limits.maxBuckets [s.merged] entries := by
  obtain ⟨all, hinc, hhours, hcounts, hmerged⟩ := merged_series s
  have hsubset : hoursOf all ⊆ hoursOf (entries.map Bucket.ofEntry) := hhours ▸ h.hours
  have hflat : [s.merged].flatMap (·.series) = s.merged.series := by simp
  refine ⟨?_, ?_, ?_, ?_⟩
  · rw [hmerged]
    exact keepLast_eq_hourly hinc hsubset fun hour hhour => by rw [hcounts, h.full hour hhour]
  · intro shard hshard
    rw [List.mem_singleton.mp hshard, hmerged]
    exact keepLast_increasing hinc _
  · rw [hflat, hmerged, hoursOf_keepLast hinc]
    exact (top_subset _ _).trans hsubset
  · intro hour hhour
    have hfew := lt_of_le_of_lt (card_above_mono hsubset hour) (mem_top.mp hhour).2
    rw [hflat, hmerged, countsAt_keepLast hinc hfew, hcounts, h.full hour hhour]

theorem Tracks.withEmpty {shard : StatsInner} (h : Tracks max [shard] entries) (n : Nat) :
    Tracks max (shard :: List.replicate n .default) entries := by
  have hempty : (List.replicate n StatsInner.default).flatMap (·.series) = [] := by
    rw [List.flatMap_eq_nil_iff]
    intro other hother
    rw [List.eq_of_mem_replicate hother]
    rfl
  have hflat : (shard :: List.replicate n .default).flatMap (·.series) =
      [shard].flatMap (·.series) := by
    rw [List.flatMap_cons, hempty, List.flatMap_cons, List.flatMap_nil]
  refine ⟨?_, ?_, ?_⟩
  · intro other hother
    rcases List.mem_cons.mp hother with rfl | hother
    · exact h.increasing other (List.mem_singleton_self _)
    · rw [List.eq_of_mem_replicate hother]
      exact List.Pairwise.nil
  · rw [hflat]
    exact h.hours
  · rw [hflat]
    exact h.full

theorem tracks_nil (max n : Nat) : Tracks max (List.replicate n .default) [] := by
  refine ⟨?_, ?_, ?_⟩
  · intro shard hshard
    rw [List.eq_of_mem_replicate hshard]
    exact List.Pairwise.nil
  · intro hour hhour
    obtain ⟨b, hb, -⟩ := mem_hoursOf.mp hhour
    obtain ⟨shard, hshard, hb⟩ := List.mem_flatMap.mp hb
    rw [List.eq_of_mem_replicate hshard] at hb
    cases hb
  · intro hour hhour
    cases top_subset _ _ hhour

end

/-! ## Runs -/

/-- Queries are recorded under one bucket limit; statistics are reset and processes restart. -/
def StatsAction.keepsSeries : StatsAction → Bool
  | .record _ _ _ _ => true
  | .save _ => true
  | .load _ => false
  | .restart _ shards => shards != 0
  | .reset => true
  | .reconfigure _ _ _ => false

theorem StatsAction.keepsCounting_of_keepsSeries {a : StatsAction}
    (h : a.keepsSeries = true) : a.keepsCounting = true := by
  cases a with
  | reconfigure enabled days anonymize => cases h
  | record order slot entry rtt => rfl
  | save cache => rfl
  | load file => cases h
  | restart cache shards => exact h
  | reset => rfl

/-- The shards track what was recorded, under the limit `max`. -/
structure TracksRun (max : Nat) (as : List StatsAction) (w : StatsWorld) : Prop where
  limit : w.stats.limits.maxBuckets = max
  nonempty : w.stats.shards ≠ []
  enabled : w.stats.enabled = true
  tracks : Tracks max w.stats.shards (recordedSinceReset as)

theorem tracksRun_record {max : Nat} {as : List StatsAction} {w : StatsWorld} {t : Stats}
    {order : Iteration} {slot : Nat} {entry : QueryLogEntry} {rtt : Option ℚ}
    (hw : TracksRun max as w) (hin : InOrder w (.record order slot entry rtt))
    (ht : w.stats.record order slot entry rtt = some t) :
    TracksRun max (as ++ [.record order slot entry rtt]) { w with stats := t } := by
  rw [Stats.record, if_pos hw.enabled] at ht
  simp only [Option.bind_eq_bind, Option.bind_eq_some_iff, Option.some.injEq,
    StatsInner.record] at ht
  obtain ⟨shard, hshard, shard', ⟨hist, -, hists, -, rfl⟩, rfl⟩ := ht
  obtain ⟨front, back, hsplit, hset⟩ := exists_split hshard
  refine ⟨hw.limit, ?_, hw.enabled, ?_⟩
  · dsimp only
    rw [hset]
    simp
  · dsimp only
    rw [hset, recordedSinceReset_snoc]
    have htracks := hw.tracks
    rw [hsplit] at htracks
    refine htracks.record (fun last hlast => hin shard last hshard hlast) ?_
    rw [StatsInner.counted, ← hw.limit]

theorem tracksRun_restart {max : Nat} {as : List StatsAction} {w : StatsWorld}
    (hw : TracksRun max as w) {shards : Nat} (hshards : shards ≠ 0) (cache : CacheCounters)
    (files : List StatsInner) :
    TracksRun max (as ++ [.restart cache shards])
      ⟨((w.stats.fresh shards).import (w.stats.export cache)).1, files⟩ := by
  have hfresh : (w.stats.fresh shards).shards ≠ [] := by
    rw [← List.length_pos_iff]
    simpa [Stats.fresh, Nat.pos_iff_ne_zero] using hshards
  refine ⟨hw.limit, ?_, hw.enabled, ?_⟩
  · dsimp only
    rw [shards_import hfresh]
    exact List.cons_ne_nil _ _
  · dsimp only
    rw [shards_import hfresh, recordedSinceReset_snoc]
    apply Tracks.withEmpty
    have htracks := hw.tracks
    rw [← hw.limit] at htracks ⊢
    obtain ⟨-, hmerged⟩ := htracks.merged
    have hinc := hmerged.increasing w.stats.merged (List.mem_singleton_self _)
    refine ⟨fun shard hshard => ?_, hmerged.hours, hmerged.full⟩
    rw [List.mem_singleton.mp hshard]
    exact hinc

theorem tracksRun_step {max : Nat} {as : List StatsAction} {w u : StatsWorld} {a : StatsAction}
    (hkeeps : a.keepsSeries = true) (hin : InOrder w a) (hstep : statsStep w a = some u)
    (hw : TracksRun max as w) : TracksRun max (as ++ [a]) u := by
  cases a with
  | record order slot entry rtt =>
      simp only [statsStep, Option.bind_eq_bind, Option.bind_eq_some_iff,
        Option.some.injEq] at hstep
      obtain ⟨t, ht, rfl⟩ := hstep
      exact tracksRun_record hw hin ht
  | save cache =>
      cases hstep
      refine ⟨hw.limit, hw.nonempty, hw.enabled, ?_⟩
      rw [recordedSinceReset_snoc]
      exact hw.tracks
  | load file => cases hkeeps
  | restart cache shards =>
      have hshards : shards ≠ 0 := by simpa [StatsAction.keepsSeries] using hkeeps
      rw [statsStep, if_neg hshards] at hstep
      cases hstep
      exact tracksRun_restart hw hshards cache _
  | reset =>
      cases hstep
      refine ⟨hw.limit, fun hnil => hw.nonempty (List.map_eq_nil_iff.mp hnil), hw.enabled, ?_⟩
      rw [recordedSinceReset_snoc]
      dsimp only
      rw [Stats.reset, List.map_const']
      exact tracks_nil _ _
  | reconfigure enabled days anonymize => cases hkeeps

/-- Sorting the queries by hour, and keeping their order inside an hour. -/
def byHour (entries : List QueryLogEntry) : List QueryLogEntry :=
  entries.mergeSort fun a b => hourOf a ≤ hourOf b

theorem unsharded_eq_hourly {max : Nat} {entries : List QueryLogEntry}
    (h : entries.Pairwise fun a b => hourOf a ≤ hourOf b) :
    unsharded max entries = hourly max entries := by
  have htracks : Tracks max [{ StatsInner.default with series := unsharded max entries }]
      entries ∧ (unsharded max entries).length ≤ max := by
    induction entries using List.reverseRecOn with
    | nil => exact ⟨tracks_nil max 1, Nat.zero_le _⟩
    | append_singleton entries entry ih =>
        obtain ⟨hfront, -, hlast⟩ := List.pairwise_append.mp h
        obtain ⟨htracks, hlen⟩ := ih hfront
        have hsnoc : unsharded max (entries ++ [entry]) =
            recordSeries max (unsharded max entries) (.ofEntry entry) := by
          rw [unsharded, List.foldl_append]
          rfl
        rw [hsnoc]
        refine ⟨?_, length_recordSeries hlen⟩
        have hrecord := @Tracks.record max entries [] []
          { StatsInner.default with series := unsharded max entries }
          { StatsInner.default with
            series := recordSeries max (unsharded max entries) (.ofEntry entry) } entry htracks
        refine hrecord (fun last hget => ?_) rfl
        have hmem : last.hour ∈ hoursOf (entries.map Bucket.ofEntry) := by
          apply htracks.hours
          rw [List.flatMap_cons, List.flatMap_nil, List.append_nil]
          exact mem_hoursOf.mpr ⟨last, List.mem_of_getLast? hget, rfl⟩
        rw [hoursOf_entries, List.mem_toFinset, List.mem_map] at hmem
        obtain ⟨earlier, hearlier, heq⟩ := hmem
        rw [← heq]
        exact hlast earlier hearlier entry (List.mem_singleton_self _)
  obtain ⟨htracks, hlen⟩ := htracks
  have hwhole : keepLast max (unsharded max entries) = unsharded max entries := by
    rw [keepLast, Nat.sub_eq_zero_of_le hlen, List.drop_zero]
  have hflat : [{ StatsInner.default with series := unsharded max entries }].flatMap
      (·.series) = unsharded max entries := by simp
  have hhours := htracks.hours
  have hfull := htracks.full
  rw [hflat] at hhours hfull
  rw [← hwhole]
  exact keepLast_eq_hourly (htracks.increasing _ (List.mem_singleton_self _)) hhours hfull

theorem byHour_perm (entries : List QueryLogEntry) : (byHour entries).Perm entries :=
  List.mergeSort_perm _ _

theorem byHour_sorted (entries : List QueryLogEntry) :
    (byHour entries).Pairwise fun a b => hourOf a ≤ hourOf b :=
  pairwise_mergeSort_key hourOf entries

theorem hourly_perm {entries entries' : List QueryLogEntry} (h : entries.Perm entries')
    (max : Nat) : hourly max entries = hourly max entries' := by
  have hbucket : hourBucket entries = hourBucket entries' := by
    funext hour
    rw [hourBucket, hourBucket, h.countP_eq, h.countP_eq, h.countP_eq]
  rw [hourly, hourly, hbucket, List.toFinset_eq_of_perm _ _ (h.map hourOf)]

def statsWith (shards max : Nat) (anonymize : Bool) : Stats where
  shards := List.replicate shards .default
  limits := ⟨Nat.max (topkKeys / shards) 256, anonymize, max⟩
  enabled := true

theorem counts_statsWith {shards : Nat} (hshards : 0 < shards) (max : Nat) (anonymize : Bool) :
    Counts (statsWith shards max anonymize) 0 := by
  have h := counts_new hshards 0 anonymize
  exact ⟨h.nonempty, h.enabled, h.cap, h.balanced, h.total⟩

/--
Where no shard sees an hour before the last one it holds, the merged series is that of
one recorder without shards: the last `max` hours in which anything was recorded.
-/
theorem merged_series_eq_unsharded {shards : Nat} (hshards : 0 < shards) (max : Nat)
    (anonymize : Bool) {as : List StatsAction} (has : ∀ a ∈ as, a.keepsSeries = true)
    (hin : EachStep statsStep InOrder ⟨statsWith shards max anonymize, []⟩ as) :
    ∃ w, runFrom statsStep ⟨statsWith shards max anonymize, []⟩ as = some w ∧
      w.stats.merged.series = hourly max (recordedSinceReset as) ∧
      w.stats.merged.series = unsharded max (byHour (recordedSinceReset as)) := by
  obtain ⟨w, hrun, -⟩ := counts_run (counts_statsWith hshards max anonymize)
    fun a ha => StatsAction.keepsCounting_of_keepsSeries (has a ha)
  have hinit : TracksRun max [] ⟨statsWith shards max anonymize, []⟩ := by
    refine ⟨rfl, ?_, rfl, tracks_nil max shards⟩
    rw [← List.length_pos_iff]
    simpa [statsWith] using hshards
  have hw : TracksRun max as w :=
    runFrom_induction (H := TracksRun max) hinit
      (fun as t a u _ hc hstep ht => tracksRun_step hc.1 hc.2 hstep ht)
      ((eachStep_of_actions has _).and hin) hrun
  have htracks := hw.tracks
  rw [← hw.limit] at htracks
  have hmerged := htracks.merged.1
  rw [hw.limit] at hmerged
  refine ⟨w, hrun, hmerged, ?_⟩
  rw [hmerged, unsharded_eq_hourly (byHour_sorted _), hourly_perm (byHour_perm _)]

/-- The second shard is an hour ahead; after a restart it sees the hour again. -/
def hourlyRun : List StatsAction :=
  [.record storedOrder 1 { entryFor ['a'] .cached with timeMs := 3600000 } none,
    .record storedOrder 0 (entryFor ['b'] .cached) none,
    .restart ⟨0, 0, 0, 0, 0⟩ 2,
    .record storedOrder 1 { entryFor ['c'] .error with timeMs := 3600000 } none]

theorem merged_series_hourlyRun :
    (∀ a ∈ hourlyRun, a.keepsSeries = true) ∧
      EachStep statsStep InOrder ⟨statsWith 2 1 false, []⟩ hourlyRun ∧
      ∃ w, runFrom statsStep ⟨statsWith 2 1 false, []⟩ hourlyRun = some w ∧
        w.stats.merged.series = hourly 1 (recordedSinceReset hourlyRun) := by
  have has : ∀ a ∈ hourlyRun, a.keepsSeries = true := by
    intro a ha
    simp only [hourlyRun, List.mem_cons, List.not_mem_nil, or_false] at ha
    rcases ha with rfl | rfl | rfl | rfl <;> rfl
  have hin : EachStep statsStep InOrder ⟨statsWith 2 1 false, []⟩ hourlyRun := by
    refine ⟨?_, fun t ht => ⟨?_, fun u hu => ⟨trivial, fun v hv => ⟨?_, fun _ _ => trivial⟩⟩⟩⟩
    · intro shard last hshard hlast
      cases hshard
      cases hlast
    · intro shard last hshard hlast
      cases ht
      cases hshard
      cases hlast
    · intro shard last hshard hlast
      cases ht
      cases hu
      cases hv
      cases hshard
      cases hlast
  obtain ⟨w, hrun, hseries, -⟩ := merged_series_eq_unsharded (by decide : 0 < 2) 1 false has hin
  exact ⟨has, hin, w, hrun, hseries⟩

end Bulwark.Engine
