import Bulwark.Engine.Import

/-!
# The eviction order after a restart

Entries are exported the most recent first, and each one that is imported becomes the
most recent.
-/

namespace Bulwark.Engine

open Bulwark.Foundation Bulwark.Dns

def DnsCache.Holds (c : DnsCache) (k : QueryKey) : Prop := k ∈ (c.shard k).keys

/-- Two keys of one shard, of which the second will be pushed out first. -/
def DnsCache.MoreRecent (c : DnsCache) (k k' : QueryKey) : Prop :=
  [k, k'].Sublist (c.shard k).keys

/-- What was read into the cache is there in the order of `c`, as far as one shard goes. -/
structure KeepsRecency (c t : DnsCache) (read : List QueryKey) : Prop where
  order : ∀ k k', c.MoreRecent k k' → t.index k = t.index k' → t.Holds k → t.Holds k' →
    t.MoreRecent k k'
  kept : ∀ k k', c.MoreRecent k k' → t.index k = t.index k' → k ∈ read → t.Holds k' → t.Holds k

/-! ## The shards after an import -/

theorem index_installAll (t : DnsCache) (es : List (QueryKey × Entry)) (k : QueryKey) :
    (es.foldl DnsCache.install t).index k = t.index k := by
  induction es generalizing t with
  | nil => rfl
  | cons e es ih => exact ih (t.install e)

theorem shards_installAll (t : DnsCache) (es : List (QueryKey × Entry)) (j : Nat) :
    (es.foldl DnsCache.install t).shards j =
      (es.filter fun e => t.index e.1 = j).foldl (fun l e => l.put e.1 e.2) (t.shards j) := by
  induction es generalizing t with
  | nil => rfl
  | cons e es ih =>
      have hsame : ∀ k, (t.install e).index k = t.index k := fun _ => rfl
      rw [List.foldl_cons, ih]
      simp only [hsame]
      by_cases hj : t.index e.1 = j
      · subst hj
        rw [List.filter_cons_of_pos (by simp), List.foldl_cons]
        congr 1
        exact Function.update_self ..
      · rw [List.filter_cons_of_neg (by simpa using hj)]
        congr 1
        exact Function.update_of_ne (Ne.symm hj) ..

section

variable {t : DnsCache} (now : Nat) (unix : UInt64) (data : Bytes)

/-- The keys that an import puts into one shard, in order. -/
def DnsCache.readTo (t : DnsCache) (now : Nat) (unix : UInt64) (data : Bytes) (j : Nat) :
    List QueryKey :=
  (t.installedKeys now unix data).filter (t.index · = j)

theorem index_import (k : QueryKey) : (t.importSnapshot now unix data).index k = t.index k := by
  rw [importSnapshot_eq]
  exact index_installAll t _ k

theorem keys_import (hempty : ∀ i, (t.shards i).entries = []) (j : Nat) :
    ((t.importSnapshot now unix data).shards j).keys =
      (Lru.recents (t.readTo now unix data j)).take (t.shards j).cap := by
  rw [importSnapshot_eq, shards_installAll, (Lru.keys_putAll (hempty j) _).2]
  unfold DnsCache.readTo DnsCache.installedKeys
  rw [List.filter_map]
  rfl

theorem holds_import (hempty : ∀ i, (t.shards i).entries = []) (k : QueryKey) :
    (t.importSnapshot now unix data).Holds k ↔
      k ∈ (Lru.recents (t.readTo now unix data (t.index k))).take (t.shard k).cap := by
  unfold DnsCache.Holds DnsCache.shard
  rw [index_import, keys_import now unix data hempty]

theorem moreRecent_import (hempty : ∀ i, (t.shards i).entries = []) (k k' : QueryKey) :
    (t.importSnapshot now unix data).MoreRecent k k' ↔
      [k, k'].Sublist
        ((Lru.recents (t.readTo now unix data (t.index k))).take (t.shard k).cap) := by
  unfold DnsCache.MoreRecent DnsCache.shard
  rw [index_import, keys_import now unix data hempty]

/-- Of two keys the less recent one is read first, or pushed out again. -/
def ReadInOrder (c t : DnsCache) (now : Nat) (unix : UInt64) (data : Bytes) : Prop :=
  ∀ k k', c.MoreRecent k k' → t.index k = t.index k' →
    k ∈ t.readTo now unix data (t.index k) →
    k' ∈ (Lru.recents (t.readTo now unix data (t.index k))).take (t.shard k).cap →
    [k, k'].Sublist (Lru.recents (t.readTo now unix data (t.index k)))

theorem keepsRecency_iff_readInOrder (c : DnsCache) (hempty : ∀ i, (t.shards i).entries = []) :
    KeepsRecency c (t.importSnapshot now unix data) (t.installedKeys now unix data) ↔
      ReadInOrder c t now unix data := by
  have hholds := holds_import now unix data hempty
  have hmore := moreRecent_import now unix data hempty
  have hindex := index_import (t := t) now unix data
  constructor
  · intro ⟨order, kept⟩ k k' hrecent hsame hread hlast
    have hk' : (t.importSnapshot now unix data).Holds k' := by
      rw [hholds, DnsCache.shard, ← hsame]
      exact hlast
    have hsame' : (t.importSnapshot now unix data).index k =
        (t.importSnapshot now unix data).index k' := by rw [hindex, hindex, hsame]
    have hk := kept k k' hrecent hsame' (List.mem_filter.mp hread).1 hk'
    have hpair := (hmore k k').mp (order k k' hrecent hsame' hk hk')
    exact hpair.trans (List.take_sublist _ _)
  · intro h
    have hpair : ∀ k k', c.MoreRecent k k' →
        (t.importSnapshot now unix data).index k = (t.importSnapshot now unix data).index k' →
        k ∈ t.installedKeys now unix data → (t.importSnapshot now unix data).Holds k' →
        (t.importSnapshot now unix data).MoreRecent k k' := by
      intro k k' hrecent hsame hread hk'
      rw [hindex, hindex] at hsame
      rw [hholds, DnsCache.shard, ← hsame] at hk'
      rw [hmore]
      refine Lru.sublist_take_of_mem (Lru.nodup_recents _) ?_ hk'
      exact h k k' hrecent hsame (List.mem_filter.mpr ⟨hread, by simp⟩) hk'
    constructor
    · intro k k' hrecent hsame hk hk'
      have hread := Lru.mem_recents.mp (List.mem_of_mem_take ((hholds k).mp hk))
      exact hpair k k' hrecent hsame (List.mem_filter.mp hread).1 hk'
    · intro k k' hrecent hsame hread hk'
      have := (hmore k k').mp (hpair k k' hrecent hsame hread hk')
      exact (hholds k).mpr (this.mem (by simp))

end

/-! ## An export that is read back -/

/-- Number and lengths of the records are what the format can say. -/
structure SnapshotFits (c : DnsCache) (now : Nat) : Prop where
  count : (c.exported now).length < 2 ^ 32
  writable : ∀ e ∈ c.exported now, EntryWritable e.1 e.2

/-- The keys of the exported records up to a rejected one, without those that have expired
after `elapsed` seconds. -/
def DnsCache.readBack (c : DnsCache) (now : Nat) (staleMaxAge : UInt32) (later elapsed : Nat) :
    List QueryKey :=
  (((c.exported now).takeWhile fun e => entryAccepted e.1 e.2).filter fun e =>
    (restoredFrom staleMaxAge later elapsed (recordOf now e)).isSome).map Prod.fst

theorem readEntries_write {now : Nat} {es : List (QueryKey × Entry)}
    (hwritable : ∀ e ∈ es, EntryWritable e.1 e.2) :
    readEntries es.length (es.flatMap fun e => writeEntry now e.1 e.2) =
      (es.takeWhile fun e => entryAccepted e.1 e.2).map (recordOf now) := by
  induction es with
  | nil => rfl
  | cons e es ih =>
      rw [List.length_cons, List.flatMap_cons, readEntries,
        readEntry_writeEntry (hwritable _ List.mem_cons_self), List.takeWhile_cons]
      by_cases haccepted : entryAccepted e.1 e.2 = true
      · rw [if_pos haccepted, if_pos haccepted]
        dsimp only
        rw [ih fun e he => hwritable e (List.mem_cons_of_mem _ he), List.map_cons]
      · rw [if_neg haccepted, if_neg haccepted]
        rfl

theorem key_of_restoredFrom (staleMaxAge : UInt32) (now later elapsed : Nat)
    (es : List (QueryKey × Entry)) :
    ((es.map (recordOf now)).filterMap (restoredFrom staleMaxAge later elapsed)).map Prod.fst =
      (es.filter fun e =>
        (restoredFrom staleMaxAge later elapsed (recordOf now e)).isSome).map Prod.fst := by
  induction es with
  | nil => rfl
  | cons e es ih =>
      rw [List.map_cons, List.filterMap_cons, List.filter_cons]
      cases hrestored : restoredFrom staleMaxAge later elapsed (recordOf now e) with
      | none => exact ih
      | some e' =>
          have hkey := (live_of_restoredFrom hrestored).1
          simp only [Option.isSome_some, if_true, List.map_cons, ih]
          rw [hkey]
          rfl

theorem installedKeys_export {c : DnsCache} {now : Nat} (h : SnapshotFits c now) (t : DnsCache)
    (later : Nat) (unix unix' : UInt64) :
    t.installedKeys later unix' (c.exportSnapshot now unix) =
      c.readBack now t.cfg.staleMaxAge later (unix'.toNat - unix.toNat) := by
  unfold DnsCache.installedKeys DnsCache.installs DnsCache.exportSnapshot
  rw [readHead_export unix h.count]
  dsimp only
  rw [readEntries_write h.writable, key_of_restoredFrom]
  rfl

theorem readBack_sublist (c : DnsCache) (now : Nat) (staleMaxAge : UInt32) (later elapsed : Nat) :
    (c.readBack now staleMaxAge later elapsed).Sublist c.allKeys := by
  have hfrom : (c.readBack now staleMaxAge later elapsed).Sublist
      ((c.exported now).map Prod.fst) :=
    (List.filter_sublist.trans (List.takeWhile_sublist _)).map _
  exact hfrom.trans (exported_sublist c now)

theorem moreRecent_allKeys {c : DnsCache} (h : 0 < c.shardCount) {k k' : QueryKey}
    (hrecent : c.MoreRecent k k') : [k, k'].Sublist c.allKeys := by
  have hindex : c.index k < c.shardCount := by
    have := Nat.and_le_right (n := c.hash k) (m := c.shardCount - 1)
    unfold DnsCache.index
    omega
  refine hrecent.trans ?_
  unfold DnsCache.allKeys
  rw [List.flatMap_def]
  exact List.sublist_flatten_of_mem (List.mem_map.mpr ⟨_, List.mem_range.mpr hindex, rfl⟩)

/-- What is read back is in the opposite order, so that a pair is kept in order only where its
second key is pushed out again. -/
theorem readInOrder_iff_pushedOut {c : DnsCache} (hsound : c.Sound) {now : Nat}
    (hfits : SnapshotFits c now) (t : DnsCache) (later : Nat) (unix unix' : UInt64) :
    let data := c.exportSnapshot now unix
    ReadInOrder c t later unix' data ↔
      ∀ k k', c.MoreRecent k k' → t.index k = t.index k' →
        k ∈ t.readTo later unix' data (t.index k) →
        k' ∉ (t.readTo later unix' data (t.index k)).reverse.take (t.shard k).cap := by
  intro data
  have hall := nodup_allKeys hsound.sharded
  have hsub : ∀ j, (t.readTo later unix' data j).Sublist c.allKeys := by
    intro j
    refine List.filter_sublist.trans ?_
    rw [installedKeys_export hfits]
    exact readBack_sublist ..
  unfold ReadInOrder
  simp only [Lru.recents_of_nodup (hall.sublist (hsub _))]
  constructor
  · intro h k k' hrecent hsame hread hlast
    have hread' := List.mem_reverse.mp (List.mem_of_mem_take hlast)
    have hpair := Lru.sublist_of_mem (hsub _) hall (moreRecent_allKeys hsound.shards_pos hrecent)
      hread hread'
    have hback := List.reverse_sublist.mpr (h k k' hrecent hsame hread hlast)
    rw [List.reverse_reverse] at hback
    exact Lru.not_sublist_reverse (hall.sublist (hsub _)) hpair hback
  · intro h k k' hrecent hsame hread hlast
    exact absurd hlast (h k k' hrecent hsame hread)

/-- An import keeps the recency of a cache exactly where of two keys that share a shard
before and after the more recent one is read last, or the other one is pushed out.  Where the
lengths fit the format the first never happens. -/
theorem keepsRecency_iff_pushedOut (c t : DnsCache) (now later : Nat) (unix unix' : UInt64)
    (hempty : ∀ i, (t.shards i).entries = []) :
    let data := c.exportSnapshot now unix
    let imported := t.importSnapshot later unix' data
    let read := t.installedKeys later unix' data
    (KeepsRecency c imported read ↔ ReadInOrder c t later unix' data) ∧
      (c.Sound → SnapshotFits c now →
        read = c.readBack now t.cfg.staleMaxAge later (unix'.toNat - unix.toNat) ∧
        (KeepsRecency c imported read ↔
          ∀ k k', c.MoreRecent k k' → t.index k = t.index k' →
            k ∈ t.readTo later unix' data (t.index k) →
            k' ∉ (t.readTo later unix' data (t.index k)).reverse.take (t.shard k).cap)) := by
  intro data imported read
  have hgeneral := keepsRecency_iff_readInOrder later unix' data c hempty
  refine ⟨hgeneral, fun hsound hfits => ⟨installedKeys_export hfits t later unix unix', ?_⟩⟩
  exact hgeneral.trans (readInOrder_iff_pushedOut hsound hfits t later unix unix')

/-! ## Two keys of one shard -/

/-- The same question with the DNSSEC bit. -/
def secureKey : QueryKey := { aliasKey with dnssecOk := true }

def askedTwice : List CacheAction :=
  [.insert aliasKey aliasMessage none, .insert secureKey aliasMessage none,
    .tick (5 * nanosPerSec)]

/-- Both questions in the third of eight shards. -/
def twoWorld : CacheWorld := cacheRun aliasEnv ⟨.new 8 (fun _ => 3) 100 0 0 10, 0⟩ askedTwice

theorem index_insertInner (env : CacheEnv) (c : DnsCache) (now : Nat) (key : QueryKey)
    (msg : Message) (verdict : Option ResponseVerdict) (k : QueryKey) :
    (c.insertInner env now key msg verdict).2.index k = c.index k := by
  rw [insertInner_eq]
  cases c.insertTtl msg <;> rfl

theorem keys_twoWorld (k : QueryKey) : (twoWorld.cache.shard k).keys = [secureKey, aliasKey] := by
  have hindex : twoWorld.cache.index k = 3 := by
    unfold twoWorld askedTwice
    simp only [cacheRun, List.foldl_cons, List.foldl_nil, cacheStep, index_insertInner]
    change 3 &&& (8 - 1) = 3
    decide
  unfold DnsCache.shard
  rw [hindex]
  decide +kernel

/-- Across a restart the last question asked becomes the first to be pushed out. -/
theorem secureKey_lastAfterRestart :
    let t := DnsCache.new 8 (fun _ => 3) 100 0 0 10
    let data := twoWorld.cache.exportSnapshot twoWorld.now 77
    ¬ KeepsRecency twoWorld.cache (t.importSnapshot twoWorld.now 77 data)
      (t.installedKeys twoWorld.now 77 data) := by
  intro t data h
  have hrecent : twoWorld.cache.MoreRecent secureKey aliasKey := by
    unfold DnsCache.MoreRecent
    rw [keys_twoWorld]
  have hsecure : (t.importSnapshot twoWorld.now 77 data).Holds secureKey := by
    unfold DnsCache.Holds
    decide +kernel
  have halias : (t.importSnapshot twoWorld.now 77 data).Holds aliasKey := by
    unfold DnsCache.Holds
    decide +kernel
  have hsame : (t.importSnapshot twoWorld.now 77 data).index secureKey =
      (t.importSnapshot twoWorld.now 77 data).index aliasKey := by
    rw [index_import, index_import]
    rfl
  have horder := h.order secureKey aliasKey hrecent hsame hsecure halias
  unfold DnsCache.MoreRecent at horder
  revert horder
  decide +kernel

/-- Where the importing cache tells the two questions apart nothing is out of order. -/
theorem keepsRecency_apart :
    let t := DnsCache.new 8 (fun k => k.dnssecOk.toNat) 100 0 0 10
    let data := twoWorld.cache.exportSnapshot twoWorld.now 77
    KeepsRecency twoWorld.cache (t.importSnapshot twoWorld.now 77 data)
      (t.installedKeys twoWorld.now 77 data) := by
  intro t data
  refine (keepsRecency_iff_pushedOut twoWorld.cache t twoWorld.now twoWorld.now 77 77
    (fun _ => rfl)).1.mpr ?_
  intro k k' hrecent hsame _ _
  unfold DnsCache.MoreRecent at hrecent
  rw [keys_twoWorld] at hrecent
  have hpair : [k, k'] = [secureKey, aliasKey] := hrecent.eq_of_length rfl
  cases hpair
  exact absurd hsame (by decide)

end Bulwark.Engine
