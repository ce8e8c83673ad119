import Bulwark.Engine.CacheRuns
import Bulwark.Engine.Snapshot

/-!
# Restoring a snapshot

What an export at some instant and an import at the same instant restore: every entry
that is still served, or nothing from the first rejected record on.
-/

namespace Bulwark.Engine

open Bulwark.Foundation Bulwark.Dns

/-! ## Entries stand in the shard of their key -/

def DnsCache.Sharded (c : DnsCache) : Prop :=
  ∀ i key entry, (c.shards i).peek key = some entry → c.index key = i

section

variable {c : DnsCache}

theorem DnsCache.Sharded.setShard (h : c.Sharded) {key : QueryKey} {m : Lru QueryKey Entry}
    (hm : ∀ k e, m.peek k = some e → (c.shard key).peek k = some e ∨ k = key) :
    (c.setShard key m).Sharded := by
  intro i k e hpeek
  change (Function.update c.shards (c.index key) m i).peek k = some e at hpeek
  change c.index k = i
  rw [Function.update_apply] at hpeek
  split at hpeek
  · rename_i hi
    rw [hi]
    rcases hm k e hpeek with hold | rfl
    · exact h _ k e hold
    · rfl
  · exact h i k e hpeek

private theorem peek_put_cases {l : Lru QueryKey Entry} {key k : QueryKey} {v e : Entry}
    (h : (l.put key v).peek k = some e) : l.peek k = some e ∨ k = key := by
  by_cases hk : k = key
  · exact .inr hk
  · exact .inl (Lru.peek_of_put hk h)

theorem DnsCache.Sharded.get (h : c.Sharded) (now : Nat) (key : QueryKey) (id : UInt16) :
    (c.get now key id).2.Sharded := by
  cases henabled : c.cfg.enabled with
  | false =>
      rw [get_of_disabled henabled]
      exact h
  | true =>
      rcases get_cases henabled now key id with
        ⟨-, heq⟩ | ⟨entry, -, ⟨-, heq⟩ | ⟨-, -, heq⟩ | ⟨-, -, heq⟩⟩
      · rw [heq]
        exact h
      · rw [heq]
        exact h.setShard fun k e he => .inl (Lru.peek_of_get he)
      · rw [heq]
        exact h.setShard fun k e he => .inl (Lru.peek_of_get he)
      · rw [heq]
        exact h.setShard fun k e he => .inl (Lru.peek_of_get (Lru.peek_of_pop he))

theorem DnsCache.Sharded.insertInner (h : c.Sharded) (env : CacheEnv) (now : Nat)
    (key : QueryKey) (msg : Message) (verdict : Option ResponseVerdict) :
    (c.insertInner env now key msg verdict).2.Sharded := by
  rw [insertInner_eq]
  split
  · exact h.setShard fun k e he => peek_put_cases he
  · exact h

theorem DnsCache.Sharded.clear (c : DnsCache) : c.clear.Sharded := by
  intro i k e he
  cases he

theorem DnsCache.Sharded.reconfigure (h : c.Sharded) (enabled : Bool) (capacity : Nat)
    (minTtl maxTtl stale : UInt32) :
    (c.reconfigure enabled capacity minTtl maxTtl stale).Sharded := by
  rw [DnsCache.reconfigure]
  dsimp only
  split
  · intro i k e he
    dsimp only at he
    split at he
    · exact h i k e (Lru.peek_of_resize he)
    · exact h i k e he
  · exact .clear _

end

theorem get_frame (c : DnsCache) (now : Nat) (key : QueryKey) (id : UInt16) :
    (c.get now key id).2.cfg = c.cfg ∧ (c.get now key id).2.shardCount = c.shardCount := by
  rw [DnsCache.get]
  split_ifs
  · exact ⟨rfl, rfl⟩
  · split
    · exact ⟨rfl, rfl⟩
    · dsimp only
      split_ifs <;> exact ⟨rfl, rfl⟩

theorem insertInner_frame (env : CacheEnv) (c : DnsCache) (now : Nat) (key : QueryKey)
    (msg : Message) (verdict : Option ResponseVerdict) :
    (c.insertInner env now key msg verdict).2.cfg = c.cfg ∧
      (c.insertInner env now key msg verdict).2.shardCount = c.shardCount := by
  rw [insertInner_eq]
  split <;> exact ⟨rfl, rfl⟩

/-- What every reachable cache keeps. -/
structure DnsCache.Sound (c : DnsCache) : Prop where
  shards_pos : 0 < c.shardCount
  sharded : c.Sharded
  /-- A cache that is turned off has been emptied. -/
  emptyOff : c.cfg.enabled = false → ∀ key, c.peek key = none

theorem DnsCache.sound_new {shardCount : Nat} (h : 0 < shardCount) (hash : QueryKey → Nat)
    (capacity : Nat) (minTtl maxTtl stale : UInt32) :
    (DnsCache.new shardCount hash capacity minTtl maxTtl stale).Sound := by
  refine ⟨h, fun i key entry he => ?_, fun _ key => Lru.peek_empty key⟩
  cases he

theorem cacheStep_sound {env : CacheEnv} {w : CacheWorld} (h : w.cache.Sound)
    (a : CacheAction) : (cacheStep env w a).cache.Sound := by
  cases a with
  | tick nanos => exact h
  | insert key msg verdict =>
      obtain ⟨hcfg, hcount⟩ := insertInner_frame env w.cache w.now key msg verdict
      refine ⟨hcount ▸ h.shards_pos, h.sharded.insertInner env _ key msg verdict, fun hoff k => ?_⟩
      have henabled : w.cache.cfg.enabled = false := hcfg ▸ hoff
      rw [cacheStep, insertInner_eq, DnsCache.insertTtl, henabled]
      exact h.emptyOff henabled k
  | get key id =>
      obtain ⟨hcfg, hcount⟩ := get_frame w.cache w.now key id
      refine ⟨hcount ▸ h.shards_pos, h.sharded.get _ key id, fun hoff k => ?_⟩
      have henabled : w.cache.cfg.enabled = false := hcfg ▸ hoff
      rw [cacheStep, get_of_disabled henabled]
      exact h.emptyOff henabled k
  | clear => exact ⟨h.shards_pos, .clear _, fun _ k => peek_clear _ k⟩
  | reconfigure enabled capacity minTtl maxTtl stale =>
      refine ⟨?_, h.sharded.reconfigure enabled capacity minTtl maxTtl stale, fun hoff k => ?_⟩
      · rw [cacheStep, DnsCache.reconfigure]
        dsimp only
        split <;> exact h.shards_pos
      · rw [cacheStep, DnsCache.reconfigure] at hoff ⊢
        dsimp only at hoff ⊢
        split at hoff
        · rename_i hon
          exact absurd hoff (by simp [hon])
        · rename_i hon
          rw [if_neg hon]
          exact peek_clear _ k
  | setStoreSummaries store => exact ⟨h.shards_pos, h.sharded, h.emptyOff⟩

theorem cacheRun_sound {env : CacheEnv} {w : CacheWorld} (h : w.cache.Sound)
    (as : List CacheAction) : (cacheRun env w as).cache.Sound := by
  induction as using List.reverseRecOn with
  | nil => exact h
  | append_singleton as a ih =>
      rw [cacheRun_snoc]
      exact cacheStep_sound ih a

/-! ## What is exported -/

theorem mem_exported {c : DnsCache} (h : c.Sound) {now : Nat} {key : QueryKey} {entry : Entry} :
    (key, entry) ∈ c.exported now ↔
      c.peek key = some entry ∧ isExported c.cfg.staleMaxAge now entry = true := by
  rw [DnsCache.exported, List.mem_filter]
  refine and_congr_left fun _ => ?_
  rw [List.mem_flatMap]
  constructor
  · rintro ⟨i, -, hmem⟩
    have hpeek := Lru.peek_eq_some.mpr hmem
    obtain rfl := h.sharded i key entry hpeek
    exact hpeek
  · intro hpeek
    have hindex : c.index key ≤ c.shardCount - 1 := Nat.and_le_right
    have hpos := h.shards_pos
    exact ⟨c.index key, List.mem_range.mpr (by omega), Lru.peek_eq_some.mp hpeek⟩

def DnsCache.allKeys (c : DnsCache) : List QueryKey :=
  (List.range c.shardCount).flatMap fun i => (c.shards i).keys

theorem nodup_allKeys {c : DnsCache} (h : c.Sharded) : c.allKeys.Nodup := by
  unfold DnsCache.allKeys
  rw [List.nodup_flatMap]
  refine ⟨fun i _ => (c.shards i).nodup, ?_⟩
  apply List.nodup_range.imp_of_mem
  intro i j hi hj hne key hki hkj
  obtain ⟨⟨key, e⟩, he, rfl⟩ := List.mem_map.mp hki
  obtain ⟨⟨key', e'⟩, he', hkey⟩ := List.mem_map.mp hkj
  dsimp only at hkey
  subst hkey
  exact hne ((h i _ e (Lru.peek_eq_some.mpr he)).symm.trans
    (h j _ e' (Lru.peek_eq_some.mpr he')))

theorem exported_sublist (c : DnsCache) (now : Nat) :
    ((c.exported now).map Prod.fst).Sublist c.allKeys := by
  have hall : c.allKeys =
      ((List.range c.shardCount).flatMap fun i => (c.shards i).entries).map Prod.fst := by
    rw [List.map_flatMap]
    rfl
  rw [hall]
  exact List.filter_sublist.map _

theorem nodup_exported {c : DnsCache} (h : c.Sharded) (now : Nat) :
    ((c.exported now).map Prod.fst).Nodup :=
  (nodup_allKeys h).sublist (exported_sublist c now)

/-! ## Installing entries -/

def DnsCache.install (c : DnsCache) (e : QueryKey × Entry) : DnsCache :=
  c.setShard e.1 ((c.shard e.1).put e.1 e.2)

def DnsCache.HasRoom (c : DnsCache) (es : List (QueryKey × Entry)) : Prop :=
  ∀ i, (c.shards i).entries.length + es.countP (fun e => c.index e.1 = i) ≤ (c.shards i).cap

theorem DnsCache.HasRoom.install {c : DnsCache} {e : QueryKey × Entry}
    {es : List (QueryKey × Entry)} (h : c.HasRoom (e :: es)) : (c.install e).HasRoom es := by
  intro i
  have hi := h i
  rw [List.countP_cons] at hi
  change (Function.update c.shards (c.index e.1) _ i).entries.length +
    es.countP (fun e => c.index e.1 = i) ≤ (Function.update c.shards (c.index e.1) _ i).cap
  rw [Function.update_apply]
  split
  · rename_i heq
    have hput := Lru.length_put_le (c.shard e.1) e.1 e.2
    subst heq
    simp only [decide_true, if_true] at hi
    change _ ≤ (c.shards (c.index e.1)).cap
    change _ ≤ (c.shards (c.index e.1)).entries.length + 1 at hput
    omega
  · omega

theorem peek_install {c : DnsCache} {e : QueryKey × Entry} {es : List (QueryKey × Entry)}
    (h : c.HasRoom (e :: es)) (k : QueryKey) :
    (c.install e).peek k = if k = e.1 then some e.2 else c.peek k := by
  have hroom := h (c.index e.1)
  rw [List.countP_cons] at hroom
  simp only [decide_true, if_true] at hroom
  rw [DnsCache.install, peek_setShard]
  by_cases hk : k = e.1
  · rw [if_pos hk, hk, if_pos rfl, Lru.peek_put_self]
  · rw [if_neg hk]
    split
    · rename_i hindex
      have hlt : (c.shard e.1).entries.length < (c.shard e.1).cap := by
        rw [DnsCache.shard]
        omega
      rw [Lru.peek_put_of_room hlt hk, DnsCache.peek, DnsCache.shard, DnsCache.shard, hindex]
    · rfl

theorem peek_installAll {c : DnsCache} {es : List (QueryKey × Entry)} (hroom : c.HasRoom es)
    (hnodup : (es.map Prod.fst).Nodup) (k : QueryKey) (entry : Entry) :
    (es.foldl DnsCache.install c).peek k = some entry ↔
      (k, entry) ∈ es ∨ (k ∉ es.map Prod.fst ∧ c.peek k = some entry) := by
  induction es generalizing c with
  | nil => simp
  | cons e es ih =>
      obtain ⟨hfresh, hnodup⟩ := List.nodup_cons.mp hnodup
      rw [List.foldl_cons, ih hroom.install hnodup, peek_install hroom]
      obtain ⟨key, v⟩ := e
      by_cases hk : k = key
      · subst hk
        have hnot : (k, entry) ∉ es := fun hmem => hfresh (List.mem_map.mpr ⟨_, hmem, rfl⟩)
        simp only [hnot, false_or, hfresh, not_false_eq_true, true_and, if_true,
          Option.some.injEq, List.mem_cons, Prod.mk.injEq, or_false, List.map_cons,
          not_true_eq_false, false_and]
        exact eq_comm
      · simp only [hk, if_false, List.mem_cons, Prod.mk.injEq, false_and, false_or,
          List.map_cons]

/-! ## From the bytes -/

def restoredEntry (now : Nat) (entry : Entry) : Entry :=
  ⟨entry.stored, now - (entry.ageSecs now).toNat * nanosPerSec, entry.ttl, none⟩

@[simp] theorem restoredEntry_stored (now : Nat) (entry : Entry) :
    (restoredEntry now entry).stored = entry.stored := by
  rw [restoredEntry]

@[simp] theorem restoredEntry_ttl (now : Nat) (entry : Entry) :
    (restoredEntry now entry).ttl = entry.ttl := by
  rw [restoredEntry]

def EntryWritable (key : QueryKey) (entry : Entry) : Prop :=
  ∃ bytes offsets rcode answers, entry.stored = .wire bytes offsets rcode answers ∧
    Writable key answers bytes offsets

def entryAccepted (key : QueryKey) (entry : Entry) : Bool :=
  match entry.stored with
  | .wire bytes offsets _ answers => decide (WithinLimits key answers bytes offsets)
  | .message _ => false

theorem ageSecs_le (entry : Entry) (now : Nat) :
    (entry.ageSecs now).toNat * nanosPerSec ≤ now - entry.storedAt := by
  rw [toNat_ageSecs, cappedSecs, elapsedSecs]
  exact le_trans (Nat.mul_le_mul_right _ (Nat.min_le_left _ _)) (Nat.div_mul_le_self _ _)

theorem ageSecs_restoredEntry (entry : Entry) (now : Nat) :
    (restoredEntry now entry).ageSecs now = entry.ageSecs now := by
  apply UInt32.toNat_inj.mp
  have hle := ageSecs_le entry now
  have hlt := (entry.ageSecs now).toNat_lt
  have hback : now - (restoredEntry now entry).storedAt =
      (entry.ageSecs now).toNat * nanosPerSec := by
    change now - (now - (entry.ageSecs now).toNat * nanosPerSec) = _
    omega
  rw [toNat_ageSecs (restoredEntry now entry), cappedSecs, elapsedSecs, hback,
    Nat.mul_div_cancel _ (by decide)]
  omega

theorem exported_iff {stale : UInt32} {now : Nat} {entry : Entry} :
    isExported stale now entry = true ↔
      (∃ bytes offsets rcode answers, entry.stored = .wire bytes offsets rcode answers) ∧
        (entry.ageSecs now).toNat < entry.ttl.toNat + stale.toNat ∧
        (entry.ageSecs now).toNat < 2 ^ 32 - 1 := by
  rw [isExported]
  cases entry.stored with
  | message msg => simp
  | wire bytes offsets rcode answers =>
      simp only [Stored.wire.injEq, exists_and_left, exists_eq', and_true, true_and,
        Bool.not_eq_true', decide_eq_false_iff_not, UInt32.not_le, UInt32.lt_iff_toNat_lt]
      rw [u32SaturatingAdd, UInt32.toNat_ofNat', Nat.mod_eq_of_lt (by omega)]
      omega

theorem restore_exported {c : DnsCache} {now : Nat} {key : QueryKey} {entry : Entry}
    (h : isExported c.cfg.staleMaxAge now entry = true) :
    c.restore now 0 ⟨key, entry.ageSecs now, entry.ttl, entry.stored⟩ =
      c.install (key, restoredEntry now entry) := by
  obtain ⟨-, hlive, -⟩ := exported_iff.mp h
  have hle := ageSecs_le entry now
  rw [DnsCache.restore]
  dsimp only
  rw [Nat.add_zero, if_neg (by omega), if_neg (by omega)]
  rfl

def recordOf (now : Nat) (e : QueryKey × Entry) : ParsedEntry :=
  ⟨e.1, e.2.ageSecs now, e.2.ttl, e.2.stored⟩

theorem readEntry_writeEntry {e : QueryKey × Entry} (h : EntryWritable e.1 e.2) (now : Nat)
    (rest : Bytes) :
    readEntry (writeEntry now e.1 e.2 ++ rest) =
      if entryAccepted e.1 e.2 = true then some (recordOf now e, rest) else none := by
  obtain ⟨key, entry⟩ := e
  obtain ⟨bytes, offsets, rcode, answers, hstored, hfits⟩ := h
  dsimp only at hstored hfits
  have hwrite : writeEntry now key entry =
      writeRecord key (entry.ageSecs now) entry.ttl rcode answers bytes offsets := by
    rw [writeEntry, hstored]
  rw [hwrite, readEntry_writeRecord hfits, entryAccepted, recordOf, hstored]
  simp only [decide_eq_true_eq]

theorem restoreAll_write {c : DnsCache} {now : Nat} {es : List (QueryKey × Entry)}
    (hexported : ∀ e ∈ es, isExported c.cfg.staleMaxAge now e.2 = true)
    (hwritable : ∀ e ∈ es, EntryWritable e.1 e.2) :
    c.restoreAll now 0 es.length (es.flatMap fun e => writeEntry now e.1 e.2) =
      ((es.takeWhile fun e => entryAccepted e.1 e.2).map
        fun e => (e.1, restoredEntry now e.2)).foldl DnsCache.install c := by
  induction es generalizing c with
  | nil => rfl
  | cons e es ih =>
      rw [List.length_cons, List.flatMap_cons, DnsCache.restoreAll,
        readEntry_writeEntry (hwritable _ List.mem_cons_self), List.takeWhile_cons]
      by_cases haccepted : entryAccepted e.1 e.2 = true
      · rw [if_pos haccepted, if_pos haccepted]
        dsimp only [recordOf]
        rw [restore_exported (hexported _ List.mem_cons_self), ih]
        · rfl
        · exact fun e he => hexported e (List.mem_cons_of_mem _ he)
        · exact fun e he => hwritable e (List.mem_cons_of_mem _ he)
      · rw [if_neg haccepted, if_neg haccepted]
        rfl

theorem readHead_export (unix : UInt64) {n : Nat} (h : n < 2 ^ 32) (rest : Bytes) :
    readHead (snapshotMagic ++ toLe 8 unix.toNat ++ toLe 4 n ++ rest) = some (unix, n, rest) := by
  have hunix := unix.toNat_lt
  rw [List.append_assoc, List.append_assoc, readHead, takeBytes_append]
  simp only [Option.bind_eq_bind, Option.bind_some, ne_eq, not_true_eq_false, if_false]
  rw [readLe_toLe (by omega)]
  simp only [Option.bind_some]
  rw [readLe_toLe (by omega)]
  simp only [Option.bind_some, UInt64.ofNat_toNat]

theorem importSnapshot_export {c t : DnsCache} {now : Nat} (unix : UInt64)
    (hcfg : t.cfg = c.cfg) (hcount : (c.exported now).length < 2 ^ 32)
    (hwritable : ∀ e ∈ c.exported now, EntryWritable e.1 e.2) :
    t.importSnapshot now unix (c.exportSnapshot now unix) =
      (((c.exported now).takeWhile fun e => entryAccepted e.1 e.2).map
        fun e => (e.1, restoredEntry now e.2)).foldl DnsCache.install t := by
  rw [DnsCache.importSnapshot, DnsCache.exportSnapshot, readHead_export unix hcount]
  dsimp only
  rw [Nat.sub_self]
  apply restoreAll_write _ hwritable
  intro e he
  rw [hcfg]
  exact (List.mem_filter.mp he).2

/-! ## What is still served -/

/-- An encoded entry that a lookup would answer with. -/
def Servable (c : DnsCache) (now : Nat) (key : QueryKey) (entry : Entry) : Prop :=
  c.peek key = some entry ∧
    (∃ bytes offsets rcode answers, entry.stored = .wire bytes offsets rcode answers) ∧
    ∃ id hit, (c.get now key id).1 = some hit

theorem get_isSome_iff {c : DnsCache} (henabled : c.cfg.enabled = true) {now : Nat}
    {key : QueryKey} {entry : Entry} (hpeek : c.peek key = some entry) (id : UInt16) :
    (∃ hit, (c.get now key id).1 = some hit) ↔
      (entry.ageSecs now).toNat < entry.ttl.toNat + c.cfg.staleMaxAge.toNat := by
  have hserved := @get_servedAs c henabled now key entry hpeek id
  rw [← toNat_ageSecs, servedAs] at hserved
  split_ifs at hserved with hfresh hstale
  · exact ⟨fun _ => by omega, fun _ => ⟨_, hserved.1⟩⟩
  · exact ⟨fun _ => hstale, fun _ => ⟨_, hserved.1⟩⟩
  · constructor
    · rintro ⟨hit, hhit⟩
      rw [hserved.1] at hhit
      cases hhit
    · exact fun hlt => absurd hlt hstale

theorem servable_iff {c : DnsCache} (h : c.Sound) {now : Nat} {key : QueryKey} {entry : Entry} :
    Servable c now key entry ↔ c.peek key = some entry ∧
      (∃ bytes offsets rcode answers, entry.stored = .wire bytes offsets rcode answers) ∧
      (entry.ageSecs now).toNat < entry.ttl.toNat + c.cfg.staleMaxAge.toNat := by
  refine and_congr_right fun hpeek => and_congr_right fun _ => ?_
  have henabled : c.cfg.enabled = true := by
    by_contra hoff
    rw [h.emptyOff (by simpa using hoff) key] at hpeek
    cases hpeek
  constructor
  · rintro ⟨id, hhit⟩
    exact (get_isSome_iff henabled hpeek id).mp hhit
  · exact fun hlt => ⟨0, (get_isSome_iff henabled hpeek 0).mpr hlt⟩

/-- What is saved is what is served, but for ages that 32 bits do not count. -/
theorem mem_exported_iff_servable {c : DnsCache} (h : c.Sound) {now : Nat} {key : QueryKey}
    {entry : Entry} :
    (key, entry) ∈ c.exported now ↔
      Servable c now key entry ∧ (entry.ageSecs now).toNat < 2 ^ 32 - 1 := by
  rw [mem_exported h, servable_iff h, exported_iff]
  tauto

def TextsFit (key : QueryKey) (entry : Entry) : Prop :=
  (utf8Bytes key.name).length < 2 ^ 16 ∧
    ∀ bytes offsets rcode answers, entry.stored = .wire bytes offsets rcode answers →
      ∀ t ∈ answers, (utf8Bytes t).length < 2 ^ 16

/-- What an entry must be for the reader to take it back. -/
def Restorable (now : Nat) (key : QueryKey) (entry : Entry) : Prop :=
  (∀ bytes offsets rcode answers, entry.stored = .wire bytes offsets rcode answers →
    answers.length ≤ maxSnapshotAnswers ∧ offsets.length ≤ maxSnapshotTtlOffsets ∧
      wireMatchesKey bytes key = true) ∧
  (entry.ageSecs now).toNat < 2 ^ 32 - 1

theorem length_answers_le {layout : Layout} {msg : Message} (h : messageOf layout = some msg) :
    msg.answers.length ≤ layout.header.answers.toNat := by
  simp only [messageOf] at h
  split at h
  · cases h
  split at h
  · cases h
    simp
  · split at h
    · cases h
      simp
    · cases h
  · cases h

theorem store_sizes {env : CacheEnv} {cfg : CacheConfig} {msg : Message} {bytes : Bytes}
    {offsets : List UInt32} {rcode : UInt16} {answers : List Text}
    (h : env.store cfg msg = .wire bytes offsets rcode answers) :
    bytes.length ≤ 65535 ∧ (∀ o ∈ offsets, o.toNat + 4 ≤ bytes.length) ∧
      answers.length < 2 ^ 16 ∧ offsets.length < 2 ^ 32 := by
  rw [CacheEnv.store] at h
  cases hencode : env.codec.encode msg with
  | none =>
      rw [hencode] at h
      cases h
  | some encoded =>
      obtain ⟨layout, hplaced, hmessage, hscan⟩ := placed_of_encode env.codec hencode
      rw [hencode] at h
      dsimp only at h
      rw [hscan] at h
      cases h
      have hanswers : msg.answers.length < 2 ^ 16 :=
        lt_of_le_of_lt (length_answers_le hmessage) layout.header.answers.toNat_lt
      refine ⟨env.codec.length_le msg _ hencode, fun o ho => (hplaced.offset_bounds ho).2, ?_, ?_⟩
      · split
        · rwa [List.length_map]
        · simp
      · have hslots := hplaced.slotCount
        have hcount : (ttlOffsets layout.slots).length ≤ layout.slots.length := by
          rw [ttlOffsets, List.length_map]
          exact List.length_filter_le _ _
        have h1 := layout.header.answers.toNat_lt
        have h2 := layout.header.authorities.toNat_lt
        have h3 := layout.header.additionals.toNat_lt
        rw [Header.records] at hslots
        omega

theorem servable_store {env : CacheEnv} {w : CacheWorld} (hempty : ∀ k, w.cache.peek k = none)
    (as : List CacheAction) {key : QueryKey} {entry : Entry}
    (h : (cacheRun env w as).cache.peek key = some entry) :
    ∃ cfg msg, entry.stored = env.store cfg msg := by
  obtain ⟨ins, -, ⟨cfg, hstored⟩, -⟩ := storedBy_latest hempty as h
  exact ⟨cfg, ins.message, hstored⟩

/-- The target holds what the cache serves from its encoded entries, and nothing else. -/
structure Restores (c t : DnsCache) (now : Nat) : Prop where
  complete : ∀ key entry, Servable c now key entry → ∃ entry', t.peek key = some entry' ∧
    entry'.stored = entry.stored ∧ entry'.ttl = entry.ttl ∧
    entry'.ageSecs now = entry.ageSecs now
  nothingElse : ∀ key entry', t.peek key = some entry' → ∃ entry, Servable c now key entry

/-- What an insert stores encoded is not too long for the reader. -/
def SizesFit (c : DnsCache) : Prop :=
  ∀ key entry bytes offsets rcode answers, c.peek key = some entry →
    entry.stored = .wire bytes offsets rcode answers →
    bytes.length ≤ 65535 ∧ (∀ o ∈ offsets, o.toNat + 4 ≤ bytes.length) ∧
      answers.length < 2 ^ 16 ∧ offsets.length < 2 ^ 32

theorem entryWritable_of_exported {c : DnsCache} {now : Nat} (hsound : c.Sound)
    (hsizes : SizesFit c)
    (hfit : ∀ key entry, Servable c now key entry → TextsFit key entry) :
    ∀ e ∈ c.exported now, EntryWritable e.1 e.2 := by
  rintro ⟨key, entry⟩ he
  obtain ⟨hserved, -⟩ := (mem_exported_iff_servable hsound).mp he
  obtain ⟨hname, htexts⟩ := hfit key entry hserved
  obtain ⟨hpeek, ⟨bytes, offsets, rcode, answers, hstored⟩, -⟩ := hserved
  obtain ⟨hbytes, -, hanswers, hoffsets⟩ := hsizes _ _ _ _ _ _ hpeek hstored
  exact ⟨bytes, offsets, rcode, answers, hstored, hname, hanswers, htexts _ _ _ _ hstored,
    by omega, hoffsets⟩

theorem entryAccepted_iff {c : DnsCache} {now : Nat} (hsizes : SizesFit c) {key : QueryKey}
    {entry : Entry} (hserved : Servable c now key entry)
    (hage : (entry.ageSecs now).toNat < 2 ^ 32 - 1) :
    entryAccepted key entry = true ↔ Restorable now key entry := by
  obtain ⟨hpeek, ⟨bytes, offsets, rcode, answers, hstored⟩, -⟩ := hserved
  obtain ⟨hbytes, hinside, -, -⟩ := hsizes _ _ _ _ _ _ hpeek hstored
  rw [entryAccepted, hstored, decide_eq_true_eq]
  constructor
  · intro hlimits
    refine ⟨fun bytes' offsets' rcode' answers' hstored' => ?_, hage⟩
    rw [hstored] at hstored'
    cases hstored'
    exact ⟨hlimits.answerCount, hlimits.offsetCount, hlimits.matchesKey⟩
  · rintro ⟨hlimits, -⟩
    obtain ⟨hanswers, hoffsets, hkey⟩ := hlimits _ _ _ _ hstored
    have hlen : bytes.length ≤ maxSnapshotWireLen := by
      rw [maxSnapshotWireLen]
      omega
    exact ⟨hanswers, hlen, hkey, hoffsets, hinside⟩

theorem peek_import {c t : DnsCache} {now : Nat} (hsharded : c.Sharded) (unix : UInt64)
    (hempty : ∀ i, (t.shards i).entries = []) (hcfg : t.cfg = c.cfg)
    (hroom : t.HasRoom (c.exported now)) (hcount : (c.exported now).length < 2 ^ 32)
    (hwritable : ∀ e ∈ c.exported now, EntryWritable e.1 e.2) (key : QueryKey) (entry' : Entry) :
    (t.importSnapshot now unix (c.exportSnapshot now unix)).peek key = some entry' ↔
      ∃ entry, (key, entry) ∈ (c.exported now).takeWhile (fun e => entryAccepted e.1 e.2) ∧
        entry' = restoredEntry now entry := by
  have hkeptFirst : ((c.exported now).takeWhile fun e => entryAccepted e.1 e.2).Sublist
      (c.exported now) := (List.takeWhile_prefix _).sublist
  rw [importSnapshot_export unix hcfg hcount hwritable]
  generalize (c.exported now).takeWhile (fun e => entryAccepted e.1 e.2) = kept at hkeptFirst ⊢
  have hnodup : ((kept.map fun e => (e.1, restoredEntry now e.2)).map Prod.fst).Nodup := by
    rw [List.map_map]
    exact (nodup_exported hsharded now).sublist (hkeptFirst.map _)
  have hroom' : t.HasRoom (kept.map fun e => (e.1, restoredEntry now e.2)) := by
    intro i
    have hle : kept.countP (fun e => t.index e.1 = i) ≤
        (c.exported now).countP (fun e => t.index e.1 = i) := hkeptFirst.countP_le
    rw [List.countP_map]
    exact le_trans (Nat.add_le_add_left hle _) (hroom i)
  have hnone : t.peek key = none := by
    rw [DnsCache.peek, DnsCache.shard, Lru.peek, hempty]
    rfl
  rw [peek_installAll hroom' hnodup, hnone]
  constructor
  · rintro (hmem | ⟨-, hnever⟩)
    · obtain ⟨⟨key', entry⟩, he, heq⟩ := List.mem_map.mp hmem
      cases heq
      exact ⟨entry, he, rfl⟩
    · cases hnever
  · rintro ⟨entry, he, rfl⟩
    exact .inl (List.mem_map.mpr ⟨_, he, rfl⟩)

theorem restores_of_sound {c t : DnsCache} {now : Nat} (hsound : c.Sound) (hsizes : SizesFit c)
    (unix : UInt64) (hempty : ∀ i, (t.shards i).entries = []) (hcfg : t.cfg = c.cfg)
    (hroom : t.HasRoom (c.exported now)) (hcount : (c.exported now).length < 2 ^ 32)
    (hfit : ∀ key entry, Servable c now key entry → TextsFit key entry) :
    Restores c (t.importSnapshot now unix (c.exportSnapshot now unix)) now ↔
      ∀ key entry, Servable c now key entry → Restorable now key entry := by
  have hpeek := peek_import hsound.sharded unix hempty hcfg hroom hcount
    (entryWritable_of_exported hsound hsizes hfit)
  constructor
  · intro hrestores key entry hserved
    obtain ⟨entry', hentry', -⟩ := hrestores.complete key entry hserved
    obtain ⟨e, he, -⟩ := (hpeek key entry').mp hentry'
    have haccepted := List.mem_takeWhile_imp he
    obtain ⟨hserved', hage⟩ :=
      (mem_exported_iff_servable hsound).mp ((List.takeWhile_prefix _).subset he)
    obtain rfl : e = entry := Option.some.inj (hserved'.1.symm.trans hserved.1)
    exact (entryAccepted_iff hsizes hserved hage).mp haccepted
  · intro hrestorable
    have hall : (c.exported now).takeWhile (fun e => entryAccepted e.1 e.2) = c.exported now := by
      rw [List.takeWhile_eq_self_iff]
      rintro ⟨key, entry⟩ he
      obtain ⟨hserved, hage⟩ := (mem_exported_iff_servable hsound).mp he
      exact (entryAccepted_iff hsizes hserved hage).mpr (hrestorable key entry hserved)
    rw [hall] at hpeek
    constructor
    · intro key entry hserved
      obtain ⟨-, hage⟩ := hrestorable key entry hserved
      have hmem := (mem_exported_iff_servable hsound).mpr ⟨hserved, hage⟩
      have hthere := (hpeek key (restoredEntry now entry)).mpr ⟨entry, hmem, rfl⟩
      exact ⟨_, hthere, restoredEntry_stored now entry, restoredEntry_ttl now entry,
        ageSecs_restoredEntry entry now⟩
    · intro key entry' hentry'
      obtain ⟨entry, he, -⟩ := (hpeek key entry').mp hentry'
      exact ⟨entry, ((mem_exported_iff_servable hsound).mp he).1⟩

theorem sizesFit_run (env : CacheEnv) {w : CacheWorld} (hempty : ∀ k, w.cache.peek k = none)
    (as : List CacheAction) : SizesFit (cacheRun env w as).cache := by
  intro key entry bytes offsets rcode answers hpeek hstored
  obtain ⟨cfg, msg, heq⟩ := servable_store hempty as hpeek
  exact store_sizes (heq.symm.trans hstored)

/--
A snapshot that is taken and read at one instant restores what is still served exactly
where every such entry is one the reader takes back.  Texts are supposed to fit into the
fields they are written to, and the entries to be fewer than their counter can say.
-/
theorem restores_iff_restorable (env : CacheEnv) {shardCount : Nat} (hshards : 0 < shardCount)
    (hash : QueryKey → Nat) (capacity : Nat) (minTtl maxTtl stale : UInt32) (start : Nat)
    (as : List CacheAction) (unix : UInt64) (t : DnsCache) :
    let w := cacheRun env ⟨.new shardCount hash capacity minTtl maxTtl stale, start⟩ as
    (∀ i, (t.shards i).entries = []) → t.cfg = w.cache.cfg →
    t.HasRoom (w.cache.exported w.now) → (w.cache.exported w.now).length < 2 ^ 32 →
    (∀ key entry, Servable w.cache w.now key entry → TextsFit key entry) →
    (Restores w.cache (t.importSnapshot w.now unix (w.cache.exportSnapshot w.now unix)) w.now ↔
      ∀ key entry, Servable w.cache w.now key entry → Restorable w.now key entry) := by
  intro w hempty hcfg hroom hcount hfit
  have hsound : w.cache.Sound :=
    cacheRun_sound (DnsCache.sound_new hshards hash capacity minTtl maxTtl stale) as
  have hnew : ∀ k, (DnsCache.new shardCount hash capacity minTtl maxTtl stale).peek k = none :=
    fun k => Lru.peek_empty k
  exact restores_of_sound hsound (sizesFit_run env hnew as) unix hempty hcfg hroom hcount hfit

def aliasWorld : CacheWorld :=
  cacheRun aliasEnv ⟨.new 8 (fun _ => 3) 100 0 0 10, 0⟩ (askedAfter 5)

theorem restores_aliasWorld :
    Restores aliasWorld.cache
      ((DnsCache.new 4 (fun _ => 1) 100 0 0 10).importSnapshot aliasWorld.now 77
        (aliasWorld.cache.exportSnapshot aliasWorld.now 77)) aliasWorld.now := by
  have hexported : aliasWorld.cache.exported aliasWorld.now =
      [(aliasKey, ⟨.wire aliasResponse [30, 46] 0 [[], []], 0, 60, none⟩)] := by decide +kernel
  have hcache : aliasWorld.cache = (DnsCache.new 8 (fun _ => 3) 100 0 0 10).install
      (aliasKey, ⟨.wire aliasResponse [30, 46] 0 [[], []], 0, 60, none⟩) := by
    have httl : (DnsCache.new 8 (fun _ => 3) 100 0 0 10).insertTtl aliasMessage = some 60 := by
      decide +kernel
    have hstore : aliasEnv.store (DnsCache.new 8 (fun _ => 3) 100 0 0 10).cfg aliasMessage =
        .wire aliasResponse [30, 46] 0 [[], []] := by decide +kernel
    change ((DnsCache.new 8 (fun _ => 3) 100 0 0 10).insertInner aliasEnv 0 aliasKey aliasMessage
      none).2 = _
    rw [insertInner_eq, httl, hstore]
    rfl
  have honly : ∀ key entry, Servable aliasWorld.cache aliasWorld.now key entry →
      key = aliasKey ∧ entry = ⟨.wire aliasResponse [30, 46] 0 [[], []], 0, 60, none⟩ := by
    rintro key entry ⟨hpeek, -⟩
    have hroom : (DnsCache.new 8 (fun _ => 3) 100 0 0 10).HasRoom
        [(aliasKey, ⟨.wire aliasResponse [30, 46] 0 [[], []], 0, 60, none⟩)] := by
      intro i
      exact le_trans (Nat.add_le_add_left List.countP_le_length 0) (by decide : 0 + 1 ≤ 12)
    rw [hcache, peek_install hroom] at hpeek
    split at hpeek
    · rename_i hkey
      exact ⟨hkey, (Option.some.inj hpeek).symm⟩
    · cases hpeek
  refine (restores_iff_restorable aliasEnv (by decide) (fun _ => 3) 100 0 0 10 0 (askedAfter 5) 77
    (DnsCache.new 4 (fun _ => 1) 100 0 0 10) (fun i => rfl) rfl ?_ ?_ ?_).mpr ?_
  · intro i
    change 0 + (aliasWorld.cache.exported aliasWorld.now).countP _ ≤ 25
    exact le_trans (Nat.add_le_add_left List.countP_le_length 0) (by rw [hexported]; decide)
  · change (aliasWorld.cache.exported aliasWorld.now).length < 2 ^ 32
    rw [hexported]
    decide
  · intro key entry hserved
    obtain ⟨rfl, rfl⟩ := honly key entry hserved
    refine ⟨by decide, fun bytes offsets rcode answers hstored => ?_⟩
    cases hstored
    decide
  · intro key entry hserved
    obtain ⟨rfl, rfl⟩ := honly key entry hserved
    refine ⟨fun bytes offsets rcode answers hstored => ?_, by decide +kernel⟩
    cases hstored
    decide +kernel

/-- A response that does not repeat the question, which the transports accept. -/
def bareResponse : Bytes :=
  [0xAB, 0xCD, 0x81, 0x80, 0, 0, 0, 1, 0, 0, 0, 0, 0, 0, 1, 0, 1, 0, 0, 0, 60, 0, 4, 1, 2, 3, 4]

def bareMessage : Message where
  metadata := ⟨0xABCD, true, 0, false, false, true, true, false, false, 0⟩
  queries := []
  answers := [⟨[], typeA, 1, 60, [.raw [1, 2, 3, 4]]⟩]
  authorities := []
  additionals := []
  edns := none

def bareEnv : CacheEnv :=
  ⟨.single bareMessage bareResponse (by decide +kernel) (by decide +kernel) (by decide),
    fun _ => []⟩

def rootKey : QueryKey := ⟨['.'], typeA, 1, false, false⟩

def bareWorld : CacheWorld :=
  cacheRun bareEnv ⟨.new 8 (fun _ => 3) 100 0 0 10, 0⟩ [.insert rootKey bareMessage none]

theorem bareResponse_not_restored :
    ¬ Restores bareWorld.cache
      ((DnsCache.new 8 (fun _ => 3) 100 0 0 10).importSnapshot bareWorld.now 77
        (bareWorld.cache.exportSnapshot bareWorld.now 77)) bareWorld.now := by
  intro h
  have hpeek : bareWorld.cache.peek rootKey =
      some ⟨.wire bareResponse [17] 0 [[]], 0, 60, none⟩ := by decide +kernel
  have hhit : ((bareWorld.cache.get bareWorld.now rootKey 7).1).isSome = true := by decide +kernel
  obtain ⟨entry', hentry', -⟩ := h.complete rootKey _
    ⟨hpeek, ⟨_, _, _, _, rfl⟩, 7, Option.isSome_iff_exists.mp hhit⟩
  have hnone : ((DnsCache.new 8 (fun _ => 3) 100 0 0 10).importSnapshot bareWorld.now 77
      (bareWorld.cache.exportSnapshot bareWorld.now 77)).peek rootKey = none := by decide +kernel
  rw [hnone] at hentry'
  cases hentry'

end Bulwark.Engine
