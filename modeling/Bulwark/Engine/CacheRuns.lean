import Bulwark.Engine.Cache
import Bulwark.Engine.Patch

/-!
# Runs of the cache

What a lookup finds is the latest response that was inserted under its key, with the
lifetime it was given then, however entries are looked up, pushed out, cleared and
resized in between.
-/

namespace Bulwark.Engine

open Bulwark.Foundation Bulwark.Dns

/-! ## Entries after each operation -/

section

variable {c : DnsCache} {key k : QueryKey}

theorem peek_setShard (m : Lru QueryKey Entry) :
    (c.setShard key m).peek k = if c.index k = c.index key then m.peek k else c.peek k := by
  change (Function.update c.shards (c.index key) m (c.index k)).peek k = _
  rw [Function.update_apply]
  split <;> rfl

theorem peek_of_setShard {m : Lru QueryKey Entry} {e : Entry}
    (hm : m.peek k = some e → (c.shard key).peek k = some e)
    (h : (c.setShard key m).peek k = some e) : c.peek k = some e := by
  rw [peek_setShard] at h
  split at h
  · rename_i hindex
    have := hm h
    rw [DnsCache.peek, DnsCache.shard, hindex]
    exact this
  · exact h

theorem peek_clear (c : DnsCache) (k : QueryKey) : c.clear.peek k = none := Lru.peek_clear _ _

theorem peek_of_reconfigure {enabled : Bool} {capacity : Nat} {minTtl maxTtl stale : UInt32}
    {e : Entry} (h : (c.reconfigure enabled capacity minTtl maxTtl stale).peek k = some e) :
    c.peek k = some e := by
  rw [DnsCache.reconfigure] at h
  dsimp only at h
  split at h
  · rw [DnsCache.peek, DnsCache.shard] at h
    dsimp only at h
    split at h
    · exact Lru.peek_of_resize h
    · exact h
  · rw [peek_clear] at h
    cases h

theorem get_cases (henabled : c.cfg.enabled = true) (now : Nat) (key : QueryKey) (id : UInt16) :
    (c.peek key = none ∧ c.get now key id = (none, { c with misses := c.misses + 1 })) ∨
    ∃ entry, c.peek key = some entry ∧
      ((entry.ageSecs now < entry.ttl ∧
        c.get now key id =
          (some ⟨entry.stored.respond id (u32Max (entry.ttl - entry.ageSecs now) 1), .fresh,
              entry.verdict⟩,
            { c.setShard key ((c.shard key).get key).2 with hits := c.hits + 1 })) ∨
      (¬ entry.ageSecs now < entry.ttl ∧ entry.ageSecs now - entry.ttl < c.cfg.staleMaxAge ∧
        c.get now key id =
          (some ⟨entry.stored.respond id staleServeTtl, .stale, entry.verdict⟩,
            { c.setShard key ((c.shard key).get key).2 with
              hits := c.hits + 1, staleHits := c.staleHits + 1 })) ∨
      (¬ entry.ageSecs now < entry.ttl ∧ ¬ entry.ageSecs now - entry.ttl < c.cfg.staleMaxAge ∧
        c.get now key id =
          (none,
            { c.setShard key (((c.shard key).get key).2.pop key) with
              misses := c.misses + 1 }))) := by
  have hpeek : c.peek key = ((c.shard key).get key).1 := (Lru.get_fst _ _).symm
  rw [DnsCache.get, henabled, hpeek]
  obtain ⟨found, map⟩ := (c.shard key).get key
  cases found with
  | none => exact .inl ⟨rfl, rfl⟩
  | some entry =>
      refine .inr ⟨entry, rfl, ?_⟩
      simp only [Bool.not_true, Bool.false_eq_true, if_false]
      by_cases hfresh : entry.ageSecs now < entry.ttl
      · exact .inl ⟨hfresh, if_pos hfresh⟩
      · rw [if_neg hfresh]
        by_cases hstale : entry.ageSecs now - entry.ttl < c.cfg.staleMaxAge
        · exact .inr (.inl ⟨hfresh, hstale, if_pos hstale⟩)
        · exact .inr (.inr ⟨hfresh, hstale, if_neg hstale⟩)

theorem get_of_disabled (h : c.cfg.enabled = false) (now : Nat) (key : QueryKey) (id : UInt16) :
    c.get now key id = (none, c) := by
  rw [DnsCache.get, h]
  rfl

theorem peek_of_get {now : Nat} {id : UInt16} {e : Entry}
    (h : (c.get now key id).2.peek k = some e) : c.peek k = some e := by
  cases henabled : c.cfg.enabled with
  | false =>
      rw [get_of_disabled henabled] at h
      exact h
  | true =>
      rcases get_cases henabled now key id with
        ⟨-, heq⟩ | ⟨entry, -, ⟨-, heq⟩ | ⟨-, -, heq⟩ | ⟨-, -, heq⟩⟩
      · rw [heq] at h
        exact h
      · rw [heq] at h
        exact peek_of_setShard Lru.peek_of_get h
      · rw [heq] at h
        exact peek_of_setShard Lru.peek_of_get h
      · rw [heq] at h
        exact peek_of_setShard (fun he => Lru.peek_of_get (Lru.peek_of_pop he)) h

/-- The lifetime an insert under a configuration gives, `none` where nothing is stored. -/
def DnsCache.insertTtl (c : DnsCache) (msg : Message) : Option UInt32 :=
  if c.cfg.enabled then c.cfg.cacheableTtl msg else none

theorem insertInner_eq (env : CacheEnv) (c : DnsCache) (now : Nat) (key : QueryKey)
    (msg : Message) (verdict : Option ResponseVerdict) :
    (c.insertInner env now key msg verdict).2 =
      match c.insertTtl msg with
      | some ttl =>
          c.setShard key ((c.shard key).put key ⟨env.store c.cfg msg, now, ttl, verdict⟩)
      | none => c := by
  rw [DnsCache.insertInner, DnsCache.insertTtl]
  cases c.cfg.enabled with
  | false => rfl
  | true =>
      simp only [Bool.not_true, Bool.false_eq_true, if_false, if_true]
      cases c.cfg.cacheableTtl msg <;> rfl

theorem peek_of_insertInner {env : CacheEnv} {now : Nat} {msg : Message}
    {verdict : Option ResponseVerdict} {e : Entry}
    (h : (c.insertInner env now key msg verdict).2.peek k = some e) :
    (∃ ttl, k = key ∧ c.insertTtl msg = some ttl ∧
      e = ⟨env.store c.cfg msg, now, ttl, verdict⟩) ∨
    (c.peek k = some e ∧ (k = key → c.insertTtl msg = none)) := by
  rw [insertInner_eq] at h
  cases httl : c.insertTtl msg with
  | none =>
      rw [httl] at h
      exact .inr ⟨h, fun _ => rfl⟩
  | some ttl =>
      rw [httl] at h
      dsimp only at h
      by_cases hk : k = key
      · subst hk
        rw [peek_setShard, if_pos rfl, Lru.peek_put_self] at h
        exact .inl ⟨ttl, rfl, rfl, (Option.some.inj h).symm⟩
      · refine .inr ⟨peek_of_setShard (fun he => Lru.peek_of_put hk he) h, ?_⟩
        intro heq
        exact absurd heq hk

end

/-! ## Runs -/

structure CacheWorld where
  cache : DnsCache
  now : Nat

inductive CacheAction where
  | tick (nanos : Nat)
  | insert (key : QueryKey) (msg : Message) (verdict : Option ResponseVerdict)
  | get (key : QueryKey) (id : UInt16)
  | clear
  | reconfigure (enabled : Bool) (capacity : Nat) (minTtl maxTtl staleMaxAge : UInt32)
  | setStoreSummaries (store : Bool)

def cacheStep (env : CacheEnv) (w : CacheWorld) : CacheAction → CacheWorld
  | .tick nanos => { w with now := w.now + nanos }
  | .insert key msg verdict =>
      { w with cache := (w.cache.insertInner env w.now key msg verdict).2 }
  | .get key id => { w with cache := (w.cache.get w.now key id).2 }
  | .clear => { w with cache := w.cache.clear }
  | .reconfigure enabled capacity minTtl maxTtl staleMaxAge =>
      { w with cache := w.cache.reconfigure enabled capacity minTtl maxTtl staleMaxAge }
  | .setStoreSummaries store => { w with cache := w.cache.setStoreSummaries store }

def cacheRun (env : CacheEnv) (w : CacheWorld) (as : List CacheAction) : CacheWorld :=
  as.foldl (cacheStep env) w

structure Inserted where
  message : Message
  instant : Nat
  ttl : UInt32
  deriving DecidableEq

def insertedBy (w : CacheWorld) (a : CacheAction) (key : QueryKey) : Option Inserted :=
  match a with
  | .insert key' msg _ =>
      if key' = key then (w.cache.insertTtl msg).map fun ttl => ⟨msg, w.now, ttl⟩ else none
  | _ => none

/-- The most recent cacheable insert of a run under a key. -/
def latestInsert (env : CacheEnv) : CacheWorld → List CacheAction → QueryKey → Option Inserted
  | _, [], _ => none
  | w, a :: as, key => (latestInsert env (cacheStep env w a) as key).or (insertedBy w a key)

def lookupOf (w : CacheWorld) : CacheAction → Nat
  | .get _ _ => w.cache.cfg.enabled.toNat
  | _ => 0

def staleOf (w : CacheWorld) : CacheAction → Nat
  | .get key id =>
      match (w.cache.get w.now key id).1 with
      | some hit => (hit.freshness = .stale : Bool).toNat
      | none => 0
  | _ => 0

def lookups (env : CacheEnv) : CacheWorld → List CacheAction → Nat
  | _, [] => 0
  | w, a :: as => lookupOf w a + lookups env (cacheStep env w a) as

def staleServed (env : CacheEnv) : CacheWorld → List CacheAction → Nat
  | _, [] => 0
  | w, a :: as => staleOf w a + staleServed env (cacheStep env w a) as

theorem cacheRun_snoc (env : CacheEnv) (w : CacheWorld) (as : List CacheAction)
    (a : CacheAction) : cacheRun env w (as ++ [a]) = cacheStep env (cacheRun env w as) a := by
  rw [cacheRun, List.foldl_append]
  rfl

theorem latestInsert_snoc (env : CacheEnv) (w : CacheWorld) (as : List CacheAction)
    (a : CacheAction) (key : QueryKey) :
    latestInsert env w (as ++ [a]) key =
      (insertedBy (cacheRun env w as) a key).or (latestInsert env w as key) := by
  induction as generalizing w with
  | nil =>
      rw [List.nil_append, latestInsert, Option.or_none]
      rfl
  | cons b as ih =>
      rw [List.cons_append, latestInsert, ih, latestInsert, Option.or_assoc]
      rfl

def StoredBy (env : CacheEnv) (e : Entry) (ins : Inserted) : Prop :=
  (∃ cfg, e.stored = env.store cfg ins.message) ∧ e.storedAt = ins.instant ∧ e.ttl = ins.ttl

theorem peek_of_cacheRun {env : CacheEnv} {w : CacheWorld} (as : List CacheAction)
    {key : QueryKey} {e : Entry} (h : (cacheRun env w as).cache.peek key = some e) :
    (∃ ins, latestInsert env w as key = some ins ∧ StoredBy env e ins) ∨
      (latestInsert env w as key = none ∧ w.cache.peek key = some e) := by
  induction as using List.reverseRecOn generalizing e with
  | nil => exact .inr ⟨rfl, h⟩
  | append_singleton as a ih =>
      rw [cacheRun_snoc] at h
      rw [latestInsert_snoc]
      cases a with
      | insert key' msg verdict =>
          rcases peek_of_insertInner h with ⟨ttl, rfl, httl, rfl⟩ | ⟨hbefore, hsame⟩
          · refine .inl ⟨⟨msg, (cacheRun env w as).now, ttl⟩, ?_, ⟨_, rfl⟩, rfl, rfl⟩
            rw [insertedBy, if_pos rfl, httl]
            rfl
          · have hnone : insertedBy (cacheRun env w as) (.insert key' msg verdict) key = none := by
              rw [insertedBy]
              split
              · rename_i heq
                rw [hsame heq.symm]
                rfl
              · rfl
            rw [hnone, Option.none_or]
            exact ih hbefore
      | tick nanos => exact ih h
      | get key' id => exact ih (peek_of_get h)
      | clear =>
          rw [cacheStep, peek_clear] at h
          cases h
      | reconfigure enabled capacity minTtl maxTtl stale => exact ih (peek_of_reconfigure h)
      | setStoreSummaries store => exact ih h

theorem storedBy_latest {env : CacheEnv} {w : CacheWorld} (hempty : ∀ k, w.cache.peek k = none)
    (as : List CacheAction) {key : QueryKey} {e : Entry}
    (h : (cacheRun env w as).cache.peek key = some e) :
    ∃ ins, latestInsert env w as key = some ins ∧ StoredBy env e ins := by
  rcases peek_of_cacheRun as h with hins | ⟨-, hbefore⟩
  · exact hins
  · rw [hempty] at hbefore
    cases hbefore

/-! ## What is served -/

theorem intoMessage_respond (env : CacheEnv) (cfg : CacheConfig) (msg : Message) (id : UInt16)
    (ttl : UInt32) :
    ((env.store cfg msg).respond id ttl).intoMessage = (adjustTtls msg ttl).withId id := by
  rw [CacheEnv.store]
  cases hencode : env.codec.encode msg with
  | none => rfl
  | some bytes =>
      cases hscan : scanTtlOffsets bytes with
      | none =>
          simp only [hscan]
          rfl
      | some offsets =>
          simp only [hscan, Stored.respond, CachedResponse.intoMessage]
          rw [decode_patch env.codec hencode hscan id ttl]
          rfl

/-- Whole seconds between two instants, as far as 32 bits count. -/
def cappedSecs (start now : Nat) : Nat := min (elapsedSecs start now) (2 ^ 32 - 1)

/-- How a response of this age is served, and with which TTL. -/
def servedAs (age ttl window : Nat) : Option (HitFreshness × Nat) :=
  if age < ttl then some (.fresh, ttl - age)
  else if age < ttl + window then some (.stale, 1)
  else none

theorem toNat_ageSecs (e : Entry) (now : Nat) :
    (e.ageSecs now).toNat = cappedSecs e.storedAt now := by
  rw [Entry.ageSecs, cappedSecs, UInt32.toNat_ofNat']
  exact Nat.mod_eq_of_lt (by omega)

theorem freshTtl_eq {ttl age : UInt32} (h : age < ttl) :
    u32Max (ttl - age) 1 = UInt32.ofNat (ttl.toNat - age.toNat) := by
  have hlt : age.toNat < ttl.toNat := h
  have hsub : (ttl - age).toNat = ttl.toNat - age.toNat :=
    UInt32.toNat_sub_of_le _ _ (UInt32.le_of_lt h)
  have hbound := ttl.toNat_lt
  apply UInt32.toNat_inj.mp
  rw [UInt32.toNat_ofNat', Nat.mod_eq_of_lt (by omega), toNat_u32Max, hsub]
  exact Nat.max_eq_left (Nat.le_sub_of_add_le' hlt)

/-- What a lookup answers for an entry, and how the counters change. -/
theorem get_servedAs {c : DnsCache} (henabled : c.cfg.enabled = true) {now : Nat}
    {key : QueryKey} {entry : Entry} (hpeek : c.peek key = some entry) (id : UInt16) :
    match servedAs (cappedSecs entry.storedAt now) entry.ttl.toNat c.cfg.staleMaxAge.toNat with
    | some (freshness, ttl) =>
        (c.get now key id).1 =
            some ⟨entry.stored.respond id (.ofNat ttl), freshness, entry.verdict⟩ ∧
          (c.get now key id).2.hits = c.hits + 1 ∧ (c.get now key id).2.misses = c.misses ∧
          (c.get now key id).2.staleHits =
            c.staleHits + (freshness = .stale : Bool).toNat
    | none =>
        (c.get now key id).1 = none ∧ (c.get now key id).2.peek key = none ∧
          (c.get now key id).2.hits = c.hits ∧ (c.get now key id).2.misses = c.misses + 1 ∧
          (c.get now key id).2.staleHits = c.staleHits := by
  rw [← toNat_ageSecs]
  rcases get_cases henabled now key id with ⟨hnone, -⟩ | ⟨entry', hentry, hcases⟩
  · rw [hnone] at hpeek
    cases hpeek
  obtain rfl := Option.some.inj (hentry.symm.trans hpeek)
  rcases hcases with ⟨hfresh, heq⟩ | ⟨hold, hstale, heq⟩ | ⟨hold, hgone, heq⟩
  · have hlt : (entry'.ageSecs now).toNat < entry'.ttl.toNat := hfresh
    rw [servedAs, if_pos hlt, heq, freshTtl_eq hfresh]
    exact ⟨rfl, rfl, rfl, rfl⟩
  · have hle : entry'.ttl.toNat ≤ (entry'.ageSecs now).toNat := Nat.le_of_not_lt hold
    have hsub : (entry'.ageSecs now - entry'.ttl).toNat =
        (entry'.ageSecs now).toNat - entry'.ttl.toNat := UInt32.toNat_sub_of_le _ _ hle
    have hlt : (entry'.ageSecs now - entry'.ttl).toNat < c.cfg.staleMaxAge.toNat := hstale
    rw [servedAs, if_neg (by omega), if_pos (by omega), heq]
    exact ⟨rfl, rfl, rfl, rfl⟩
  · have hle : entry'.ttl.toNat ≤ (entry'.ageSecs now).toNat := Nat.le_of_not_lt hold
    have hsub : (entry'.ageSecs now - entry'.ttl).toNat =
        (entry'.ageSecs now).toNat - entry'.ttl.toNat := UInt32.toNat_sub_of_le _ _ hle
    have hge : c.cfg.staleMaxAge.toNat ≤ (entry'.ageSecs now - entry'.ttl).toNat :=
      Nat.le_of_not_lt hgone
    rw [servedAs, if_neg (by omega), if_neg (by omega), heq]
    refine ⟨rfl, ?_, rfl, rfl, rfl⟩
    change (c.setShard key (((c.shard key).get key).2.pop key)).peek key = none
    rw [peek_setShard, if_pos rfl, Lru.peek_pop]

/-! ## Counters -/

theorem get_counters (c : DnsCache) (now : Nat) (key : QueryKey) (id : UInt16) :
    (c.get now key id).2.hits + (c.get now key id).2.misses =
        c.hits + c.misses + c.cfg.enabled.toNat ∧
      (c.get now key id).2.staleHits = c.staleHits +
        match (c.get now key id).1 with
        | some hit => (hit.freshness = .stale : Bool).toNat
        | none => 0 := by
  cases henabled : c.cfg.enabled with
  | false =>
      rw [get_of_disabled henabled]
      exact ⟨rfl, rfl⟩
  | true =>
      rw [Bool.toNat_true]
      rcases get_cases henabled now key id with
        ⟨-, heq⟩ | ⟨entry, -, ⟨-, heq⟩ | ⟨-, -, heq⟩ | ⟨-, -, heq⟩⟩
      · rw [heq]
        exact ⟨rfl, rfl⟩
      · rw [heq]
        exact ⟨Nat.add_right_comm .., rfl⟩
      · rw [heq]
        exact ⟨Nat.add_right_comm .., rfl⟩
      · rw [heq]
        exact ⟨rfl, rfl⟩

theorem counters_of_insertInner (env : CacheEnv) (c : DnsCache) (now : Nat) (key : QueryKey)
    (msg : Message) (verdict : Option ResponseVerdict) :
    let c' := (c.insertInner env now key msg verdict).2
    c'.hits = c.hits ∧ c'.misses = c.misses ∧ c'.staleHits = c.staleHits := by
  dsimp only
  rw [insertInner_eq]
  cases c.insertTtl msg <;> exact ⟨rfl, rfl, rfl⟩

theorem counters_of_reconfigure (c : DnsCache) (enabled : Bool) (capacity : Nat)
    (minTtl maxTtl stale : UInt32) :
    let c' := c.reconfigure enabled capacity minTtl maxTtl stale
    c'.hits = c.hits ∧ c'.misses = c.misses ∧ c'.staleHits = c.staleHits := by
  cases enabled <;> exact ⟨rfl, rfl, rfl⟩

theorem counters_step (env : CacheEnv) (w : CacheWorld) (a : CacheAction) :
    (cacheStep env w a).cache.hits + (cacheStep env w a).cache.misses =
        w.cache.hits + w.cache.misses + lookupOf w a ∧
      (cacheStep env w a).cache.staleHits = w.cache.staleHits + staleOf w a := by
  cases a with
  | get key id => exact get_counters w.cache w.now key id
  | insert key msg verdict =>
      obtain ⟨hhits, hmisses, hstale⟩ := counters_of_insertInner env w.cache w.now key msg verdict
      rw [cacheStep]
      dsimp only
      rw [hhits, hmisses, hstale]
      exact ⟨rfl, rfl⟩
  | reconfigure enabled capacity minTtl maxTtl stale =>
      obtain ⟨hhits, hmisses, hstale⟩ :=
        counters_of_reconfigure w.cache enabled capacity minTtl maxTtl stale
      rw [cacheStep]
      dsimp only
      rw [hhits, hmisses, hstale]
      exact ⟨rfl, rfl⟩
  | tick nanos => exact ⟨rfl, rfl⟩
  | clear => exact ⟨rfl, rfl⟩
  | setStoreSummaries store => exact ⟨rfl, rfl⟩

theorem counters_run (env : CacheEnv) (w : CacheWorld) (as : List CacheAction) :
    (cacheRun env w as).cache.hits + (cacheRun env w as).cache.misses =
        w.cache.hits + w.cache.misses + lookups env w as ∧
      (cacheRun env w as).cache.staleHits = w.cache.staleHits + staleServed env w as := by
  induction as generalizing w with
  | nil => exact ⟨rfl, rfl⟩
  | cons a as ih =>
      obtain ⟨hsum, hstale⟩ := ih (cacheStep env w a)
      obtain ⟨hstep, hstepStale⟩ := counters_step env w a
      rw [cacheRun, List.foldl_cons, ← cacheRun, hsum, hstale, hstep, hstepStale, lookups,
        staleServed]
      exact ⟨Nat.add_assoc .., Nat.add_assoc ..⟩

/-! ## Lookups after any run -/

/--
A lookup after any run finds the latest cacheable response inserted under its key, or
none.  It is served by its age in whole seconds, as far as 32 bits count them: fresh
with the rest of its lifetime, stale within the current window, or not at all, and then
it is removed.  Every lookup while enabled counts one hit or miss.
-/
theorem get_latest (env : CacheEnv) (shardCount : Nat) (hash : QueryKey → Nat)
    (capacity : Nat) (minTtl maxTtl stale : UInt32) (start : Nat) (as : List CacheAction)
    (key : QueryKey) (id : UInt16)
    (henabled : (cacheRun env ⟨.new shardCount hash capacity minTtl maxTtl stale, start⟩
      as).cache.cfg.enabled = true) :
    let w₀ : CacheWorld := ⟨.new shardCount hash capacity minTtl maxTtl stale, start⟩
    let w := cacheRun env w₀ as
    let found := w.cache.get w.now key id
    (w.cache.peek key = none → found.1 = none) ∧
    (∀ entry, w.cache.peek key = some entry → ∃ ins, latestInsert env w₀ as key = some ins ∧
      match servedAs (cappedSecs ins.instant w.now) ins.ttl.toNat
          w.cache.cfg.staleMaxAge.toNat with
      | some (freshness, ttl) => ∃ hit, found.1 = some hit ∧ hit.freshness = freshness ∧
          hit.response.intoMessage = (adjustTtls ins.message (.ofNat ttl)).withId id
      | none => found.1 = none ∧ found.2.peek key = none) ∧
    found.2.hits + found.2.misses = w.cache.hits + w.cache.misses + 1 ∧
    w.cache.hits + w.cache.misses = lookups env w₀ as ∧
    w.cache.staleHits = staleServed env w₀ as := by
  intro w₀ w found
  obtain ⟨hsum, hstale⟩ := counters_run env w₀ as
  have hempty : ∀ k, w₀.cache.peek k = none := fun k => Lru.peek_empty k
  refine ⟨?_, ?_, ?_, ?_, ?_⟩
  · intro hnone
    rcases get_cases henabled w.now key id with ⟨-, heq⟩ | ⟨entry, hentry, -⟩
    · exact congrArg Prod.fst heq
    · rw [hnone] at hentry
      cases hentry
  · intro entry hentry
    obtain ⟨ins, hlatest, ⟨cfg, hstored⟩, hinstant, httl⟩ := storedBy_latest hempty as hentry
    refine ⟨ins, hlatest, ?_⟩
    have hserved := @get_servedAs _ henabled w.now _ _ hentry id
    rw [hinstant, httl] at hserved
    split
    · rename_i freshness ttl heq
      rw [heq] at hserved
      refine ⟨_, hserved.1, rfl, ?_⟩
      dsimp only
      rw [hstored, intoMessage_respond]
    · rename_i heq
      rw [heq] at hserved
      exact ⟨hserved.1, hserved.2.1⟩
  · rw [(get_counters w.cache w.now key id).1, henabled]
    rfl
  · rw [hsum]
    exact Nat.zero_add _
  · rw [hstale]
    exact Nat.zero_add _

def aliasKey : QueryKey := ⟨['a', '.', 't', 'e', 's', 't', '.'], typeA, 1, false, false⟩

def aliasEnv : CacheEnv := ⟨aliasCodec, fun _ => []⟩

def askedAfter (secs : Nat) : List CacheAction :=
  [.insert aliasKey aliasMessage none, .tick (secs * nanosPerSec)]

theorem get_latest_alias :
    (cacheRun aliasEnv ⟨.new 8 (fun _ => 3) 100 0 0 10, 0⟩ (askedAfter 59)).cache.cfg.enabled =
        true ∧
      ∃ hit, ((cacheRun aliasEnv ⟨.new 8 (fun _ => 3) 100 0 0 10, 0⟩
          (askedAfter 59)).cache.get (59 * nanosPerSec) aliasKey 7).1 = some hit ∧
        hit.freshness = .fresh ∧
        hit.response.intoMessage = (adjustTtls aliasMessage 1).withId 7 := by
  have henabled : (cacheRun aliasEnv ⟨.new 8 (fun _ => 3) 100 0 0 10, 0⟩
      (askedAfter 59)).cache.cfg.enabled = true := by decide +kernel
  have hentry : (cacheRun aliasEnv ⟨.new 8 (fun _ => 3) 100 0 0 10, 0⟩
      (askedAfter 59)).cache.peek aliasKey =
        some ⟨.wire aliasResponse [30, 46] 0 [[], []], 0, 60, none⟩ := by decide +kernel
  obtain ⟨-, hfound, -⟩ := get_latest aliasEnv 8 (fun _ => 3) 100 0 0 10 0 (askedAfter 59)
    aliasKey 7 henabled
  obtain ⟨ins, hlatest, hserved⟩ := hfound _ hentry
  cases hlatest
  exact ⟨henabled, hserved⟩

/--
Seconds past 32 bits are not counted: a response with the longest lifetime is still
served when its lifetime and the window have passed.
-/
theorem served_past_window :
    let w₀ : CacheWorld := ⟨.new 8 (fun _ => 3) 100 4294967295 0 1, 0⟩
    let w : CacheWorld := cacheRun aliasEnv w₀ (askedAfter 4294967296)
    latestInsert aliasEnv w₀ (askedAfter 4294967296) aliasKey =
        some ⟨aliasMessage, 0, 4294967295⟩ ∧
      4294967295 + w.cache.cfg.staleMaxAge.toNat ≤ elapsedSecs 0 w.now ∧
      ∃ hit, (w.cache.get w.now aliasKey 7).1 = some hit ∧ hit.freshness = .stale := by
  refine ⟨by decide +kernel, by decide +kernel, ?_⟩
  have hstale : ((cacheRun aliasEnv ⟨.new 8 (fun _ => 3) 100 4294967295 0 1, 0⟩
      (askedAfter 4294967296)).cache.get (4294967296 * nanosPerSec) aliasKey 7).1.map
        CacheHit.freshness = some .stale := by decide +kernel
  exact Option.map_eq_some_iff.mp hstale

end Bulwark.Engine
