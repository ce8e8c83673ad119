import Bulwark.Engine.CacheRuns

/-!
# Lifetimes of cached records

A response is given one lifetime, computed from its answers or from its first SOA
record, and served with the rest of it in every record.  A record outlives its own TTL
where that lifetime is longer.
-/

namespace Bulwark.Engine

open Bulwark.Foundation Bulwark.Dns

/-! ## What a served record may carry -/

/-- The record was aged by so many seconds, or more. -/
def Aged (age : Nat) (stored served : Record) : Prop :=
  served = { stored with ttl := served.ttl } ∧ served.ttl.toNat ≤ max 1 (stored.ttl.toNat - age)

structure Respects (age : Nat) (stored served : Message) : Prop where
  answers : List.Forall₂ (Aged age) stored.answers served.answers
  authorities : List.Forall₂ (Aged age) stored.authorities served.authorities
  additionals : List.Forall₂ (Aged age) stored.additionals served.additionals

def Message.records (msg : Message) : List Record :=
  msg.answers ++ msg.authorities ++ msg.additionals

/-- Something that the lifetime follows lasts `secs` seconds or less. -/
def LastsAtMost (maxTtl : UInt32) (msg : Message) (secs : Nat) : Prop :=
  (maxTtl ≠ 0 ∧ maxTtl.toNat ≤ secs) ∨
    if msg.answers ≠ [] then ∃ r ∈ msg.answers, r.ttl.toNat ≤ secs
    else
      match msg.authorities.find? (soaMinimum · |>.isSome) with
      | some soa => min ((soaMinimum soa).getD 0).toNat soa.ttl.toNat ≤ secs
      | none => 30 ≤ secs

/-- Every record lasts as long as something that the lifetime follows. -/
def Covered (maxTtl : UInt32) (msg : Message) : Prop :=
  ∀ r ∈ Message.records msg, LastsAtMost maxTtl msg (max 1 r.ttl.toNat)

/-! ## The lifetime of a response -/

theorem foldl_u32Min_le_iff (rs : List Record) (ttl : UInt32) (secs : Nat) :
    (rs.foldl (fun ttl r => u32Min ttl r.ttl) ttl).toNat ≤ secs ↔
      ttl.toNat ≤ secs ∨ ∃ r ∈ rs, r.ttl.toNat ≤ secs := by
  induction rs generalizing ttl with
  | nil => simp
  | cons r rs ih => simp [ih, or_assoc]

theorem minTtlOf_le_iff {rs : List Record} (h : rs ≠ []) (secs : Nat) :
    ((minTtlOf rs).getD defaultNegativeTtl).toNat ≤ secs ↔ ∃ r ∈ rs, r.ttl.toNat ≤ secs := by
  cases rs with
  | nil => exact absurd rfl h
  | cons r rs => simp [minTtlOf, foldl_u32Min_le_iff]

theorem negativeTtl_le_iff (msg : Message) {secs : Nat} (hsecs : 0 < secs) :
    (negativeTtl msg).toNat ≤ secs ↔
      match msg.authorities.find? (soaMinimum · |>.isSome) with
      | some soa => min ((soaMinimum soa).getD 0).toNat soa.ttl.toNat ≤ secs
      | none => 30 ≤ secs := by
  have hone : (1 : UInt32).toNat = 1 := rfl
  unfold negativeTtl
  cases msg.authorities.find? (soaMinimum · |>.isSome) with
  | none => exact Iff.rfl
  | some soa =>
      simp only [toNat_u32Max, toNat_u32Min, hone]
      omega

/-- Without a lower clamp the lifetime is the least of what it follows. -/
theorem cacheableTtl_le_iff {cfg : CacheConfig} (hmin : cfg.minTtl = 0) {msg : Message}
    {ttl : UInt32} (h : cfg.cacheableTtl msg = some ttl) {secs : Nat} (hsecs : 0 < secs) :
    ttl.toNat ≤ secs ↔ LastsAtMost cfg.maxTtl msg secs := by
  have hzero : (0 : UInt32).toNat = 0 := rfl
  obtain ⟨base, hbase⟩ : ∃ base, base = if msg.answers ≠ [] then
      (minTtlOf msg.answers).getD defaultNegativeTtl else negativeTtl msg := ⟨_, rfl⟩
  have hle : base.toNat ≤ secs ↔ LastsAtMost 0 msg secs := by
    unfold LastsAtMost
    rw [hbase]
    by_cases hanswers : msg.answers ≠ []
    · simp [hanswers, minTtlOf_le_iff hanswers]
    · simp [hanswers, negativeTtl_le_iff msg hsecs]
  have httl : ttl = if cfg.maxTtl ≠ 0 then u32Min (u32Max base 0) cfg.maxTtl
      else u32Max base 0 := by
    unfold CacheConfig.cacheableTtl at h
    rw [hmin] at h
    simp only [← hbase] at h
    split at h
    · cases h
    split at h
    · cases h
    by_cases hmax : cfg.maxTtl ≠ 0
    · rw [if_pos hmax] at h ⊢
      split at h
      · cases h
      · exact (Option.some.inj h).symm
    · rw [if_neg hmax] at h ⊢
      split at h
      · cases h
      · exact (Option.some.inj h).symm
  unfold LastsAtMost at hle ⊢
  rw [httl]
  by_cases hmax : cfg.maxTtl ≠ 0
  · simp only [if_pos hmax, toNat_u32Min, toNat_u32Max, hzero, Nat.max_zero]
    simp only [ne_eq, not_true_eq_false, false_and, false_or] at hle
    simp only [hmax, ne_eq, not_false_eq_true, true_and, min_le_iff, hle]
    exact or_comm
  · simp only [if_neg hmax, toNat_u32Max, hzero, Nat.max_zero, hle]
    simp [not_not.mp hmax]

/-! ## What is served -/

theorem forall₂_aged {age : Nat} {ttl : UInt32} {rs : List Record} :
    List.Forall₂ (Aged age) rs (rs.map fun r => { r with ttl := ttl }) ↔
      ∀ r ∈ rs, ttl.toNat ≤ max 1 (r.ttl.toNat - age) := by
  rw [List.forall₂_map_right_iff, List.forall₂_same]
  simp [Aged]

theorem respects_adjustTtls {age : Nat} {ttl : UInt32} {msg : Message} {id : UInt16} :
    Respects age msg ((adjustTtls msg ttl).withId id) ↔
      ∀ r ∈ Message.records msg, ttl.toNat ≤ max 1 (r.ttl.toNat - age) := by
  have hiff : Respects age msg ((adjustTtls msg ttl).withId id) ↔
      (∀ r ∈ msg.answers, ttl.toNat ≤ max 1 (r.ttl.toNat - age)) ∧
        (∀ r ∈ msg.authorities, ttl.toNat ≤ max 1 (r.ttl.toNat - age)) ∧
          ∀ r ∈ msg.additionals, ttl.toNat ≤ max 1 (r.ttl.toNat - age) := by
    rw [← forall₂_aged, ← forall₂_aged, ← forall₂_aged]
    exact ⟨fun h => ⟨h.answers, h.authorities, h.additionals⟩, fun h => ⟨h.1, h.2.1, h.2.2⟩⟩
  rw [hiff, Message.records]
  simp only [List.mem_append, or_imp, forall_and, and_assoc]

/-- `served` is found so many seconds after `msg` was inserted, before any other insert. -/
inductive ServedAfter (env : CacheEnv) (cfg : CacheConfig) (msg : Message) (age : Nat)
    (served : Message) : Prop where
  | hit {w w' : CacheWorld} {key : QueryKey} {verdict : Option ResponseVerdict}
      {as : List CacheAction} {id : UInt16} {hit : CacheHit}
      (hcfg : w.cache.cfg = cfg)
      (hrun : w' = cacheRun env (cacheStep env w (.insert key msg verdict)) as)
      (hkept : latestInsert env (cacheStep env w (.insert key msg verdict)) as key = none)
      (hage : age = elapsedSecs w.now w'.now)
      (hstale : w'.cache.cfg.staleMaxAge = 0)
      (hhit : (w'.cache.get w'.now key id).1 = some hit)
      (hserved : served = hit.response.intoMessage) : ServedAfter env cfg msg age served

section

variable {env : CacheEnv} {cfg : CacheConfig} {msg : Message} {ttl : UInt32}

theorem peek_after_insert {w : CacheWorld} (henabled : w.cache.cfg.enabled = true)
    (hcacheable : w.cache.cfg.cacheableTtl msg = some ttl) (key : QueryKey)
    (verdict : Option ResponseVerdict) :
    (cacheStep env w (.insert key msg verdict)).cache.peek key =
      some ⟨env.store w.cache.cfg msg, w.now, ttl, verdict⟩ := by
  have hinsert : w.cache.insertTtl msg = some ttl := by
    rw [DnsCache.insertTtl, if_pos henabled, hcacheable]
  change (w.cache.insertInner env w.now key msg verdict).2.peek key = _
  rw [insertInner_eq, hinsert]
  dsimp only
  rw [peek_setShard, if_pos rfl, Lru.peek_put_self]

theorem served_eq (henabled : cfg.enabled = true) (hcacheable : cfg.cacheableTtl msg = some ttl)
    {age : Nat} {served : Message} (h : ServedAfter env cfg msg age served) :
    ∃ id, age < ttl.toNat ∧
      served = (adjustTtls msg (.ofNat (ttl.toNat - age))).withId id := by
  obtain ⟨hcfg, hrun, hkept, hage, hstale, hhit, hserved⟩ := h
  rename_i w w' key verdict as id hit
  subst hcfg
  have hnow : w'.cache.cfg.enabled = true := by
    by_contra hoff
    rw [Bool.not_eq_true] at hoff
    rw [get_of_disabled hoff] at hhit
    cases hhit
  rcases get_cases hnow w'.now key id with ⟨-, heq⟩ | ⟨entry, hentry, -⟩
  · rw [heq] at hhit
    cases hhit
  have hfound := hentry
  rw [hrun] at hfound
  rcases peek_of_cacheRun as hfound with ⟨ins, hlatest, -⟩ | ⟨-, hbefore⟩
  · rw [hkept] at hlatest
    cases hlatest
  rw [peek_after_insert henabled hcacheable] at hbefore
  obtain rfl := Option.some.inj hbefore
  have hget := @get_servedAs _ hnow w'.now _ _ hentry id
  rw [hstale] at hget
  unfold servedAs at hget
  have hzero : (0 : UInt32).toNat = 0 := rfl
  have hbound := ttl.toNat_lt
  have hcapped : cappedSecs w.now w'.now = min age (2 ^ 32 - 1) := by
    rw [cappedSecs, hage]
  dsimp only at hget
  rw [hzero, Nat.add_zero, hcapped] at hget
  by_cases hfresh : min age (2 ^ 32 - 1) < ttl.toNat
  · have hmin : min age (2 ^ 32 - 1) = age := by omega
    rw [if_pos hfresh, hmin] at hget
    refine ⟨id, by omega, ?_⟩
    rw [hserved, Option.some.inj (hhit.symm.trans hget.1)]
    exact intoMessage_respond env w.cache.cfg msg id _
  · rw [if_neg hfresh, if_neg hfresh] at hget
    rw [hget.1] at hhit
    cases hhit

theorem servedAfter_zero (env : CacheEnv) (henabled : cfg.enabled = true)
    (hcacheable : cfg.cacheableTtl msg = some ttl) (hstale : cfg.staleMaxAge = 0)
    (hpos : 0 < ttl.toNat) :
    ServedAfter env cfg msg 0 ((adjustTtls msg ttl).withId 0) := by
  obtain ⟨w, hcfg⟩ : ∃ w : CacheWorld, w.cache.cfg = cfg :=
    ⟨⟨{ DnsCache.new 1 (fun _ => 0) 1 0 0 0 with cfg := cfg }, 0⟩, rfl⟩
  obtain ⟨key⟩ : Nonempty QueryKey := ⟨⟨[], 0, 0, false, false⟩⟩
  obtain ⟨w', hw'⟩ : ∃ w', w' = cacheStep env w (.insert key msg none) := ⟨_, rfl⟩
  have hcfg' : w'.cache.cfg = cfg := by
    rw [hw', ← hcfg]
    change (w.cache.insertInner env w.now key msg none).2.cfg = w.cache.cfg
    rw [insertInner_eq]
    cases w.cache.insertTtl msg <;> rfl
  have hnow : w'.now = w.now := by rw [hw']; rfl
  subst hcfg
  have hpeek := @peek_after_insert env msg ttl w henabled hcacheable key none
  rw [← hw'] at hpeek
  have hget := @get_servedAs _ (by rw [hcfg', henabled]) w'.now _ _ hpeek 0
  have hage : elapsedSecs w.now w'.now = 0 := by simp [elapsedSecs, hnow]
  have hfresh : cappedSecs w.now w'.now < ttl.toNat := by
    rw [cappedSecs, hage]
    omega
  unfold servedAs at hget
  dsimp only at hget
  rw [if_pos hfresh] at hget
  refine @ServedAfter.hit env _ msg 0 _ w w' key none [] 0 _ rfl hw' rfl hage.symm
    (by rw [hcfg', hstale]) hget.1 ?_
  dsimp only
  rw [intoMessage_respond, cappedSecs, hage]
  simp

/--
Without a lower clamp and a stale window: no record outlives its TTL in the cache if and
only if each lasts as long as something that the lifetime of the response follows.
-/
theorem respects_iff_covered (env : CacheEnv) (henabled : cfg.enabled = true)
    (hmin : cfg.minTtl = 0) (hstale : cfg.staleMaxAge = 0)
    (hcacheable : cfg.cacheableTtl msg = some ttl) :
    (∀ age served, ServedAfter env cfg msg age served → Respects age msg served) ↔
      Covered cfg.maxTtl msg := by
  have hlifetime : ∀ r : Record, ttl.toNat ≤ max 1 r.ttl.toNat ↔
      LastsAtMost cfg.maxTtl msg (max 1 r.ttl.toNat) :=
    fun r => cacheableTtl_le_iff hmin hcacheable (by omega)
  constructor
  · intro hall r hr
    rw [← hlifetime]
    rcases Nat.eq_zero_or_pos ttl.toNat with hzero | hpos
    · omega
    · have hserved := hall 0 _ (servedAfter_zero env henabled hcacheable hstale hpos)
      exact respects_adjustTtls.mp hserved r hr
  · intro hcovered age served hserved
    obtain ⟨id, hyoung, rfl⟩ := served_eq henabled hcacheable hserved
    rw [respects_adjustTtls]
    intro r hr
    have hle := (hlifetime r).mpr (hcovered r hr)
    have hbound := ttl.toNat_lt
    rw [UInt32.toNat_ofNat', Nat.mod_eq_of_lt (by omega)]
    omega

end

/-- All records of the alias response last as long as its address. -/
theorem respects_aliasMessage :
    (⟨true, 0, 0, 0, true⟩ : CacheConfig).cacheableTtl aliasMessage = some 60 ∧
      ∀ age served, ServedAfter aliasEnv ⟨true, 0, 0, 0, true⟩ aliasMessage age served →
        Respects age aliasMessage served := by
  refine ⟨by decide, (respects_iff_covered aliasEnv rfl rfl rfl
    (by decide : _ = some (60 : UInt32))).mpr fun r hr => .inr ?_⟩
  have hrecords : r ∈ aliasMessage.answers := by simpa [Message.records, aliasMessage] using hr
  rw [if_pos (by decide)]
  exact ⟨_, hrecords, by omega⟩

/-! ## A name server with a shorter TTL -/

/-- An address for five minutes, from a zone whose name server is good for one. -/
def zoneResponse : Bytes :=
  [0xAB, 0xCD, 0x81, 0x80, 0, 1, 0, 1, 0, 1, 0, 0,
    1, 97, 4, 116, 101, 115, 116, 0, 0, 1, 0, 1,
    0xC0, 12, 0, 1, 0, 1, 0, 0, 1, 44, 0, 4, 1, 2, 3, 4,
    0xC0, 14, 0, 2, 0, 1, 0, 0, 0, 60, 0, 5, 2, 110, 115, 0xC0, 14]

def zoneMessage : Message where
  metadata := ⟨0xABCD, true, 0, false, false, true, true, false, false, 0⟩
  queries := [⟨[[97], [116, 101, 115, 116]], 1, 1⟩]
  answers := [⟨[[97], [116, 101, 115, 116]], typeA, 1, 300, [.raw [1, 2, 3, 4]]⟩]
  authorities := [⟨[[116, 101, 115, 116]], 2, 1, 60, [.name [[110, 115], [116, 101, 115, 116]]]⟩]
  additionals := []
  edns := none

def zoneEnv : CacheEnv :=
  ⟨.single zoneMessage zoneResponse (by decide +kernel) (by decide +kernel) (by decide),
    fun _ => []⟩

/-- The name server's record is served for five minutes. -/
theorem nameServer_outlives :
    ¬ ∀ age served, ServedAfter zoneEnv ⟨true, 0, 0, 0, true⟩ zoneMessage age served →
      Respects age zoneMessage served := by
  intro hall
  have hserved := hall 0 _ (servedAfter_zero zoneEnv rfl (by decide : _ = some (300 : UInt32)) rfl
    (by decide))
  have hns := respects_adjustTtls.mp hserved
    ⟨[[116, 101, 115, 116]], 2, 1, 60, [.name [[110, 115], [116, 101, 115, 116]]]⟩ (by decide)
  exact absurd hns (by decide)

end Bulwark.Engine
