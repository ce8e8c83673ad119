import Bulwark.Foundation.Utf8
import Bulwark.Engine.Cache

/-!
# Cache snapshots

The bytes a cache is saved as, and how they are read back after a restart.  Lengths
are written in two or four little-endian bytes, whatever they are; the reader has
limits of its own and stops at the first record it rejects.
-/

namespace Bulwark.Engine

open Bulwark.Foundation Bulwark.Dns

/-- `b"BLWKCSN2"` -/
def snapshotMagic : Bytes := [66, 76, 87, 75, 67, 83, 78, 50]

def maxSnapshotWireLen : Nat := 64 * 1024
def maxSnapshotAnswers : Nat := 64
def maxSnapshotTtlOffsets : Nat := 256

/-! ## Writing -/

def flagBits (key : QueryKey) : Nat := key.dnssecOk.toNat + 2 * key.checkingDisabled.toNat

def writeText (t : Text) : Bytes := toLe 2 (utf8Bytes t).length ++ utf8Bytes t

def writeRecord (key : QueryKey) (age ttl : UInt32) (rcode : UInt16) (answers : List Text)
    (bytes : Bytes) (offsets : List UInt32) : Bytes :=
  writeText key.name ++ toLe 2 key.rtype.toNat ++ toLe 2 key.dnsClass.toNat ++
    toLe 1 (flagBits key) ++ toLe 4 age.toNat ++ toLe 4 ttl.toNat ++ toLe 2 rcode.toNat ++
    toLe 2 answers.length ++ answers.flatMap writeText ++
    toLe 4 bytes.length ++ bytes ++
    toLe 4 offsets.length ++ offsets.flatMap fun o => toLe 4 o.toNat

/-- `u32::saturating_add` -/
def u32SaturatingAdd (a b : UInt32) : UInt32 :=
  UInt32.ofNat (min (a.toNat + b.toNat) (2 ^ 32 - 1))

/-- A wire entry that is not past its stale window. -/
def isExported (staleMaxAge : UInt32) (now : Nat) (entry : Entry) : Bool :=
  match entry.stored with
  | .wire _ _ _ _ => !(u32SaturatingAdd entry.ttl staleMaxAge ≤ entry.ageSecs now)
  | .message _ => false

def DnsCache.exported (c : DnsCache) (now : Nat) : List (QueryKey × Entry) :=
  ((List.range c.shardCount).flatMap fun i => (c.shards i).entries).filter fun e =>
    isExported c.cfg.staleMaxAge now e.2

def writeEntry (now : Nat) (key : QueryKey) (entry : Entry) : Bytes :=
  match entry.stored with
  | .wire bytes offsets rcode answers =>
      writeRecord key (entry.ageSecs now) entry.ttl rcode answers bytes offsets
  | .message _ => []

/-- The live wire entries for restart persistence; `unix` is the time of day. -/
def DnsCache.exportSnapshot (c : DnsCache) (now : Nat) (unix : UInt64) : Bytes :=
  let records := c.exported now
  snapshotMagic ++ toLe 8 unix.toNat ++ toLe 4 records.length ++
    records.flatMap fun e => writeEntry now e.1 e.2

/-! ## Reading -/

/-- The next `n` bytes and what follows them. -/
def takeBytes (n : Nat) (data : Bytes) : Option (Bytes × Bytes) :=
  if n ≤ data.length then some (data.take n, data.drop n) else none

/-- The next `k` bytes as a little-endian number. -/
def readLe (k : Nat) (data : Bytes) : Option (Nat × Bytes) :=
  (takeBytes k data).map fun (bytes, rest) => (ofLe bytes, rest)

def readText (data : Bytes) : Option (Text × Bytes) := do
  let (len, data) ← readLe 2 data
  let (bytes, data) ← takeBytes len data
  some (fromUtf8Lossy bytes, data)

def readTexts : Nat → Bytes → Option (List Text × Bytes)
  | 0, data => some ([], data)
  | n + 1, data => do
      let (t, data) ← readText data
      let (ts, data) ← readTexts n data
      some (t :: ts, data)

def readOffsets : Nat → Bytes → Option (List UInt32 × Bytes)
  | 0, data => some ([], data)
  | n + 1, data => do
      let (o, data) ← readLe 4 data
      let (os, data) ← readOffsets n data
      some (UInt32.ofNat o :: os, data)

/-- The wire bytes answer the key they are stored under. -/
def wireMatchesKey (bytes : Bytes) (key : QueryKey) : Bool :=
  match decode bytes with
  | some msg =>
      msg.queries.head?.any fun q =>
        q.queryType = key.rtype && q.queryClass = key.dnsClass &&
          toAsciiLowercase (nameToAscii q.name) = toAsciiLowercase key.name
  | none => false

structure ParsedEntry where
  key : QueryKey
  age : UInt32
  ttl : UInt32
  stored : Stored
  deriving DecidableEq, Repr

def readKey (data : Bytes) : Option (QueryKey × Bytes) := do
  let (name, data) ← readText data
  let (rtype, data) ← readLe 2 data
  let (dnsClass, data) ← readLe 2 data
  let (flags, data) ← readLe 1 data
  some (⟨name, .ofNat rtype, .ofNat dnsClass, flags % 2 = 1, flags / 2 % 2 = 1⟩, data)

def readAnswers (data : Bytes) : Option (List Text × Bytes) := do
  let (count, data) ← readLe 2 data
  if maxSnapshotAnswers < count then none else readTexts count data

def readWire (key : QueryKey) (data : Bytes) : Option (Bytes × Bytes) := do
  let (len, data) ← readLe 4 data
  if maxSnapshotWireLen < len then none
  else do
    let (wire, data) ← takeBytes len data
    if !wireMatchesKey wire key then none else some (wire, data)

def readTtlOffsets (wireLen : Nat) (data : Bytes) : Option (List UInt32 × Bytes) := do
  let (count, data) ← readLe 4 data
  if maxSnapshotTtlOffsets < count then none
  else do
    let (offsets, data) ← readOffsets count data
    if offsets.any fun o => wireLen < o.toNat + 4 then none else some (offsets, data)

def readEntry (data : Bytes) : Option (ParsedEntry × Bytes) := do
  let (key, data) ← readKey data
  let (age, data) ← readLe 4 data
  let (ttl, data) ← readLe 4 data
  let (rcode, data) ← readLe 2 data
  let (answers, data) ← readAnswers data
  let (wire, data) ← readWire key data
  let (offsets, data) ← readTtlOffsets wire.length data
  some (⟨key, .ofNat age, .ofNat ttl, .wire wire offsets (.ofNat rcode) answers⟩, data)

/-- Installs one record unless it has expired or is older than the clock can say. -/
def DnsCache.restore (c : DnsCache) (now elapsed : Nat) (parsed : ParsedEntry) : DnsCache :=
  let totalAge := parsed.age.toNat + elapsed
  if parsed.ttl.toNat + c.cfg.staleMaxAge.toNat ≤ totalAge then c
  else if now < totalAge * nanosPerSec then c
  else
    let entry : Entry := ⟨parsed.stored, now - totalAge * nanosPerSec, parsed.ttl, none⟩
    c.setShard parsed.key ((c.shard parsed.key).put parsed.key entry)

/-- A rejected record ends the import; what was installed before stays. -/
def DnsCache.restoreAll (now elapsed : Nat) : Nat → DnsCache → Bytes → DnsCache
  | 0, c, _ => c
  | n + 1, c, data =>
      match readEntry data with
      | none => c
      | some (parsed, data) => restoreAll now elapsed n (c.restore now elapsed parsed) data

def readHead (data : Bytes) : Option (UInt64 × Nat × Bytes) := do
  let (magic, data) ← takeBytes snapshotMagic.length data
  if magic ≠ snapshotMagic then none
  else do
    let (unix, data) ← readLe 8 data
    let (count, data) ← readLe 4 data
    some (.ofNat unix, count, data)

/-- Restores live entries from a snapshot; `unix` is the time of day now. -/
def DnsCache.importSnapshot (c : DnsCache) (now : Nat) (unix : UInt64) (data : Bytes) : DnsCache :=
  match readHead data with
  | none => c
  | some (saved, count, data) => c.restoreAll now (unix.toNat - saved.toNat) count data

/-! ## What is written is read -/

theorem takeBytes_append (xs rest : Bytes) :
    takeBytes xs.length (xs ++ rest) = some (xs, rest) := by
  rw [takeBytes, if_pos (by simp), List.take_left, List.drop_left]

theorem readLe_toLe {k n : Nat} (h : n < 256 ^ k) (rest : Bytes) :
    readLe k (toLe k n ++ rest) = some (n, rest) := by
  have htake := takeBytes_append (toLe k n) rest
  rw [length_toLe] at htake
  rw [readLe, htake, Option.map_some]
  dsimp only
  rw [ofLe_toLe, Nat.mod_eq_of_lt h]

theorem readText_writeText {t : Text} (h : (utf8Bytes t).length < 2 ^ 16) (rest : Bytes) :
    readText (writeText t ++ rest) = some (t, rest) := by
  rw [writeText, List.append_assoc, readText, readLe_toLe (by omega)]
  simp only [Option.bind_eq_bind, Option.bind_some, takeBytes_append, fromUtf8Lossy_utf8Bytes]

theorem readTexts_writeText {ts : List Text} (h : ∀ t ∈ ts, (utf8Bytes t).length < 2 ^ 16)
    (rest : Bytes) : readTexts ts.length (ts.flatMap writeText ++ rest) = some (ts, rest) := by
  induction ts with
  | nil => rfl
  | cons t ts ih =>
      rw [List.length_cons, List.flatMap_cons, List.append_assoc, readTexts,
        readText_writeText (h t List.mem_cons_self)]
      simp only [Option.bind_eq_bind, Option.bind_some]
      rw [ih fun t ht => h t (List.mem_cons_of_mem _ ht)]
      rfl

theorem readOffsets_toLe (os : List UInt32) (rest : Bytes) :
    readOffsets os.length ((os.flatMap fun o => toLe 4 o.toNat) ++ rest) = some (os, rest) := by
  induction os with
  | nil => rfl
  | cons o os ih =>
      have ho := o.toNat_lt
      rw [List.length_cons, List.flatMap_cons, List.append_assoc, readOffsets,
        readLe_toLe (by omega)]
      simp only [Option.bind_eq_bind, Option.bind_some]
      rw [ih]
      simp only [Option.bind_some, UInt32.ofNat_toNat]

theorem flagBits_eq (key : QueryKey) :
    flagBits key < 4 ∧ decide (flagBits key % 2 = 1) = key.dnssecOk ∧
      decide (flagBits key / 2 % 2 = 1) = key.checkingDisabled := by
  rw [flagBits]
  cases key.dnssecOk <;> cases key.checkingDisabled <;> decide

structure Writable (key : QueryKey) (answers : List Text) (bytes : Bytes)
    (offsets : List UInt32) : Prop where
  nameLen : (utf8Bytes key.name).length < 2 ^ 16
  answerCount : answers.length < 2 ^ 16
  textLens : ∀ t ∈ answers, (utf8Bytes t).length < 2 ^ 16
  wireLen : bytes.length < 2 ^ 32
  offsetCount : offsets.length < 2 ^ 32

structure WithinLimits (key : QueryKey) (answers : List Text) (bytes : Bytes)
    (offsets : List UInt32) : Prop where
  answerCount : answers.length ≤ maxSnapshotAnswers
  wireLen : bytes.length ≤ maxSnapshotWireLen
  matchesKey : wireMatchesKey bytes key = true
  offsetCount : offsets.length ≤ maxSnapshotTtlOffsets
  inside : ∀ o ∈ offsets, o.toNat + 4 ≤ bytes.length

instance (key : QueryKey) (answers : List Text) (bytes : Bytes) (offsets : List UInt32) :
    Decidable (WithinLimits key answers bytes offsets) :=
  decidable_of_iff
    (answers.length ≤ maxSnapshotAnswers ∧ bytes.length ≤ maxSnapshotWireLen ∧
      wireMatchesKey bytes key = true ∧ offsets.length ≤ maxSnapshotTtlOffsets ∧
      (offsets.all fun o => o.toNat + 4 ≤ bytes.length) = true)
    ⟨fun ⟨ha, hb, hk, ho, hi⟩ => ⟨ha, hb, hk, ho, by simpa using hi⟩,
      fun h => ⟨h.answerCount, h.wireLen, h.matchesKey, h.offsetCount, by simpa using h.inside⟩⟩

theorem readKey_write {key : QueryKey} (h : (utf8Bytes key.name).length < 2 ^ 16)
    (rest : Bytes) :
    readKey (writeText key.name ++ (toLe 2 key.rtype.toNat ++ (toLe 2 key.dnsClass.toNat ++
      (toLe 1 (flagBits key) ++ rest)))) = some (key, rest) := by
  have hrtype := key.rtype.toNat_lt
  have hclass := key.dnsClass.toNat_lt
  obtain ⟨hflags, hdnssec, hchecking⟩ := flagBits_eq key
  rw [readKey, readText_writeText h]
  simp only [Option.bind_eq_bind, Option.bind_some]
  rw [readLe_toLe (by omega)]
  simp only [Option.bind_some]
  rw [readLe_toLe (by omega)]
  simp only [Option.bind_some]
  rw [readLe_toLe (by omega)]
  simp only [Option.bind_some, UInt16.ofNat_toNat, hdnssec, hchecking]

theorem readAnswers_write {ts : List Text} (hcount : ts.length < 2 ^ 16)
    (h : ∀ t ∈ ts, (utf8Bytes t).length < 2 ^ 16) (rest : Bytes) :
    readAnswers (toLe 2 ts.length ++ (ts.flatMap writeText ++ rest)) =
      if ts.length ≤ maxSnapshotAnswers then some (ts, rest) else none := by
  rw [readAnswers, readLe_toLe (by omega)]
  simp only [Option.bind_eq_bind, Option.bind_some]
  rw [readTexts_writeText h]
  split_ifs <;> first | rfl | omega

theorem readWire_write {bytes : Bytes} (h : bytes.length < 2 ^ 32) (key : QueryKey)
    (rest : Bytes) :
    readWire key (toLe 4 bytes.length ++ (bytes ++ rest)) =
      if bytes.length ≤ maxSnapshotWireLen ∧ wireMatchesKey bytes key = true then
        some (bytes, rest)
      else none := by
  rw [readWire, readLe_toLe (by omega)]
  simp only [Option.bind_eq_bind, Option.bind_some, takeBytes_append]
  by_cases hlen : maxSnapshotWireLen < bytes.length
  · rw [if_pos hlen, if_neg (by omega)]
  · rw [if_neg hlen]
    cases wireMatchesKey bytes key with
    | false => exact (if_neg (by simp)).symm
    | true => exact (if_pos ⟨by omega, rfl⟩).symm

theorem readTtlOffsets_write {offsets : List UInt32} (h : offsets.length < 2 ^ 32)
    (wireLen : Nat) (rest : Bytes) :
    readTtlOffsets wireLen
        (toLe 4 offsets.length ++ ((offsets.flatMap fun o => toLe 4 o.toNat) ++ rest)) =
      if offsets.length ≤ maxSnapshotTtlOffsets ∧
          (offsets.all fun o => o.toNat + 4 ≤ wireLen) = true then
        some (offsets, rest)
      else none := by
  rw [readTtlOffsets, readLe_toLe (by omega)]
  simp only [Option.bind_eq_bind, Option.bind_some]
  rw [readOffsets_toLe]
  simp only [Option.bind_some]
  have hany : (offsets.any fun o => wireLen < o.toNat + 4) = true ↔
      ¬ (offsets.all fun o => o.toNat + 4 ≤ wireLen) = true := by
    simp
  by_cases hcount : maxSnapshotTtlOffsets < offsets.length
  · rw [if_pos hcount, if_neg (by omega)]
  · rw [if_neg hcount]
    by_cases hinside : (offsets.all fun o => o.toNat + 4 ≤ wireLen) = true
    · rw [if_neg (mt hany.mp (not_not.mpr hinside)), if_pos ⟨by omega, hinside⟩]
    · rw [if_pos (hany.mpr hinside), if_neg fun hboth => hinside hboth.2]

/-- A record whose lengths fit is read as it was written, or rejected by a limit. -/
theorem readEntry_writeRecord {key : QueryKey} {answers : List Text} {bytes : Bytes}
    {offsets : List UInt32} (h : Writable key answers bytes offsets) (age ttl : UInt32)
    (rcode : UInt16) (rest : Bytes) :
    readEntry (writeRecord key age ttl rcode answers bytes offsets ++ rest) =
      if WithinLimits key answers bytes offsets then
        some (⟨key, age, ttl, .wire bytes offsets rcode answers⟩, rest)
      else none := by
  have hage := age.toNat_lt
  have httl := ttl.toNat_lt
  have hrcode := rcode.toNat_lt
  rw [writeRecord]
  simp only [List.append_assoc]
  rw [readEntry, readKey_write h.nameLen]
  simp only [Option.bind_eq_bind, Option.bind_some]
  rw [readLe_toLe (by omega)]
  simp only [Option.bind_some]
  rw [readLe_toLe (by omega)]
  simp only [Option.bind_some]
  rw [readLe_toLe (by omega)]
  simp only [Option.bind_some, UInt32.ofNat_toNat, UInt16.ofNat_toNat]
  rw [readAnswers_write h.answerCount h.textLens]
  by_cases hcount : answers.length ≤ maxSnapshotAnswers
  · rw [if_pos hcount]
    simp only [Option.bind_some]
    rw [readWire_write h.wireLen]
    by_cases hwire : bytes.length ≤ maxSnapshotWireLen ∧ wireMatchesKey bytes key = true
    · rw [if_pos hwire]
      simp only [Option.bind_some]
      rw [readTtlOffsets_write h.offsetCount]
      by_cases hoffs : offsets.length ≤ maxSnapshotTtlOffsets ∧
          (offsets.all fun o => o.toNat + 4 ≤ bytes.length) = true
      · have hinside : ∀ o ∈ offsets, o.toNat + 4 ≤ bytes.length := by simpa using hoffs.2
        rw [if_pos hoffs, if_pos ⟨hcount, hwire.1, hwire.2, hoffs.1, hinside⟩]
        rfl
      · rw [if_neg hoffs, if_neg fun hw => hoffs ⟨hw.offsetCount, by simpa using hw.inside⟩]
        rfl
    · rw [if_neg hwire, if_neg fun hw => hwire ⟨hw.wireLen, hw.matchesKey⟩]
      rfl
  · rw [if_neg hcount, if_neg fun hw => hcount hw.answerCount]
    rfl

end Bulwark.Engine
