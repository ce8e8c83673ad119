import Bulwark.Foundation.Cursor
import Bulwark.Engine.HandleSteps
import Bulwark.Engine.SnapshotRestore

/-!
# Importing any bytes

The import as the program runs it: a cursor over the snapshot, a loop that counts what
it installs.  It installs what reading from the rest of the buffer finds, whatever the
bytes are.
-/

namespace Bulwark.Engine

open Bulwark.Foundation Bulwark.Dns

/-! ## The reader -/

def recordText : Read Text := do
  let len ← .le 2
  let bytes ← .take len
  pure (fromUtf8Lossy bytes)

def recordKey : Read QueryKey := do
  let name ← recordText
  let rtype ← .le 2
  let dnsClass ← .le 2
  let flags ← .byte
  pure ⟨name, .ofNat rtype, .ofNat dnsClass, flags % 2 = 1, flags / 2 % 2 = 1⟩

def recordAnswers : Read (List Text) := do
  let count ← .le 2
  if maxSnapshotAnswers < count then .halt .cut else .items recordText count

def recordWire (key : QueryKey) : Read Bytes := do
  let len ← .le 4
  if maxSnapshotWireLen < len then .halt .cut
  else do
    let wire ← .take len
    if !wireMatchesKey wire key then .halt .cut else pure wire

def recordOffset : Read UInt32 := do
  let o ← .le 4
  pure (.ofNat o)

def recordTtlOffsets (wireLen : Nat) : Read (List UInt32) := do
  let count ← .le 4
  if maxSnapshotTtlOffsets < count then .halt .cut
  else do
    let offsets ← .items recordOffset count
    if offsets.any fun o => wireLen < o.toNat + 4 then .halt .cut else pure offsets

def DnsCache.readRecord : Read ParsedEntry := do
  let key ← recordKey
  let age ← .le 4
  let ttl ← .le 4
  let rcode ← .le 2
  let answers ← recordAnswers
  let wire ← recordWire key
  let offsets ← recordTtlOffsets wire.length
  pure ⟨key, .ofNat age, .ofNat ttl, .wire wire offsets (.ofNat rcode) answers⟩

theorem refines_recordText : Read.Refines recordText readText :=
  (Read.refines_le 2).bind fun len => (Read.refines_take len).bind fun bytes =>
    Read.refines_pure (fromUtf8Lossy bytes)

theorem refines_recordKey : Read.Refines recordKey readKey :=
  refines_recordText.bind fun _ => (Read.refines_le 2).bind fun _ => (Read.refines_le 2).bind
    fun _ => Read.refines_byte.bind fun _ => Read.refines_pure _

theorem refines_recordAnswers : Read.Refines recordAnswers readAnswers :=
  (Read.refines_le 2).bind fun count => Read.refines_ite (fun _ => Read.refines_cut) fun _ =>
    refines_recordText.items (fun _ => rfl) (fun _ _ => rfl) count

theorem refines_recordWire (key : QueryKey) : Read.Refines (recordWire key) (readWire key) :=
  (Read.refines_le 4).bind fun len => Read.refines_ite (fun _ => Read.refines_cut) fun _ =>
    (Read.refines_take len).bind fun wire => Read.refines_ite (fun _ => Read.refines_cut) fun _ =>
      Read.refines_pure wire

theorem refines_recordOffset : Read.Refines recordOffset fun data =>
    (readLe 4 data).bind fun p => some (UInt32.ofNat p.1, p.2) :=
  (Read.refines_le 4).bind fun o => Read.refines_pure (UInt32.ofNat o)

theorem refines_recordOffsets (count : Nat) :
    Read.Refines (.items recordOffset count) (readOffsets count) := by
  refine refines_recordOffset.items (fun _ => rfl) (fun n data => ?_) count
  rw [readOffsets]
  cases readLe 4 data <;> rfl

theorem refines_recordTtlOffsets (wireLen : Nat) :
    Read.Refines (recordTtlOffsets wireLen) (readTtlOffsets wireLen) :=
  (Read.refines_le 4).bind fun count => Read.refines_ite (fun _ => Read.refines_cut) fun _ =>
    (refines_recordOffsets count).bind fun offsets =>
      Read.refines_ite (fun _ => Read.refines_cut) fun _ => Read.refines_pure offsets

theorem refines_readRecord : Read.Refines DnsCache.readRecord readEntry :=
  refines_recordKey.bind fun key => (Read.refines_le 4).bind fun _ => (Read.refines_le 4).bind
    fun _ => (Read.refines_le 2).bind fun _ => refines_recordAnswers.bind fun _ =>
      (refines_recordWire key).bind fun wire => (refines_recordTtlOffsets wire.length).bind
        fun _ => Read.refines_pure _

/-- Magic number, time of day and number of records. -/
def DnsCache.readHeader : Read (UInt64 × Nat) := do
  let magic ← .take snapshotMagic.length
  if magic ≠ snapshotMagic then .halt .cut
  else do
    let unix ← .le 8
    let count ← .le 4
    pure (.ofNat unix, count)

theorem refines_readHeader :
    Read.Refines DnsCache.readHeader fun data =>
      (readHead data).map fun h => ((h.1, h.2.1), h.2.2) := by
  have hread : Read.Refines DnsCache.readHeader fun data =>
      (takeBytes snapshotMagic.length data).bind fun p =>
        if p.1 ≠ snapshotMagic then none
        else (readLe 8 p.2).bind fun q => (readLe 4 q.2).bind fun s =>
          some ((UInt64.ofNat q.1, s.1), s.2) :=
    (Read.refines_take _).bind fun magic => Read.refines_ite (fun _ => Read.refines_cut) fun _ =>
      (Read.refines_le 8).bind fun unix => (Read.refines_le 4).bind fun count =>
        Read.refines_pure (UInt64.ofNat unix, count)
  refine hread.congr fun data => ?_
  unfold readHead
  cases takeBytes snapshotMagic.length data with
  | none => rfl
  | some p =>
      obtain ⟨magic, rest⟩ := p
      simp only [Option.bind_eq_bind, Option.bind_some]
      split_ifs
      · rfl
      · cases readLe 8 rest with
        | none => rfl
        | some q =>
            simp only [Option.bind_some]
            cases readLe 4 q.2 <;> rfl

/-! ## The loop -/

/-- The cache, what is returned, the cursor at the end, and whether the program ended. -/
structure ImportResult where
  cache : DnsCache
  restored : Nat
  reader : Cursor
  panicked : Bool

/-- The entry of a record, unless it has expired or is older than the clock can say. -/
def restoredFrom (staleMaxAge : UInt32) (now elapsed : Nat) (parsed : ParsedEntry) :
    Option (QueryKey × Entry) :=
  let totalAge := parsed.age.toNat + elapsed
  if parsed.ttl.toNat + staleMaxAge.toNat ≤ totalAge then none
  else if now < totalAge * nanosPerSec then none
  else some (parsed.key, ⟨parsed.stored, now - totalAge * nanosPerSec, parsed.ttl, none⟩)

/-- Every record is read, checked and put; the age is a sum of 64 bits. -/
def importLoop (staleMaxAge : UInt32) (now elapsed : Nat) :
    Nat → DnsCache → Nat → Cursor → ImportResult
  | 0, c, restored, r => ⟨c, restored, r, false⟩
  | n + 1, c, restored, r =>
      match DnsCache.readRecord r with
      | (.error .cut, r) => ⟨c, restored, r, false⟩
      | (.error .panic, r) => ⟨c, restored, r, true⟩
      | (.ok parsed, r) =>
          if 2 ^ 64 ≤ parsed.age.toNat + elapsed then ⟨c, restored, r, true⟩
          else
            match restoredFrom staleMaxAge now elapsed parsed with
            | none => importLoop staleMaxAge now elapsed n c restored r
            | some e => importLoop staleMaxAge now elapsed n (c.install e) (restored + 1) r

def DnsCache.runImport (c : DnsCache) (now : Nat) (unix : UInt64) (data : Bytes) : ImportResult :=
  match DnsCache.readHeader (.start data) with
  | (.error .cut, r) => ⟨c, 0, r, false⟩
  | (.error .panic, r) => ⟨c, 0, r, true⟩
  | (.ok (saved, count), r) =>
      importLoop c.cfg.staleMaxAge now (unix.toNat - saved.toNat) count c 0 r

/-! ## What is installed -/

/-- The entries that an import installs, in order. -/
def DnsCache.installs (c : DnsCache) (now : Nat) (unix : UInt64) (data : Bytes) :
    List (QueryKey × Entry) :=
  match readHead data with
  | none => []
  | some (saved, count, data) =>
      (readEntries count data).filterMap
        (restoredFrom c.cfg.staleMaxAge now (unix.toNat - saved.toNat))

theorem restore_eq (c : DnsCache) (now elapsed : Nat) (parsed : ParsedEntry) :
    c.restore now elapsed parsed =
      match restoredFrom c.cfg.staleMaxAge now elapsed parsed with
      | none => c
      | some e => c.install e := by
  unfold DnsCache.restore restoredFrom
  dsimp only
  split_ifs <;> rfl

theorem restoreAll_eq (now elapsed n : Nat) (c : DnsCache) (data : Bytes) :
    c.restoreAll now elapsed n data =
      ((readEntries n data).filterMap (restoredFrom c.cfg.staleMaxAge now elapsed)).foldl
        DnsCache.install c := by
  induction n generalizing c data with
  | zero => rfl
  | succ n ih =>
      unfold DnsCache.restoreAll readEntries
      cases readEntry data with
      | none => rfl
      | some found =>
          obtain ⟨parsed, rest⟩ := found
          dsimp only
          rw [ih, restore_eq, List.filterMap_cons]
          cases restoredFrom c.cfg.staleMaxAge now elapsed parsed <;> rfl

theorem importSnapshot_eq (c : DnsCache) (now : Nat) (unix : UInt64) (data : Bytes) :
    c.importSnapshot now unix data = (c.installs now unix data).foldl DnsCache.install c := by
  unfold DnsCache.importSnapshot DnsCache.installs
  cases readHead data with
  | none => rfl
  | some head => exact restoreAll_eq ..

/-- The loop reads inside the buffer and installs what the records restore. -/
theorem importLoop_eq {staleMaxAge : UInt32} {now elapsed : Nat} (hclock : elapsed < 2 ^ 63)
    (n : Nat) (c : DnsCache) (restored : Nat) {r : Cursor} (hr : r.Inside) :
    let entries := (readEntries n r.rest).filterMap (restoredFrom staleMaxAge now elapsed)
    let result := importLoop staleMaxAge now elapsed n c restored r
    result.cache = entries.foldl DnsCache.install c ∧
      result.restored = restored + entries.length ∧ result.reader.Inside ∧
      result.reader.data = r.data ∧ result.panicked = false := by
  induction n generalizing c restored r with
  | zero => exact ⟨rfl, rfl, hr, rfl, rfl⟩
  | succ n ih =>
      obtain ⟨hinside, hdata, hresult⟩ := refines_readRecord r hr
      unfold importLoop readEntries
      generalize DnsCache.readRecord r = out at hinside hdata hresult ⊢
      obtain ⟨result, r'⟩ := out
      cases hread : readEntry r.rest with
      | none =>
          rw [hread] at hresult
          obtain rfl : result = .error .cut := hresult
          exact ⟨rfl, rfl, hinside, hdata, rfl⟩
      | some found =>
          obtain ⟨parsed, rest⟩ := found
          rw [hread] at hresult
          obtain ⟨heq, hrest⟩ := hresult
          obtain rfl : result = .ok parsed := heq
          obtain rfl : r'.rest = rest := hrest
          have hage := parsed.age.toNat_lt
          dsimp only
          rw [if_neg (by omega), List.filterMap_cons]
          cases restoredFrom staleMaxAge now elapsed parsed with
          | none =>
              obtain ⟨hcache, hcount, hin, hsame, hpanic⟩ := ih c restored hinside
              exact ⟨hcache, hcount, hin, hsame.trans hdata, hpanic⟩
          | some e =>
              obtain ⟨hcache, hcount, hin, hsame, hpanic⟩ := ih (c.install e) (restored + 1) hinside
              refine ⟨hcache, ?_, hin, hsame.trans hdata, hpanic⟩
              dsimp only at hcount ⊢
              rw [hcount, List.length_cons]
              omega

theorem runImport_eq (c : DnsCache) (now : Nat) {unix : UInt64} (hclock : unix.toNat < 2 ^ 63)
    (data : Bytes) :
    let result := c.runImport now unix data
    result.cache = (c.installs now unix data).foldl DnsCache.install c ∧
      result.restored = (c.installs now unix data).length ∧ result.reader.Inside ∧
      result.reader.data = data ∧ result.panicked = false := by
  obtain ⟨hinside, hdata, hresult⟩ := refines_readHeader (.start data) (Cursor.inside_start data)
  unfold DnsCache.runImport DnsCache.installs
  generalize DnsCache.readHeader (.start data) = out at hinside hdata hresult ⊢
  obtain ⟨result, r⟩ := out
  have hstart : (Cursor.start data).rest = data := rfl
  rw [hstart] at hresult
  beta_reduce at hresult
  cases hhead : readHead data with
  | none =>
      rw [hhead] at hresult
      obtain rfl : result = .error .cut := hresult
      exact ⟨rfl, rfl, hinside, hdata, rfl⟩
  | some head =>
      obtain ⟨saved, count, rest⟩ := head
      rw [hhead] at hresult
      obtain ⟨heq, hrest⟩ := hresult
      obtain rfl : result = .ok (saved, count) := heq
      obtain rfl : r.rest = rest := hrest
      have helapsed : unix.toNat - saved.toNat < 2 ^ 63 := by omega
      obtain ⟨hcache, hcount, hin, hsame, hpanic⟩ :=
        @importLoop_eq c.cfg.staleMaxAge now _ helapsed count c 0 _ hinside
      exact ⟨hcache, hcount.trans (Nat.zero_add _), hin, hsame.trans hdata, hpanic⟩

/-! ## What may be installed -/

/-- The bytes decode to a message whose first question is the key. -/
def QuestionIs (bytes : Bytes) (key : QueryKey) : Prop :=
  ∃ msg q, decode bytes = some msg ∧ msg.queries.head? = some q ∧ q.queryType = key.rtype ∧
    q.queryClass = key.dnsClass ∧
    toAsciiLowercase (nameToAscii q.name) = toAsciiLowercase key.name

theorem answersKey_of_wireMatchesKey {bytes : Bytes} {key : QueryKey}
    (h : wireMatchesKey bytes key = true) : QuestionIs bytes key := by
  unfold wireMatchesKey at h
  cases hdecode : decode bytes with
  | none => simp [hdecode] at h
  | some msg =>
      rw [hdecode] at h
      dsimp only at h
      cases hq : msg.queries.head? with
      | none => simp [hq] at h
      | some q =>
          simp only [hq, Option.any_some, Bool.and_eq_true, decide_eq_true_eq] at h
          exact ⟨msg, q, hdecode, hq, h.1.1, h.1.2, h.2⟩

theorem offsets_of_readEntry {data rest : Bytes} {parsed : ParsedEntry}
    (h : readEntry data = some (parsed, rest)) {bytes : Bytes} {offsets : List UInt32}
    {rcode : UInt16} {answers : List Text}
    (hstored : parsed.stored = .wire bytes offsets rcode answers) :
    ∀ o ∈ offsets, o.toNat + 4 ≤ bytes.length := by
  simp only [readEntry, Option.bind_eq_bind, Option.bind_eq_some_iff, Option.some.injEq,
    Prod.exists, Prod.mk.injEq] at h
  obtain ⟨_, _, -, _, _, -, _, _, -, _, _, -, _, _, -, _, _, -, found, _, hread, rfl, -⟩ := h
  cases hstored
  simp only [readTtlOffsets, Option.bind_eq_bind, Option.bind_eq_some_iff, Prod.exists] at hread
  obtain ⟨count, _, -, hread⟩ := hread
  split at hread
  · cases hread
  simp only [Option.bind_eq_some_iff, Prod.exists] at hread
  obtain ⟨os, _, -, hread⟩ := hread
  split at hread
  · cases hread
  · rename_i hinside
    cases hread
    simpa using hinside

structure Installable (staleMaxAge : UInt32) (now : Nat) (key : QueryKey) (entry : Entry) :
    Prop where
  wire : ∃ bytes offsets rcode answers, entry.stored = .wire bytes offsets rcode answers ∧
    QuestionIs bytes key ∧ ∀ o ∈ offsets, o.toNat + 4 ≤ bytes.length
  live : (entry.ageSecs now).toNat < entry.ttl.toNat + staleMaxAge.toNat

theorem live_of_restoredFrom {staleMaxAge : UInt32} {now elapsed : Nat} {parsed : ParsedEntry}
    {key : QueryKey} {entry : Entry}
    (h : restoredFrom staleMaxAge now elapsed parsed = some (key, entry)) :
    key = parsed.key ∧ entry.stored = parsed.stored ∧
      (entry.ageSecs now).toNat < entry.ttl.toNat + staleMaxAge.toNat := by
  unfold restoredFrom at h
  dsimp only at h
  split_ifs at h with hexpired hclock
  cases h
  refine ⟨rfl, rfl, ?_⟩
  have hage := ageSecs_le
    ⟨parsed.stored, now - (parsed.age.toNat + elapsed) * nanosPerSec, parsed.ttl, none⟩ now
  dsimp only at hage ⊢
  have hsecs : now - (now - (parsed.age.toNat + elapsed) * nanosPerSec) =
      (parsed.age.toNat + elapsed) * nanosPerSec := by omega
  rw [hsecs] at hage
  have := Nat.le_of_mul_le_mul_right hage (by decide)
  omega

theorem installable_of_installs {c : DnsCache} {now : Nat} {unix : UInt64} {data : Bytes}
    {e : QueryKey × Entry} (h : e ∈ c.installs now unix data) :
    Installable c.cfg.staleMaxAge now e.1 e.2 := by
  unfold DnsCache.installs at h
  split at h
  · cases h
  obtain ⟨parsed, hmem, hrestored⟩ := List.mem_filterMap.mp h
  obtain ⟨_, _, hread⟩ := readEntry_of_mem hmem
  obtain ⟨bytes, offsets, rcode, answers, hstored, hmatch, -⟩ := wire_of_readEntry hread
  obtain ⟨hkey, hsame, hlive⟩ := live_of_restoredFrom hrestored
  refine ⟨⟨bytes, offsets, rcode, answers, hsame.trans hstored, ?_,
    offsets_of_readEntry hread hstored⟩, hlive⟩
  rw [hkey]
  exact answersKey_of_wireMatchesKey hmatch

/-! ## What stays -/

theorem keepsApart_installAll {p : QueryKey → Bool} (c : DnsCache) {es : List (QueryKey × Entry)}
    (h : ∀ e ∈ es, p e.1 = true) (i : Nat) :
    Lru.KeepsApart p (c.shards i) ((es.foldl DnsCache.install c).shards i) := by
  induction es using List.reverseRecOn with
  | nil => exact .refl p _
  | append_singleton es e ih =>
      have hkept := ih fun e' he' => h e' (List.mem_append_left _ he')
      rw [List.foldl_append, List.foldl_cons, List.foldl_nil]
      change Lru.KeepsApart p (c.shards i) (Function.update (es.foldl DnsCache.install c).shards
        _ _ i)
      rw [Function.update_apply]
      split
      · rename_i hi
        subst hi
        exact hkept.put (h e (by simp)) e.2
      · exact hkept

/-- The keys of the entries that an import installs. -/
def DnsCache.installedKeys (c : DnsCache) (now : Nat) (unix : UInt64) (data : Bytes) :
    List QueryKey :=
  (c.installs now unix data).map Prod.fst

/-- Importing any bytes at all ends, reads inside them and installs what may be installed;
the other keys change only by being pushed out. -/
theorem import_safe (c : DnsCache) (now : Nat) (unix : UInt64) (hclock : unix.toNat < 2 ^ 63)
    (data : Bytes) :
    let result := c.runImport now unix data
    let installs := c.installs now unix data
    result.panicked = false ∧
      (result.reader.data = data ∧
        ∀ span ∈ result.reader.spans, span.1 ≤ span.2 ∧ span.2 ≤ data.length) ∧
      result.cache = c.importSnapshot now unix data ∧
      result.cache = installs.foldl DnsCache.install c ∧ result.restored = installs.length ∧
      (∀ e ∈ installs, Installable c.cfg.staleMaxAge now e.1 e.2) ∧
      ∀ i, Lru.KeepsApart (fun k => k ∈ c.installedKeys now unix data) (c.shards i)
        (result.cache.shards i) := by
  intro result installs
  obtain ⟨hcache, hcount, hinside, hdata, hpanic⟩ := runImport_eq c now hclock data
  refine ⟨hpanic, ⟨hdata, ?_⟩, hcache.trans (importSnapshot_eq c now unix data).symm, hcache,
    hcount, fun e he => installable_of_installs he, fun i => ?_⟩
  · have hspans := hinside.spans
    rw [hdata] at hspans
    exact hspans
  · rw [hcache]
    refine keepsApart_installAll c (fun e he => ?_) i
    exact decide_eq_true (List.mem_map_of_mem he)

theorem import_aliasWorld :
    let t := DnsCache.new 4 (fun _ => 1) 100 0 0 10
    let data := aliasWorld.cache.exportSnapshot aliasWorld.now 77
    let result := t.runImport aliasWorld.now 77 data
    (77 : UInt64).toNat < 2 ^ 63 ∧ result.panicked = false ∧ result.restored = 1 := by
  intro t data result
  obtain ⟨hpanic, -, -, -, hcount, -⟩ := import_safe t aliasWorld.now 77 (by decide) data
  have hinstalls : (t.installs aliasWorld.now 77 data).length = 1 := by decide +kernel
  exact ⟨by decide, hpanic, hcount.trans hinstalls⟩

end Bulwark.Engine
