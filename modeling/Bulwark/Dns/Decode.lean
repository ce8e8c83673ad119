import Bulwark.Dns.Message

/-!
# Reading messages

A decoder for the message format of RFC 1035 with the EDNS record of RFC 6891.
It stands for the library the resolver uses.  Everything it reads keeps its place
in the buffer, so that the layout of a message can be compared with what scanners
of the raw bytes find.
-/

namespace Bulwark.Dns

open Bulwark.Foundation

/-! ## Names -/

/--
The labels from `pos` on, and the position after them.  A pointer leads to before
`start`, where the labels it was found in begin, and what it leads to has to end
there; `limit` is that end.  Each step reads a position not read before, so that
`start + (limit - pos) + 1` steps are enough.
-/
def readNameFrom (buf : Bytes) : Nat → Nat → Nat → Nat → Option (Name × Nat)
  | 0, _, _, _ => none
  | fuel + 1, limit, start, pos =>
      if limit ≤ pos then none
      else
        match buf[pos]? with
        | none => none
        | some b =>
            if b = 0 then some ([], pos + 1)
            else if b < 64 then do
              let label ← slice buf (pos + 1) b.toNat
              let (name, stop) ← readNameFrom buf fuel limit start (pos + 1 + b.toNat)
              some (label :: name, stop)
            else if 192 ≤ b then do
              let lo ← buf[pos + 1]?
              let target := b.toNat % 64 * 256 + lo.toNat
              if target < start then do
                let (name, _) ← readNameFrom buf fuel start target target
                some (name, pos + 2)
              else none
            else none

def readName (buf : Bytes) (pos : Nat) : Option (Name × Nat) := do
  let (name, stop) ← readNameFrom buf (buf.length + 1) buf.length pos pos
  if wireLen name ≤ 255 then some (name, stop) else none

/-- The positions `readNameFrom` looks at. -/
def nameReadsFrom (buf : Bytes) : Nat → Nat → Nat → Nat → List Nat
  | 0, _, _, _ => []
  | fuel + 1, limit, start, pos =>
      if limit ≤ pos then []
      else
        match buf[pos]? with
        | none => [pos]
        | some b =>
            if b = 0 then [pos]
            else if b < 64 then
              pos :: (List.range' (pos + 1) b.toNat ++
                nameReadsFrom buf fuel limit start (pos + 1 + b.toNat))
            else if 192 ≤ b then
              match buf[pos + 1]? with
              | none => [pos, pos + 1]
              | some lo =>
                  let target := b.toNat % 64 * 256 + lo.toNat
                  pos :: (pos + 1) ::
                    if target < start then nameReadsFrom buf fuel start target target
                    else []
            else [pos]

def nameReads (buf : Bytes) (pos : Nat) : List Nat :=
  nameReadsFrom buf (buf.length + 1) buf.length pos pos

/-- A name is read from the positions it looks at and no others. -/
theorem readNameFrom_congr {buf buf' : Bytes} {fuel limit start pos : Nat}
    (hlen : buf'.length = buf.length)
    (h : ∀ p ∈ nameReadsFrom buf fuel limit start pos, buf'[p]? = buf[p]?) :
    readNameFrom buf' fuel limit start pos = readNameFrom buf fuel limit start pos := by
  induction fuel generalizing limit start pos with
  | zero => rfl
  | succ fuel ih =>
      rw [nameReadsFrom] at h
      rw [readNameFrom, readNameFrom]
      split
      · rfl
      · rename_i hpos
        rw [if_neg hpos] at h
        cases hb : buf[pos]? with
        | none =>
            rw [hb] at h
            rw [h pos (List.mem_singleton_self _), hb]
        | some b =>
            rw [hb] at h
            dsimp only at h
            have hhere : buf'[pos]? = some b := by
              rw [← hb]
              apply h
              split_ifs
              · exact List.mem_singleton_self _
              · exact List.mem_cons_self
              · split <;> exact List.mem_cons_self
              · exact List.mem_singleton_self _
            rw [hhere]
            dsimp only
            split
            · rfl
            · rename_i hzero
              rw [if_neg hzero] at h
              split
              · rename_i hlabel
                rw [if_pos hlabel] at h
                have hslice : slice buf' (pos + 1) b.toNat = slice buf (pos + 1) b.toNat := by
                  apply slice_congr hlen
                  intro p hlo hhi
                  apply h
                  apply List.mem_cons_of_mem
                  apply List.mem_append_left
                  rw [List.mem_range'_1]
                  omega
                rw [hslice, ih]
                intro p hp
                exact h p (List.mem_cons_of_mem _ (List.mem_append_right _ hp))
              · rename_i hlabel
                rw [if_neg hlabel] at h
                split
                · rename_i hpointer
                  rw [if_pos hpointer] at h
                  cases hlo : buf[pos + 1]? with
                  | none =>
                      rw [hlo] at h
                      rw [h (pos + 1) (by simp), hlo]
                      rfl
                  | some lo =>
                      rw [hlo] at h
                      dsimp only at h
                      rw [h (pos + 1) (by simp), hlo]
                      simp only [Option.bind_eq_bind, Option.bind_some]
                      split
                      · rename_i htarget
                        rw [ih]
                        intro p hp
                        apply h
                        rw [if_pos htarget]
                        exact List.mem_cons_of_mem _ (List.mem_cons_of_mem _ hp)
                      · rfl
                · rfl

theorem readName_congr {buf buf' : Bytes} {pos : Nat} (hlen : buf'.length = buf.length)
    (h : ∀ p ∈ nameReads buf pos, buf'[p]? = buf[p]?) : readName buf' pos = readName buf pos := by
  rw [readName, readName, hlen, readNameFrom_congr hlen h]

/-! ## Record data -/

inductive Part where
  | name
  | bytes (n : Nat)
  | rest
  deriving DecidableEq, Repr

/-- Where the data of the RFC 1035 types has names; other types are plain bytes. -/
def dataShape (recordType : UInt16) : List Part :=
  if recordType ∈ [2, 3, 4, 5, 7, 8, 9, 12] then [.name]
  else if recordType = typeSoa then [.name, .name, .bytes 20]
  else if recordType = 14 then [.name, .name]
  else if recordType = 15 then [.bytes 2, .name]
  else [.rest]

structure Piece where
  start : Nat
  stop : Nat
  field : Field
  deriving DecidableEq, Repr

def readPieces (buf : Bytes) : List Part → Nat → Nat → Option (List Piece)
  | [], pos, stop => if pos = stop then some [] else none
  | .name :: parts, pos, stop => do
      let (name, next) ← readName buf pos
      if next ≤ stop then do
        let pieces ← readPieces buf parts next stop
        some (⟨pos, next, .name name⟩ :: pieces)
      else none
  | .bytes n :: parts, pos, stop =>
      if pos + n ≤ stop then do
        let bytes ← slice buf pos n
        let pieces ← readPieces buf parts (pos + n) stop
        some (⟨pos, pos + n, .raw bytes⟩ :: pieces)
      else none
  | .rest :: _, pos, stop =>
      if pos ≤ stop then do
        let bytes ← slice buf pos (stop - pos)
        some [⟨pos, stop, .raw bytes⟩]
      else none

/-! ## Records and questions -/

/-- A record at its place; `fixed` is where its type, class and TTL begin. -/
structure Slot where
  start : Nat
  fixed : Nat
  stop : Nat
  name : Name
  recordType : UInt16
  dnsClass : UInt16
  ttl : UInt32
  pieces : List Piece
  deriving DecidableEq, Repr

def Slot.isOpt (slot : Slot) : Bool := slot.recordType = typeOpt

def Slot.record (slot : Slot) : Record :=
  ⟨slot.name, slot.recordType, slot.dnsClass, slot.ttl, slot.pieces.map (·.field)⟩

def readRecord (buf : Bytes) (pos : Nat) : Option Slot := do
  let (name, fixed) ← readName buf pos
  let recordType ← u16At buf fixed
  let dnsClass ← u16At buf (fixed + 2)
  let ttl ← u32At buf (fixed + 4)
  let len ← u16At buf (fixed + 8)
  let stop := fixed + 10 + len.toNat
  if stop ≤ buf.length then do
    let pieces ← readPieces buf (dataShape recordType) (fixed + 10) stop
    some ⟨pos, fixed, stop, name, recordType, dnsClass, ttl, pieces⟩
  else none

def readRecords (buf : Bytes) : Nat → Nat → Option (List Slot)
  | 0, _ => some []
  | n + 1, pos => do
      let slot ← readRecord buf pos
      let slots ← readRecords buf n slot.stop
      some (slot :: slots)

/-- A question at its place; `fixed` is where its type begins. -/
structure QuestionSlot where
  start : Nat
  fixed : Nat
  query : Query
  deriving DecidableEq, Repr

def readQuestion (buf : Bytes) (pos : Nat) : Option QuestionSlot := do
  let (name, fixed) ← readName buf pos
  let queryType ← u16At buf fixed
  let queryClass ← u16At buf (fixed + 2)
  some ⟨pos, fixed, ⟨name, queryType, queryClass⟩⟩

def readQuestions (buf : Bytes) : Nat → Nat → Option (List QuestionSlot × Nat)
  | 0, pos => some ([], pos)
  | n + 1, pos => do
      let question ← readQuestion buf pos
      let (questions, stop) ← readQuestions buf n (question.fixed + 4)
      some (question :: questions, stop)

/-! ## Messages -/

structure Header where
  id : UInt16
  flags : UInt8 × UInt8
  questions : UInt16
  answers : UInt16
  authorities : UInt16
  additionals : UInt16
  deriving DecidableEq, Repr

def readHeader (buf : Bytes) : Option Header := do
  let id ← u16At buf 0
  let hi ← buf[2]?
  let lo ← buf[3]?
  let questions ← u16At buf 4
  let answers ← u16At buf 6
  let authorities ← u16At buf 8
  let additionals ← u16At buf 10
  some ⟨id, (hi, lo), questions, answers, authorities, additionals⟩

def Header.records (h : Header) : Nat :=
  h.answers.toNat + h.authorities.toNat + h.additionals.toNat

structure Layout where
  header : Header
  questions : List QuestionSlot
  records : Nat
  slots : List Slot
  deriving DecidableEq, Repr

def readLayout (buf : Bytes) : Option Layout := do
  let header ← readHeader buf
  let (questions, pos) ← readQuestions buf header.questions.toNat 12
  let slots ← readRecords buf header.records pos
  some ⟨header, questions, pos, slots⟩

def bit (b : UInt8) (n : Nat) : Bool := b.toNat / 2 ^ n % 2 = 1

/-- RFC 6891: the class is the payload size, the TTL the extended flags. -/
def ednsOf (opt : Slot) : Edns where
  maxPayload := if opt.dnsClass < 512 then 512 else opt.dnsClass
  rcodeHigh := UInt8.ofNat (opt.ttl.toNat / 2 ^ 24)
  version := UInt8.ofNat (opt.ttl.toNat / 2 ^ 16)
  flags := UInt16.ofNat opt.ttl.toNat
  options := opt.pieces.map (·.field)

def metadataOf (h : Header) (edns : Option Edns) : Metadata where
  id := h.id
  isResponse := bit h.flags.1 7
  opCode := UInt8.ofNat (h.flags.1.toNat / 8 % 16)
  authoritative := bit h.flags.1 2
  truncation := bit h.flags.1 1
  recursionDesired := bit h.flags.1 0
  recursionAvailable := bit h.flags.2 7
  authenticData := bit h.flags.2 5
  checkingDisabled := bit h.flags.2 4
  responseCode :=
    UInt16.ofNat ((edns.elim 0 (·.rcodeHigh.toNat)) * 16 + h.flags.2.toNat % 16)

/-- At most one EDNS record, owned by the root, among the additional records only. -/
def messageOf (layout : Layout) : Option Message :=
  let h := layout.header
  let answers := layout.slots.take h.answers.toNat
  let authorities := (layout.slots.drop h.answers.toNat).take h.authorities.toNat
  let additionals := layout.slots.drop (h.answers.toNat + h.authorities.toNat)
  let message (edns : Option Edns) : Message :=
    { metadata := metadataOf h edns
      queries := layout.questions.map (·.query)
      answers := answers.map Slot.record
      authorities := authorities.map Slot.record
      additionals := (additionals.filter (!·.isOpt)).map Slot.record
      edns := edns }
  if (answers ++ authorities).any Slot.isOpt then none
  else
    match additionals.filter Slot.isOpt with
    | [] => some (message none)
    | [opt] => if opt.name = [] then some (message (some (ednsOf opt))) else none
    | _ => none

/-- `Message::from_vec`; what follows the message is ignored. -/
def decode (buf : Bytes) : Option Message := (readLayout buf).bind messageOf

def nameSpans (layout : Layout) : List (Nat × Nat) :=
  layout.questions.map (fun q => (q.start, q.fixed)) ++
    layout.slots.flatMap fun slot => (slot.start, slot.fixed) ::
      slot.pieces.filterMap fun piece =>
        match piece.field with
        | .name _ => some (piece.start, piece.stop)
        | .raw _ => none

/-- Compression pointers lead to bytes of names only. -/
def PointersTargetNames (buf : Bytes) : Prop :=
  ∀ layout, readLayout buf = some layout → ∀ span ∈ nameSpans layout,
    ∀ p ∈ nameReads buf span.1, ∃ target ∈ nameSpans layout, target.1 ≤ p ∧ p < target.2

def checkPointers (buf : Bytes) : Bool :=
  (readLayout buf).all fun layout => (nameSpans layout).all fun span =>
    (nameReads buf span.1).all fun p =>
      (nameSpans layout).any fun target => target.1 ≤ p && p < target.2

theorem pointersTargetNames_of_check {buf : Bytes} (h : checkPointers buf = true) :
    PointersTargetNames buf := by
  intro layout hlayout span hspan p hp
  rw [checkPointers, hlayout, Option.all_some] at h
  have hany := List.all_eq_true.mp (List.all_eq_true.mp h span hspan) p hp
  obtain ⟨target, htarget, hin⟩ := List.any_eq_true.mp hany
  simp only [Bool.and_eq_true, decide_eq_true_eq] at hin
  exact ⟨target, htarget, hin⟩

/--
An encoder for the format: what it writes is read back, its pointers are harmless,
and a message fits into the 16-bit length it is sent with.
-/
structure Codec where
  encode : Message → Option Bytes
  decode_encode : ∀ msg bytes, encode msg = some bytes → decode bytes = some msg
  pointers : ∀ msg bytes, encode msg = some bytes → PointersTargetNames bytes
  length_le : ∀ msg bytes, encode msg = some bytes → bytes.length ≤ 65535

def Codec.single (msg : Message) (bytes : Bytes) (hdecode : decode bytes = some msg)
    (hcheck : checkPointers bytes = true) (hlen : bytes.length ≤ 65535) : Codec where
  encode m := if m = msg then some bytes else none
  decode_encode m bytes' h := by
    split at h
    · rename_i hm
      cases h
      rw [hm, hdecode]
    · cases h
  pointers m bytes' h := by
    split at h
    · cases h
      exact pointersTargetNames_of_check hcheck
    · cases h
  length_le m bytes' h := by
    split at h
    · cases h
      exact hlen
    · cases h

/-! ## What was read where -/

inductive NameStep (buf : Bytes) (fuel limit start pos : Nat) : Name → Nat → Prop where
  | root {b : UInt8} (hb : buf[pos]? = some b) (hzero : b = 0) :
      NameStep buf fuel limit start pos [] (pos + 1)
  | label {b : UInt8} {label : Label} {rest : Name} {stop : Nat} (hb : buf[pos]? = some b)
      (hzero : b ≠ 0) (hlabel : b < 64) (hslice : slice buf (pos + 1) b.toNat = some label)
      (hrest : readNameFrom buf fuel limit start (pos + 1 + b.toNat) = some (rest, stop)) :
      NameStep buf fuel limit start pos (label :: rest) stop
  | pointer {b lo : UInt8} {name : Name} {stop : Nat} (hb : buf[pos]? = some b) (hzero : b ≠ 0)
      (hlabel : ¬ b < 64) (hpointer : 192 ≤ b) (hlo : buf[pos + 1]? = some lo)
      (htarget : b.toNat % 64 * 256 + lo.toNat < start)
      (hrest : readNameFrom buf fuel start (b.toNat % 64 * 256 + lo.toNat)
        (b.toNat % 64 * 256 + lo.toNat) = some (name, stop)) :
      NameStep buf fuel limit start pos name (pos + 2)

theorem nameStep_of_read {buf : Bytes} {fuel limit start pos stop : Nat} {name : Name}
    (h : readNameFrom buf (fuel + 1) limit start pos = some (name, stop)) :
    pos < limit ∧ NameStep buf fuel limit start pos name stop := by
  rw [readNameFrom] at h
  split at h
  · cases h
  rename_i hpos
  refine ⟨Nat.lt_of_not_le hpos, ?_⟩
  split at h
  · cases h
  rename_i b hb
  split at h
  · rename_i hzero
    cases h
    exact .root hb hzero
  rename_i hzero
  split at h
  · rename_i hlabel
    simp only [Option.bind_eq_bind, Option.bind_eq_some_iff, Option.some.injEq,
      Prod.exists, Prod.mk.injEq] at h
    obtain ⟨label, hslice, rest, stop', hrest, rfl, rfl⟩ := h
    exact .label hb hzero hlabel hslice hrest
  rename_i hlabel
  split at h
  · rename_i hpointer
    simp only [Option.bind_eq_bind, Option.bind_eq_some_iff] at h
    obtain ⟨lo, hlo, h⟩ := h
    split at h
    · rename_i htarget
      simp only [Option.bind_eq_some_iff, Option.some.injEq, Prod.exists,
        Prod.mk.injEq] at h
      obtain ⟨rest, stop', hrest, rfl, rfl⟩ := h
      exact .pointer hb hzero hlabel hpointer hlo htarget hrest
    · cases h
  · cases h

theorem readNameFrom_stop {buf : Bytes} {fuel limit start pos stop : Nat} {name : Name}
    (h : readNameFrom buf fuel limit start pos = some (name, stop)) :
    pos < stop ∧ stop ≤ buf.length := by
  induction fuel generalizing limit start pos name with
  | zero => cases h
  | succ fuel ih =>
      cases (nameStep_of_read h).2 with
      | root hb hzero =>
          exact ⟨Nat.lt_succ_self _, (List.getElem?_eq_some_iff.mp hb).1⟩
      | label hb hzero hlabel hslice hrest =>
          have hbounds := ih hrest
          omega
      | pointer hb hzero hlabel hpointer hlo htarget hrest =>
          have hnext := (List.getElem?_eq_some_iff.mp hlo).1
          omega

theorem readNameFrom_of_readName {buf : Bytes} {pos stop : Nat} {name : Name}
    (h : readName buf pos = some (name, stop)) :
    readNameFrom buf (buf.length + 1) buf.length pos pos = some (name, stop) := by
  simp only [readName, Option.bind_eq_bind, Option.bind_eq_some_iff, Prod.exists] at h
  obtain ⟨name', stop', hfrom, h⟩ := h
  split at h
  · cases h
    exact hfrom
  · cases h

theorem readName_stop {buf : Bytes} {pos stop : Nat} {name : Name}
    (h : readName buf pos = some (name, stop)) : pos < stop ∧ stop ≤ buf.length :=
  readNameFrom_stop (readNameFrom_of_readName h)

/-- What a name is read from lies before its end: pointers lead backwards. -/
theorem nameReadsFrom_lt {buf : Bytes} {fuel limit start pos stop : Nat} {name : Name}
    (h : readNameFrom buf fuel limit start pos = some (name, stop)) (hstart : start ≤ pos) :
    stop ≤ limit + 1 ∧ ∀ p ∈ nameReadsFrom buf fuel limit start pos, p < stop := by
  induction fuel generalizing limit start pos stop name with
  | zero => cases h
  | succ fuel ih =>
      obtain ⟨hpos, hname⟩ := nameStep_of_read h
      rw [nameReadsFrom, if_neg (Nat.not_le_of_lt hpos)]
      cases hname with
      | root hb hzero =>
          rw [hb]
          dsimp only
          rw [if_pos hzero]
          refine ⟨by omega, fun p hp => ?_⟩
          rw [List.mem_singleton.mp hp]
          omega
      | label hb hzero hlabel hslice hrest =>
          rw [hb]
          dsimp only
          rw [if_neg hzero, if_pos hlabel]
          obtain ⟨hlimit, hreads⟩ := ih hrest (by omega)
          have hnext := (readNameFrom_stop hrest).1
          refine ⟨hlimit, fun p hp => ?_⟩
          rcases List.mem_cons.mp hp with rfl | hp
          · omega
          rcases List.mem_append.mp hp with hp | hp
          · rw [List.mem_range'_1] at hp
            omega
          · exact hreads p hp
      | pointer hb hzero hlabel hpointer hlo htarget hrest =>
          rw [hb]
          dsimp only
          rw [if_neg hzero, if_neg hlabel, if_pos hpointer, hlo]
          dsimp only
          rw [if_pos htarget]
          obtain ⟨hlimit, hreads⟩ := ih hrest (Nat.le_refl _)
          refine ⟨by omega, fun p hp => ?_⟩
          rcases List.mem_cons.mp hp with rfl | hp
          · omega
          rcases List.mem_cons.mp hp with rfl | hp
          · omega
          · have := hreads p hp
            omega

theorem nameReads_lt {buf : Bytes} {pos stop : Nat} {name : Name}
    (h : readName buf pos = some (name, stop)) : ∀ p ∈ nameReads buf pos, p < stop :=
  (nameReadsFrom_lt (readNameFrom_of_readName h) (Nat.le_refl _)).2

theorem labels_of_readNameFrom {buf : Bytes} {fuel limit start pos stop : Nat} {name : Name}
    (h : readNameFrom buf fuel limit start pos = some (name, stop)) :
    ∀ label ∈ name, label ≠ [] := by
  induction fuel generalizing limit start pos stop name with
  | zero => cases h
  | succ fuel ih =>
      cases (nameStep_of_read h).2 with
      | root hb hzero => exact fun _ hmem => by cases hmem
      | label hb hzero hlabel hslice hrest =>
          intro label' hmem
          rcases List.mem_cons.mp hmem with rfl | hmem
          · intro hnil
            have hlen := length_of_slice hslice
            rw [hnil, List.length_nil] at hlen
            exact hzero (UInt8.toNat_inj.mp hlen.symm)
          · exact ih hrest label' hmem
      | pointer hb hzero hlabel hpointer hlo htarget hrest => exact ih hrest

theorem labels_of_readName {buf : Bytes} {pos stop : Nat} {name : Name}
    (h : readName buf pos = some (name, stop)) : ∀ label ∈ name, label ≠ [] :=
  labels_of_readNameFrom (readNameFrom_of_readName h)

theorem readPieces_bounds {buf : Bytes} {parts : List Part} {pos stop : Nat}
    {pieces : List Piece} (h : readPieces buf parts pos stop = some pieces) :
    ∀ piece ∈ pieces, pos ≤ piece.start ∧ piece.start ≤ piece.stop ∧ piece.stop ≤ stop := by
  induction parts generalizing pos pieces with
  | nil =>
      rw [readPieces] at h
      split at h
      · cases h
        simp
      · cases h
  | cons part parts ih =>
      cases part with
      | name =>
          simp only [readPieces, Option.bind_eq_bind, Option.bind_eq_some_iff,
            Prod.exists] at h
          obtain ⟨name, next, hname, h⟩ := h
          have hnext := (readName_stop hname).1
          split at h
          · simp only [Option.bind_eq_some_iff, Option.some.injEq] at h
            obtain ⟨rest, hrest, rfl⟩ := h
            intro piece hpiece
            rcases List.mem_cons.mp hpiece with rfl | hpiece
            · dsimp only
              omega
            · have := ih hrest piece hpiece
              omega
          · cases h
      | bytes n =>
          simp only [readPieces] at h
          split at h
          · simp only [Option.bind_eq_bind, Option.bind_eq_some_iff, Option.some.injEq] at h
            obtain ⟨bytes, -, rest, hrest, rfl⟩ := h
            intro piece hpiece
            rcases List.mem_cons.mp hpiece with rfl | hpiece
            · dsimp only
              omega
            · have := ih hrest piece hpiece
              omega
          · cases h
      | rest =>
          simp only [readPieces] at h
          split at h
          · simp only [Option.bind_eq_bind, Option.bind_eq_some_iff, Option.some.injEq] at h
            obtain ⟨bytes, -, rfl⟩ := h
            intro piece hpiece
            obtain rfl := List.mem_singleton.mp hpiece
            dsimp only
            omega
          · cases h

/-- The slot holds what the buffer says at its place. -/
structure ReadsRecord (buf : Bytes) (slot : Slot) : Prop where
  name : readName buf slot.start = some (slot.name, slot.fixed)
  recordType : u16At buf slot.fixed = some slot.recordType
  dnsClass : u16At buf (slot.fixed + 2) = some slot.dnsClass
  ttl : u32At buf (slot.fixed + 4) = some slot.ttl
  len : ∃ len, u16At buf (slot.fixed + 8) = some len ∧ slot.stop = slot.fixed + 10 + len.toNat
  bound : slot.stop ≤ buf.length
  pieces : readPieces buf (dataShape slot.recordType) (slot.fixed + 10) slot.stop =
    some slot.pieces

theorem readRecord_eq_some {buf : Bytes} {pos : Nat} {slot : Slot} :
    readRecord buf pos = some slot ↔ slot.start = pos ∧ ReadsRecord buf slot := by
  constructor
  · intro h
    simp only [readRecord, Option.bind_eq_bind, Option.bind_eq_some_iff, Prod.exists] at h
    obtain ⟨name, fixed, hname, rtype, htype, cls, hclass, ttl, httl, len, hlen, h⟩ := h
    split at h
    · rename_i hbound
      simp only [Option.bind_eq_some_iff, Option.some.injEq] at h
      obtain ⟨pieces, hpieces, rfl⟩ := h
      exact ⟨rfl, hname, htype, hclass, httl, ⟨len, hlen, rfl⟩, hbound, hpieces⟩
    · cases h
  · rintro ⟨rfl, hname, htype, hclass, httl, ⟨len, hlen, hstop⟩, hbound, hpieces⟩
    simp only [readRecord, hname, htype, hclass, httl, hlen, Option.bind_eq_bind,
      Option.bind_some]
    rw [← hstop, if_pos hbound, hpieces]
    rfl

theorem ReadsRecord.order {buf : Bytes} {slot : Slot} (h : ReadsRecord buf slot) :
    slot.start < slot.fixed ∧ slot.fixed + 10 ≤ slot.stop := by
  obtain ⟨len, -, hstop⟩ := h.len
  exact ⟨(readName_stop h.name).1, by omega⟩

/-- The slots stand one after the other from `pos` on. -/
def RecordsAt (buf : Bytes) : Nat → List Slot → Prop
  | _, [] => True
  | pos, slot :: slots =>
      slot.start = pos ∧ ReadsRecord buf slot ∧ RecordsAt buf slot.stop slots

theorem readRecords_eq_some {buf : Bytes} {n pos : Nat} {slots : List Slot} :
    readRecords buf n pos = some slots ↔ slots.length = n ∧ RecordsAt buf pos slots := by
  induction n generalizing pos slots with
  | zero =>
      rw [readRecords]
      cases slots <;> simp [RecordsAt]
  | succ n ih =>
      simp only [readRecords, Option.bind_eq_bind, Option.bind_eq_some_iff,
        Option.some.injEq, readRecord_eq_some]
      cases slots with
      | nil => simp
      | cons slot slots =>
          rw [RecordsAt, List.length_cons, Nat.succ_inj]
          constructor
          · rintro ⟨slot', ⟨hstart, hreads⟩, rest, hrest, heq⟩
            obtain ⟨rfl, rfl⟩ := List.cons.inj heq
            obtain ⟨hlen, hat⟩ := ih.mp hrest
            exact ⟨hlen, hstart, hreads, hat⟩
          · rintro ⟨hlen, hstart, hreads, hat⟩
            exact ⟨slot, ⟨hstart, hreads⟩, slots, ih.mpr ⟨hlen, hat⟩, rfl⟩

theorem RecordsAt.reads {buf : Bytes} {pos : Nat} {slots : List Slot}
    (h : RecordsAt buf pos slots) : ∀ slot ∈ slots, ReadsRecord buf slot ∧ pos ≤ slot.start := by
  induction slots generalizing pos with
  | nil => simp
  | cons first slots ih =>
      obtain ⟨hstart, hreads, hrest⟩ := h
      intro slot hslot
      rcases List.mem_cons.mp hslot with rfl | hslot
      · exact ⟨hreads, hstart.ge⟩
      · obtain ⟨hslot', hle⟩ := ih hrest slot hslot
        have := hreads.order
        exact ⟨hslot', by omega⟩

theorem RecordsAt.pairwise {buf : Bytes} {pos : Nat} {slots : List Slot}
    (h : RecordsAt buf pos slots) : slots.Pairwise fun a b => a.stop ≤ b.start := by
  induction slots generalizing pos with
  | nil => exact List.Pairwise.nil
  | cons first slots ih =>
      obtain ⟨-, -, hrest⟩ := h
      exact List.Pairwise.cons (fun slot hslot => (hrest.reads slot hslot).2) (ih hrest)

structure ReadsQuestion (buf : Bytes) (q : QuestionSlot) : Prop where
  name : readName buf q.start = some (q.query.name, q.fixed)
  queryType : u16At buf q.fixed = some q.query.queryType
  queryClass : u16At buf (q.fixed + 2) = some q.query.queryClass

/-- The questions stand one after the other from `pos` on and end at `stop`. -/
def QuestionsAt (buf : Bytes) : Nat → List QuestionSlot → Nat → Prop
  | pos, [], stop => stop = pos
  | pos, q :: qs, stop =>
      q.start = pos ∧ ReadsQuestion buf q ∧ QuestionsAt buf (q.fixed + 4) qs stop

theorem readQuestion_eq_some {buf : Bytes} {pos : Nat} {q : QuestionSlot} :
    readQuestion buf pos = some q ↔ q.start = pos ∧ ReadsQuestion buf q := by
  constructor
  · intro h
    simp only [readQuestion, Option.bind_eq_bind, Option.bind_eq_some_iff, Prod.exists,
      Option.some.injEq] at h
    obtain ⟨name, fixed, hname, qtype, htype, qclass, hclass, rfl⟩ := h
    exact ⟨rfl, hname, htype, hclass⟩
  · rintro ⟨rfl, hname, htype, hclass⟩
    simp only [readQuestion, hname, htype, hclass, Option.bind_eq_bind, Option.bind_some]

theorem readQuestions_eq_some {buf : Bytes} {n pos stop : Nat} {qs : List QuestionSlot} :
    readQuestions buf n pos = some (qs, stop) ↔
      qs.length = n ∧ QuestionsAt buf pos qs stop := by
  induction n generalizing pos qs with
  | zero =>
      rw [readQuestions]
      cases qs with
      | nil => simp [QuestionsAt, eq_comm]
      | cons q qs => simp
  | succ n ih =>
      simp only [readQuestions, Option.bind_eq_bind, Option.bind_eq_some_iff,
        Option.some.injEq, readQuestion_eq_some, Prod.exists, Prod.mk.injEq]
      cases qs with
      | nil => simp
      | cons q qs =>
          rw [QuestionsAt, List.length_cons, Nat.succ_inj]
          constructor
          · rintro ⟨q', ⟨hstart, hreads⟩, rest, stop', hrest, heq, rfl⟩
            obtain ⟨rfl, rfl⟩ := List.cons.inj heq
            obtain ⟨hlen, hat⟩ := ih.mp hrest
            exact ⟨hlen, hstart, hreads, hat⟩
          · rintro ⟨hlen, hstart, hreads, hat⟩
            exact ⟨q, ⟨hstart, hreads⟩, qs, stop, ih.mpr ⟨hlen, hat⟩, rfl, rfl⟩

theorem QuestionsAt.reads {buf : Bytes} {pos stop : Nat} {qs : List QuestionSlot}
    (h : QuestionsAt buf pos qs stop) :
    pos ≤ stop ∧ ∀ q ∈ qs, ReadsQuestion buf q ∧ pos ≤ q.start ∧ q.fixed + 4 ≤ stop := by
  induction qs generalizing pos with
  | nil =>
      cases h
      simp
  | cons first qs ih =>
      obtain ⟨hstart, hreads, hrest⟩ := h
      obtain ⟨hle, hall⟩ := ih hrest
      have hname := (readName_stop hreads.name).1
      refine ⟨by omega, fun q hq => ?_⟩
      rcases List.mem_cons.mp hq with rfl | hq
      · exact ⟨hreads, by omega, hle⟩
      · obtain ⟨hq', hstart', hstop⟩ := hall q hq
        exact ⟨hq', by omega, hstop⟩

end Bulwark.Dns
