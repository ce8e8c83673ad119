import Bulwark.Dns.Decode

/-!
# Wire parsing and patching

`wire.rs`: the scanner for TTL offsets, the in-place patch of cached responses,
and the reader for the common shape of queries.  Loops over names take the length
of the buffer as fuel; every label moves forward.
-/

namespace Bulwark.Engine

open Bulwark.Foundation Bulwark.Dns

/-! ## Scanning and patching -/

def skipNameFrom (buf : Bytes) : Nat → Nat → Option Nat
  | 0, _ => none
  | fuel + 1, pos =>
      match buf[pos]? with
      | none => none
      | some b =>
          if b &&& 0xC0 = 0 then
            if b = 0 then some (pos + 1) else skipNameFrom buf fuel (pos + 1 + b.toNat)
          else if b &&& 0xC0 = 0xC0 then some (pos + 2)
          else none

/-- The offset after a name, without following pointers. -/
def skipName (buf : Bytes) (pos : Nat) : Option Nat := skipNameFrom buf (buf.length + 1) pos

def skipQuestions (buf : Bytes) : Nat → Nat → Option Nat
  | 0, pos => some pos
  | n + 1, pos => do
      let pos ← skipName buf pos
      if buf.length < pos + 4 then none else skipQuestions buf n (pos + 4)

def scanRecords (buf : Bytes) : Nat → Nat → Option (List UInt32)
  | 0, _ => some []
  | n + 1, pos => do
      let pos ← skipName buf pos
      if buf.length < pos + 10 then none
      else do
        let rtype ← u16At buf pos
        let rdlen ← u16At buf (pos + 8)
        let next := pos + 10 + rdlen.toNat
        if buf.length < next then none
        else do
          let offsets ← scanRecords buf n next
          some (if rtype = typeOpt then offsets else UInt32.ofNat (pos + 4) :: offsets)

/-- Resource-record TTL offsets, without the EDNS record. -/
def scanTtlOffsets (buf : Bytes) : Option (List UInt32) :=
  if buf.length < 12 then none
  else do
    let qd ← u16At buf 4
    let an ← u16At buf 6
    let ns ← u16At buf 8
    let ar ← u16At buf 10
    let pos ← skipQuestions buf qd.toNat 12
    scanRecords buf (an.toNat + ns.toNat + ar.toNat) pos

def patch (buf : Bytes) (id : UInt16) (ttl : UInt32) (ttlOffsets : List UInt32) : Bytes :=
  let buf := if 2 ≤ buf.length then overwrite buf 0 (toBe16 id) else buf
  ttlOffsets.foldl (fun buf off => overwrite buf off.toNat (toBe32 ttl)) buf

/-! ## Queries -/

structure ParsedQuery where
  id : UInt16
  recursionDesired : Bool
  checkingDisabled : Bool
  opcode : UInt8
  /-- Dot-terminated question name in its wire case. -/
  qname : Text
  qtype : UInt16
  qclass : UInt16
  ednsPayload : Option UInt16
  dnssecOk : Bool
  deriving DecidableEq, Repr

def isSafeLabelByte (c : UInt8) (isFirst : Bool) : Bool :=
  (65 ≤ c && c ≤ 90) || (97 ≤ c && c ≤ 122) || (48 ≤ c && c ≤ 57) || c == 95 ||
    (c == 45 && !isFirst) || (c == 42 && isFirst)

def isSafeLabel : Label → Bool
  | [] => true
  | c :: cs => isSafeLabelByte c true && cs.all fun c => isSafeLabelByte c false

def readQuestionNameFrom (buf : Bytes) (start : Nat) : Nat → Text → Nat → Option (Text × Nat)
  | 0, _, _ => none
  | fuel + 1, name, pos =>
      match buf[pos]? with
      | none => none
      | some b =>
          if b &&& 0xC0 = 0 then
            if b = 0 then
              if 255 < pos + 1 - start then none
              else some (if name = [] then ['.'] else name, pos + 1)
            else do
              let label ← slice buf (pos + 1) b.toNat
              if isSafeLabel label then
                readQuestionNameFrom buf start fuel (name ++ label.map byteChar ++ ['.'])
                  (pos + 1 + b.toNat)
              else none
          else none

/-- A question name, when it can match the escaped representation. -/
def readQuestionName (buf : Bytes) (start : Nat) : Option (Text × Nat) :=
  readQuestionNameFrom buf start (buf.length + 1) [] start

/-- The EDNS fields among the records from index `idx` on. -/
def scanEdns (buf : Bytes) (additionalStart : Nat) :
    Nat → Nat → Nat → Option UInt16 → Bool → Option (Option UInt16 × Bool)
  | 0, _, _, payload, dnssecOk => some (payload, dnssecOk)
  | n + 1, idx, pos, payload, dnssecOk => do
      let pos ← skipName buf pos
      if buf.length < pos + 10 then none
      else do
        let rtype ← u16At buf pos
        let rdlen ← u16At buf (pos + 8)
        let next := pos + 10 + rdlen.toNat
        if rtype = typeOpt then
          if idx < additionalStart || payload.isSome then none
          else do
            let size ← u16At buf (pos + 2)
            let flags : UInt8 ← buf[pos + 6]?
            if buf.length < next then none
            else scanEdns buf additionalStart n (idx + 1) next (some size) (flags &&& 0x80 != 0)
        else if buf.length < next then none
        else scanEdns buf additionalStart n (idx + 1) next payload dnssecOk

/-- A strict subset of queries, for the hot path. -/
def parseQuery (buf : Bytes) : Option ParsedQuery :=
  if buf.length < 12 then none
  else do
    let id ← u16At buf 0
    let b2 : UInt8 ← buf[2]?
    let b3 : UInt8 ← buf[3]?
    let qd ← u16At buf 4
    let an ← u16At buf 6
    let ns ← u16At buf 8
    let ar ← u16At buf 10
    if qd ≠ 1 then none
    else do
      let (qname, pos) ← readQuestionName buf 12
      if buf.length < pos + 4 then none
      else do
        let qtype ← u16At buf pos
        let qclass ← u16At buf (pos + 2)
        let additionalStart := an.toNat + ns.toNat
        let (ednsPayload, dnssecOk) ←
          scanEdns buf additionalStart (additionalStart + ar.toNat) 0 (pos + 4) none false
        some
          { id := id
            recursionDesired := b2 &&& 0x01 != 0
            checkingDisabled := b3 &&& 0x10 != 0
            opcode := (b2 >>> 3) &&& 0x0F
            qname := qname
            qtype := qtype
            qclass := qclass
            ednsPayload := ednsPayload
            dnssecOk := dnssecOk }

/-! ## Length bytes -/

theorem label_iff (b : UInt8) : b &&& 0xC0 = 0 ↔ b < 64 := by
  revert b
  exact forall_byte (by decide +kernel)

theorem pointer_iff (b : UInt8) : b &&& 0xC0 = 0xC0 ↔ 192 ≤ b := by
  revert b
  exact forall_byte (by decide +kernel)

theorem skipNameFrom_of_readNameFrom {buf : Bytes} {fuel limit start pos stop : Nat}
    {name : Name} (h : readNameFrom buf fuel limit start pos = some (name, stop)) :
    skipNameFrom buf fuel pos = some stop := by
  induction fuel generalizing limit start pos name with
  | zero => cases h
  | succ fuel ih =>
      rw [skipNameFrom]
      cases (nameStep_of_read h).2 with
      | root hb hzero =>
          have hsmall : (0 : UInt8) < 64 := by decide
          rw [hb]
          dsimp only
          rw [hzero, if_pos ((label_iff 0).mpr hsmall), if_pos rfl]
      | @label b label rest _ hb hzero hlabel hslice hrest =>
          rw [hb]
          dsimp only
          rw [if_pos ((label_iff b).mpr hlabel), if_neg hzero]
          exact ih hrest
      | @pointer b lo _ stop' hb hzero hlabel hpointer hlo htarget hrest =>
          rw [hb]
          dsimp only
          rw [if_neg (mt (label_iff b).mp hlabel), if_pos ((pointer_iff b).mpr hpointer)]

theorem skipName_of_readName {buf : Bytes} {pos stop : Nat} {name : Name}
    (h : readName buf pos = some (name, stop)) : skipName buf pos = some stop :=
  skipNameFrom_of_readNameFrom (readNameFrom_of_readName h)

theorem u16At_bound {buf : Bytes} {pos : Nat} {x : UInt16} (h : u16At buf pos = some x) :
    pos + 2 ≤ buf.length := by
  simp only [u16At, Option.bind_eq_bind, Option.bind_eq_some_iff] at h
  obtain ⟨hi, -, lo, hlo, -⟩ := h
  have := (List.getElem?_eq_some_iff.mp hlo).1
  omega

theorem scanRecords_eq {buf : Bytes} {pos : Nat} {slots : List Slot}
    (h : RecordsAt buf pos slots) :
    scanRecords buf slots.length pos =
      some ((slots.filter (!·.isOpt)).map fun slot => UInt32.ofNat (slot.fixed + 4)) := by
  induction slots generalizing pos with
  | nil => rfl
  | cons slot slots ih =>
      obtain ⟨rfl, hreads, hrest⟩ := h
      obtain ⟨len, hlen, hstop⟩ := hreads.len
      have hbound := hreads.bound
      have hfixed : ¬ buf.length < slot.fixed + 10 := by omega
      have hnext : ¬ buf.length < slot.fixed + 10 + len.toNat := by omega
      rw [List.length_cons, scanRecords, skipName_of_readName hreads.name]
      simp only [Option.bind_eq_bind, Option.bind_some]
      rw [if_neg hfixed, hreads.recordType, hlen]
      simp only [Option.bind_some]
      rw [if_neg hnext, ← hstop, ih hrest]
      simp only [Option.bind_some]
      cases hopt : slot.isOpt with
      | true =>
          have htype : slot.recordType = typeOpt := by simpa [Slot.isOpt] using hopt
          rw [if_pos htype, List.filter_cons_of_neg (by simp [hopt])]
      | false =>
          have htype : slot.recordType ≠ typeOpt := by simpa [Slot.isOpt] using hopt
          rw [if_neg htype, List.filter_cons_of_pos (by simp [hopt]), List.map_cons]

theorem skipQuestions_eq {buf : Bytes} {pos stop : Nat} {qs : List QuestionSlot}
    (h : QuestionsAt buf pos qs stop) : skipQuestions buf qs.length pos = some stop := by
  induction qs generalizing pos with
  | nil =>
      cases h
      rfl
  | cons q qs ih =>
      obtain ⟨rfl, hreads, hrest⟩ := h
      have hclass := u16At_bound hreads.queryClass
      rw [List.length_cons, skipQuestions, skipName_of_readName hreads.name]
      simp only [Option.bind_eq_bind, Option.bind_some]
      rw [if_neg (by omega)]
      exact ih hrest

end Bulwark.Engine
