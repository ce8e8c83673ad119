import Bulwark.Engine.Handle

/-!
# Replies over UDP

`encode_udp` and what `spawn_udp` sends.  A response that is larger than the client
accepts is replaced by a copy of its header and its questions, however many there are.
-/

namespace Bulwark.Engine

open Bulwark.Foundation Bulwark.Dns Bulwark.Filter

/-! ## What is sent -/

def truncatedCopy (resp : Message) : Message where
  metadata :=
    { id := resp.metadata.id
      isResponse := true
      opCode := resp.metadata.opCode
      authoritative := false
      truncation := true
      recursionDesired := resp.metadata.recursionDesired
      recursionAvailable := resp.metadata.recursionAvailable
      authenticData := false
      checkingDisabled := false
      responseCode := resp.metadata.responseCode }
  queries := resp.queries
  answers := []
  authorities := []
  additionals := []
  edns := none

/-- `encode_udp`; nothing where the encoder fails. -/
def encodeUdp (toVec : Message → Option Bytes) (resp : Message) (max : Nat) : Bytes :=
  match toVec resp with
  | some bytes =>
      if bytes.length ≤ max then bytes else (toVec (truncatedCopy resp)).getD []
  | none => []

def EngineResponse.intoMessage : EngineResponse → Message
  | .message msg => msg
  | .wire bytes => (decode bytes).getD (Message.newResponse 0)

def udpBytes (toVec : Message → Option Bytes) (max : Nat) : EngineResponse → Bytes
  | .wire b => if b.length ≤ max then b else encodeUdp toVec (EngineResponse.wire b).intoMessage max
  | .message msg => encodeUdp toVec msg max

/-- What the UDP listener sends for a response of the engine, if anything. -/
def udpDatagram (toVec : Message → Option Bytes) (ingress : Ingress) (response : EngineResponse) :
    Option Bytes :=
  let bytes := udpBytes toVec ingress.udpMaxPayload response
  if bytes.isEmpty then none else some bytes

/-! ## What should be sent -/

def Ingress.advertised : Ingress → Option UInt16
  | .fast _ parsed => parsed.ednsPayload
  | .full msg => msg.edns.map Edns.maxPayload

def Ingress.clientLimit (ingress : Ingress) : Nat :=
  match ingress.advertised with
  | some size => min (max size.toNat 512) 4096
  | none => 512

theorem udpMaxPayload_eq (ingress : Ingress) : ingress.udpMaxPayload = ingress.clientLimit := by
  unfold Ingress.udpMaxPayload Ingress.clientLimit Ingress.advertised
  cases ingress with
  | fast bytes parsed =>
      dsimp only
      cases parsed.ednsPayload <;> rfl
  | full msg =>
      dsimp only
      cases msg.edns <;> rfl

def EngineResponse.intoWire (toVec : Message → Option Bytes) : EngineResponse → Option Bytes
  | .message msg => toVec msg
  | .wire bytes => some bytes

/-- The message of the response, if its bytes are one. -/
def EngineResponse.full : EngineResponse → Option Message
  | .message msg => some msg
  | .wire bytes => decode bytes

/-- The full response has an encoding, and it does not fit. -/
def Overflows (toVec : Message → Option Bytes) (limit : Nat) (response : EngineResponse) : Prop :=
  ∃ bytes, response.intoWire toVec = some bytes ∧ limit < bytes.length

/-- Id, response code and first question of the response, with the TC bit. -/
structure Announces (sent response : Message) : Prop where
  truncated : sent.metadata.truncation = true
  id : sent.metadata.id = response.metadata.id
  rcode : sent.metadata.responseCode = response.metadata.responseCode
  question : sent.queries.head? = response.queries.head?

/-- What is too long as it is may be sent whole in a shorter encoding. -/
structure RespectsLimit (toVec : Message → Option Bytes) (ingress : Ingress)
    (response : EngineResponse) : Prop where
  size : ∀ sent, udpDatagram toVec ingress response = some sent →
    sent.length ≤ ingress.clientLimit
  truncated : Overflows toVec ingress.clientLimit response →
    ∃ sent full, udpDatagram toVec ingress response = some sent ∧ response.full = some full ∧
      (toVec full = some sent ∨ ∃ msg, decode sent = some msg ∧ Announces msg full)

/-! ## The encoder -/

def flagsHigh (m : Metadata) : UInt8 :=
  UInt8.ofNat (128 * m.isResponse.toNat + m.opCode.toNat % 16 * 8 + 4 * m.authoritative.toNat +
    2 * m.truncation.toNat + m.recursionDesired.toNat)

/-- Of the response code the header has four bits. -/
def flagsLow (m : Metadata) : UInt8 :=
  UInt8.ofNat (128 * m.recursionAvailable.toNat + 32 * m.authenticData.toNat +
    16 * m.checkingDisabled.toNat + m.responseCode.toNat % 16)

/-- A header for `n` questions and no records. -/
def headerBytes (m : Metadata) (n : Nat) : Bytes :=
  toBe16 m.id ++ [flagsHigh m, flagsLow m] ++ toBe16 (UInt16.ofNat n) ++ [0, 0, 0, 0, 0, 0]

def IsBare (msg : Message) : Prop :=
  msg.answers = [] ∧ msg.authorities = [] ∧ msg.additionals = [] ∧ msg.edns = none

instance (msg : Message) : Decidable (IsBare msg) :=
  inferInstanceAs (Decidable (_ ∧ _ ∧ _ ∧ _))

/-- `Message::to_vec`, as far as the listener relies on it: there is a header, the questions
follow it, are read back, take no more space than they do without compression and are written
whenever the message is. -/
structure MessageEncoder where
  toVec : Message → Option Bytes
  questionBytes : List Query → Option Bytes
  header_le : ∀ msg bytes, toVec msg = some bytes → 12 ≤ bytes.length
  toVec_bare : ∀ msg, IsBare msg → toVec msg =
    (questionBytes msg.queries).map (headerBytes msg.metadata msg.queries.length ++ ·)
  questions_count : ∀ qs bytes, questionBytes qs = some bytes → qs.length < 2 ^ 16
  reads_questions : ∀ qs bytes, questionBytes qs = some bytes → ∀ header : Bytes,
    header.length = 12 → ∃ slots stop,
      readQuestions (header ++ bytes) qs.length 12 = some (slots, stop) ∧
        slots.map (·.query) = qs
  questions_le : ∀ qs bytes, questionBytes qs = some bytes →
    bytes.length ≤ (qs.map fun q => wireLen q.name + 4).sum
  questions_first : ∀ msg bytes, toVec msg = some bytes →
    ∃ qbytes, questionBytes msg.queries = some qbytes

theorem length_headerBytes (m : Metadata) (n : Nat) : (headerBytes m n).length = 12 := rfl

theorem truncation_flagsHigh (m : Metadata) : bit (flagsHigh m) 1 = m.truncation := by
  have hbool : ∀ b : Bool, b.toNat ≤ 1 := fun b => by cases b <;> decide
  have hresponse := hbool m.isResponse
  have hauthoritative := hbool m.authoritative
  have hdesired := hbool m.recursionDesired
  unfold bit flagsHigh
  rw [UInt8.toNat_ofNat']
  cases m.truncation
  · simp only [Bool.toNat_false, decide_eq_false_iff_not]
    omega
  · simp only [Bool.toNat_true, decide_eq_true_eq]
    omega

theorem rcode_flagsLow (m : Metadata) :
    (flagsLow m).toNat % 16 = m.responseCode.toNat % 16 := by
  unfold flagsLow
  rw [UInt8.toNat_ofNat']
  omega

theorem readHeader_headerBytes (m : Metadata) (n : Nat) (rest : Bytes) :
    readHeader (headerBytes m n ++ rest) =
      some ⟨m.id, (flagsHigh m, flagsLow m), UInt16.ofNat n, 0, 0, 0⟩ := by
  have hread : readHeader (headerBytes m n ++ rest) =
      some ⟨be16 (UInt8.ofNat (m.id.toNat / 256)) (UInt8.ofNat m.id.toNat),
        (flagsHigh m, flagsLow m),
        be16 (UInt8.ofNat ((UInt16.ofNat n).toNat / 256)) (UInt8.ofNat (UInt16.ofNat n).toNat),
        be16 0 0, be16 0 0, be16 0 0⟩ := rfl
  rw [hread, be16_toBe16, be16_toBe16]
  rfl

theorem decode_bare (e : MessageEncoder) {msg : Message} (h : IsBare msg) {bytes : Bytes}
    (hbytes : e.toVec msg = some bytes) :
    ∃ msg', decode bytes = some msg' ∧ msg'.metadata.id = msg.metadata.id ∧
      msg'.metadata.truncation = msg.metadata.truncation ∧
      msg'.metadata.responseCode.toNat = msg.metadata.responseCode.toNat % 16 ∧
      msg'.queries = msg.queries := by
  rw [e.toVec_bare msg h, Option.map_eq_some_iff] at hbytes
  obtain ⟨qbytes, hq, rfl⟩ := hbytes
  have hcount := e.questions_count _ _ hq
  have hheader := readHeader_headerBytes msg.metadata msg.queries.length qbytes
  obtain ⟨slots, stop, hquestions, hqueries⟩ :=
    e.reads_questions _ _ hq _ (length_headerBytes msg.metadata msg.queries.length)
  have hlayout : readLayout (headerBytes msg.metadata msg.queries.length ++ qbytes) =
      some ⟨⟨msg.metadata.id, (flagsHigh msg.metadata, flagsLow msg.metadata),
        UInt16.ofNat msg.queries.length, 0, 0, 0⟩, slots, stop, []⟩ := by
    have hn : (UInt16.ofNat msg.queries.length).toNat = msg.queries.length := by
      rw [UInt16.toNat_ofNat', Nat.mod_eq_of_lt hcount]
    simp only [readLayout, hheader, Option.bind_eq_bind, Option.bind_some, hn, hquestions]
    rfl
  let header : Header := ⟨msg.metadata.id, (flagsHigh msg.metadata, flagsLow msg.metadata),
    UInt16.ofNat msg.queries.length, 0, 0, 0⟩
  refine ⟨⟨metadataOf header none, slots.map (·.query), [], [], [], none⟩, ?_, rfl,
    truncation_flagsHigh _, ?_, hqueries⟩
  · rw [decode, hlayout]
    rfl
  · change (UInt16.ofNat (0 * 16 + (flagsLow msg.metadata).toNat % 16)).toNat = _
    rw [UInt16.toNat_ofNat', rcode_flagsLow]
    omega

/-! ## When the limit is respected -/

section

variable (e : MessageEncoder) (ingress : Ingress) (response : EngineResponse)
  {full : Message} {bytes : Bytes}

theorem intoMessage_of_full (h : response.full = some full) : response.intoMessage = full := by
  cases response with
  | message msg => exact Option.some.inj h
  | wire b =>
      change decode b = some full at h
      rw [EngineResponse.intoMessage, h]
      rfl

theorem udpBytes_of_overflows (h : Overflows e.toVec ingress.clientLimit response) :
    udpBytes e.toVec ingress.udpMaxPayload response =
      encodeUdp e.toVec response.intoMessage ingress.clientLimit := by
  obtain ⟨bytes, hbytes, hlong⟩ := h
  rw [udpMaxPayload_eq]
  cases response with
  | message msg => rfl
  | wire b =>
      cases hbytes
      rw [udpBytes, if_neg (by omega)]

theorem datagram_whole (h : Overflows e.toVec ingress.clientLimit response)
    (hfull : response.full = some full) (hbytes : e.toVec full = some bytes)
    (hfits : bytes.length ≤ ingress.clientLimit) (hne : bytes ≠ []) :
    udpDatagram e.toVec ingress response = some bytes := by
  have hempty : ¬ bytes.isEmpty = true := by simpa using hne
  unfold udpDatagram
  rw [udpBytes_of_overflows e ingress response h, intoMessage_of_full response hfull, encodeUdp,
    hbytes]
  dsimp only
  rw [if_pos hfits, if_neg hempty]

theorem datagram_cut (h : Overflows e.toVec ingress.clientLimit response)
    (hfull : response.full = some full) (hbytes : e.toVec full = some bytes)
    (hlong : ingress.clientLimit < bytes.length) :
    ∃ qbytes, e.questionBytes full.queries = some qbytes ∧
      e.toVec (truncatedCopy full) =
        some (headerBytes (truncatedCopy full).metadata full.queries.length ++ qbytes) ∧
      udpDatagram e.toVec ingress response =
        some (headerBytes (truncatedCopy full).metadata full.queries.length ++ qbytes) := by
  obtain ⟨qbytes, hq⟩ := e.questions_first _ _ hbytes
  have hcopy : e.toVec (truncatedCopy full) =
      some (headerBytes (truncatedCopy full).metadata full.queries.length ++ qbytes) :=
    (e.toVec_bare _ ⟨rfl, rfl, rfl, rfl⟩).trans (congrArg (Option.map _) hq)
  refine ⟨qbytes, hq, hcopy, ?_⟩
  unfold udpDatagram
  rw [udpBytes_of_overflows e ingress response h, intoMessage_of_full response hfull, encodeUdp,
    hbytes]
  dsimp only
  rw [if_neg (Nat.not_le.mpr hlong), hcopy]
  rfl

theorem encodeUdp_of_sent (h : Overflows e.toVec ingress.clientLimit response) {sent : Bytes}
    (hsent : udpDatagram e.toVec ingress response = some sent)
    (hfull : response.full = some full) : ∃ bytes, e.toVec full = some bytes := by
  unfold udpDatagram at hsent
  rw [udpBytes_of_overflows e ingress response h, intoMessage_of_full response hfull, encodeUdp]
    at hsent
  cases hbytes : e.toVec full with
  | none =>
      rw [hbytes] at hsent
      cases hsent
  | some bytes => exact ⟨bytes, rfl⟩

theorem size_of_not_overflows (h : ¬ Overflows e.toVec ingress.clientLimit response) {sent : Bytes}
    (hsent : udpDatagram e.toVec ingress response = some sent) :
    sent.length ≤ ingress.clientLimit := by
  have hbytes : sent = udpBytes e.toVec ingress.clientLimit response := by
    unfold udpDatagram at hsent
    rw [udpMaxPayload_eq] at hsent
    dsimp only at hsent
    split_ifs at hsent
    exact (Option.some.inj hsent).symm
  have hfits : ∀ bytes, response.intoWire e.toVec = some bytes →
      bytes.length ≤ ingress.clientLimit := by
    intro bytes hbytes
    by_contra hlong
    exact h ⟨bytes, hbytes, Nat.lt_of_not_le hlong⟩
  rw [hbytes]
  cases response with
  | message msg =>
      rw [udpBytes, encodeUdp]
      cases hfull : e.toVec msg with
      | none => exact Nat.zero_le _
      | some full =>
          dsimp only
          rw [if_pos (hfits full hfull)]
          exact hfits full hfull
  | wire b =>
      rw [udpBytes, if_pos (hfits b rfl)]
      exact hfits b rfl

/--
The client's limit is respected exactly where a response that does not fit is a message that
can be encoded again and, should this not fit either, its questions fit and its response code
has four bits.
-/
theorem respectsLimit_iff_questionsFit :
    (RespectsLimit e.toVec ingress response ↔
      (Overflows e.toVec ingress.clientLimit response →
        ∃ full bytes, response.full = some full ∧ e.toVec full = some bytes ∧
          (ingress.clientLimit < bytes.length → full.metadata.responseCode.toNat < 16 ∧
            ∀ qbytes, e.questionBytes full.queries = some qbytes →
              12 + qbytes.length ≤ ingress.clientLimit))) ∧
    (∀ full bytes, response.full = some full → e.toVec full = some bytes →
      12 + (full.queries.map fun q => wireLen q.name + 4).sum ≤ 512 →
      full.metadata.responseCode.toNat < 16 → RespectsLimit e.toVec ingress response) := by
  have hiff : RespectsLimit e.toVec ingress response ↔
      (Overflows e.toVec ingress.clientLimit response →
        ∃ full bytes, response.full = some full ∧ e.toVec full = some bytes ∧
          (ingress.clientLimit < bytes.length → full.metadata.responseCode.toNat < 16 ∧
            ∀ qbytes, e.questionBytes full.queries = some qbytes →
              12 + qbytes.length ≤ ingress.clientLimit)) := by
    constructor
    · intro ⟨hsize, htruncated⟩ hover
      obtain ⟨sent, full, hsent, hfull, hshown⟩ := htruncated hover
      obtain ⟨bytes, hbytes⟩ := encodeUdp_of_sent e ingress response hover hsent hfull
      refine ⟨full, bytes, hfull, hbytes, fun hlong => ?_⟩
      obtain ⟨qbytes, hq, hcopy, hcut⟩ := datagram_cut e ingress response hover hfull hbytes hlong
      obtain rfl := Option.some.inj (hsent.symm.trans hcut)
      have hlen := hsize _ hsent
      refine ⟨?_, fun qbytes' hq' => ?_⟩
      · rcases hshown with hwhole | ⟨msg, hdecode, hannounces⟩
        · -- The encoding that does not fit is not what is sent.
          obtain rfl := Option.some.inj (hbytes.symm.trans hwhole)
          omega
        · obtain ⟨msg', hdecode', -, -, hrcode, -⟩ := decode_bare e ⟨rfl, rfl, rfl, rfl⟩ hcopy
          obtain rfl := Option.some.inj (hdecode.symm.trans hdecode')
          rw [hannounces.rcode] at hrcode
          change _ = full.metadata.responseCode.toNat % 16 at hrcode
          omega
      · obtain rfl := Option.some.inj (hq.symm.trans hq')
        rwa [List.length_append, length_headerBytes] at hlen
    · intro h
      by_cases hover : Overflows e.toVec ingress.clientLimit response
      · obtain ⟨full, bytes, hfull, hbytes, hlong⟩ := h hover
        by_cases hfits : bytes.length ≤ ingress.clientLimit
        · have hsent := datagram_whole e ingress response hover hfull hbytes hfits
            (List.ne_nil_of_length_pos (lt_of_lt_of_le (by decide) (e.header_le _ _ hbytes)))
          constructor
          · intro sent hsent'
            obtain rfl := Option.some.inj (hsent'.symm.trans hsent)
            exact hfits
          · exact fun _ => ⟨bytes, full, hsent, hfull, .inl hbytes⟩
        · obtain ⟨hrcode, hquestions⟩ := hlong (Nat.lt_of_not_le hfits)
          obtain ⟨qbytes, hq, hcopy, hcut⟩ :=
            datagram_cut e ingress response hover hfull hbytes (Nat.lt_of_not_le hfits)
          constructor
          · intro sent hsent
            obtain rfl := Option.some.inj (hsent.symm.trans hcut)
            rw [List.length_append, length_headerBytes]
            exact hquestions qbytes hq
          · intro _
            obtain ⟨msg, hdecode, hid, htc, hcode, hqueries⟩ :=
              decode_bare e ⟨rfl, rfl, rfl, rfl⟩ hcopy
            refine ⟨_, full, hcut, hfull, .inr ⟨msg, hdecode, htc, hid, ?_,
              congrArg List.head? hqueries⟩⟩
            apply UInt16.toNat_inj.mp
            rw [hcode]
            exact Nat.mod_eq_of_lt hrcode
      · exact ⟨fun sent hsent => size_of_not_overflows e ingress response hover hsent,
          fun hover' => absurd hover' hover⟩
  refine ⟨hiff, fun full bytes hfull hbytes hsmall hrcode => hiff.mpr fun _ =>
    ⟨full, bytes, hfull, hbytes, fun _ => ⟨hrcode, fun qbytes hq => ?_⟩⟩⟩
  have hle := e.questions_le _ _ hq
  have hlimit : 512 ≤ ingress.clientLimit := by
    unfold Ingress.clientLimit
    split <;> omega
  omega

end

/-! ## A query of three questions -/

def longName (c : UInt8) : Name :=
  [List.replicate 63 c, List.replicate 63 c, List.replicate 63 c, List.replicate 61 c]

def threeQuestions : List Query :=
  [⟨[[97]], typeA, 1⟩, ⟨longName 98, typeA, 1⟩, ⟨longName 99, typeA, 1⟩]

/-- No two of the names end alike, so that none is compressed. -/
def threeQuestionBytes : Bytes :=
  threeQuestions.flatMap fun q =>
    (q.name.flatMap fun label => UInt8.ofNat label.length :: label) ++ [0, 0, 1, 0, 1]

def threeQuery : Bytes := [0, 7, 1, 0, 0, 3, 0, 0, 0, 0, 0, 0] ++ threeQuestionBytes

section

variable {buf buf' : Bytes}

theorem readQuestion_congr {pos : Nat} (hlen : buf'.length = buf.length)
    (hsame : ∀ p, 12 ≤ p → buf'[p]? = buf[p]?) (hpos : 12 ≤ pos)
    (hreads : ∀ p ∈ nameReads buf pos, 12 ≤ p) : readQuestion buf' pos = readQuestion buf pos := by
  have hname : readName buf' pos = readName buf pos :=
    readName_congr hlen fun p hp => hsame p (hreads p hp)
  unfold readQuestion
  rw [hname]
  cases hread : readName buf pos with
  | none => rfl
  | some found =>
      have hafter := (readName_stop hread).1
      simp only [Option.bind_eq_bind, Option.bind_some]
      rw [u16At_congr fun p hp _ => hsame p (by omega),
        u16At_congr fun p hp _ => hsame p (by omega)]

theorem readQuestions_congr (hlen : buf'.length = buf.length)
    (hsame : ∀ p, 12 ≤ p → buf'[p]? = buf[p]?) {n pos stop : Nat} {slots : List QuestionSlot}
    (hpos : 12 ≤ pos) (h : readQuestions buf n pos = some (slots, stop))
    (hreads : ∀ slot ∈ slots, ∀ p ∈ nameReads buf slot.start, 12 ≤ p) :
    readQuestions buf' n pos = some (slots, stop) := by
  induction n generalizing pos slots with
  | zero => exact h
  | succ n ih =>
      simp only [readQuestions, Option.bind_eq_bind, Option.bind_eq_some_iff, Option.some.injEq,
        Prod.exists, Prod.mk.injEq] at h ⊢
      obtain ⟨slot, hslot, slots, stop', hrest, rfl, rfl⟩ := h
      have hstart : slot.start = pos ∧ pos < slot.fixed := by
        simp only [readQuestion, Option.bind_eq_bind, Option.bind_eq_some_iff, Option.some.injEq,
          Prod.exists] at hslot
        obtain ⟨name, fixed, hname, _, -, _, -, rfl⟩ := hslot
        exact ⟨rfl, (readName_stop hname).1⟩
      have hhere : ∀ p ∈ nameReads buf pos, 12 ≤ p := by
        rw [← hstart.1]
        exact hreads slot List.mem_cons_self
      refine ⟨slot, (readQuestion_congr hlen hsame hpos hhere).trans hslot, slots, stop', ?_,
        rfl, rfl⟩
      exact ih (by omega) hrest fun slot' hslot' => hreads slot' (List.mem_cons_of_mem _ hslot')

end

/-- An encoder for headers and these questions is enough here. -/
def threeEncoder : MessageEncoder where
  toVec msg :=
    if IsBare msg ∧ msg.queries = threeQuestions then
      some (headerBytes msg.metadata 3 ++ threeQuestionBytes)
    else none
  questionBytes qs := if qs = threeQuestions then some (threeQuestionBytes) else none
  header_le msg bytes h := by
    split_ifs at h
    cases h
    rw [List.length_append, length_headerBytes]
    omega
  toVec_bare msg hbare := by
    by_cases hqs : msg.queries = threeQuestions
    · rw [if_pos ⟨hbare, hqs⟩, if_pos hqs, hqs]
      rfl
    · rw [if_neg (fun h => hqs h.2), if_neg hqs]
      rfl
  questions_count qs bytes h := by
    split_ifs at h with hqs
    rw [hqs]
    decide
  reads_questions qs bytes h header hheader := by
    split_ifs at h with hqs
    cases h
    subst hqs
    have hread : ∃ found, readQuestions (List.replicate 12 0 ++ threeQuestionBytes) 3 12 =
        some found ∧ found.1.map (·.query) = threeQuestions ∧
        ∀ slot ∈ found.1, ∀ p ∈ nameReads (List.replicate 12 0 ++ threeQuestionBytes)
          slot.start, 12 ≤ p := by
      have hany : ((readQuestions (List.replicate 12 0 ++ threeQuestionBytes) 3 12).any
          fun found => decide (found.1.map (·.query) = threeQuestions) &&
            found.1.all fun slot => (nameReads (List.replicate 12 0 ++ threeQuestionBytes)
              slot.start).all (12 ≤ ·)) = true := by decide +kernel
      obtain ⟨found, hfound, hcheck⟩ := (Option.any_eq_true _ _).mp hany
      rw [Bool.and_eq_true, decide_eq_true_eq] at hcheck
      refine ⟨found, hfound, hcheck.1, fun slot hslot p hp => ?_⟩
      have := List.all_eq_true.mp (List.all_eq_true.mp hcheck.2 slot hslot) p hp
      simpa using this
    obtain ⟨⟨slots, stop⟩, hfound, hqueries, hreads⟩ := hread
    refine ⟨slots, stop, readQuestions_congr ?_ (fun p hp => ?_) (Nat.le_refl 12) hfound hreads,
      hqueries⟩
    · rw [List.length_append, List.length_append, hheader, List.length_replicate]
    · rw [List.getElem?_append_right (by omega), List.getElem?_append_right (by simpa using hp),
        hheader, List.length_replicate]
  questions_le qs bytes h := by
    split_ifs at h with hqs
    cases h
    rw [hqs]
    decide +kernel
  questions_first msg bytes h := by
    split_ifs at h with hmsg
    exact ⟨_, if_pos hmsg.2⟩

def nameFilter : LiveFilter demoEnv.rx :=
  ⟨(compile (plainEnv List.length) referenceExternal (customList "||a^".toList)).get
    (by decide +kernel), _, _, (Option.some_get _).symm⟩

def refusingState : EngineState demoEnv.rx :=
  { demoState nameFilter with blockingMode := .refused }

def isRefusal (w : World demoEnv) : Bool :=
  match w.tasks 0 with
  | some (.replied call reply) =>
      decide (call.raw = threeQuery) && call.ingress.advertised.isNone &&
        decide (IsBare reply.response.intoMessage ∧
          reply.response.intoMessage.queries = threeQuestions) &&
        match reply.response with
        | .message _ => true
        | .wire _ => false
  | _ => false

/-- A refusal repeats all three questions and is sent in 537 bytes. -/
theorem threeQuery_overflows :
    ∃ w call reply, runFrom World.step (World.new refusingState demoCache demoUpstreams)
        [.load 0 threeQuery (.v4 1), .look 0 1 0] = some w ∧
      w.tasks 0 = some (.replied call reply) ∧ call.raw = threeQuery ∧
      ¬ RespectsLimit threeEncoder.toVec call.ingress reply.response := by
  have hsome : ((runFrom World.step (World.new refusingState demoCache demoUpstreams)
      [.load 0 threeQuery (.v4 1), .look 0 1 0]).any isRefusal) = true := by decide +kernel
  obtain ⟨w, hrun, hw⟩ := (Option.any_eq_true _ _).mp hsome
  unfold isRefusal at hw
  split at hw
  · rename_i call reply htask
    simp only [Bool.and_eq_true, decide_eq_true_eq, Option.isNone_iff_eq_none] at hw
    obtain ⟨⟨⟨hraw, hadvertised⟩, hbare, hqueries⟩, hmessage⟩ := hw
    refine ⟨w, call, reply, hrun, htask, hraw, fun hlimit => ?_⟩
    have hclient : call.ingress.clientLimit = 512 := by rw [Ingress.clientLimit, hadvertised]
    have hlen : threeQuestionBytes.length = 525 := by decide +kernel
    have hencoded : threeEncoder.toVec reply.response.intoMessage =
        some (headerBytes reply.response.intoMessage.metadata 3 ++ threeQuestionBytes) :=
      if_pos ⟨hbare, hqueries⟩
    have hlong : call.ingress.clientLimit <
        (headerBytes reply.response.intoMessage.metadata 3 ++ threeQuestionBytes).length := by
      rw [List.length_append, length_headerBytes, hlen, hclient]
      decide
    obtain ⟨hover, hfull⟩ : Overflows threeEncoder.toVec call.ingress.clientLimit
        reply.response ∧ reply.response.full = some reply.response.intoMessage := by
      cases hresponse : reply.response with
      | message msg =>
          rw [hresponse] at hencoded hlong
          exact ⟨⟨_, hencoded, hlong⟩, rfl⟩
      | wire bytes =>
          rw [hresponse] at hmessage
          cases hmessage
    obtain ⟨qbytes, hq, -, hsent⟩ :=
      datagram_cut threeEncoder call.ingress _ hover hfull hencoded hlong
    obtain rfl : threeQuestionBytes = qbytes :=
      Option.some.inj ((if_pos hqueries).symm.trans hq)
    have hsize := hlimit.size _ hsent
    rw [List.length_append, length_headerBytes, hlen, hclient] at hsize
    exact absurd hsize (by decide)
  · cases hw

end Bulwark.Engine
