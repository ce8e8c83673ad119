import Bulwark.Engine.Wire

/-!
# Queries on the fast and the full path

A query is read by `parseQuery` where that is possible and by the full decoder
otherwise.  Both paths fill the same fields, from which the cache key and the
filtered name are taken; they agree wherever both apply.
-/

namespace Bulwark.Engine

open Bulwark.Foundation Bulwark.Dns

/-! ## Ingress -/

inductive Ingress where
  | fast (bytes : Bytes) (parsed : ParsedQuery)
  | full (msg : Message)
  deriving DecidableEq, Repr

def Ingress.parse (bytes : Bytes) : Option Ingress :=
  match parseQuery bytes with
  | some parsed => some (.fast bytes parsed)
  | none => (decode bytes).map .full

def Ingress.udpMaxPayload (ingress : Ingress) : Nat :=
  let advertised := match ingress with
    | .fast _ parsed => parsed.ednsPayload.getD 512
    | .full msg => (msg.edns.map Edns.maxPayload).getD 512
  min (max advertised.toNat 512) 4096

structure QueryFields where
  id : UInt16
  rtype : UInt16
  dnsClass : UInt16
  /-- Original case, for the query log. -/
  qnameDisplay : Text
  /-- Lowercase and dot-terminated, for cache and filter. -/
  nameLower : Text
  dnssecOk : Bool
  checkingDisabled : Bool
  deriving DecidableEq, Repr

def QueryFields.fromParsed (p : ParsedQuery) : QueryFields where
  id := p.id
  rtype := p.qtype
  dnsClass := p.qclass
  qnameDisplay := p.qname
  nameLower := toAsciiLowercase p.qname
  dnssecOk := p.dnssecOk
  checkingDisabled := p.checkingDisabled

def QueryFields.fromMessage (msg : Message) : Option QueryFields :=
  msg.queries.head?.map fun q =>
    { id := msg.metadata.id
      rtype := q.queryType
      dnsClass := q.queryClass
      qnameDisplay := nameToAscii q.name
      nameLower := toAsciiLowercase (nameToAscii q.name)
      dnssecOk := msg.dnssecOk
      checkingDisabled := msg.metadata.checkingDisabled }

def QueryFields.key (fields : QueryFields) : QueryKey where
  name := fields.nameLower
  rtype := fields.rtype
  dnsClass := fields.dnsClass
  dnssecOk := fields.dnssecOk
  checkingDisabled := fields.checkingDisabled

inductive Lazy where
  | bytes (raw : Bytes)
  | msg (full : Message)
  deriving DecidableEq, Repr

def Lazy.intoMessage : Lazy → Option Message
  | .bytes raw => decode raw
  | .msg full => some full

def Ingress.intoParts : Ingress → Except Message (QueryFields × Lazy)
  | .fast bytes parsed => .ok (.fromParsed parsed, .bytes bytes)
  | .full msg =>
      match QueryFields.fromMessage msg with
      | some fields => .ok (fields, .msg msg)
      | none => .error msg

theorem Ingress.intoParts_ok {ingress : Ingress} {fields : QueryFields} {lazy : Lazy}
    (h : ingress.intoParts = .ok (fields, lazy)) :
    (∃ bytes parsed, ingress = .fast bytes parsed ∧ fields = .fromParsed parsed ∧
      lazy = .bytes bytes) ∨
    ∃ msg, ingress = .full msg ∧ QueryFields.fromMessage msg = some fields ∧ lazy = .msg msg := by
  cases ingress with
  | fast bytes parsed =>
      cases h
      exact .inl ⟨bytes, parsed, rfl, rfl, rfl⟩
  | full msg =>
      rw [Ingress.intoParts] at h
      split at h
      · rename_i found hfields
        cases h
        exact .inr ⟨msg, rfl, hfields, rfl⟩
      · cases h

theorem Ingress.intoParts_error {ingress : Ingress} {msg : Message}
    (h : ingress.intoParts = .error msg) : ingress = .full msg ∧ msg.queries = [] := by
  cases ingress with
  | fast bytes parsed => cases h
  | full full =>
      rw [Ingress.intoParts] at h
      split at h
      · cases h
      · rename_i hfields
        cases h
        rw [QueryFields.fromMessage, Option.map_eq_none_iff] at hfields
        exact ⟨rfl, List.head?_eq_none_iff.mp hfields⟩

/-! ## The question name -/

private theorem isSafeLabelByte_eq (c : UInt8) (isFirst : Bool) :
    isSafeLabelByte c isFirst = isSafeByte c isFirst := by
  revert c
  cases isFirst
  · exact forall_byte (by decide +kernel)
  · exact forall_byte (by decide +kernel)

theorem labelToAscii_of_isSafeLabel {label : Label} (h : isSafeLabel label = true) :
    labelToAscii label = label.map byteChar := by
  cases label with
  | nil => rfl
  | cons c cs =>
      rw [isSafeLabel, Bool.and_eq_true, isSafeLabelByte_eq] at h
      have hfirst : escapeByte c true = [byteChar c] := if_pos h.1
      have hrest : (cs.flatMap fun b => escapeByte b false) = cs.map byteChar := by
        have hall : ∀ b ∈ cs, escapeByte b false = [byteChar b] := by
          intro b hb
          apply if_pos
          rw [← isSafeLabelByte_eq]
          exact List.all_eq_true.mp h.2 b hb
        rw [List.flatMap_congr hall, List.map_eq_flatMap]
      rw [labelToAscii, hfirst, hrest, List.map_cons, List.singleton_append]

theorem readQuestionNameFrom_eq {buf : Bytes} {start fuel limit from' pos stop stop' : Nat}
    {acc text : Text} {name : Name}
    (hfast : readQuestionNameFrom buf start fuel acc pos = some (text, stop))
    (hfull : readNameFrom buf fuel limit from' pos = some (name, stop')) :
    stop' = stop ∧
      text = (let shown := acc ++ name.flatMap fun label => labelToAscii label ++ ['.']
        if shown = [] then ['.'] else shown) := by
  induction fuel generalizing acc pos name with
  | zero => cases hfast
  | succ fuel ih =>
      rw [readQuestionNameFrom] at hfast
      cases (nameStep_of_read hfull).2 with
      | root hb hzero =>
          rw [hb] at hfast
          dsimp only at hfast
          rw [if_pos ((label_iff _).mpr (by rw [hzero]; decide)), if_pos hzero] at hfast
          split at hfast
          · cases hfast
          · cases hfast
            simp
      | @label b label rest _ hb hzero hlabel hslice hrest =>
          rw [hb] at hfast
          dsimp only at hfast
          rw [if_pos ((label_iff b).mpr hlabel), if_neg hzero, hslice] at hfast
          simp only [Option.bind_eq_bind, Option.bind_some] at hfast
          split at hfast
          · rename_i hsafe
            obtain ⟨hstop, htext⟩ := ih hfast hrest
            refine ⟨hstop, ?_⟩
            rw [htext, List.flatMap_cons, labelToAscii_of_isSafeLabel hsafe]
            simp only [List.append_assoc]
          · cases hfast
      | @pointer b lo _ _ hb hzero hlabel hpointer hlo htarget hrest =>
          rw [hb] at hfast
          dsimp only at hfast
          rw [if_neg (mt (label_iff b).mp hlabel)] at hfast
          cases hfast

theorem readQuestionName_eq {buf : Bytes} {start stop stop' : Nat} {text : Text} {name : Name}
    (hfast : readQuestionName buf start = some (text, stop))
    (hfull : readName buf start = some (name, stop')) :
    stop' = stop ∧ text = nameToAscii name := by
  obtain ⟨hstop, htext⟩ := readQuestionNameFrom_eq hfast (readNameFrom_of_readName hfull)
  refine ⟨hstop, ?_⟩
  rw [htext, nameToAscii]
  cases name with
  | nil => rfl
  | cons label rest => simp

/-! ## The EDNS record -/

private theorem highBit_eq (b : UInt8) : (b &&& 0x80 != 0) = decide (128 ≤ b.toNat) := by
  revert b
  exact forall_byte (by decide +kernel)

private theorem checkingBit_eq (b : UInt8) : (b &&& 0x10 != 0) = bit b 4 := by
  revert b
  exact forall_byte (by decide +kernel)

theorem dnssecOk_ednsOf {buf : Bytes} {opt : Slot} (h : ReadsRecord buf opt) :
    ∃ flags, buf[opt.fixed + 6]? = some flags ∧
      (flags &&& 0x80 != 0) = (ednsOf opt).dnssecOk := by
  have httl := h.ttl
  simp only [u32At, Option.bind_eq_bind, Option.bind_eq_some_iff, Option.some.injEq] at httl
  obtain ⟨a, -, b, -, c, hc, d, -, heq⟩ := httl
  refine ⟨c, hc, ?_⟩
  rw [highBit_eq, Edns.dnssecOk, ednsOf, ← heq]
  dsimp only
  rw [be32, UInt16.toNat_ofNat', UInt32.toNat_ofNat']
  have ha := a.toNat_lt
  have hb := b.toNat_lt
  have hc := c.toNat_lt
  have hd := d.toNat_lt
  generalize a.toNat = a, b.toNat = b, c.toNat = c, d.toNat = d at *
  rw [decide_eq_decide]
  omega

theorem scanEdns_eq {buf : Bytes} {additionalStart idx pos : Nat} {slots : List Slot}
    {payload : Option UInt16} {dnssecOk : Bool} {found : Option UInt16 × Bool}
    (h : RecordsAt buf pos slots)
    (hscan : scanEdns buf additionalStart slots.length idx pos payload dnssecOk = some found) :
    (slots.filter Slot.isOpt = [] ∧ found = (payload, dnssecOk)) ∨
      (payload = none ∧ ∃ opt, slots.filter Slot.isOpt = [opt] ∧
        found = (some opt.dnsClass, (ednsOf opt).dnssecOk)) := by
  induction slots generalizing pos idx payload dnssecOk with
  | nil =>
      cases hscan
      exact .inl ⟨rfl, rfl⟩
  | cons slot slots ih =>
      obtain ⟨rfl, hreads, hrest⟩ := h
      obtain ⟨len, hlen, hstop⟩ := hreads.len
      rw [List.length_cons, scanEdns, skipName_of_readName hreads.name] at hscan
      simp only [Option.bind_eq_bind, Option.bind_some] at hscan
      split at hscan
      · cases hscan
      rw [hreads.recordType, hlen] at hscan
      simp only [Option.bind_some] at hscan
      rw [← hstop] at hscan
      cases hopt : slot.isOpt with
      | true =>
          have htype : slot.recordType = typeOpt := by simpa [Slot.isOpt] using hopt
          obtain ⟨flags, hflags, hbit⟩ := dnssecOk_ednsOf hreads
          rw [if_pos htype, hreads.dnsClass, hflags] at hscan
          split at hscan
          · cases hscan
          rename_i hfirst
          simp only [Option.bind_some] at hscan
          split at hscan
          · cases hscan
          rw [hbit] at hscan
          have hnone : payload = none := by
            cases payload with
            | none => rfl
            | some size => simp at hfirst
          rcases ih hrest hscan with ⟨hempty, hfound⟩ | ⟨hsome, -⟩
          · refine .inr ⟨hnone, slot, ?_, hfound⟩
            rw [List.filter_cons_of_pos hopt, hempty]
          · cases hsome
      | false =>
          have htype : slot.recordType ≠ typeOpt := by simpa [Slot.isOpt] using hopt
          rw [if_neg htype] at hscan
          split at hscan
          · cases hscan
          rw [List.filter_cons_of_neg (by simp [hopt])]
          exact ih hrest hscan

theorem edns_of_messageOf {layout : Layout} {msg : Message} (h : messageOf layout = some msg) :
    msg.edns = (layout.slots.filter Slot.isOpt).head?.map ednsOf := by
  simp only [messageOf] at h
  split at h
  · cases h
  rename_i hsections
  rw [Bool.not_eq_true, List.any_append, Bool.or_eq_false_iff, List.any_eq_false,
    List.any_eq_false] at hsections
  have hsplit : layout.slots.filter Slot.isOpt =
      (layout.slots.drop (layout.header.answers.toNat + layout.header.authorities.toNat)).filter
        Slot.isOpt := by
    conv_lhs =>
      rw [← List.take_append_drop layout.header.answers.toNat layout.slots,
        ← List.take_append_drop layout.header.authorities.toNat
          (layout.slots.drop layout.header.answers.toNat), List.drop_drop]
    rw [List.filter_append, List.filter_append, List.filter_eq_nil_iff.mpr hsections.1,
      List.filter_eq_nil_iff.mpr hsections.2, List.nil_append, List.nil_append]
  rw [hsplit]
  split at h
  · rename_i hnone
    cases h
    rw [hnone]
    rfl
  · rename_i opt hone
    split at h
    · cases h
      rw [hone]
      rfl
    · cases h
  · cases h

theorem fields_of_messageOf {layout : Layout} {msg : Message} (h : messageOf layout = some msg) :
    msg.metadata.id = layout.header.id ∧
      msg.metadata.checkingDisabled = bit layout.header.flags.2 4 ∧
      msg.queries = layout.questions.map (·.query) := by
  simp only [messageOf] at h
  split at h
  · cases h
  split at h
  · cases h
    exact ⟨rfl, rfl, rfl⟩
  · split at h
    · cases h
      exact ⟨rfl, rfl, rfl⟩
    · cases h
  · cases h

/-! ## Both paths -/

/-- What the fast path read, where it succeeded. -/
structure ReadsQuery (buf : Bytes) (header : Header) (p : ParsedQuery) : Prop where
  single : header.questions = 1
  id : p.id = header.id
  checkingDisabled : p.checkingDisabled = (header.flags.2 &&& 0x10 != 0)
  recursionDesired : p.recursionDesired = (header.flags.1 &&& 0x01 != 0)
  opcode : p.opcode = (header.flags.1 >>> 3) &&& 0x0F
  question : ∃ pos, readQuestionName buf 12 = some (p.qname, pos) ∧
    u16At buf pos = some p.qtype ∧ u16At buf (pos + 2) = some p.qclass ∧
    scanEdns buf (header.answers.toNat + header.authorities.toNat) header.records 0 (pos + 4)
      none false = some (p.ednsPayload, p.dnssecOk)

theorem readsQuery_of_parseQuery {buf : Bytes} {header : Header} {p : ParsedQuery}
    (hheader : readHeader buf = some header) (h : parseQuery buf = some p) :
    ReadsQuery buf header p := by
  simp only [readHeader, Option.bind_eq_bind, Option.bind_eq_some_iff, Option.some.injEq] at hheader
  obtain ⟨id, hid, b2, hb2, b3, hb3, qd, hqd, an, han, ns, hns, ar, har, rfl⟩ := hheader
  rw [parseQuery] at h
  split at h
  · cases h
  simp only [hid, hb2, hb3, hqd, han, hns, har, Option.bind_eq_bind, Option.bind_some] at h
  split at h
  · cases h
  rename_i hsingle
  simp only [Option.bind_eq_some_iff, Prod.exists] at h
  obtain ⟨qname, pos, hname, h⟩ := h
  split at h
  · cases h
  simp only [Option.bind_eq_some_iff, Prod.exists, Option.some.injEq] at h
  obtain ⟨qtype, htype, qclass, hclass, payload, dnssecOk, hscan, rfl⟩ := h
  exact ⟨not_not.mp hsingle, rfl, rfl, rfl, rfl, pos, hname, htype, hclass, hscan⟩

/-- The question and the EDNS record both paths have read. -/
structure BothRead (bytes : Bytes) (parsed : ParsedQuery) (msg : Message) (layout : Layout) :
    Prop where
  message : messageOf layout = some msg
  header : ReadsQuery bytes layout.header parsed
  question : ∃ q, layout.questions = [q] ∧ parsed.qname = nameToAscii q.query.name ∧
    parsed.qtype = q.query.queryType ∧ parsed.qclass = q.query.queryClass
  edns : (layout.slots.filter Slot.isOpt = [] ∧ parsed.ednsPayload = none ∧
      parsed.dnssecOk = false) ∨
    ∃ opt, layout.slots.filter Slot.isOpt = [opt] ∧ parsed.ednsPayload = some opt.dnsClass ∧
      parsed.dnssecOk = (ednsOf opt).dnssecOk

theorem bothRead_of_accepted {bytes : Bytes} {parsed : ParsedQuery} {msg : Message}
    (hfast : parseQuery bytes = some parsed) (hfull : decode bytes = some msg) :
    ∃ layout, BothRead bytes parsed msg layout := by
  obtain ⟨layout, hlayout, hmessage⟩ := Option.bind_eq_some_iff.mp hfull
  simp only [readLayout, Option.bind_eq_bind, Option.bind_eq_some_iff, Option.some.injEq,
    Prod.exists] at hlayout
  obtain ⟨header, hheader, questions, records, hquestions, slots, hslots, rfl⟩ := hlayout
  have hread := readsQuery_of_parseQuery hheader hfast
  obtain ⟨pos, hname, htype, hclass, hscan⟩ := hread.question
  -- the one question
  obtain ⟨hcount, hat⟩ := readQuestions_eq_some.mp hquestions
  rw [hread.single] at hcount
  obtain ⟨q, rfl⟩ := List.length_eq_one_iff.mp hcount
  obtain ⟨hstart, hreads, rfl⟩ := hat
  have hfullName := hreads.name
  rw [hstart] at hfullName
  obtain ⟨rfl, hshown⟩ := readQuestionName_eq hname hfullName
  have hqtype := Option.some.inj (htype.symm.trans hreads.queryType)
  have hqclass := Option.some.inj (hclass.symm.trans hreads.queryClass)
  -- the records after it
  obtain ⟨hslotCount, hrecords⟩ := readRecords_eq_some.mp hslots
  rw [← hslotCount] at hscan
  refine ⟨_, hmessage, hread, ⟨q, rfl, hshown, hqtype, hqclass⟩, ?_⟩
  rcases scanEdns_eq hrecords hscan with ⟨hnone, hfound⟩ | ⟨-, opt, hone, hfound⟩
  · obtain ⟨hpayload, hdnssec⟩ := Prod.mk.inj hfound
    exact .inl ⟨hnone, hpayload, hdnssec⟩
  · obtain ⟨hpayload, hdnssec⟩ := Prod.mk.inj hfound
    exact .inr ⟨opt, hone, hpayload, hdnssec⟩

theorem BothRead.ednsFields {bytes : Bytes} {parsed : ParsedQuery} {msg : Message}
    {layout : Layout} (h : BothRead bytes parsed msg layout) :
    msg.dnssecOk = parsed.dnssecOk ∧
      max ((msg.edns.map Edns.maxPayload).getD 512).toNat 512 =
        max (parsed.ednsPayload.getD 512).toNat 512 := by
  rw [Message.dnssecOk, edns_of_messageOf h.message]
  rcases h.edns with ⟨hnone, hpayload, hdnssec⟩ | ⟨opt, hone, hpayload, hdnssec⟩
  · rw [hnone, hpayload, hdnssec]
    exact ⟨rfl, rfl⟩
  · rw [hone, hpayload, hdnssec]
    refine ⟨rfl, ?_⟩
    simp only [List.head?_cons, Option.map_some, Option.getD_some, ednsOf]
    split
    · rename_i hsmall
      have : opt.dnsClass.toNat < 512 := hsmall
      rw [Nat.max_eq_right (Nat.le_of_lt this)]
      rfl
    · rfl

theorem BothRead.fields {bytes : Bytes} {parsed : ParsedQuery} {msg : Message}
    {layout : Layout} (h : BothRead bytes parsed msg layout) :
    QueryFields.fromMessage msg = some (QueryFields.fromParsed parsed) := by
  obtain ⟨q, hq, hshown, hqtype, hqclass⟩ := h.question
  obtain ⟨hmsgId, hmsgChecking, hmsgQueries⟩ := fields_of_messageOf h.message
  rw [QueryFields.fromMessage, hmsgQueries, hmsgId, hmsgChecking, h.ednsFields.1, hq]
  simp only [List.map_cons, List.head?_cons, Option.map_some, QueryFields.fromParsed,
    hshown, hqtype, hqclass, h.header.id, h.header.checkingDisabled, checkingBit_eq]

/--
Where the fast path and the decoder both accept a query, they take the same fields
from it, advertise the same payload and name the same cache entry.
-/
theorem fromMessage_eq_fromParsed {bytes : Bytes} {parsed : ParsedQuery} {msg : Message}
    (hfast : parseQuery bytes = some parsed) (hfull : decode bytes = some msg) :
    QueryFields.fromMessage msg = some (QueryFields.fromParsed parsed) ∧
      (Ingress.full msg).udpMaxPayload = (Ingress.fast bytes parsed).udpMaxPayload ∧
      QueryKey.fromMessage msg = some (QueryFields.fromParsed parsed).key := by
  obtain ⟨layout, hboth⟩ := bothRead_of_accepted hfast hfull
  have hfields := hboth.fields
  refine ⟨hfields, ?_, ?_⟩
  · simp only [Ingress.udpMaxPayload, hboth.ednsFields.2]
  · have hkey : QueryKey.fromMessage msg =
        (QueryFields.fromMessage msg).map QueryFields.key := by
      rw [QueryKey.fromMessage, QueryFields.fromMessage, Option.map_map]
      rfl
    rw [hkey, hfields]
    rfl

def mixedQuery : Bytes :=
  [0x12, 0x34, 0x01, 0x10, 0, 1, 0, 0, 0, 0, 0, 1,
    3, 65, 45, 98, 1, 42, 0, 0, 28, 0, 1,
    0, 0, 41, 1, 0, 0, 0, 0x80, 0, 0, 0]

def mixedParsed : ParsedQuery where
  id := 0x1234
  recursionDesired := true
  checkingDisabled := true
  opcode := 0
  qname := ['A', '-', 'b', '.', '*', '.']
  qtype := typeAaaa
  qclass := 1
  ednsPayload := some 256
  dnssecOk := true

def mixedMessage : Message where
  metadata := ⟨0x1234, false, 0, false, false, true, false, false, true, 0⟩
  queries := [⟨[[65, 45, 98], [42]], typeAaaa, 1⟩]
  answers := []
  authorities := []
  additionals := []
  edns := some ⟨512, 0, 0, 0x8000, [.raw []]⟩

theorem fromMessage_mixedQuery :
    parseQuery mixedQuery = some mixedParsed ∧ decode mixedQuery = some mixedMessage ∧
      QueryFields.fromMessage mixedMessage = some (QueryFields.fromParsed mixedParsed) := by
  have hfast : parseQuery mixedQuery = some mixedParsed := by decide +kernel
  have hfull : decode mixedQuery = some mixedMessage := by decide +kernel
  exact ⟨hfast, hfull, (fromMessage_eq_fromParsed hfast hfull).1⟩

end Bulwark.Engine
