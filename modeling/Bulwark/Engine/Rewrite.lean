import Bulwark.Foundation.Literal
import Bulwark.Filter.Dnsrewrite
import Bulwark.Engine.QuestionName

/-!
# Answers of rewrite rules

What `parse_dnsrewrite` accepts against what `rewrite_response` makes of it.  The parser
takes any text for a text record and any for a name; the response holds the text as one
character-string, which has no encoding beyond 255 bytes, and the root where the name is
none.
-/

namespace Bulwark.Engine

open Bulwark.Foundation Bulwark.Dns Bulwark.Filter

/-! ## Names and the encoder -/

/-- Labels of at most 63 bytes, in at most 255 bytes on the wire. -/
def FitsWire (name : Name) : Prop :=
  (∀ label ∈ name, label ≠ [] ∧ label.length ≤ 63) ∧ wireLen name ≤ 255

/-- `Name::from_str` -/
structure NameParser where
  parse : Text → Option Name
  fits : ∀ {t name}, parse t = some name → FitsWire name

inductive RData where
  | a (addr : Ipv4Addr)
  | aaaa (addr : Ipv6Addr)
  | cname (name : Name)
  | txt (text : Text)
  | mx (preference : Nat) (exchange : Name)
  | ptr (name : Name)
  deriving DecidableEq, Repr

namespace RData

def recordType : RData → UInt16
  | .a _ => typeA
  | .aaaa _ => typeAaaa
  | .cname _ => typeCname
  | .txt _ => typeTxt
  | .mx _ _ => typeMx
  | .ptr _ => typePtr

def fields : RData → List Field
  | .a addr => dataA addr
  | .aaaa addr => dataAaaa addr
  | .cname name | .ptr name => [.name name]
  | .txt text => dataTxt text
  | .mx preference exchange => dataMx preference exchange

/-- The data has a form on the wire. -/
def Fits : RData → Prop
  | .a _ | .aaaa _ => True
  | .cname name | .ptr name | .mx _ name => FitsWire name
  | .txt text => (utf8Bytes text).length ≤ 255

end RData

def answered (query : Message) (ttl : UInt32) (data : RData) : Message :=
  pushAnswer (base query) (fromRdata (qname query) data.recordType ttl data.fields)

/--
`Message::to_vec` on what is synthesized for a query that was received: the shell is written,
and one record with it just if its data has a form on the wire.
-/
structure ReplyEncoder where
  toVec : Message → Option Bytes
  shell : ∀ {bytes query}, decode bytes = some query → ∀ code,
    (toVec (withRcode (base query) code)).isSome = true
  answer : ∀ {bytes query}, decode bytes = some query → ∀ ttl data,
    (toVec (answered query ttl data)).isSome = true ↔ data.Fits

/-! ## Faithful answers -/

/-- The query is of the record type of the data; a CNAME is an answer to every type. -/
def TypeMatches (qt : UInt16) : RewriteData → Prop
  | .a _ => qt = typeA
  | .aaaa _ => qt = typeAaaa
  | .txt _ => qt = typeTxt
  | .mx _ _ => qt = typeMx
  | .ptr _ => qt = typePtr
  | .cname _ | .rcode _ => True

/-- The answer is the configured address, text, target or exchange, or the response code. -/
def CarriesData (names : NameParser) (query : Message) (ttl : UInt32) (msg : Message) :
    RewriteData → Prop
  | .a addr => msg = answered query ttl (.a addr)
  | .aaaa addr => msg = answered query ttl (.aaaa addr)
  | .txt text => msg = answered query ttl (.txt text)
  | .cname target => ∃ name, names.parse target = some name ∧ msg = answered query ttl (.cname name)
  | .ptr target => ∃ name, names.parse target = some name ∧ msg = answered query ttl (.ptr name)
  | .mx preference exchange => ∃ name, names.parse exchange = some name ∧
      msg = answered query ttl (.mx preference name)
  | .rcode code => msg = withRcode (base query) (Engine.rewriteRcode code)

structure AnsweredFaithfully (e : ReplyEncoder) (names : NameParser) (data : RewriteData)
    (query : Message) (ttl : UInt32) : Prop where
  encodes : (e.toVec (rewriteResponse names.parse query data ttl).message).isSome = true
  carries : CarriesData names query ttl (rewriteResponse names.parse query data ttl).message data
  /-- What is resolved next is the configured target. -/
  resolves : ∀ msg name, rewriteResponse names.parse query data ttl = .resolveCname msg name →
    ∃ target, data = .cname target ∧ names.parse target = some name

/-- The values that are accepted and have no faithful answer, trimmed. -/
inductive Unanswerable (names : NameParser) : Text → Prop
  | text {code rtype data : Text} : ';' ∉ code → ';' ∉ rtype →
      toAsciiUppercase rtype = "TXT".toList →
        255 < (utf8Bytes (trimMatches doubleQuote data)).length →
          Unanswerable names (fullForm code rtype data)
  | target {code rtype data : Text} : ';' ∉ code → ';' ∉ rtype →
      toAsciiUppercase rtype = "CNAME".toList ∨ toAsciiUppercase rtype = "PTR".toList →
        names.parse (normDomain data) = none → Unanswerable names (fullForm code rtype data)
  | exchange {code rtype data preference exchange : Text} {rest : List Text} :
      ';' ∉ code → ';' ∉ rtype → toAsciiUppercase rtype = "MX".toList →
        splitWhitespace data = preference :: exchange :: rest →
          names.parse (normDomain exchange) = none → Unanswerable names (fullForm code rtype data)
  | hostname {v : Text} : '.' ∈ v → ';' ∉ v → parseIpAddr v = none →
      names.parse (normDomain v) = none → Unanswerable names v

/-! ## Data that can be answered -/

def Answerable (names : NameParser) : RewriteData → Prop
  | .txt text => (utf8Bytes text).length ≤ 255
  | .cname target | .ptr target | .mx _ target => (names.parse target).isSome = true
  | .a _ | .aaaa _ | .rcode _ => True

section

variable (e : ReplyEncoder) (names : NameParser) {bytes : Bytes} {query : Message} (ttl : UInt32)

theorem encodes_target (hquery : decode bytes = some query) (target : Text) {make : Name → RData}
    (hmake : ∀ name, (make name).Fits ↔ FitsWire name) :
    (e.toVec (answered query ttl (make ((names.parse target).getD [])))).isSome = true := by
  rw [e.answer hquery, hmake]
  cases hparse : names.parse target with
  | none => exact ⟨by simp, by decide⟩
  | some name => exact names.fits hparse

theorem carries_target (target : Text) (make : Name → RData) :
    (∃ name, names.parse target = some name ∧
      answered query ttl (make ((names.parse target).getD [])) = answered query ttl (make name)) ↔
      (names.parse target).isSome = true := by
  cases names.parse target <;> simp

theorem answeredFaithfully_iff (hquery : decode bytes = some query) {data : RewriteData}
    (hasks : TypeMatches (qtype query) data) :
    AnsweredFaithfully e names data query ttl ↔ Answerable names data := by
  have hdone : ∀ {msg : Message}, rewriteResponse names.parse query data ttl = .done msg →
      (AnsweredFaithfully e names data query ttl ↔
        (e.toVec msg).isSome = true ∧ CarriesData names query ttl msg data) := by
    intro msg hmsg
    constructor
    · intro h
      have hcarries := h.carries
      have hencodes := h.encodes
      rw [hmsg] at hcarries hencodes
      exact ⟨hencodes, hcarries⟩
    · rintro ⟨hencodes, hcarries⟩
      refine ⟨by rw [hmsg]; exact hencodes, by rw [hmsg]; exact hcarries, fun msg' name h => ?_⟩
      rw [hmsg] at h
      cases h
  cases data with
  | a addr =>
      have hresponse : rewriteResponse names.parse query (.a addr) ttl =
          .done (answered query ttl (.a addr)) := congrArg Rewritten.done (if_pos hasks)
      rw [hdone hresponse, e.answer hquery]
      exact iff_of_true ⟨trivial, rfl⟩ trivial
  | aaaa addr =>
      have hresponse : rewriteResponse names.parse query (.aaaa addr) ttl =
          .done (answered query ttl (.aaaa addr)) := congrArg Rewritten.done (if_pos hasks)
      rw [hdone hresponse, e.answer hquery]
      exact iff_of_true ⟨trivial, rfl⟩ trivial
  | txt text =>
      have hresponse : rewriteResponse names.parse query (.txt text) ttl =
          .done (answered query ttl (.txt text)) := congrArg Rewritten.done (if_pos hasks)
      rw [hdone hresponse, e.answer hquery]
      exact and_iff_left rfl
  | mx preference exchange =>
      have hresponse : rewriteResponse names.parse query (.mx preference exchange) ttl =
          .done (answered query ttl (.mx preference ((names.parse exchange).getD []))) :=
        congrArg Rewritten.done (if_pos hasks)
      have hencodes := @encodes_target e names _ _ ttl hquery exchange (.mx preference)
        fun _ => Iff.rfl
      rw [hdone hresponse]
      exact (and_iff_right hencodes).trans (carries_target names ttl exchange (.mx preference))
  | ptr target =>
      have hresponse : rewriteResponse names.parse query (.ptr target) ttl =
          .done (answered query ttl (.ptr ((names.parse target).getD []))) :=
        congrArg Rewritten.done (if_pos hasks)
      have hencodes := @encodes_target e names _ _ ttl hquery target .ptr fun _ => Iff.rfl
      rw [hdone hresponse]
      exact (and_iff_right hencodes).trans (carries_target names ttl target .ptr)
  | cname target =>
      have hencodes := @encodes_target e names _ _ ttl hquery target .cname fun _ => Iff.rfl
      have hcarries := @carries_target names query ttl target .cname
      by_cases haddress : qtype query = typeA ∨ qtype query = typeAaaa
      · have hresponse : rewriteResponse names.parse query (.cname target) ttl =
            .resolveCname (answered query ttl (.cname ((names.parse target).getD [])))
              ((names.parse target).getD []) := if_pos haddress
        constructor
        · intro h
          have hmsg := h.carries
          rw [hresponse] at hmsg
          exact hcarries.mp hmsg
        · intro h
          obtain ⟨name, hname⟩ := Option.isSome_iff_exists.mp h
          refine ⟨by rw [hresponse]; exact hencodes, by rw [hresponse]; exact hcarries.mpr h, ?_⟩
          intro msg next hnext
          rw [hresponse] at hnext
          cases hnext
          exact ⟨target, rfl, by simp [hname]⟩
      · have hresponse : rewriteResponse names.parse query (.cname target) ttl =
            .done (answered query ttl (.cname ((names.parse target).getD []))) :=
          if_neg haddress
        rw [hdone hresponse]
        exact (and_iff_right hencodes).trans hcarries
  | rcode code =>
      have hresponse : rewriteResponse names.parse query (.rcode code) ttl =
          .done (withRcode (base query) (Engine.rewriteRcode code)) := rfl
      rw [hdone hresponse]
      exact iff_of_true ⟨e.shell hquery _, rfl⟩ trivial

end

/-! ## Values without a faithful answer -/

section

variable {names : NameParser}

theorem fullForm_inj {code rtype text code' rtype' text' : Text} (hcode : ';' ∉ code)
    (hrtype : ';' ∉ rtype) (hcode' : ';' ∉ code') (hrtype' : ';' ∉ rtype')
    (h : fullForm code rtype text = fullForm code' rtype' text') :
    rtype = rtype' ∧ text = text' := by
  have hsplit := congrArg (splitn ';' 3) h
  rw [splitn_fullForm hcode hrtype, splitn_fullForm hcode' hrtype'] at hsplit
  cases hsplit
  exact ⟨rfl, rfl⟩

theorem unanswerable_full_iff {code rtype text : Text} (hcode : ';' ∉ code)
    (hrtype : ';' ∉ rtype) :
    Unanswerable names (fullForm code rtype text) ↔
      (toAsciiUppercase rtype = "TXT".toList ∧
        255 < (utf8Bytes (trimMatches doubleQuote text)).length) ∨
      ((toAsciiUppercase rtype = "CNAME".toList ∨ toAsciiUppercase rtype = "PTR".toList) ∧
        names.parse (normDomain text) = none) ∨
      (toAsciiUppercase rtype = "MX".toList ∧ ∃ preference exchange rest,
        splitWhitespace text = preference :: exchange :: rest ∧
          names.parse (normDomain exchange) = none) := by
  constructor
  · generalize hv : fullForm code rtype text = v
    intro h
    cases h with
    | text hcode' hrtype' htype hlen =>
        obtain ⟨rfl, rfl⟩ := fullForm_inj hcode hrtype hcode' hrtype' hv
        exact .inl ⟨htype, hlen⟩
    | target hcode' hrtype' htype hparse =>
        obtain ⟨rfl, rfl⟩ := fullForm_inj hcode hrtype hcode' hrtype' hv
        exact .inr (.inl ⟨htype, hparse⟩)
    | exchange hcode' hrtype' htype hwords hparse =>
        obtain ⟨rfl, rfl⟩ := fullForm_inj hcode hrtype hcode' hrtype' hv
        exact .inr (.inr ⟨htype, _, _, _, hwords, hparse⟩)
    | hostname hdot hsemi hip hparse =>
        rw [← hv] at hsemi
        exact absurd (semicolon_mem_fullForm code rtype text) hsemi
  · rintro (⟨htype, hlen⟩ | ⟨htype, hparse⟩ | ⟨htype, preference, exchange, rest, hwords, hparse⟩)
    · exact .text hcode hrtype htype hlen
    · exact .target hcode hrtype htype hparse
    · exact .exchange hcode hrtype htype hwords hparse

theorem unanswerable_name_iff {v : Text} (hsemi : ';' ∉ v) :
    Unanswerable names v ↔
      '.' ∈ v ∧ parseIpAddr v = none ∧ names.parse (normDomain v) = none := by
  constructor
  · intro h
    cases h with
    | hostname hdot hsemi hip hparse => exact ⟨hdot, hip, hparse⟩
    | _ => exact absurd (semicolon_mem_fullForm _ _ _) hsemi
  · rintro ⟨hdot, hip, hparse⟩
    exact .hostname hdot hsemi hip hparse

theorem keyword_noDot {v : Text} (h : isKeyword v = true) : '.' ∉ v := by
  obtain ⟨c, hc⟩ := Option.isSome_iff_exists.mp h
  intro hmem
  have hupper : '.' ∈ toAsciiUppercase v := List.mem_map.mpr ⟨'.', hmem, by decide⟩
  revert hupper
  rcases keyword_of_rcode hc with h | h | h | h <;> rw [h] <;> decide

theorem unanswerable_record_iff {code rtype text : Text} {data : RewriteData}
    (hcode : ';' ∉ code) (hrtype : ';' ∉ rtype)
    (h : rewriteByType (toAsciiUppercase rtype) text = some (.ok data)) :
    Unanswerable names (fullForm code rtype text) ↔ ¬ Answerable names data := by
  rw [unanswerable_full_iff hcode hrtype]
  unfold rewriteByType at h
  split_ifs at h with ha haaaa hcname htxt hptr hmx
  · cases haddr : parseIpv4Addr text <;> simp [haddr, orInvalid] at h
    subst h
    simp [ha, Answerable]
  · cases haddr : parseIpv6Addr text <;> simp [haddr, orInvalid] at h
    subst h
    simp [haaaa, Answerable]
  · cases h
    simp [hcname, Answerable]
  · cases h
    simp [htxt, Answerable]
  · cases h
    simp [hptr, Answerable]
  · cases hwords : splitWhitespace text with
    | nil => simp [hwords, orInvalid] at h
    | cons preference words =>
        cases words with
        | nil => simp [hwords, orInvalid] at h
        | cons exchange rest =>
            cases hpref : parseU16 preference with
            | none => simp [hwords, hpref, orInvalid] at h
            | some p =>
                simp [hwords, hpref, orInvalid] at h
                subst h
                simp [hmx, Answerable]

theorem unanswerable_iff {value : Text} {data : RewriteData}
    (h : parseDnsrewrite value = .ok data) :
    Unanswerable names (trim value) ↔ ¬ Answerable names data := by
  rcases parse_eq_ok h with ⟨hkey, c, rfl⟩ | ⟨ip, hip, rfl⟩ |
    ⟨code, rtype, text, heq, hcode, hrtype, hdata⟩ | ⟨hdot, hsemi, hip, rfl⟩
  · rw [unanswerable_name_iff (keyword_noSemicolon hkey)]
    simp [keyword_noDot hkey, Answerable]
  · rw [unanswerable_name_iff (literal_not_mem hip (by decide))]
    cases ip <;> simp [hip, ipRewrite, Answerable]
  · rw [heq]
    exact unanswerable_record_iff hcode hrtype hdata
  · rw [unanswerable_name_iff hsemi]
    simp [hdot, hip, Answerable]

end

/--
Exactly when an accepted rewrite is answered faithfully, for every query that is received and
is of its record type: its value holds no text that is too long and no name that is none.
-/
theorem rewrite_answered_iff (e : ReplyEncoder) (names : NameParser) {value : Text}
    {data : RewriteData} (hparse : parseDnsrewrite value = .ok data) {bytes : Bytes}
    {query : Message} (hquery : decode bytes = some query)
    (hasks : TypeMatches (qtype query) data) (ttl : UInt32) :
    AnsweredFaithfully e names data query ttl ↔ ¬ Unanswerable names (trim value) := by
  rw [answeredFaithfully_iff e names ttl hquery hasks, unanswerable_iff hparse, not_not]

/-! ## A name parser and an encoder -/

instance (name : Name) : Decidable (FitsWire name) :=
  inferInstanceAs (Decidable ((∀ label ∈ name, label ≠ [] ∧ label.length ≤ 63) ∧ _))

/-- Labels between dots; the root is a dot or nothing. -/
def plainLabels (t : Text) : Name :=
  let t := if t.getLast? = some '.' then t.dropLast else t
  if t = [] then [] else (t.splitOn '.').map utf8Bytes

def plainNames : NameParser where
  parse t := (some (plainLabels t)).filter fun name => FitsWire name
  fits := by
    intro t name h
    rw [Option.filter_eq_some_iff] at h
    exact of_decide_eq_true h.2

def fieldBytes : Field → Bytes
  | .name name => nameWire name
  | .raw bytes => bytes

def fieldFits : Field → Bool
  | .name name => decide (FitsWire name)
  | .raw bytes => bytes.length ≤ 256

/-- The owner is that of the question, which is the first name of the message. -/
def answerBytes (r : Record) : Bytes :=
  let data := r.data.flatMap fieldBytes
  [192, 12] ++ toBe 2 r.recordType.toNat ++ toBe 2 r.dnsClass.toNat ++ toBe 4 r.ttl.toNat ++
    toBe 2 data.length ++ data

def questionBytes (q : Query) : Bytes :=
  nameWire q.name ++ toBe 2 q.queryType.toNat ++ toBe 2 q.queryClass.toNat

def replyBytes (msg : Message) : Bytes :=
  let m := msg.metadata
  toBe 2 m.id.toNat ++
    [UInt8.ofNat (128 + m.opCode.toNat % 16 * 8 + m.recursionDesired.toNat),
      UInt8.ofNat (128 + m.responseCode.toNat % 16)] ++
    toBe 2 msg.queries.length ++ toBe 2 msg.answers.length ++ [0, 0, 0, 0] ++
    msg.queries.flatMap questionBytes ++ msg.answers.flatMap answerBytes

def plainEncoder : ReplyEncoder where
  toVec msg :=
    if msg.answers.all fun r => r.data.all fieldFits then some (replyBytes msg) else none
  shell _ _ := rfl
  answer := by
    intro bytes query hquery ttl data
    have hanswers : (answered query ttl data).answers.all (fun r => r.data.all fieldFits) =
        data.fields.all fieldFits := Bool.and_true _
    have hfits : data.fields.all fieldFits = true ↔ data.Fits := by
      cases data with
      | txt text =>
          have htext : (RData.txt text).fields.all fieldFits =
              decide ((utf8Bytes text).length + 1 ≤ 256) := Bool.and_true _
          rw [htext, decide_eq_true_eq, RData.Fits]
          omega
      | _ => simp [RData.fields, RData.Fits, dataA, dataAaaa, dataMx, fieldFits, toBe]
    rw [hanswers, ← hfits]
    cases data.fields.all fieldFits <;> simp

def textQuery : Bytes := [0, 7, 1, 0, 0, 1, 0, 0, 0, 0, 0, 0, 1, 120, 0, 0, 16, 0, 1]

theorem textQuery_decodes :
    ∃ query, decode textQuery = some query ∧ qtype query = typeTxt := by
  obtain ⟨query, hquery, htype⟩ := Option.map_eq_some_iff.mp
    (show (decode textQuery).map qtype = some typeTxt by decide)
  exact ⟨query, hquery, htype⟩

theorem rewrite_answered_iff_text : ∃ query, decode textQuery = some query ∧
    (AnsweredFaithfully plainEncoder plainNames (.txt "hi".toList) query 300 ↔
      ¬ Unanswerable plainNames (trim "NOERROR;TXT;hi".toList)) := by
  obtain ⟨query, hquery, htype⟩ := textQuery_decodes
  have hparse : parseDnsrewrite "NOERROR;TXT;hi".toList = .ok (.txt "hi".toList) := by decide
  exact ⟨query, hquery, rewrite_answered_iff plainEncoder plainNames hparse hquery htype 300⟩

/-- A name with an empty label is accepted as the target, and the root is put in its place. -/
theorem emptyLabel_unanswered : ∃ data query,
    parseDnsrewrite "a..b".toList = .ok data ∧ decode textQuery = some query ∧
      TypeMatches (qtype query) data ∧
        (rewriteResponse plainNames.parse query data 300).message =
          answered query 300 (.cname []) ∧
        ¬ AnsweredFaithfully plainEncoder plainNames data query 300 := by
  obtain ⟨query, hquery, htype⟩ := textQuery_decodes
  have hparse : parseDnsrewrite "a..b".toList = .ok (.cname "a..b".toList) := by decide
  have hname : plainNames.parse ['a', '.', '.', 'b'] = none := by decide
  refine ⟨_, query, hparse, hquery, trivial, ?_, ?_⟩
  · simp [rewriteResponse, htype, hname, Rewritten.message, answered, RData.recordType,
      RData.fields, typeTxt, typeA, typeAaaa]
  · intro h
    obtain ⟨name, hsome, -⟩ := h.carries
    simp [hname] at hsome

end Bulwark.Engine
