import Mathlib.Data.Rat.Defs
import Bulwark.Dns.Message

/-!
# Transports

What is common to the transports: the check of a reply against its query, the EDNS data
that is sent on, and the demultiplexer of a shared connection, which tells replies apart
by a 16-bit id of its own.
-/

namespace Bulwark.Upstream

open Bulwark.Foundation Bulwark.Dns

inductive UpstreamError where
  | timeout
  | io (text : Text)
  | proto (text : Text)
  | rcode (code : UInt16)
  | tls (text : Text)
  | quic (text : Text)
  | http (text : Text)
  | bootstrap (host : Text)
  | noUpstreams
  | allFailed (last : UpstreamError)
  deriving DecidableEq, Repr

/-! ## Replies -/

def lowerByte (b : UInt8) : UInt8 := if 65 ≤ b && b ≤ 90 then b + 32 else b

/-- Labels that differ in the case of ASCII letters only. -/
def foldCase (name : Name) : Name := name.map fun label => label.map lowerByte

/-- `Name::eq_ignore_root` on fully qualified names. -/
def eqIgnoreRoot (a b : Name) : Bool := foldCase a = foldCase b

/-- The id and the first question of a response are those of its query. -/
def matchesQuery (query response : Message) : Bool :=
  query.metadata.id = response.metadata.id &&
    match query.queries.head?, response.queries.head? with
    | some q, some r =>
        q.queryType = r.queryType && q.queryClass = r.queryClass && eqIgnoreRoot q.name r.name
    | some _, none => true
    | none, _ => false

inductive TransportKind where
  | udp
  | tcp
  | tls
  | https
  | quic
  deriving DecidableEq, Repr

/-- What a transport says of a reply to another query; TCP waits for the next one instead. -/
def mismatch : TransportKind → UpstreamError
  | .udp => .proto "UDP response does not match query".toList
  | .tcp => .proto []
  | .tls => .proto "DoT response does not match query".toList
  | .https => .http "DoH response does not match query".toList
  | .quic => .proto "DoQ response does not match query".toList

/-- The reply with the id of the query, unless it does not match. -/
def acceptReply (kind : TransportKind) (query reply : Message) : Except UpstreamError Message :=
  let reply := reply.withId query.metadata.id
  if matchesQuery query reply then .ok reply else .error (mismatch kind)

theorem matchesQuery_of_acceptReply {kind : TransportKind} {query reply msg : Message}
    (h : acceptReply kind query reply = .ok msg) : matchesQuery query msg = true := by
  rw [acceptReply] at h
  split at h
  · cases h
    assumption
  · cases h

/-! ## EDNS data -/

def maxUdpPayload : UInt16 := 4096

def Edns.hasOptions (edns : Edns) : Bool := edns.options.any (· ≠ .raw [])

/-- Without the options, which the key does not have, and with a smaller payload. -/
def Edns.clean (edns : Edns) : Edns where
  maxPayload := if edns.maxPayload ≤ maxUdpPayload then edns.maxPayload else maxUdpPayload
  rcodeHigh := 0
  version := edns.version
  flags := if edns.dnssecOk then 0x8000 else 0
  options := [.raw []]

def normalizeUpstreamEdns (msg : Message) : Message :=
  match msg.edns with
  | none => msg
  | some edns =>
      if !Edns.hasOptions edns && edns.maxPayload ≤ maxUdpPayload then msg
      else { msg with edns := some (Edns.clean edns) }

theorem fromMessage_normalizeUpstreamEdns (msg : Message) :
    QueryKey.fromMessage (normalizeUpstreamEdns msg) = QueryKey.fromMessage msg := by
  rw [normalizeUpstreamEdns]
  cases hedns : msg.edns with
  | none => rfl
  | some edns =>
      dsimp only
      split
      · rfl
      · have hdnssec : (Edns.clean edns).dnssecOk = edns.dnssecOk := by
          rw [Edns.clean, Bulwark.Dns.Edns.dnssecOk]
          cases edns.dnssecOk <;> rfl
        simp only [QueryKey.fromMessage, Message.dnssecOk, hedns, Option.any_some, hdnssec]

theorem normalizeUpstreamEdns_frame (msg : Message) :
    (normalizeUpstreamEdns msg).metadata = msg.metadata ∧
      (normalizeUpstreamEdns msg).queries = msg.queries ∧
      (normalizeUpstreamEdns msg).edns.isSome = msg.edns.isSome := by
  rw [normalizeUpstreamEdns]
  cases hedns : msg.edns with
  | none => simp [hedns]
  | some edns =>
      dsimp only
      split
      · simp [hedns]
      · exact ⟨rfl, rfl, rfl⟩

/-! ## Verdicts on response codes -/

inductive ReplyClass where
  | answer
  | reject
  | softFail
  deriving DecidableEq, Repr

def classify (resp : Message) : ReplyClass :=
  let code := resp.metadata.responseCode
  if code = 5 ∨ code = 4 then .reject
  else if code = 2 ∨ code = 1 then .softFail
  else .answer

/-! ## The question a reply answers -/

/-- The first question, where there is one, asks for the key. -/
def AnswersKey (key : QueryKey) (msg : Message) : Prop :=
  ∀ q, msg.queries.head? = some q →
    toAsciiLowercase (nameToAscii q.name) = key.name ∧ q.queryType = key.rtype ∧
      q.queryClass = key.dnsClass

private theorem lower_escapeByte (b : UInt8) (isFirst : Bool) :
    toAsciiLowercase (escapeByte (lowerByte b) isFirst) =
      toAsciiLowercase (escapeByte b isFirst) := by
  revert b
  cases isFirst
  · exact forall_byte (by decide +kernel)
  · exact forall_byte (by decide +kernel)

private theorem lower_flatMap_escape (bs : Bytes) :
    toAsciiLowercase ((bs.map lowerByte).flatMap fun b => escapeByte b false) =
      toAsciiLowercase (bs.flatMap fun b => escapeByte b false) := by
  induction bs with
  | nil => rfl
  | cons b bs ih =>
      rw [List.map_cons, List.flatMap_cons, List.flatMap_cons, toAsciiLowercase_append,
        toAsciiLowercase_append, lower_escapeByte, ih]

private theorem lower_labelToAscii (label : Label) :
    toAsciiLowercase (labelToAscii (label.map lowerByte)) =
      toAsciiLowercase (labelToAscii label) := by
  cases label with
  | nil => rfl
  | cons b bs =>
      rw [List.map_cons, labelToAscii, labelToAscii, toAsciiLowercase_append,
        toAsciiLowercase_append, lower_escapeByte, lower_flatMap_escape]

theorem lower_nameToAscii_foldCase (name : Name) :
    toAsciiLowercase (nameToAscii (foldCase name)) = toAsciiLowercase (nameToAscii name) := by
  have hmap : ∀ name : Name,
      toAsciiLowercase ((foldCase name).flatMap fun label => labelToAscii label ++ ['.']) =
        toAsciiLowercase (name.flatMap fun label => labelToAscii label ++ ['.']) := by
    intro name
    induction name with
    | nil => rfl
    | cons label name ih =>
        rw [foldCase, List.map_cons, List.flatMap_cons, List.flatMap_cons,
          toAsciiLowercase_append, toAsciiLowercase_append, toAsciiLowercase_append,
          toAsciiLowercase_append, lower_labelToAscii]
        exact congrArg _ ih
  rw [nameToAscii, nameToAscii]
  cases name with
  | nil => rfl
  | cons label name =>
      rw [if_neg (by simp [foldCase]), if_neg (by simp)]
      exact hmap _

theorem answersKey_of_matchesQuery {query reply : Message} {key : QueryKey}
    (hkey : QueryKey.fromMessage query = some key) (h : matchesQuery query reply = true) :
    reply.metadata.id = query.metadata.id ∧ AnswersKey key reply := by
  rw [matchesQuery, Bool.and_eq_true, decide_eq_true_eq] at h
  obtain ⟨hid, hquestion⟩ := h
  refine ⟨hid.symm, fun r hr => ?_⟩
  rw [QueryKey.fromMessage, Option.map_eq_some_iff] at hkey
  obtain ⟨q, hq, rfl⟩ := hkey
  rw [hq, hr] at hquestion
  simp only [Bool.and_eq_true, decide_eq_true_eq, eqIgnoreRoot] at hquestion
  obtain ⟨⟨htype, hclass⟩, hname⟩ := hquestion
  refine ⟨?_, htype.symm, hclass.symm⟩
  dsimp only
  rw [← lower_nameToAscii_foldCase r.name, ← hname, lower_nameToAscii_foldCase]

end Bulwark.Upstream
