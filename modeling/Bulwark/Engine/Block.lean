import Bulwark.Foundation.Net
import Bulwark.Foundation.Utf8
import Bulwark.Filter.Rule
import Bulwark.Engine.Cache

/-!
# Synthesized responses

`block.rs`: blocked, rewritten and error responses.  Each starts from a shell with the id,
opcode, recursion bit, questions and EDNS data of the query.  `parseName` stands for
`Name::from_str`.
-/

namespace Bulwark.Engine

open Bulwark.Foundation Bulwark.Dns

inductive BlockingMode where
  | nxDomain
  | nullIp
  | customIp
  | refused
  | noData
  deriving DecidableEq, Repr

def typePtr : UInt16 := 12
def typeMx : UInt16 := 15
def typeTxt : UInt16 := 16

def classIn : UInt16 := 1

def rcodeFormErr : UInt16 := 1
def rcodeServFail : UInt16 := 2
def rcodeRefused : UInt16 := 5

def base (query : Message) : Message where
  metadata :=
    { id := query.metadata.id
      isResponse := true
      opCode := query.metadata.opCode
      authoritative := false
      truncation := false
      recursionDesired := query.metadata.recursionDesired
      recursionAvailable := true
      authenticData := false
      checkingDisabled := false
      responseCode := rcodeNoError }
  queries := query.queries
  answers := []
  authorities := []
  additionals := []
  edns := query.edns

def qtype (query : Message) : UInt16 := (query.queries.head?.map Query.queryType).getD typeA

def qname (query : Message) : Name := (query.queries.head?.map Query.name).getD []

def withRcode (msg : Message) (code : UInt16) : Message :=
  { msg with metadata := { msg.metadata with responseCode := code } }

def pushAnswer (msg : Message) (r : Record) : Message :=
  { msg with answers := msg.answers ++ [r] }

def pushAuthority (msg : Message) (r : Record) : Message :=
  { msg with authorities := msg.authorities ++ [r] }

/-! ## Record data -/

/-- The `k` bytes of a number, most significant first. -/
def toBe (k n : Nat) : Bytes := (toLe k n).reverse

def dataA (addr : Ipv4Addr) : List Field := [.raw (toBe 4 addr.toNat)]

def dataAaaa (addr : Ipv6Addr) : List Field := [.raw (toBe 16 addr.toNat)]

def dataTxt (text : Text) : List Field :=
  [.raw (UInt8.ofNat (utf8Bytes text).length :: utf8Bytes text)]

def dataMx (preference : Nat) (exchange : Name) : List Field :=
  [.raw (toBe 2 preference), .name exchange]

/-- `Record::from_rdata` -/
def fromRdata (name : Name) (recordType : UInt16) (ttl : UInt32) (data : List Field) : Record :=
  ⟨name, recordType, classIn, ttl, data⟩

def pushIp (msg : Message) (name : Name) (ttl : UInt32) (v4 : Ipv4Addr) (v6 : Ipv6Addr) :
    Message :=
  if qtype msg = typeA then pushAnswer msg (fromRdata name typeA ttl (dataA v4))
  else if qtype msg = typeAaaa then pushAnswer msg (fromRdata name typeAaaa ttl (dataAaaa v6))
  else msg

section

variable (parseName : Text → Option Name)

/-- An SOA record for negative caching (RFC 2308); its timers are signed. -/
def negativeSoa (name : Name) (ttl : UInt32) : Record :=
  let mname := (parseName "fake-for-negative-caching.bulwark.invalid.".toList).getD []
  let rname := (parseName "hostmaster.bulwark.invalid.".toList).getD []
  let secs := min ttl.toNat (2 ^ 31 - 1)
  let expire := min (secs * 10) (2 ^ 31 - 1)
  fromRdata name typeSoa ttl [.name mname, .name rname,
    .raw (toBe 4 1 ++ toBe 4 secs ++ toBe 4 secs ++ toBe 4 expire ++ toBe 4 ttl.toNat)]

def blockResponse (query : Message) (mode : BlockingMode) (customV4 : Ipv4Addr)
    (customV6 : Ipv6Addr) (ttl : UInt32) : Message :=
  let msg := base query
  let name := qname query
  match mode with
  | .nxDomain => pushAuthority (withRcode msg rcodeNxDomain) (negativeSoa parseName name ttl)
  | .refused => withRcode msg rcodeRefused
  | .noData => pushAuthority msg (negativeSoa parseName name ttl)
  | .nullIp => pushIp msg name ttl 0 0
  | .customIp => pushIp msg name ttl customV4 customV6

inductive Rewritten where
  | done (msg : Message)
  /-- A CNAME was inserted; the addresses of `target` are appended. -/
  | resolveCname (msg : Message) (target : Name)
  deriving DecidableEq, Repr

def rewriteRcode : Filter.RewriteRcode → UInt16
  | .noError => rcodeNoError
  | .nxDomain => rcodeNxDomain
  | .refused => rcodeRefused
  | .servFail => rcodeServFail

/-- A response for a `$dnsrewrite` rule or a hosts address. -/
def rewriteResponse (query : Message) (data : Filter.RewriteData) (ttl : UInt32) : Rewritten :=
  let msg := base query
  let name := qname query
  let qt := qtype query
  -- data of another type than the one asked for leaves the answer empty
  let only (recordType : UInt16) (fields : List Field) : Rewritten :=
    .done (if qt = recordType then pushAnswer msg (fromRdata name recordType ttl fields) else msg)
  match data with
  | .a addr => only typeA (dataA addr)
  | .aaaa addr => only typeAaaa (dataAaaa addr)
  | .txt text => only typeTxt (dataTxt text)
  | .mx preference exchange => only typeMx (dataMx preference ((parseName exchange).getD []))
  | .ptr target => only typePtr [.name ((parseName target).getD [])]
  | .rcode code => .done (withRcode msg (rewriteRcode code))
  | .cname target =>
      let targetName := (parseName target).getD []
      let msg := pushAnswer msg (fromRdata name typeCname ttl [.name targetName])
      if qt = typeA ∨ qt = typeAaaa then .resolveCname msg targetName else .done msg

end

def errorResponse (query : Message) (code : UInt16) : Message := withRcode (base query) code

def formerr (id : UInt16) : Message := withRcode (Message.newResponse id) rcodeFormErr

/-! ## What every synthesized response takes from the query -/

/-- Id, opcode, recursion bit, questions and EDNS data are those of the query. -/
structure Shells (query msg : Message) : Prop where
  id : msg.metadata.id = query.metadata.id
  opCode : msg.metadata.opCode = query.metadata.opCode
  recursionDesired : msg.metadata.recursionDesired = query.metadata.recursionDesired
  queries : msg.queries = query.queries
  edns : msg.edns = query.edns

theorem shells_base (query : Message) : Shells query (base query) := ⟨rfl, rfl, rfl, rfl, rfl⟩

theorem Shells.withRcode {query msg : Message} (h : Shells query msg) (code : UInt16) :
    Shells query (withRcode msg code) :=
  ⟨h.id, h.opCode, h.recursionDesired, h.queries, h.edns⟩

theorem Shells.answer {query msg : Message} (h : Shells query msg) (r : Record) :
    Shells query (pushAnswer msg r) :=
  ⟨h.id, h.opCode, h.recursionDesired, h.queries, h.edns⟩

theorem Shells.authority {query msg : Message} (h : Shells query msg) (r : Record) :
    Shells query (pushAuthority msg r) :=
  ⟨h.id, h.opCode, h.recursionDesired, h.queries, h.edns⟩

theorem shells_errorResponse (query : Message) (code : UInt16) :
    Shells query (errorResponse query code) := (shells_base query).withRcode code

theorem shells_blockResponse (parseName : Text → Option Name) (query : Message)
    (mode : BlockingMode) (v4 : Ipv4Addr) (v6 : Ipv6Addr) (ttl : UInt32) :
    Shells query (blockResponse parseName query mode v4 v6 ttl) := by
  have hbase := shells_base query
  have hip : ∀ v4 v6, Shells query (pushIp (base query) (qname query) ttl v4 v6) := by
    intro v4 v6
    rw [pushIp]
    split
    · exact hbase.answer _
    · split
      · exact hbase.answer _
      · exact hbase
  cases mode with
  | nxDomain => exact (hbase.withRcode _).authority _
  | nullIp => exact hip 0 0
  | customIp => exact hip v4 v6
  | refused => exact hbase.withRcode _
  | noData => exact hbase.authority _

def Rewritten.message : Rewritten → Message
  | .done msg => msg
  | .resolveCname msg _ => msg

theorem shells_rewriteResponse (parseName : Text → Option Name) (query : Message)
    (data : Filter.RewriteData) (ttl : UInt32) :
    Shells query (rewriteResponse parseName query data ttl).message := by
  have hbase := shells_base query
  have honly : ∀ (p : Prop) [Decidable p] (r : Record),
      Shells query (if p then pushAnswer (base query) r else base query) := by
    intro p _ r
    split
    · exact hbase.answer r
    · exact hbase
  rw [rewriteResponse.eq_def]
  cases data with
  | rcode code => exact hbase.withRcode _
  | cname target =>
      dsimp only
      split <;> exact hbase.answer _
  | _ => exact honly _ _

end Bulwark.Engine
