import Bulwark.Foundation.Bytes
import Bulwark.Foundation.Text

/-!
# DNS messages

The part of the message model that the resolver reads: header fields, questions,
resource records and the EDNS record.  Record types, classes and response codes
are their numbers.  Record data is kept as the sequence of names and plain bytes
that its type prescribes.
-/

namespace Bulwark.Dns

open Bulwark.Foundation

/-! ## Names -/

abbrev Label := Bytes

/-- A fully qualified name; the root has no labels. -/
abbrev Name := List Label

/-- Bytes a label shows as they are. -/
def isSafeByte (b : UInt8) (isFirst : Bool) : Bool :=
  (48 ≤ b && b ≤ 57) || (65 ≤ b && b ≤ 90) || (97 ≤ b && b ≤ 122) || b == 95 ||
    (b == 45 && !isFirst) || (b == 42 && isFirst)

def byteChar (b : UInt8) : Char := Char.ofNat b.toNat

def octalDigit (n : Nat) : Char := Char.ofNat (48 + n % 8)

/-- Printable bytes are escaped by a backslash, others by three octal digits. -/
def escapeByte (b : UInt8) (isFirst : Bool) : Text :=
  if isSafeByte b isFirst then [byteChar b]
  else if 32 < b && b < 127 then ['\\', byteChar b]
  else ['\\', octalDigit (b.toNat / 64), octalDigit (b.toNat / 8), octalDigit b.toNat]

def labelToAscii : Label → Text
  | [] => []
  | b :: bs => escapeByte b true ++ bs.flatMap fun b => escapeByte b false

/-- `Name::to_ascii`: every label is followed by a dot. -/
def nameToAscii (name : Name) : Text :=
  if name = [] then ['.'] else name.flatMap fun label => labelToAscii label ++ ['.']

def wireLen (name : Name) : Nat := (name.map fun label => label.length + 1).sum + 1

/-! ## Records -/

inductive Field where
  | name (name : Name)
  | raw (bytes : Bytes)
  deriving DecidableEq, Repr

structure Record where
  name : Name
  recordType : UInt16
  dnsClass : UInt16
  ttl : UInt32
  data : List Field
  deriving DecidableEq, Repr

structure Query where
  name : Name
  queryType : UInt16
  queryClass : UInt16
  deriving DecidableEq, Repr

def typeA : UInt16 := 1
def typeCname : UInt16 := 5
def typeSoa : UInt16 := 6
def typeAaaa : UInt16 := 28
def typeOpt : UInt16 := 41
def typeSvcb : UInt16 := 64
def typeHttps : UInt16 := 65

/-! ## Messages -/

structure Metadata where
  id : UInt16
  isResponse : Bool
  opCode : UInt8
  authoritative : Bool
  truncation : Bool
  recursionDesired : Bool
  recursionAvailable : Bool
  authenticData : Bool
  checkingDisabled : Bool
  responseCode : UInt16
  deriving DecidableEq, Repr

structure Edns where
  maxPayload : UInt16
  rcodeHigh : UInt8
  version : UInt8
  flags : UInt16
  options : List Field
  deriving DecidableEq, Repr

def Edns.dnssecOk (edns : Edns) : Bool := 0x8000 ≤ edns.flags.toNat

structure Message where
  metadata : Metadata
  queries : List Query
  answers : List Record
  authorities : List Record
  additionals : List Record
  edns : Option Edns
  deriving DecidableEq, Repr

def Message.dnssecOk (msg : Message) : Bool := msg.edns.any Edns.dnssecOk

/-- The identity of a question, used as the cache and single-flight key. -/
structure QueryKey where
  name : Text
  rtype : UInt16
  dnsClass : UInt16
  dnssecOk : Bool
  checkingDisabled : Bool
  deriving DecidableEq, Repr

def QueryKey.fromMessage (msg : Message) : Option QueryKey :=
  msg.queries.head?.map fun q =>
    { name := toAsciiLowercase (nameToAscii q.name)
      rtype := q.queryType
      dnsClass := q.queryClass
      dnssecOk := msg.dnssecOk
      checkingDisabled := msg.metadata.checkingDisabled }

/-- A message with all record TTLs set; the EDNS record has none. -/
def adjustTtls (msg : Message) (ttl : UInt32) : Message :=
  { msg with
    answers := msg.answers.map fun r => { r with ttl := ttl }
    authorities := msg.authorities.map fun r => { r with ttl := ttl }
    additionals := msg.additionals.map fun r => { r with ttl := ttl } }

def Message.withId (msg : Message) (id : UInt16) : Message :=
  { msg with metadata := { msg.metadata with id := id } }

end Bulwark.Dns
