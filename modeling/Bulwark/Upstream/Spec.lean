import Bulwark.Foundation.Literal
import Bulwark.Upstream.Transport

/-!
# Upstream specs

`UpstreamSpec::parse` reads `[scheme://]host[:port][/path]` by cutting at the first or the
last separator.  It reads every text of that grammar unless one without a scheme has `://`
in its path, and it also reads some texts that are not of the grammar: what follows a closing
bracket is passed over, a host may be empty or have colons in it, and an IPv4 address may
stand in brackets.
-/

namespace Bulwark.Upstream

open Bulwark.Foundation

/-! ## Parsing -/

def TransportKind.defaultPort : TransportKind → UInt16
  | .udp | .tcp => 53
  | .tls | .quic => 853
  | .https => 443

inductive Host where
  | ip (ip : IpAddr)
  | name (name : Text)
  deriving DecidableEq, Repr

structure UpstreamSpec where
  kind : TransportKind
  host : Host
  port : UInt16
  path : Text
  /-- DoH over HTTP/3 only, for `h3://`. -/
  forceHttp3 : Bool
  display : Text
  deriving DecidableEq, Repr

structure InvalidSpec where
  message : Text
  deriving DecidableEq, Repr

def schemeKind (scheme : Text) : Option (TransportKind × Bool) :=
  if scheme = "udp".toList then some (.udp, false)
  else if scheme = "tcp".toList then some (.tcp, false)
  else if scheme = "tls".toList then some (.tls, false)
  else if scheme = "https".toList then some (.https, false)
  else if scheme = "h3".toList then some (.https, true)
  else if scheme = "quic".toList then some (.quic, false)
  else none

/-- `p.parse::<u16>()`: an optional plus sign and decimal digits. -/
def parsePort (p : Text) : Option UInt16 :=
  (parseDecimal ((['+'].isPrefixOf? p).getD p)).bind fun n =>
    if n < 65536 then some (.ofNat n) else none

def portOr (p : Text) (host : Host) : Except InvalidSpec (Host × UInt16) :=
  match parsePort p with
  | some port => .ok (host, port)
  | none => .error ⟨"bad port ".toList ++ p⟩

def hostOf (h : Text) : Host :=
  match parseIpAddr h with
  | some ip => .ip ip
  | none => .name h

def portAfter (after : Text) (host : Host) (defaultPort : UInt16) :
    Except InvalidSpec (Host × UInt16) :=
  match [':'].isPrefixOf? after with
  | some p => portOr p host
  | none => .ok (host, defaultPort)

def splitHostPort (s : Text) (defaultPort : UInt16) : Except InvalidSpec (Host × UInt16) :=
  match ['['].isPrefixOf? s with
  | some rest =>
      match splitOnce ']' rest with
      | none => .error ⟨"unterminated [ in ".toList ++ s⟩
      | some (ipStr, after) =>
          match parseIpAddr ipStr with
          | none => .error ⟨"bad IPv6 ".toList ++ ipStr⟩
          | some ip => portAfter after (.ip ip) defaultPort
  | none =>
      match parseIpAddr s with
      | some ip => .ok (.ip ip, defaultPort)
      | none =>
          match rsplitOnce ':' s with
          | some (h, p) => portOr p (hostOf h)
          | none => .ok (.name s, defaultPort)

/-- The kind, whether HTTP/3 is forced, and what follows the scheme. -/
def splitScheme (s : Text) : Except InvalidSpec (TransportKind × Bool × Text) :=
  match splitOnceStr "://".toList s with
  | none => .ok (.udp, false, s)
  | some (scheme, rest) =>
      match schemeKind scheme with
      | some (kind, forceHttp3) => .ok (kind, forceHttp3, rest)
      | none => .error ⟨"unknown scheme ".toList ++ scheme⟩

def splitPath (rest : Text) : Text × Text :=
  match splitOnce '/' rest with
  | some (a, p) => (a, '/' :: p)
  | none => (rest, "/dns-query".toList)

def UpstreamSpec.parse (input : Text) : Except InvalidSpec UpstreamSpec := do
  let s := trim input
  if s = [] then throw ⟨"empty".toList⟩
  let (kind, forceHttp3, rest) ← splitScheme s
  let (authority, path) := splitPath rest
  let (host, port) ← splitHostPort authority kind.defaultPort
  return ⟨kind, host, port, path, forceHttp3, s⟩

/-! ## The grammar -/

/-- Any text that is not an address and has none of the separators of a spec. -/
structure IsName (n : Text) : Prop where
  ne_nil : n ≠ []
  colon : ':' ∉ n
  slash : '/' ∉ n
  bracket : n.head? ≠ some '['
  not_ip : parseIpAddr n = none

inductive HostText : Text → Host → Prop
  | name {n : Text} : IsName n → HostText n (.name n)
  | literal {t : Text} {ip : IpAddr} : parseIpAddr t = some ip → HostText t (.ip ip)
  | bracketed {t : Text} {addr : Ipv6Addr} :
      parseIpAddr t = some (.v6 addr) → HostText ('[' :: (t ++ [']'])) (.ip (.v6 addr))

def PortText (p : Text) (port : UInt16) : Prop := parseDecimal p = some port.toNat

inductive AuthorityText (defaultPort : UInt16) : Text → Host → UInt16 → Prop
  | noPort {t : Text} {h : Host} : HostText t h → AuthorityText defaultPort t h defaultPort
  | withPort {t p : Text} {h : Host} {port : UInt16} :
      HostText t h → PortText p port → AuthorityText defaultPort (t ++ ':' :: p) h port

/-- `host[:port][/path]` -/
inductive PlainText (defaultPort : UInt16) : Text → Host → UInt16 → Text → Prop
  | noPath {t : Text} {h : Host} {port : UInt16} :
      AuthorityText defaultPort t h port → PlainText defaultPort t h port "/dns-query".toList
  | withPath {t p : Text} {h : Host} {port : UInt16} :
      AuthorityText defaultPort t h port → PlainText defaultPort (t ++ '/' :: p) h port ('/' :: p)

/-- `[scheme://]host[:port][/path]` -/
inductive SpecText : Text → UpstreamSpec → Prop
  | plain {s path : Text} {h : Host} {port : UInt16} :
      PlainText TransportKind.udp.defaultPort s h port path →
        SpecText s ⟨.udp, h, port, path, false, s⟩
  | schemed {scheme rest path : Text} {kind : TransportKind} {h3 : Bool} {h : Host}
      {port : UInt16} :
      schemeKind scheme = some (kind, h3) → PlainText kind.defaultPort rest h port path →
        SpecText (scheme ++ "://".toList ++ rest)
          ⟨kind, h, port, path, h3, scheme ++ "://".toList ++ rest⟩

/-- Just the texts of the grammar are read, and as the grammar says. -/
structure ReadsGrammar (input : Text) : Prop where
  sound : ∀ spec, UpstreamSpec.parse input = .ok spec → SpecText (trim input) spec
  complete : (∃ spec, SpecText (trim input) spec) → ∃ spec, UpstreamSpec.parse input = .ok spec

/-! ## What is guessed -/

/-- Texts before the path that are read although they are not `host[:port]`. -/
inductive Guessed : Text → Prop
  /-- What follows the bracket is passed over. -/
  | afterBracket {t rest : Text} {ip : IpAddr} {c : Char} :
      parseIpAddr t = some ip → c ≠ ':' → Guessed ('[' :: (t ++ ']' :: c :: rest))
  | bracketedV4 {t : Text} {addr : Ipv4Addr} :
      parseIpAddr t = some (.v4 addr) → Guessed ('[' :: (t ++ [']']))
  | bracketedV4Port {t p : Text} {addr : Ipv4Addr} :
      parseIpAddr t = some (.v4 addr) → (parsePort p).isSome = true →
        Guessed ('[' :: (t ++ ']' :: ':' :: p))
  | bracketedSign {t p : Text} {ip : IpAddr} :
      parseIpAddr t = some ip → (parsePort ('+' :: p)).isSome = true →
        Guessed ('[' :: (t ++ ']' :: ':' :: '+' :: p))
  | noHost : Guessed []
  | noHostPort {p : Text} : (parsePort p).isSome = true → Guessed (':' :: p)
  | sign {h p : Text} : h.head? ≠ some '[' → (parsePort ('+' :: p)).isSome = true →
      Guessed (h ++ ':' :: '+' :: p)
  | colonName {h p : Text} : h.head? ≠ some '[' → ':' ∈ h → parseIpAddr h = none →
      parseIpAddr (h ++ ':' :: p) = none → (parsePort p).isSome = true →
        Guessed (h ++ ':' :: p)

/-- `host[:port][/path]` with `://` in it, but not after a scheme. -/
def Unread (s : Text) : Prop :=
  (∃ scheme rest, splitOnceStr "://".toList s = some (scheme, rest) ∧ schemeKind scheme = none) ∧
    ∃ h port path, PlainText TransportKind.udp.defaultPort s h port path

/-- The host and port of the spec are guessed, or it is not read. -/
def Misread (s : Text) : Prop :=
  (s ≠ [] ∧ ∃ kind h3 rest, splitScheme s = .ok (kind, h3, rest) ∧ Guessed (splitPath rest).1) ∨
    Unread s

end Bulwark.Upstream
