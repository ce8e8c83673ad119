import Bulwark.Foundation.Net

/-!
# Filtering rules

The data model of `rule.rs`: patterns, modifiers and their matching functions,
and the rule record handed from the parser to the engine.  A compiled regex is
identified with its source text, which is all that `Regex::as_str` returns.
-/

namespace Bulwark.Filter

open Bulwark.Foundation

inductive Action where
  | block
  | allow
  | rewrite
  deriving DecidableEq, Repr

/-- `action as u8`. -/
def Action.tag : Action → Nat
  | .block => 0
  | .allow => 1
  | .rewrite => 2

structure Regex where
  asStr : Text
  deriving DecidableEq, Repr

inductive Pattern where
  | subdomain (domain : Text)
  | exact (domain : Text)
  | wildcard (re : Regex)
  | regex (re : Regex)
  deriving DecidableEq, Repr

/-- A record type filter; an empty `incl` means any type. -/
structure DnsTypeFilter where
  incl : List Text := []
  excl : List Text := []
  deriving DecidableEq, Repr

def DnsTypeFilter.matches (f : DnsTypeFilter) (rtype : Text) : Bool :=
  if f.excl ≠ [] ∧ f.excl.any (· == rtype) then false
  else if f.incl ≠ [] then f.incl.any (· == rtype)
  else true

inductive ClientMatch where
  | ip (addr : IpAddr)
  | net (net : IpNet)
  | name (name : Text)
  deriving DecidableEq, Repr

structure ClientFilter where
  incl : List ClientMatch := []
  excl : List ClientMatch := []
  deriving DecidableEq, Repr

structure ClientInfo where
  ip : Option IpAddr := none
  name : Option Text := none
  tags : List Text := []
  deriving DecidableEq, Repr

def ClientFilter.entryMatches (m : ClientMatch) (client : ClientInfo) : Bool :=
  match m with
  | .ip addr => client.ip == some addr
  | .net net => client.ip.any net.contains
  | .name name => client.name == some name

def ClientFilter.matches (f : ClientFilter) (client : ClientInfo) : Bool :=
  if f.excl.any (entryMatches · client) then false
  else if f.incl ≠ [] then f.incl.any (entryMatches · client)
  else true

structure CtagFilter where
  incl : List Text := []
  excl : List Text := []
  deriving DecidableEq, Repr

def CtagFilter.matches (f : CtagFilter) (tags : List Text) : Bool :=
  if f.excl.any fun t => tags.any (· == t) then false
  else if f.incl ≠ [] then f.incl.any fun t => tags.any (· == t)
  else true

inductive RewriteRcode where
  | noError
  | nxDomain
  | refused
  | servFail
  deriving DecidableEq, Repr

/-- The response a `$dnsrewrite` or a hosts address produces. -/
inductive RewriteData where
  | a (addr : Ipv4Addr)
  | aaaa (addr : Ipv6Addr)
  | cname (target : Text)
  | txt (text : Text)
  | mx (preference : Nat) (exchange : Text)
  | ptr (target : Text)
  | rcode (code : RewriteRcode)
  deriving DecidableEq, Repr

structure RuleMods where
  important : Bool := false
  dnstype : Option DnsTypeFilter := none
  client : Option ClientFilter := none
  ctag : Option CtagFilter := none
  denyallow : List Text := []
  rewrite : Option RewriteData := none
  deriving DecidableEq, Repr

def RuleMods.isEmpty (m : RuleMods) : Bool :=
  !m.important && m.dnstype.isNone && m.client.isNone && m.ctag.isNone &&
    m.denyallow.isEmpty && m.rewrite.isNone

/-- The rule kept by the engine; `listId` is a 32-bit number. -/
structure Rule where
  raw : Text
  action : Action
  pattern : Pattern
  mods : Option RuleMods
  listId : Nat
  deriving DecidableEq, Repr

structure BuildRule where
  rule : Rule
  badfilter : Bool
  signature : Text
  indexTokens : List UInt32
  deriving DecidableEq, Repr

/--
Winner selection: `$important` adds a large bonus, among equals an exception
beats a block, and rewrites sit alongside blocks.
-/
def priorityOf (action : Action) (mods : Option RuleMods) : Nat :=
  (match action with
    | .allow => 2
    | .block => 1
    | .rewrite => 1) +
  (if mods.any (·.important) then 100 else 0)

def Rule.priority (r : Rule) : Nat := priorityOf r.action r.mods

theorem priorityOf_pos (action : Action) (mods : Option RuleMods) :
    1 ≤ priorityOf action mods := by
  cases action <;> (simp [priorityOf]; try omega)

end Bulwark.Filter
