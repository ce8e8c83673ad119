import Bulwark.Foundation.Net
import Bulwark.Filter.Rule

/-!
# Client identification

`clients.rs`: the settings of the client behind an address.  An address of its own wins,
then the longest prefix; among equal prefixes the configuration order decides.
-/

namespace Bulwark.Engine

open Bulwark.Foundation

structure ClientConfig where
  id : Text
  name : Text
  /-- Addresses and networks; what is neither is skipped. -/
  ids : List Text
  tags : List Text
  filteringEnabled : Bool
  deriving DecidableEq, Repr

structure ClientEntry where
  name : Text
  nets : List IpNet
  tags : List Text
  filteringEnabled : Bool
  deriving DecidableEq, Repr

structure ResolvedClient where
  ip : IpAddr
  name : Option Text
  tags : List Text
  filteringEnabled : Bool
  deriving DecidableEq, Repr

def ResolvedClient.info (client : ResolvedClient) : Filter.ClientInfo :=
  ⟨some client.ip, client.name, client.tags⟩

structure ClientMatcher where
  /-- Exact matches: an address and the index of its entry. -/
  hosts : List (IpAddr × Nat)
  entries : List ClientEntry
  bounded : ∀ host ∈ hosts, host.2 < entries.length

namespace ClientMatcher

def empty : ClientMatcher := ⟨[], [], by simp⟩

/-- `hosts.entry(ip).or_insert(idx)` -/
def addHost (hosts : List (IpAddr × Nat)) (ip : IpAddr) (idx : Nat) : List (IpAddr × Nat) :=
  if hosts.any (·.1 = ip) then hosts else hosts ++ [(ip, idx)]

def addId (parseIpNet : Text → Option IpNet) (idx : Nat)
    (acc : List (IpAddr × Nat) × List IpNet) (id : Text) : List (IpAddr × Nat) × List IpNet :=
  match parseIpAddr id with
  | some ip => (addHost acc.1 ip idx, acc.2)
  | none =>
      match parseIpNet id with
      | some net => (acc.1, acc.2 ++ [net])
      | none => acc

theorem mem_addId {parseIpNet : Text → Option IpNet} {idx : Nat}
    {acc : List (IpAddr × Nat) × List IpNet} {id : Text} {host : IpAddr × Nat}
    (h : host ∈ (addId parseIpNet idx acc id).1) : host ∈ acc.1 ∨ host.2 = idx := by
  rw [addId] at h
  split at h
  · rw [addHost] at h
    split at h
    · exact .inl h
    · rcases List.mem_append.mp h with h | h
      · exact .inl h
      · exact .inr (by rw [List.mem_singleton.mp h])
  · split at h <;> exact .inl h

theorem mem_foldl_addId {parseIpNet : Text → Option IpNet} {idx : Nat} {ids : List Text}
    {acc : List (IpAddr × Nat) × List IpNet} {host : IpAddr × Nat}
    (h : host ∈ (ids.foldl (addId parseIpNet idx) acc).1) : host ∈ acc.1 ∨ host.2 = idx := by
  induction ids generalizing acc with
  | nil => exact .inl h
  | cons id ids ih =>
      rcases ih h with hmem | hidx
      · exact mem_addId hmem
      · exact .inr hidx

def addClient (parseIpNet : Text → Option IpNet) (m : ClientMatcher) (c : ClientConfig) :
    ClientMatcher where
  hosts := (c.ids.foldl (addId parseIpNet m.entries.length) (m.hosts, [])).1
  entries := m.entries ++ [⟨c.name,
    (c.ids.foldl (addId parseIpNet m.entries.length) (m.hosts, [])).2, c.tags,
    c.filteringEnabled⟩]
  bounded host hhost := by
    rw [List.length_append, List.length_singleton]
    rcases mem_foldl_addId hhost with hold | hnew
    · exact Nat.lt_succ_of_lt (m.bounded host hold)
    · omega

def build (parseIpNet : Text → Option IpNet) (clients : List ClientConfig) : ClientMatcher :=
  clients.foldl (addClient parseIpNet) empty

/-- The longest prefix among the networks of an entry that contain the address. -/
def longestPrefix (e : ClientEntry) (ip : IpAddr) : Option Nat :=
  ((e.nets.filter (·.contains ip)).map IpNet.prefixLen).max?

def better (ip : IpAddr) (best : Option (Nat × ClientEntry)) (e : ClientEntry) :
    Option (Nat × ClientEntry) :=
  match longestPrefix e ip with
  | none => best
  | some len => if best.all fun b => b.1 < len then some (len, e) else best

def bestMatch (m : ClientMatcher) (ip : IpAddr) : Option ClientEntry :=
  match h : m.hosts.find? (·.1 = ip) with
  | some host => some (m.entries.get ⟨host.2, m.bounded host (List.mem_of_find?_eq_some h)⟩)
  | none => (m.entries.foldl (better ip) none).map (·.2)

/-- Unknown addresses are unnamed clients with filtering on. -/
def identify (m : ClientMatcher) (ip : IpAddr) : ResolvedClient :=
  match m.bestMatch ip with
  | some e => ⟨ip, some e.name, e.tags, e.filteringEnabled⟩
  | none => ⟨ip, none, [], true⟩

def nameFor (m : ClientMatcher) (ip : IpAddr) : Option Text := (m.bestMatch ip).map (·.name)

def nameForStr (m : ClientMatcher) (ip : Text) : Option Text := (parseIpAddr ip).bind m.nameFor

end ClientMatcher

end Bulwark.Engine
