import Bulwark.Foundation.Net
import Bulwark.Foundation.Pin
import Bulwark.Foundation.Runs
import Bulwark.Upstream.Spec
import Bulwark.Upstream.Transport

/-!
# Bootstrap resolution

`bootstrap.rs`: the addresses of an upstream, asked of plain DNS servers and kept for five
minutes.  All transports share the cache.
-/

namespace Bulwark.Upstream

open Bulwark.Foundation Bulwark.Dns

/-- Seconds, in nanoseconds. -/
def secs (n : Int) : Int := n * 10 ^ 9

def bootstrapTtl : Int := secs 300

/-! ## One lookup -/

def addressOf (r : Record) : Option IpAddr :=
  match r.data with
  | [.raw bytes] =>
      if r.recordType = typeA then some (.v4 (BitVec.ofNat 32 (ofLe bytes.reverse)))
      else if r.recordType = typeAaaa then some (.v6 (BitVec.ofNat 128 (ofLe bytes.reverse)))
      else none
  | _ => none

def extractIps (msg : Message) : List IpAddr := msg.answers.filterMap addressOf

abbrev SocketAddr := IpAddr × UInt16

/-- A server's answer; `none` where there is none for five seconds. -/
abbrev Answer := Option (Except UpstreamError Message)

def lookupMessage (id : UInt16) (name : Name) (rtype : UInt16) : Message where
  metadata :=
    { id := id, isResponse := false, opCode := 0, authoritative := false, truncation := false,
      recursionDesired := true, recursionAvailable := false, authenticData := false,
      checkingDisabled := false, responseCode := 0 }
  queries := [⟨name, rtype, 1⟩]
  answers := []
  authorities := []
  additionals := []
  edns := none

/-- The addresses of the first answer that has any. -/
def firstIps (last : UpstreamError) : List Answer → Except UpstreamError (List IpAddr)
  | [] => .error last
  | some (.ok resp) :: rest =>
      if extractIps resp = [] then firstIps last rest else .ok (extractIps resp)
  | some (.error e) :: rest => firstIps e rest
  | none :: rest => firstIps .timeout rest

structure Lookups where
  ask : SocketAddr → Message → Answer
  idA : UInt16
  idAaaa : UInt16

structure Bootstrap where
  servers : List SocketAddr
  /-- `Name::from_str` -/
  parseName : Text → Except Text Name

namespace Bootstrap

def new (servers : List SocketAddr) (parseName : Text → Except Text Name) : Bootstrap where
  servers :=
    if servers = [] then [(.v4 0x01010101#32, 53), (.v4 0x08080808#32, 53)] else servers
  parseName := parseName

variable (b : Bootstrap)

def lookup (host : Text) (rtype id : UInt16) (ask : SocketAddr → Message → Answer) :
    Except UpstreamError (List IpAddr) := do
  let name ← (b.parseName host).mapError .proto
  firstIps (.bootstrap host) (b.servers.map fun server => ask server (lookupMessage id name rtype))

/-- What `resolve` does where neither the text nor the cache has the addresses. -/
def resolve (host : Text) (world : Lookups) : Except UpstreamError (List IpAddr) :=
  let found := fun rtype id => ((b.lookup host rtype id world.ask).toOption).getD []
  let ips := found typeA world.idA ++ found typeAaaa world.idAaaa
  if ips = [] then .error (.bootstrap host) else .ok ips

variable {b}

theorem resolve_eq_ok {host : Text} {world : Lookups} {ips : List IpAddr}
    (h : b.resolve host world = .ok ips) : ips ≠ [] := by
  unfold resolve at h
  simp only at h
  split at h <;> cases h
  assumption

end Bootstrap

/-! ## The cache -/

/-- The entries by host, and all that were ever found. -/
structure BootstrapCache where
  entries : Text → Option (Pin (List IpAddr)) := fun _ => none
  lookups : List (Text × Pin (List IpAddr)) := []

namespace BootstrapCache

def cached (c : BootstrapCache) (host : Text) (now : Int) : Option (List IpAddr) :=
  (c.entries host).bind fun p => p.read bootstrapTtl now

def insert (c : BootstrapCache) (host : Text) (p : Pin (List IpAddr)) : BootstrapCache where
  entries := Function.update c.entries host (some p)
  lookups := c.lookups ++ [(host, p)]

/-- The addresses of the host, from a text that is one or from a lookup. -/
def Source (c : BootstrapCache) (host : Text) (p : Pin (List IpAddr)) : Prop :=
  (host, p) ∈ c.lookups ∧ p.value ≠ []

/-- The host's addresses, younger than `age`. -/
def Current (c : BootstrapCache) (host : Text) (age now : Int) (ips : List IpAddr) : Prop :=
  match parseIpAddr host with
  | some ip => ips = [ip]
  | none => Aged (c.Source host) age now ips

structure Sound (c : BootstrapCache) (now : Int) : Prop where
  logged : ∀ host p, c.entries host = some p → (host, p) ∈ c.lookups
  found : ∀ host p, (host, p) ∈ c.lookups → p.value ≠ [] ∧ p.since ≤ now

variable {c : BootstrapCache} {host : Text} {now : Int} {ips : List IpAddr}

theorem Sound.init (now : Int) : Sound {} now where
  logged := by simp
  found := by simp

theorem Sound.wait {now' : Int} (h : c.Sound now) (hnow : now ≤ now') : c.Sound now' where
  logged := h.logged
  found host p hp := ⟨(h.found host p hp).1, (h.found host p hp).2.trans hnow⟩

theorem Sound.insert (h : c.Sound now) (hips : ips ≠ []) :
    (c.insert host ⟨now, ips⟩).Sound now where
  logged host' p hp := by
    simp only [BootstrapCache.insert, update_eq_some, List.mem_append, List.mem_singleton] at hp ⊢
    rcases hp with ⟨rfl, rfl⟩ | ⟨-, hp⟩
    · simp
    · exact .inl (h.logged host' p hp)
  found host' p hp := by
    simp only [BootstrapCache.insert, List.mem_append, List.mem_singleton, Prod.mk.injEq] at hp
    rcases hp with hp | ⟨-, rfl⟩
    · exact h.found host' p hp
    · exact ⟨hips, le_rfl⟩

theorem Sound.current_cached (h : c.Sound now) (hname : parseIpAddr host = none)
    (hcached : c.cached host now = some ips) : c.Current host bootstrapTtl now ips := by
  simp only [cached, Option.bind_eq_some_iff] at hcached
  obtain ⟨p, hp, hread⟩ := hcached
  obtain ⟨rfl, hyoung⟩ := Pin.read_eq_some hread
  have hmem := h.logged host p hp
  obtain ⟨hips, hbefore⟩ := h.found host p hmem
  simp only [Current, hname]
  exact ⟨p, ⟨hmem, hips⟩, rfl, hbefore, hyoung⟩

theorem Current.mono {c' : BootstrapCache} {age age' : Int} (h : c.Current host age now ips)
    (hlookups : ∀ l ∈ c.lookups, l ∈ c'.lookups) (hage : age ≤ age') :
    c'.Current host age' now ips := by
  unfold Current at h ⊢
  split at h
  · exact h
  · exact h.mono (fun p hp => ⟨hlookups _ hp.1, hp.2⟩) hage

theorem Current.wait {age age' now' : Int} (h : c.Current host age now ips) (hnow : now ≤ now')
    (hage : age + (now' - now) ≤ age') : c.Current host age' now' ips := by
  unfold Current at h ⊢
  split at h
  · exact h
  · exact Aged.wait h hnow hage

theorem Current.read {β : Type} {p : Pin β} {v : β} {age ttl : Int}
    (h : c.Current host age p.since ips) (hread : p.read ttl now = some v)
    (hnow : p.since ≤ now) : c.Current host (age + ttl) now ips := by
  unfold Current at h ⊢
  split at h
  · exact h
  · exact Aged.read h hread hnow

theorem current_insert (hname : parseIpAddr host = none) (hips : ips ≠ []) :
    (c.insert host ⟨now, ips⟩).Current host bootstrapTtl now ips := by
  simp only [Current, hname]
  refine Aged.found ⟨now, ips⟩ ⟨?_, hips⟩ (by simp [bootstrapTtl, secs])
  simp [BootstrapCache.insert]

end BootstrapCache

end Bulwark.Upstream
