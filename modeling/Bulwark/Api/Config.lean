import Bulwark.Engine.Block
import Bulwark.Engine.Clients
import Bulwark.Filter.Compiler

/-!
# The configuration

The sections of the configuration, its invariants, and what is derived from it before it is
saved: the text of the upstreams is tidied up, and the lists get their rule counts.
-/

namespace Bulwark.Api

open Bulwark.Foundation Bulwark.Filter

/-! ## Sections -/

structure SocketAddr where
  ip : IpAddr
  port : UInt16
  deriving DecidableEq, Repr

structure ServerConfig where
  dnsBind : List SocketAddr
  httpBind : SocketAddr
  ratelimit : UInt32
  deriving DecidableEq, Repr

structure UpstreamsConfig where
  /-- Upstream specs, one per line. -/
  servers : Text
  bootstrap : List SocketAddr
  timeoutSecs : UInt64
  deriving DecidableEq, Repr

structure CacheConfig where
  enabled : Bool
  size : Nat
  minTtlSecs : UInt32
  maxTtlSecs : UInt32
  optimisticMaxAgeSecs : UInt32
  deriving DecidableEq, Repr

structure FilterListConfig where
  id : UInt32
  name : Text
  url : Option Text
  enabled : Bool
  ruleCount : Nat
  lastUpdated : Option Int
  deriving DecidableEq, Repr

structure FilteringConfig where
  enabled : Bool
  blockingMode : Engine.BlockingMode
  customBlockIpv4 : Ipv4Addr
  customBlockIpv6 : Ipv6Addr
  blockedTtlSecs : UInt32
  lists : List FilterListConfig
  customRules : Text
  deriving DecidableEq, Repr

structure QueryLogConfig where
  enabled : Bool
  persist : Bool
  retentionDays : UInt32
  deriving DecidableEq, Repr

structure UpstreamLogConfig where
  enabled : Bool
  persist : Bool
  retentionDays : UInt32
  deriving DecidableEq, Repr

structure StatsConfig where
  enabled : Bool
  persist : Bool
  retentionDays : UInt32
  deriving DecidableEq, Repr

structure PrivacyConfig where
  anonymizeClientIps : Bool
  deriving DecidableEq, Repr

structure AuthConfig where
  username : Text
  passwordHash : Option Text
  sessionSecret : Option Text
  deriving DecidableEq, Repr

def AuthConfig.needsSetup (auth : AuthConfig) : Bool :=
  auth.username = [] || auth.passwordHash.isNone

structure Config where
  version : UInt32
  server : ServerConfig
  upstreams : UpstreamsConfig
  cache : CacheConfig
  filtering : FilteringConfig
  clients : List Engine.ClientConfig
  queryLog : QueryLogConfig
  upstreamLog : UpstreamLogConfig
  stats : StatsConfig
  privacy : PrivacyConfig
  auth : AuthConfig
  deriving DecidableEq, Repr

/-! ## Upstream specs -/

namespace UpstreamsConfig

def activeSpecs (u : UpstreamsConfig) : List Text :=
  ((lines u.servers).map trim).filter fun l => l ≠ [] && !startsWith ['#'] l

/-- Trimmed lines, after so many blank ones; of consecutive blank lines the first is kept. -/
def tidyLines : UInt32 → List Text → Text
  | _, [] => []
  | blanks, l :: ls =>
      let line := trim l
      if line = [] then
        -- `+=` wraps in a release build
        let blanks := blanks + 1
        if 1 < blanks then tidyLines blanks ls else line ++ '\n' :: tidyLines blanks ls
      else line ++ '\n' :: tidyLines 0 ls

def normalize (u : UpstreamsConfig) : UpstreamsConfig :=
  let trimmed := trimMatches '\n' (tidyLines 0 (lines u.servers))
  { u with servers := if trimmed = [] then [] else trimmed ++ ['\n'] }

end UpstreamsConfig

example :
    (UpstreamsConfig.normalize ⟨"\n\n  # a  \n\n\n  1.1.1.1  \n\n\n".toList, [], 5⟩).servers =
      "# a\n\n1.1.1.1\n".toList := by
  decide +kernel

/-! ## Invariants -/

inductive ConfigError where
  | io (text : Text)
  | yaml (text : Text)
  | invalid (text : Text)
  deriving DecidableEq, Repr

namespace Config

def validate (cfg : Config) : Except ConfigError Unit :=
  if cfg.server.dnsBind = [] then
    .error (.invalid "server.dns_bind must not be empty".toList)
  else if cfg.cache.maxTtlSecs ≠ 0 ∧ cfg.cache.maxTtlSecs < cfg.cache.minTtlSecs then
    .error (.invalid ("cache.min_ttl_secs (".toList ++
      renderDecimal cfg.cache.minTtlSecs.toNat ++ ") exceeds max_ttl_secs (".toList ++
      renderDecimal cfg.cache.maxTtlSecs.toNat ++ [')']))
  else if cfg.upstreams.activeSpecs = [] then
    .error (.invalid "at least one upstream must be configured".toList)
  else .ok ()

def listIds (cfg : Config) : List UInt32 := cfg.filtering.lists.map (·.id)

/-- One more than the largest id; the sum wraps around. -/
def nextListId (cfg : Config) : UInt32 :=
  match (cfg.listIds.map UInt32.toNat).max? with
  | none => 1
  | some m => .ofNat (m + 1)

def withLists (cfg : Config) (lists : List FilterListConfig) : Config :=
  { cfg with filtering := { cfg.filtering with lists := lists } }

/-! ## What is derived -/

/-- Custom rules, then the enabled lists, each with its stored text. -/
def compiledLists (cfg : Config) (text : UInt32 → Text) : Lists :=
  (0, "Custom rules".toList, cfg.filtering.customRules) ::
    (cfg.filtering.lists.filter (·.enabled)).map fun l => (l.id.toNat, l.name, text l.id)

def ruleCounts (ext : External) (lists : Lists) : List (Nat × Nat) :=
  (compileLists ext lists).stats.map fun s => (s.listId, s.rules)

def countList (counts : List (Nat × Nat)) (l : FilterListConfig) : FilterListConfig :=
  match counts.find? (·.1 = l.id.toNat) with
  | some (_, n) => { l with ruleCount := n }
  | none => l

def withCounts (cfg : Config) (counts : List (Nat × Nat)) : Config :=
  cfg.withLists (cfg.filtering.lists.map (countList counts))

/-- The configuration that is saved: upstreams tidied up, lists counted. -/
def derived (ext : External) (cfg : Config) (text : UInt32 → Text) : Config :=
  let cfg := { cfg with upstreams := cfg.upstreams.normalize }
  cfg.withCounts (ruleCounts ext (cfg.compiledLists text))

theorem countList_id (counts : List (Nat × Nat)) (l : FilterListConfig) :
    (countList counts l).id = l.id ∧ (countList counts l).url = l.url ∧
      (countList counts l).enabled = l.enabled ∧ (countList counts l).name = l.name := by
  rw [countList]
  split <;> exact ⟨rfl, rfl, rfl, rfl⟩

theorem listIds_derived (ext : External) (cfg : Config) (text : UInt32 → Text) :
    (cfg.derived ext text).listIds = cfg.listIds := by
  change ((cfg.filtering.lists.map (countList _)).map (·.id)) = _
  rw [List.map_map]
  exact List.map_congr_left fun l _ => (countList_id _ l).1

end Config

/-! ## A concrete configuration -/

def localAddr (port : UInt16) : SocketAddr := ⟨.v4 0, port⟩

def configWith (ids : List UInt32) : Config where
  version := 1
  server := ⟨[localAddr 53], localAddr 3000, 0⟩
  upstreams := ⟨"1.1.1.1\n".toList, [], 5⟩
  cache := ⟨true, 10000, 0, 86400, 0⟩
  filtering :=
    { enabled := true
      blockingMode := .nxDomain
      customBlockIpv4 := 0
      customBlockIpv6 := 0
      blockedTtlSecs := 10
      lists := ids.map fun id => ⟨id, ['l'], none, true, 0, none⟩
      customRules := [] }
  clients := []
  queryLog := ⟨true, true, 7⟩
  upstreamLog := ⟨false, true, 30⟩
  stats := ⟨true, true, 30⟩
  privacy := ⟨false⟩
  auth := ⟨[], none, none⟩

end Bulwark.Api
