import Bulwark.Api.Config

/-!
# Configuration requests

The requests that change the configuration, and the change each of them makes to the copy
it takes under the update lock.  Every request changes one section.
-/

namespace Bulwark.Api

open Bulwark.Foundation Bulwark.Filter

/-! ## Bodies -/

structure FilteringSettings where
  enabled : Bool
  blockingMode : Engine.BlockingMode
  customBlockIpv4 : Ipv4Addr
  customBlockIpv6 : Ipv6Addr
  blockedTtlSecs : UInt32
  deriving DecidableEq, Repr

structure NewList where
  name : Text
  url : Option Text
  enabled : Bool
  /-- Inline content, when no URL is given. -/
  content : Option Text
  deriving DecidableEq, Repr

structure ListUpdate where
  name : Option Text
  url : Option Text
  enabled : Option Bool
  deriving DecidableEq, Repr

structure ClientInput where
  name : Text
  ids : List Text
  tags : List Text
  filteringEnabled : Bool
  deriving DecidableEq, Repr

inductive Request where
  | putUpstreams (body : UpstreamsConfig)
  | putCache (body : CacheConfig)
  | putFiltering (body : FilteringSettings)
  | putServer (body : ServerConfig)
  | putQuerylog (body : QueryLogConfig)
  | putUpstreamLog (body : UpstreamLogConfig)
  | putStatsCfg (body : StatsConfig)
  | putPrivacy (body : PrivacyConfig)
  | putCustomRules (rules : Text)
  | addCustomRule (rule : Text)
  | addList (body : NewList)
  | updateList (id : UInt32) (body : ListUpdate)
  | deleteList (id : UInt32)
  | refreshList (id : UInt32)
  | postClient (body : ClientInput)
  | putClient (id : Text) (body : ClientInput)
  | deleteClient (id : Text)
  deriving DecidableEq, Repr

inductive ApiError where
  | badRequest (message : Text)
  | notFound (message : Text)
  | internal (message : Text)
  deriving DecidableEq, Repr

/-! ## Edits -/

/-- `iter_mut().find(p)`, and a change of what it finds. -/
def modifyFirst {α : Type} (p : α → Bool) (f : α → α) : List α → Option (List α)
  | [] => none
  | a :: as => if p a then some (f a :: as) else (modifyFirst p f as).map (a :: ·)

def ListUpdate.apply (body : ListUpdate) (l : FilterListConfig) : FilterListConfig :=
  { l with
    name := body.name.getD l.name
    url := body.url.or l.url
    enabled := body.enabled.getD l.enabled }

def ClientInput.client (body : ClientInput) (id : Text) : Engine.ClientConfig :=
  ⟨id, body.name, body.ids, body.tags, body.filteringEnabled⟩

def appendRule (rules rule : Text) : Text :=
  let rules := if rules ≠ [] && !endsWith ['\n'] rules then rules ++ ['\n'] else rules
  rules ++ rule ++ ['\n']

def listNotFound (id : UInt32) : ApiError :=
  .notFound ("list ".toList ++ renderDecimal id.toNat)

def clientNotFound (id : Text) : ApiError := .notFound ("client ".toList ++ id)

def Request.check : Request → Except ApiError Unit
  | .addCustomRule rule =>
      if trim rule = [] then .error (.badRequest "empty rule".toList) else .ok ()
  | .postClient body | .putClient _ body =>
      if trim body.name = [] then
        .error (.badRequest "client name must not be empty".toList)
      else .ok ()
  | _ => .ok ()

/-- What the edit takes from elsewhere: the time, and a fresh id for a client. -/
structure Stamp where
  now : Int
  clientId : Text
  deriving DecidableEq, Repr

def stamp : Stamp := ⟨0, []⟩

/-- The change of the configuration; `none` when there is nothing to change. -/
def Request.edit (stamp : Stamp) (cfg : Config) : Request → Except ApiError (Option Config)
  | .putUpstreams body => .ok (some { cfg with upstreams := body })
  | .putCache body => .ok (some { cfg with cache := body })
  | .putFiltering body =>
      .ok (some { cfg with filtering := { cfg.filtering with
        enabled := body.enabled
        blockingMode := body.blockingMode
        customBlockIpv4 := body.customBlockIpv4
        customBlockIpv6 := body.customBlockIpv6
        blockedTtlSecs := body.blockedTtlSecs } })
  | .putServer body => .ok (some { cfg with server := body })
  | .putQuerylog body => .ok (some { cfg with queryLog := body })
  | .putUpstreamLog body => .ok (some { cfg with upstreamLog := body })
  | .putStatsCfg body => .ok (some { cfg with stats := body })
  | .putPrivacy body => .ok (some { cfg with privacy := body })
  | .putCustomRules rules =>
      .ok (some { cfg with filtering := { cfg.filtering with customRules := rules } })
  | .addCustomRule rule =>
      let rule := trim rule
      if (lines cfg.filtering.customRules).any (fun l => trim l = rule) then .ok none
      else
        .ok (some { cfg with filtering := { cfg.filtering with
          customRules := appendRule cfg.filtering.customRules rule } })
  | .addList body =>
      let list : FilterListConfig :=
        ⟨cfg.nextListId, body.name, body.url, body.enabled, 0, some stamp.now⟩
      .ok (some (cfg.withLists (cfg.filtering.lists ++ [list])))
  | .updateList id body =>
      match modifyFirst (·.id = id) body.apply cfg.filtering.lists with
      | some lists => .ok (some (cfg.withLists lists))
      | none => .error (listNotFound id)
  | .deleteList id =>
      let lists := cfg.filtering.lists.filter (·.id ≠ id)
      if lists.length = cfg.filtering.lists.length then .error (listNotFound id)
      else .ok (some (cfg.withLists lists))
  | .refreshList id =>
      let touch (l : FilterListConfig) : FilterListConfig :=
        { l with lastUpdated := some stamp.now }
      match modifyFirst (·.id = id) touch cfg.filtering.lists with
      | some lists => .ok (some (cfg.withLists lists))
      | none => .ok (some cfg)
  | .postClient body =>
      .ok (some { cfg with clients := cfg.clients ++ [body.client stamp.clientId] })
  | .putClient id body =>
      match modifyFirst (·.id = id) (fun c => body.client c.id) cfg.clients with
      | some clients => .ok (some { cfg with clients := clients })
      | none => .error (clientNotFound id)
  | .deleteClient id =>
      let clients := cfg.clients.filter (·.id ≠ id)
      if clients.length = cfg.clients.length then .error (clientNotFound id)
      else .ok (some { cfg with clients := clients })

/-! ## Sections -/

inductive ConfigSection where
  | server
  | upstreams
  | cache
  | filtering
  | clients
  | queryLog
  | upstreamLog
  | stats
  | privacy
  deriving DecidableEq, Repr

def Request.target : Request → ConfigSection
  | .putUpstreams _ => .upstreams
  | .putCache _ => .cache
  | .putServer _ => .server
  | .putQuerylog _ => .queryLog
  | .putUpstreamLog _ => .upstreamLog
  | .putStatsCfg _ => .stats
  | .putPrivacy _ => .privacy
  | .putFiltering _ | .putCustomRules _ | .addCustomRule _ => .filtering
  | .addList _ | .updateList _ _ | .deleteList _ | .refreshList _ => .filtering
  | .postClient _ | .putClient _ _ | .deleteClient _ => .clients

structure SameOutside (target : ConfigSection) (cfg cfg' : Config) : Prop where
  version : cfg'.version = cfg.version
  auth : cfg'.auth = cfg.auth
  server : target ≠ .server → cfg'.server = cfg.server
  upstreams : target ≠ .upstreams → cfg'.upstreams = cfg.upstreams
  cache : target ≠ .cache → cfg'.cache = cfg.cache
  filtering : target ≠ .filtering → cfg'.filtering = cfg.filtering
  clients : target ≠ .clients → cfg'.clients = cfg.clients
  queryLog : target ≠ .queryLog → cfg'.queryLog = cfg.queryLog
  upstreamLog : target ≠ .upstreamLog → cfg'.upstreamLog = cfg.upstreamLog
  stats : target ≠ .stats → cfg'.stats = cfg.stats
  privacy : target ≠ .privacy → cfg'.privacy = cfg.privacy

theorem edit_sameOutside {stamp : Stamp} {cfg cfg' : Config} {req : Request}
    (h : req.edit stamp cfg = .ok (some cfg')) : SameOutside req.target cfg cfg' := by
  cases req <;> simp only [Request.edit] at h <;> (try split at h) <;> cases h <;>
    constructor <;> first | rfl | exact fun _ => rfl | exact fun hne => absurd rfl hne

theorem edit_delete {id : UInt32} {cfg : Config} (h : id ∈ cfg.listIds) (stamp : Stamp) :
    ∃ cfg', (Request.deleteList id).edit stamp cfg = .ok (some cfg') := by
  rw [Request.edit, if_neg]
  · exact ⟨_, rfl⟩
  · obtain ⟨l, hl, hid⟩ := List.mem_map.mp h
    intro hlen
    have hkept := List.length_filter_eq_length_iff.mp hlen l hl
    simp [hid] at hkept

end Bulwark.Api
