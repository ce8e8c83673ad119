import Mathlib.Logic.Function.Basic
import Bulwark.Foundation.Runs
import Bulwark.Api.Requests

/-!
# Handlers in steps

Configuration requests are handled concurrently.  A handler works on the configuration under
the update lock; lists are fetched without it, and a refreshed list is also stored without it.
Every step of a handler between two points where others can act is one step here, and what
the network and the file system answer is part of the step.  Where a handler waits, its caller
can go away: then it is dropped, and its lock is freed.
-/

namespace Bulwark.Api

open Bulwark.Foundation Bulwark.Filter

/-! ## The running engine -/

structure PoolSpec where
  specs : List Text
  queryTimeoutSecs : UInt64
  bootstrap : List SocketAddr
  deriving DecidableEq, Repr

structure EngineState where
  filter : Lists
  pool : PoolSpec
  clients : List Engine.ClientConfig
  filteringEnabled : Bool
  blockingMode : Engine.BlockingMode
  blockV4 : Ipv4Addr
  blockV6 : Ipv6Addr
  blockedTtl : UInt32
  deriving DecidableEq, Repr

structure LogSettings where
  enabled : Bool
  anonymizeClientIps : Bool
  deriving DecidableEq, Repr

structure StatsSettings where
  enabled : Bool
  retentionDays : UInt32
  anonymizeClientIps : Bool
  deriving DecidableEq, Repr

structure Live where
  state : EngineState
  cache : CacheConfig
  storeSummaries : Bool
  log : LogSettings
  stats : StatsSettings
  probeLog : Bool
  deriving DecidableEq, Repr

namespace Config

def poolSpec (cfg : Config) : PoolSpec where
  specs := cfg.upstreams.activeSpecs
  queryTimeoutSecs := if cfg.upstreams.timeoutSecs < 1 then 1 else cfg.upstreams.timeoutSecs
  bootstrap := cfg.upstreams.bootstrap

def engineState (cfg : Config) (filter : Lists) : EngineState where
  filter := filter
  pool := cfg.poolSpec
  clients := cfg.clients
  filteringEnabled := cfg.filtering.enabled
  blockingMode := cfg.filtering.blockingMode
  blockV4 := cfg.filtering.customBlockIpv4
  blockV6 := cfg.filtering.customBlockIpv6
  blockedTtl := cfg.filtering.blockedTtlSecs

def live (cfg : Config) (filter : Lists) : Live where
  state := cfg.engineState filter
  cache := cfg.cache
  storeSummaries := cfg.queryLog.enabled
  log := ⟨cfg.queryLog.enabled, cfg.privacy.anonymizeClientIps⟩
  stats := ⟨cfg.stats.enabled, cfg.stats.retentionDays, cfg.privacy.anonymizeClientIps⟩
  probeLog := cfg.upstreamLog.enabled

end Config

/-- The changes of the running engine, one component after another. -/
inductive Install where
  | swapState
  | cache
  | storeSummaries
  | log
  | stats
  | probeLog
  deriving DecidableEq, Repr

def installs : List Install := [.swapState, .cache, .storeSummaries, .log, .stats, .probeLog]

def Install.apply (cfg : Config) (filter : Lists) (live : Live) : Install → Live
  | .swapState => { live with state := (cfg.live filter).state }
  | .cache => { live with cache := (cfg.live filter).cache }
  | .storeSummaries => { live with storeSummaries := (cfg.live filter).storeSummaries }
  | .log => { live with log := (cfg.live filter).log }
  | .stats => { live with stats := (cfg.live filter).stats }
  | .probeLog => { live with probeLog := (cfg.live filter).probeLog }

theorem foldl_installs (cfg : Config) (filter : Lists) (live : Live) :
    installs.foldl (Install.apply cfg filter) live = cfg.live filter := rfl

/-! ## List files -/

abbrev Files := UInt32 → Option Text

def readListText (files : Files) (id : UInt32) : Text := (files id).getD []

/-- How writing or removing a file ends; a failed write may leave a part of the text. -/
inductive FileResult where
  | done
  | failed (kept : Option Nat) (message : Text)
  deriving DecidableEq, Repr

/-- The files afterwards; `none` for an end that cannot be. -/
def writeListText (files : Files) (id : UInt32) (text : Text) :
    FileResult → Option (Files × Except ApiError Unit)
  | .done => some (Function.update files id (some text), .ok ())
  | .failed none message => some (files, .error (.internal message))
  | .failed (some kept) message =>
      if kept < text.length then
        some (Function.update files id (some (text.take kept)), .error (.internal message))
      else none

/-- Whether the file could be removed is ignored. -/
def removeListFile (files : Files) (id : UInt32) : FileResult → Files
  | .done => Function.update files id none
  | .failed _ _ => files

theorem readListText_update (files : Files) (id id' : UInt32) (text : Option Text) :
    readListText (Function.update files id text) id' =
      if id' = id then text.getD [] else readListText files id' := by
  rw [readListText, readListText, Function.update_apply]
  split <;> rfl

theorem files_write {files files' : Files} {id id' : UInt32} {text : Text}
    {result : FileResult} {written : Except ApiError Unit} (hne : id' ≠ id)
    (h : writeListText files id text result = some (files', written)) :
    files' id' = files id' := by
  rw [writeListText.eq_def] at h
  split at h
  · cases h
    rw [Function.update_of_ne hne]
  · cases h
    rfl
  · split at h
    · cases h
      rw [Function.update_of_ne hne]
    · cases h

theorem readListText_write {files files' : Files} {id id' : UInt32} {text : Text}
    {result : FileResult} {written : Except ApiError Unit} (hne : id' ≠ id)
    (h : writeListText files id text result = some (files', written)) :
    readListText files' id' = readListText files id' := by
  rw [readListText, readListText, files_write hne h]

/-! ## Handlers -/

/-- What a successful request took from elsewhere: its stamp, and the lists it counted. -/
structure Change where
  stamp : Stamp
  counted : Lists
  deriving DecidableEq, Repr

/-- The configuration that `apply_config` saves, given the lists it has read. -/
def Config.countedFrom (ext : External) (cfg : Config) (counted : Lists) : Config :=
  { cfg with upstreams := cfg.upstreams.normalize }.withCounts (Config.ruleCounts ext counted)

inductive Stage where
  | ready
  /-- Waits for the text of a list, without the lock. -/
  | fetch (url : Text)
  /-- Has the text of a refreshed list, still without the lock. -/
  | store (text : Text)
  /-- Waits for the update lock. -/
  | queue (text : Text)
  /-- Has the lock, and a copy of the configuration. -/
  | edit (text : Text) (cfg : Config)
  /-- Has changed the copy; `apply_config` begins. -/
  | apply (stamp : Stamp) (cfg : Config)
  /-- Reads the lists, first for the counts and then for the filter. -/
  | read (stamp : Stamp) (counted : Option Lists) (cfg : Config) (todo : List FilterListConfig)
      (read : Lists)
  | build (change : Change) (cfg : Config) (filter : Lists)
  | save (change : Change) (cfg : Config) (filter : Lists)
  | install (change : Change) (cfg : Config) (filter : Lists) (todo : List Install)
  | done (result : Except ApiError (Option Change))
  | dropped

/-- The handler waits: for a lock (with the update lock still for the configuration), for a
list, for the addresses of the pool, or in the end to write the configuration in memory. -/
def Stage.waits : Stage → Bool
  | .ready | .fetch _ | .queue _ | .edit _ _ | .build _ _ _ | .install _ _ _ [] => true
  | _ => false

structure Task where
  req : Request
  stage : Stage

structure AppState where
  /-- The configuration in memory. -/
  config : Config
  /-- The configuration file. -/
  saved : Config
  live : Live
  files : Files
  holder : Option Nat
  tasks : Nat → Option Task

inductive Outcome where
  | arrive (req : Request)
  | proceed
  | lock
  | fetched (result : Except ApiError Text)
  | wrote (result : FileResult)
  | edited (stamp : Stamp) (result : FileResult)
  | finished (ok : Bool)
  | drop

structure Action where
  task : Nat
  outcome : Outcome

def noUrlToRefresh : ApiError := .badRequest "list has no URL to refresh".toList

/-- Where a handler goes before it asks for the lock. -/
def Request.entry (cfg : Config) : Request → Stage
  | .addList body =>
      match body.url with
      | some url => .fetch url
      | none => .queue (body.content.getD [])
  | .refreshList id =>
      match cfg.filtering.lists.find? (·.id = id) with
      | none => .done (.error (listNotFound id))
      | some l =>
          match l.url with
          | none => .done (.error noUrlToRefresh)
          | some url => .fetch url
  | _ => .queue []

def Request.afterFetch (text : Text) : Request → Stage
  | .refreshList _ => .store text
  | _ => .queue text

def Request.stampFits (cfg : Config) (stamp : Stamp) : Request → Bool
  | .postClient _ => !cfg.clients.any (·.id = stamp.clientId)
  | _ => true

def Request.editFiles (files : Files) (text : Text) (cfg : Config) (result : FileResult) :
    Request → Option (Files × Except ApiError Unit)
  | .addList _ => writeListText files cfg.nextListId text result
  | .deleteList id =>
      some (if id ∈ cfg.listIds then removeListFile files id result else files, .ok ())
  | _ => some (files, .ok ())

def Config.enabledLists (cfg : Config) : List FilterListConfig :=
  cfg.filtering.lists.filter (·.enabled)

def Config.customList (cfg : Config) : Lists :=
  [(0, "Custom rules".toList, cfg.filtering.customRules)]

def badConfig : ApiError := .badRequest "config validation".toList

def badPool : ApiError := .badRequest "building upstream pool".toList

def badSave : ApiError := .badRequest "saving config".toList

namespace AppState

variable (s : AppState)

def setTask (t : Nat) (req : Request) (stage : Stage) : AppState :=
  { s with tasks := Function.update s.tasks t (some ⟨req, stage⟩) }

def finish (t : Nat) (req : Request) (result : Except ApiError (Option Change)) : AppState :=
  { s.setTask t req (.done result) with holder := none }

/-- The guard of the update lock goes with the handler. -/
def leave (t : Nat) (req : Request) : AppState :=
  { s.setTask t req .dropped with holder := if s.holder = some t then none else s.holder }

def storeStep (t : Nat) (req : Request) (text : Text) (result : FileResult) :
    Option AppState :=
  match req with
  | .refreshList id =>
      match writeListText s.files id text result with
      | none => none
      | some (files, .ok ()) => some ({ s with files := files }.setTask t req (.queue []))
      | some (files, .error e) =>
          some ({ s with files := files }.setTask t req (.done (.error e)))
  | _ => none

def editStep (t : Nat) (req : Request) (text : Text) (cfg : Config) (stamp : Stamp)
    (result : FileResult) : Option AppState :=
  if req.stampFits cfg stamp then
    match req.editFiles s.files text cfg result with
    | none => none
    | some (files, .error e) => some ({ s with files := files }.finish t req (.error e))
    | some (files, .ok ()) =>
        let s := { s with files := files }
        match req.edit stamp cfg with
        | .error e => some (s.finish t req (.error e))
        | .ok none => some (s.finish t req (.ok none))
        | .ok (some cfg) => some (s.setTask t req (.apply stamp cfg))
  else none

def applyStep (t : Nat) (req : Request) (stamp : Stamp) (cfg : Config) : AppState :=
  let cfg := { cfg with upstreams := cfg.upstreams.normalize }
  match cfg.validate with
  | .error _ => s.finish t req (.error badConfig)
  | .ok _ => s.setTask t req (.read stamp none cfg cfg.enabledLists cfg.customList)

def readStep (ext : External) (t : Nat) (req : Request) (stamp : Stamp)
    (counted : Option Lists) (cfg : Config) (todo : List FilterListConfig) (read : Lists) :
    AppState :=
  match todo with
  | l :: todo =>
      let text := readListText s.files l.id
      s.setTask t req (.read stamp counted cfg todo (read ++ [(l.id.toNat, l.name, text)]))
  | [] =>
      match counted with
      | none =>
          let cfg := cfg.withCounts (Config.ruleCounts ext read)
          s.setTask t req (.read stamp (some read) cfg cfg.enabledLists cfg.customList)
      | some counted => s.setTask t req (.build ⟨stamp, counted⟩ cfg read)

def installStep (t : Nat) (req : Request) (change : Change) (cfg : Config) (filter : Lists)
    (todo : List Install) : AppState :=
  match todo with
  | i :: todo =>
      { s with live := i.apply cfg filter s.live }.setTask t req
        (.install change cfg filter todo)
  | [] => { s with config := cfg }.finish t req (.ok (some change))

def advance (ext : External) (t : Nat) (req : Request) : Stage → Outcome → Option AppState
  | .ready, .proceed =>
      match req.check with
      | .error e => some (s.setTask t req (.done (.error e)))
      | .ok _ => some (s.setTask t req (req.entry s.config))
  | .fetch _, .fetched (.error e) => some (s.setTask t req (.done (.error e)))
  | .fetch _, .fetched (.ok text) => some (s.setTask t req (req.afterFetch text))
  | .store text, .wrote result => s.storeStep t req text result
  | .queue text, .lock =>
      if s.holder = none then
        some ({ s with holder := some t }.setTask t req (.edit text s.config))
      else none
  | .edit text cfg, .edited stamp result => s.editStep t req text cfg stamp result
  | .apply stamp cfg, .proceed => some (s.applyStep t req stamp cfg)
  | .read stamp counted cfg todo read, .proceed =>
      some (s.readStep ext t req stamp counted cfg todo read)
  | .build change cfg filter, .finished ok =>
      some (if ok then s.setTask t req (.save change cfg filter)
        else s.finish t req (.error badPool))
  | .save change cfg filter, .finished ok =>
      some (if ok then { s with saved := cfg }.setTask t req (.install change cfg filter installs)
        else s.finish t req (.error badSave))
  | .install change cfg filter todo, .proceed =>
      some (s.installStep t req change cfg filter todo)
  | stage, .drop => if stage.waits then some (s.leave t req) else none
  | _, _ => none

end AppState

def step (ext : External) (s : AppState) (a : Action) : Option AppState :=
  match s.tasks a.task with
  | some task => s.advance ext a.task task.req task.stage a.outcome
  | none =>
      match a.outcome with
      | .arrive req => some (s.setTask a.task req .ready)
      | _ => none

def startedFrom (cfg : Config) (files : Files) : AppState :=
  ⟨cfg, cfg, cfg.live (cfg.compiledLists (readListText files)), files, none, fun _ => none⟩

/-! ## What a step can do -/

def Stage.locked : Stage → Bool
  | .edit _ _ | .apply _ _ | .read _ _ _ _ _ | .build _ _ _ | .save _ _ _
  | .install _ _ _ _ => true
  | _ => false

/-- The steps, by what they find and what they leave. -/
inductive Moves (ext : External) (s : AppState) (t : Nat) : Outcome → AppState → Prop where
  | arrive {req} (htask : s.tasks t = none) : Moves ext s t (.arrive req) (s.setTask t req .ready)
  | refused {req e} (htask : s.tasks t = some ⟨req, .ready⟩) (hcheck : req.check = .error e) :
      Moves ext s t .proceed (s.setTask t req (.done (.error e)))
  | entered {req} (htask : s.tasks t = some ⟨req, .ready⟩) (hcheck : req.check = .ok ()) :
      Moves ext s t .proceed (s.setTask t req (req.entry s.config))
  | unfetched {req url e} (htask : s.tasks t = some ⟨req, .fetch url⟩) :
      Moves ext s t (.fetched (.error e)) (s.setTask t req (.done (.error e)))
  | fetched {req url text} (htask : s.tasks t = some ⟨req, .fetch url⟩) :
      Moves ext s t (.fetched (.ok text)) (s.setTask t req (req.afterFetch text))
  | stored {id text result files} (htask : s.tasks t = some ⟨.refreshList id, .store text⟩)
      (hwrite : writeListText s.files id text result = some (files, .ok ())) :
      Moves ext s t (.wrote result)
        ({ s with files := files }.setTask t (.refreshList id) (.queue []))
  | unstored {id text result files e}
      (htask : s.tasks t = some ⟨.refreshList id, .store text⟩)
      (hwrite : writeListText s.files id text result = some (files, .error e)) :
      Moves ext s t (.wrote result)
        ({ s with files := files }.setTask t (.refreshList id) (.done (.error e)))
  | locked {req text} (htask : s.tasks t = some ⟨req, .queue text⟩) (hfree : s.holder = none) :
      Moves ext s t .lock ({ s with holder := some t }.setTask t req (.edit text s.config))
  | unwritten {req text cfg stamp result files e}
      (htask : s.tasks t = some ⟨req, .edit text cfg⟩)
      (hwrite : req.editFiles s.files text cfg result = some (files, .error e)) :
      Moves ext s t (.edited stamp result) ({ s with files := files }.finish t req (.error e))
  | rejected {req text cfg stamp result files e}
      (htask : s.tasks t = some ⟨req, .edit text cfg⟩)
      (hwrite : req.editFiles s.files text cfg result = some (files, .ok ()))
      (hedit : req.edit stamp cfg = .error e) :
      Moves ext s t (.edited stamp result) ({ s with files := files }.finish t req (.error e))
  | unchanged {req text cfg stamp result files}
      (htask : s.tasks t = some ⟨req, .edit text cfg⟩)
      (hwrite : req.editFiles s.files text cfg result = some (files, .ok ()))
      (hedit : req.edit stamp cfg = .ok none) :
      Moves ext s t (.edited stamp result) ({ s with files := files }.finish t req (.ok none))
  | edited {req text cfg stamp result files cfg'}
      (htask : s.tasks t = some ⟨req, .edit text cfg⟩)
      (hwrite : req.editFiles s.files text cfg result = some (files, .ok ()))
      (hedit : req.edit stamp cfg = .ok (some cfg')) :
      Moves ext s t (.edited stamp result)
        ({ s with files := files }.setTask t req (.apply stamp cfg'))
  | invalid {req stamp cfg e} (htask : s.tasks t = some ⟨req, .apply stamp cfg⟩)
      (hcfg : ({ cfg with upstreams := cfg.upstreams.normalize } : Config).validate = .error e) :
      Moves ext s t .proceed (s.finish t req (.error badConfig))
  | valid {req stamp cfg cfg'} (htask : s.tasks t = some ⟨req, .apply stamp cfg⟩)
      (hcfg : cfg' = { cfg with upstreams := cfg.upstreams.normalize }) :
      Moves ext s t .proceed
        (s.setTask t req (.read stamp none cfg' cfg'.enabledLists cfg'.customList))
  | read {req stamp counted cfg l todo read}
      (htask : s.tasks t = some ⟨req, .read stamp counted cfg (l :: todo) read⟩) :
      Moves ext s t .proceed (s.setTask t req (.read stamp counted cfg todo
        (read ++ [(l.id.toNat, l.name, readListText s.files l.id)])))
  | counted {req stamp cfg read cfg'} (htask : s.tasks t = some ⟨req, .read stamp none cfg [] read⟩)
      (hcfg : cfg' = cfg.withCounts (Config.ruleCounts ext read)) :
      Moves ext s t .proceed
        (s.setTask t req (.read stamp (some read) cfg' cfg'.enabledLists cfg'.customList))
  | compiled {req stamp counted cfg read}
      (htask : s.tasks t = some ⟨req, .read stamp (some counted) cfg [] read⟩) :
      Moves ext s t .proceed (s.setTask t req (.build ⟨stamp, counted⟩ cfg read))
  | unbuilt {req change cfg filter} (htask : s.tasks t = some ⟨req, .build change cfg filter⟩) :
      Moves ext s t (.finished false) (s.finish t req (.error badPool))
  | built {req change cfg filter} (htask : s.tasks t = some ⟨req, .build change cfg filter⟩) :
      Moves ext s t (.finished true) (s.setTask t req (.save change cfg filter))
  | unsaved {req change cfg filter} (htask : s.tasks t = some ⟨req, .save change cfg filter⟩) :
      Moves ext s t (.finished false) (s.finish t req (.error badSave))
  | saved {req change cfg filter} (htask : s.tasks t = some ⟨req, .save change cfg filter⟩) :
      Moves ext s t (.finished true)
        ({ s with saved := cfg }.setTask t req (.install change cfg filter installs))
  | installed {req change cfg filter i todo}
      (htask : s.tasks t = some ⟨req, .install change cfg filter (i :: todo)⟩) :
      Moves ext s t .proceed ({ s with live := i.apply cfg filter s.live }.setTask t req
        (.install change cfg filter todo))
  | finished {req change cfg filter}
      (htask : s.tasks t = some ⟨req, .install change cfg filter []⟩) :
      Moves ext s t .proceed ({ s with config := cfg }.finish t req (.ok (some change)))
  | left {req stage} (htask : s.tasks t = some ⟨req, stage⟩) (hwaits : stage.waits = true) :
      Moves ext s t .drop (s.leave t req)

section

variable {ext : External} {s s' : AppState} {t : Nat} {req : Request}

private theorem moves_store {text : Text} {result : FileResult}
    (htask : s.tasks t = some ⟨req, .store text⟩)
    (h : s.storeStep t req text result = some s') : Moves ext s t (.wrote result) s' := by
  rw [AppState.storeStep.eq_def] at h
  split at h
  · split at h
    · cases h
    · rename_i files hwrite
      cases h
      exact .stored htask hwrite
    · rename_i files e hwrite
      cases h
      exact .unstored htask hwrite
  · cases h

private theorem moves_edit {text : Text} {cfg : Config} {stamp : Stamp} {result : FileResult}
    (htask : s.tasks t = some ⟨req, .edit text cfg⟩)
    (h : s.editStep t req text cfg stamp result = some s') :
    Moves ext s t (.edited stamp result) s' := by
  rw [AppState.editStep] at h
  split at h
  · split at h
    · cases h
    · rename_i files e hwrite
      cases h
      exact .unwritten htask hwrite
    · rename_i files hwrite
      split at h
      · rename_i e hedit
        cases h
        exact .rejected htask hwrite hedit
      · rename_i hedit
        cases h
        exact .unchanged htask hwrite hedit
      · rename_i cfg' hedit
        cases h
        exact .edited htask hwrite hedit
  · cases h

private theorem moves_apply {stamp : Stamp} {cfg : Config}
    (htask : s.tasks t = some ⟨req, .apply stamp cfg⟩) :
    Moves ext s t .proceed (s.applyStep t req stamp cfg) := by
  rw [AppState.applyStep]
  split
  · rename_i e hcfg
    exact .invalid htask hcfg
  · exact .valid htask rfl

private theorem moves_read {stamp : Stamp} {counted : Option Lists} {cfg : Config}
    {todo : List FilterListConfig} {read : Lists}
    (htask : s.tasks t = some ⟨req, .read stamp counted cfg todo read⟩) :
    Moves ext s t .proceed (s.readStep ext t req stamp counted cfg todo read) := by
  cases todo with
  | cons l todo => exact .read htask
  | nil =>
      cases counted with
      | none => exact .counted htask rfl
      | some counted => exact .compiled htask

private theorem moves_install {change : Change} {cfg : Config} {filter : Lists}
    {todo : List Install} (htask : s.tasks t = some ⟨req, .install change cfg filter todo⟩) :
    Moves ext s t .proceed (s.installStep t req change cfg filter todo) := by
  cases todo with
  | nil => exact .finished htask
  | cons i todo => exact .installed htask

theorem moves_of_step {a : Action} (h : step ext s a = some s') :
    Moves ext s a.task a.outcome s' := by
  obtain ⟨t, outcome⟩ := a
  rw [step] at h
  dsimp only at h ⊢
  cases htask : s.tasks t with
  | none =>
      rw [htask] at h
      cases outcome with
      | arrive req =>
          cases h
          exact .arrive htask
      | _ => cases h
  | some task =>
      obtain ⟨req, stage⟩ := task
      rw [htask] at h
      dsimp only at h
      rw [AppState.advance.eq_def] at h
      split at h
      · split at h
        · rename_i e hcheck
          cases h
          exact .refused htask hcheck
        · rename_i hcheck
          cases h
          exact .entered htask hcheck
      · cases h
        exact .unfetched htask
      · cases h
        exact .fetched htask
      · exact moves_store htask h
      · split at h
        · rename_i hfree
          cases h
          exact .locked htask hfree
        · cases h
      · exact moves_edit htask h
      · cases h
        exact moves_apply htask
      · cases h
        exact moves_read htask
      · rename_i ok
        cases h
        cases ok with
        | false => exact .unbuilt htask
        | true => exact .built htask
      · rename_i ok
        cases h
        cases ok with
        | false => exact .unsaved htask
        | true => exact .saved htask
      · cases h
        exact moves_install htask
      · split at h
        · rename_i hwaits
          cases h
          exact .left htask hwaits
        · cases h
      · cases h

theorem tasks_setTask {u : Nat} {stage : Stage} {task : Task} :
    (s.setTask t req stage).tasks u = some task ↔
      (u = t ∧ task = ⟨req, stage⟩) ∨ (u ≠ t ∧ s.tasks u = some task) :=
  update_eq_some

end

end Bulwark.Api
