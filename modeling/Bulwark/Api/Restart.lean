import Bulwark.Api.Serial

/-!
# Configuration across restarts

The process can end at any point, also in the middle of an update, and the next one begins
with what it finds on disk.  The configuration file is written aside and renamed, so it is
always a whole one.  A change that was answered with success is never lost; a change that
was not answered is there or is not, as a whole.  Handlers can be dropped, but for their very
last wait, where the file is ahead of the memory.
-/

namespace Bulwark.Api

open Bulwark.Foundation Bulwark.Filter

/-! ## The configuration file -/

structure Yaml where
  toString : Config → Text
  fromStr : Text → Except Text Config

def Yaml.Reads (yaml : Yaml) (cfg : Config) : Prop :=
  yaml.fromStr (yaml.toString cfg) = .ok cfg

def defaultUpstreams : Text :=
  "# Quad9 (DoH)\nhttps://dns.quad9.net/dns-query\n".toList ++
    "# Cloudflare (DoH)\nhttps://cloudflare-dns.com/dns-query\n".toList

namespace Config

def default : Config where
  version := 1
  server := ⟨[localAddr 53], localAddr 3000, 0⟩
  upstreams := ⟨defaultUpstreams, [⟨.v4 0x01010101, 53⟩, ⟨.v4 0x09090909, 53⟩], 5⟩
  cache := ⟨true, 10000, 0, 86400, 0⟩
  filtering :=
    { enabled := true
      blockingMode := .nxDomain
      customBlockIpv4 := 0
      customBlockIpv6 := 0
      blockedTtlSecs := 10
      lists := []
      customRules := [] }
  clients := []
  queryLog := ⟨true, true, 7⟩
  upstreamLog := ⟨false, true, 30⟩
  stats := ⟨true, true, 30⟩
  privacy := ⟨false⟩
  auth := ⟨[], none, none⟩

/-- Clients of an old file have no id, and cannot be addressed. -/
def loadOrDefault (yaml : Yaml) : Option Text → Except ConfigError Config
  | none => .ok default
  | some text =>
      match yaml.fromStr text with
      | .error e => .error (.yaml e)
      | .ok cfg =>
          match cfg.validate with
          | .error e => .error e
          | .ok () => .ok { cfg with clients := cfg.clients.filter (·.id ≠ []) }

/-- Signed in before a restart is signed in after it: a secret is chosen only once. -/
def withSecret (secret : Text) (cfg : Config) : Config :=
  { cfg with auth := { cfg.auth with sessionSecret := cfg.auth.sessionSecret.or (some secret) } }

/-- The configuration a process begins with, and the file once that is saved if need be. -/
def startup (yaml : Yaml) (file : Option Text) (secret : Text) :
    Except ConfigError (Config × Text) :=
  match loadOrDefault yaml file with
  | .error e => .error e
  | .ok cfg =>
      match file, cfg.auth.sessionSecret with
      | some text, some _ => .ok (cfg, text)
      | _, _ => .ok (cfg.withSecret secret, yaml.toString (cfg.withSecret secret))

end Config

/-! ## Processes, one after another -/

inductive Process where
  | down (files : Files)
  /-- What it began with, and what the handlers have done since. -/
  | up (first : Config) (acts : List Action) (s : AppState)

structure Site where
  text : Text
  process : Process
  /-- The changes that earlier processes answered with success. -/
  answered : List (Request × Change)
  kills : Nat

inductive Startup where
  /-- The file cannot be read or written; nothing is changed. -/
  | failed
  /-- The file is up to date, but the pool, a database or a socket cannot be had. -/
  | gaveUp
  | running
  deriving DecidableEq

inductive SiteAction where
  | act (a : Action)
  | kill
  | start (secret : Text) (result : Startup)

/-- The configuration that the action renames into place. -/
def Action.saves (s : AppState) (a : Action) : Option Config :=
  match s.tasks a.task, a.outcome with
  | some ⟨_, .save _ cfg _⟩, .finished true => some cfg
  | _, _ => none

/-- The id for a new client is of 16 digits. -/
def Action.stamped (a : Action) : Bool :=
  match a.outcome with
  | .edited stamp _ => stamp.clientId.length = 16
  | _ => true

def changes (acts : List Action) (s : AppState) : List (Request × Change) :=
  (lockOrder acts).filterMap s.change

namespace Site

def started (cfg : Config) (text : Text) (files : Files) : Site :=
  ⟨text, .up cfg [] (startedFrom cfg files), [], 0⟩

def actStep (ext : External) (yaml : Yaml) (site : Site) (first : Config) (acts : List Action)
    (s : AppState) (a : Action) : Option Site :=
  if a.stamped then
    (Api.step ext s a).map fun s' =>
      { site with
        text := ((a.saves s).map yaml.toString).getD site.text
        process := .up first (acts ++ [a]) s' }
  else none

def startStep (yaml : Yaml) (site : Site) (files : Files) (secret : Text) (result : Startup) :
    Site :=
  match Config.startup yaml (some site.text) secret with
  | .error _ => site
  | .ok (cfg, text) =>
      match result with
      | .failed => site
      | .gaveUp => { site with text := text }
      | .running => { site with text := text, process := .up cfg [] (startedFrom cfg files) }

def step (ext : External) (yaml : Yaml) (site : Site) (a : SiteAction) : Option Site :=
  match site.process, a with
  | .up first acts s, .act a => site.actStep ext yaml first acts s a
  | .up _ acts s, .kill =>
      some { site with
        process := .down s.files
        answered := site.answered ++ changes acts s
        kills := site.kills + 1 }
  | .down files, .start secret result => some (site.startStep yaml files secret result)
  | _, _ => none

/-- The changes that were answered with success so far, in order. -/
def acknowledged (site : Site) : List (Request × Change) :=
  match site.process with
  | .down _ => site.answered
  | .up _ acts s => site.answered ++ changes acts s

/-- What is saved by this step can be read again. -/
def Readable (yaml : Yaml) (site : Site) (a : SiteAction) : Prop :=
  match site.process, a with
  | .up _ _ s, .act a => ∀ cfg, a.saves s = some cfg → yaml.Reads cfg
  | _, _ => True

/-- No handler is dropped at its very last wait. -/
def KeepsWaiting (site : Site) (a : SiteAction) : Prop :=
  match site.process, a with
  | .up _ _ s, .act a => Api.KeepsWaiting s a
  | _, _ => True

/-- A start finds the configuration, with its secret, and leaves the file alone. -/
def Starts (yaml : Yaml) (text : Text) (cfg : Config) : Prop :=
  ∀ secret, Config.startup yaml (some text) secret = .ok (cfg, text)

end Site

/-! ## What can be loaded again -/

/-- What every copy in a handler keeps: the account, and that each client has an id. -/
structure Loadable (auth : AuthConfig) (cfg : Config) : Prop where
  auth : cfg.auth = auth
  named : ∀ c ∈ cfg.clients, c.id ≠ []

structure Sound (auth : AuthConfig) (cfg : Config) : Prop extends Loadable auth cfg where
  valid : cfg.validate = .ok ()

section

variable {auth : AuthConfig} {cfg cfg' : Config} {yaml : Yaml} {text secret : Text}

theorem Sound.withCounts (h : Sound auth cfg) (counts : List (Nat × Nat)) :
    Sound auth (cfg.withCounts counts) where
  auth := h.auth
  named := h.named
  valid := h.valid

theorem forall_modifyFirst {α : Type} {p : α → Bool} {f : α → α} {P : α → Prop}
    (hf : ∀ a, P a → P (f a)) {as bs : List α} (h : modifyFirst p f as = some bs)
    (has : ∀ a ∈ as, P a) : ∀ b ∈ bs, P b := by
  induction as generalizing bs with
  | nil => cases h
  | cons a as ih =>
      simp only [List.forall_mem_cons] at has
      unfold modifyFirst at h
      split at h
      · cases h
        simp only [List.forall_mem_cons]
        exact ⟨hf a has.1, has.2⟩
      · simp only [Option.map_eq_some_iff] at h
        obtain ⟨bs, hbs, rfl⟩ := h
        simp only [List.forall_mem_cons]
        exact ⟨has.1, ih hbs has.2⟩

theorem Loadable.edit {stamp : Stamp} {req : Request} (h : Loadable auth cfg)
    (hstamp : stamp.clientId ≠ []) (hedit : req.edit stamp cfg = .ok (some cfg')) :
    Loadable auth cfg' := by
  have hsame := edit_sameOutside hedit
  refine ⟨hsame.auth.trans h.auth, ?_⟩
  cases req with
  | postClient body =>
      simp only [Request.edit] at hedit
      cases hedit
      simp only [List.mem_append, List.mem_singleton]
      rintro c (hc | rfl)
      · exact h.named c hc
      · exact hstamp
  | putClient id body =>
      simp only [Request.edit] at hedit
      split at hedit
      · rename_i clients hclients
        cases hedit
        have hid : ∀ c : Engine.ClientConfig, c.id ≠ [] → (body.client c.id).id ≠ [] :=
          fun _ hc => hc
        exact forall_modifyFirst hid hclients h.named
      · cases hedit
  | deleteClient id =>
      simp only [Request.edit] at hedit
      split at hedit
      · cases hedit
      · cases hedit
        intro c hc
        exact h.named c (List.mem_filter.mp hc).1
  | _ =>
      rw [hsame.clients (by simp [Request.target])]
      exact h.named

theorem load_of_reads (h : Sound auth cfg) (hreads : yaml.Reads cfg) :
    Config.loadOrDefault yaml (some (yaml.toString cfg)) = .ok cfg := by
  unfold Yaml.Reads at hreads
  have hclients : cfg.clients.filter (·.id ≠ []) = cfg.clients := by
    simp only [List.filter_eq_self, decide_eq_true_eq]
    exact h.named
  simp only [Config.loadOrDefault, hreads, h.valid, hclients]

theorem starts_of_load (hload : Config.loadOrDefault yaml (some text) = .ok cfg)
    (hsecret : cfg.auth.sessionSecret = some secret) : Site.Starts yaml text cfg := by
  intro secret'
  simp [Config.startup, hload, hsecret]

theorem Sound.starts (h : Sound auth cfg) (hsecret : auth.sessionSecret = some secret)
    (hreads : yaml.Reads cfg) : Site.Starts yaml (yaml.toString cfg) cfg :=
  starts_of_load (load_of_reads h hreads) (h.auth ▸ hsecret)

theorem Sound.withSecret (h : Sound auth cfg) (secret : Text) :
    Sound (cfg.withSecret secret).auth (cfg.withSecret secret) where
  auth := rfl
  named := h.named
  valid := h.valid

def Stage.Checked (auth : AuthConfig) : Stage → Prop
  | .edit _ cfg | .apply _ cfg => Loadable auth cfg
  | .read _ _ cfg _ _ | .build _ cfg _ | .save _ cfg _ | .install _ cfg _ _ => Sound auth cfg
  | _ => True

/-- All copies are of one account; those in memory, on disk and in `apply_config` are valid. -/
structure Checked (auth : AuthConfig) (s : AppState) : Prop where
  config : Sound auth s.config
  saved : Sound auth s.saved
  copies : ∀ t task, s.tasks t = some task → task.stage.Checked auth

variable {ext : External} {s s' s₁ : AppState} {t : Nat} {req : Request} {stage : Stage}

theorem Checked.started (h : Sound auth cfg) (files : Files) :
    Checked auth (startedFrom cfg files) where
  config := h
  saved := h
  copies t task htask := by cases htask

theorem Checked.setTask (h : Checked auth s) (hconfig : Sound auth s₁.config)
    (hsaved : Sound auth s₁.saved) (htasks : s₁.tasks = s.tasks)
    (hstage : stage.Checked auth) : Checked auth (s₁.setTask t req stage) where
  config := hconfig
  saved := hsaved
  copies u task htask := by
    rcases tasks_setTask.mp htask with ⟨rfl, rfl⟩ | ⟨-, htask⟩
    · exact hstage
    · rw [htasks] at htask
      exact h.copies u task htask

theorem Stage.checked_of_not_locked (h : stage.locked = false) : stage.Checked auth := by
  cases stage <;> trivial

theorem Checked.finish {result : Except ApiError (Option Change)} (h : Checked auth s)
    (hconfig : Sound auth s₁.config) (hsaved : Sound auth s₁.saved)
    (htasks : s₁.tasks = s.tasks) : Checked auth (s₁.finish t req result) where
  config := hconfig
  saved := hsaved
  copies := by
    have hset : Checked auth (s₁.setTask t req (.done result)) :=
      h.setTask hconfig hsaved htasks trivial
    exact hset.copies

theorem validate_of_read {counted : Option Lists} {stamp stamp' : Stamp} {cfg₁ : Config}
    {todo : List FilterListConfig} {read : Lists}
    (htask : s.tasks t = some ⟨req, .apply stamp cfg₁⟩)
    (hstep : Api.step ext s ⟨t, .proceed⟩ =
      some (s.setTask t req (.read stamp' counted cfg todo read))) :
    cfg.validate = .ok () := by
  simp only [Api.step, htask, AppState.advance, AppState.applyStep] at hstep
  split at hstep
  · have hdone := congrArg (fun r : Option AppState => r.bind fun s => s.tasks t) hstep
    simp [AppState.finish, AppState.setTask] at hdone
  · rename_i hvalid
    have hread := congrArg (fun r : Option AppState => r.bind fun s => s.tasks t) hstep
    simp [AppState.setTask] at hread
    rw [← hread.2.2.1]
    exact hvalid

theorem Checked.step {a : Action} (h : Checked auth s) (hstamped : a.stamped = true)
    (hstep : Api.step ext s a = some s') : Checked auth s' := by
  obtain ⟨t, outcome⟩ := a
  have hmoves := moves_of_step hstep
  simp only at hmoves
  cases hmoves with
  | arrive htask => exact h.setTask h.config h.saved rfl trivial
  | refused htask hcheck => exact h.setTask h.config h.saved rfl trivial
  | @entered req htask hcheck =>
      exact h.setTask h.config h.saved rfl
        (Stage.checked_of_not_locked (entry_outside s.config req).1)
  | unfetched htask => exact h.setTask h.config h.saved rfl trivial
  | @fetched req _ text htask =>
      exact h.setTask h.config h.saved rfl
        (Stage.checked_of_not_locked (afterFetch_outside text req).1)
  | stored htask hwrite => exact h.setTask h.config h.saved rfl trivial
  | unstored htask hwrite => exact h.setTask h.config h.saved rfl trivial
  | locked htask hfree => exact h.setTask h.config h.saved rfl h.config.toLoadable
  | unwritten htask hwrite => exact h.finish h.config h.saved rfl
  | rejected htask hwrite hedit => exact h.finish h.config h.saved rfl
  | unchanged htask hwrite hedit => exact h.finish h.config h.saved rfl
  | @edited req text cfg stamp result files cfg' htask hwrite hedit =>
      have hkept : Loadable auth cfg := h.copies t _ htask
      have hid : stamp.clientId ≠ [] := by
        simp only [Action.stamped, decide_eq_true_eq] at hstamped
        exact List.ne_nil_of_length_eq_add_one hstamped
      exact h.setTask h.config h.saved rfl (hkept.edit hid hedit)
  | invalid htask hcfg => exact h.finish h.config h.saved rfl
  | @valid req stamp cfg cfg' htask hcfg =>
      have hkept : Loadable auth cfg := h.copies t _ htask
      have hvalid : cfg'.validate = .ok () := validate_of_read htask hstep
      subst hcfg
      exact h.setTask h.config h.saved rfl ⟨⟨hkept.auth, hkept.named⟩, hvalid⟩
  | read htask => exact h.setTask h.config h.saved rfl (h.copies t _ htask)
  | @counted req stamp cfg read cfg' htask hcfg =>
      have hsound : Sound auth cfg := h.copies t _ htask
      subst hcfg
      exact h.setTask h.config h.saved rfl (hsound.withCounts _)
  | compiled htask => exact h.setTask h.config h.saved rfl (h.copies t _ htask)
  | unbuilt htask => exact h.finish h.config h.saved rfl
  | built htask => exact h.setTask h.config h.saved rfl (h.copies t _ htask)
  | unsaved htask => exact h.finish h.config h.saved rfl
  | saved htask => exact h.setTask h.config (h.copies t _ htask) rfl (h.copies t _ htask)
  | installed htask => exact h.setTask h.config h.saved rfl (h.copies t _ htask)
  | finished htask => exact h.finish (h.copies t _ htask) h.saved rfl
  | @left req old htask hwaits =>
      have hset : Checked auth (s.setTask t req .dropped) := h.setTask h.config h.saved rfl trivial
      exact ⟨h.config, h.saved, hset.copies⟩

theorem saved_of_step {a : Action} (hstep : Api.step ext s a = some s') :
    s'.saved = (a.saves s).getD s.saved := by
  obtain ⟨t, outcome⟩ := a
  have hmoves := moves_of_step hstep
  simp only at hmoves
  cases hmoves <;> simp [Action.saves, AppState.setTask, AppState.finish, AppState.leave, *]

theorem starts_of_step {a : Action} (hchecked : Checked auth s')
    (hsecret : auth.sessionSecret = some secret) (hstarts : Site.Starts yaml text s.saved)
    (hreads : ∀ cfg, a.saves s = some cfg → yaml.Reads cfg)
    (hstep : Api.step ext s a = some s') :
    Site.Starts yaml (((a.saves s).map yaml.toString).getD text) s'.saved := by
  have hsaved := saved_of_step hstep
  cases hsaves : a.saves s with
  | none =>
      rw [hsaves] at hsaved
      simpa [hsaved] using hstarts
  | some cfg =>
      rw [hsaves, Option.getD_some] at hsaved
      have hsound := hchecked.saved
      rw [hsaved] at hsound ⊢
      exact hsound.starts hsecret (hreads cfg hsaves)

/-! ## One process after another -/

/-- How a configuration came about: of the changes, one for each end may not be answered. -/
structure History (ext : External) (cfg₀ : Config) (as : List SiteAction)
    (answered : List (Request × Change)) (kills : Nat) (past : List (Request × Change))
    (cfg : Config) : Prop where
  replayed : replay ext cfg₀ past = some cfg
  sound : Sound cfg₀.auth cfg
  kept : answered.Sublist past
  lost : past.length ≤ answered.length + kills
  asked : ∀ p ∈ past, ∃ t, .act ⟨t, .arrive p.1⟩ ∈ as

inductive Durable (ext : External) (yaml : Yaml) (cfg₀ : Config) (as : List SiteAction) :
    Site → Prop where
  | down {text files answered kills past cfg}
      (hpast : History ext cfg₀ as answered kills past cfg)
      (hstarts : Site.Starts yaml text cfg) :
      Durable ext yaml cfg₀ as ⟨text, .down files, answered, kills⟩
  | up {text first acts s answered kills past files}
      (hpast : History ext cfg₀ as answered kills past first)
      (hrun : runFrom (Api.step ext) (startedFrom first files) acts = some s)
      (hacts : ∀ a ∈ acts, .act a ∈ as) (hchecked : Checked cfg₀.auth s)
      (hstarts : Site.Starts yaml text s.saved) :
      Durable ext yaml cfg₀ as ⟨text, .up first acts s, answered, kills⟩

variable {cfg₀ first : Config} {as : List SiteAction} {answered past : List (Request × Change)}
  {kills : Nat} {acts : List Action} {files : Files} {file : Option Text}

theorem replay_append (cfg : Config) (ps qs : List (Request × Change)) :
    replay ext cfg (ps ++ qs) = (replay ext cfg ps).bind fun cfg => replay ext cfg qs := by
  simp [replay, List.foldlM_append]

theorem History.mono (h : History ext cfg₀ as answered kills past cfg) (a : SiteAction) :
    History ext cfg₀ (as ++ [a]) answered kills past cfg where
  replayed := h.replayed
  sound := h.sound
  kept := h.kept
  lost := h.lost
  asked p hp := by
    obtain ⟨t, ht⟩ := h.asked p hp
    exact ⟨t, List.mem_append_left _ ht⟩

theorem asked_of_change {p : Request × Change}
    (hrun : runFrom (Api.step ext) (startedFrom first files) acts = some s)
    (hchange : s.change t = some p) : ⟨t, .arrive p.1⟩ ∈ acts := by
  unfold AppState.change at hchange
  split at hchange
  · rename_i req change htask
    cases hchange
    exact arrived_of_run (startedFrom_quiet first files).1 hrun t _ htask
  · cases hchange

theorem History.inMemory (h : History ext cfg₀ as answered kills past first)
    (hrun : runFrom (Api.step ext) (startedFrom first files) acts = some s)
    (hacts : ∀ a ∈ acts, .act a ∈ as) (hchecked : Checked cfg₀.auth s) :
    History ext cfg₀ as (answered ++ changes acts s) kills (past ++ changes acts s) s.config where
  replayed := by
    have hquiet := startedFrom_quiet first files
    have hreplay : replay ext first (changes acts s) = some s.config :=
      (Serial.run hquiet.1 hrun).replayed
    rw [replay_append, h.replayed, Option.bind_some, hreplay]
  sound := hchecked.config
  kept := h.kept.append (.refl _)
  lost := by
    have hlost := h.lost
    simp only [List.length_append]
    omega
  asked p hp := by
    simp only [List.mem_append] at hp
    rcases hp with hp | hp
    · exact h.asked p hp
    · simp only [changes, List.mem_filterMap] at hp
      obtain ⟨t, -, ht⟩ := hp
      exact ⟨t, hacts _ (asked_of_change hrun ht)⟩

/-- What the process leaves when it ends: a change may be saved and not yet answered. -/
theorem History.ended (h : History ext cfg₀ as answered kills past first)
    (hrun : runFrom (Api.step ext) (startedFrom first files) acts = some s)
    (hacts : ∀ a ∈ acts, .act a ∈ as) (hchecked : Checked cfg₀.auth s) :
    ∃ past', History ext cfg₀ as (answered ++ changes acts s) (kills + 1) past' s.saved := by
  have hquiet := startedFrom_quiet first files
  have hnow := h.inMemory hrun hacts hchecked
  rcases saved_of_run hquiet.1 hquiet.2 hrun with hsaved | ⟨p, t, hsaved, harrived⟩
  · refine ⟨_, ?_, hchecked.saved, hnow.kept, hnow.lost.trans (Nat.le_succ _), hnow.asked⟩
    rw [hsaved]
    exact hnow.replayed
  · refine ⟨past ++ changes acts s ++ [p], ?_, hchecked.saved,
      hnow.kept.trans (List.sublist_append_left _ _), ?_, ?_⟩
    · rw [replay_append, hnow.replayed]
      simp [replay, hsaved]
    · have hlost := hnow.lost
      rw [List.length_append, List.length_singleton]
      omega
    · intro q hq
      rw [List.mem_append, List.mem_singleton] at hq
      rcases hq with hq | rfl
      · exact hnow.asked q hq
      · exact ⟨t, hacts _ harrived⟩

theorem Durable.step {site site' : Site} {a : SiteAction}
    (h : Durable ext yaml cfg₀ as site) (hsecret : cfg₀.auth.sessionSecret = some secret)
    (hreads : site.Readable yaml a) (hstep : site.step ext yaml a = some site') :
    Durable ext yaml cfg₀ (as ++ [a]) site' := by
  cases h with
  | @down text files answered kills past cfg hpast hstarts =>
      cases a with
      | start secret' result =>
          simp only [Site.step, Site.startStep, hstarts secret'] at hstep
          cases result <;> cases hstep
          · exact .down (hpast.mono _) hstarts
          · exact .down (hpast.mono _) hstarts
          · exact .up (hpast.mono _) rfl (by simp) (.started hpast.sound files) hstarts
      | act _ => cases hstep
      | kill => cases hstep
  | @up text first acts s answered kills past files hpast hrun hacts hchecked hstarts =>
      cases a with
      | act a =>
          simp only [Site.step, Site.actStep] at hstep
          split at hstep
          · rename_i hstamped
            simp only [Option.map_eq_some_iff] at hstep
            obtain ⟨s', hs', rfl⟩ := hstep
            have hchecked' := hchecked.step hstamped hs'
            refine .up (hpast.mono _) (runFrom_snoc.mpr ⟨s, hrun, hs'⟩) ?_ hchecked'
              (starts_of_step hchecked' hsecret hstarts hreads hs')
            simp only [List.mem_append, List.mem_singleton]
            rintro b (hb | rfl)
            · exact .inl (hacts b hb)
            · exact .inr rfl
          · cases hstep
      | kill =>
          cases hstep
          obtain ⟨past', hpast'⟩ := hpast.ended hrun hacts hchecked
          exact .down (hpast'.mono _) hstarts
      | start _ _ => cases hstep

/-- What the running process has done since it was started. -/
def Site.Waited (ext : External) (site : Site) : Prop :=
  ∀ first acts s, site.process = .up first acts s → ∃ files,
    runFrom (Api.step ext) (startedFrom first files) acts = some s ∧
      EachStep (Api.step ext) Api.KeepsWaiting (startedFrom first files) acts

theorem Site.Waited.step {site site' : Site} {a : SiteAction} (h : site.Waited ext)
    (hwaits : site.KeepsWaiting a) (hstep : site.step ext yaml a = some site') :
    site'.Waited ext := by
  intro first acts s hup
  unfold Site.step at hstep
  split at hstep
  · rename_i first acts s a hprocess
    simp only [Site.actStep] at hstep
    split at hstep
    · obtain ⟨s', hs', rfl⟩ := Option.map_eq_some_iff.mp hstep
      cases hup
      obtain ⟨files, hrun, heach⟩ := h first acts s hprocess
      simp only [Site.KeepsWaiting, hprocess] at hwaits
      exact ⟨files, runFrom_snoc.mpr ⟨s, hrun, hs'⟩, eachStep_snoc heach hrun hwaits⟩
    · cases hstep
  · cases hstep
    cases hup
  · rename_i files secret result hprocess
    cases hstep
    unfold Site.startStep at hup
    split at hup
    · cases hprocess.symm.trans hup
    · cases result <;> simp only [hprocess, reduceCtorEq, Process.up.injEq] at hup
      obtain ⟨rfl, rfl, rfl⟩ := hup
      exact ⟨files, rfl, trivial⟩
  · cases hstep

end

/-! ## A process that ends in the middle of an update -/

def Site.readable (yaml : Yaml) (site : Site) (a : SiteAction) : Bool :=
  match site.process, a with
  | .up _ _ s, .act a => (a.saves s).all fun cfg => yaml.fromStr (yaml.toString cfg) = .ok cfg
  | _, _ => true

def Site.keepsWaiting (site : Site) (a : SiteAction) : Bool :=
  match site.process, a with
  | .up _ _ s, .act a => Api.keepsWaiting s a
  | _, _ => true

theorem Site.keepsWaiting_sound {site : Site} {a : SiteAction}
    (h : site.keepsWaiting a = true) : site.KeepsWaiting a := by
  unfold Site.keepsWaiting at h
  unfold Site.KeepsWaiting
  split at h
  · exact Api.keepsWaiting_sound h
  · trivial

def Site.view (site : Site) : Option Config × Nat × Nat :=
  match site.process with
  | .down _ => (none, site.acknowledged.length, site.kills)
  | .up _ _ s => (some s.config, site.acknowledged.length, site.kills)

end Bulwark.Api
