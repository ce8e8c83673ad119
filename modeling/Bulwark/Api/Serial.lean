import Bulwark.Api.Server

/-!
# Updates one after another

However the steps of the handlers interleave, the configuration in memory is what the
successful requests give when they are applied one after another, in the order in which they
took the update lock.  While nobody has the lock, the file, the configuration in memory and
the settings of the running engine are the same configuration, unless a handler was dropped
at its very last wait: then the file and the engine are one request ahead of the memory.
-/

namespace Bulwark.Api

open Bulwark.Foundation Bulwark.Filter

/-! ## Requests in order -/

/-- The handlers in the order in which they took the update lock. -/
def lockOrder (as : List Action) : List Nat :=
  as.filterMap fun a =>
    match a.outcome with
    | .lock => some a.task
    | _ => none

/-- The request of a handler that succeeded, with what it took from elsewhere. -/
def AppState.change (s : AppState) (t : Nat) : Option (Request × Change) :=
  match s.tasks t with
  | some ⟨req, .done (.ok (some change))⟩ => some (req, change)
  | _ => none

def applyChange (ext : External) (cfg : Config) (p : Request × Change) : Option Config :=
  match p.1.edit p.2.stamp cfg with
  | .ok (some cfg') => some (cfg'.countedFrom ext p.2.counted)
  | _ => none

def replay (ext : External) (cfg : Config) (changes : List (Request × Change)) : Option Config :=
  changes.foldlM (applyChange ext) cfg

/-- The three copies come from one configuration. -/
def AppState.Agrees (s : AppState) : Prop :=
  s.saved = s.config ∧ ∃ filter, s.live = s.config.live filter

def AppState.Quiet (s : AppState) : Prop := s.holder = none ∧ ∀ t, s.tasks t = none

/--
The same configuration outside of one section, but for what is derived: the text of the
upstreams is tidied up, and the lists have new counts.
-/
structure SameApart (target : ConfigSection) (cfg cfg' : Config) : Prop where
  version : cfg'.version = cfg.version
  auth : cfg'.auth = cfg.auth
  server : target ≠ .server → cfg'.server = cfg.server
  upstreams : target ≠ .upstreams → cfg'.upstreams = cfg.upstreams.normalize
  cache : target ≠ .cache → cfg'.cache = cfg.cache
  filtering : target ≠ .filtering → ∃ counts, cfg'.filtering =
    { cfg.filtering with lists := cfg.filtering.lists.map (Config.countList counts) }
  clients : target ≠ .clients → cfg'.clients = cfg.clients
  queryLog : target ≠ .queryLog → cfg'.queryLog = cfg.queryLog
  upstreamLog : target ≠ .upstreamLog → cfg'.upstreamLog = cfg.upstreamLog
  stats : target ≠ .stats → cfg'.stats = cfg.stats
  privacy : target ≠ .privacy → cfg'.privacy = cfg.privacy

theorem applyChange_sameApart {ext : External} {cfg cfg' : Config} {p : Request × Change}
    (h : applyChange ext cfg p = some cfg') : SameApart p.1.target cfg cfg' := by
  rw [applyChange] at h
  split at h
  · rename_i edited hedit
    cases h
    have hsame := edit_sameOutside hedit
    constructor
    · exact hsame.version
    · exact hsame.auth
    · exact hsame.server
    · intro hne
      change edited.upstreams.normalize = _
      rw [hsame.upstreams hne]
    · exact hsame.cache
    · intro hne
      refine ⟨Config.ruleCounts ext p.2.counted, ?_⟩
      rw [← hsame.filtering hne]
      rfl
    · exact hsame.clients
    · exact hsame.queryLog
    · exact hsame.upstreamLog
    · exact hsame.stats
    · exact hsame.privacy
  · cases h

/-- The handler is not dropped between the save and the write of the configuration in memory. -/
def KeepsWaiting (s : AppState) (a : Action) : Prop :=
  a.outcome = .drop → ∀ req change cfg filter,
    s.tasks a.task ≠ some ⟨req, .install change cfg filter []⟩

theorem lockOrder_snoc_lock (as : List Action) (t : Nat) :
    lockOrder (as ++ [⟨t, .lock⟩]) = lockOrder as ++ [t] := by
  simp [lockOrder]

theorem lockOrder_snoc {as : List Action} {t : Nat} {outcome : Outcome}
    (h : outcome ≠ .lock) : lockOrder (as ++ [⟨t, outcome⟩]) = lockOrder as := by
  cases outcome <;> simp [lockOrder] at h ⊢

/-! ## Kinds of steps -/

/-- The handler has or had the lock, or is over. -/
def Stage.begun : Stage → Bool
  | .done _ | .dropped => true
  | stage => stage.locked

def Stage.installing : Stage → Bool
  | .install _ _ _ _ => true
  | _ => false

def Stage.succeeded : Stage → Bool
  | .done (.ok _) => true
  | _ => false

/-- What the copy of a handler is made of, given the configuration in memory. -/
def Stage.Follows (ext : External) (req : Request) (config : Config) : Stage → Prop
  | .edit _ cfg => cfg = config
  | .apply stamp cfg => req.edit stamp config = .ok (some cfg)
  | .read stamp none cfg _ _ => ∃ edited, req.edit stamp config = .ok (some edited) ∧
      cfg = { edited with upstreams := edited.upstreams.normalize }
  | .read stamp (some counted) cfg _ _ =>
      applyChange ext config (req, ⟨stamp, counted⟩) = some cfg
  | .build change cfg _ | .save change cfg _ | .install change cfg _ _ =>
      applyChange ext config (req, change) = some cfg
  | _ => True

/-- The steps, by what they mean for the lock and the copies of the configuration. -/
inductive Kind (ext : External) (s : AppState) (t : Nat) : Outcome → AppState → Prop where
  | outside {outcome files req stage}
      (hbefore : ∀ task, s.tasks t = some task → task.stage.begun = false)
      (hlocked : stage.locked = false) (hfails : stage.succeeded = false)
      (houtcome : outcome ≠ .lock) :
      Kind ext s t outcome ({ s with files := files }.setTask t req stage)
  | locked {req text} (htask : s.tasks t = some ⟨req, .queue text⟩) (hfree : s.holder = none) :
      Kind ext s t .lock ({ s with holder := some t }.setTask t req (.edit text s.config))
  | inside {outcome files req old stage} (htask : s.tasks t = some ⟨req, old⟩)
      (hold : old.locked = true ∧ old.installing = false)
      (hstage : stage.locked = true ∧ stage.installing = false)
      (hfollows : old.Follows ext req s.config → stage.Follows ext req s.config)
      (houtcome : outcome ≠ .lock) :
      Kind ext s t outcome ({ s with files := files }.setTask t req stage)
  | gaveUp {outcome files req old result} (htask : s.tasks t = some ⟨req, old⟩)
      (hold : old.locked = true ∧ old.installing = false) (hresult : ∀ c, result ≠ .ok (some c))
      (houtcome : outcome ≠ .lock) :
      Kind ext s t outcome ({ s with files := files }.finish t req result)
  | saved {req change cfg filter} (htask : s.tasks t = some ⟨req, .save change cfg filter⟩) :
      Kind ext s t (.finished true)
        ({ s with saved := cfg }.setTask t req (.install change cfg filter installs))
  | installed {req change cfg filter i todo}
      (htask : s.tasks t = some ⟨req, .install change cfg filter (i :: todo)⟩) :
      Kind ext s t .proceed ({ s with live := i.apply cfg filter s.live }.setTask t req
        (.install change cfg filter todo))
  | finished {req change cfg filter}
      (htask : s.tasks t = some ⟨req, .install change cfg filter []⟩) :
      Kind ext s t .proceed ({ s with config := cfg }.finish t req (.ok (some change)))
  | left {req old} (htask : s.tasks t = some ⟨req, old⟩) (hwaits : old.waits = true) :
      Kind ext s t .drop (s.leave t req)

section

variable {ext : External} {s s' : AppState} {t : Nat}

theorem entry_outside (cfg : Config) (req : Request) :
    (req.entry cfg).locked = false ∧ (req.entry cfg).succeeded = false := by
  cases req with
  | addList body =>
      rw [Request.entry]
      split <;> exact ⟨rfl, rfl⟩
  | refreshList id =>
      rw [Request.entry]
      split
      · exact ⟨rfl, rfl⟩
      · split <;> exact ⟨rfl, rfl⟩
  | _ => exact ⟨rfl, rfl⟩

theorem afterFetch_outside (text : Text) (req : Request) :
    (req.afterFetch text).locked = false ∧ (req.afterFetch text).succeeded = false := by
  cases req <;> exact ⟨rfl, rfl⟩

private theorem not_begun {task : Task} (htask : s.tasks t = some task)
    (h : task.stage.begun = false) (task' : Task) (htask' : s.tasks t = some task') :
    task'.stage.begun = false := by
  rw [htask] at htask'
  cases htask'
  exact h

theorem kind_of_moves {outcome : Outcome} (h : Moves ext s t outcome s') :
    Kind ext s t outcome s' := by
  cases h with
  | arrive htask =>
      exact @Kind.outside _ _ _ _ s.files _ _ (fun task h => by rw [htask] at h; cases h)
        rfl rfl (by simp)
  | refused htask hcheck =>
      exact @Kind.outside _ _ _ _ s.files _ _ (not_begun htask rfl) rfl rfl (by simp)
  | @entered req htask hcheck =>
      exact @Kind.outside _ _ _ _ s.files _ _ (not_begun htask rfl)
        (entry_outside s.config req).1 (entry_outside s.config req).2 (by simp)
  | unfetched htask =>
      exact @Kind.outside _ _ _ _ s.files _ _ (not_begun htask rfl) rfl rfl (by simp)
  | @fetched req _ text htask =>
      exact @Kind.outside _ _ _ _ s.files _ _ (not_begun htask rfl)
        (afterFetch_outside text req).1 (afterFetch_outside text req).2 (by simp)
  | stored htask hwrite => exact .outside (not_begun htask rfl) rfl rfl (by simp)
  | unstored htask hwrite => exact .outside (not_begun htask rfl) rfl rfl (by simp)
  | locked htask hfree => exact .locked htask hfree
  | unwritten htask hwrite => exact .gaveUp htask ⟨rfl, rfl⟩ (by simp) (by simp)
  | rejected htask hwrite hedit => exact .gaveUp htask ⟨rfl, rfl⟩ (by simp) (by simp)
  | unchanged htask hwrite hedit => exact .gaveUp htask ⟨rfl, rfl⟩ (by simp) (by simp)
  | @edited req text cfg stamp result files cfg' htask hwrite hedit =>
      refine .inside htask ⟨rfl, rfl⟩ ⟨rfl, rfl⟩ (fun hcopy => ?_) (by simp)
      obtain rfl : cfg = s.config := hcopy
      exact hedit
  | invalid htask hcfg =>
      exact @Kind.gaveUp _ _ _ _ s.files _ _ _ htask ⟨rfl, rfl⟩ (by simp) (by simp)
  | valid htask hcfg =>
      exact @Kind.inside _ _ _ _ s.files _ _ _ htask ⟨rfl, rfl⟩ ⟨rfl, rfl⟩
        (fun hedit => ⟨_, hedit, hcfg⟩) (by simp)
  | @read req stamp counted cfg l todo read htask =>
      refine @Kind.inside _ _ _ _ s.files _ _ _ htask ⟨rfl, rfl⟩ ⟨rfl, rfl⟩ ?_ (by simp)
      cases counted <;> exact id
  | counted htask hcfg =>
      refine @Kind.inside _ _ _ _ s.files _ _ _ htask ⟨rfl, rfl⟩ ⟨rfl, rfl⟩ ?_ (by simp)
      rintro ⟨edited, hedit, rfl⟩
      change applyChange ext s.config _ = some _
      rw [applyChange, hedit, hcfg]
      rfl
  | compiled htask =>
      exact @Kind.inside _ _ _ _ s.files _ _ _ htask ⟨rfl, rfl⟩ ⟨rfl, rfl⟩ id (by simp)
  | unbuilt htask =>
      exact @Kind.gaveUp _ _ _ _ s.files _ _ _ htask ⟨rfl, rfl⟩ (by simp) (by simp)
  | built htask =>
      exact @Kind.inside _ _ _ _ s.files _ _ _ htask ⟨rfl, rfl⟩ ⟨rfl, rfl⟩ id (by simp)
  | unsaved htask =>
      exact @Kind.gaveUp _ _ _ _ s.files _ _ _ htask ⟨rfl, rfl⟩ (by simp) (by simp)
  | saved htask => exact .saved htask
  | installed htask => exact .installed htask
  | finished htask => exact .finished htask
  | left htask hwaits => exact .left htask hwaits

/-! ## One step -/

/-- What holds after the actions `as`, from a configuration `config₀`. -/
structure Serial (ext : External) (config₀ : Config) (as : List Action) (s : AppState) :
    Prop where
  lock : ∀ t task, s.tasks t = some task → (task.stage.locked = true ↔ s.holder = some t)
  copies : ∀ t task, s.tasks t = some task → task.stage.Follows ext task.req s.config
  installing : ∀ t req change cfg filter todo,
    s.tasks t = some ⟨req, .install change cfg filter todo⟩ → s.saved = cfg ∧
      ∃ done live, done ++ todo = installs ∧ s.live = done.foldl (Install.apply cfg filter) live
  nodup : (lockOrder as).Nodup
  begun : ∀ t ∈ lockOrder as, ∃ task, s.tasks t = some task ∧ task.stage.begun = true
  holder : ∀ t, s.holder = some t → ∃ front, lockOrder as = front ++ [t]
  succeeded : ∀ t task, s.tasks t = some task → task.stage.succeeded = true → t ∈ lockOrder as
  replayed : replay ext config₀ ((lockOrder as).filterMap s.change) = some s.config

theorem Serial.start {s : AppState} (ext : External) (hquiet : s.Quiet) :
    Serial ext s.config [] s where
  lock t task h := by
    rw [hquiet.2] at h
    cases h
  copies t task h := by
    rw [hquiet.2] at h
    cases h
  installing t req change cfg filter todo h := by
    rw [hquiet.2] at h
    cases h
  nodup := List.nodup_nil
  begun t ht := by cases ht
  holder t ht := by
    rw [hquiet.1] at ht
    cases ht
  succeeded t task h := by
    rw [hquiet.2] at h
    cases h
  replayed := rfl

theorem follows_of_not_locked {stage : Stage} (h : stage.locked = false) (req : Request)
    (config : Config) : stage.Follows ext req config := by
  cases stage <;> trivial

theorem not_installing_of_not_begun {stage : Stage} (h : stage.begun = false) :
    stage.installing = false := by
  cases stage <;> first | rfl | cases h

theorem locked_of_installing {stage : Stage} (h : stage.installing = true) :
    stage.locked = true := by
  cases stage <;> first | rfl | cases h

theorem begun_of_locked {stage : Stage} (h : stage.locked = true) : stage.begun = true := by
  cases stage <;> first | rfl | cases h

theorem change_setTask_of_ne {u : Nat} (hne : u ≠ t) (req : Request) (stage : Stage) :
    (s.setTask t req stage).change u = s.change u := by
  have htask : (s.setTask t req stage).tasks u = s.tasks u := Function.update_of_ne hne _ _
  rw [AppState.change, AppState.change, htask]

theorem change_of_stage {req : Request} {stage : Stage} (htask : s.tasks t = some ⟨req, stage⟩)
    (h : ∀ c, stage ≠ .done (.ok (some c))) : s.change t = none := by
  rw [AppState.change, htask]
  split
  · rename_i heq
    cases heq
    exact absurd rfl (h _)
  · rfl

namespace Serial

variable {config₀ : Config} {as : List Action}

theorem eq_holder (h : Serial ext config₀ as s) {u : Nat} {task : Task}
    (hholder : s.holder = some t) (htask : s.tasks u = some task)
    (hlocked : task.stage.locked = true) : u = t := by
  have hu := (h.lock u task htask).mp hlocked
  rw [hholder] at hu
  exact (Option.some.inj hu).symm

theorem not_mem_lockOrder (h : Serial ext config₀ as s)
    (hbefore : ∀ task, s.tasks t = some task → task.stage.begun = false) :
    t ∉ lockOrder as := by
  intro ht
  obtain ⟨task, htask, hbegun⟩ := h.begun t ht
  rw [hbefore task htask] at hbegun
  cases hbegun

theorem mem_lockOrder (h : Serial ext config₀ as s) (hholder : s.holder = some t) :
    t ∈ lockOrder as := by
  obtain ⟨front, hfront⟩ := h.holder t hholder
  rw [hfront]
  exact List.mem_append_right _ List.mem_cons_self

theorem replay_congr (h : Serial ext config₀ as s)
    (hsame : ∀ u ∈ lockOrder as, s'.change u = s.change u) :
    replay ext config₀ ((lockOrder as).filterMap s'.change) = some s.config := by
  rw [List.filterMap_congr hsame]
  exact h.replayed

theorem outside (h : Serial ext config₀ as s) {outcome : Outcome} {files : Files}
    {req : Request} {stage : Stage}
    (hbefore : ∀ task, s.tasks t = some task → task.stage.begun = false)
    (hlocked : stage.locked = false) (hfails : stage.succeeded = false)
    (houtcome : outcome ≠ .lock) :
    Serial ext config₀ (as ++ [⟨t, outcome⟩]) ({ s with files := files }.setTask t req stage) := by
  have hnotMem := h.not_mem_lockOrder hbefore
  have hnotHolder : s.holder ≠ some t := fun hholder => hnotMem (h.mem_lockOrder hholder)
  constructor
  · intro u task htask
    rcases tasks_setTask.mp htask with ⟨rfl, rfl⟩ | ⟨hne, htask⟩
    · exact iff_of_false (by simp [hlocked]) hnotHolder
    · exact h.lock u task htask
  · intro u task htask
    rcases tasks_setTask.mp htask with ⟨rfl, rfl⟩ | ⟨hne, htask⟩
    · exact follows_of_not_locked hlocked _ _
    · exact h.copies u task htask
  · intro u req' change cfg filter todo htask
    rcases tasks_setTask.mp htask with ⟨rfl, heq⟩ | ⟨hne, htask⟩
    · cases heq
      cases hlocked
    · exact h.installing u req' change cfg filter todo htask
  · rw [lockOrder_snoc houtcome]
    exact h.nodup
  · intro u hu
    rw [lockOrder_snoc houtcome] at hu
    obtain ⟨task, htask, hbegun⟩ := h.begun u hu
    refine ⟨task, tasks_setTask.mpr (.inr ⟨?_, htask⟩), hbegun⟩
    rintro rfl
    exact hnotMem hu
  · intro u hu
    rw [lockOrder_snoc houtcome]
    exact h.holder u hu
  · intro u task htask hsucceeded
    rw [lockOrder_snoc houtcome]
    rcases tasks_setTask.mp htask with ⟨rfl, rfl⟩ | ⟨hne, htask⟩
    · rw [hfails] at hsucceeded
      cases hsucceeded
    · exact h.succeeded u task htask hsucceeded
  · rw [lockOrder_snoc houtcome]
    refine h.replay_congr fun u hu => ?_
    have hne : u ≠ t := fun hut => hnotMem (hut ▸ hu)
    exact change_setTask_of_ne hne _ _

theorem locked (h : Serial ext config₀ as s) {req : Request} {text : Text}
    (htask : s.tasks t = some ⟨req, .queue text⟩) (hfree : s.holder = none) :
    Serial ext config₀ (as ++ [⟨t, .lock⟩])
      ({ s with holder := some t }.setTask t req (.edit text s.config)) := by
  have hnotMem : t ∉ lockOrder as := h.not_mem_lockOrder fun task htask' => by
    rw [htask] at htask'
    cases htask'
    rfl
  have hunlocked : ∀ u task, s.tasks u = some task → task.stage.locked = false := by
    intro u task htask
    rw [Bool.eq_false_iff]
    intro hlocked
    have hholder := (h.lock u task htask).mp hlocked
    rw [hfree] at hholder
    cases hholder
  constructor
  · intro u task htask
    rcases tasks_setTask.mp htask with ⟨rfl, rfl⟩ | ⟨hne, htask⟩
    · exact iff_of_true rfl rfl
    · refine iff_of_false (by simp [hunlocked u task htask]) fun hholder => ?_
      exact hne (Option.some.inj hholder).symm
  · intro u task htask
    rcases tasks_setTask.mp htask with ⟨rfl, rfl⟩ | ⟨hne, htask⟩
    · rfl
    · exact h.copies u task htask
  · intro u req' change cfg filter todo htask
    rcases tasks_setTask.mp htask with ⟨rfl, heq⟩ | ⟨hne, htask⟩
    · cases heq
    · exact h.installing u req' change cfg filter todo htask
  · rw [lockOrder_snoc_lock]
    exact h.nodup.append (List.nodup_singleton t) (by simpa using hnotMem)
  · intro u hu
    rw [lockOrder_snoc_lock, List.mem_append, List.mem_singleton] at hu
    by_cases hut : u = t
    · exact ⟨_, tasks_setTask.mpr (.inl ⟨hut, rfl⟩), rfl⟩
    · obtain ⟨task, htask, hbegun⟩ := h.begun u (hu.resolve_right hut)
      exact ⟨task, tasks_setTask.mpr (.inr ⟨hut, htask⟩), hbegun⟩
  · intro u hu
    obtain rfl : t = u := Option.some.inj hu
    exact ⟨lockOrder as, lockOrder_snoc_lock as t⟩
  · intro u task htask hsucceeded
    rw [lockOrder_snoc_lock]
    rcases tasks_setTask.mp htask with ⟨rfl, rfl⟩ | ⟨hne, htask⟩
    · cases hsucceeded
    · exact List.mem_append_left _ (h.succeeded u task htask hsucceeded)
  · rw [lockOrder_snoc_lock, List.filterMap_append]
    have hself : (({ s with holder := some t } : AppState).setTask t req
        (.edit text s.config)).change t = none :=
      change_of_stage (tasks_setTask.mpr (.inl ⟨rfl, rfl⟩)) (by simp)
    rw [List.filterMap_cons_none hself, List.filterMap_nil, List.append_nil]
    refine h.replay_congr fun u hu => ?_
    have hne : u ≠ t := fun hut => hnotMem (hut ▸ hu)
    exact change_setTask_of_ne hne _ _

theorem begun_setTask (h : Serial ext config₀ as s) {s₁ : AppState} {req : Request}
    {stage : Stage} (htasks : s₁.tasks = s.tasks) (hstage : stage.begun = true) {u : Nat}
    (hu : u ∈ lockOrder as) :
    ∃ task, (s₁.setTask t req stage).tasks u = some task ∧ task.stage.begun = true := by
  by_cases hut : u = t
  · exact ⟨_, tasks_setTask.mpr (.inl ⟨hut, rfl⟩), hstage⟩
  · obtain ⟨task, htask, hbegun⟩ := h.begun u hu
    exact ⟨task, tasks_setTask.mpr (.inr ⟨hut, htasks ▸ htask⟩), hbegun⟩

theorem succeeded_setTask (h : Serial ext config₀ as s) {s₁ : AppState} {req : Request}
    {stage : Stage} (htasks : s₁.tasks = s.tasks) (hmem : t ∈ lockOrder as) {u : Nat}
    {task : Task} (htask : (s₁.setTask t req stage).tasks u = some task)
    (hsucceeded : task.stage.succeeded = true) : u ∈ lockOrder as := by
  rcases tasks_setTask.mp htask with ⟨rfl, rfl⟩ | ⟨hne, htask⟩
  · exact hmem
  · rw [htasks] at htask
    exact h.succeeded u task htask hsucceeded

theorem held (h : Serial ext config₀ as s) {s₁ : AppState} {outcome : Outcome} {req : Request}
    {old stage : Stage} (hconfig : s₁.config = s.config) (hholder : s₁.holder = s.holder)
    (htasks : s₁.tasks = s.tasks) (htask : s.tasks t = some ⟨req, old⟩)
    (hold : old.locked = true) (hstage : stage.locked = true)
    (hfollows : stage.Follows ext req s.config) (houtcome : outcome ≠ .lock)
    (hinstalling : ∀ change cfg filter todo, stage = .install change cfg filter todo →
      s₁.saved = cfg ∧ ∃ done live, done ++ todo = installs ∧
        s₁.live = done.foldl (Install.apply cfg filter) live) :
    Serial ext config₀ (as ++ [⟨t, outcome⟩]) (s₁.setTask t req stage) := by
  have hmine := (h.lock t _ htask).mp hold
  have hmem := h.mem_lockOrder hmine
  constructor
  · intro u task htask'
    rcases tasks_setTask.mp htask' with ⟨rfl, rfl⟩ | ⟨hne, htask'⟩
    · exact iff_of_true hstage (hholder.trans hmine)
    · rw [htasks] at htask'
      change _ ↔ s₁.holder = some u
      rw [hholder]
      exact h.lock u task htask'
  · intro u task htask'
    change task.stage.Follows ext task.req s₁.config
    rw [hconfig]
    rcases tasks_setTask.mp htask' with ⟨rfl, rfl⟩ | ⟨hne, htask'⟩
    · exact hfollows
    · rw [htasks] at htask'
      exact h.copies u task htask'
  · intro u req' change cfg filter todo htask'
    rcases tasks_setTask.mp htask' with ⟨rfl, heq⟩ | ⟨hne, htask'⟩
    · cases heq
      exact hinstalling change cfg filter todo rfl
    · rw [htasks] at htask'
      exact absurd (h.eq_holder hmine htask' rfl) hne
  · rw [lockOrder_snoc houtcome]
    exact h.nodup
  · intro u hu
    rw [lockOrder_snoc houtcome] at hu
    exact h.begun_setTask htasks (begun_of_locked hstage) hu
  · intro u hu
    rw [lockOrder_snoc houtcome]
    exact h.holder u (hholder ▸ hu)
  · intro u task htask' hsucceeded
    rw [lockOrder_snoc houtcome]
    exact h.succeeded_setTask htasks hmem htask' hsucceeded
  · rw [lockOrder_snoc houtcome]
    change _ = some s₁.config
    rw [hconfig]
    refine h.replay_congr fun u hu => ?_
    by_cases hut : u = t
    · subst hut
      rw [change_of_stage htask (fun c hc => by rw [hc] at hold; cases hold)]
      exact change_of_stage (tasks_setTask.mpr (.inl ⟨rfl, rfl⟩))
        (fun c hc => by rw [hc] at hstage; cases hstage)
    · rw [change_setTask_of_ne hut]
      rw [AppState.change, AppState.change, htasks]

theorem returned (h : Serial ext config₀ as s) {s₁ : AppState} {outcome : Outcome}
    {req : Request} {old : Stage} {result : Except ApiError (Option Change)}
    (htasks : s₁.tasks = s.tasks) (htask : s.tasks t = some ⟨req, old⟩)
    (hold : old.locked = true) (houtcome : outcome ≠ .lock)
    (hreplay : replay ext config₀ ((lockOrder as).filterMap (s₁.finish t req result).change) =
      some s₁.config) :
    Serial ext config₀ (as ++ [⟨t, outcome⟩]) (s₁.finish t req result) := by
  have hmine := (h.lock t _ htask).mp hold
  have hmem := h.mem_lockOrder hmine
  -- the others have not had the lock
  have hothers : ∀ u task, u ≠ t → s₁.tasks u = some task → task.stage.locked = false := by
    intro u task hne htask'
    rw [htasks] at htask'
    rw [Bool.eq_false_iff]
    exact fun hlocked => hne (h.eq_holder hmine htask' hlocked)
  constructor
  · intro u task htask'
    refine iff_of_false ?_ (by simp [AppState.finish])
    rcases tasks_setTask.mp htask' with ⟨rfl, rfl⟩ | ⟨hne, htask'⟩
    · exact Bool.false_ne_true
    · rw [hothers u task hne htask']
      exact Bool.false_ne_true
  · intro u task htask'
    rcases tasks_setTask.mp htask' with ⟨rfl, rfl⟩ | ⟨hne, htask'⟩
    · trivial
    · exact follows_of_not_locked (hothers u task hne htask') _ _
  · intro u req' change cfg filter todo htask'
    rcases tasks_setTask.mp htask' with ⟨rfl, heq⟩ | ⟨hne, htask'⟩
    · cases heq
    · have hlocked := hothers u _ hne htask'
      cases hlocked
  · rw [lockOrder_snoc houtcome]
    exact h.nodup
  · intro u hu
    rw [lockOrder_snoc houtcome] at hu
    exact h.begun_setTask htasks rfl hu
  · intro u hu
    cases hu
  · intro u task htask' hsucceeded
    rw [lockOrder_snoc houtcome]
    exact h.succeeded_setTask htasks hmem htask' hsucceeded
  · rw [lockOrder_snoc houtcome]
    exact hreplay

theorem gaveUp (h : Serial ext config₀ as s) {outcome : Outcome} {files : Files}
    {req : Request} {old : Stage} {result : Except ApiError (Option Change)}
    (htask : s.tasks t = some ⟨req, old⟩)
    (hold : old.locked = true ∧ old.installing = false) (hresult : ∀ c, result ≠ .ok (some c))
    (houtcome : outcome ≠ .lock) :
    Serial ext config₀ (as ++ [⟨t, outcome⟩]) ({ s with files := files }.finish t req result) := by
  refine h.returned rfl htask hold.1 houtcome ?_
  refine h.replay_congr fun u _ => ?_
  by_cases hut : u = t
  · subst hut
    rw [change_of_stage htask (fun c hc => by rw [hc] at hold; cases hold.1)]
    exact change_of_stage (tasks_setTask.mpr (.inl ⟨rfl, rfl⟩))
      (fun c hc => hresult c (by cases hc; rfl))
  · exact change_setTask_of_ne hut _ _

theorem finished (h : Serial ext config₀ as s) {outcome : Outcome} {req : Request}
    {change : Change} {cfg : Config} {filter : Lists}
    (htask : s.tasks t = some ⟨req, .install change cfg filter []⟩)
    (houtcome : outcome ≠ .lock) :
    Serial ext config₀ (as ++ [⟨t, outcome⟩])
      ({ s with config := cfg }.finish t req (.ok (some change))) := by
  have hcopy : applyChange ext s.config (req, change) = some cfg := h.copies t _ htask
  obtain ⟨front, hfront⟩ := h.holder t ((h.lock t _ htask).mp rfl)
  refine h.returned rfl htask rfl houtcome ?_
  -- the request is the last one in order, and it is applied last
  have hbefore := h.replayed
  have hnodup := h.nodup
  rw [hfront] at hbefore hnodup ⊢
  rw [List.filterMap_append, List.filterMap_cons_none (change_of_stage htask (by simp)),
    List.filterMap_nil, List.append_nil] at hbefore
  have hself : (({ s with config := cfg } : AppState).finish t req
      (.ok (some change))).change t = some (req, change) := by
    have hdone : (({ s with config := cfg } : AppState).finish t req
        (.ok (some change))).tasks t = some ⟨req, .done (.ok (some change))⟩ :=
      Function.update_self _ _ _
    rw [AppState.change, hdone]
  have hothers : front.filterMap (({ s with config := cfg } : AppState).finish t req
      (.ok (some change))).change = front.filterMap s.change := by
    refine List.filterMap_congr fun u hu => ?_
    have hne : u ≠ t := by
      rintro rfl
      exact (List.disjoint_of_nodup_append hnodup) hu List.mem_cons_self
    exact change_setTask_of_ne hne _ _
  rw [List.filterMap_append, hothers, List.filterMap_cons_some hself, List.filterMap_nil,
    replay, List.foldlM_append]
  rw [replay] at hbefore
  rw [hbefore]
  change (applyChange ext s.config (req, change)).bind some = some cfg
  rw [hcopy]
  rfl

theorem left (h : Serial ext config₀ as s) {req : Request} {old : Stage}
    (htask : s.tasks t = some ⟨req, old⟩) (hwaits : old.waits = true) :
    Serial ext config₀ (as ++ [⟨t, .drop⟩]) (s.leave t req) := by
  have hfree : ∀ u, (s.leave t req).holder = some u ↔ s.holder = some u ∧ u ≠ t := by
    intro u
    by_cases hmine : s.holder = some t
    · simp [AppState.leave, hmine, eq_comm]
    · have hother : s.holder = some u → u ≠ t := by
        rintro hu rfl
        exact hmine hu
      simpa [AppState.leave, hmine] using hother
  constructor
  · intro u task htask'
    rcases tasks_setTask.mp htask' with ⟨rfl, rfl⟩ | ⟨hne, htask'⟩
    · exact iff_of_false Bool.false_ne_true fun hholder => ((hfree u).mp hholder).2 rfl
    · rw [h.lock u task htask', hfree u]
      exact (and_iff_left hne).symm
  · intro u task htask'
    rcases tasks_setTask.mp htask' with ⟨rfl, rfl⟩ | ⟨hne, htask'⟩
    · trivial
    · exact h.copies u task htask'
  · intro u req' change cfg filter todo htask'
    rcases tasks_setTask.mp htask' with ⟨rfl, heq⟩ | ⟨hne, htask'⟩
    · cases heq
    · exact h.installing u req' change cfg filter todo htask'
  · rw [lockOrder_snoc (by simp)]
    exact h.nodup
  · intro u hu
    rw [lockOrder_snoc (by simp)] at hu
    exact h.begun_setTask rfl rfl hu
  · intro u hu
    rw [lockOrder_snoc (by simp)]
    exact h.holder u ((hfree u).mp hu).1
  · intro u task htask' hsucceeded
    rw [lockOrder_snoc (by simp)]
    rcases tasks_setTask.mp htask' with ⟨rfl, rfl⟩ | ⟨hne, htask'⟩
    · cases hsucceeded
    · exact h.succeeded u task htask' hsucceeded
  · rw [lockOrder_snoc (by simp)]
    refine h.replay_congr fun u _ => ?_
    by_cases hut : u = t
    · subst hut
      have hbefore : s.change u = none :=
        change_of_stage htask fun c hc => by
          rw [hc] at hwaits
          cases hwaits
      rw [hbefore]
      exact change_of_stage (tasks_setTask.mpr (.inl ⟨rfl, rfl⟩)) (by simp)
    · exact change_setTask_of_ne hut _ _

theorem step (h : Serial ext config₀ as s) {a : Action} (hstep : Api.step ext s a = some s') :
    Serial ext config₀ (as ++ [a]) s' := by
  obtain ⟨t, outcome⟩ := a
  cases kind_of_moves (moves_of_step hstep) with
  | outside hbefore hlocked hfails houtcome => exact h.outside hbefore hlocked hfails houtcome
  | locked htask hfree => exact h.locked htask hfree
  | inside htask hold hstage hfollows houtcome =>
      refine h.held rfl rfl rfl htask hold.1 hstage.1 (hfollows (h.copies _ _ htask)) houtcome
        fun change cfg filter todo heq => ?_
      rw [heq] at hstage
      cases hstage.2
  | gaveUp htask hold hresult houtcome => exact h.gaveUp htask hold hresult houtcome
  | saved htask =>
      refine h.held rfl rfl rfl htask rfl rfl (h.copies _ _ htask) (by simp)
        fun change cfg filter todo heq => ?_
      cases heq
      exact ⟨rfl, [], s.live, rfl, rfl⟩
  | @installed req change cfg filter i todo htask =>
      obtain ⟨hsaved, done, live, hdone, hlive⟩ := h.installing _ _ _ _ _ _ htask
      refine h.held rfl rfl rfl htask rfl rfl (h.copies _ _ htask) (by simp)
        fun change cfg filter todo heq => ?_
      cases heq
      refine ⟨hsaved, done ++ [i], live, by rw [← hdone, List.append_assoc]; rfl, ?_⟩
      rw [List.foldl_append, ← hlive]
      rfl
  | finished htask => exact h.finished htask (by simp)
  | left htask hwaits => exact h.left htask hwaits

theorem run {s₀ : AppState} (hquiet : s₀.Quiet)
    (hrun : runFrom (Api.step ext) s₀ as = some s) : Serial ext s₀.config as s :=
  @runFrom_induction _ _ _ (fun _ _ => True) (fun as s => Serial ext s₀.config as s) s₀ s as
    (Serial.start ext hquiet) (fun _ _ _ _ _ _ hstep h => h.step hstep)
    (eachStep_trivial _ _) hrun

end Serial

/-! ## The three copies -/

/-- The copies agree, or the handler with the lock is installing. -/
def AppState.Settles (s : AppState) : Prop :=
  (∀ t task, s.tasks t = some task → task.stage.installing = false) → s.Agrees

theorem AppState.Settles.of_tasks (h : s.Settles) (hsaved : s'.saved = s.saved)
    (hconfig : s'.config = s.config) (hlive : s'.live = s.live)
    (hothers : ∀ u, u ≠ t → s'.tasks u = s.tasks u)
    (hbefore : ∀ task, s.tasks t = some task → task.stage.installing = false) : s'.Settles := by
  intro hnone
  have hagrees : s.Agrees := by
    refine h fun u task htask => ?_
    by_cases hut : u = t
    · subst hut
      exact hbefore task htask
    · exact hnone u task ((hothers u hut).trans htask)
  rwa [AppState.Agrees, hsaved, hconfig, hlive]

private theorem not_installing {task : Task} (htask : s.tasks t = some task)
    (h : task.stage.installing = false) (task' : Task) (htask' : s.tasks t = some task') :
    task'.stage.installing = false := by
  rw [htask] at htask'
  cases htask'
  exact h

theorem AppState.Settles.step {config₀ : Config} {as : List Action} {a : Action}
    (h : s.Settles) (hserial : Serial ext config₀ as s) (hwaits : KeepsWaiting s a)
    (hstep : Api.step ext s a = some s') : s'.Settles := by
  obtain ⟨t, outcome⟩ := a
  have hothers : ∀ {s₁ : AppState} {req stage}, s₁.tasks = s.tasks → ∀ u, u ≠ t →
      (s₁.setTask t req stage).tasks u = s.tasks u := by
    rintro s₁ req stage htasks u hne
    rw [← htasks]
    exact Function.update_of_ne hne _ _
  cases kind_of_moves (moves_of_step hstep) with
  | outside hbefore hlocked hfails houtcome =>
      exact h.of_tasks rfl rfl rfl (hothers rfl)
        fun task htask => not_installing_of_not_begun (hbefore task htask)
  | locked htask hfree => exact h.of_tasks rfl rfl rfl (hothers rfl) (not_installing htask rfl)
  | inside htask hold hstage hfollows houtcome =>
      exact h.of_tasks rfl rfl rfl (hothers rfl) (not_installing htask hold.2)
  | gaveUp htask hold hresult houtcome =>
      exact h.of_tasks rfl rfl rfl (hothers rfl) (not_installing htask hold.2)
  | saved htask =>
      intro hnone
      cases hnone t _ (tasks_setTask.mpr (.inl ⟨rfl, rfl⟩))
  | installed htask =>
      intro hnone
      cases hnone t _ (tasks_setTask.mpr (.inl ⟨rfl, rfl⟩))
  | @finished req change cfg filter htask =>
      obtain ⟨hsaved, done, live, hdone, hlive⟩ := hserial.installing _ _ _ _ _ _ htask
      rw [List.append_nil] at hdone
      refine fun _ => ⟨hsaved, filter, ?_⟩
      change s.live = cfg.live filter
      rw [hlive, hdone, foldl_installs]
  | @left req old htask hwaits' =>
      refine h.of_tasks rfl rfl rfl (hothers rfl) (not_installing htask ?_)
      cases old with
      | install change cfg filter todo =>
          cases todo with
          | nil => exact absurd htask (hwaits rfl req change cfg filter)
          | cons _ _ => cases hwaits'
      | _ => rfl

theorem AppState.Settles.run {s₀ : AppState} {as : List Action} (hquiet : s₀.Quiet)
    (hagrees : s₀.Agrees) (hwaits : EachStep (Api.step ext) KeepsWaiting s₀ as)
    (hrun : runFrom (Api.step ext) s₀ as = some s) : s.Settles := by
  have hboth : Serial ext s₀.config as s ∧ s.Settles := by
    refine @runFrom_induction _ _ _ _ (fun as s => Serial ext s₀.config as s ∧ s.Settles) _ _ _
      ⟨Serial.start ext hquiet, fun _ => hagrees⟩ (fun as s a s' _ hwaits hstep h => ?_)
      hwaits hrun
    exact ⟨h.1.step hstep, h.2.step h.1 hwaits hstep⟩
  exact hboth.2

theorem AppState.Settles.agrees {config₀ : Config} {as : List Action} (h : s.Settles)
    (hserial : Serial ext config₀ as s) (hfree : s.holder = none) : s.Agrees := by
  refine h fun t task htask => ?_
  rw [Bool.eq_false_iff]
  intro hinstalling
  have hholder := (hserial.lock t task htask).mp (locked_of_installing hinstalling)
  rw [hfree] at hholder
  cases hholder

/-- The file is the configuration in memory, or one request ahead of it. -/
theorem Serial.saved_step {config₀ : Config} {as : List Action} {a : Action}
    (hserial : Serial ext config₀ as s)
    (h : s.saved = s.config ∨ ∃ p t, applyChange ext s.config p = some s.saved ∧
      ⟨t, .arrive p.1⟩ ∈ as)
    (harrived : ∀ t task, s.tasks t = some task → ⟨t, .arrive task.req⟩ ∈ as)
    (hstep : Api.step ext s a = some s') :
    s'.saved = s'.config ∨ ∃ p t, applyChange ext s'.config p = some s'.saved ∧
      ⟨t, .arrive p.1⟩ ∈ as ++ [a] := by
  have hkept : s.saved = s.config ∨ ∃ p t, applyChange ext s.config p = some s.saved ∧
      ⟨t, .arrive p.1⟩ ∈ as ++ [a] := by
    rcases h with h | ⟨p, t, hp, ht⟩
    · exact .inl h
    · exact .inr ⟨p, t, hp, List.mem_append_left _ ht⟩
  obtain ⟨t, outcome⟩ := a
  cases kind_of_moves (moves_of_step hstep) with
  | outside | locked | inside | gaveUp | installed | left => exact hkept
  | @saved req change cfg filter htask =>
      exact .inr ⟨(req, change), t, hserial.copies t _ htask,
        List.mem_append_left _ (harrived t _ htask)⟩
  | finished htask =>
      obtain ⟨hsaved, -⟩ := hserial.installing _ _ _ _ _ _ htask
      exact .inl hsaved

end

/-! ## All runs -/

theorem request_of_moves {ext : External} {s s' : AppState} {t u : Nat} {outcome : Outcome}
    {task : Task} (h : Moves ext s t outcome s') (htask : s'.tasks u = some task) :
    (∃ old, s.tasks u = some ⟨task.req, old⟩) ∨ (u = t ∧ outcome = .arrive task.req) := by
  cases h with
  | arrive _ =>
      rcases tasks_setTask.mp htask with ⟨rfl, rfl⟩ | ⟨-, htask⟩
      · exact .inr ⟨rfl, rfl⟩
      · exact .inl ⟨_, htask⟩
  | _ =>
      rcases tasks_setTask.mp htask with ⟨rfl, rfl⟩ | ⟨-, htask⟩
      · exact .inl ⟨_, by assumption⟩
      · exact .inl ⟨_, htask⟩

theorem arrived_of_run {ext : External} {s₀ s : AppState} {as : List Action}
    (hquiet : s₀.Quiet) (hrun : runFrom (step ext) s₀ as = some s) :
    ∀ t task, s.tasks t = some task → ⟨t, .arrive task.req⟩ ∈ as := by
  refine @runFrom_induction _ _ _ (fun _ _ => True)
    (fun as s => ∀ t task, s.tasks t = some task → ⟨t, .arrive task.req⟩ ∈ as) s₀ s as
    (fun t task h => ?_) (fun as s a s' _ _ hstep ih t task h => ?_) (eachStep_trivial _ _) hrun
  · rw [hquiet.2] at h
    cases h
  · obtain ⟨u, outcome⟩ := a
    rcases request_of_moves (moves_of_step hstep) h with ⟨old, hold⟩ | ⟨rfl, rfl⟩
    · exact List.mem_append_left _ (ih t ⟨task.req, old⟩ hold)
    · exact List.mem_append_right _ List.mem_cons_self

theorem saved_of_run {ext : External} {s₀ s : AppState} {as : List Action} (hquiet : s₀.Quiet)
    (hagrees : s₀.Agrees) (hrun : runFrom (step ext) s₀ as = some s) :
    s.saved = s.config ∨ ∃ p t, applyChange ext s.config p = some s.saved ∧
      ⟨t, .arrive p.1⟩ ∈ as := by
  have hboth : runFrom (step ext) s₀ as = some s ∧ (s.saved = s.config ∨
      ∃ p t, applyChange ext s.config p = some s.saved ∧ ⟨t, .arrive p.1⟩ ∈ as) := by
    refine @runFrom_induction _ _ _ (fun _ _ => True)
      (fun as s => runFrom (step ext) s₀ as = some s ∧
        (s.saved = s.config ∨ ∃ p t, applyChange ext s.config p = some s.saved ∧
          ⟨t, .arrive p.1⟩ ∈ as)) _ _ _ ⟨rfl, .inl hagrees.1⟩
      (fun as s a s' hrun _ hstep h => ⟨runFrom_snoc.mpr ⟨s, hrun, hstep⟩, ?_⟩)
      (eachStep_trivial _ _) hrun
    exact (Serial.run hquiet hrun).saved_step h.2 (arrived_of_run hquiet hrun) hstep
  exact hboth.2

/--
From a quiet state whose copies agree, after any interleaving of any requests: the handlers
took the lock one after another, the configuration is what the successful requests make of
it in this order, and each of them changes its own section apart from what is derived.  As
long as no handler is dropped at its last wait, the copies agree whenever the lock is free.
-/
theorem updates_serialize (ext : External) {s₀ s : AppState} {as : List Action}
    (hquiet : s₀.Quiet) (hagrees : s₀.Agrees) (hrun : runFrom (step ext) s₀ as = some s) :
    (lockOrder as).Nodup ∧
    (∀ t req change, s.tasks t = some ⟨req, .done (.ok change)⟩ →
      t ∈ lockOrder as ∧ ⟨t, .arrive req⟩ ∈ as) ∧
    replay ext s₀.config ((lockOrder as).filterMap s.change) = some s.config ∧
    (∀ p cfg cfg', applyChange ext cfg p = some cfg' → SameApart p.1.target cfg cfg') ∧
    (EachStep (step ext) KeepsWaiting s₀ as → s.holder = none → s.Agrees) := by
  have h := Serial.run hquiet hrun
  refine ⟨h.nodup, fun t req change htask => ⟨h.succeeded t _ htask rfl, ?_⟩, h.replayed,
    fun p cfg cfg' => applyChange_sameApart, fun hwaits => ?_⟩
  · exact arrived_of_run hquiet hrun t _ htask
  · exact (AppState.Settles.run hquiet hagrees hwaits hrun).agrees h

theorem startedFrom_quiet (cfg : Config) (files : Files) :
    (startedFrom cfg files).Quiet ∧ (startedFrom cfg files).Agrees :=
  ⟨⟨rfl, fun _ => rfl⟩, rfl, _, rfl⟩

/-- Two requests at once; the pool cannot be built for the one that gets the lock first, and the
caller of a third one goes away while that waits for the lock. -/
def twoRequests : List Action :=
  [⟨0, .arrive (.putPrivacy ⟨true⟩)⟩, ⟨1, .arrive (.putCustomRules "||ads.com^".toList)⟩,
    ⟨1, .proceed⟩, ⟨0, .proceed⟩, ⟨1, .lock⟩, ⟨2, .arrive (.putPrivacy ⟨false⟩)⟩,
    ⟨1, .edited stamp .done⟩, ⟨2, .proceed⟩, ⟨1, .proceed⟩, ⟨1, .proceed⟩, ⟨1, .proceed⟩,
    ⟨1, .finished false⟩, ⟨0, .lock⟩, ⟨0, .edited stamp .done⟩, ⟨2, .drop⟩, ⟨0, .proceed⟩,
    ⟨0, .proceed⟩, ⟨0, .proceed⟩, ⟨0, .finished true⟩, ⟨0, .finished true⟩] ++
  List.replicate 7 ⟨0, .proceed⟩

def keepsWaiting (s : AppState) (a : Action) : Bool :=
  match a.outcome, s.tasks a.task with
  | .drop, some ⟨_, .install _ _ _ []⟩ => false
  | _, _ => true

theorem keepsWaiting_sound {s : AppState} {a : Action} (h : keepsWaiting s a = true) :
    KeepsWaiting s a := by
  intro hdrop req change cfg filter htask
  rw [keepsWaiting, hdrop, htask] at h
  cases h

theorem updates_serialize_twoRequests :
    ∃ s, runFrom (step referenceExternal) (startedFrom (configWith []) fun _ => none)
        twoRequests = some s ∧
      s.config.privacy.anonymizeClientIps = true ∧ s.config.filtering.customRules = [] ∧
      s.holder = none ∧ lockOrder twoRequests = [1, 0] ∧ s.Agrees ∧
      replay referenceExternal (configWith [])
        ((lockOrder twoRequests).filterMap s.change) = some s.config := by
  have hfacts : (runFrom (step referenceExternal) (startedFrom (configWith []) fun _ => none)
      twoRequests).map (fun s => (s.config.privacy.anonymizeClientIps,
        s.config.filtering.customRules, s.holder)) = some (true, [], none) := by
    decide +kernel
  have hcheck : checkEach (step referenceExternal) keepsWaiting
      (startedFrom (configWith []) fun _ => none) twoRequests = true := by decide +kernel
  obtain ⟨s, hrun, hs⟩ := Option.map_eq_some_iff.mp hfacts
  simp only [Prod.mk.injEq] at hs
  obtain ⟨hquiet, hagrees⟩ := startedFrom_quiet (configWith []) fun _ => none
  obtain ⟨-, -, hreplay, -, hfree⟩ := updates_serialize referenceExternal hquiet hagrees hrun
  exact ⟨s, hrun, hs.1, hs.2.1, hs.2.2, rfl,
    hfree (eachStep_of_check (fun s a => keepsWaiting_sound) hcheck) hs.2.2, hreplay⟩

/-- The caller goes away when all but the configuration in memory is changed. -/
def tornUpdate : List Action :=
  [⟨0, .arrive (.putPrivacy ⟨true⟩)⟩, ⟨0, .proceed⟩, ⟨0, .lock⟩, ⟨0, .edited stamp .done⟩,
    ⟨0, .proceed⟩, ⟨0, .proceed⟩, ⟨0, .proceed⟩, ⟨0, .finished true⟩, ⟨0, .finished true⟩] ++
  List.replicate 6 ⟨0, .proceed⟩ ++ [⟨0, .drop⟩]

/-- The lock is free, the file and the engine anonymize, and the memory does not. -/
theorem copies_disagree_tornUpdate :
    ∃ s, runFrom (step referenceExternal) (startedFrom (configWith []) fun _ => none)
        tornUpdate = some s ∧
      s.holder = none ∧ s.saved.privacy.anonymizeClientIps = true ∧
      s.live.log.anonymizeClientIps = true ∧ s.config.privacy.anonymizeClientIps = false ∧
      ¬ s.Agrees := by
  have hfacts : (runFrom (step referenceExternal) (startedFrom (configWith []) fun _ => none)
      tornUpdate).map (fun s => (s.holder, s.saved.privacy.anonymizeClientIps,
        s.live.log.anonymizeClientIps, s.config.privacy.anonymizeClientIps)) =
      some (none, true, true, false) := by
    decide +kernel
  obtain ⟨s, hrun, hs⟩ := Option.map_eq_some_iff.mp hfacts
  simp only [Prod.mk.injEq] at hs
  obtain ⟨hfree, hsaved, hlive, hconfig⟩ := hs
  refine ⟨s, hrun, hfree, hsaved, hlive, hconfig, fun hagrees => ?_⟩
  rw [hagrees.1, hconfig] at hsaved
  cases hsaved

end Bulwark.Api
