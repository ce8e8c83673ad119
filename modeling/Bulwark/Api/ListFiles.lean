import Bulwark.Api.ListIds
import Bulwark.Api.Serial

/-!
# Whose text a list file holds

A list file is named after the id of its list, a refresh stores its text without the update
lock, and ids come back.  So the text of a list that is gone can end up in the file of another
list.  A ledger beside the server keeps which list has which id and what was last fetched or
given for it; the files agree with the ledger as long as no refresh comes too late, no id is
given away twice, and no delete fails or is dropped after it has removed a file.
-/

namespace Bulwark.Api

open Bulwark.Foundation Bulwark.Filter

/-! ## The ledger -/

/-- Lists are numbered in the order in which they were added. -/
structure Ledger where
  /-- The list that has an id, or had it last. -/
  owner : UInt32 → Nat
  count : Nat
  /-- What was last fetched or given for a list, by its own add or refresh. -/
  latest : Nat → Text
  /-- The list a refresh was started for, by handler. -/
  started : Nat → Nat
  /-- The text a new list comes with, by handler. -/
  supplied : Nat → Text

namespace Ledger

def start (files : Files) : Ledger where
  owner id := id.toNat
  count := 2 ^ 32
  latest n := readListText files (.ofNat n)
  started _ := 0
  supplied _ := []

/-- A refresh is for the list that has the id now. -/
def onEntry (g : Ledger) (t : Nat) : Request → Ledger
  | .refreshList id => { g with started := Function.update g.started t (g.owner id) }
  | _ => g

def onFetch (g : Ledger) (t : Nat) (text : Text) : Request → Ledger
  | .refreshList _ => { g with latest := Function.update g.latest (g.started t) text }
  | _ => g

/-- A new list is there, under the next id of the configuration before it. -/
def onFinish (g : Ledger) (t : Nat) (cfg : Config) : Request → Ledger
  | .addList _ =>
      { g with
        owner := Function.update g.owner cfg.nextListId g.count
        count := g.count + 1
        latest := Function.update g.latest g.count (g.supplied t) }
  | _ => g

def record (g : Ledger) (s : AppState) (a : Action) : Ledger :=
  match s.tasks a.task with
  | none => g
  | some task =>
      match task.stage, a.outcome with
      | .ready, .proceed => g.onEntry a.task task.req
      | .fetch _, .fetched (.ok text) => g.onFetch a.task text task.req
      | .queue text, .lock => { g with supplied := Function.update g.supplied a.task text }
      | .install _ _ _ [], .proceed => g.onFinish a.task s.config task.req
      | _, _ => g

end Ledger

def ledgerStep (ext : External) (w : AppState × Ledger) (a : Action) :
    Option (AppState × Ledger) :=
  (step ext w.1 a).map fun s => (s, w.2.record w.1 a)

def Stage.edited : Stage → Bool
  | .apply _ _ | .read _ _ _ _ _ | .build _ _ _ | .save _ _ _ | .install _ _ _ _ => true
  | _ => false

/-- The step ends the handler with an error of `apply_config`, or the handler is dropped in it. -/
def Stage.failsApply : Stage → Outcome → Bool
  | .apply _ cfg, .proceed =>
      match ({ cfg with upstreams := cfg.upstreams.normalize } : Config).validate with
      | .error _ => true
      | .ok _ => false
  | .build _ _ _, .finished ok | .save _ _ _, .finished ok => !ok
  | .build _ _ _, .drop | .install _ _ _ _, .drop => true
  | _, _ => false

def AppState.Adding (s : AppState) : Prop :=
  ∃ t body stage, s.tasks t = some ⟨.addList body, stage⟩ ∧ stage.edited = true

def AppState.Removing (s : AppState) (id : UInt32) : Prop :=
  ∃ t stage, s.tasks t = some ⟨.deleteList id, stage⟩ ∧ stage.edited = true

/-- A handler is about to store the newest text of the list. -/
def DueFrom (s : AppState) (g : Ledger) (id : UInt32) (t : Nat) : Prop :=
  s.tasks t = some ⟨.refreshList id, .store (g.latest (g.owner id))⟩ ∧ g.started t = g.owner id

/--
A refresh stores the newest text of its list, and only while the list has the id or nobody
has, unless the newest text is still to be stored; a new list gets an id that is not taken; a
delete that fails or is dropped leaves the file, unless there is no text or one is still to be
stored.
-/
def InTime (w : AppState × Ledger) (a : Action) : Prop :=
  ∀ req stage, w.1.tasks a.task = some ⟨req, stage⟩ →
    (∀ id text result, req = .refreshList id → stage = .store text → a.outcome = .wrote result →
      (id ∈ w.1.config.listIds →
        (result = .done ∧ DueFrom w.1 w.2 id a.task) ∨ ∃ u ≠ a.task, DueFrom w.1 w.2 id u) ∧
      (w.1.Adding → id ≠ w.1.config.nextListId)) ∧
    (∀ body text cfg, req = .addList body → stage = .edit text cfg →
      w.1.config.nextListId ∉ w.1.config.listIds) ∧
    (∀ id, req = .deleteList id → stage.failsApply a.outcome = true →
      w.1.files id ≠ none ∨ w.2.latest (w.2.owner id) = [] ∨ ∃ u, DueFrom w.1 w.2 id u)

def Stage.over : Stage → Bool
  | .done _ | .dropped => true
  | _ => false

def AppState.Idle (s : AppState) : Prop :=
  ∀ t task, s.tasks t = some task → task.stage.over = true

/-- Every configured list has the text last fetched or given for it. -/
def OwnTexts (s : AppState) (g : Ledger) : Prop :=
  ∀ id ∈ s.config.listIds, readListText s.files id = g.latest (g.owner id)

/-! ## The ids of the lists -/

def Request.idsAfter (cfg : Config) : Request → List UInt32
  | .addList _ => cfg.listIds ++ [cfg.nextListId]
  | .deleteList id => cfg.listIds.filter (· ≠ id)
  | _ => cfg.listIds

theorem map_id_modifyFirst {p : FilterListConfig → Bool} {f : FilterListConfig → FilterListConfig}
    (hf : ∀ l, (f l).id = l.id) {lists lists' : List FilterListConfig}
    (h : modifyFirst p f lists = some lists') : lists'.map (·.id) = lists.map (·.id) := by
  induction lists generalizing lists' with
  | nil => cases h
  | cons l lists ih =>
      rw [modifyFirst] at h
      split at h
      · cases h
        rw [List.map_cons, List.map_cons, hf]
      · obtain ⟨rest, hrest, rfl⟩ := Option.map_eq_some_iff.mp h
        rw [List.map_cons, List.map_cons, ih hrest]

theorem listIds_edit {req : Request} {stamp : Stamp} {cfg cfg' : Config}
    (h : req.edit stamp cfg = .ok (some cfg')) : cfg'.listIds = req.idsAfter cfg := by
  cases req with
  | addList body => exact listIds_add cfg body stamp h
  | deleteList id => exact listIds_delete cfg id stamp h
  | updateList id body =>
      rw [Request.edit] at h
      split at h
      · rename_i lists hlists
        cases h
        have hids := map_id_modifyFirst (by exact fun _ => rfl) hlists
        exact hids
      · cases h
  | refreshList id =>
      rw [Request.edit] at h
      split at h
      · rename_i lists hlists
        cases h
        have hids := map_id_modifyFirst (by exact fun _ => rfl) hlists
        exact hids
      · cases h
        rfl
  | _ =>
      simp only [Request.edit] at h
      (try split at h) <;> first | (cases h; rfl) | cases h

theorem listIds_applyChange {ext : External} {cfg cfg' : Config} {req : Request}
    {change : Change} (h : applyChange ext cfg (req, change) = some cfg') :
    cfg'.listIds = req.idsAfter cfg := by
  rw [applyChange] at h
  split at h
  · rename_i edited hedit
    cases h
    rw [← listIds_edit hedit]
    change ((edited.filtering.lists.map (Config.countList _)).map (·.id)) = _
    rw [List.map_map]
    exact List.map_congr_left fun l _ => (Config.countList_id _ l).1
  · cases h

/-! ## The files of an edit -/

section

variable {files files' : Files} {text : Text} {cfg : Config} {result : FileResult}
  {written : Except ApiError Unit} {req : Request}

theorem files_edit (h : req.editFiles files text cfg result = some (files', written))
    {id : UInt32} (hadd : ∀ body, req = .addList body → id ≠ cfg.nextListId)
    (hdelete : req ≠ .deleteList id) : files' id = files id := by
  cases req with
  | addList body => exact files_write (hadd body rfl) h
  | deleteList other =>
      have hne : id ≠ other := by
        rintro rfl
        exact hdelete rfl
      cases h
      split
      · cases result with
        | done => exact Function.update_of_ne hne _ _
        | failed kept message => rfl
      · rfl
  | _ =>
      cases h
      rfl

theorem files_delete {id : UInt32}
    (h : (Request.deleteList id).editFiles files text cfg result = some (files', written)) :
    files' id = none ∨ files' id = files id := by
  cases h
  split
  · cases result with
    | done => exact .inl (Function.update_self _ _ _)
    | failed kept message => exact .inr rfl
  · exact .inr rfl

theorem files_add {body : NewList}
    (h : (Request.addList body).editFiles files text cfg result = some (files', .ok ())) :
    readListText files' cfg.nextListId = text := by
  rw [Request.editFiles, writeListText.eq_def] at h
  split at h
  · cases h
    rw [readListText_update, if_pos rfl]
    rfl
  · cases h
  · split at h <;> cases h

end

/-! ## What the server keeps -/

def Stage.fetching : Stage → Bool
  | .fetch _ | .store _ => true
  | _ => false

/-- No other id is the list's for which the refresh was started. -/
def Ledger.Home (g : Ledger) (t : Nat) (id : UInt32) : Prop :=
  g.started t < g.count ∧ ∀ other, g.owner other = g.started t → other = id

/-- The text of a list is in place, or about to be, or the list is about to go. -/
def Settled (s : AppState) (g : Ledger) (id : UInt32) : Prop :=
  readListText s.files id = g.latest (g.owner id) ∨ (∃ t, DueFrom s g id t) ∨
    (s.files id = none ∧ s.Removing id)

structure Kept (s : AppState) (g : Ledger) : Prop where
  owner_lt : ∀ id, g.owner id < g.count
  owner_inj : Function.Injective g.owner
  home : ∀ t id stage, s.tasks t = some ⟨.refreshList id, stage⟩ → stage.fetching = true →
    g.Home t id
  texts : ∀ id ∈ s.config.listIds, Settled s g id
  supplied : ∀ t body text cfg, s.tasks t = some ⟨.addList body, .edit text cfg⟩ →
    g.supplied t = text
  added : ∀ t body stage, s.tasks t = some ⟨.addList body, stage⟩ → stage.edited = true →
    s.config.nextListId ∉ s.config.listIds ∧
      readListText s.files s.config.nextListId = g.supplied t

theorem Kept.start (cfg : Config) (files : Files) :
    Kept (startedFrom cfg files) (.start files) where
  owner_lt id := id.toNat_lt
  owner_inj _ _ h := UInt32.toNat_inj.mp h
  home _ _ _ h := by cases h
  texts id _ := by
    left
    change readListText files id = readListText files (.ofNat id.toNat)
    rw [UInt32.ofNat_toNat]
  supplied _ _ _ _ h := by cases h
  added _ _ _ h := by cases h

theorem not_over_of_edited {stage : Stage} (h : stage.edited = true) : stage.over = false := by
  cases stage <;> first | rfl | cases h

theorem locked_of_edited {stage : Stage} (h : stage.edited = true) : stage.locked = true := by
  cases stage <;> first | rfl | cases h

section

variable {s s₁ : AppState} {g : Ledger} {t : Nat} {req : Request} {old stage : Stage}

theorem Kept.congr (h : Kept s g) (hconfig : s₁.config = s.config) (hfiles : s₁.files = s.files)
    (htasks : s₁.tasks = s.tasks) : Kept s₁ g := by
  obtain ⟨config, saved, live, files, holder, tasks⟩ := s
  obtain ⟨config', saved', live', files', holder', tasks'⟩ := s₁
  obtain rfl : config' = config := hconfig
  obtain rfl : files' = files := hfiles
  obtain rfl : tasks' = tasks := htasks
  exact ⟨h.owner_lt, h.owner_inj, h.home, h.texts, h.supplied, h.added⟩

theorem DueFrom.setTask {id : UInt32} {u : Nat} (h : DueFrom s g id u) (hne : u ≠ t) :
    DueFrom (s.setTask t req stage) g id u :=
  ⟨tasks_setTask.mpr (.inr ⟨hne, h.1⟩), h.2⟩

theorem Settled.setTask {id : UInt32} (h : Settled s g id) (htasks : s₁.tasks = s.tasks)
    (hfile : s₁.files id = s.files id)
    (hstore : ∀ text, s.tasks t ≠ some ⟨.refreshList id, .store text⟩)
    (hdelete : ∀ old, s.tasks t = some ⟨.deleteList id, old⟩ → old.edited = false) :
    Settled (s₁.setTask t req stage) g id := by
  rcases h with heq | ⟨u, htask, hstarted⟩ | ⟨hnone, u, old, htask, hedited⟩
  · left
    change (s₁.files id).getD [] = _
    rw [hfile]
    exact heq
  · refine .inr (.inl ⟨u, tasks_setTask.mpr (.inr ⟨?_, htasks ▸ htask⟩), hstarted⟩)
    rintro rfl
    exact hstore _ htask
  · refine .inr (.inr ⟨hfile.trans hnone, u, old,
      tasks_setTask.mpr (.inr ⟨?_, htasks ▸ htask⟩), hedited⟩)
    rintro rfl
    rw [hdelete old htask] at hedited
    cases hedited

theorem Kept.setTask (h : Kept s g) (htasks : s₁.tasks = s.tasks) (hconfig : s₁.config = s.config)
    (hhome : ∀ id, req = .refreshList id → stage.fetching = true → g.Home t id)
    (hsupplied : ∀ text cfg, stage = .edit text cfg → g.supplied t = text)
    (htexts : ∀ id ∈ s.config.listIds, Settled (s₁.setTask t req stage) g id)
    (hadded : ∀ u body stage', (s₁.setTask t req stage).tasks u = some ⟨.addList body, stage'⟩ →
      stage'.edited = true → s.config.nextListId ∉ s.config.listIds ∧
        readListText s₁.files s.config.nextListId = g.supplied u) :
    Kept (s₁.setTask t req stage) g where
  owner_lt := h.owner_lt
  owner_inj := h.owner_inj
  home u id stage' htask hfetching := by
    rcases tasks_setTask.mp htask with ⟨rfl, heq⟩ | ⟨-, htask⟩
    · cases heq
      exact hhome id rfl hfetching
    · rw [htasks] at htask
      exact h.home u id stage' htask hfetching
  supplied u body text cfg htask := by
    rcases tasks_setTask.mp htask with ⟨rfl, heq⟩ | ⟨-, htask⟩
    · cases heq
      exact hsupplied text cfg rfl
    · rw [htasks] at htask
      exact h.supplied u body text cfg htask
  texts id hid := by
    have hid' : id ∈ s₁.config.listIds := hid
    rw [hconfig] at hid'
    exact htexts id hid'
  added u body stage' htask hedited := by
    change s₁.config.nextListId ∉ s₁.config.listIds ∧
      readListText s₁.files s₁.config.nextListId = _
    rw [hconfig]
    exact hadded u body stage' htask hedited

theorem Kept.outside (h : Kept s g)
    (hold : ∀ task, s.tasks t = some task →
      task.stage.edited = false ∧ ∀ text, task.stage ≠ .store text)
    (hstage : stage.edited = false)
    (hhome : ∀ id, req = .refreshList id → stage.fetching = true → g.Home t id)
    (hsupplied : ∀ text cfg, stage = .edit text cfg → g.supplied t = text) :
    Kept (s.setTask t req stage) g := by
  refine h.setTask rfl rfl hhome hsupplied (fun id hid => ?_)
    (fun u body stage' htask hedited => ?_)
  · exact (h.texts id hid).setTask rfl rfl (fun text htask => (hold _ htask).2 text rfl)
      (fun old htask => (hold _ htask).1)
  · rcases tasks_setTask.mp htask with ⟨rfl, heq⟩ | ⟨-, htask⟩
    · cases heq
      rw [hstage] at hedited
      cases hedited
    · exact h.added u body stage' htask hedited

theorem Kept.inside (h : Kept s g) (htask : s.tasks t = some ⟨req, old⟩)
    (hold : old.edited = true) (hfetching : stage.fetching = false)
    (hedit : ∀ text cfg, stage ≠ .edit text cfg)
    (hdelete : ∀ id, req = .deleteList id → stage.edited = true ∨
      s.files id ≠ none ∨ g.latest (g.owner id) = [] ∨ ∃ u, DueFrom s g id u) :
    Kept (s.setTask t req stage) g := by
  have hdue : ∀ id u, DueFrom s g id u → DueFrom (s.setTask t req stage) g id u := by
    intro id u hdue
    refine hdue.setTask ?_
    rintro rfl
    have hstage := htask.symm.trans hdue.1
    cases hstage
    cases hold
  refine h.setTask rfl rfl (fun id _ hstage => ?_) (fun text cfg hstage => ?_) (fun id hid => ?_)
    (fun u body stage' htask' hedited => ?_)
  · rw [hfetching] at hstage
    cases hstage
  · exact absurd hstage (hedit text cfg)
  · rcases h.texts id hid with heq | ⟨u, hu⟩ | ⟨hnone, u, stage', htask', hedited⟩
    · exact .inl heq
    · exact .inr (.inl ⟨u, hdue id u hu⟩)
    · by_cases hut : u = t
      · subst hut
        have hreq := htask.symm.trans htask'
        cases hreq
        rcases hdelete id rfl with hgoes | hfile | hempty | ⟨v, hv⟩
        · exact .inr (.inr ⟨hnone, u, stage, tasks_setTask.mpr (.inl ⟨rfl, rfl⟩), hgoes⟩)
        · exact absurd hnone hfile
        · left
          change (s.files id).getD [] = _
          rw [hnone, hempty]
          rfl
        · exact .inr (.inl ⟨v, hdue id v hv⟩)
      · exact .inr (.inr ⟨hnone, u, stage', tasks_setTask.mpr (.inr ⟨hut, htask'⟩), hedited⟩)
  · rcases tasks_setTask.mp htask' with ⟨rfl, heq⟩ | ⟨-, htask'⟩
    · cases heq
      exact h.added u body old htask hold
    · exact h.added u body stage' htask' hedited

theorem Kept.storing (h : Kept s g) {id : UInt32} {text : Text} {result : FileResult}
    {files : Files} {written : Except ApiError Unit}
    (htask : s.tasks t = some ⟨.refreshList id, .store text⟩)
    (hwrite : writeListText s.files id text result = some (files, written))
    (hnewest : id ∈ s.config.listIds →
      (result = .done ∧ DueFrom s g id t) ∨ ∃ u ≠ t, DueFrom s g id u)
    (hfree : s.Adding → id ≠ s.config.nextListId) (hfetching : stage.fetching = false)
    (hedit : ∀ text cfg, stage ≠ .edit text cfg) :
    Kept ({ s with files := files }.setTask t (.refreshList id) stage) g := by
  refine h.setTask rfl rfl (fun id' _ hstage => ?_) (fun text cfg hstage => ?_)
    (fun id' hid' => ?_) (fun u body stage' htask' hedited => ?_)
  · rw [hfetching] at hstage
    cases hstage
  · exact absurd hstage (hedit text cfg)
  · by_cases heq : id' = id
    · subst heq
      rcases hnewest hid' with ⟨rfl, hdue⟩ | ⟨u, hne, hdue⟩
      · have htext := htask.symm.trans hdue.1
        cases htext
        cases hwrite
        left
        change readListText (Function.update s.files id' _) id' = _
        rw [readListText_update, if_pos rfl]
        rfl
      · exact .inr (.inl ⟨u, tasks_setTask.mpr (.inr ⟨hne, hdue.1⟩), hdue.2⟩)
    · refine (h.texts id' hid').setTask rfl (files_write heq hwrite) (fun text' htask' => ?_)
        (fun old htask' => ?_)
      · have hreq := htask.symm.trans htask'
        cases hreq
        exact heq rfl
      · have hreq := htask.symm.trans htask'
        cases hreq
  · rcases tasks_setTask.mp htask' with ⟨rfl, heq⟩ | ⟨-, htask'⟩
    · cases heq
    · obtain ⟨hnew, htext⟩ := h.added u body stage' htask' hedited
      refine ⟨hnew, Eq.trans (readListText_write ?_ hwrite) htext⟩
      exact (hfree ⟨u, body, stage', htask', hedited⟩).symm

theorem Kept.editing (h : Kept s g) {text : Text} {result : FileResult} {files : Files}
    {written : Except ApiError Unit} (htask : s.tasks t = some ⟨req, .edit text s.config⟩)
    (hothers : ∀ u task, u ≠ t → s.tasks u = some task → task.stage.edited = false)
    (hwrite : req.editFiles s.files text s.config result = some (files, written))
    (hfree : ∀ body, req = .addList body → s.config.nextListId ∉ s.config.listIds)
    (hdelete : ∀ id ∈ s.config.listIds, req = .deleteList id → stage.edited = true)
    (hwritten : stage.edited = true → written = .ok ()) (hfetching : stage.fetching = false)
    (hedit : ∀ text cfg, stage ≠ .edit text cfg) :
    Kept ({ s with files := files }.setTask t req stage) g := by
  refine h.setTask rfl rfl (fun id' _ hstage => ?_) (fun text cfg hstage => ?_)
    (fun id hid => ?_) (fun u body stage' htask' hedited => ?_)
  · rw [hfetching] at hstage
    cases hstage
  · exact absurd hstage (hedit text cfg)
  · have hkeep (hfile : files id = s.files id) :
        Settled ({ s with files := files }.setTask t req stage) g id := by
      refine (h.texts id hid).setTask rfl hfile (fun text' htask' => ?_) (fun old htask' => ?_)
      · have hstage := htask.symm.trans htask'
        cases hstage
      · have hstage := htask.symm.trans htask'
        cases hstage
        rfl
    by_cases hreq : req = .deleteList id
    · subst hreq
      rcases files_delete hwrite with hnone | hfile
      · exact .inr (.inr ⟨hnone, t, stage, tasks_setTask.mpr (.inl ⟨rfl, rfl⟩),
          hdelete id hid rfl⟩)
      · exact hkeep hfile
    · refine hkeep (files_edit hwrite (fun body hbody heq => ?_) hreq)
      exact hfree body hbody (heq ▸ hid)
  · rcases tasks_setTask.mp htask' with ⟨rfl, heq⟩ | ⟨hne, htask'⟩
    · cases heq
      rw [hwritten hedited] at hwrite
      refine ⟨hfree body rfl, ?_⟩
      rw [h.supplied u body text s.config htask]
      exact files_add hwrite
    · rw [hothers u _ hne htask'] at hedited
      cases hedited

theorem Kept.returned (h : Kept s g) {cfg : Config} {result : Except ApiError (Option Change)}
    (htask : s.tasks t = some ⟨req, old⟩) (hold : old.edited = true)
    (hothers : ∀ u task, u ≠ t → s.tasks u = some task → task.stage.edited = false)
    (hids : ∀ id ∈ cfg.listIds, id ∈ s.config.listIds ∧ req ≠ .deleteList id) :
    Kept ({ s with config := cfg }.setTask t req (.done result)) g where
  owner_lt := h.owner_lt
  owner_inj := h.owner_inj
  home u id stage' htask' hfetching := by
    rcases tasks_setTask.mp htask' with ⟨rfl, heq⟩ | ⟨-, htask'⟩
    · cases heq
      cases hfetching
    · exact h.home u id stage' htask' hfetching
  supplied u body text cfg htask' := by
    rcases tasks_setTask.mp htask' with ⟨rfl, heq⟩ | ⟨-, htask'⟩
    · cases heq
    · exact h.supplied u body text cfg htask'
  texts id hid := by
    obtain ⟨hid, hreq⟩ := hids id hid
    refine (h.texts id hid).setTask rfl rfl (fun text htask' => ?_) (fun old htask' => ?_)
    · have hstage := htask.symm.trans htask'
      cases hstage
      cases hold
    · have hstage := htask.symm.trans htask'
      cases hstage
      exact absurd rfl hreq
  added u body stage' htask' hedited := by
    rcases tasks_setTask.mp htask' with ⟨rfl, heq⟩ | ⟨hne, htask'⟩
    · cases heq
      cases hedited
    · rw [hothers u _ hne htask'] at hedited
      cases hedited

/-! ## What the ledger takes down -/

theorem Settled.congr {g' : Ledger} {id : UInt32} (h : Settled s g id)
    (howner : g'.owner id = g.owner id)
    (hlatest : g'.latest (g.owner id) = g.latest (g.owner id))
    (hstarted : ∀ u text, s.tasks u = some ⟨.refreshList id, .store text⟩ →
      g'.started u = g.started u) : Settled s g' id := by
  rcases h with heq | ⟨u, htask, hstart⟩ | hremoving
  · left
    rw [howner, hlatest]
    exact heq
  · refine .inr (.inl ⟨u, ?_, ?_⟩)
    · rw [howner, hlatest]
      exact htask
    · rw [howner, hstarted u _ htask]
      exact hstart
  · exact .inr (.inr hremoving)

theorem Kept.onEntry (h : Kept s g) (htask : s.tasks t = some ⟨req, .ready⟩) :
    Kept s (g.onEntry t req) := by
  cases req with
  | refreshList id =>
      have hstarted : ∀ u id' stage, s.tasks u = some ⟨.refreshList id', stage⟩ →
          stage.fetching = true → (g.onEntry t (.refreshList id)).started u = g.started u := by
        intro u id' stage hu hfetching
        refine Function.update_of_ne ?_ _ _
        rintro rfl
        rw [htask] at hu
        cases hu
        cases hfetching
      refine ⟨h.owner_lt, h.owner_inj, fun u id' stage hu hfetching => ?_, fun id' hid' => ?_,
        h.supplied, h.added⟩
      · rw [Ledger.Home, hstarted u id' stage hu hfetching]
        exact h.home u id' stage hu hfetching
      · exact (h.texts id' hid').congr rfl rfl fun u text hu => hstarted u id' _ hu rfl
  | _ => exact h

theorem Kept.onFetch (h : Kept s g) {text : Text}
    (htask : s.tasks t = some ⟨req, req.afterFetch text⟩) : Kept s (g.onFetch t text req) := by
  cases req with
  | refreshList id =>
      refine ⟨h.owner_lt, h.owner_inj, h.home, fun id' hid' => ?_, h.supplied, h.added⟩
      by_cases heq : g.owner id' = g.started t
      · -- the list the text is for: it is to be stored next
        obtain rfl := (h.home t id _ htask rfl).2 id' heq
        refine .inr (.inl ⟨t, ?_, heq.symm⟩)
        change _ = some (Task.mk _ (.store (Function.update g.latest (g.started t) text
          (g.owner id'))))
        rw [heq, Function.update_self]
        exact htask
      · exact (h.texts id' hid').congr rfl (Function.update_of_ne heq _ _) fun _ _ _ => rfl
  | _ => exact h

theorem Kept.onLock (h : Kept s g) {text : Text}
    (htask : s.tasks t = some ⟨req, .queue text⟩) :
    Kept s { g with supplied := Function.update g.supplied t text } := by
  have hother : ∀ u task, s.tasks u = some task → task.stage ≠ .queue text →
      Function.update g.supplied t text u = g.supplied u := by
    intro u task hu hne
    refine Function.update_of_ne ?_ _ _
    rintro rfl
    rw [htask] at hu
    cases hu
    exact hne rfl
  refine ⟨h.owner_lt, h.owner_inj, h.home, fun id hid => ?_, fun u body text' cfg hu => ?_,
    fun u body stage hu hedited => ?_⟩
  · exact (h.texts id hid).congr rfl rfl fun _ _ _ => rfl
  · exact (hother u _ hu (by simp)).trans (h.supplied u body text' cfg hu)
  · obtain ⟨hnew, htext⟩ := h.added u body stage hu hedited
    exact ⟨hnew, htext.trans (hother u _ hu (by rintro rfl; cases hedited)).symm⟩

theorem Kept.appeared (h : Kept s g) {body : NewList} {cfg : Config}
    {result : Except ApiError (Option Change)}
    (htask : s.tasks t = some ⟨.addList body, old⟩) (hold : old.edited = true)
    (hothers : ∀ u task, u ≠ t → s.tasks u = some task → task.stage.edited = false)
    (hids : cfg.listIds = s.config.listIds ++ [s.config.nextListId]) :
    Kept ({ s with config := cfg }.setTask t (.addList body) (.done result))
      (g.onFinish t s.config (.addList body)) := by
  obtain ⟨hnew, htext⟩ := h.added t body old htask hold
  have hbefore : Kept ({ s with config := s.config }.setTask t (.addList body) (.done result)) g :=
    h.returned htask hold hothers fun id hid => ⟨hid, by simp⟩
  have howner : ∀ id, id ≠ s.config.nextListId →
      (g.onFinish t s.config (.addList body)).owner id = g.owner id :=
    fun id hne => Function.update_of_ne hne _ _
  have hself : (g.onFinish t s.config (.addList body)).owner s.config.nextListId = g.count :=
    Function.update_self _ _ _
  constructor
  · intro id
    change _ < g.count + 1
    by_cases hid : id = s.config.nextListId
    · rw [hid, hself]
      exact Nat.lt_succ_self _
    · rw [howner id hid]
      exact Nat.lt_succ_of_lt (h.owner_lt id)
  · intro a b hab
    by_cases ha : a = s.config.nextListId <;> by_cases hb : b = s.config.nextListId
    · rw [ha, hb]
    · rw [ha, hself, howner b hb] at hab
      exact absurd hab (h.owner_lt b).ne'
    · rw [hb, hself, howner a ha] at hab
      exact absurd hab (h.owner_lt a).ne
    · rw [howner a ha, howner b hb] at hab
      exact h.owner_inj hab
  · intro u id stage' htask' hfetching
    obtain ⟨hlt, hhome⟩ := hbefore.home u id stage' htask' hfetching
    refine ⟨Nat.lt_succ_of_lt hlt, fun other hother => hhome other ?_⟩
    have hother' : (g.onFinish t s.config (.addList body)).owner other = g.started u := hother
    by_cases heq : other = s.config.nextListId
    · rw [heq, hself] at hother'
      exact absurd hother' hlt.ne'
    · rw [howner other heq] at hother'
      exact hother'
  · intro id hid
    have hid' : id ∈ cfg.listIds := hid
    rw [hids, List.mem_append, List.mem_singleton] at hid'
    rcases hid' with hid' | rfl
    · have hne : id ≠ s.config.nextListId := fun heq => hnew (heq ▸ hid')
      have hsettled := hbefore.texts id hid'
      exact hsettled.congr (howner id hne) (Function.update_of_ne (h.owner_lt id).ne _ _)
        fun _ _ _ => rfl
    · left
      have hlatest : (g.onFinish t s.config (.addList body)).latest g.count = g.supplied t :=
        Function.update_self _ _ _
      rw [hself, hlatest]
      exact htext
  · exact hbefore.supplied
  · intro u body' stage' htask' hedited
    rcases tasks_setTask.mp htask' with ⟨rfl, heq⟩ | ⟨hne, htask'⟩
    · cases heq
      cases hedited
    · rw [hothers u _ hne htask'] at hedited
      cases hedited

end

/-! ## One step -/

section

variable {ext : External} {config₀ : Config} {as : List Action} {s s' : AppState} {g : Ledger}
  {t : Nat}

private theorem unedited {req : Request} {old : Stage} (htask : s.tasks t = some ⟨req, old⟩)
    (hold : old.edited = false) (hstore : ∀ text, old ≠ .store text) (task : Task)
    (h : s.tasks t = some task) :
    task.stage.edited = false ∧ ∀ text, task.stage ≠ .store text := by
  rw [htask] at h
  cases h
  exact ⟨hold, hstore⟩

theorem Serial.others_unedited (h : Serial ext config₀ as s) {req : Request} {old : Stage}
    (htask : s.tasks t = some ⟨req, old⟩) (hold : old.locked = true) (u : Nat) (task : Task)
    (hne : u ≠ t) (hu : s.tasks u = some task) : task.stage.edited = false := by
  rw [Bool.eq_false_iff]
  intro hedited
  exact hne (h.eq_holder ((h.lock t _ htask).mp hold) hu (locked_of_edited hedited))

theorem Kept.entered (h : Kept s g) {req : Request} (htask : s.tasks t = some ⟨req, .ready⟩) :
    Kept (s.setTask t req (req.entry s.config)) (g.onEntry t req) := by
  refine (h.onEntry htask).outside (unedited htask rfl (by simp)) ?_ (fun id hreq _ => ?_)
    (fun text cfg hstage => ?_)
  · have houtside := (entry_outside s.config req).1
    rw [Bool.eq_false_iff] at houtside ⊢
    exact fun hedited => houtside (locked_of_edited hedited)
  · subst hreq
    have hstarted : (g.onEntry t (.refreshList id)).started t = g.owner id :=
      Function.update_self _ _ _
    rw [Ledger.Home, hstarted]
    exact ⟨h.owner_lt id, fun other hother => h.owner_inj hother⟩
  · have houtside := (entry_outside s.config req).1
    rw [hstage] at houtside
    cases houtside

theorem Kept.fetched (h : Kept s g) {req : Request} {url text : Text}
    (htask : s.tasks t = some ⟨req, .fetch url⟩) :
    Kept (s.setTask t req (req.afterFetch text)) (g.onFetch t text req) := by
  refine Kept.onFetch ?_ (tasks_setTask.mpr (.inl ⟨rfl, rfl⟩))
  refine h.outside (unedited htask rfl (by simp)) ?_ (fun id hreq _ => ?_)
    (fun text' cfg hstage => ?_)
  · cases req <;> rfl
  · subst hreq
    exact h.home t id _ htask rfl
  · have houtside := (afterFetch_outside text req).1
    rw [hstage] at houtside
    cases houtside

theorem Kept.finished (h : Kept s g) (hserial : Serial ext config₀ as s) {req : Request}
    {change : Change} {cfg : Config} {filter : Lists}
    (htask : s.tasks t = some ⟨req, .install change cfg filter []⟩) :
    Kept ({ s with config := cfg }.setTask t req (.done (.ok (some change))))
      (g.onFinish t s.config req) := by
  have hids : cfg.listIds = req.idsAfter s.config :=
    listIds_applyChange (hserial.copies t _ htask)
  have hothers := hserial.others_unedited htask rfl
  cases req with
  | addList body => exact h.appeared htask rfl hothers hids
  | deleteList gone =>
      refine h.returned htask rfl hothers fun id hid => ?_
      rw [hids] at hid
      obtain ⟨hid, hne⟩ := List.mem_filter.mp hid
      refine ⟨hid, ?_⟩
      rintro ⟨⟩
      simp at hne
  | _ =>
      refine h.returned htask rfl hothers fun id hid => ?_
      rw [hids] at hid
      exact ⟨hid, by simp⟩

theorem Kept.gaveUp (h : Kept s g) (hserial : Serial ext config₀ as s) {req : Request}
    {text : Text} {cfg : Config} {result : FileResult} {files : Files}
    {written : Except ApiError Unit} {answer : Except ApiError (Option Change)}
    (htask : s.tasks t = some ⟨req, .edit text cfg⟩)
    (hwrite : req.editFiles s.files text cfg result = some (files, written))
    (hfree : ∀ body, req = .addList body → s.config.nextListId ∉ s.config.listIds)
    (hdelete : ∀ id ∈ cfg.listIds, req ≠ .deleteList id) :
    Kept ({ s with files := files }.finish t req answer) g := by
  obtain rfl : cfg = s.config := hserial.copies t _ htask
  exact (h.editing htask (hserial.others_unedited htask rfl) hwrite hfree
    (fun id hid hreq => absurd hreq (hdelete id hid)) (fun hedited => by cases hedited) rfl
    (by simp)).congr rfl rfl rfl

theorem Kept.step (h : Kept s g) (hserial : Serial ext config₀ as s) {a : Action}
    (hintime : InTime (s, g) a) (hstep : Api.step ext s a = some s') :
    Kept s' (g.record s a) := by
  obtain ⟨t, outcome⟩ := a
  have hmoves := moves_of_step hstep
  rw [Ledger.record]
  cases hmoves with
  | arrive htask =>
      rw [htask]
      exact h.outside (fun task hu => by rw [htask] at hu; cases hu) rfl (by simp [Stage.fetching])
        (by simp)
  | refused htask hcheck =>
      rw [htask]
      exact (h.onEntry htask).outside (unedited htask rfl (by simp)) rfl
        (by simp [Stage.fetching]) (by simp)
  | entered htask hcheck =>
      rw [htask]
      exact h.entered htask
  | unfetched htask =>
      rw [htask]
      exact h.outside (unedited htask rfl (by simp)) rfl (by simp [Stage.fetching]) (by simp)
  | fetched htask =>
      rw [htask]
      exact h.fetched htask
  | stored htask hwrite =>
      rw [htask]
      obtain ⟨hnewest, hfree⟩ := (hintime _ _ htask).1 _ _ _ rfl rfl rfl
      exact h.storing htask hwrite hnewest hfree rfl (by simp)
  | unstored htask hwrite =>
      rw [htask]
      obtain ⟨hnewest, hfree⟩ := (hintime _ _ htask).1 _ _ _ rfl rfl rfl
      exact h.storing htask hwrite hnewest hfree rfl (by simp)
  | @locked req text htask hfree =>
      rw [htask]
      have hkept : Kept { s with holder := some t }
          { g with supplied := Function.update g.supplied t text } :=
        (h.onLock htask).congr rfl rfl rfl
      refine hkept.outside (unedited htask rfl (by simp)) rfl (by simp [Stage.fetching])
        (fun text' cfg hstage => ?_)
      cases hstage
      exact Function.update_self _ _ _
  | unwritten htask hwrite =>
      rw [htask]
      refine h.gaveUp hserial htask hwrite
        (fun body hreq => (hintime _ _ htask).2.1 body _ _ hreq rfl) fun id _ hreq => ?_
      subst hreq
      cases hwrite
  | rejected htask hwrite hedit | unchanged htask hwrite hedit =>
      rw [htask]
      refine h.gaveUp hserial htask hwrite
        (fun body hreq => (hintime _ _ htask).2.1 body _ _ hreq rfl) fun id hid hreq => ?_
      subst hreq
      obtain ⟨cfg', hcfg'⟩ := edit_delete hid _
      rw [hcfg'] at hedit
      cases hedit
  | @edited req text cfg stamp result files cfg' htask hwrite hedit =>
      rw [htask]
      obtain rfl : cfg = s.config := hserial.copies t _ htask
      exact h.editing htask (hserial.others_unedited htask rfl) hwrite
        (fun body hreq => (hintime _ _ htask).2.1 body _ _ hreq rfl) (fun _ _ _ => rfl)
        (fun _ => rfl) rfl (by simp)
  | invalid htask hcfg =>
      rw [htask]
      have hfails := (hintime _ _ htask).2.2
      refine Kept.congr (h.inside htask rfl rfl (by simp) fun id hreq => ?_) rfl rfl rfl
      exact .inr (hfails id hreq (by simp [Stage.failsApply, hcfg]))
  | unbuilt htask | unsaved htask =>
      rw [htask]
      have hfails := (hintime _ _ htask).2.2
      refine Kept.congr (h.inside htask rfl rfl (by simp) fun id hreq => ?_) rfl rfl rfl
      exact .inr (hfails id hreq rfl)
  | valid htask _ | read htask | counted htask _ | compiled htask | built htask =>
      rw [htask]
      exact h.inside htask rfl rfl (by simp) fun _ _ => .inl rfl
  | saved htask | installed htask =>
      rw [htask]
      exact Kept.congr (h.inside htask rfl rfl (by simp) fun _ _ => .inl rfl) rfl rfl rfl
  | finished htask =>
      rw [htask]
      exact (h.finished hserial htask).congr rfl rfl rfl
  | @left req old htask hwaits =>
      rw [htask]
      have hfails := (hintime _ _ htask).2.2
      cases old with
      | ready | fetch url | queue text | edit text cfg =>
          refine Kept.congr (h.outside (unedited htask rfl (by simp)) rfl ?_ ?_) rfl rfl rfl
          · simp [Stage.fetching]
          · simp
      | build change cfg filter =>
          refine Kept.congr (h.inside htask rfl rfl (by simp) fun id hreq => ?_) rfl rfl rfl
          exact .inr (hfails id hreq rfl)
      | install change cfg filter todo =>
          cases todo with
          | nil =>
              refine Kept.congr (h.inside htask rfl rfl (by simp) fun id hreq => ?_) rfl rfl rfl
              exact .inr (hfails id hreq rfl)
          | cons _ _ => cases hwaits
      | _ => cases hwaits

end

/-! ## All runs -/

theorem Kept.ownTexts {s : AppState} {g : Ledger} (h : Kept s g) (hidle : s.Idle) :
    OwnTexts s g := by
  intro id hid
  rcases h.texts id hid with heq | ⟨u, htask, -⟩ | ⟨-, u, stage, htask, hedited⟩
  · exact heq
  · cases hidle u _ htask
  · have hover : stage.over = true := hidle u _ htask
    rw [not_over_of_edited hedited] at hover
    cases hover

theorem step_of_ledgerStep {ext : External} {w w' : AppState × Ledger} {a : Action}
    (h : ledgerStep ext w a = some w') :
    step ext w.1 a = some w'.1 ∧ w'.2 = w.2.record w.1 a := by
  obtain ⟨s, hstep, rfl⟩ := Option.map_eq_some_iff.mp h
  exact ⟨hstep, rfl⟩

theorem run_of_ledgerRun {ext : External} {w w' : AppState × Ledger} {as : List Action}
    (h : runFrom (ledgerStep ext) w as = some w') : runFrom (step ext) w.1 as = some w'.1 :=
  runFrom_map Prod.fst (fun _ _ _ hstep => (step_of_ledgerStep hstep).1) h

/--
Whatever requests come and however their steps interleave: as long as every step is in time,
whenever no request is in progress, every list has its own newest text.
-/
theorem own_texts_of_inTime (ext : External) (cfg : Config) (files : Files) {as : List Action}
    {s : AppState} {g : Ledger}
    (hintime : EachStep (ledgerStep ext) InTime (startedFrom cfg files, .start files) as)
    (hrun : runFrom (ledgerStep ext) (startedFrom cfg files, .start files) as = some (s, g))
    (hidle : s.Idle) : OwnTexts s g := by
  have hquiet := (startedFrom_quiet cfg files).1
  have hkept : Kept s g := by
    refine @runFrom_induction _ _ (ledgerStep ext) InTime (fun _ w => Kept w.1 w.2)
      (startedFrom cfg files, .start files) (s, g) _ (Kept.start cfg files)
      (fun as w a w' hrun hintime hstep hkept => ?_) hintime hrun
    obtain ⟨hstep, hrecord⟩ := step_of_ledgerStep hstep
    rw [hrecord]
    exact hkept.step (Serial.run hquiet (run_of_ledgerRun hrun)) hintime hstep
  exact hkept.ownTexts hidle

/-! ## A refresh that comes too late -/

def AppState.answered (s : AppState) (t : Nat) : Bool :=
  match s.tasks t with
  | none => true
  | some task => task.stage.over

theorem idle_of_answered {ext : External} {s₀ s : AppState} {as : List Action}
    (hquiet : s₀.Quiet) (hrun : runFrom (step ext) s₀ as = some s)
    (h : ∀ t ∈ as.map (·.task), s.answered t = true) : s.Idle := by
  intro t task htask
  have hanswered := h t (List.mem_map.mpr ⟨_, arrived_of_run hquiet hrun t task htask, rfl⟩)
  rwa [AppState.answered, htask] at hanswered

def fetchedList : Config :=
  (configWith []).withLists [⟨1, ['l'], some "http://lists".toList, true, 0, none⟩]

def oldFiles : Files := Function.update (fun _ => none) 1 (some "!old".toList)

/-- A handler from the lock on, with as many steps until the pool is built. -/
def appliedIn (t n : Nat) : List Action :=
  [⟨t, .lock⟩, ⟨t, .edited stamp .done⟩] ++ List.replicate n ⟨t, .proceed⟩ ++
    [⟨t, .finished true⟩, ⟨t, .finished true⟩] ++ List.replicate 7 ⟨t, .proceed⟩

def ownText : NewList := ⟨"own".toList, none, true, some "!own".toList⟩

/-- The first refresh is dropped while its list is fetched. -/
def refreshThenAdd : List Action :=
  [⟨2, .arrive (.refreshList 1)⟩, ⟨2, .proceed⟩, ⟨2, .drop⟩, ⟨0, .arrive (.refreshList 1)⟩,
    ⟨0, .proceed⟩, ⟨0, .fetched (.ok "!new".toList)⟩, ⟨0, .wrote .done⟩] ++ appliedIn 0 5 ++
  [⟨1, .arrive (.addList ownText)⟩, ⟨1, .proceed⟩] ++ appliedIn 1 7

/-- The list is deleted and another one is added before the text for it is there. -/
def lateRefresh : List Action :=
  [⟨0, .arrive (.refreshList 1)⟩, ⟨0, .proceed⟩, ⟨1, .arrive (.deleteList 1)⟩, ⟨1, .proceed⟩] ++
    appliedIn 1 3 ++ [⟨2, .arrive (.addList ownText)⟩, ⟨2, .proceed⟩] ++ appliedIn 2 5 ++
  [⟨0, .fetched (.ok "!new".toList)⟩, ⟨0, .wrote .done⟩] ++ appliedIn 0 5

/-- A check of one step that is enough. -/
def checkInTime (w : AppState × Ledger) (a : Action) : Bool :=
  match w.1.tasks a.task, a.outcome with
  | some ⟨.refreshList id, .store text⟩, .wrote .done =>
      w.2.started a.task = w.2.owner id && w.2.latest (w.2.owner id) = text &&
        id ≠ w.1.config.nextListId
  | some ⟨.refreshList _, .store _⟩, _ => false
  | some ⟨.addList _, .edit _ _⟩, _ => w.1.config.nextListId ∉ w.1.config.listIds
  | some ⟨.deleteList _, stage⟩, outcome => !stage.failsApply outcome
  | _, _ => true

theorem inTime_of_check (w : AppState × Ledger) (a : Action) (h : checkInTime w a = true) :
    InTime w a := by
  obtain ⟨t, outcome⟩ := a
  intro req stage htask
  rw [checkInTime, htask] at h
  refine ⟨fun id text result hreq hstage houtcome => ?_, fun body text cfg hreq hstage => ?_,
    fun id hreq hfails => ?_⟩
  · subst hreq hstage
    obtain rfl : outcome = .wrote result := houtcome
    cases result with
    | done =>
        simp only [Bool.and_eq_true, decide_eq_true_eq] at h
        obtain ⟨⟨hstarted, rfl⟩, hne⟩ := h
        exact ⟨fun _ => .inl ⟨rfl, htask, hstarted⟩, fun _ => hne⟩
    | failed kept message => cases h
  · subst hreq hstage
    simpa using h
  · subst hreq
    simp only [Bool.not_eq_true'] at h
    rw [h] at hfails
    cases hfails

theorem own_texts_of_inTime_refreshThenAdd :
    ∃ s g, runFrom (ledgerStep referenceExternal)
        (startedFrom fetchedList oldFiles, .start oldFiles) refreshThenAdd = some (s, g) ∧
      s.config.listIds = [1, 2] ∧ readListText s.files 1 = "!new".toList ∧ OwnTexts s g := by
  have hfacts : (runFrom (ledgerStep referenceExternal)
      (startedFrom fetchedList oldFiles, .start oldFiles) refreshThenAdd).map
      (fun w => (refreshThenAdd.all fun a => w.1.answered a.task, w.1.config.listIds,
        readListText w.1.files 1)) = some (true, [1, 2], "!new".toList) := by
    decide +kernel
  obtain ⟨⟨s, g⟩, hrun, hs⟩ := Option.map_eq_some_iff.mp hfacts
  simp only [Prod.mk.injEq] at hs
  refine ⟨s, g, hrun, hs.2.1, hs.2.2, ?_⟩
  have hcheck : checkEach (ledgerStep referenceExternal) checkInTime
      (startedFrom fetchedList oldFiles, .start oldFiles) refreshThenAdd = true := by
    decide +kernel
  refine own_texts_of_inTime referenceExternal fetchedList oldFiles
    (eachStep_of_check inTime_of_check hcheck) hrun ?_
  exact idle_of_answered (startedFrom_quiet fetchedList oldFiles).1 (run_of_ledgerRun hrun)
    (by simpa using hs.1)

theorem late_refresh_replaces_text :
    ¬ ∀ (as : List Action) (s : AppState) (g : Ledger),
      runFrom (ledgerStep referenceExternal)
        (startedFrom fetchedList oldFiles, .start oldFiles) as = some (s, g) →
      s.Idle → OwnTexts s g := by
  intro hall
  have hfacts : (runFrom (ledgerStep referenceExternal)
      (startedFrom fetchedList oldFiles, .start oldFiles) lateRefresh).map
      (fun w => (lateRefresh.all fun a => w.1.answered a.task, w.1.config.listIds,
        readListText w.1.files 1, w.2.latest (w.2.owner 1))) =
      some (true, [1], "!new".toList, "!own".toList) := by
    decide +kernel
  obtain ⟨⟨s, g⟩, hrun, hs⟩ := Option.map_eq_some_iff.mp hfacts
  simp only [Prod.mk.injEq] at hs
  obtain ⟨hanswered, hids, hstored, hlatest⟩ := hs
  have hidle : s.Idle := idle_of_answered (startedFrom_quiet fetchedList oldFiles).1
    (run_of_ledgerRun hrun) (by simpa using hanswered)
  have htext := hall lateRefresh s g hrun hidle 1 (by rw [hids]; decide)
  rw [hstored, hlatest] at htext
  revert htext
  decide

end Bulwark.Api
