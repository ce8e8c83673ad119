import Bulwark.Api.Server

/-!
# Requests that fail

A request that fails leaves the configuration, its file and the running engine as they were,
because all three are changed last.  List files are changed earlier: a list that is to be
deleted loses its text before the change is applied, and a refreshed list has its new text
before.  So a failed request changes nothing exactly when it has no text of a configured
list to lose.
-/

namespace Bulwark.Api

open Bulwark.Foundation Bulwark.Filter

/-- Steps of one handler, with no others in between. -/
def Alone (ext : External) (t : Nat) (s s' : AppState) : Prop :=
  ∃ as : List Action, (∀ a ∈ as, a.task = t) ∧ runFrom (step ext) s as = some s'

/-- Configuration, file, engine and the texts of configured lists are as before. -/
structure Unchanged (s s' : AppState) : Prop where
  config : s'.config = s.config
  saved : s'.saved = s.saved
  live : s'.live = s.live
  texts : ∀ id ∈ s.config.listIds, readListText s'.files id = readListText s.files id

/-- However the request goes, if it ends in an error it has changed nothing. -/
def FailsClean (ext : External) (s : AppState) (t : Nat) (req : Request) : Prop :=
  ∀ s' e, Alone ext t (s.setTask t req .ready) s' →
    s'.tasks t = some ⟨req, .done (.error e)⟩ → Unchanged s s'

/-- The request does not touch a text of a configured list, or there is none. -/
def Harmless (s : AppState) : Request → Prop
  | .deleteList id => id ∈ s.config.listIds → readListText s.files id = []
  | .refreshList id => ∀ l, s.config.filtering.lists.find? (·.id = id) = some l → l.url = none
  | .addList body => s.config.nextListId ∈ s.config.listIds →
      body.url = none ∧ body.content.getD [] = [] ∧
        readListText s.files s.config.nextListId = []
  | _ => True

section

variable {ext : External} {s s' : AppState} {t : Nat} {req : Request}

/-! ## Harmless requests -/

theorem readListText_write_nil {files files' : Files} {id : UInt32} {result : FileResult}
    {written : Except ApiError Unit} (hnil : readListText files id = [])
    (h : writeListText files id [] result = some (files', written)) (id' : UInt32) :
    readListText files' id' = readListText files id' := by
  by_cases hid : id' = id
  · subst hid
    rw [writeListText.eq_def] at h
    split at h
    · cases h
      rw [readListText_update, if_pos rfl, hnil]
      rfl
    · cases h
      rfl
    · split at h
      · rename_i hlt
        cases hlt
      · cases h
  · exact readListText_write hid h

def Track (s : AppState) (req : Request) : Stage → Prop
  | .fetch _ => ∃ body url, req = .addList body ∧ body.url = some url
  | .store _ => False
  | .queue text => ∀ body, req = .addList body → body.url = none → text = body.content.getD []
  | .edit text cfg => cfg = s.config ∧
      ∀ body, req = .addList body → body.url = none → text = body.content.getD []
  | _ => True

/-- The changes are under way, or done, or the handler is gone; no error comes after this. -/
def Stage.applied : Stage → Bool
  | .install _ _ _ _ | .done (.ok _) | .dropped => true
  | _ => false

def Steady (s : AppState) (t : Nat) (req : Request) (s' : AppState) : Prop :=
  ∃ stage, s'.tasks t = some ⟨req, stage⟩ ∧
    (stage.applied = true ∨ Unchanged s s' ∧ Track s req stage)

theorem track_entry (hharmless : Harmless s req) : Track s req (req.entry s.config) := by
  cases req with
  | addList body =>
      rw [Request.entry]
      cases hurl : body.url with
      | some url => exact ⟨body, url, rfl, hurl⟩
      | none =>
          rintro _ ⟨⟩ -
          rfl
  | refreshList id =>
      rw [Request.entry]
      split
      · trivial
      · rename_i l hfind
        rw [hharmless l hfind]
        trivial
  | _ => exact fun body heq => by cases heq

theorem editFiles_texts {files : Files} {text : Text} {result : FileResult}
    {written : Except ApiError Unit} (hharmless : Harmless s req)
    (htext : ∀ body, req = .addList body → body.url = none → text = body.content.getD [])
    (hsame : ∀ id ∈ s.config.listIds, readListText s'.files id = readListText s.files id)
    (h : req.editFiles s'.files text s.config result = some (files, written)) :
    ∀ id ∈ s.config.listIds, readListText files id = readListText s.files id := by
  intro id hid
  rw [← hsame id hid]
  cases req with
  | addList body =>
      rw [Request.editFiles] at h
      by_cases hnext : s.config.nextListId ∈ s.config.listIds
      · obtain ⟨hurl, hnil, hstored⟩ := hharmless hnext
        rw [htext body rfl hurl, hnil] at h
        rw [← hsame _ hnext] at hstored
        exact readListText_write_nil hstored h id
      · have hne : id ≠ s.config.nextListId := by
          rintro rfl
          exact hnext hid
        exact readListText_write hne h
  | deleteList gone =>
      simp only [Request.editFiles, Option.some.injEq, Prod.mk.injEq] at h
      obtain ⟨rfl, -⟩ := h
      split
      · rename_i hgone
        cases result with
        | done =>
            rw [removeListFile, readListText_update]
            split
            · rename_i heq
              subst heq
              rw [hsame id hid, hharmless hid]
              rfl
            · rfl
        | failed kept message => rfl
      · rfl
  | _ =>
      cases h
      rfl

private theorem steady_setTask {s₁ : AppState} {stage : Stage} (hunchanged : Unchanged s s₁)
    (htrack : Track s req stage) : Steady s t req (s₁.setTask t req stage) :=
  ⟨stage, tasks_setTask.mpr (.inl ⟨rfl, rfl⟩), .inr ⟨⟨hunchanged.config, hunchanged.saved,
    hunchanged.live, hunchanged.texts⟩, htrack⟩⟩

private theorem steady_finish {s₁ : AppState} {result : Except ApiError (Option Change)}
    (hunchanged : Unchanged s s₁) : Steady s t req (s₁.finish t req result) :=
  ⟨.done result, tasks_setTask.mpr (.inl ⟨rfl, rfl⟩), .inr ⟨⟨hunchanged.config,
    hunchanged.saved, hunchanged.live, hunchanged.texts⟩, trivial⟩⟩

private theorem steady_applied {s₁ : AppState} {stage : Stage} (happlied : stage.applied = true) :
    Steady s t req (s₁.setTask t req stage) :=
  ⟨stage, tasks_setTask.mpr (.inl ⟨rfl, rfl⟩), .inl happlied⟩

theorem Steady.step {s₁ s₂ : AppState} {outcome : Outcome} (hharmless : Harmless s req)
    (h : Steady s t req s₁) (hstep : Api.step ext s₁ ⟨t, outcome⟩ = some s₂) :
    Steady s t req s₂ := by
  obtain ⟨stage, htask, h⟩ := h
  -- what is known of the state before, when the step starts at a given stage
  have hbefore : ∀ {req' stage'}, s₁.tasks t = some ⟨req', stage'⟩ → stage'.applied = false →
      req' = req ∧ Unchanged s s₁ ∧ Track s req stage' := by
    intro req' stage' htask' happlied
    rw [htask] at htask'
    cases htask'
    rcases h with h | h
    · rw [happlied] at h
      cases h
    · exact ⟨rfl, h⟩
  cases moves_of_step hstep with
  | arrive htask' =>
      rw [htask] at htask'
      cases htask'
  | refused htask' _ =>
      obtain ⟨rfl, hunchanged, -⟩ := hbefore htask' rfl
      exact steady_setTask hunchanged trivial
  | entered htask' _ =>
      obtain ⟨rfl, hunchanged, -⟩ := hbefore htask' rfl
      refine steady_setTask hunchanged ?_
      rw [hunchanged.config]
      exact track_entry hharmless
  | unfetched htask' =>
      obtain ⟨rfl, hunchanged, -⟩ := hbefore htask' rfl
      exact steady_setTask hunchanged trivial
  | fetched htask' =>
      obtain ⟨rfl, hunchanged, body, url, rfl, hurl⟩ := hbefore htask' rfl
      refine steady_setTask hunchanged ?_
      rintro _ ⟨⟩ hnone
      rw [hurl] at hnone
      cases hnone
  | stored htask' _ =>
      obtain ⟨rfl, -, hfalse⟩ := hbefore htask' rfl
      exact hfalse.elim
  | unstored htask' _ =>
      obtain ⟨rfl, -, hfalse⟩ := hbefore htask' rfl
      exact hfalse.elim
  | locked htask' _ =>
      obtain ⟨rfl, hunchanged, htext⟩ := hbefore htask' rfl
      refine steady_setTask ?_ ⟨hunchanged.config, htext⟩
      exact ⟨hunchanged.config, hunchanged.saved, hunchanged.live, hunchanged.texts⟩
  | unwritten htask' hwrite =>
      obtain ⟨rfl, hunchanged, rfl, htext⟩ := hbefore htask' rfl
      exact steady_finish ⟨hunchanged.config, hunchanged.saved, hunchanged.live,
        editFiles_texts hharmless htext hunchanged.texts hwrite⟩
  | rejected htask' hwrite _ =>
      obtain ⟨rfl, hunchanged, rfl, htext⟩ := hbefore htask' rfl
      exact steady_finish ⟨hunchanged.config, hunchanged.saved, hunchanged.live,
        editFiles_texts hharmless htext hunchanged.texts hwrite⟩
  | unchanged htask' hwrite _ =>
      obtain ⟨rfl, hunchanged, rfl, htext⟩ := hbefore htask' rfl
      exact steady_finish ⟨hunchanged.config, hunchanged.saved, hunchanged.live,
        editFiles_texts hharmless htext hunchanged.texts hwrite⟩
  | edited htask' hwrite _ =>
      obtain ⟨rfl, hunchanged, rfl, htext⟩ := hbefore htask' rfl
      exact steady_setTask ⟨hunchanged.config, hunchanged.saved, hunchanged.live,
        editFiles_texts hharmless htext hunchanged.texts hwrite⟩ trivial
  | invalid htask' _ | unbuilt htask' | unsaved htask' =>
      obtain ⟨rfl, hunchanged, -⟩ := hbefore htask' rfl
      exact steady_finish hunchanged
  | valid htask' _ | read htask' | counted htask' _ | compiled htask' | built htask' =>
      obtain ⟨rfl, hunchanged, -⟩ := hbefore htask' rfl
      exact steady_setTask hunchanged trivial
  | saved htask' =>
      obtain ⟨rfl, -⟩ := hbefore htask' rfl
      exact steady_applied rfl
  | installed htask' =>
      rw [htask] at htask'
      cases htask'
      exact steady_applied rfl
  | finished htask' =>
      rw [htask] at htask'
      cases htask'
      exact ⟨_, tasks_setTask.mpr (.inl ⟨rfl, rfl⟩), .inl rfl⟩
  | left htask' _ =>
      rw [htask] at htask'
      cases htask'
      exact ⟨_, tasks_setTask.mpr (.inl ⟨rfl, rfl⟩), .inl rfl⟩

theorem steady_of_alone (hharmless : Harmless s req)
    (h : Alone ext t (s.setTask t req .ready) s') : Steady s t req s' := by
  obtain ⟨as, htask, hrun⟩ := h
  have hstart : Steady s t req (s.setTask t req .ready) :=
    steady_setTask ⟨rfl, rfl, rfl, fun _ _ => rfl⟩ trivial
  refine runFrom_invariant (C := fun _ a => a.task = t) (fun s₁ a s₂ ha hstep h => ?_) hstart
    (eachStep_of_actions htask _) hrun
  obtain ⟨u, outcome⟩ := a
  obtain rfl : u = t := ha
  exact h.step hharmless hstep

/-! ## Requests that lose a text -/

theorem Alone.refl (ext : External) (t : Nat) (s : AppState) : Alone ext t s s :=
  ⟨[], by simp, rfl⟩

theorem Alone.head {s₁ : AppState} {outcome : Outcome}
    (hstep : step ext s ⟨t, outcome⟩ = some s₁) (h : Alone ext t s₁ s') : Alone ext t s s' := by
  obtain ⟨as, htask, hrun⟩ := h
  refine ⟨⟨t, outcome⟩ :: as, fun a ha => ?_, ?_⟩
  · rcases List.mem_cons.mp ha with rfl | ha
    · rfl
    · exact htask a ha
  · rw [runFrom, hstep]
    exact hrun

theorem Alone.trans {s₁ : AppState} (h : Alone ext t s s₁) (h' : Alone ext t s₁ s') :
    Alone ext t s s' := by
  obtain ⟨as, htask, hrun⟩ := h
  obtain ⟨as', htask', hrun'⟩ := h'
  refine ⟨as ++ as', fun a ha => ?_, ?_⟩
  · rcases List.mem_append.mp ha with ha | ha
    · exact htask a ha
    · exact htask' a ha
  · rw [runFrom_append, hrun]
    exact hrun'

theorem step_of_task {stage : Stage} (htask : s.tasks t = some ⟨req, stage⟩)
    (outcome : Outcome) : step ext s ⟨t, outcome⟩ = s.advance ext t req stage outcome := by
  rw [step, htask]

theorem tasks_self (s : AppState) (t : Nat) (req : Request) (stage : Stage) :
    (s.setTask t req stage).tasks t = some ⟨req, stage⟩ :=
  Function.update_self _ _ _

/-- From here the handler can end in an error without touching a file again. -/
def CanFail (ext : External) (t : Nat) (req : Request) (s : AppState) : Prop :=
  ∃ s' e, Alone ext t s s' ∧ s'.tasks t = some ⟨req, .done (.error e)⟩ ∧ s'.files = s.files

theorem CanFail.head {s₁ : AppState} {outcome : Outcome}
    (hstep : step ext s ⟨t, outcome⟩ = some s₁) (hfiles : s₁.files = s.files)
    (h : CanFail ext t req s₁) : CanFail ext t req s := by
  obtain ⟨s', e, halone, hdone, hsame⟩ := h
  exact ⟨s', e, halone.head hstep, hdone, hsame.trans hfiles⟩

theorem canFail_finish {outcome : Outcome} {e : ApiError}
    (hstep : step ext s ⟨t, outcome⟩ = some (s.finish t req (.error e))) :
    CanFail ext t req s :=
  ⟨_, e, (Alone.refl ext t _).head hstep, tasks_self s t req _, rfl⟩

theorem canFail_build {change : Change} {cfg : Config} {filter : Lists}
    (htask : s.tasks t = some ⟨req, .build change cfg filter⟩) : CanFail ext t req s := by
  have hstep : step ext s ⟨t, .finished false⟩ = some (s.finish t req (.error badPool)) :=
    step_of_task htask _
  exact canFail_finish hstep

theorem alone_read {stamp : Stamp} {counted : Option Lists} {cfg : Config}
    {todo : List FilterListConfig} {read : Lists}
    (htask : s.tasks t = some ⟨req, .read stamp counted cfg todo read⟩) :
    ∃ s₁ read', Alone ext t s s₁ ∧ s₁.tasks t = some ⟨req, .read stamp counted cfg [] read'⟩ ∧
      s₁.files = s.files := by
  induction todo generalizing s read with
  | nil => exact ⟨s, read, .refl ext t s, htask, rfl⟩
  | cons l todo ih =>
      have hstep : step ext s ⟨t, .proceed⟩ = some (s.setTask t req (.read stamp counted cfg todo
          (read ++ [(l.id.toNat, l.name, readListText s.files l.id)]))) :=
        step_of_task htask _
      obtain ⟨s₁, read', halone, hread, hfiles⟩ := ih (tasks_self s t req _)
      exact ⟨s₁, read', halone.head hstep, hread, hfiles⟩

theorem canFail_read {stamp : Stamp} {counted : Option Lists} {cfg : Config}
    {todo : List FilterListConfig} {read : Lists}
    (htask : s.tasks t = some ⟨req, .read stamp counted cfg todo read⟩)
    (hnext : ∀ s₁ read, s₁.tasks t = some ⟨req, .read stamp counted cfg [] read⟩ →
      CanFail ext t req s₁) : CanFail ext t req s := by
  obtain ⟨s₁, read', halone, hread, hfiles⟩ := alone_read htask
  obtain ⟨s', e, hend, hdone, hsame⟩ := hnext s₁ read' hread
  exact ⟨s', e, halone.trans hend, hdone, hsame.trans hfiles⟩

theorem canFail_apply {stamp : Stamp} {cfg : Config}
    (htask : s.tasks t = some ⟨req, .apply stamp cfg⟩) : CanFail ext t req s := by
  have hstep : step ext s ⟨t, .proceed⟩ = some (s.applyStep t req stamp cfg) :=
    step_of_task htask _
  rw [AppState.applyStep] at hstep
  split at hstep
  · exact canFail_finish hstep
  · refine CanFail.head hstep rfl (canFail_read (tasks_self s t req _) fun s₁ read hread => ?_)
    have hcounted : step ext s₁ ⟨t, .proceed⟩ = some (s₁.readStep ext t req stamp none _ [] read) :=
      step_of_task hread _
    refine CanFail.head hcounted rfl (canFail_read (tasks_self s₁ t req _) fun s₂ read hread => ?_)
    have hcompiled : step ext s₂ ⟨t, .proceed⟩ =
        some (s₂.readStep ext t req stamp (some _) _ [] read) := step_of_task hread _
    exact CanFail.head hcompiled rfl (canFail_build (tasks_self s₂ t req _))

theorem editStep_edited {text : Text} {cfg cfg' : Config} {stamp : Stamp} {result : FileResult}
    {files : Files} (hstamp : req.stampFits cfg stamp = true)
    (hwrite : req.editFiles s.files text cfg result = some (files, .ok ()))
    (hedit : req.edit stamp cfg = .ok (some cfg')) :
    s.editStep t req text cfg stamp result =
      some ({ s with files := files }.setTask t req (.apply stamp cfg')) := by
  rw [AppState.editStep, if_pos hstamp, hwrite]
  simp only [hedit]

theorem editStep_unwritten {text : Text} {cfg : Config} {stamp : Stamp} {result : FileResult}
    {files : Files} {e : ApiError} (hstamp : req.stampFits cfg stamp = true)
    (hwrite : req.editFiles s.files text cfg result = some (files, .error e)) :
    s.editStep t req text cfg stamp result =
      some ({ s with files := files }.finish t req (.error e)) := by
  rw [AppState.editStep, if_pos hstamp, hwrite]

theorem step_lock {text : Text} (hfree : s.holder = none)
    (htask : s.tasks t = some ⟨req, .queue text⟩) :
    step ext s ⟨t, .lock⟩ =
      some ({ s with holder := some t }.setTask t req (.edit text s.config)) := by
  rw [step_of_task htask, AppState.advance, if_pos hfree]

theorem queue_can_fail {text : Text} {stamp : Stamp} {files : Files} {cfg : Config}
    (hfree : s.holder = none) (htask : s.tasks t = some ⟨req, .queue text⟩)
    (hstamp : req.stampFits s.config stamp = true)
    (hwrite : req.editFiles s.files text s.config .done = some (files, .ok ()))
    (hedit : req.edit stamp s.config = .ok (some cfg)) :
    ∃ s' e, Alone ext t s s' ∧ s'.tasks t = some ⟨req, .done (.error e)⟩ ∧ s'.files = files := by
  set s₁ := ({ s with holder := some t } : AppState).setTask t req (.edit text s.config)
  have hedited : step ext s₁ ⟨t, .edited stamp .done⟩ =
      some ({ s₁ with files := files }.setTask t req (.apply stamp cfg)) := by
    rw [step_of_task (tasks_self _ t req _), AppState.advance]
    exact editStep_edited hstamp hwrite hedit
  obtain ⟨s', e, halone, hdone, hsame⟩ := @canFail_apply ext _ t req stamp cfg
    (tasks_self { s₁ with files := files } t req _)
  exact ⟨s', e, (halone.head hedited).head (step_lock hfree htask), hdone, hsame⟩

theorem edit_refresh (id : UInt32) (cfg : Config) (stamp : Stamp) :
    ∃ cfg', (Request.refreshList id).edit stamp cfg = .ok (some cfg') := by
  rw [Request.edit]
  split <;> exact ⟨_, rfl⟩

theorem not_unchanged {id : UInt32} (hid : id ∈ s.config.listIds)
    (hne : readListText s'.files id ≠ readListText s.files id) : ¬ Unchanged s s' :=
  fun h => hne (h.texts id hid)

theorem delete_loses {id : UInt32} (hfree : s.holder = none) (hid : id ∈ s.config.listIds)
    (hne : readListText s.files id ≠ []) : ¬ FailsClean ext s t (.deleteList id) := by
  intro hclean
  obtain ⟨cfg, hedit⟩ := edit_delete hid stamp
  set s₁ := s.setTask t (.deleteList id) .ready
  have henter : step ext s₁ ⟨t, .proceed⟩ = some (s₁.setTask t (.deleteList id) (.queue [])) :=
    step_of_task (tasks_self s t _ _) _
  have hwrite : (Request.deleteList id).editFiles s.files [] s.config .done =
      some (Function.update s.files id none, .ok ()) := by
    rw [Request.editFiles, if_pos hid]
    rfl
  obtain ⟨s', e, halone, hdone, hfiles⟩ := @queue_can_fail ext
    (s₁.setTask t (.deleteList id) (.queue [])) t (.deleteList id) [] stamp _ cfg hfree
    (tasks_self s₁ t _ _) rfl hwrite hedit
  refine not_unchanged hid ?_ (hclean s' e (halone.head henter) hdone)
  rw [hfiles, readListText_update, if_pos rfl]
  exact hne.symm

theorem refresh_loses {id : UInt32} {l : FilterListConfig} (hfree : s.holder = none)
    (hfind : s.config.filtering.lists.find? (·.id = id) = some l) (hurl : l.url ≠ none) :
    ¬ FailsClean ext s t (.refreshList id) := by
  intro hclean
  obtain ⟨url, hurl⟩ := Option.ne_none_iff_exists'.mp hurl
  obtain ⟨cfg, hedit⟩ := edit_refresh id s.config stamp
  have hid : id ∈ s.config.listIds := by
    have hl := List.find?_some hfind
    rw [decide_eq_true_eq] at hl
    exact hl ▸ List.mem_map_of_mem (List.mem_of_find?_eq_some hfind)
  let text : Text := 'x' :: readListText s.files id
  set s₁ := s.setTask t (.refreshList id) .ready
  set s₂ := s₁.setTask t (.refreshList id) (.fetch url)
  set s₃ := s₂.setTask t (.refreshList id) (.store text)
  let s₄ : AppState := { s₃ with files := Function.update s.files id (some text) }
  have henter : step ext s₁ ⟨t, .proceed⟩ = some s₂ := by
    rw [step_of_task (tasks_self s t _ _), AppState.advance]
    change some (s₁.setTask t _ (Request.entry s.config (.refreshList id))) = _
    rw [Request.entry, hfind]
    simp only [hurl]
    rfl
  have hfetch : step ext s₂ ⟨t, .fetched (.ok text)⟩ = some s₃ :=
    step_of_task (tasks_self s₁ t _ _) _
  have hstore : step ext s₃ ⟨t, .wrote .done⟩ =
      some (s₄.setTask t (.refreshList id) (.queue [])) :=
    step_of_task (tasks_self s₂ t _ _) _
  obtain ⟨s', e, halone, hdone, hfiles⟩ := @queue_can_fail ext
    (s₄.setTask t (.refreshList id) (.queue [])) t (.refreshList id) [] stamp _ cfg hfree
    (tasks_self s₄ t _ _) rfl rfl hedit
  refine not_unchanged hid ?_
    (hclean s' e (((halone.head hstore).head hfetch).head henter) hdone)
  rw [hfiles]
  change readListText (Function.update s.files id (some text)) id ≠ _
  rw [readListText_update, if_pos rfl]
  exact List.cons_ne_self _ _

/-- A new list waits for the lock with the text it was given, or with any text fetched. -/
theorem add_queued (ext : External) (s : AppState) (t : Nat) (body : NewList) {text : Text}
    (htext : body.url = none → text = body.content.getD []) :
    ∃ s₁, Alone ext t (s.setTask t (.addList body) .ready) s₁ ∧
      s₁.tasks t = some ⟨.addList body, .queue text⟩ ∧ s₁.files = s.files ∧
      s₁.config = s.config ∧ s₁.holder = s.holder := by
  set s₁ := s.setTask t (.addList body) .ready
  have henter : step ext s₁ ⟨t, .proceed⟩ =
      some (s₁.setTask t (.addList body) (Request.entry s.config (.addList body))) :=
    step_of_task (tasks_self s t _ _) _
  rw [Request.entry] at henter
  cases hurl : body.url with
  | none =>
      rw [hurl] at henter
      rw [htext hurl]
      exact ⟨_, (Alone.refl ext t _).head henter, tasks_self s₁ t _ _, rfl, rfl, rfl⟩
  | some url =>
      rw [hurl] at henter
      have hfetch : step ext (s₁.setTask t (.addList body) (.fetch url))
          ⟨t, .fetched (.ok text)⟩ =
          some ((s₁.setTask t (.addList body) (.fetch url)).setTask t (.addList body)
            (.queue text)) :=
        step_of_task (tasks_self s₁ t _ _) _
      exact ⟨_, ((Alone.refl ext t _).head hfetch).head henter, tasks_self _ t _ _, rfl, rfl, rfl⟩

theorem add_replaces {body : NewList} {text : Text} (hfree : s.holder = none)
    (hnext : s.config.nextListId ∈ s.config.listIds)
    (htext : body.url = none → text = body.content.getD [])
    (hne : text ≠ readListText s.files s.config.nextListId) :
    ¬ FailsClean ext s t (.addList body) := by
  intro hclean
  obtain ⟨s₁, hqueued, htask, hfiles₁, hconfig, hholder⟩ := add_queued ext s t body htext
  have hwrite : (Request.addList body).editFiles s₁.files text s₁.config .done =
      some (Function.update s.files s.config.nextListId (some text), .ok ()) := by
    rw [hfiles₁, hconfig]
    rfl
  obtain ⟨s', e, halone, hdone, hfiles⟩ := @queue_can_fail ext s₁ t _ text stamp _ _
    (hholder.trans hfree) htask rfl hwrite rfl
  refine not_unchanged hnext ?_ (hclean s' e (hqueued.trans halone) hdone)
  rw [hfiles, readListText_update, if_pos rfl]
  exact hne

theorem add_truncates {body : NewList} (hfree : s.holder = none)
    (hnext : s.config.nextListId ∈ s.config.listIds) (hcontent : body.content.getD [] ≠ [])
    (hne : readListText s.files s.config.nextListId ≠ []) :
    ¬ FailsClean ext s t (.addList body) := by
  intro hclean
  obtain ⟨s₁, hqueued, htask, hfiles₁, hconfig, hholder⟩ :=
    @add_queued ext s t body (body.content.getD []) fun _ => rfl
  set text := body.content.getD []
  set s₂ := ({ s₁ with holder := some t } : AppState).setTask t (.addList body)
    (.edit text s₁.config)
  have hlock : step ext s₁ ⟨t, .lock⟩ = some s₂ := step_lock (hholder.trans hfree) htask
  have hwrite : (Request.addList body).editFiles s₁.files text s₁.config (.failed (some 0) []) =
      some (Function.update s.files s.config.nextListId (some []), .error (.internal [])) := by
    rw [Request.editFiles, writeListText, if_pos (List.length_pos_iff.mpr hcontent), hfiles₁,
      hconfig]
    rfl
  have hedit : step ext s₂ ⟨t, .edited stamp (.failed (some 0) [])⟩ =
      some ({ s₂ with files := Function.update s.files s.config.nextListId (some []) }.finish t
        (.addList body) (.error (.internal []))) := by
    rw [step_of_task (tasks_self _ t _ _), AppState.advance]
    exact editStep_unwritten rfl hwrite
  refine not_unchanged hnext ?_ (hclean _ _
    (hqueued.trans (((Alone.refl ext t _).head hedit).head hlock)) (tasks_self _ t _ _))
  change readListText (Function.update s.files s.config.nextListId (some [])) _ ≠ _
  rw [readListText_update, if_pos rfl]
  exact hne.symm

/--
With the lock free when it comes, a request leaves everything as it was in every way it can
fail exactly when it is not one of three: a delete of a configured list with a text, a
refresh of a configured list with a URL, and a new list whose id is already taken, unless
there is neither an old text nor a new one.
-/
theorem failsClean_iff (ext : External) {s : AppState} (hfree : s.holder = none) (t : Nat)
    (req : Request) : FailsClean ext s t req ↔ Harmless s req := by
  constructor
  · intro hclean
    cases req with
    | deleteList id =>
        intro hid
        by_contra hne
        exact delete_loses hfree hid hne hclean
    | refreshList id =>
        intro l hfind
        by_contra hurl
        exact refresh_loses hfree hfind hurl hclean
    | addList body =>
        intro hnext
        cases hurl : body.url with
        | some url =>
            refine absurd hclean
              (add_replaces hfree hnext (fun hnone => ?_) (List.cons_ne_self 'x' _))
            rw [hurl] at hnone
            cases hnone
        | none =>
            by_cases hsame : body.content.getD [] = readListText s.files s.config.nextListId
            · by_cases hnil : body.content.getD [] = []
              · exact ⟨rfl, hnil, hsame ▸ hnil⟩
              · exact absurd hclean (add_truncates hfree hnext hnil (hsame ▸ hnil))
            · exact absurd hclean (add_replaces hfree hnext (fun _ => rfl) hsame)
    | _ => trivial
  · intro hharmless s' e halone hdone
    obtain ⟨stage, htask, h⟩ := steady_of_alone hharmless halone
    rw [hdone] at htask
    cases htask
    rcases h with h | ⟨hunchanged, -⟩
    · cases h
    · exact hunchanged

end

/-! ## A list that loses its text -/

def oneFile : Files := Function.update (fun _ => none) 1 (some "||ads.com^".toList)

theorem failsClean_iff_oneFile :
    FailsClean referenceExternal (startedFrom (configWith [1]) oneFile) 0 (.deleteList 2) ∧
      ¬ FailsClean referenceExternal (startedFrom (configWith [1]) oneFile) 0 (.deleteList 1) := by
  constructor
  · refine (failsClean_iff referenceExternal rfl 0 _).mpr fun hid => ?_
    revert hid
    decide
  · rw [failsClean_iff referenceExternal rfl]
    intro hharmless
    have hlost := hharmless (by decide)
    revert hlost
    decide

/-- The list is to be deleted, and the configuration cannot be saved. -/
def unsavedDelete : List Action :=
  [⟨0, .proceed⟩, ⟨0, .lock⟩, ⟨0, .edited stamp .done⟩, ⟨0, .proceed⟩, ⟨0, .proceed⟩,
    ⟨0, .proceed⟩, ⟨0, .finished true⟩, ⟨0, .finished false⟩]

theorem delete_fails_and_loses_text :
    ¬ FailsClean referenceExternal (startedFrom (configWith [1]) oneFile) 0 (.deleteList 1) := by
  intro hclean
  obtain ⟨s', hrun, hdone, hlost⟩ : ∃ s', runFrom (step referenceExternal)
      ((startedFrom (configWith [1]) oneFile).setTask 0 (.deleteList 1) .ready)
      unsavedDelete = some s' ∧
      s'.tasks 0 = some ⟨.deleteList 1, .done (.error badSave)⟩ ∧
      readListText s'.files 1 = [] :=
    ⟨_, rfl, rfl, rfl⟩
  have hunchanged := hclean s' badSave ⟨unsavedDelete, by decide, hrun⟩ hdone
  have htext := hunchanged.texts 1 (by decide)
  rw [hlost] at htext
  revert htext
  decide

end Bulwark.Api
