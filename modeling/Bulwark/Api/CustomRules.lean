import Bulwark.Api.Failure
import Bulwark.Api.Upstreams

/-!
# Adding a custom rule

`POST /api/filters/rule` appends a rule unless a line of the custom rules is that rule.  A
rule that contains a line feed is never found as one line, so it is appended again; and a
last line that ends in a bare carriage return loses it when a line feed is put after it.
-/

namespace Bulwark.Api

open Bulwark.Foundation Bulwark.Filter

/-! ## The text -/

def HasRule (rules rule : Text) : Prop := rule ∈ (lines rules).map trim

instance (rules rule : Text) : Decidable (HasRule rules rule) :=
  inferInstanceAs (Decidable (rule ∈ (lines rules).map trim))

theorem any_line_iff {rules rule : Text} :
    (lines rules).any (fun l => trim l = rule) = true ↔ HasRule rules rule := by
  simp [HasRule]

theorem not_hasRule_of_feed {rules rule : Text} (h : '\n' ∈ rule) : ¬ HasRule rules rule := by
  intro hmem
  obtain ⟨l, hl, rfl⟩ := List.mem_map.mp hmem
  exact feed_notMem_lines hl (trim_subset l h)

/-- The rule is the last line; the last line before it may have lost a carriage return. -/
theorem lines_appendRule {rules rule : Text} (h : IsLine rule) :
    (rules.getLast? ≠ some '\r' ∧ lines (appendRule rules rule) = lines rules ++ [rule]) ∨
      ∃ front last, rules.getLast? = some '\r' ∧ last.getLast? = some '\r' ∧
        lines rules = front ++ [last] ∧
          lines (appendRule rules rule) = front ++ [last.dropLast, rule] := by
  have hrule : lines (rule ++ ['\n']) = [rule] := by
    have hone : lines (unlines [rule]) = [rule] := lines_unlines (by simpa using h)
    simpa using hone
  have hended : ∀ front : Text, lines ((front ++ ['\n']) ++ (rule ++ ['\n'])) =
      lines (front ++ ['\n']) ++ [rule] := by
    intro front
    rw [List.append_assoc, List.singleton_append, lines_append_feed, hrule]
  rw [appendRule]
  rcases List.eq_nil_or_concat' rules with rfl | ⟨front, c, rfl⟩
  · exact .inl ⟨by simp, by simpa [lines, linesFrom] using hrule⟩
  · by_cases hc : c = '\n'
    · have hfeed : endsWith ['\n'] (front ++ [c]) = true := by
        rw [endsWith_singleton, hc]
        simp
      refine .inl ⟨by simp [hc], ?_⟩
      rw [if_neg (by simp [hfeed]), List.append_assoc, hc]
      exact hended front
    · have hfeed : endsWith ['\n'] (front ++ [c]) = false := by
        rw [Bool.eq_false_iff, Ne, endsWith_singleton]
        simpa using hc
      obtain ⟨before, last, hlines, hfed, hlast⟩ :=
        lines_unended (t := front ++ [c]) (by simp) (by simpa using hc)
      rw [if_pos (by simp [hfeed]), List.append_assoc, hended, hfed, hlines]
      rw [List.getLast?_append_of_ne_nil _ (by simp), List.getLast?_singleton] at hlast ⊢
      by_cases hreturn : c = '\r'
      · rw [hreturn] at hlast ⊢
        exact .inr ⟨before, last, rfl, hlast, rfl, by rw [dropReturn, if_pos hlast]; simp⟩
      · refine .inl ⟨by simpa using hreturn, ?_⟩
        rw [dropReturn_of_ne (by simpa [hlast] using hreturn)]

theorem hasRule_appendRule {rules rule : Text} (h : IsLine (trim rule)) :
    HasRule (appendRule rules (trim rule)) (trim rule) := by
  have hmem : trim rule ∈ lines (appendRule rules (trim rule)) := by
    rcases @lines_appendRule rules _ h with ⟨-, hlines⟩ | ⟨_, _, -, -, -, hlines⟩ <;>
      simp [hlines]
  exact List.mem_map.mpr ⟨trim rule, hmem, trim_trim rule⟩

theorem lines_kept_iff {rules rule : Text} (h : IsLine rule) :
    (lines rules).Sublist (lines (appendRule rules rule)) ↔ rules.getLast? ≠ some '\r' := by
  rcases @lines_appendRule rules rule h with
    ⟨hreturn, hlines⟩ | ⟨front, last, hreturn, hlast, hold, hnew⟩
  · rw [hlines]
    exact iff_of_true (List.sublist_append_left _ _) hreturn
  · refine iff_of_false (fun hsub => ?_) (not_not.mpr hreturn)
    rw [hold, hnew, List.append_sublist_append_left, List.singleton_sublist, List.mem_cons,
      List.mem_singleton] at hsub
    rcases hsub with hdrop | hrule
    · have hlen := congrArg List.length hdrop
      have hne : last ≠ [] := by
        rintro rfl
        simp at hlast
      have hpos := List.length_pos_iff.mpr hne
      rw [List.length_dropLast] at hlen
      omega
    · rw [hrule] at hlast
      exact h.2 hlast

/-! ## The handler -/

structure AddRuleResponse where
  ok : Bool
  rule : Text
  added : Bool
  deriving DecidableEq, Repr

def addRuleResponse (rule : Text) (change : Option Change) : AddRuleResponse :=
  ⟨true, trim rule, change.isSome⟩

/-- The request comes to handler `t`, and is over with the result. -/
def Posted (ext : External) (s : AppState) (t : Nat) (rule : Text) (s' : AppState)
    (result : Except ApiError (Option Change)) : Prop :=
  Alone ext t (s.setTask t (.addCustomRule rule) .ready) s' ∧
    s'.tasks t = some ⟨.addCustomRule rule, .done result⟩

def AppState.customRules (s : AppState) : Text := s.config.filtering.customRules

/-- What is true while the request is handled. -/
def Adding (s : AppState) (rule : Text) (s' : AppState) : Stage → Prop
  | .ready | .queue _ => s'.config = s.config
  | .edit _ cfg => s'.config = s.config ∧ cfg = s.config
  | .apply _ cfg | .read _ _ cfg _ _ | .build _ cfg _ | .save _ cfg _ | .install _ cfg _ _ =>
      ¬ HasRule s.customRules (trim rule) ∧ s'.config = s.config ∧
        cfg.filtering.customRules = appendRule s.customRules (trim rule)
  | .done (.ok (some _)) => ¬ HasRule s.customRules (trim rule) ∧
      s'.customRules = appendRule s.customRules (trim rule)
  | .done (.ok none) => HasRule s.customRules (trim rule) ∧ s'.customRules = s.customRules
  | .done (.error _) => trim rule = [] ∨ ¬ HasRule s.customRules (trim rule)
  | .fetch _ | .store _ => False
  | .dropped => s'.config = s.config

def AddingAt (s : AppState) (t : Nat) (rule : Text) (s' : AppState) : Prop :=
  ∃ stage, s'.tasks t = some ⟨.addCustomRule rule, stage⟩ ∧ Adding s rule s' stage

section

variable {ext : External} {s s₁ s₂ : AppState} {t : Nat} {rule : Text}

theorem edit_addCustomRule (cfg : Config) (stamp : Stamp) (rule : Text) :
    (Request.addCustomRule rule).edit stamp cfg =
      if HasRule cfg.filtering.customRules (trim rule) then .ok none
      else .ok (some { cfg with filtering := { cfg.filtering with
        customRules := appendRule cfg.filtering.customRules (trim rule) } }) := by
  rw [Request.edit]
  simp only [any_line_iff]

theorem addingAt_setTask {s' : AppState} {stage : Stage} (h : Adding s rule s' stage) :
    AddingAt s t rule (s'.setTask t (.addCustomRule rule) stage) := by
  refine ⟨stage, tasks_self s' t _ _, ?_⟩
  cases stage with
  | done result => rcases result with e | _ | change <;> exact h
  | _ => exact h

theorem AddingAt.step {outcome : Outcome} (h : AddingAt s t rule s₁)
    (hstep : Api.step ext s₁ ⟨t, outcome⟩ = some s₂) : AddingAt s t rule s₂ := by
  obtain ⟨stage, htask, h⟩ := h
  have hbefore : ∀ {req stage'}, s₁.tasks t = some ⟨req, stage'⟩ →
      req = .addCustomRule rule ∧ Adding s rule s₁ stage' := by
    intro req stage' htask'
    rw [htask] at htask'
    cases htask'
    exact ⟨rfl, h⟩
  cases moves_of_step hstep with
  | arrive htask' =>
      rw [htask] at htask'
      cases htask'
  | refused htask' hcheck =>
      obtain ⟨rfl, hconfig⟩ := hbefore htask'
      rw [Request.check] at hcheck
      split at hcheck
      · rename_i hblank
        exact addingAt_setTask (.inl hblank)
      · cases hcheck
  | entered htask' _ =>
      obtain ⟨rfl, hconfig⟩ := hbefore htask'
      exact addingAt_setTask hconfig
  | unfetched htask' | fetched htask' =>
      obtain ⟨rfl, hfalse⟩ := hbefore htask'
      exact hfalse.elim
  | stored htask' _ | unstored htask' _ =>
      obtain ⟨-, hfalse⟩ := hbefore htask'
      exact hfalse.elim
  | locked htask' _ =>
      obtain ⟨rfl, hconfig⟩ := hbefore htask'
      exact addingAt_setTask ⟨hconfig, hconfig⟩
  | unwritten htask' hwrite =>
      obtain ⟨rfl, -⟩ := hbefore htask'
      cases hwrite
  | rejected htask' _ hedit =>
      obtain ⟨rfl, -⟩ := hbefore htask'
      rw [edit_addCustomRule] at hedit
      split at hedit <;> cases hedit
  | unchanged htask' _ hedit =>
      obtain ⟨rfl, hconfig, rfl⟩ := hbefore htask'
      rw [edit_addCustomRule] at hedit
      split at hedit
      · rename_i hhas
        exact ⟨_, tasks_self _ t _ _, hhas, congrArg (·.filtering.customRules) hconfig⟩
      · cases hedit
  | edited htask' _ hedit =>
      obtain ⟨rfl, hconfig, rfl⟩ := hbefore htask'
      rw [edit_addCustomRule] at hedit
      split at hedit
      · cases hedit
      · rename_i hhas
        cases hedit
        exact addingAt_setTask ⟨hhas, hconfig, rfl⟩
  | invalid htask' _ | unbuilt htask' | unsaved htask' =>
      obtain ⟨rfl, hhas, -⟩ := hbefore htask'
      exact ⟨_, tasks_self _ t _ _, .inr hhas⟩
  | valid htask' hcfg | counted htask' hcfg =>
      obtain ⟨rfl, hadding⟩ := hbefore htask'
      rw [hcfg]
      exact addingAt_setTask hadding
  | read htask' | compiled htask' | built htask' | saved htask' | installed htask' =>
      obtain ⟨rfl, hadding⟩ := hbefore htask'
      exact addingAt_setTask hadding
  | finished htask' =>
      obtain ⟨rfl, hhas, -, hrules⟩ := hbefore htask'
      exact ⟨_, tasks_self _ t _ _, hhas, hrules⟩
  | @left _ stage htask' hwaits =>
      obtain ⟨rfl, hadding⟩ := hbefore htask'
      refine ⟨.dropped, tasks_self _ t _ _, ?_⟩
      change s₁.config = s.config
      cases stage with
      | ready | queue _ => exact hadding
      | edit _ _ => exact hadding.1
      | build _ _ _ | install _ _ _ _ => exact hadding.2.1
      | fetch _ => exact hadding.elim
      | _ => cases hwaits

theorem adding_of_posted {result : Except ApiError (Option Change)}
    (h : Posted ext s t rule s₁ result) : Adding s rule s₁ (.done result) := by
  obtain ⟨⟨as, hown, hrun⟩, hdone⟩ := h
  have hstart : AddingAt s t rule (s.setTask t (.addCustomRule rule) .ready) :=
    addingAt_setTask rfl
  have hend : AddingAt s t rule s₁ := by
    refine runFrom_invariant (C := fun _ a => a.task = t) (fun s₁ a s₂ ha hstep h => ?_) hstart
      (eachStep_of_actions hown _) hrun
    obtain ⟨u, outcome⟩ := a
    obtain rfl : u = t := ha
    exact h.step hstep
  obtain ⟨stage, htask, hadding⟩ := hend
  rw [hdone] at htask
  cases htask
  exact hadding

/-! ## Requests that succeed -/

/-- From here the handler can put the configuration into effect. -/
def CanAdd (ext : External) (t : Nat) (rule rules : Text) (s : AppState) : Prop :=
  ∃ s' change, Alone ext t s s' ∧
    s'.tasks t = some ⟨.addCustomRule rule, .done (.ok (some change))⟩ ∧
      s'.customRules = rules ∧ s'.holder = none ∧ s'.config.validate = .ok ()

theorem CanAdd.head {rules : Text} {outcome : Outcome}
    (hstep : step ext s ⟨t, outcome⟩ = some s₁) (h : CanAdd ext t rule rules s₁) :
    CanAdd ext t rule rules s := by
  obtain ⟨s', change, halone, hdone⟩ := h
  exact ⟨s', change, halone.head hstep, hdone⟩

theorem canAdd_install {change : Change} {cfg : Config} {filter : Lists} {todo : List Install}
    (htask : s.tasks t = some ⟨.addCustomRule rule, .install change cfg filter todo⟩)
    (hvalid : cfg.validate = .ok ()) : CanAdd ext t rule cfg.filtering.customRules s := by
  induction todo generalizing s with
  | nil =>
      have hstep : step ext s ⟨t, .proceed⟩ =
          some ({ s with config := cfg }.finish t (.addCustomRule rule) (.ok (some change))) :=
        step_of_task htask _
      exact ⟨_, change, (Alone.refl ext t _).head hstep, tasks_self _ t _ _, rfl, rfl, hvalid⟩
  | cons i todo ih =>
      have hstep : step ext s ⟨t, .proceed⟩ = some ({ s with live := i.apply cfg filter s.live
          }.setTask t (.addCustomRule rule) (.install change cfg filter todo)) :=
        step_of_task htask _
      exact CanAdd.head hstep (ih (tasks_self _ t _ _))

theorem canAdd_read {stamp : Stamp} {counted : Option Lists} {cfg : Config} {rules : Text}
    {todo : List FilterListConfig} {read : Lists}
    (htask : s.tasks t = some ⟨.addCustomRule rule, .read stamp counted cfg todo read⟩)
    (hnext : ∀ s₁ read, s₁.tasks t = some ⟨.addCustomRule rule, .read stamp counted cfg [] read⟩ →
      CanAdd ext t rule rules s₁) : CanAdd ext t rule rules s := by
  obtain ⟨s₁, read', halone, hread, -⟩ := alone_read htask
  obtain ⟨s', change, hend, hdone⟩ := hnext s₁ read' hread
  exact ⟨s', change, halone.trans hend, hdone⟩

theorem canAdd_build {change : Change} {cfg : Config} {filter : Lists}
    (htask : s.tasks t = some ⟨.addCustomRule rule, .build change cfg filter⟩)
    (hvalid : cfg.validate = .ok ()) : CanAdd ext t rule cfg.filtering.customRules s := by
  have hbuilt : step ext s ⟨t, .finished true⟩ =
      some (s.setTask t (.addCustomRule rule) (.save change cfg filter)) := step_of_task htask _
  set s₁ := s.setTask t (.addCustomRule rule) (.save change cfg filter)
  have hsaved : step ext s₁ ⟨t, .finished true⟩ = some ({ s₁ with saved := cfg }.setTask t
      (.addCustomRule rule) (.install change cfg filter installs)) :=
    step_of_task (tasks_self s t _ _) _
  exact CanAdd.head hbuilt (CanAdd.head hsaved (canAdd_install (tasks_self _ t _ _) hvalid))

theorem validate_normalize (cfg : Config) :
    ({ cfg with upstreams := cfg.upstreams.normalize } : Config).validate = cfg.validate := by
  simp only [Config.validate, UpstreamsConfig.activeSpecs_normalize]

theorem canAdd_apply {stamp : Stamp} {cfg : Config}
    (htask : s.tasks t = some ⟨.addCustomRule rule, .apply stamp cfg⟩)
    (hvalid : cfg.validate = .ok ()) : CanAdd ext t rule cfg.filtering.customRules s := by
  rw [← validate_normalize] at hvalid
  have happly : step ext s ⟨t, .proceed⟩ = some (s.applyStep t (.addCustomRule rule) stamp cfg) :=
    step_of_task htask _
  rw [AppState.applyStep, hvalid] at happly
  refine CanAdd.head happly (canAdd_read (tasks_self s t _ _) fun s₁ counted hread => ?_)
  have hcounted : step ext s₁ ⟨t, .proceed⟩ =
      some (s₁.readStep ext t (.addCustomRule rule) stamp none _ [] counted) := step_of_task hread _
  refine CanAdd.head hcounted (canAdd_read (tasks_self s₁ t _ _) fun s₂ read hread => ?_)
  have hcompiled : step ext s₂ ⟨t, .proceed⟩ =
      some (s₂.readStep ext t (.addCustomRule rule) stamp (some _) _ [] read) :=
    step_of_task hread _
  have hend := @canAdd_build ext _ t rule ⟨stamp, counted⟩ (cfg.countedFrom ext counted) read
    (tasks_self s₂ t _ _) hvalid
  exact CanAdd.head hcompiled hend

/-- With the lock free and a valid configuration a new rule can be added. -/
theorem posted_added (ext : External) (t : Nat) (hfree : s.holder = none)
    (hvalid : s.config.validate = .ok ()) (hne : trim rule ≠ [])
    (hnew : ¬ HasRule s.customRules (trim rule)) :
    ∃ s' change, Posted ext s t rule s' (.ok (some change)) ∧
      s'.customRules = appendRule s.customRules (trim rule) ∧ s'.holder = none ∧
        s'.config.validate = .ok () := by
  set req := Request.addCustomRule rule
  set s₁ := s.setTask t req .ready
  have hcheck : req.check = .ok () := if_neg hne
  have henter : step ext s₁ ⟨t, .proceed⟩ = some (s₁.setTask t req (.queue [])) := by
    rw [step_of_task (tasks_self s t _ _), AppState.advance, hcheck]
    rfl
  set s₂ := s₁.setTask t req (.queue [])
  have hlock : step ext s₂ ⟨t, .lock⟩ =
      some ({ s₂ with holder := some t }.setTask t req (.edit [] s.config)) :=
    step_lock hfree (tasks_self s₁ t _ _)
  set s₃ := ({ s₂ with holder := some t } : AppState).setTask t req (.edit [] s.config)
  let cfg : Config := { s.config with filtering := { s.config.filtering with
    customRules := appendRule s.customRules (trim rule) } }
  have hedited : step ext s₃ ⟨t, .edited stamp .done⟩ =
      some (s₃.setTask t req (.apply stamp cfg)) := by
    rw [step_of_task (tasks_self _ t req _), AppState.advance]
    refine editStep_edited rfl rfl ?_
    rw [edit_addCustomRule]
    exact if_neg hnew
  obtain ⟨s', change, halone, hdone, hrules, hend⟩ :=
    @canAdd_apply ext _ t rule stamp cfg (tasks_self s₃ t req _) hvalid
  exact ⟨s', change, ⟨((halone.head hedited).head hlock).head henter, hdone⟩, hrules, hend⟩

end

/-! ## Once and twice -/

/-- The second of two requests changes nothing and says so, and no line is lost. -/
structure AddsOnce (ext : External) (rules rule : Text) : Prop where
  kept : ∀ s s₁ t change, s.customRules = rules → Posted ext s t rule s₁ (.ok change) →
    (lines rules).Sublist (lines s₁.customRules)
  once : ∀ s s₁ s₂ t u change result, s.customRules = rules →
    Posted ext s t rule s₁ (.ok change) → Posted ext s₁ u rule s₂ result →
      (∃ change, result = .ok change ∧ (addRuleResponse rule change).added = false) ∧
        s₂.customRules = s₁.customRules

/-- The rule is one line, and it is there already or nothing hangs on the last line's end. -/
def CleanAdd (rules rule : Text) : Prop :=
  '\n' ∉ trim rule ∧ (HasRule rules (trim rule) ∨ rules.getLast? ≠ some '\r')

theorem addsOnce_of_cleanAdd (ext : External) {rules rule : Text} (hne : trim rule ≠ [])
    (h : CleanAdd rules rule) : AddsOnce ext rules rule := by
  obtain ⟨hfeed, hclean⟩ := h
  have hline := isLine_trim hfeed
  constructor
  · rintro s s₁ t change rfl hposted
    have hadding := adding_of_posted hposted
    cases change with
    | none =>
        rw [hadding.2]
    | some change =>
        obtain ⟨hnew, hrules⟩ := hadding
        rw [hrules, lines_kept_iff hline]
        exact hclean.resolve_left hnew
  · rintro s s₁ s₂ t u change result rfl hfirst hsecond
    have hhas : HasRule s₁.customRules (trim rule) := by
      have hadding := adding_of_posted hfirst
      cases change with
      | none =>
          rw [hadding.2]
          exact hadding.1
      | some change =>
          rw [hadding.2]
          exact hasRule_appendRule hline
    have hadding := adding_of_posted hsecond
    cases result with
    | error e => exact absurd hhas (hadding.resolve_left hne)
    | ok change =>
        cases change with
        | none => exact ⟨⟨none, rfl, rfl⟩, hadding.2⟩
        | some change => exact absurd hhas hadding.1

def serverWith (rules : Text) : AppState :=
  startedFrom { configWith [] with filtering :=
    { (configWith []).filtering with customRules := rules } } fun _ => none

theorem valid_serverWith (rules : Text) : (serverWith rules).config.validate = .ok () := by
  have hvalid : (configWith []).validate = .ok () := by decide +kernel
  exact hvalid

theorem not_addsOnce_of_feed (ext : External) {rules rule : Text} (hfeed : '\n' ∈ trim rule) :
    ¬ AddsOnce ext rules rule := by
  intro h
  have hne : trim rule ≠ [] := List.ne_nil_of_mem hfeed
  obtain ⟨s₁, change, hfirst, -, hfree, hvalid₁⟩ :=
    posted_added ext 0 rfl (valid_serverWith rules) hne (not_hasRule_of_feed hfeed)
  obtain ⟨s₂, change', hsecond, -⟩ :=
    posted_added ext 1 hfree hvalid₁ hne (not_hasRule_of_feed hfeed)
  obtain ⟨⟨change'', hok, hadded⟩, -⟩ := h.once _ s₁ s₂ 0 1 _ _ rfl hfirst hsecond
  cases hok
  cases hadded

theorem not_addsOnce_of_return (ext : External) {rules rule : Text} (hne : trim rule ≠ [])
    (hline : IsLine (trim rule)) (hnew : ¬ HasRule rules (trim rule))
    (hreturn : rules.getLast? = some '\r') : ¬ AddsOnce ext rules rule := by
  intro h
  obtain ⟨s₁, change, hfirst, hrules, -⟩ := posted_added ext 0 rfl (valid_serverWith rules) hne hnew
  have hkept := h.kept _ s₁ 0 _ rfl hfirst
  rw [hrules] at hkept
  exact (lines_kept_iff hline).mp hkept hreturn

/-- Adding a rule twice is adding it once, and loses no line, just for clean additions. -/
theorem addsOnce_iff (ext : External) (rules rule : Text) (hne : trim rule ≠ []) :
    AddsOnce ext rules rule ↔ CleanAdd rules rule := by
  constructor
  · intro h
    by_cases hfeed : '\n' ∈ trim rule
    · exact absurd h (not_addsOnce_of_feed ext hfeed)
    · refine ⟨hfeed, ?_⟩
      by_contra hclean
      rw [not_or, not_not] at hclean
      exact not_addsOnce_of_return ext hne (isLine_trim hfeed) hclean.1 hclean.2 h
  · exact addsOnce_of_cleanAdd ext hne

theorem addsOnce_iff_ads : AddsOnce referenceExternal [] "||ads.com^".toList ↔
    CleanAdd [] "||ads.com^".toList :=
  addsOnce_iff referenceExternal [] "||ads.com^".toList (by decide)

/-- Two rules sent as one are appended every time. -/
theorem twoLines_not_addsOnce : ¬ AddsOnce referenceExternal [] "||a.com^\n||b.com^".toList :=
  not_addsOnce_of_feed referenceExternal (by decide)

end Bulwark.Api
