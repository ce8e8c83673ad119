import Mathlib.Logic.Function.Basic
import Bulwark.Foundation.Runs
import Bulwark.Api.Requests

/-!
# First-run setup

`POST /api/setup` asks whether the admin account is still missing, hashes the
password, and only then enters the serialized configuration update.  The answer
to the question can be out of date by then: the update starts from the current
configuration without asking again.  Where it is still the right answer, the
account is created at most once.
-/

namespace Bulwark.Server

open Bulwark.Foundation
open Bulwark.Api (ApiError AuthConfig Config configWith)

/-! ## The handler -/

structure Credentials where
  username : Text
  password : Text
  deriving DecidableEq, Repr

/-- How far a setup request has come; `updating` to `saved` hold the update lock. -/
inductive Stage where
  | received
  | checked
  | hashed (hash : Text)
  | updating (cfg : Config)
  | built (cfg : Config)
  | saved (cfg : Config)
  | succeeded
  | failed (error : ApiError)
  | dropped
  deriving DecidableEq, Repr

structure State where
  /-- The configuration in memory, behind its lock. -/
  config : Config
  /-- The configuration file. -/
  file : Config
  updateLock : Option Nat
  stage : Nat → Stage

/--
The steps of request `r`, with the outcomes the handler does not decide: of the
password hash, of normalizing, validating and building what the configuration
stands for, and of writing the file.  `drop` is a caller that goes away.
-/
inductive Act where
  | check (r : Nat)
  | hashPassword (r : Nat) (hash : Except Text Text)
  | beginUpdate (r : Nat)
  | build (r : Nat) (derived : Except Text Config)
  | save (r : Nat) (result : Except Text Unit)
  | install (r : Nat)
  | drop (r : Nat)

section

variable (creds : Nat → Credentials)

def validCredentials (c : Credentials) : Bool :=
  trim c.username ≠ [] && 6 ≤ utf8Len c.password

def withAdmin (cfg : Config) (username hash : Text) : Config :=
  { cfg with auth := { cfg.auth with username := username, passwordHash := some hash } }

def State.goto (s : State) (r : Nat) (stage : Stage) : State :=
  { s with stage := Function.update s.stage r stage }

/-- The handler returns or is dropped; its guard goes with it. -/
def State.leave (s : State) (r : Nat) (stage : Stage) : State :=
  { s.goto r stage with
    updateLock := if s.updateLock = some r then none else s.updateLock }

def step (s : State) : Act → Option State
  | .check r =>
      match s.stage r with
      | .received =>
          if s.config.auth.needsSetup then some (s.goto r .checked)
          else some (s.goto r (.failed (.badRequest "already set up".toList)))
      | _ => none
  | .hashPassword r outcome =>
      match s.stage r with
      | .checked =>
          if !validCredentials (creds r) then
            some (s.goto r (.failed (.badRequest
              "username required and password must be at least 6 characters".toList)))
          else
            match outcome with
            | .ok hash => some (s.goto r (.hashed hash))
            | .error message => some (s.goto r (.failed (.internal message)))
      | _ => none
  | .beginUpdate r =>
      match s.stage r, s.updateLock with
      | .hashed hash, none =>
          some { s.goto r (.updating (withAdmin s.config (creds r).username hash)) with
            updateLock := some r }
      | _, _ => none
  | .build r outcome =>
      match s.stage r with
      | .updating cfg =>
          match outcome with
          | .ok derived => some (s.goto r (.built { derived with auth := cfg.auth }))
          | .error message => some (s.leave r (.failed (.internal message)))
      | _ => none
  | .save r result =>
      match s.stage r with
      | .built cfg =>
          match result with
          | .ok () => some { s.goto r (.saved cfg) with file := cfg }
          | .error message => some (s.leave r (.failed (.internal message)))
      | _ => none
  | .install r =>
      match s.stage r with
      | .saved cfg => some { s.leave r .succeeded with config := cfg }
      | _ => none
  | .drop r =>
      match s.stage r with
      | .succeeded | .failed _ | .dropped => none
      | _ => some (s.leave r .dropped)

def initial (cfg file : Config) : State where
  config := cfg
  file := file
  updateLock := none
  stage _ := .received

/-! ## What a step can do -/

def Stage.pending : Stage → Option Config
  | .updating cfg | .built cfg | .saved cfg => some cfg
  | _ => none

/-- Neither in the update nor done, and past hashing only with valid credentials. -/
structure Idle (r : Nat) (stage : Stage) : Prop where
  pending : stage.pending = none
  unfinished : stage ≠ .succeeded
  valid : ∀ hash, stage = .hashed hash → validCredentials (creds r) = true

inductive Effect (s : State) : Act → State → Prop
  | move {a : Act} (r : Nat) (stage : Stage) (hidle : Idle creds r stage)
      (hopen : s.stage r ≠ .succeeded) : Effect s a (s.goto r stage)
  | abort {a : Act} (r : Nat) (stage : Stage) (hidle : Idle creds r stage)
      (hopen : s.stage r ≠ .succeeded) : Effect s a (s.leave r stage)
  | enter (r : Nat) (hash : Text) (hstage : s.stage r = .hashed hash)
      (hlock : s.updateLock = none) :
      Effect s (.beginUpdate r)
        { s.goto r (.updating (withAdmin s.config (creds r).username hash)) with
          updateLock := some r }
  | advance {a : Act} (r : Nat) (stage : Stage) (cfg cfg' file : Config)
      (hbefore : (s.stage r).pending = some cfg) (hafter : stage.pending = some cfg')
      (hauth : cfg'.auth = cfg.auth) :
      Effect s a { s.goto r stage with file := file }
  | finish {a : Act} (r : Nat) (cfg : Config) (hstage : s.stage r = .saved cfg) :
      Effect s a { s.leave r .succeeded with config := cfg }

theorem step_effect {s t : State} {a : Act} (h : step creds s a = some t) :
    Effect creds s a t := by
  have hfailed : ∀ r e, Idle creds r (.failed e : Stage) :=
    fun r e => ⟨rfl, by simp, by simp⟩
  cases a with
  | check r =>
      simp only [step] at h
      split at h
      · rename_i hstage
        have hopen : s.stage r ≠ .succeeded := by simp [hstage]
        split at h
        · cases h
          exact .move r .checked ⟨rfl, by simp, by simp⟩ hopen
        · cases h
          exact .move r _ (hfailed r _) hopen
      · cases h
  | hashPassword r outcome =>
      simp only [step] at h
      split at h
      · rename_i hstage
        have hopen : s.stage r ≠ .succeeded := by simp [hstage]
        split at h
        · cases h
          exact .move r _ (hfailed r _) hopen
        · rename_i hvalid
          split at h
          · cases h
            exact .move r _ ⟨rfl, by simp, fun _ _ => by simpa using hvalid⟩ hopen
          · cases h
            exact .move r _ (hfailed r _) hopen
      · cases h
  | beginUpdate r =>
      simp only [step] at h
      split at h
      · rename_i hash hstage hlock
        cases h
        exact .enter r hash hstage hlock
      · cases h
  | build r outcome =>
      simp only [step] at h
      split at h
      · rename_i cfg hstage
        have hopen : s.stage r ≠ .succeeded := by simp [hstage]
        have hbefore : (s.stage r).pending = some cfg := by rw [hstage]; rfl
        split at h
        · cases h
          exact .advance r _ cfg _ s.file hbefore rfl rfl
        · cases h
          exact .abort r _ (hfailed r _) hopen
      · cases h
  | save r result =>
      simp only [step] at h
      split at h
      · rename_i cfg hstage
        have hopen : s.stage r ≠ .succeeded := by simp [hstage]
        have hbefore : (s.stage r).pending = some cfg := by rw [hstage]; rfl
        split at h
        · cases h
          exact .advance r _ cfg cfg cfg hbefore rfl rfl
        · cases h
          exact .abort r _ (hfailed r _) hopen
      · cases h
  | install r =>
      simp only [step] at h
      split at h
      · rename_i cfg hstage
        cases h
        exact .finish r cfg hstage
      · cases h
  | drop r =>
      simp only [step] at h
      split at h
      · cases h
      · cases h
      · cases h
      · rename_i hsucceeded _ _
        cases h
        exact .abort r _ ⟨rfl, by simp, by simp⟩ hsucceeded

/-! ## Runs in which the question is asked again -/

/-- Setup enters the update only while the account is still missing. -/
def Rechecked (s : State) (a : Act) : Prop :=
  ∀ r, a = .beginUpdate r → s.config.auth.needsSetup = true

structure Guarded (s : State) : Prop where
  lock : ∀ r cfg, (s.stage r).pending = some cfg → s.updateLock = some r
  missing : ∀ r cfg, (s.stage r).pending = some cfg → s.config.auth.needsSetup = true
  admin : ∀ r cfg, (s.stage r).pending = some cfg → cfg.auth.needsSetup = false
  valid : ∀ r hash, s.stage r = .hashed hash → validCredentials (creds r) = true
  done : ∀ r, s.stage r = .succeeded → s.config.auth.needsSetup = false
  once : ∀ r r', s.stage r = .succeeded → s.stage r' = .succeeded → r = r'

variable {creds}

theorem needsSetup_withAdmin {cfg : Config} {c : Credentials} {hash : Text}
    (h : validCredentials c = true) :
    (withAdmin cfg c.username hash).auth.needsSetup = false := by
  have hne : c.username ≠ [] := by
    intro hempty
    rw [validCredentials, hempty] at h
    cases h
  simp [withAdmin, AuthConfig.needsSetup, hne]

private theorem Guarded.idle {s : State} (h : Guarded creds s) {r : Nat}
    {stage : Stage} (hidle : Idle creds r stage) {lock : Option Nat}
    (hlock : ∀ r' cfg, r' ≠ r → (s.stage r').pending = some cfg → lock = some r') :
    Guarded creds { s.goto r stage with updateLock := lock } := by
  have hstage : ∀ r', (s.goto r stage).stage r' = if r' = r then stage else s.stage r' :=
    fun r' => Function.update_apply ..
  have hother : ∀ {r' cfg}, ((s.goto r stage).stage r').pending = some cfg →
      r' ≠ r ∧ (s.stage r').pending = some cfg := by
    intro r' cfg hp
    rw [hstage] at hp
    split at hp
    · rw [hidle.pending] at hp
      cases hp
    · exact ⟨‹_›, hp⟩
  have hdone : ∀ {r'}, (s.goto r stage).stage r' = .succeeded → s.stage r' = .succeeded := by
    intro r' hs
    rw [hstage] at hs
    split at hs
    · exact absurd hs hidle.unfinished
    · exact hs
  constructor
  · intro r' cfg hp
    exact hlock r' cfg (hother hp).1 (hother hp).2
  · intro r' cfg hp
    exact h.missing r' cfg (hother hp).2
  · intro r' cfg hp
    exact h.admin r' cfg (hother hp).2
  · intro r' hash hs
    have hs' := hs
    rw [hstage] at hs'
    split at hs'
    · rename_i hr
      rw [hr]
      exact hidle.valid hash hs'
    · exact h.valid r' hash hs'
  · intro r' hs
    exact h.done r' (hdone hs)
  · intro r' r'' hs hs'
    exact h.once r' r'' (hdone hs) (hdone hs')

private theorem Guarded.update {s : State} (h : Guarded creds s) {r : Nat}
    {stage : Stage} {cfg' file : Config} (hafter : stage.pending = some cfg')
    (hadmin : cfg'.auth.needsSetup = false) (hmissing : s.config.auth.needsSetup = true)
    (hlock : ∀ r' cfg, (s.stage r').pending = some cfg → r' = r) :
    Guarded creds { s.goto r stage with updateLock := some r, file := file } := by
  have hstage : ∀ r', (s.goto r stage).stage r' = if r' = r then stage else s.stage r' :=
    fun r' => Function.update_apply ..
  have hnone : ∀ r', (s.goto r stage).stage r' ≠ .succeeded := by
    intro r' hs
    rw [hstage] at hs
    split at hs
    · rw [hs] at hafter
      cases hafter
    · have := h.done r' hs
      rw [hmissing] at this
      cases this
  constructor
  · intro r' cfg hp
    change ((s.goto r stage).stage r').pending = some cfg at hp
    rw [hstage] at hp
    split at hp
    · rename_i hr
      rw [hr]
    · rw [hlock r' cfg hp]
  · intro _ _ _
    exact hmissing
  · intro r' cfg hp
    change ((s.goto r stage).stage r').pending = some cfg at hp
    rw [hstage] at hp
    split at hp
    · rw [hafter] at hp
      cases hp
      exact hadmin
    · exact h.admin r' cfg hp
  · intro r' hash hs
    change (s.goto r stage).stage r' = _ at hs
    rw [hstage] at hs
    split at hs
    · rw [hs] at hafter
      cases hafter
    · exact h.valid r' hash hs
  · intro r' hs
    exact absurd hs (hnone r')
  · intro r' r'' hs _
    exact absurd hs (hnone r')

private theorem Guarded.finish {s : State} (h : Guarded creds s) {r : Nat}
    {cfg : Config} (hstage : s.stage r = .saved cfg) :
    Guarded creds { s.leave r .succeeded with config := cfg } := by
  have hpending : (s.stage r).pending = some cfg := by
    rw [hstage]
    rfl
  have hstage' : ∀ r', (s.leave r .succeeded).stage r' =
      if r' = r then .succeeded else s.stage r' :=
    fun r' => Function.update_apply ..
  have hadmin := h.admin r cfg hpending
  have hone : ∀ r', (s.leave r .succeeded).stage r' = .succeeded → r' = r := by
    intro r' hs
    rw [hstage'] at hs
    split at hs
    · assumption
    · have hdone := h.done r' hs
      rw [h.missing r cfg hpending] at hdone
      cases hdone
  have hfree : ∀ r' cfg', ((s.leave r .succeeded).stage r').pending = some cfg' → False := by
    intro r' cfg' hp
    rw [hstage'] at hp
    split at hp
    · cases hp
    · rename_i hr
      have hlock := h.lock r' cfg' hp
      rw [h.lock r cfg hpending, Option.some.injEq] at hlock
      exact hr hlock.symm
  constructor
  · intro r' cfg' hp
    exact absurd (hfree r' cfg' hp) id
  · intro r' cfg' hp
    exact absurd (hfree r' cfg' hp) id
  · intro r' cfg' hp
    exact absurd (hfree r' cfg' hp) id
  · intro r' hash hs
    change (s.leave r .succeeded).stage r' = _ at hs
    rw [hstage'] at hs
    split at hs
    · cases hs
    · exact h.valid r' hash hs
  · intro _ _
    exact hadmin
  · intro r' r'' hs hs'
    rw [hone r' hs, hone r'' hs']

theorem guarded_step {s t : State} {a : Act} (hcheck : Rechecked s a)
    (hstep : step creds s a = some t) (h : Guarded creds s) : Guarded creds t := by
  have heffect := step_effect creds hstep
  clear hstep
  cases heffect with
  | move r stage hidle _ =>
      exact h.idle hidle fun r' cfg _ hp => h.lock r' cfg hp
  | abort r stage hidle _ =>
      apply h.idle hidle
      intro r' cfg hr hp
      have hlock := h.lock r' cfg hp
      rw [hlock, if_neg (by simpa using hr)]
  | enter r hash hstage hlock =>
      apply h.update rfl (needsSetup_withAdmin (h.valid r hash hstage)) (hcheck r rfl)
      intro r' cfg hp
      have := h.lock r' cfg hp
      rw [hlock] at this
      cases this
  | advance r stage cfg cfg' file hbefore hafter hauth =>
      have hlock := h.lock r cfg hbefore
      have hadmin : cfg'.auth.needsSetup = false := by
        rw [hauth]
        exact h.admin r cfg hbefore
      have hsame : ({ s.goto r stage with file := file } : State) =
          { s.goto r stage with updateLock := some r, file := file } := by
        rw [← hlock]
        rfl
      rw [hsame]
      apply h.update hafter hadmin (h.missing r cfg hbefore)
      intro r' cfg'' hp
      have := h.lock r' cfg'' hp
      rw [hlock, Option.some.injEq] at this
      exact this.symm
  | finish r cfg hstage => exact h.finish hstage

theorem guarded_initial (cfg file : Config) : Guarded creds (initial cfg file) where
  lock _ _ h := by cases h
  missing _ _ h := by cases h
  admin _ _ h := by cases h
  valid _ _ h := by cases h
  done _ h := by cases h
  once _ _ h := by cases h

private theorem frozen_step {s t : State} {a : Act} {r : Nat}
    (hcheck : Rechecked s a) (hstep : step creds s a = some t) (h : Guarded creds s)
    (hdone : s.stage r = .succeeded) :
    t.stage r = .succeeded ∧ t.config = s.config ∧ t.file = s.file := by
  have hset := h.done r hdone
  have hnone : ∀ r', (s.stage r').pending = none := by
    intro r'
    cases hp : (s.stage r').pending with
    | none => rfl
    | some cfg =>
        rw [h.missing r' cfg hp] at hset
        cases hset
  have hkeep : ∀ r' stage, s.stage r' ≠ .succeeded →
      Function.update s.stage r' stage r = .succeeded := by
    intro r' stage hne
    rw [Function.update_of_ne, hdone]
    rintro rfl
    exact hne hdone
  have heffect := step_effect creds hstep
  clear hstep
  cases heffect with
  | move r' stage _ hopen => exact ⟨hkeep r' stage hopen, rfl, rfl⟩
  | abort r' stage _ hopen => exact ⟨hkeep r' stage hopen, rfl, rfl⟩
  | enter r' =>
      rw [hcheck r' rfl] at hset
      cases hset
  | advance r' _ cfg _ _ hbefore =>
      rw [hnone r'] at hbefore
      cases hbefore
  | finish r' cfg hstage =>
      have hp := hnone r'
      rw [hstage] at hp
      cases hp

/--
At most one request succeeds, and from then on no run changes the account, as
long as all steps are taken under `C`.
-/
def CreatedOnce (creds : Nat → Credentials) (C : State → Act → Prop)
    (cfg file : Config) : Prop :=
  ∀ as s, EachStep (step creds) C (initial cfg file) as →
    runFrom (step creds) (initial cfg file) as = some s →
    (∀ r r', s.stage r = .succeeded → s.stage r' = .succeeded → r = r') ∧
    ∀ r bs t, s.stage r = .succeeded → EachStep (step creds) C s bs →
      runFrom (step creds) s bs = some t →
      t.config.auth = s.config.auth ∧ t.file.auth = s.file.auth

theorem createdOnce_of_rechecked (creds : Nat → Credentials) (cfg file : Config) :
    CreatedOnce creds Rechecked cfg file := by
  intro as s hsteps hrun
  have hguarded : Guarded creds s :=
    runFrom_invariant (fun _ _ _ hc hs hg => guarded_step hc hs hg)
      (guarded_initial cfg file) hsteps hrun
  refine ⟨hguarded.once, ?_⟩
  intro r bs t hdone hsteps' hrun'
  have hfrozen : Guarded creds t ∧ t.stage r = .succeeded ∧ t.config = s.config ∧
      t.file = s.file := by
    apply runFrom_invariant (C := Rechecked) (I := fun t => Guarded creds t ∧
      t.stage r = .succeeded ∧ t.config = s.config ∧ t.file = s.file) _ _ hsteps' hrun'
    · rintro u a v hc hs ⟨hu, hr, hconfig, hfile⟩
      obtain ⟨hr', hconfig', hfile'⟩ := frozen_step hc hs hu hr
      exact ⟨guarded_step hc hs hu, hr', hconfig'.trans hconfig, hfile'.trans hfile⟩
    · exact ⟨hguarded, hdone, rfl, rfl⟩
  obtain ⟨-, -, hconfig, hfile⟩ := hfrozen
  rw [hconfig, hfile]
  exact ⟨rfl, rfl⟩

end

/-! ## Two requests at once -/

def rivals (r : Nat) : Credentials :=
  if r = 0 then ⟨"alice".toList, "secret1".toList⟩ else ⟨"mallory".toList, "secret2".toList⟩

def freshConfig : Config := configWith []

def oneAfterOther : List Act :=
  [.check 0, .hashPassword 0 (.ok "h0".toList), .beginUpdate 0, .build 0 (.ok freshConfig),
    .save 0 (.ok ()), .install 0, .check 1]

theorem createdOnce_oneAfterOther :
    EachStep (step rivals) Rechecked (initial freshConfig freshConfig) oneAfterOther ∧
      ((runFrom (step rivals) (initial freshConfig freshConfig) oneAfterOther).map fun s =>
        (s.stage 0, s.stage 1, s.config.auth.username)) =
          some (.succeeded, .failed (.badRequest "already set up".toList), "alice".toList) ∧
      CreatedOnce rivals Rechecked freshConfig freshConfig := by
  refine ⟨?_, by decide +kernel, createdOnce_of_rechecked _ _ _⟩
  refine ⟨nofun, ?_⟩
  rintro _ ⟨⟩
  refine ⟨nofun, ?_⟩
  rintro _ ⟨⟩
  -- The update begins while the account is missing.
  refine ⟨fun _ _ => rfl, ?_⟩
  rintro _ ⟨⟩
  refine ⟨nofun, ?_⟩
  rintro _ ⟨⟩
  refine ⟨nofun, ?_⟩
  rintro _ ⟨⟩
  refine ⟨nofun, ?_⟩
  rintro _ ⟨⟩
  exact ⟨nofun, fun _ _ => trivial⟩

def bothCheckFirst : List Act :=
  [.check 0, .check 1, .hashPassword 0 (.ok "h0".toList), .hashPassword 1 (.ok "h1".toList),
    .beginUpdate 0, .build 0 (.ok freshConfig), .save 0 (.ok ()), .install 0,
    .beginUpdate 1, .build 1 (.ok freshConfig), .save 1 (.ok ()), .install 1]

theorem setup_succeeds_twice :
    ((runFrom (step rivals) (initial freshConfig freshConfig) bothCheckFirst).map fun s =>
      (s.stage 0, s.stage 1, s.config.auth.username)) =
        some (.succeeded, .succeeded, "mallory".toList) ∧
      ¬ CreatedOnce rivals (fun _ _ => True) freshConfig freshConfig := by
  have hrun : (runFrom (step rivals) (initial freshConfig freshConfig) bothCheckFirst).map
      (fun s => (s.stage 0, s.stage 1, s.config.auth.username)) =
        some (.succeeded, .succeeded, "mallory".toList) := by decide +kernel
  refine ⟨hrun, fun honce => ?_⟩
  obtain ⟨s, hs, heq⟩ := Option.map_eq_some_iff.mp hrun
  obtain ⟨h0, h1, -⟩ : s.stage 0 = .succeeded ∧ s.stage 1 = .succeeded ∧
      s.config.auth.username = "mallory".toList := by simpa using heq
  have hsame := (honce bothCheckFirst s (eachStep_trivial _ _) hs).1 0 1 h0 h1
  cases hsame

end Bulwark.Server
