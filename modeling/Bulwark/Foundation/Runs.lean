import Mathlib.Data.List.Induction
import Mathlib.Logic.Function.Basic
import Mathlib.Tactic.Common

/-!
# Runs of a transition system

A system is a function that takes a state and an action to the next state, or to
`none` where the action is not possible.  Interleavings of several parties are
lists of actions that name the party.  What happened earlier in a run is stated
about its prefixes.
-/

namespace Bulwark.Foundation

variable {σ α : Type} (step : σ → α → Option σ)

def runFrom : σ → List α → Option σ
  | s, [] => some s
  | s, a :: as => (step s a).bind fun t => runFrom t as

/-- Every step of the run is taken under the condition `C`. -/
def EachStep (C : σ → α → Prop) : σ → List α → Prop
  | _, [] => True
  | s, a :: as => C s a ∧ ∀ t, step s a = some t → EachStep C t as

def checkEach (check : σ → α → Bool) : σ → List α → Bool
  | _, [] => true
  | s, a :: as => check s a && (step s a).all fun t => checkEach check t as

/-- Some step of the run goes from a state, by an action, to a state as `P` says. -/
def Happened (P : σ → α → σ → Prop) (s : σ) (as : List α) : Prop :=
  ∃ bs a cs t u, as = bs ++ a :: cs ∧ runFrom step s bs = some t ∧ step t a = some u ∧ P t a u

/-- Some state on the way of the run satisfies `P`. -/
def Visits (P : σ → Prop) (s : σ) (as : List α) : Prop :=
  ∃ bs cs t, as = bs ++ cs ∧ runFrom step s bs = some t ∧ P t

variable {step}

theorem runFrom_append {s : σ} {as bs : List α} :
    runFrom step s (as ++ bs) = (runFrom step s as).bind fun t => runFrom step t bs := by
  induction as generalizing s with
  | nil => rfl
  | cons a as ih =>
      rw [List.cons_append, runFrom, runFrom]
      cases step s a with
      | none => rfl
      | some t => exact ih

theorem runFrom_snoc {s t : σ} {as : List α} {a : α} :
    runFrom step s (as ++ [a]) = some t ↔
      ∃ u, runFrom step s as = some u ∧ step u a = some t := by
  rw [runFrom_append]
  cases runFrom step s as with
  | none => simp
  | some u =>
      rw [Option.bind_some, runFrom]
      cases h : step u a <;> simp [runFrom, h]

theorem runFrom_map {τ : Type} {step' : τ → α → Option τ} (f : σ → τ)
    (hstep : ∀ s a t, step s a = some t → step' (f s) a = some (f t)) {s t : σ} {as : List α}
    (h : runFrom step s as = some t) : runFrom step' (f s) as = some (f t) := by
  induction as generalizing s with
  | nil =>
      cases h
      rfl
  | cons a as ih =>
      rw [runFrom] at h ⊢
      obtain ⟨u, hu, ht⟩ := Option.bind_eq_some_iff.mp h
      rw [hstep s a u hu]
      exact ih ht

theorem eachStep_append {C : σ → α → Prop} {s : σ} {as bs : List α}
    (h : EachStep step C s (as ++ bs)) : EachStep step C s as := by
  induction as generalizing s with
  | nil => trivial
  | cons a as ih => exact ⟨h.1, fun t ht => ih (h.2 t ht)⟩

theorem eachStep_last {C : σ → α → Prop} {s t : σ} {as : List α} {a : α}
    (h : EachStep step C s (as ++ [a])) (hrun : runFrom step s as = some t) : C t a := by
  induction as generalizing s with
  | nil =>
      cases hrun
      exact h.1
  | cons b as ih =>
      rw [runFrom] at hrun
      cases hstep : step s b with
      | none =>
          rw [hstep] at hrun
          cases hrun
      | some u =>
          rw [hstep] at hrun
          exact ih (h.2 u hstep) hrun

theorem eachStep_snoc {C : σ → α → Prop} {s t : σ} {as : List α} {a : α}
    (h : EachStep step C s as) (hrun : runFrom step s as = some t) (ha : C t a) :
    EachStep step C s (as ++ [a]) := by
  induction as generalizing s with
  | nil =>
      cases hrun
      exact ⟨ha, fun _ _ => trivial⟩
  | cons b as ih =>
      refine ⟨h.1, fun u hu => ih (h.2 u hu) ?_⟩
      rwa [runFrom, hu, Option.bind_some] at hrun

/-- Induction over runs, for properties that look back at the actions so far. -/
theorem runFrom_induction {C : σ → α → Prop} {H : List α → σ → Prop} {s t : σ}
    {as : List α} (hinit : H [] s)
    (hstep : ∀ as t a u, runFrom step s as = some t → C t a → step t a = some u →
      H as t → H (as ++ [a]) u)
    (hC : EachStep step C s as) (hrun : runFrom step s as = some t) : H as t := by
  induction as using List.reverseRecOn generalizing t with
  | nil =>
      cases hrun
      exact hinit
  | append_singleton as a ih =>
      obtain ⟨u, hu, ha⟩ := runFrom_snoc.mp hrun
      exact hstep as u a t hu (eachStep_last hC hu) ha (ih (eachStep_append hC) hu)

/-- What every step under `C` preserves holds after every run under `C`. -/
theorem runFrom_invariant {C : σ → α → Prop} {I : σ → Prop} {s t : σ} {as : List α}
    (hstep : ∀ t a u, C t a → step t a = some u → I t → I u) (hinit : I s)
    (hC : EachStep step C s as) (hrun : runFrom step s as = some t) : I t :=
  runFrom_induction hinit (fun _ t a u _ hc ha ht => hstep t a u hc ha ht) hC hrun

/-- Where every step is possible the run is, and what looks back at the actions is kept. -/
theorem runFrom_progress {A : α → Prop} {H : List α → σ → Prop} {s : σ} {as : List α}
    (hinit : H [] s)
    (hstep : ∀ as t a, A a → H as t → ∃ u, step t a = some u ∧ H (as ++ [a]) u)
    (hA : ∀ a ∈ as, A a) : ∃ t, runFrom step s as = some t ∧ H as t := by
  induction as using List.reverseRecOn with
  | nil => exact ⟨s, rfl, hinit⟩
  | append_singleton as a ih =>
      obtain ⟨t, ht, hH⟩ := ih fun b hb => hA b (List.mem_append_left _ hb)
      obtain ⟨u, hu, hH'⟩ := hstep as t a (hA a (by simp)) hH
      exact ⟨u, runFrom_snoc.mpr ⟨t, ht, hu⟩, hH'⟩

theorem eachStep_trivial (s : σ) (as : List α) :
    EachStep step (fun _ _ => True) s as := by
  induction as generalizing s with
  | nil => trivial
  | cons a as ih => exact ⟨trivial, fun t _ => ih t⟩

theorem eachStep_of_visited {C : σ → α → Prop} {s : σ} {as : List α}
    (h : ∀ bs a cs t, as = bs ++ a :: cs → runFrom step s bs = some t → C t a) :
    EachStep step C s as := by
  induction as generalizing s with
  | nil => trivial
  | cons a as ih =>
      refine ⟨h [] a as s rfl rfl, fun t ht => ih fun bs b cs u has hrun => ?_⟩
      refine h (a :: bs) b cs u (by rw [has, List.cons_append]) ?_
      rw [runFrom, ht]
      exact hrun

theorem eachStep_of_actions {A : α → Prop} {as : List α} (h : ∀ a ∈ as, A a) (s : σ) :
    EachStep step (fun _ a => A a) s as := by
  induction as generalizing s with
  | nil => trivial
  | cons a as ih =>
      exact ⟨h a List.mem_cons_self, fun t _ => ih (fun b hb => h b (List.mem_cons_of_mem _ hb)) t⟩

theorem EachStep.mono {C D : σ → α → Prop} {s : σ} {as : List α} (h : EachStep step C s as)
    (hCD : ∀ s a, C s a → D s a) : EachStep step D s as := by
  induction as generalizing s with
  | nil => trivial
  | cons a as ih => exact ⟨hCD s a h.1, fun t ht => ih (h.2 t ht)⟩

theorem eachStep_of_check {C : σ → α → Prop} {check : σ → α → Bool} {s : σ} {as : List α}
    (hsound : ∀ s a, check s a = true → C s a) (h : checkEach step check s as = true) :
    EachStep step C s as := by
  induction as generalizing s with
  | nil => trivial
  | cons a as ih =>
      rw [checkEach, Bool.and_eq_true] at h
      refine ⟨hsound s a h.1, fun t ht => ih ?_⟩
      rw [ht] at h
      exact h.2

theorem EachStep.and {C D : σ → α → Prop} {s : σ} {as : List α} (hC : EachStep step C s as)
    (hD : EachStep step D s as) : EachStep step (fun s a => C s a ∧ D s a) s as := by
  induction as generalizing s with
  | nil => trivial
  | cons a as ih => exact ⟨⟨hC.1, hD.1⟩, fun t ht => ih (hC.2 t ht) (hD.2 t ht)⟩

theorem Happened.append {P : σ → α → σ → Prop} {s : σ} {as : List α}
    (h : Happened step P s as) (bs : List α) : Happened step P s (as ++ bs) := by
  obtain ⟨front, a, back, t, u, rfl, hrun, hstep, hP⟩ := h
  exact ⟨front, a, back ++ bs, t, u, by rw [List.append_assoc, List.cons_append], hrun, hstep, hP⟩

theorem Happened.last {P : σ → α → σ → Prop} {s t u : σ} {as : List α} {a : α}
    (hrun : runFrom step s as = some t) (hstep : step t a = some u) (hP : P t a u) :
    Happened step P s (as ++ [a]) :=
  ⟨as, a, [], t, u, rfl, hrun, hstep, hP⟩

theorem Visits.append {P : σ → Prop} {s : σ} {as : List α} (h : Visits step P s as)
    (bs : List α) : Visits step P s (as ++ bs) := by
  obtain ⟨front, back, t, rfl, hrun, ht⟩ := h
  exact ⟨front, back ++ bs, t, List.append_assoc _ _ _, hrun, ht⟩

theorem Visits.last {P : σ → Prop} {s t : σ} {as : List α}
    (hrun : runFrom step s as = some t) (ht : P t) : Visits step P s as :=
  ⟨as, [], t, (List.append_nil as).symm, hrun, ht⟩

/-! ## Tables of parties -/

theorem update_eq_some {κ β : Type} [DecidableEq κ] {f : κ → Option β} {k k' : κ} {x y : β} :
    Function.update f k (some x) k' = some y ↔
      (k' = k ∧ y = x) ∨ (k' ≠ k ∧ f k' = some y) := by
  rw [Function.update_apply]
  split
  · rename_i h
    simp [h, eq_comm]
  · rename_i h
    simp [h]

end Bulwark.Foundation
