import Bulwark.Upstream.SingleFlight

/-!
# What callers get

A caller returns what the flight it waited for has found, under its own id.  Whatever
holds of the results of flights for a key, up to the id, holds of what callers with that
key return.
-/

namespace Bulwark.Upstream

open Bulwark.Foundation Bulwark.Dns

section

variable (good : QueryKey → Message → Prop)

/-- What callers have returned is good for their key and has their id. -/
def Pool.Returns (p : Pool) : Prop :=
  ∀ c query resolved key, p.callers c = some ⟨query, .returned (.ok resolved)⟩ →
    QueryKey.fromMessage query = some key →
    resolved.message.metadata.id = query.metadata.id ∧ good key resolved.message

/-- What flights have found is good for their key under any id. -/
def Pool.Finds (p : Pool) : Prop :=
  ∀ r run resolved key, p.runs r = some run → run.result = some (.ok resolved) →
    QueryKey.fromMessage run.query = some key → ∀ id, good key (resolved.message.withId id)

end

variable {good : QueryKey → Message → Prop} {p q : Pool}

theorem Pool.Returns.setPhase (h : p.Returns good) {c : Nat} {query : Message} {phase : Phase}
    (hphase : ∀ resolved key, phase = .returned (.ok resolved) →
      QueryKey.fromMessage query = some key →
      resolved.message.metadata.id = query.metadata.id ∧ good key resolved.message) :
    (p.setPhase c query phase).Returns good := by
  intro c' query' resolved key hcaller hkey
  rcases callers_setPhase.mp hcaller with ⟨-, heq⟩ | ⟨-, hcaller⟩
  · cases heq
    exact hphase resolved key rfl hkey
  · exact h c' query' resolved key hcaller hkey

theorem Pool.Returns.of_callers (h : p.Returns good) (hcallers : q.callers = p.callers) :
    q.Returns good := by
  intro c query resolved key hcaller
  rw [hcallers] at hcaller
  exact h c query resolved key hcaller

theorem Pool.Returns.step {a : PoolAction} (h : p.Returns good) (hinv : p.Inv)
    (hfinds : p.Finds good) (hstep : p.Steps a q) : q.Returns good := by
  cases hstep with
  | refuse hfree hwhy => exact h.setPhase (by rintro _ _ ⟨⟩)
  | call hfree => exact h.setPhase (by rintro _ _ ⟨⟩)
  | join hcaller hkey hfound => exact h.setPhase (by rintro _ _ ⟨⟩)
  | miss hcaller => exact h.setPhase (by rintro _ _ ⟨⟩)
  | build hcaller =>
      rename_i c query ordered
      have hset : (p.setPhase c query (.built p.nextRun)).Returns good :=
        h.setPhase (by rintro _ _ ⟨⟩)
      exact hset.of_callers rfl
  | joinLate hcaller hkey hfound => exact h.setPhase (by rintro _ _ ⟨⟩)
  | insert hcaller hkey hfree =>
      rename_i c r query key
      have hset : (p.setPhase c query (.waiting r true)).Returns good :=
        h.setPhase (by rintro _ _ ⟨⟩)
      exact hset.of_callers rfl
  | poll hcaller hrun => exact h.of_callers rfl
  | resume hcaller hrun hresult => exact h.setPhase (by rintro _ _ ⟨⟩)
  | leave hcaller =>
      rename_i c r query guard result
      refine Pool.Returns.of_callers (h.setPhase ?_) (callers_release query guard)
      intro resolved key heq hkey
      obtain ⟨run, hrun, hresult⟩ := hinv.finished c query r guard result hcaller
      obtain ⟨run', hrun', hquery⟩ := hinv.flights c query _ r hcaller rfl
      rw [hrun] at hrun'
      cases hrun'
      cases result with
      | error e => cases heq
      | ok found =>
          cases heq
          exact ⟨rfl, hfinds r run found key hrun hresult (hquery.trans hkey) _⟩
  | cancel hcaller hlive =>
      exact Pool.Returns.of_callers (h.setPhase (by rintro _ _ ⟨⟩)) (callers_release _ _)
  | drive ha hdrives => exact h.of_callers hdrives.callers

/-! ## The question -/

/-- Replies are checked against the query of their flight, so a result answers its key. -/
theorem Pool.finds_answersKey (hinv : p.Inv) : p.Finds AnswersKey := by
  intro r run resolved key hrun hresult hkey id
  have hmatch := (hinv.sound r run hrun).result resolved hresult
  exact (answersKey_of_matchesQuery hkey hmatch).2

/-- Forged, late and duplicated replies included: what callers return answers their key. -/
structure Pool.Matching (p : Pool) : Prop where
  inv : p.Inv
  returns : p.Returns AnswersKey

theorem Pool.matching_new (upstreams : List UpstreamEntry) : (Pool.new upstreams).Matching :=
  ⟨Pool.inv_new upstreams, fun _ _ _ _ h => by cases h⟩

theorem Pool.Matching.step {a : PoolAction} (h : p.Matching) (ha : p.step a = some q) :
    q.Matching :=
  have hsteps := Pool.steps_of_step ha
  ⟨h.inv.step hsteps, h.returns.step h.inv (Pool.finds_answersKey h.inv) hsteps⟩

end Bulwark.Upstream
