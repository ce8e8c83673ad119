import Bulwark.Upstream.PoolSteps

/-!
# Single flight

Identical queries share a flight.  The entry of a flight in the map belongs to the caller
that inserted it; nobody else removes it, since nobody else inserts under its key while it
is there.  As long as no caller is dropped midway there is one flight per key, and every
caller returns what a flight for its own key has found.
-/

namespace Bulwark.Upstream

open Bulwark.Foundation Bulwark.Dns

/-! ## Callers and the map -/

section

variable {p : Pool}

theorem runs_release (query : Message) (guard : Bool) :
    (p.release query guard).runs = p.runs ∧ (p.release query guard).nextRun = p.nextRun := by
  rw [Pool.release.eq_def]
  split <;> exact ⟨rfl, rfl⟩

theorem inflight_release {query : Message} {guard : Bool} {key : QueryKey}
    (hkey : guard = true → QueryKey.fromMessage query = some key) (key' : QueryKey) :
    (p.release query guard).inflight key' =
      if guard = true ∧ key' = key then none else p.inflight key' := by
  rw [Pool.release.eq_def]
  cases guard with
  | false => simp
  | true =>
      rw [hkey rfl]
      change Function.update p.inflight key none key' = _
      rw [Function.update_apply]
      simp

/-- What holds of the callers, the map and the flights in every state. -/
structure Pool.Inv (p : Pool) : Prop where
  owned : ∀ key r, p.inflight key = some r → ∃ c query phase,
    p.callers c = some ⟨query, phase⟩ ∧ QueryKey.fromMessage query = some key ∧
      phase.guarded = some r
  guards : ∀ c query phase r, p.callers c = some ⟨query, phase⟩ → phase.guarded = some r →
    ∃ key, QueryKey.fromMessage query = some key ∧ p.inflight key = some r
  unique : ∀ c c' query query' phase phase' r r', p.callers c = some ⟨query, phase⟩ →
    p.callers c' = some ⟨query', phase'⟩ → phase.guarded = some r → phase'.guarded = some r' →
    QueryKey.fromMessage query = QueryKey.fromMessage query' → c = c'
  flights : ∀ c query phase r, p.callers c = some ⟨query, phase⟩ → phase.flight = some r →
    ∃ run, p.runs r = some run ∧
      QueryKey.fromMessage run.query = QueryKey.fromMessage query
  fresh : ∀ r, p.nextRun ≤ r → p.runs r = none
  sound : ∀ r run, p.runs r = some run → run.Sound
  finished : ∀ c query r guard result, p.callers c = some ⟨query, .finished r guard result⟩ →
    ∃ run, p.runs r = some run ∧ run.result = some result

theorem Pool.inv_new (upstreams : List UpstreamEntry) : (Pool.new upstreams).Inv where
  owned _ _ h := by cases h
  guards _ _ _ _ h := by cases h
  unique _ _ _ _ _ _ _ _ h := by cases h
  flights _ _ _ _ h := by cases h
  fresh _ _ := rfl
  sound _ _ h := by cases h
  finished _ _ _ _ _ h := by cases h

theorem Pool.Inv.setPhase (h : p.Inv) {c : Nat} {query : Message} {phase : Phase}
    (hold : (p.callers c = none ∧ phase.guarded = none) ∨
      ∃ old, p.callers c = some ⟨query, old⟩ ∧ old.guarded = phase.guarded)
    (hflight : ∀ r, phase.flight = some r → ∃ run, p.runs r = some run ∧
      QueryKey.fromMessage run.query = QueryKey.fromMessage query)
    (hfinished : ∀ r guard result, phase = .finished r guard result →
      ∃ run, p.runs r = some run ∧ run.result = some result) :
    (p.setPhase c query phase).Inv := by
  -- where the caller has a guard now, it had the same one before
  have hbefore : ∀ r, phase.guarded = some r →
      ∃ old, p.callers c = some ⟨query, old⟩ ∧ old.guarded = some r := by
    intro r hr
    rcases hold with ⟨-, hnone⟩ | ⟨old, hcaller, hsame⟩
    · rw [hnone] at hr
      cases hr
    · exact ⟨old, hcaller, hsame.trans hr⟩
  constructor
  · intro key r hkey
    obtain ⟨c', query', phase', hcaller', hkey', hguard'⟩ := h.owned key r hkey
    by_cases hc : c' = c
    · subst hc
      rcases hold with ⟨hnone, -⟩ | ⟨old, hcaller, hsame⟩
      · rw [hnone] at hcaller'
        cases hcaller'
      · rw [hcaller] at hcaller'
        cases hcaller'
        exact ⟨c', query, phase, callers_setPhase.mpr (.inl ⟨rfl, rfl⟩), hkey',
          hsame.symm.trans hguard'⟩
    · exact ⟨c', query', phase', callers_setPhase.mpr (.inr ⟨hc, hcaller'⟩), hkey', hguard'⟩
  · intro c' query' phase' r hcaller' hguard'
    rcases callers_setPhase.mp hcaller' with ⟨-, heq⟩ | ⟨-, hcaller'⟩
    · cases heq
      obtain ⟨old, hcaller, hguard⟩ := hbefore r hguard'
      exact h.guards c query old r hcaller hguard
    · exact h.guards c' query' phase' r hcaller' hguard'
  · intro c₁ c₂ q₁ q₂ ph₁ ph₂ r₁ r₂ h₁ h₂ hg₁ hg₂ hkeys
    rcases callers_setPhase.mp h₁ with ⟨hc₁, heq₁⟩ | ⟨-, h₁⟩
    · rcases callers_setPhase.mp h₂ with ⟨hc₂, -⟩ | ⟨-, h₂⟩
      · rw [hc₁, hc₂]
      · cases heq₁
        obtain ⟨old, hcaller, hguard⟩ := hbefore r₁ hg₁
        rw [hc₁]
        exact h.unique _ _ _ _ _ _ _ _ hcaller h₂ hguard hg₂ hkeys
    · rcases callers_setPhase.mp h₂ with ⟨hc₂, heq₂⟩ | ⟨-, h₂⟩
      · cases heq₂
        obtain ⟨old, hcaller, hguard⟩ := hbefore r₂ hg₂
        rw [hc₂]
        exact h.unique _ _ _ _ _ _ _ _ h₁ hcaller hg₁ hguard hkeys
      · exact h.unique _ _ _ _ _ _ _ _ h₁ h₂ hg₁ hg₂ hkeys
  · intro c' query' phase' r hcaller' hr
    rcases callers_setPhase.mp hcaller' with ⟨-, heq⟩ | ⟨-, hcaller'⟩
    · cases heq
      exact hflight r hr
    · exact h.flights c' query' phase' r hcaller' hr
  · exact h.fresh
  · exact h.sound
  · intro c' query' r guard result hcaller'
    rcases callers_setPhase.mp hcaller' with ⟨-, heq⟩ | ⟨-, hcaller'⟩
    · cases heq
      exact hfinished r guard result rfl
    · exact h.finished c' query' r guard result hcaller'

theorem Pool.Inv.over (h : p.Inv) {c : Nat} {query : Message} {old phase : Phase}
    (hcaller : p.callers c = some ⟨query, old⟩) (hover : phase.isOver = true) :
    ((p.setPhase c query phase).release query old.guarded.isSome).Inv := by
  have hnoGuard : phase.guarded = none ∧ phase.flight = none := by
    cases phase <;> first | exact ⟨rfl, rfl⟩ | cases hover
  -- the entry that is removed is the caller's own
  have hkey : ∃ key, (old.guarded.isSome = true → QueryKey.fromMessage query = some key ∧
      ∃ r, old.guarded = some r ∧ p.inflight key = some r) := by
    cases hguard : old.guarded with
    | none => exact ⟨⟨[], 0, 0, false, false⟩, fun hfalse => by cases hfalse⟩
    | some r =>
        obtain ⟨key, hkey, hfound⟩ := h.guards c query old r hcaller hguard
        exact ⟨key, fun _ => ⟨hkey, r, rfl, hfound⟩⟩
  obtain ⟨key, hkey⟩ := hkey
  have hinflight := @inflight_release (p.setPhase c query phase) query old.guarded.isSome key
    (fun hsome => (hkey hsome).1)
  obtain ⟨hruns, hnext⟩ :=
    @runs_release (p.setPhase c query phase) query old.guarded.isSome
  constructor
  · intro key' r hfound
    rw [hinflight] at hfound
    split at hfound
    · cases hfound
    · rename_i hother
      obtain ⟨c', query', phase', hcaller', hkey', hguard'⟩ := h.owned key' r hfound
      refine ⟨c', query', phase', ?_, hkey', hguard'⟩
      rw [callers_release, callers_setPhase]
      refine .inr ⟨?_, hcaller'⟩
      rintro rfl
      rw [hcaller] at hcaller'
      cases hcaller'
      have hsome : old.guarded.isSome = true := by rw [hguard']; rfl
      refine hother ⟨hsome, ?_⟩
      exact Option.some.inj (hkey'.symm.trans (hkey hsome).1)
  · intro c' query' phase' r hcaller' hguard'
    rw [callers_release, callers_setPhase] at hcaller'
    rcases hcaller' with ⟨-, heq⟩ | ⟨hne, hcaller'⟩
    · cases heq
      rw [hnoGuard.1] at hguard'
      cases hguard'
    · obtain ⟨key', hkey', hfound⟩ := h.guards c' query' phase' r hcaller' hguard'
      refine ⟨key', hkey', ?_⟩
      rw [hinflight]
      split
      · rename_i hsame
        obtain ⟨hquery, r', hguard, -⟩ := hkey hsame.1
        have hkeys : QueryKey.fromMessage query = QueryKey.fromMessage query' := by
          rw [hquery, hkey', hsame.2]
        exact absurd (h.unique c c' query query' old phase' r' r hcaller hcaller' hguard hguard'
          hkeys) (Ne.symm hne)
      · exact hfound
  · intro c₁ c₂ q₁ q₂ ph₁ ph₂ r₁ r₂ h₁ h₂ hg₁ hg₂ hkeys
    rw [callers_release, callers_setPhase] at h₁ h₂
    rcases h₁ with ⟨-, heq₁⟩ | ⟨-, h₁⟩
    · cases heq₁
      rw [hnoGuard.1] at hg₁
      cases hg₁
    · rcases h₂ with ⟨-, heq₂⟩ | ⟨-, h₂⟩
      · cases heq₂
        rw [hnoGuard.1] at hg₂
        cases hg₂
      · exact h.unique _ _ _ _ _ _ _ _ h₁ h₂ hg₁ hg₂ hkeys
  · intro c' query' phase' r hcaller' hr
    rw [callers_release, callers_setPhase] at hcaller'
    rw [hruns]
    rcases hcaller' with ⟨-, heq⟩ | ⟨-, hcaller'⟩
    · cases heq
      rw [hnoGuard.2] at hr
      cases hr
    · exact h.flights c' query' phase' r hcaller' hr
  · rw [hruns, hnext]
    exact h.fresh
  · rw [hruns]
    exact h.sound
  · intro c' query' r guard result hcaller'
    rw [callers_release, callers_setPhase] at hcaller'
    rw [hruns]
    rcases hcaller' with ⟨-, heq⟩ | ⟨-, hcaller'⟩
    · cases heq
      cases hover
    · exact h.finished c' query' r guard result hcaller'

theorem Pool.Inv.insert (h : p.Inv) {c r : Nat} {query : Message} {key : QueryKey}
    (hcaller : p.callers c = some ⟨query, .built r⟩)
    (hkey : QueryKey.fromMessage query = some key) (hfree : p.inflight key = none) :
    Pool.Inv { p.setPhase c query (.waiting r true) with
      inflight := Function.update p.inflight key (some r) } := by
  -- nobody has a guard for the key
  have hnobody : ∀ c' query' phase' r', p.callers c' = some ⟨query', phase'⟩ →
      phase'.guarded = some r' → QueryKey.fromMessage query' ≠ some key := by
    intro c' query' phase' r' hcaller' hguard' hkey'
    obtain ⟨key', hkey'', hfound⟩ := h.guards c' query' phase' r' hcaller' hguard'
    obtain rfl := Option.some.inj (hkey'.symm.trans hkey'')
    rw [hfree] at hfound
    cases hfound
  constructor
  · intro key' r' hfound
    rcases update_eq_some.mp hfound with ⟨rfl, rfl⟩ | ⟨-, hfound⟩
    · exact ⟨c, query, .waiting r' true, callers_setPhase.mpr (.inl ⟨rfl, rfl⟩), hkey, rfl⟩
    · obtain ⟨c', query', phase', hcaller', hkey', hguard'⟩ := h.owned key' r' hfound
      refine ⟨c', query', phase', callers_setPhase.mpr (.inr ⟨?_, hcaller'⟩), hkey', hguard'⟩
      rintro rfl
      rw [hcaller] at hcaller'
      cases hcaller'
      cases hguard'
  · intro c' query' phase' r' hcaller' hguard'
    change ∃ key', _ ∧ Function.update p.inflight key (some r) key' = some r'
    rcases callers_setPhase.mp hcaller' with ⟨-, heq⟩ | ⟨-, hother⟩
    · cases heq
      cases hguard'
      exact ⟨key, hkey, Function.update_self key _ _⟩
    · obtain ⟨key', hkey', hfound⟩ := h.guards c' query' phase' r' hother hguard'
      refine ⟨key', hkey', ?_⟩
      have hne : key' ≠ key := by
        rintro rfl
        exact hnobody c' query' phase' r' hother hguard' hkey'
      rw [Function.update_of_ne hne]
      exact hfound
  · intro c₁ c₂ q₁ q₂ ph₁ ph₂ r₁ r₂ h₁ h₂ hg₁ hg₂ hkeys
    rcases callers_setPhase.mp h₁ with ⟨hc₁, heq₁⟩ | ⟨-, h₁⟩
    · rcases callers_setPhase.mp h₂ with ⟨hc₂, -⟩ | ⟨-, h₂⟩
      · rw [hc₁, hc₂]
      · cases heq₁
        exact absurd (hkeys.symm.trans hkey) (hnobody c₂ q₂ ph₂ r₂ h₂ hg₂)
    · rcases callers_setPhase.mp h₂ with ⟨-, heq₂⟩ | ⟨-, h₂⟩
      · cases heq₂
        exact absurd (hkeys.trans hkey) (hnobody c₁ q₁ ph₁ r₁ h₁ hg₁)
      · exact h.unique _ _ _ _ _ _ _ _ h₁ h₂ hg₁ hg₂ hkeys
  · intro c' query' phase' r' hcaller' hr'
    rcases callers_setPhase.mp hcaller' with ⟨-, heq⟩ | ⟨-, hcaller'⟩
    · cases heq
      exact h.flights c query (.built r) r' hcaller hr'
    · exact h.flights c' query' phase' r' hcaller' hr'
  · exact h.fresh
  · exact h.sound
  · intro c' query' r' guard result hcaller'
    rcases callers_setPhase.mp hcaller' with ⟨-, heq⟩ | ⟨-, hcaller'⟩
    · cases heq
    · exact h.finished c' query' r' guard result hcaller'

theorem Pool.Inv.runs {t : Pool} (h : p.Inv) (hinflight : t.inflight = p.inflight)
    (hcallers : t.callers = p.callers) (hfresh : ∀ r, t.nextRun ≤ r → t.runs r = none)
    (hkeep : ∀ r run, p.runs r = some run → ∃ run', t.runs r = some run' ∧
      run'.query = run.query ∧ ∀ res, run.result = some res → run'.result = some res)
    (hsound : ∀ r run, t.runs r = some run → run.Sound) : t.Inv := by
  constructor
  · rw [hinflight, hcallers]
    exact h.owned
  · rw [hinflight, hcallers]
    exact h.guards
  · rw [hcallers]
    exact h.unique
  · intro c query phase r hcaller hr
    rw [hcallers] at hcaller
    obtain ⟨run, hrun, hkey⟩ := h.flights c query phase r hcaller hr
    obtain ⟨run', hrun', hquery, -⟩ := hkeep r run hrun
    exact ⟨run', hrun', by rw [hquery, hkey]⟩
  · exact hfresh
  · exact hsound
  · intro c query r guard result hcaller
    rw [hcallers] at hcaller
    obtain ⟨run, hrun, hresult⟩ := h.finished c query r guard result hcaller
    obtain ⟨run', hrun', -, hkept⟩ := hkeep r run hrun
    exact ⟨run', hrun', hkept result hresult⟩

theorem Pool.Inv.drives {t : Pool} (h : p.Inv) (hd : p.Drives t) : t.Inv := by
  apply h.runs hd.inflight hd.callers
  · intro r hr
    rw [hd.nextRun] at hr
    exact hd.absent r (h.fresh r hr)
  · intro r run hrun
    obtain ⟨run', hrun', hadv⟩ := hd.runs r run hrun
    exact ⟨run', hrun', hadv.query, hadv.result⟩
  · intro r run' hrun'
    obtain ⟨run, hrun, hadv⟩ := hd.back hrun'
    exact hadv.sound (h.sound r run hrun)

theorem Pool.Inv.addRun (h : p.Inv) (query : Message) (ordered : List UpstreamEntry) :
    Pool.Inv { p.setRun p.nextRun { query := query, remaining := ordered } with
      nextRun := p.nextRun + 1 } := by
  refine Pool.Inv.runs h ?_ ?_ ?_ ?_ ?_
  · rfl
  · rfl
  · intro r hr
    change Function.update p.runs p.nextRun _ r = none
    change p.nextRun + 1 ≤ r at hr
    rw [Function.update_of_ne (by omega)]
    exact h.fresh r (by omega)
  · intro r run hrun
    refine ⟨run, ?_, rfl, fun _ hres => hres⟩
    change Function.update p.runs p.nextRun _ r = some run
    rw [Function.update_of_ne]
    · exact hrun
    · rintro rfl
      rw [h.fresh _ (Nat.le_refl _)] at hrun
      cases hrun
  · intro r run hrun
    rcases update_eq_some.mp hrun with ⟨-, rfl⟩ | ⟨-, hrun⟩
    · exact ⟨fun _ hf => (by cases hf), fun _ hr => (by cases hr)⟩
    · exact h.sound r run hrun

theorem Pool.Inv.start (h : p.Inv) {r : Nat} {run : Run} (hrun : p.runs r = some run) :
    (p.setRun r { run with started := true }).Inv := by
  refine Pool.Inv.runs h ?_ ?_ ?_ ?_ ?_
  · rfl
  · rfl
  · intro r' hr'
    change Function.update p.runs r _ r' = none
    rw [Function.update_of_ne]
    · exact h.fresh r' hr'
    · rintro rfl
      rw [h.fresh _ hr'] at hrun
      cases hrun
  · intro r' run' hrun'
    change ∃ new, Function.update p.runs r _ r' = some new ∧ _
    rw [Function.update_apply]
    split
    · rename_i heq
      rw [heq, hrun] at hrun'
      cases hrun'
      exact ⟨_, rfl, rfl, fun _ hres => hres⟩
    · exact ⟨run', hrun', rfl, fun _ hres => hres⟩
  · intro r' run' hrun'
    rcases update_eq_some.mp hrun' with ⟨-, rfl⟩ | ⟨-, hrun'⟩
    · exact ⟨(h.sound r run hrun).fallback, (h.sound r run hrun).result⟩
    · exact h.sound r' run' hrun'

theorem Phase.flight_of_guarded {phase : Phase} {r : Nat} (h : phase.guarded = some r) :
    phase.flight = some r := by
  cases phase with
  | waiting r' guard =>
      cases guard
      · cases h
      · exact h
  | finished r' guard result =>
      cases guard
      · cases h
      · exact h
  | called => cases h
  | building => cases h
  | built r' => cases h
  | returned result => cases h
  | dropped => cases h

theorem Pool.Inv.found (h : p.Inv) {key : QueryKey} {r : Nat} (hfound : p.inflight key = some r) :
    ∃ run, p.runs r = some run ∧ QueryKey.fromMessage run.query = some key := by
  obtain ⟨c, query, phase, hcaller, hkey, hguard⟩ := h.owned key r hfound
  obtain ⟨run, hrun, hquery⟩ := h.flights c query phase r hcaller (Phase.flight_of_guarded hguard)
  exact ⟨run, hrun, hquery.trans hkey⟩

theorem Pool.Inv.join (h : p.Inv) {c r : Nat} {query : Message} {old : Phase} {key : QueryKey}
    (hcaller : p.callers c = some ⟨query, old⟩) (hguard : old.guarded = none)
    (hkey : QueryKey.fromMessage query = some key) (hfound : p.inflight key = some r) :
    (p.setPhase c query (.waiting r false)).Inv := by
  refine h.setPhase (.inr ⟨old, hcaller, hguard⟩) (fun r' hr' => ?_) (by rintro _ _ _ ⟨⟩)
  cases hr'
  obtain ⟨run, hrun, hquery⟩ := h.found hfound
  exact ⟨run, hrun, hquery.trans hkey.symm⟩

theorem Pool.Inv.step {t : Pool} {a : PoolAction} (h : p.Inv) (hstep : p.Steps a t) : t.Inv := by
  cases hstep with
  | refuse hfree hwhy =>
      exact h.setPhase (.inl ⟨hfree, rfl⟩) (fun r hr => by cases hr) (by rintro _ _ _ ⟨⟩)
  | call hfree =>
      exact h.setPhase (.inl ⟨hfree, rfl⟩) (fun r hr => by cases hr) (by rintro _ _ _ ⟨⟩)
  | join hcaller hkey hfound => exact h.join hcaller rfl hkey hfound
  | miss hcaller =>
      exact h.setPhase (.inr ⟨_, hcaller, rfl⟩) (fun r hr => by cases hr) (by rintro _ _ _ ⟨⟩)
  | build hcaller =>
      rename_i c query ordered
      have hadd := h.addRun (normalizeUpstreamEdns query) ordered
      refine Pool.Inv.setPhase hadd (.inr ⟨_, hcaller, rfl⟩) (fun r hr => ?_) (by rintro _ _ _ ⟨⟩)
      cases hr
      exact ⟨_, Function.update_self _ _ _, fromMessage_normalizeUpstreamEdns query⟩
  | joinLate hcaller hkey hfound => exact h.join hcaller rfl hkey hfound
  | insert hcaller hkey hfree => exact h.insert hcaller hkey hfree
  | poll hcaller hrun => exact h.start hrun
  | resume hcaller hrun hresult =>
      rename_i c r query guard run result
      refine h.setPhase (.inr ⟨_, hcaller, ?_⟩) (fun r' hr' => ?_) ?_
      · cases guard <;> rfl
      · cases hr'
        exact h.flights c query _ r hcaller rfl
      · rintro _ _ _ ⟨⟩
        exact ⟨run, hrun, hresult⟩
  | leave hcaller =>
      rename_i c r query guard result
      have hover := @Pool.Inv.over p h c query _ (.returned (withQueryId query result)) hcaller rfl
      cases guard <;> exact hover
  | cancel hcaller hlive => exact h.over hcaller rfl
  | drive ha hdrives => exact h.drives hdrives

/-! ## One flight per key -/

/-- Whatever is awaited or running and not finished is the entry of its key. -/
structure Pool.Exclusive (p : Pool) : Prop where
  awaited : ∀ c query r guard run key, p.callers c = some ⟨query, .waiting r guard⟩ →
    p.runs r = some run → run.result = none → QueryKey.fromMessage query = some key →
    p.inflight key = some r
  running : ∀ r run key, p.runs r = some run → run.started = true → run.result = none →
    QueryKey.fromMessage run.query = some key → p.inflight key = some r

theorem Pool.exclusive_new (upstreams : List UpstreamEntry) :
    (Pool.new upstreams).Exclusive where
  awaited _ _ _ _ _ _ h := by cases h
  running _ _ _ h := by cases h

theorem Pool.Exclusive.setPhase (h : p.Exclusive) {c : Nat} {query : Message} {phase : Phase}
    (hwaits : ∀ r guard key, phase = .waiting r guard → QueryKey.fromMessage query = some key →
      p.inflight key = some r) : (p.setPhase c query phase).Exclusive := by
  constructor
  · intro c' query' r guard run key hcaller hrun hnone hkey
    rcases callers_setPhase.mp hcaller with ⟨-, heq⟩ | ⟨-, hcaller⟩
    · cases heq
      exact hwaits r guard key rfl hkey
    · exact h.awaited c' query' r guard run key hcaller hrun hnone hkey
  · exact h.running

theorem Pool.Exclusive.drives {t : Pool} (h : p.Exclusive) (hd : p.Drives t) : t.Exclusive := by
  have hback : ∀ {r run'}, t.runs r = some run' → run'.result = none →
      ∃ run, p.runs r = some run ∧ run.Advances run' ∧ run.result = none := by
    intro r run' hrun' hnone
    obtain ⟨run, hrun, hadv⟩ := hd.back hrun'
    refine ⟨run, hrun, hadv, ?_⟩
    cases hres : run.result with
    | none => rfl
    | some res =>
        rw [hadv.result res hres] at hnone
        cases hnone
  constructor
  · intro c query r guard run' key hcaller hrun' hnone hkey
    obtain ⟨run, hrun, -, hnone'⟩ := hback hrun' hnone
    rw [hd.callers] at hcaller
    rw [hd.inflight]
    exact h.awaited c query r guard run key hcaller hrun hnone' hkey
  · intro r run' key hrun' hstarted hnone hkey
    obtain ⟨run, hrun, hadv, hnone'⟩ := hback hrun' hnone
    rw [hadv.query] at hkey
    rw [hadv.started] at hstarted
    rw [hd.inflight]
    exact h.running r run key hrun hstarted hnone' hkey

theorem Pool.Exclusive.addRun (h : p.Exclusive) (hinv : p.Inv) (query : Message)
    (ordered : List UpstreamEntry) :
    Pool.Exclusive { p.setRun p.nextRun { query := query, remaining := ordered } with
      nextRun := p.nextRun + 1 } := by
  constructor
  · intro c' query' r guard run key hcaller' hrun hnone hkey
    obtain ⟨run', hrun', -⟩ := hinv.flights c' query' _ r hcaller' rfl
    rcases update_eq_some.mp hrun with ⟨rfl, -⟩ | ⟨-, hrun⟩
    · rw [hinv.fresh _ (Nat.le_refl _)] at hrun'
      cases hrun'
    · exact h.awaited c' query' r guard run key hcaller' hrun hnone hkey
  · intro r run key hrun hstarted hnone hkey
    rcases update_eq_some.mp hrun with ⟨-, rfl⟩ | ⟨-, hrun⟩
    · cases hstarted
    · exact h.running r run key hrun hstarted hnone hkey

theorem Pool.Exclusive.insert (h : p.Exclusive) {c r : Nat} {query : Message} {key : QueryKey}
    (hkey : QueryKey.fromMessage query = some key) (hfree : p.inflight key = none) :
    Pool.Exclusive { p.setPhase c query (.waiting r true) with
      inflight := Function.update p.inflight key (some r) } := by
  have hkept : ∀ {key' r'}, p.inflight key' = some r' →
      Function.update p.inflight key (some r) key' = some r' := by
    intro key' r' hfound
    rw [Function.update_of_ne]
    · exact hfound
    · rintro rfl
      rw [hfree] at hfound
      cases hfound
  constructor
  · intro c' query' r' guard run key' hcaller' hrun hnone hkey'
    rcases callers_setPhase.mp hcaller' with ⟨-, heq⟩ | ⟨-, hother⟩
    · cases heq
      obtain rfl := Option.some.inj (hkey.symm.trans hkey')
      exact Function.update_self _ _ _
    · exact hkept (h.awaited c' query' r' guard run key' hother hrun hnone hkey')
  · intro r' run key' hrun hstarted hnone hkey'
    exact hkept (h.running r' run key' hrun hstarted hnone hkey')

theorem Pool.Exclusive.start (h : p.Exclusive) (hinv : p.Inv) {c r : Nat} {query : Message}
    {guard : Bool} {run : Run} (hcaller : p.callers c = some ⟨query, .waiting r guard⟩)
    (hrun : p.runs r = some run) : (p.setRun r { run with started := true }).Exclusive := by
  constructor
  · intro c' query' r' guard' run' key hcaller' hrun' hnone hkey
    rcases update_eq_some.mp hrun' with ⟨rfl, rfl⟩ | ⟨-, hrun'⟩
    · exact h.awaited c' query' r' guard' run key hcaller' hrun hnone hkey
    · exact h.awaited c' query' r' guard' run' key hcaller' hrun' hnone hkey
  · intro r' run' key hrun' hstarted hnone hkey
    rcases update_eq_some.mp hrun' with ⟨rfl, rfl⟩ | ⟨-, hrun'⟩
    · obtain ⟨run₂, hrun₂, hquery⟩ := hinv.flights c query _ r' hcaller rfl
      rw [hrun] at hrun₂
      cases hrun₂
      exact h.awaited c query r' guard run key hcaller hrun hnone (hquery.symm.trans hkey)
    · exact h.running r' run' key hrun' hstarted hnone hkey

theorem Pool.Exclusive.leave (h : p.Exclusive) (hinv : p.Inv) {c r : Nat} {query : Message}
    {guard : Bool} {result : ResolveResult} {phase : Phase}
    (hcaller : p.callers c = some ⟨query, .finished r guard result⟩)
    (hphase : ∀ r guard, phase ≠ .waiting r guard) :
    ((p.setPhase c query phase).release query guard).Exclusive := by
  obtain ⟨run, hrun, hresult⟩ := hinv.finished c query r guard result hcaller
  obtain ⟨hruns, -⟩ := @runs_release (p.setPhase c query phase) query guard
  -- an entry that goes is that of the finished flight
  have hkept : ∀ key r' run', p.inflight key = some r' → p.runs r' = some run' →
      run'.result = none →
      ((p.setPhase c query phase).release query guard).inflight key = some r' := by
    intro key r' run' hfound hrun' hnone
    cases guard with
    | false => exact hfound
    | true =>
        obtain ⟨own, hown, hfoundOwn⟩ := hinv.guards c query _ r hcaller rfl
        rw [@inflight_release (p.setPhase c query phase) query true own (fun _ => hown), if_neg]
        · exact hfound
        · rintro ⟨-, rfl⟩
          rw [hfound] at hfoundOwn
          cases hfoundOwn
          rw [hrun'] at hrun
          cases hrun
          rw [hnone] at hresult
          cases hresult
  constructor
  · intro c' query' r' guard' run' key hcaller' hrun' hnone hkey
    rw [callers_release] at hcaller'
    rw [hruns] at hrun'
    rcases callers_setPhase.mp hcaller' with ⟨-, heq⟩ | ⟨-, hother⟩
    · cases heq
      exact absurd rfl (hphase r' guard')
    · exact hkept key r' run'
        (h.awaited c' query' r' guard' run' key hother hrun' hnone hkey) hrun' hnone
  · intro r' run' key hrun' hstarted hnone hkey
    rw [hruns] at hrun'
    exact hkept key r' run' (h.running r' run' key hrun' hstarted hnone hkey) hrun' hnone

/-- Without dropped callers an entry goes only when its flight has finished. -/
theorem Pool.Exclusive.step {t : Pool} {a : PoolAction} (h : p.Exclusive) (hinv : p.Inv)
    (hstep : p.Steps a t) (hkeep : ∀ c, a ≠ .cancel c) : t.Exclusive := by
  cases hstep with
  | refuse hfree hwhy => exact h.setPhase (by rintro _ _ _ ⟨⟩)
  | call hfree => exact h.setPhase (by rintro _ _ _ ⟨⟩)
  | join hcaller hkey hfound | joinLate hcaller hkey hfound =>
      apply h.setPhase
      rintro _ _ key' ⟨⟩ hkey'
      obtain rfl := Option.some.inj (hkey.symm.trans hkey')
      exact hfound
  | miss hcaller => exact h.setPhase (by rintro _ _ _ ⟨⟩)
  | build hcaller => exact Pool.Exclusive.setPhase (h.addRun hinv _ _) (by rintro _ _ _ ⟨⟩)
  | insert hcaller hkey hfree => exact h.insert hkey hfree
  | poll hcaller hrun => exact h.start hinv hcaller hrun
  | resume hcaller hrun hresult => exact h.setPhase (by rintro _ _ _ ⟨⟩)
  | leave hcaller => exact h.leave hinv hcaller (by simp)
  | cancel hcaller hlive => exact absurd rfl (hkeep _)
  | drive ha hdrives => exact h.drives hdrives

/-! ## What happened before -/

def Phase.joined : Phase → Option Nat
  | .waiting r _ | .finished r _ _ => some r
  | _ => none

def Inserts (c r : Nat) (key : QueryKey) (t : Pool) (a : PoolAction) (u : Pool) : Prop :=
  a = .insert c ∧ t.inflight key = none ∧ u.inflight key = some r

def Joins (c r : Nat) (query : Message) (key : QueryKey) (_ : Pool) (a : PoolAction) (u : Pool) :
    Prop :=
  (a = .look c ∨ a = .insert c) ∧ u.inflight key = some r ∧
    ∃ guard, u.callers c = some ⟨query, .waiting r guard⟩

/-- `resolve` gives up before it looks into the map. -/
def Refused (upstreams : List UpstreamEntry) (query : Message) (result : ResolveResult) : Prop :=
  upstreams = [] ∧ result = .error .noUpstreams ∨
    QueryKey.fromMessage query = none ∧
      result = .error (.proto "query has no question".toList)

/-- The result of a flight for the key of the query, under the id of the query. -/
structure Pool.Answers (p : Pool) (query : Message) (key : QueryKey) (r : Nat)
    (result : ResolveResult) : Prop where
  key_eq : QueryKey.fromMessage query = some key
  run : ∃ run found, p.runs r = some run ∧ QueryKey.fromMessage run.query = some key ∧
    run.result = some found ∧ result = withQueryId query found

/-- How a caller has come to its phase. -/
structure Pool.Past (upstreams : List UpstreamEntry) (as : List PoolAction) (p : Pool) (c : Nat)
    (query : Message) (phase : Phase) : Prop where
  inserted : ∀ r, phase.guarded = some r → ∃ key, QueryKey.fromMessage query = some key ∧
    Happened Pool.step (Inserts c r key) (Pool.new upstreams) as
  joined : ∀ r, phase.joined = some r → ∃ key, QueryKey.fromMessage query = some key ∧
    Happened Pool.step (Joins c r query key) (Pool.new upstreams) as
  returned : ∀ result, phase = .returned result → Refused upstreams query result ∨
    ∃ key r, p.Answers query key r result ∧
      Happened Pool.step (Joins c r query key) (Pool.new upstreams) as

structure Pool.History (upstreams : List UpstreamEntry) (as : List PoolAction) (p : Pool) :
    Prop where
  upstreams_eq : p.upstreams = upstreams
  past : ∀ c query phase, p.callers c = some ⟨query, phase⟩ → p.Past upstreams as c query phase

def Pool.Keeps (p u : Pool) : Prop :=
  ∀ r run, p.runs r = some run → ∃ run', u.runs r = some run' ∧ run'.query = run.query ∧
    ∀ result, run.result = some result → run'.result = some result

theorem Pool.Keeps.of_runs_eq {u : Pool} (h : u.runs = p.runs) : p.Keeps u := by
  intro r run hrun
  exact ⟨run, by rw [h, hrun], rfl, fun _ hresult => hresult⟩

theorem Pool.Answers.keeps {u : Pool} {query : Message} {key : QueryKey} {r : Nat}
    {result : ResolveResult} (h : p.Answers query key r result) (hkeeps : p.Keeps u) :
    u.Answers query key r result := by
  obtain ⟨run, found, hrun, hkey, hfound, hresult⟩ := h.run
  obtain ⟨run', hrun', hquery, hkept⟩ := hkeeps r run hrun
  exact ⟨h.key_eq, run', found, hrun', by rw [hquery, hkey], hkept found hfound, hresult⟩

section

variable {upstreams : List UpstreamEntry} {as : List PoolAction} {u : Pool} {a : PoolAction}

theorem Pool.Past.append {c : Nat} {query : Message} {phase : Phase}
    (h : p.Past upstreams as c query phase) (hkeeps : p.Keeps u) (bs : List PoolAction) :
    u.Past upstreams (as ++ bs) c query phase := by
  constructor
  · intro r hr
    obtain ⟨key, hkey, hpast⟩ := h.inserted r hr
    exact ⟨key, hkey, hpast.append bs⟩
  · intro r hr
    obtain ⟨key, hkey, hpast⟩ := h.joined r hr
    exact ⟨key, hkey, hpast.append bs⟩
  · intro result hresult
    rcases h.returned result hresult with hrefused | ⟨key, r, hanswers, hpast⟩
    · exact .inl hrefused
    · exact .inr ⟨key, r, hanswers.keeps hkeeps, hpast.append bs⟩

theorem Pool.History.next (h : p.History upstreams as) (hups : u.upstreams = p.upstreams)
    (hkeeps : p.Keeps u) {c : Nat} {query : Message} {phase : Phase}
    (hcallers : u.callers = (p.setPhase c query phase).callers)
    (hpast : u.Past upstreams (as ++ [a]) c query phase) : u.History upstreams (as ++ [a]) := by
  refine ⟨hups.trans h.upstreams_eq, fun c' query' phase' hcaller => ?_⟩
  rw [hcallers] at hcaller
  rcases callers_setPhase.mp hcaller with ⟨rfl, heq⟩ | ⟨-, hcaller⟩
  · cases heq
    exact hpast
  · exact (h.past c' query' phase' hcaller).append hkeeps [a]

theorem Pool.History.same (h : p.History upstreams as) (hups : u.upstreams = p.upstreams)
    (hkeeps : p.Keeps u) (hcallers : u.callers = p.callers) : u.History upstreams (as ++ [a]) := by
  refine ⟨hups.trans h.upstreams_eq, fun c' query' phase' hcaller => ?_⟩
  rw [hcallers] at hcaller
  exact (h.past c' query' phase' hcaller).append hkeeps [a]

theorem Pool.past_idle {c : Nat} {query : Message} {phase : Phase}
    (hguarded : phase.guarded = none) (hjoined : phase.joined = none)
    (hreturned : ∀ result, phase ≠ .returned result) : u.Past upstreams as c query phase where
  inserted r hr := by
    rw [hguarded] at hr
    cases hr
  joined r hr := by
    rw [hjoined] at hr
    cases hr
  returned result hresult := absurd hresult (hreturned result)

theorem upstreams_release (query : Message) (guard : Bool) :
    (p.release query guard).upstreams = p.upstreams := by
  rw [Pool.release.eq_def]
  split <;> rfl

theorem Pool.History.step (h : p.History upstreams as) (hinv : p.Inv)
    (hrun : runFrom Pool.step (Pool.new upstreams) as = some p) (ha : p.step a = some u) :
    u.History upstreams (as ++ [a]) := by
  cases Pool.steps_of_step ha with
  | refuse hfree hwhy =>
      refine h.next rfl (.of_runs_eq rfl) rfl ⟨by rintro _ ⟨⟩, by rintro _ ⟨⟩, ?_⟩
      rintro _ ⟨⟩
      rcases hwhy with ⟨hempty, rfl⟩ | ⟨hnone, rfl⟩
      · exact .inl (.inl ⟨h.upstreams_eq ▸ hempty, rfl⟩)
      · exact .inl (.inr ⟨hnone, rfl⟩)
  | call hfree =>
      exact h.next rfl (.of_runs_eq rfl) rfl (Pool.past_idle rfl rfl (by rintro _ ⟨⟩))
  | join hcaller hkey hfound =>
      refine h.next rfl (.of_runs_eq rfl) rfl ⟨by rintro _ ⟨⟩, ?_, by rintro _ ⟨⟩⟩
      rintro _ ⟨⟩
      exact ⟨_, hkey, .last hrun ha
        ⟨.inl rfl, hfound, false, callers_setPhase.mpr (.inl ⟨rfl, rfl⟩)⟩⟩
  | miss hcaller =>
      exact h.next rfl (.of_runs_eq rfl) rfl (Pool.past_idle rfl rfl (by rintro _ ⟨⟩))
  | build hcaller =>
      rename_i c query ordered
      refine h.next rfl ?_ rfl (Pool.past_idle rfl rfl (by rintro _ ⟨⟩))
      intro r run hr
      refine ⟨run, ?_, rfl, fun _ hresult => hresult⟩
      change Function.update p.runs p.nextRun _ r = some run
      rw [Function.update_of_ne, hr]
      rintro rfl
      rw [hinv.fresh _ (Nat.le_refl _)] at hr
      cases hr
  | joinLate hcaller hkey hfound =>
      refine h.next rfl (.of_runs_eq rfl) rfl ⟨by rintro _ ⟨⟩, ?_, by rintro _ ⟨⟩⟩
      rintro _ ⟨⟩
      exact ⟨_, hkey, .last hrun ha
        ⟨.inr rfl, hfound, false, callers_setPhase.mpr (.inl ⟨rfl, rfl⟩)⟩⟩
  | insert hcaller hkey hfree =>
      rename_i c r query key
      refine h.next rfl (.of_runs_eq rfl) rfl ⟨?_, ?_, by rintro _ ⟨⟩⟩
      · rintro _ ⟨⟩
        exact ⟨key, hkey, .last hrun ha ⟨rfl, hfree, Function.update_self _ _ _⟩⟩
      · rintro _ ⟨⟩
        exact ⟨key, hkey, .last hrun ha ⟨.inr rfl, Function.update_self _ _ _, true,
          callers_setPhase.mpr (.inl ⟨rfl, rfl⟩)⟩⟩
  | poll hcaller hpolled =>
      rename_i c r query guard run
      refine h.same rfl (fun r' run' hr' => ?_) rfl
      by_cases hr : r' = r
      · subst hr
        rw [hpolled] at hr'
        cases hr'
        exact ⟨_, Function.update_self _ _ _, rfl, fun _ hresult => hresult⟩
      · exact ⟨run', (Function.update_of_ne hr _ _).trans hr', rfl, fun _ hresult => hresult⟩
  | resume hcaller hran hresult =>
      rename_i c r query guard run result
      have hpast := (h.past c query _ hcaller).append (.of_runs_eq rfl) [PoolAction.resume c]
      refine h.next rfl (.of_runs_eq rfl) rfl ⟨fun r' hr' => ?_, fun r' hr' => ?_, by rintro _ ⟨⟩⟩
      · exact hpast.inserted r' (by cases guard <;> exact hr')
      · exact hpast.joined r' hr'
  | leave hcaller =>
      rename_i c r query guard result
      obtain ⟨hruns, -⟩ :=
        @runs_release (p.setPhase c query (.returned (withQueryId query result))) query guard
      have hkeeps := Pool.Keeps.of_runs_eq hruns
      refine h.next (upstreams_release query guard) hkeeps (callers_release query guard)
        ⟨by rintro _ ⟨⟩, by rintro _ ⟨⟩, ?_⟩
      rintro _ ⟨⟩
      obtain ⟨key, hkey, hjoined⟩ := (h.past c query _ hcaller).joined r rfl
      obtain ⟨run, hran, hresult⟩ := hinv.finished c query r guard result hcaller
      obtain ⟨run', hran', hquery⟩ := hinv.flights c query _ r hcaller rfl
      rw [hran] at hran'
      cases hran'
      have hanswers : p.Answers query key r (withQueryId query result) :=
        ⟨hkey, run, result, hran, hquery.trans hkey, hresult, rfl⟩
      exact .inr ⟨key, r, hanswers.keeps hkeeps, hjoined.append _⟩
  | cancel hcaller hlive =>
      rename_i c query phase
      refine h.next (upstreams_release query _) (.of_runs_eq (runs_release query _).1)
        (callers_release query _) (Pool.past_idle rfl rfl (by rintro _ ⟨⟩))
  | drive hevent hdrives =>
      refine h.same hdrives.upstreams (fun r run hr => ?_) hdrives.callers
      obtain ⟨run', hrun', hadv⟩ := hdrives.runs r run hr
      exact ⟨run', hrun', hadv.query, hadv.result⟩

theorem Pool.run_history (hrun : runFrom Pool.step (Pool.new upstreams) as = some p) :
    p.Inv ∧ p.History upstreams as := by
  refine @runFrom_induction _ _ _ (fun _ _ => True)
    (fun as t => t.Inv ∧ t.History upstreams as) _ _ _ ?_ ?_ (eachStep_trivial _ as) hrun
  · exact ⟨Pool.inv_new upstreams, rfl, fun _ _ _ h => by cases h⟩
  · rintro as t a u ht - ha ⟨hinv, hhistory⟩
    exact ⟨hinv.step (Pool.steps_of_step ha), hhistory.step hinv ht ha⟩

theorem Pool.run_exclusive (hrun : runFrom Pool.step (Pool.new upstreams) as = some p)
    (hkeep : ∀ c, PoolAction.cancel c ∉ as) : p.Exclusive := by
  have hactions : ∀ a ∈ as, ∀ c, a ≠ .cancel c := by
    rintro a ha c rfl
    exact hkeep c ha
  refine (@runFrom_invariant _ _ _ (fun _ a => ∀ c, a ≠ .cancel c)
    (fun t => t.Inv ∧ t.Exclusive) _ _ _ ?_ ?_ (eachStep_of_actions hactions _) hrun).2
  · rintro t a u hc ha ⟨hinv, hexclusive⟩
    have hsteps := Pool.steps_of_step ha
    exact ⟨hinv.step hsteps, hexclusive.step hinv hsteps hc⟩
  · exact ⟨Pool.inv_new upstreams, Pool.exclusive_new upstreams⟩

/-- An entry goes only where a caller drops the guard it has for it. -/
theorem Pool.removed_by_guard {key : QueryKey} {r : Nat} (hinv : p.Inv) (ha : p.step a = some u)
    (hfound : p.inflight key = some r) (hgone : u.inflight key ≠ some r) :
    ∃ c query phase, (a = .leave c ∨ a = .cancel c) ∧ p.callers c = some ⟨query, phase⟩ ∧
      QueryKey.fromMessage query = some key ∧ phase.guarded = some r := by
  -- a caller with a guard that is dropped
  have hdrop : ∀ {c query old phase}, p.callers c = some ⟨query, old⟩ →
      ((p.setPhase c query phase).release query old.guarded.isSome).inflight key ≠ some r →
      QueryKey.fromMessage query = some key ∧ old.guarded = some r := by
    intro c query old phase hcaller hgone
    cases hguard : old.guarded with
    | none =>
        rw [hguard] at hgone
        exact absurd hfound hgone
    | some r' =>
        obtain ⟨own, hown, hentry⟩ := hinv.guards c query old r' hcaller hguard
        rw [hguard, @inflight_release (p.setPhase c query phase) query _ own (fun _ => hown)]
          at hgone
        by_cases hkeys : key = own
        · subst hkeys
          exact ⟨hown, hentry.symm.trans hfound⟩
        · rw [if_neg (fun h => hkeys h.2)] at hgone
          exact absurd hfound hgone
  cases Pool.steps_of_step ha with
  | insert hcaller hkey hfree =>
      rename_i c r' query own
      refine absurd ?_ hgone
      change Function.update p.inflight own (some r') key = some r
      rw [Function.update_of_ne, hfound]
      rintro rfl
      rw [hfree] at hfound
      cases hfound
  | leave hcaller =>
      rename_i c r' query guard result
      have hold := @hdrop c query _ (.returned (withQueryId query result)) hcaller
        (by cases guard <;> exact hgone)
      exact ⟨c, query, _, .inl rfl, hcaller, hold.1, hold.2⟩
  | cancel hcaller hlive =>
      rename_i c query phase
      have hold := hdrop hcaller hgone
      exact ⟨c, query, phase, .inr rfl, hcaller, hold.1, hold.2⟩
  | drive hevent hdrives => exact absurd (by rw [hdrives.inflight, hfound]) hgone
  | _ => exact absurd hfound hgone

/-- Identical queries share a flight: its entry is removed by the caller that inserted it and
by nobody else, no entry is left when all callers are over, without dropped callers no two
flights for one key are under way, and every caller returns what a flight for its key that
was in the map when it joined has found. -/
theorem singleFlight_exact (hrun : runFrom Pool.step (Pool.new upstreams) as = some p) :
    (∀ a u key r, p.step a = some u → p.inflight key = some r → u.inflight key ≠ some r →
      ∃ c query phase, (a = .leave c ∨ a = .cancel c) ∧ p.callers c = some ⟨query, phase⟩ ∧
        phase.guarded = some r ∧
        Happened Pool.step (Inserts c r key) (Pool.new upstreams) as) ∧
    ((∀ c caller, p.callers c = some caller → caller.phase.isOver = true) →
      ∀ key, p.inflight key = none) ∧
    ((∀ c, PoolAction.cancel c ∉ as) → ∀ r r' run run' key, p.runs r = some run →
      p.runs r' = some run' → run.started = true → run'.started = true → run.result = none →
      run'.result = none → QueryKey.fromMessage run.query = some key →
      QueryKey.fromMessage run'.query = some key → r = r') ∧
    ∀ c query result, p.callers c = some ⟨query, .returned result⟩ →
      Refused upstreams query result ∨ ∃ key r, p.Answers query key r result ∧
        Happened Pool.step (Joins c r query key) (Pool.new upstreams) as := by
  obtain ⟨hinv, hhistory⟩ := Pool.run_history hrun
  refine ⟨?_, ?_, ?_, ?_⟩
  · intro a u key r ha hfound hgone
    obtain ⟨c, query, phase, hact, hcaller, hkey, hguard⟩ :=
      Pool.removed_by_guard hinv ha hfound hgone
    obtain ⟨key', hkey', hinserted⟩ := (hhistory.past c query phase hcaller).inserted r hguard
    obtain rfl := Option.some.inj (hkey.symm.trans hkey')
    exact ⟨c, query, phase, hact, hcaller, hguard, hinserted⟩
  · intro hover key
    cases hfound : p.inflight key with
    | none => rfl
    | some r =>
        obtain ⟨c, query, phase, hcaller, -, hguard⟩ := hinv.owned key r hfound
        have hphase := hover c _ hcaller
        cases phase with
        | returned result => cases hguard
        | dropped => cases hguard
        | _ => cases hphase
  · intro hkeep r r' run run' key hr hr' hstarted hstarted' hnone hnone' hkey hkey'
    have hexclusive := Pool.run_exclusive hrun hkeep
    have hfound := hexclusive.running r run key hr hstarted hnone hkey
    have hfound' := hexclusive.running r' run' key hr' hstarted' hnone' hkey'
    exact Option.some.inj (hfound.symm.trans hfound')
  · intro c query result hcaller
    exact (hhistory.past c query _ hcaller).returned result rfl

end

end

def askRoot (id : UInt16) (isResponse : Bool) : Message where
  metadata := ⟨id, isResponse, 0, false, false, true, false, false, false, 0⟩
  queries := [⟨[], typeA, 1⟩]
  answers := []
  authorities := []
  additionals := []
  edns := none

/-- Two callers build a flight; the second one finds the first one's when it looks again. -/
def sharedFlight : List PoolAction :=
  [.call 0 (askRoot 7 false), .call 1 (askRoot 9 false), .look 0, .look 1,
    .build 0 [⟨['u'], .tcp⟩], .build 1 [⟨['u'], .tcp⟩], .insert 1, .insert 0, .poll 0,
    .run 1 .connect, .run 1 (.receive (askRoot 3 true) 0), .run 1 (.receive (askRoot 9 true) 0),
    .resume 1, .resume 0, .leave 1, .leave 0]

theorem singleFlight_sharedFlight :
    ∃ p, runFrom Pool.step (Pool.new [⟨['u'], .tcp⟩]) sharedFlight = some p ∧
      p.callers 0 = some ⟨askRoot 7 false, .returned (.ok ⟨askRoot 7 true, ['u'], 0⟩)⟩ ∧
      ∃ key r, p.Answers (askRoot 7 false) key r (.ok ⟨askRoot 7 true, ['u'], 0⟩) ∧
        Happened Pool.step (Joins 0 r (askRoot 7 false) key) (Pool.new [⟨['u'], .tcp⟩])
          sharedFlight := by
  refine ⟨_, rfl, rfl, ?_⟩
  rcases (@singleFlight_exact _ [⟨['u'], .tcp⟩] sharedFlight rfl).2.2.2 0 (askRoot 7 false) _ rfl
    with hrefused | hanswers
  · rcases hrefused with ⟨hempty, -⟩ | ⟨hnone, -⟩
    · cases hempty
    · cases hnone
  · exact hanswers

end Bulwark.Upstream
