import Mathlib.Tactic.Cases
import Bulwark.Upstream.Pool

/-!
# What a step of the pool can do

Events of the network and of started flights leave the callers and the map alone; each
step of a caller changes its own phase, and one of them inserts into the map.  Replies
that are kept match the query of their flight.
-/

namespace Bulwark.Upstream

open Bulwark.Foundation Bulwark.Dns

/-! ## Flights -/

/-- What a flight has kept of the replies matches its query. -/
structure Run.Sound (run : Run) : Prop where
  fallback : ∀ kept, run.fallback = some kept → matchesQuery run.query kept.message = true
  result : ∀ kept, run.result = some (.ok kept) → matchesQuery run.query kept.message = true

structure Run.Advances (old new : Run) : Prop where
  query : new.query = old.query
  started : new.started = old.started
  result : ∀ res, old.result = some res → new.result = some res
  sound : old.Sound → new.Sound

theorem Run.Advances.refl (run : Run) : run.Advances run :=
  ⟨rfl, rfl, fun _ h => h, fun h => h⟩

theorem Run.Advances.trans {a b c : Run} (hab : a.Advances b) (hbc : b.Advances c) :
    a.Advances c where
  query := hbc.query.trans hab.query
  started := hbc.started.trans hab.started
  result res h := hbc.result res (hab.result res h)
  sound h := hbc.sound (hab.sound h)

theorem Run.advances_attempt (run : Run) (attempt : Attempt) :
    run.Advances { run with attempt := attempt } :=
  ⟨rfl, rfl, fun _ h => h, fun h => ⟨h.fallback, h.result⟩⟩

theorem Run.fallback_of_exhausted {run : Run} {kept : Resolved}
    (h : run.exhausted = .ok kept) : run.fallback = some kept := by
  rw [Run.exhausted] at h
  split at h
  · rename_i hfallback
    cases h
    exact hfallback
  · cases h

theorem Run.advances_settle {run : Run} {outcome : Except UpstreamError Message} {rttMs : ℚ}
    (hnone : run.result = none)
    (hmatch : ∀ msg, outcome = .ok msg → matchesQuery run.query msg = true) :
    run.Advances (run.settle outcome rttMs) := by
  have hresult : ∀ {new : Run} res, run.result = some res → new.result = some res := by
    intro new res h
    rw [hnone] at h
    cases h
  rw [Run.settle]
  split
  · refine ⟨rfl, rfl, hresult, fun h => ⟨h.fallback, fun kept hkept => ?_⟩⟩
    exact h.fallback kept (Run.fallback_of_exhausted (Option.some.inj hkept))
  · rename_i up rest _
    split
    · rename_i resp
      have hresp := hmatch resp rfl
      -- a reply that is kept for later is the one kept so far, or the new one
      have hkeep : run.Sound → ∀ kept, run.fallback.or (some ⟨resp, up.name, rttMs⟩) = some kept →
          matchesQuery run.query kept.message = true := by
        intro h kept hkept
        cases hfallback : run.fallback with
        | some old =>
            rw [hfallback] at hkept
            cases hkept
            exact h.fallback _ hfallback
        | none =>
            rw [hfallback] at hkept
            cases hkept
            exact hresp
      split
      · refine ⟨rfl, rfl, hresult, fun h => ⟨h.fallback, fun kept hkept => ?_⟩⟩
        cases hkept
        exact hresp
      all_goals
        dsimp only
        split
        · refine ⟨rfl, rfl, hresult, fun h => ⟨hkeep h, fun kept hkept => ?_⟩⟩
          exact hkeep h kept (Run.fallback_of_exhausted (Option.some.inj hkept))
        · exact ⟨rfl, rfl, hresult, fun h => ⟨hkeep h, h.result⟩⟩
    · dsimp only
      split
      · refine ⟨rfl, rfl, hresult, fun h => ⟨h.fallback, fun kept hkept => ?_⟩⟩
        have hfallback := Run.fallback_of_exhausted (Option.some.inj hkept)
        exact h.fallback kept hfallback
      · exact ⟨rfl, rfl, hresult, fun h => ⟨h.fallback, h.result⟩⟩

theorem Run.advances_failExchange {run : Run} (hnone : run.result = none) (retry : Bool)
    (e : UpstreamError) : run.Advances (run.failExchange retry e) := by
  rw [Run.failExchange]
  split
  · exact Run.advances_settle hnone (fun _ h => by cases h)
  · exact run.advances_attempt _

theorem Run.advances_accept {run : Run} (hnone : run.result = none) (kind : TransportKind)
    (retry : Bool) (reply : Message) (rttMs : ℚ) :
    run.Advances (run.accept kind retry reply rttMs) := by
  rw [Run.accept]
  cases haccept : acceptReply kind run.query reply with
  | ok msg =>
      dsimp only
      split
      · exact run.advances_attempt _
      · apply Run.advances_settle hnone
        intro msg' h
        cases h
        exact matchesQuery_of_acceptReply haccept
  | error e =>
      dsimp only
      split
      · exact Run.advances_failExchange hnone retry e
      · exact Run.advances_settle hnone (fun _ h => by cases h)

/-! ## Callers -/

theorem callers_setPhase {p : Pool} {c c' : Nat} {query : Message} {phase : Phase}
    {caller : Caller} :
    (p.setPhase c query phase).callers c' = some caller ↔
      (c' = c ∧ caller = ⟨query, phase⟩) ∨ (c' ≠ c ∧ p.callers c' = some caller) :=
  update_eq_some

theorem callers_release {p : Pool} (query : Message) (guard : Bool) :
    (p.release query guard).callers = p.callers := by
  rw [Pool.release.eq_def]
  split <;> rfl

/-! ## Events of the network and of flights -/

/-- Only flights and connections have changed. -/
structure Pool.Drives (p t : Pool) : Prop where
  upstreams : t.upstreams = p.upstreams
  inflight : t.inflight = p.inflight
  callers : t.callers = p.callers
  nextRun : t.nextRun = p.nextRun
  absent : ∀ r, p.runs r = none → t.runs r = none
  runs : ∀ r run, p.runs r = some run → ∃ run', t.runs r = some run' ∧ run.Advances run'

namespace Pool.Drives

variable {p q t : Pool}

theorem back (h : p.Drives t) {r : Nat} {run' : Run} (hrun' : t.runs r = some run') :
    ∃ run, p.runs r = some run ∧ run.Advances run' := by
  cases hrun : p.runs r with
  | none =>
      rw [h.absent r hrun] at hrun'
      cases hrun'
  | some run =>
      obtain ⟨run'', hrun'', hadv⟩ := h.runs r run hrun
      rw [hrun''] at hrun'
      cases hrun'
      exact ⟨run, rfl, hadv⟩

theorem refl (p : Pool) : p.Drives p :=
  ⟨rfl, rfl, rfl, rfl, fun _ h => h, fun _ run h => ⟨run, h, .refl run⟩⟩

theorem trans (hpq : p.Drives q) (hqt : q.Drives t) : p.Drives t where
  upstreams := hqt.upstreams.trans hpq.upstreams
  inflight := hqt.inflight.trans hpq.inflight
  callers := hqt.callers.trans hpq.callers
  nextRun := hqt.nextRun.trans hpq.nextRun
  absent r h := hqt.absent r (hpq.absent r h)
  runs r run h := by
    obtain ⟨run', hrun', hadv⟩ := hpq.runs r run h
    obtain ⟨run'', hrun'', hadv'⟩ := hqt.runs r run' hrun'
    exact ⟨run'', hrun'', hadv.trans hadv'⟩

theorem setConn (h : p.Drives q) (conn : Nat) (cn : Conn) : p.Drives (q.setConn conn cn) :=
  ⟨h.upstreams, h.inflight, h.callers, h.nextRun, h.absent, h.runs⟩

theorem setRun (h : p.Drives q) {r : Nat} {run run' : Run} (hrun : p.runs r = some run)
    (hadv : run.Advances run') : p.Drives (q.setRun r run') where
  upstreams := h.upstreams
  inflight := h.inflight
  callers := h.callers
  nextRun := h.nextRun
  absent r' hnone := by
    change Function.update q.runs r (some run') r' = none
    rw [Function.update_apply]
    split
    · rename_i heq
      rw [heq, hrun] at hnone
      cases hnone
    · exact h.absent r' hnone
  runs r' old hold := by
    change ∃ new, Function.update q.runs r (some run') r' = some new ∧ old.Advances new
    rw [Function.update_apply]
    split
    · rename_i heq
      rw [heq, hrun] at hold
      cases hold
      exact ⟨run', rfl, hadv⟩
    · exact h.runs r' old hold

theorem fill (p : Pool) (r : Nat) (slot : Slot) : p.Drives (p.fill r slot) := by
  rw [Pool.fill]
  split
  · rename_i run hrun
    split
    · exact (refl p).setRun hrun (run.advances_attempt _)
    · exact refl p
  · exact refl p

theorem unregister (p : Pool) (conn : Nat) (id : UInt16) : p.Drives (p.unregister conn id) := by
  rw [Pool.unregister]
  apply setConn
  split
  · exact fill p _ _
  · exact refl p

theorem abandon (p : Pool) (run : Run) : p.Drives (p.abandon run) := by
  rw [Pool.abandon]
  split
  · exact unregister p _ _
  · exact refl p

end Pool.Drives

theorem Pool.drives_runStep {p t : Pool} {r : Nat} {run : Run} {up : UpstreamEntry}
    {event : RunEvent} (hrun : p.runs r = some run) (hnone : run.result = none)
    (h : p.runStep r run up event = some t) : p.Drives t := by
  rw [Pool.runStep.eq_def] at h
  split at h
  · split at h
    · dsimp only at h
      split at h
      · cases h
        exact ((Pool.Drives.refl p).setConn _ _).setRun hrun (Run.advances_failExchange hnone _ _)
      · cases h
        exact (((Pool.Drives.unregister p _ _).setConn _ _).setConn _ _).setRun hrun
          (run.advances_attempt _)
    · cases h
  · split at h
    · cases h
      exact (Pool.Drives.refl p).setRun hrun (run.advances_attempt _)
    · cases h
      exact (Pool.Drives.refl p).setRun hrun (run.advances_attempt _)
    · cases h
      exact (Pool.Drives.refl p).setRun hrun (run.advances_attempt _)
    · cases h
    · cases h
  · cases h
    exact (Pool.Drives.abandon p run).setRun hrun (Run.advances_accept hnone _ _ _ _)
  · cases h
    exact (Pool.Drives.abandon p run).setRun hrun (Run.advances_failExchange hnone _ _)
  · split at h
    · rename_i hmatch
      cases h
      apply (Pool.Drives.refl p).setRun hrun
      apply Run.advances_settle hnone
      intro msg heq
      cases heq
      exact hmatch
    · cases h
      exact .refl p
  · cases h
    exact (Pool.Drives.refl p).setRun hrun (Run.advances_accept hnone _ _ _ _)
  · cases h
    exact (Pool.Drives.abandon p run).setRun hrun (Run.advances_failExchange hnone _ _)
  all_goals
    first
    | cases h
      exact (Pool.Drives.refl p).setRun hrun (Run.advances_settle hnone (fun _ h => by cases h))
    | cases h
      exact (Pool.Drives.abandon p run).setRun hrun
        (Run.advances_settle hnone (fun _ h => by cases h))
    | cases h

/-! ## Steps of callers -/

def Phase.guarded : Phase → Option Nat
  | .waiting r true | .finished r true _ => some r
  | _ => none

def Phase.flight : Phase → Option Nat
  | .built r | .waiting r _ | .finished r _ _ => some r
  | .called | .building | .returned _ | .dropped => none

def Phase.isOver : Phase → Bool
  | .returned _ | .dropped => true
  | _ => false

inductive Pool.Steps (p : Pool) : PoolAction → Pool → Prop where
  | refuse {c : Nat} {query : Message} {e : UpstreamError} (hfree : p.callers c = none)
      (hwhy : p.upstreams = [] ∧ e = .noUpstreams ∨
        QueryKey.fromMessage query = none ∧ e = .proto "query has no question".toList) :
      p.Steps (.call c query) (p.setPhase c query (.returned (.error e)))
  | call {c : Nat} {query : Message} (hfree : p.callers c = none) :
      p.Steps (.call c query) (p.setPhase c query .called)
  | join {c r : Nat} {query : Message} {key : QueryKey}
      (hcaller : p.callers c = some ⟨query, .called⟩)
      (hkey : QueryKey.fromMessage query = some key) (hfound : p.inflight key = some r) :
      p.Steps (.look c) (p.setPhase c query (.waiting r false))
  | miss {c : Nat} {query : Message} (hcaller : p.callers c = some ⟨query, .called⟩) :
      p.Steps (.look c) (p.setPhase c query .building)
  | build {c : Nat} {query : Message} {ordered : List UpstreamEntry}
      (hcaller : p.callers c = some ⟨query, .building⟩) :
      p.Steps (.build c ordered)
        { (p.setRun p.nextRun { query := normalizeUpstreamEdns query, remaining := ordered
            }).setPhase c query (.built p.nextRun) with nextRun := p.nextRun + 1 }
  | joinLate {c r r' : Nat} {query : Message} {key : QueryKey}
      (hcaller : p.callers c = some ⟨query, .built r⟩)
      (hkey : QueryKey.fromMessage query = some key) (hfound : p.inflight key = some r') :
      p.Steps (.insert c) (p.setPhase c query (.waiting r' false))
  | insert {c r : Nat} {query : Message} {key : QueryKey}
      (hcaller : p.callers c = some ⟨query, .built r⟩)
      (hkey : QueryKey.fromMessage query = some key) (hfree : p.inflight key = none) :
      p.Steps (.insert c) { p.setPhase c query (.waiting r true) with
        inflight := Function.update p.inflight key (some r) }
  | poll {c r : Nat} {query : Message} {guard : Bool} {run : Run}
      (hcaller : p.callers c = some ⟨query, .waiting r guard⟩) (hrun : p.runs r = some run) :
      p.Steps (.poll c) (p.setRun r { run with started := true })
  | resume {c r : Nat} {query : Message} {guard : Bool} {run : Run} {result : ResolveResult}
      (hcaller : p.callers c = some ⟨query, .waiting r guard⟩) (hrun : p.runs r = some run)
      (hresult : run.result = some result) :
      p.Steps (.resume c) (p.setPhase c query (.finished r guard result))
  | leave {c r : Nat} {query : Message} {guard : Bool} {result : ResolveResult}
      (hcaller : p.callers c = some ⟨query, .finished r guard result⟩) :
      p.Steps (.leave c)
        ((p.setPhase c query (.returned (withQueryId query result))).release query guard)
  | cancel {c : Nat} {query : Message} {phase : Phase}
      (hcaller : p.callers c = some ⟨query, phase⟩) (hlive : phase.isOver = false) :
      p.Steps (.cancel c)
        ((p.setPhase c query .dropped).release query phase.guarded.isSome)
  | drive {a : PoolAction} {t : Pool}
      (ha : (∃ r event, a = .run r event) ∨ (∃ conn msg, a = .deliver conn msg) ∨
        ∃ conn, a = .close conn)
      (hdrives : p.Drives t) : p.Steps a t

theorem Pool.steps_of_step {p t : Pool} {a : PoolAction} (h : p.step a = some t) :
    p.Steps a t := by
  cases a with
  | call c query =>
      rw [Pool.step] at h
      split at h
      · cases h
      · rename_i hfree
        split at h
        · rename_i hempty
          cases h
          exact .refuse hfree (.inl ⟨hempty, rfl⟩)
        · split at h
          · rename_i hnone
            cases h
            exact .refuse hfree (.inr ⟨hnone, rfl⟩)
          · cases h
            exact .call hfree
  | look c =>
      simp only [Pool.step, Option.bind_eq_bind, Option.bind_eq_some_iff] at h
      obtain ⟨⟨query, phase⟩, hcaller, key, hkey, h⟩ := h
      dsimp only at hkey h
      split at h
      · split at h
        · rename_i r hfound
          cases h
          exact .join hcaller hkey hfound
        · cases h
          exact .miss hcaller
      · cases h
  | build c ordered =>
      simp only [Pool.step, Option.bind_eq_bind, Option.bind_eq_some_iff] at h
      obtain ⟨⟨query, phase⟩, hcaller, h⟩ := h
      dsimp only at h
      split at h
      · split at h
        · cases h
          exact .build hcaller
        · cases h
      · cases h
  | insert c =>
      simp only [Pool.step, Option.bind_eq_bind, Option.bind_eq_some_iff] at h
      obtain ⟨⟨query, phase⟩, hcaller, key, hkey, h⟩ := h
      dsimp only at hkey h
      split at h
      · split at h
        · rename_i r' hfound
          cases h
          exact .joinLate hcaller hkey hfound
        · rename_i hfree
          cases h
          exact .insert hcaller hkey hfree
      · cases h
  | poll c =>
      simp only [Pool.step, Option.bind_eq_bind, Option.bind_eq_some_iff] at h
      obtain ⟨⟨query, phase⟩, hcaller, h⟩ := h
      dsimp only at h
      split at h
      · simp only [Option.bind_eq_some_iff, Option.some.injEq] at h
        obtain ⟨run, hrun, rfl⟩ := h
        exact .poll hcaller hrun
      · cases h
  | resume c =>
      simp only [Pool.step, Option.bind_eq_bind, Option.bind_eq_some_iff] at h
      obtain ⟨⟨query, phase⟩, hcaller, h⟩ := h
      dsimp only at h
      split at h
      · simp only [Option.bind_eq_some_iff, Option.some.injEq] at h
        obtain ⟨run, hrun, result, hresult, rfl⟩ := h
        exact .resume hcaller hrun hresult
      · cases h
  | leave c =>
      simp only [Pool.step, Option.bind_eq_bind, Option.bind_eq_some_iff] at h
      obtain ⟨⟨query, phase⟩, hcaller, h⟩ := h
      dsimp only at h
      split at h
      · cases h
        exact .leave hcaller
      · cases h
  | cancel c =>
      simp only [Pool.step, Option.bind_eq_bind, Option.bind_eq_some_iff] at h
      obtain ⟨⟨query, phase⟩, hcaller, h⟩ := h
      have hcancel := Pool.Steps.cancel hcaller
      cases phase with
      | returned result => cases h
      | dropped => cases h
      | waiting r guard =>
          cases h
          cases guard <;> exact hcancel rfl
      | finished r guard result =>
          cases h
          cases guard <;> exact hcancel rfl
      | called =>
          cases h
          exact hcancel rfl
      | building =>
          cases h
          exact hcancel rfl
      | built r =>
          cases h
          exact hcancel rfl
  | run r event =>
      simp only [Pool.step, Option.bind_eq_bind, Option.bind_eq_some_iff] at h
      obtain ⟨run, hrun, up, -, h⟩ := h
      split at h
      · rename_i hready
        have hnone : run.result = none := by
          simp only [Bool.and_eq_true, Option.isNone_iff_eq_none] at hready
          exact hready.2
        exact .drive (.inl ⟨r, event, rfl⟩) (Pool.drives_runStep hrun hnone h)
      · cases h
  | deliver conn msg =>
      rw [Pool.step] at h
      split at h
      · cases h
        exact .drive (.inr (.inl ⟨conn, msg, rfl⟩))
          ((Pool.Drives.fill p _ _).trans (Pool.Drives.unregister _ _ _))
      · cases h
        exact .drive (.inr (.inl ⟨conn, msg, rfl⟩)) (.refl p)
  | close conn =>
      cases h
      refine .drive (.inr (.inr ⟨conn, rfl⟩)) (Pool.Drives.setConn ?_ _ _)
      refine ⟨rfl, rfl, rfl, rfl, fun r hr => ?_, fun r run hr => ?_⟩
      · change (p.runs r).map _ = none
        rw [hr]
        rfl
      · refine ⟨run.closeOn conn, ?_, ?_⟩
        · change (p.runs r).map _ = _
          rw [hr]
          rfl
        · rw [Run.closeOn]
          split
          · split
            · exact run.advances_attempt _
            · exact .refl run
          · exact .refl run

end Bulwark.Upstream
