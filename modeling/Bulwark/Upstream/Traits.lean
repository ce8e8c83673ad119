import Bulwark.Upstream.Returned

/-!
# Opcode, recursion bit and EDNS data

Neither the key of a query nor the check of a reply looks at its opcode, at the bit that
asks for recursion or at whether it has an EDNS record.  Where all callers of a key agree
on these and upstreams repeat them, what callers return agrees with them too.
-/

namespace Bulwark.Upstream

open Bulwark.Foundation Bulwark.Dns

/-- What a response repeats of its query besides the id and the question. -/
structure Traits where
  opCode : UInt8
  recursionDesired : Bool
  hasEdns : Bool
  deriving DecidableEq, Repr

def traitsOf (msg : Message) : Traits :=
  ⟨msg.metadata.opCode, msg.metadata.recursionDesired, msg.edns.isSome⟩

/-- The opcode and the recursion bit are those asked with; EDNS data is there only if asked with. -/
structure Traits.Fits (asked given : Traits) : Prop where
  opCode : given.opCode = asked.opCode
  recursionDesired : given.recursionDesired = asked.recursionDesired
  hasEdns : given.hasEdns = true → asked.hasEdns = true

theorem Traits.Fits.refl (t : Traits) : t.Fits t := ⟨rfl, rfl, fun h => h⟩

theorem traitsOf_normalizeUpstreamEdns (msg : Message) :
    traitsOf (normalizeUpstreamEdns msg) = traitsOf msg := by
  obtain ⟨hmetadata, -, hedns⟩ := normalizeUpstreamEdns_frame msg
  rw [traitsOf, traitsOf, hmetadata, hedns]

/-! ## Flights -/

/-- What a flight has got so far fits its query. -/
structure Run.Echoes (run : Run) : Prop where
  fallback : ∀ kept, run.fallback = some kept →
    (traitsOf run.query).Fits (traitsOf kept.message)
  result : ∀ kept, run.result = some (.ok kept) →
    (traitsOf run.query).Fits (traitsOf kept.message)
  slot : ∀ conn id msg retry, run.attempt = .exchange conn id (.delivered msg) retry →
    (traitsOf run.query).Fits (traitsOf msg)

namespace Run.Echoes

variable {run : Run}

theorem setAttempt (h : run.Echoes) {attempt : Attempt}
    (hslot : ∀ conn id msg retry, attempt = .exchange conn id (.delivered msg) retry →
      (traitsOf run.query).Fits (traitsOf msg)) :
    Run.Echoes { run with attempt := attempt } :=
  ⟨h.fallback, h.result, hslot⟩

theorem exhausted (h : run.Echoes) {kept : Resolved} (hkept : run.exhausted = .ok kept) :
    (traitsOf run.query).Fits (traitsOf kept.message) :=
  h.fallback kept (Run.fallback_of_exhausted hkept)

theorem giveUp (h : run.Echoes) : Run.Echoes { run with result := some run.exhausted } :=
  ⟨h.fallback, fun _ hkept => h.exhausted (Option.some.inj hkept), h.slot⟩

theorem settle (h : run.Echoes) {outcome : Except UpstreamError Message} {rttMs : ℚ}
    (houtcome : ∀ msg, outcome = .ok msg → (traitsOf run.query).Fits (traitsOf msg)) :
    (run.settle outcome rttMs).Echoes := by
  rw [Run.settle]
  split
  · exact h.giveUp
  · rename_i up rest _
    have hstart : ∀ last : UpstreamError, Run.Echoes
        { run with remaining := rest, attempt := .start false, last := last } :=
      fun last => ⟨h.fallback, h.result, fun _ _ _ _ heq => by cases heq⟩
    split
    · rename_i resp
      have hresp := houtcome resp rfl
      have hkeep : ∀ last : UpstreamError, Run.Echoes
          { run with
            remaining := rest, attempt := .start false
            fallback := run.fallback.or (some ⟨resp, up.name, rttMs⟩), last := last } := by
        refine fun last => ⟨fun kept hkept => ?_, h.result, fun _ _ _ _ heq => by cases heq⟩
        rcases Option.or_eq_some_iff.mp hkept with hold | ⟨-, hnew⟩
        · exact h.fallback kept hold
        · cases hnew
          exact hresp
      split
      · refine ⟨h.fallback, fun kept hkept => ?_, fun _ _ _ _ heq => by cases heq⟩
        cases hkept
        exact hresp
      all_goals
        dsimp only
        split
        · exact (hkeep _).giveUp
        · exact hkeep _
    · dsimp only
      split
      · exact (hstart _).giveUp
      · exact hstart _

theorem failExchange (h : run.Echoes) (retry : Bool) (e : UpstreamError) :
    (run.failExchange retry e).Echoes := by
  rw [Run.failExchange]
  split
  · exact h.settle (fun _ heq => by cases heq)
  · exact h.setAttempt (fun _ _ _ _ heq => by cases heq)

theorem accept (h : run.Echoes) (kind : TransportKind) (retry : Bool) {reply : Message}
    (rttMs : ℚ) (hreply : (traitsOf run.query).Fits (traitsOf reply)) :
    (run.accept kind retry reply rttMs).Echoes := by
  rw [Run.accept]
  cases haccept : acceptReply kind run.query reply with
  | ok msg =>
      have hmsg : (traitsOf run.query).Fits (traitsOf msg) := by
        rw [acceptReply] at haccept
        split at haccept
        · cases haccept
          exact hreply
        · cases haccept
      dsimp only
      split
      · exact h.setAttempt (fun _ _ _ _ heq => by cases heq)
      · refine h.settle fun msg' heq => ?_
        cases heq
        exact hmsg
  | error e =>
      dsimp only
      split
      · exact h.failExchange retry e
      · exact h.settle (fun _ heq => by cases heq)

theorem closeOn (h : run.Echoes) (conn : Nat) : (run.closeOn conn).Echoes := by
  rw [Run.closeOn]
  split
  · split
    · exact h.setAttempt (fun _ _ _ _ heq => by cases heq)
    · exact h
  · exact h

end Run.Echoes

/-! ## Pools -/

def Pool.Echoes (p : Pool) : Prop := ∀ r run, p.runs r = some run → run.Echoes

/-- A message that arrives repeats the traits of the query it is taken for. -/
def Pool.Echoed (p : Pool) : PoolAction → Prop
  | .deliver conn msg => ∀ r run, (p.conns conn).pending msg.metadata.id = some r →
      p.runs r = some run → (traitsOf run.query).Fits (traitsOf msg)
  | .run r (.receive msg _) => ∀ run, p.runs r = some run →
      (traitsOf run.query).Fits (traitsOf msg)
  | _ => True

namespace Pool.Echoes

variable {p q : Pool}

theorem setRun (h : p.Echoes) {run : Run} (hrun : run.Echoes) (r : Nat) :
    (p.setRun r run).Echoes := by
  intro r' run' hrun'
  rcases update_eq_some.mp hrun' with ⟨-, rfl⟩ | ⟨-, hrun'⟩
  · exact hrun
  · exact h r' run' hrun'

theorem of_runs (h : p.Echoes) (hruns : q.runs = p.runs) : q.Echoes := by
  intro r run hrun
  rw [hruns] at hrun
  exact h r run hrun

theorem fill (h : p.Echoes) {r : Nat} {slot : Slot}
    (hslot : ∀ run msg, p.runs r = some run → slot = .delivered msg →
      (traitsOf run.query).Fits (traitsOf msg)) : (p.fill r slot).Echoes := by
  rw [Pool.fill]
  split
  · rename_i run hrun
    split
    · refine h.setRun ((h r run hrun).setAttempt fun _ _ msg _ heq => ?_) r
      exact hslot run msg hrun (by cases heq; rfl)
    · exact h
  · exact h

theorem unregister (h : p.Echoes) (conn : Nat) (id : UInt16) : (p.unregister conn id).Echoes := by
  rw [Pool.unregister]
  split
  · exact (h.fill fun _ _ _ heq => by cases heq).of_runs rfl
  · exact h.of_runs rfl

theorem abandon (h : p.Echoes) (run : Run) : (p.abandon run).Echoes := by
  rw [Pool.abandon]
  split
  · exact h.unregister _ _
  · exact h

theorem runStep (h : p.Echoes) {r : Nat} {run : Run} {up : UpstreamEntry} {event : RunEvent}
    (hrun : p.runs r = some run) (hecho : p.Echoed (.run r event))
    (hstep : p.runStep r run up event = some q) : q.Echoes := by
  have hold := h r run hrun
  have hopen : ∀ attempt, (∀ conn id msg retry,
      attempt ≠ .exchange conn id (.delivered msg) retry) →
      Run.Echoes { run with attempt := attempt } :=
    fun attempt hne => hold.setAttempt fun _ _ _ _ heq => (hne _ _ _ _ heq).elim
  have hfail : ∀ e, (run.settle (.error e) 0).Echoes :=
    fun e => hold.settle fun _ heq => by cases heq
  rw [Pool.runStep.eq_def] at hstep
  split at hstep
  · split at hstep
    · dsimp only at hstep
      split at hstep
      · cases hstep
        exact Pool.Echoes.setRun (h.of_runs rfl) (hold.failExchange _ _) r
      · cases hstep
        exact Pool.Echoes.setRun ((h.unregister _ _).of_runs rfl)
          (hopen _ fun _ _ _ _ heq => by cases heq) r
    · cases hstep
  · split at hstep
    · cases hstep
      exact h.setRun (hopen _ fun _ _ _ _ heq => by cases heq) r
    · cases hstep
      exact h.setRun (hopen _ fun _ _ _ _ heq => by cases heq) r
    · cases hstep
      exact h.setRun (hopen _ fun _ _ _ _ heq => by cases heq) r
    · cases hstep
    · cases hstep
  · rename_i rttMs conn id msg retry hattempt
    cases hstep
    exact (h.abandon run).setRun (hold.accept _ _ _ (hold.slot _ _ _ _ hattempt)) r
  · cases hstep
    exact (h.abandon run).setRun (hold.failExchange _ _) r
  · split at hstep
    · cases hstep
      refine h.setRun (hold.settle fun msg heq => ?_) r
      cases heq
      exact hecho run hrun
    · cases hstep
      exact h
  · cases hstep
    exact h.setRun (hold.accept _ _ _ (hecho run hrun)) r
  · cases hstep
    exact (h.abandon run).setRun (hold.failExchange _ _) r
  · cases hstep
    exact h.setRun (hfail _) r
  · cases hstep
    exact h.setRun (hfail _) r
  · cases hstep
    exact h.setRun (hfail _) r
  · cases hstep
    exact (h.abandon run).setRun (hfail _) r
  · cases hstep

theorem step (h : p.Echoes) {a : PoolAction} (hecho : p.Echoed a) (hstep : p.step a = some q) :
    q.Echoes := by
  cases Pool.steps_of_step hstep with
  | refuse hfree hwhy => exact h.of_runs rfl
  | call hfree => exact h.of_runs rfl
  | join hcaller hkey hfound => exact h.of_runs rfl
  | miss hcaller => exact h.of_runs rfl
  | build hcaller =>
      refine (h.setRun ?_ p.nextRun).of_runs rfl
      refine ⟨fun _ heq => ?_, fun _ heq => ?_, fun _ _ _ _ heq => ?_⟩ <;> cases heq
  | joinLate hcaller hkey hfound => exact h.of_runs rfl
  | insert hcaller hkey hfree => exact h.of_runs rfl
  | poll hcaller hrun =>
      rename_i c r query guard run
      have hold := h r run hrun
      have hstarted : Run.Echoes { run with started := true } :=
        ⟨hold.fallback, hold.result, hold.slot⟩
      exact h.setRun hstarted r
  | resume hcaller hrun hresult => exact h.of_runs rfl
  | leave hcaller => exact h.of_runs (runs_release _ _).1
  | cancel hcaller hlive => exact h.of_runs (runs_release _ _).1
  | drive ha hdrives =>
      rcases ha with ⟨r, event, rfl⟩ | ⟨conn, msg, rfl⟩ | ⟨conn, rfl⟩
      · simp only [Pool.step, Option.bind_eq_bind, Option.bind_eq_some_iff] at hstep
        obtain ⟨run, hrun, up, -, hstep⟩ := hstep
        split at hstep
        · exact h.runStep hrun hecho hstep
        · cases hstep
      · rw [Pool.step] at hstep
        split at hstep
        · rename_i r hpending
          cases hstep
          refine (h.fill fun run msg' hrun heq => ?_).unregister _ _
          cases heq
          exact hecho r run hpending hrun
        · cases hstep
          exact h
      · cases hstep
        intro r run hrun
        obtain ⟨old, hold, rfl⟩ := Option.map_eq_some_iff.mp hrun
        exact (h r old hold).closeOn conn

end Pool.Echoes

/-! ## Callers that agree -/

section

variable (T : QueryKey → Traits)

def HasTraits (query : Message) : Prop :=
  ∀ key, QueryKey.fromMessage query = some key → traitsOf query = T key

def FitsKey (key : QueryKey) (msg : Message) : Prop := (T key).Fits (traitsOf msg)

/-- All queries have the traits of their key, and what was found and returned fits it. -/
structure Pool.Agrees (p : Pool) : Prop where
  inv : p.Inv
  echoes : p.Echoes
  callers : ∀ c caller, p.callers c = some caller → HasTraits T caller.query
  runs : ∀ r run, p.runs r = some run → HasTraits T run.query
  returns : p.Returns (FitsKey T)

end

variable {T : QueryKey → Traits} {p q : Pool}

theorem HasTraits.normalize {query : Message} (h : HasTraits T query) :
    HasTraits T (normalizeUpstreamEdns query) := by
  intro key hkey
  rw [fromMessage_normalizeUpstreamEdns] at hkey
  rw [traitsOf_normalizeUpstreamEdns]
  exact h key hkey

theorem Pool.agrees_new (upstreams : List UpstreamEntry) : (Pool.new upstreams).Agrees T where
  inv := Pool.inv_new upstreams
  echoes _ _ h := by cases h
  callers _ _ h := by cases h
  runs _ _ h := by cases h
  returns _ _ _ _ h := by cases h

theorem Pool.Agrees.finds (h : p.Agrees T) : p.Finds (FitsKey T) := by
  intro r run resolved key hrun hresult hkey id
  have hfits := (h.echoes r run hrun).result resolved hresult
  rw [h.runs r run hrun key hkey] at hfits
  exact hfits

theorem query_of_steps {a : PoolAction} (h : p.Steps a q) {c : Nat} {caller : Caller}
    (hcaller : q.callers c = some caller) :
    a = .call c caller.query ∨ ∃ old, p.callers c = some old ∧ old.query = caller.query := by
  have hset : ∀ {c' query phase}, (p.setPhase c' query phase).callers c = some caller →
      (∃ old, p.callers c' = some ⟨query, old⟩) →
      ∃ old, p.callers c = some old ∧ old.query = caller.query := by
    rintro c' query phase hq ⟨old, hold⟩
    rcases callers_setPhase.mp hq with ⟨rfl, rfl⟩ | ⟨-, hq⟩
    · exact ⟨_, hold, rfl⟩
    · exact ⟨caller, hq, rfl⟩
  have hnew : ∀ {c' query phase}, (p.setPhase c' query phase).callers c = some caller →
      PoolAction.call c' query = .call c caller.query ∨
        ∃ old, p.callers c = some old ∧ old.query = caller.query := by
    intro c' query phase hq
    rcases callers_setPhase.mp hq with ⟨rfl, rfl⟩ | ⟨-, hq⟩
    · exact .inl rfl
    · exact .inr ⟨caller, hq, rfl⟩
  cases h with
  | refuse hfree hwhy => exact hnew hcaller
  | call hfree => exact hnew hcaller
  | join hc hkey hfound => exact .inr (hset hcaller ⟨_, hc⟩)
  | miss hc => exact .inr (hset hcaller ⟨_, hc⟩)
  | build hc =>
      rename_i c' query ordered
      have hq : (p.setPhase c' query (.built p.nextRun)).callers c = some caller := hcaller
      exact .inr (hset hq ⟨_, hc⟩)
  | joinLate hc hkey hfound => exact .inr (hset hcaller ⟨_, hc⟩)
  | insert hc hkey hfree =>
      rename_i c' r query key
      have hq : (p.setPhase c' query (.waiting r true)).callers c = some caller := hcaller
      exact .inr (hset hq ⟨_, hc⟩)
  | poll hc hrun => exact .inr ⟨caller, hcaller, rfl⟩
  | resume hc hrun hresult => exact .inr (hset hcaller ⟨_, hc⟩)
  | leave hc =>
      rw [callers_release] at hcaller
      exact .inr (hset hcaller ⟨_, hc⟩)
  | cancel hc hlive =>
      rw [callers_release] at hcaller
      exact .inr (hset hcaller ⟨_, hc⟩)
  | drive ha hdrives =>
      rw [hdrives.callers] at hcaller
      exact .inr ⟨caller, hcaller, rfl⟩

theorem flight_of_steps {a : PoolAction} (h : p.Steps a q) {r : Nat} {run : Run}
    (hrun : q.runs r = some run) :
    (∃ old, p.runs r = some old ∧ old.query = run.query) ∨
      ∃ c caller, p.callers c = some caller ∧ run.query = normalizeUpstreamEdns caller.query := by
  have hsame : q.runs = p.runs → ∃ old, p.runs r = some old ∧ old.query = run.query := by
    intro heq
    rw [heq] at hrun
    exact ⟨run, hrun, rfl⟩
  cases h with
  | refuse hfree hwhy => exact .inl (hsame rfl)
  | call hfree => exact .inl (hsame rfl)
  | join hc hkey hfound => exact .inl (hsame rfl)
  | miss hc => exact .inl (hsame rfl)
  | build hc =>
      rename_i c query ordered
      rcases update_eq_some.mp hrun with ⟨-, rfl⟩ | ⟨-, hrun⟩
      · exact .inr ⟨c, _, hc, rfl⟩
      · exact .inl ⟨run, hrun, rfl⟩
  | joinLate hc hkey hfound => exact .inl (hsame rfl)
  | insert hc hkey hfree => exact .inl (hsame rfl)
  | poll hc hold =>
      rename_i c r' query guard old
      rcases update_eq_some.mp hrun with ⟨rfl, rfl⟩ | ⟨-, hrun⟩
      · exact .inl ⟨old, hold, rfl⟩
      · exact .inl ⟨run, hrun, rfl⟩
  | resume hc hrun hresult => exact .inl (hsame rfl)
  | leave hc => exact .inl (hsame (runs_release _ _).1)
  | cancel hc hlive => exact .inl (hsame (runs_release _ _).1)
  | drive ha hdrives =>
      obtain ⟨old, hold, hadvances⟩ := hdrives.back hrun
      exact .inl ⟨old, hold, hadvances.query.symm⟩

theorem Pool.Agrees.step (h : p.Agrees T) {a : PoolAction} (hecho : p.Echoed a)
    (hcall : ∀ c query, a = .call c query → HasTraits T query) (hstep : p.step a = some q) :
    q.Agrees T := by
  have hsteps := Pool.steps_of_step hstep
  refine ⟨h.inv.step hsteps, h.echoes.step hecho hstep, fun c caller hcaller => ?_,
    fun r run hrun => ?_, h.returns.step h.inv h.finds hsteps⟩
  · rcases query_of_steps hsteps hcaller with hnew | ⟨old, hold, hquery⟩
    · exact hcall c caller.query hnew
    · rw [← hquery]
      exact h.callers c old hold
  · rcases flight_of_steps hsteps hrun with ⟨old, hold, hquery⟩ | ⟨c, caller, hcaller, hquery⟩
    · rw [← hquery]
      exact h.runs r old hold
    · rw [hquery]
      exact (h.callers c caller hcaller).normalize

end Bulwark.Upstream
