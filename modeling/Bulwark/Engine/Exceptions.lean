import Bulwark.Engine.HandleSteps

/-!
# Exceptions and the response filter

An `@@` exception lets the name of a query through.  The answers are checked all the same:
where a rule blocks one of their names or addresses, an excepted query is answered by a
block, and the log has the block as allowed.
-/

namespace Bulwark.Engine

open Bulwark.Foundation Bulwark.Dns Bulwark.Filter Bulwark.Upstream

section

variable {env : EngineEnv}

/-- The name of the query is allowed by an explicit exception. -/
def Call.Excepted (call : Call env.rx) : Prop :=
  ∃ fields lazy info, call.ingress.intoParts = .ok (fields, lazy) ∧
    call.verdict fields = some (.allow (some info))

def QueryAction.isBlock : QueryAction → Bool
  | .blocked _ _ => true
  | _ => false

/-- What is logged as a block is not allowed and is counted as blocked. -/
def LogRecord.Consistent (record : LogRecord) : Prop :=
  ∀ timeMs elapsedMs logOn, (record.entry timeMs elapsedMs logOn).action.isBlock = true →
    (record.entry timeMs elapsedMs logOn).allowlisted = false ∧
      (record.entry timeMs elapsedMs logOn).isBlocked = true

/-- An excepted query is not answered by a block, and the log says what happened. -/
structure Call.Unblocked (call : Call env.rx) (reply : Reply) : Prop where
  kept : call.Excepted → ∀ action, reply.action = some action → action.isBlock = false
  logged : ∀ record, reply.record = some record → record.Consistent

/-- The response filter lets the answers through that are about to be returned. -/
def World.AnswersPass (w : World env) (t : Nat) (call : Call env.rx) : Prop :=
  match w.tasks t with
  | some (.loaded _) => ∀ fields lazy hit cache, call.ingress.intoParts = .ok (fields, lazy) →
      lazy.intoMessage.isSome = true → w.cache.get w.now fields.key fields.id = (some hit, cache) →
      call.hitBlock hit = some none
  | some (.forwarding _ _ _ _) => ∀ resolved, w.returned call.state.pool t = some (.ok resolved) →
      call.thisBlock resolved.message.answers = some none
  | _ => True

/-! ## Logs -/

theorem consistent_of_not_block {record : LogRecord} (h : record.action.isBlock = false) :
    record.Consistent := by
  intro timeMs elapsedMs logOn hblock
  change record.action.isBlock = true at hblock
  rw [h] at hblock
  cases hblock

theorem consistent_iff {record : LogRecord} (h : record.action.isBlock = true) :
    record.Consistent ↔ record.log.allowlisted = false := by
  constructor
  · intro hrecord
    exact (hrecord 0 0 false h).1
  · intro hlog timeMs elapsedMs logOn _
    refine ⟨hlog, ?_⟩
    rw [QueryLogEntry.isBlocked]
    change (match record.action with
      | .blocked _ _ => !record.log.allowlisted
      | _ => false) = true
    cases haction : record.action <;> first
      | rw [hlog]; rfl
      | rw [haction] at h; cases h

theorem Call.unblocked_of_not_block {call : Call env.rx} {reply : Reply}
    (h : ∀ action, reply.action = some action → action.isBlock = false) : call.Unblocked reply where
  kept _ := h
  logged record hrecord := consistent_of_not_block (h _ (by rw [Reply.action, hrecord]; rfl))

/-- A block is in order exactly where the query is not excepted. -/
theorem Call.unblocked_block_iff {call : Call env.rx} {query : Message} {info : MatchInfo}
    {log : LogBuilder} (hlog : log.allowlisted = true → call.Excepted) :
    call.Unblocked (finalize env (call.state.block query) (.blocked info.rule info.listId) log) ↔
      ¬ call.Excepted := by
  constructor
  · intro h hexcepted
    cases h.kept hexcepted _ rfl
  · intro hnot
    refine ⟨fun hexcepted => absurd hexcepted hnot, fun record hrecord => ?_⟩
    cases hrecord
    refine (consistent_iff rfl).mpr ?_
    cases hallow : log.allowlisted with
    | false => rfl
    | true => exact absurd (hlog hallow) hnot

/-! ## Tasks on their way -/

theorem Call.excepted_of_lookup {call : Call env.rx} {fields : QueryFields} {lazy : Lazy}
    {log : LogBuilder} (h : call.begin = some (.lookup fields lazy log))
    (hallow : log.allowlisted = true) : call.Excepted := by
  cases Call.begins_of_begin h with
  | unfiltered hparts hoff => cases hallow
  | allowed hparts hon hverdict =>
      rename_i rule
      obtain ⟨info, hinfo⟩ := Option.isSome_iff_exists.mp hallow
      subst hinfo
      exact ⟨fields, lazy, info, hparts, hverdict⟩

/-- A task that waits has its log from the start of the call, and a rewrite is no block. -/
def Task.Begun : Task env → Prop
  | .rewriting _ _ action _ => action.isBlock = false
  | .forwarding call fields _ log => ∃ lazy, call.begin = some (.lookup fields lazy log)
  | _ => True

def World.Begun (w : World env) : Prop := ∀ t task, w.tasks t = some task → task.Begun

theorem World.Begun.setTask {w w' : World env} (h : w.Begun) (hsame : w'.tasks = w.tasks) {t : Nat}
    {task : Task env} (htask : task.Begun) : (w'.setTask t task).Begun := by
  intro t' task' hother
  rcases World.tasks_setTask.mp hother with ⟨-, rfl⟩ | ⟨-, hother⟩
  · exact htask
  · rw [hsame] at hother
    exact h t' task' hother

theorem World.Begun.step {w v : World env} {a : EngineAction env.rx} (h : w.Begun)
    (hstep : w.Steps a v) : v.Begun := by
  cases hstep with
  | load hfree hparse => exact h.setTask rfl trivial
  | reply htask hbegin => exact h.setTask rfl trivial
  | rewrite htask hbegin hcall =>
      refine h.setTask rfl ?_
      cases Call.begins_of_begin hbegin with
      | resolveCname hparts hquery hverdict hrewrite => rfl
  | hit htask hbegin hget hhit => exact h.setTask rfl trivial
  | hitStale htask hbegin hget hhit hother hfree =>
      rename_i t u id call fields lazy log hit cache reply refresh
      have hreplied := @World.Begun.setTask _ _ (w.setCache cache) h rfl t (.replied call reply)
        trivial
      exact hreplied.setTask rfl trivial
  | undecodable htask hbegin hget hnone => exact h.setTask rfl trivial
  | forward htask hbegin hget hquery hcall => exact h.setTask rfl ⟨_, hbegin⟩
  | rewritten htask hresult => exact h.setTask rfl trivial
  | answered htask hresult hreply => exact h.setTask rfl trivial
  | refreshed htask hresult hfinish => exact h.setTask rfl trivial
  | abandon htask => exact h.setTask rfl trivial
  | refresh htask hquery hcall => exact h.setTask rfl trivial
  | pool hcall hstep => exact h
  | swapState state => exact h
  | tick nanos => exact h
  | shrink hkept => exact h
  | importSnapshot unix data => exact h

/-! ## When an exception unblocks -/

theorem Call.verdict_of_excepted {call : Call env.rx} {fields : QueryFields} {lazy : Lazy}
    (hparts : call.ingress.intoParts = .ok (fields, lazy)) (h : call.Excepted) :
    ∃ info, call.verdict fields = some (.allow (some info)) := by
  obtain ⟨fields', lazy', info, hparts', hallow⟩ := h
  rw [hparts] at hparts'
  cases hparts'
  exact ⟨info, hallow⟩

/-- Whoever gets a reply without a lookup gets the right one, excepted or not. -/
theorem Call.unblocked_begin {call : Call env.rx} {reply : Reply}
    (h : call.begin = some (.reply reply)) :
    call.Unblocked reply ∧ (call.Excepted → ∃ fields lazy,
      call.ingress.intoParts = .ok (fields, lazy) ∧ lazy.intoMessage = none) := by
  cases Call.begins_of_begin h with
  | refused hparts =>
      refine ⟨Call.unblocked_of_not_block (by rintro _ ⟨⟩), fun hexcepted => ?_⟩
      obtain ⟨fields, lazy, info, hparts', -⟩ := hexcepted
      rw [hparts] at hparts'
      cases hparts'
  | undecodable hparts hnone =>
      exact ⟨Call.unblocked_of_not_block (by rintro _ ⟨⟩; rfl), fun _ => ⟨_, _, hparts, hnone⟩⟩
  | blocked hparts hquery hverdict =>
      have hnot : ¬ call.Excepted := by
        intro hexcepted
        obtain ⟨info, hallow⟩ := Call.verdict_of_excepted hparts hexcepted
        rw [hverdict] at hallow
        cases hallow
      exact ⟨(Call.unblocked_block_iff (by rintro ⟨⟩)).mpr hnot,
        fun hexcepted => absurd hexcepted hnot⟩
  | rewritten hparts hquery hverdict hrewrite =>
      refine ⟨Call.unblocked_of_not_block (by rintro _ ⟨⟩; rfl), fun hexcepted => ?_⟩
      obtain ⟨info, hallow⟩ := Call.verdict_of_excepted hparts hexcepted
      rw [hverdict] at hallow
      cases hallow

/-- The reply to a hit is in order exactly where an excepted query's answers pass. -/
theorem Call.unblocked_hit_iff {call : Call env.rx} {fields : QueryFields} {lazy : Lazy}
    {log : LogBuilder} {hit : CacheHit} {reply : Reply} {refresh : Option (Refresh env.rx)}
    (hbegin : call.begin = some (.lookup fields lazy log))
    (hhit : call.onHit fields lazy log hit = some (reply, refresh)) :
    call.Unblocked reply ↔
      (call.Excepted → lazy.intoMessage.isSome = true → call.hitBlock hit = some none) := by
  cases Call.hits_of_onHit hhit with
  | undecodable hblock hnone =>
      rw [hnone]
      refine iff_of_true (Call.unblocked_of_not_block ?_) (fun _ hsome => by cases hsome)
      rintro _ ⟨⟩
      rfl
  | blocked hblock hquery hrefresh =>
      rw [Call.unblocked_block_iff (Call.excepted_of_lookup hbegin), hblock, hquery]
      constructor
      · intro hnot hexcepted
        exact absurd hexcepted hnot
      · intro h hexcepted
        cases h hexcepted rfl
  | served hclean hrefresh =>
      refine iff_of_true (Call.unblocked_of_not_block ?_) (fun _ _ => hclean)
      intro action haction
      cases hresponse : hit.response with
      | wire bytes rcode answers =>
          rw [hresponse] at haction
          cases haction
          rfl
      | message msg =>
          rw [hresponse] at haction
          cases haction
          rfl

theorem Call.unblocked_resolved_iff {call : Call env.rx} {fields : QueryFields} {lazy : Lazy}
    {log : LogBuilder} {query : Message} {result : ResolveResult} {now : Nat}
    {cache cache' : DnsCache} {reply : Reply}
    (hbegin : call.begin = some (.lookup fields lazy log))
    (hreply : call.onResolved fields.key query log result now cache = some (reply, cache')) :
    call.Unblocked reply ↔ (call.Excepted → ∀ resolved, result = .ok resolved →
      call.thisBlock resolved.message.answers = some none) := by
  cases Call.resolves_of_onResolved hreply with
  | failed e =>
      refine iff_of_true (Call.unblocked_of_not_block ?_) (fun _ _ h => by cases h)
      rintro _ ⟨⟩
      rfl
  | blocked hfiltering hblock hverdict =>
      rename_i resolved info verdict
      have hlog : { log with upstreamRttMs := some resolved.rttMs }.allowlisted = true →
          call.Excepted := fun hallow => Call.excepted_of_lookup hbegin hallow
      rw [Call.unblocked_block_iff hlog]
      constructor
      · intro hnot hexcepted
        exact absurd hexcepted hnot
      · intro h hexcepted
        have hpass := h hexcepted resolved rfl
        rw [Call.thisBlock, if_pos hfiltering, hblock] at hpass
        cases hpass
  | forwarded hclean hverdict =>
      rename_i resolved verdict
      refine iff_of_true (Call.unblocked_of_not_block ?_) ?_
      · intro action haction
        rw [forwardReply.eq_def] at haction
        split at haction <;> (cases haction; rfl)
      · rintro _ _ ⟨⟩
        rw [Call.thisBlock]
        split
        · exact hclean ‹_›
        · rfl

theorem answersPass_hit_iff {w : World env} {t : Nat} {call : Call env.rx} {fields : QueryFields}
    {lazy : Lazy} {log : LogBuilder} {hit : CacheHit} {cache : DnsCache}
    (htask : w.tasks t = some (.loaded call)) (hbegin : call.begin = some (.lookup fields lazy log))
    (hget : w.cache.get w.now fields.key fields.id = (some hit, cache)) :
    w.AnswersPass t call ↔ (lazy.intoMessage.isSome = true → call.hitBlock hit = some none) := by
  rw [World.AnswersPass, htask]
  have hparts := Call.parts_of_lookup hbegin
  constructor
  · intro h hsome
    exact h fields lazy hit cache hparts hsome hget
  · intro h fields' lazy' hit' cache' hparts' hsome hget'
    rw [hparts] at hparts'
    cases hparts'
    rw [hget] at hget'
    cases hget'
    exact h hsome

/--
In every run, a query is answered as its exception promises, and logged so, exactly where
the response filter lets the answers through that an excepted query is about to get.
-/
theorem unblocked_iff_answersPass {state : EngineState env.rx} {cache : DnsCache}
    {upstreams : Nat → List UpstreamEntry} {as : List (EngineAction env.rx)} {w v : World env}
    (hrun : runFrom World.step (World.new state cache upstreams) as = some w)
    {a : EngineAction env.rx} (hstep : w.step a = some v) {t : Nat} {call : Call env.rx}
    {reply : Reply} (hopen : w.tasks t ≠ some (.replied call reply))
    (hreplied : v.tasks t = some (.replied call reply)) :
    call.Unblocked reply ↔ (call.Excepted → w.AnswersPass t call) := by
  have hbegun : w.Begun := by
    refine @runFrom_invariant _ _ _ (fun _ _ => True) _ _ _ _ ?_ ?_ (eachStep_trivial _ as) hrun
    · exact fun t a u _ ha hbegun => hbegun.step (World.steps_of_step ha)
    · exact fun t task htask => by cases htask
  -- the task that replies in this step is the one the step is about
  have hmoved : ∀ {w' : World env} {t' : Nat} {task : Task env}, w'.tasks = w.tasks →
      (w'.setTask t' task).tasks t = some (.replied call reply) →
      t = t' ∧ .replied call reply = task := by
    intro w' t' task hsame h
    rcases World.tasks_setTask.mp h with hnew | ⟨-, hold⟩
    · exact hnew
    · rw [hsame] at hold
      exact absurd hold hopen
  cases World.steps_of_step hstep with
  | load hfree hparse => cases (hmoved rfl hreplied).2
  | reply htask hbegin =>
      obtain ⟨rfl, hnew⟩ := hmoved rfl hreplied
      cases hnew
      obtain ⟨hunblocked, hundecodable⟩ := Call.unblocked_begin hbegin
      refine iff_of_true hunblocked fun hexcepted => ?_
      obtain ⟨fields, lazy, hparts, hnone⟩ := hundecodable hexcepted
      rw [World.AnswersPass, htask]
      intro fields' lazy' hit cache' hparts' hsome
      rw [hparts] at hparts'
      cases hparts'
      rw [hnone] at hsome
      cases hsome
  | rewrite htask hbegin hcall => cases (hmoved rfl hreplied).2
  | hit htask hbegin hget hhit =>
      obtain ⟨rfl, hnew⟩ := hmoved rfl hreplied
      cases hnew
      rw [Call.unblocked_hit_iff hbegin hhit, answersPass_hit_iff htask hbegin hget]
  | hitStale htask hbegin hget hhit hother hfree =>
      rename_i t' u id call' fields lazy log hit cache' reply' refresh
      rcases World.tasks_setTask.mp hreplied with ⟨-, heq⟩ | ⟨-, hreplied⟩
      · cases heq
      · obtain ⟨rfl, hnew⟩ := hmoved rfl hreplied
        cases hnew
        rw [Call.unblocked_hit_iff hbegin hhit, answersPass_hit_iff htask hbegin hget]
  | undecodable htask hbegin hget hnone =>
      obtain ⟨rfl, hnew⟩ := hmoved rfl hreplied
      cases hnew
      refine iff_of_true (Call.unblocked_of_not_block (by rintro _ ⟨⟩; rfl)) fun _ => ?_
      rw [World.AnswersPass, htask]
      intro fields' lazy' hit cache' hparts' _ hget'
      rw [Call.parts_of_lookup hbegin] at hparts'
      cases hparts'
      rw [hget] at hget'
      cases hget'
  | forward htask hbegin hget hquery hcall => cases (hmoved rfl hreplied).2
  | rewritten htask hresult =>
      obtain ⟨rfl, hnew⟩ := hmoved rfl hreplied
      cases hnew
      have hkind := hbegun _ _ htask
      refine iff_of_true (Call.unblocked_of_not_block ?_) fun _ => ?_
      · rintro _ ⟨⟩
        exact hkind
      · rw [World.AnswersPass, htask]
        trivial
  | answered htask hresult hreply =>
      obtain ⟨rfl, hnew⟩ := hmoved rfl hreplied
      cases hnew
      obtain ⟨lazy, hbegin⟩ := hbegun _ _ htask
      rw [Call.unblocked_resolved_iff hbegin hreply, World.AnswersPass, htask]
      simp only [hresult, Option.some.injEq]
  | refreshed htask hresult hfinish => cases (hmoved rfl hreplied).2
  | abandon htask => cases (hmoved rfl hreplied).2
  | refresh htask hquery hcall => cases (hmoved rfl hreplied).2
  | pool hcall hstep => exact absurd hreplied hopen
  | swapState state => exact absurd hreplied hopen
  | tick nanos => exact absurd hreplied hopen
  | shrink hkept => exact absurd hreplied hopen
  | importSnapshot unix data => exact absurd hreplied hopen

end

def exceptionFilter : LiveFilter demoEnv.rx :=
  ⟨(compile (plainEnv List.length) referenceExternal
    (customList "@@||a^\n||1.2.3.4^".toList)).get (by decide +kernel), _, _,
    (Option.some_get _).symm⟩

def isForwarding (w : World demoEnv) (t : Nat) : Bool :=
  match w.tasks t with
  | some (.forwarding _ _ _ _) => true
  | _ => false

def isReplied (w : World demoEnv) (t : Nat) : Bool :=
  match w.tasks t with
  | some (.replied _ _) => true
  | _ => false

theorem unblocked_iff_demo :
    ∃ w v call reply, runFrom World.step (World.new (demoState exceptionFilter) demoCache
        demoUpstreams) (resolveDemo 0 5 0 (demoQuery 7) demoAnswer).dropLast = some w ∧
      w.step (.resume 0) = some v ∧ v.tasks 0 = some (.replied call reply) ∧
      (call.Unblocked reply ↔ (call.Excepted → w.AnswersPass 0 call)) := by
  have hsome : ((runFrom World.step (World.new (demoState exceptionFilter) demoCache
      demoUpstreams) (resolveDemo 0 5 0 (demoQuery 7) demoAnswer).dropLast).any fun w =>
        isForwarding w 0 && (w.step (.resume 0)).any fun v => isReplied v 0) = true := by
    decide +kernel
  obtain ⟨w, hrun, hw⟩ := (Option.any_eq_true _ _).mp hsome
  obtain ⟨hforwarding, hw⟩ := Bool.and_eq_true_iff.mp hw
  obtain ⟨v, hstep, hv⟩ := (Option.any_eq_true _ _).mp hw
  rw [isReplied] at hv
  split at hv
  · rename_i call reply hreplied
    refine ⟨w, v, call, reply, hrun, hstep, hreplied,
      unblocked_iff_answersPass hrun hstep (fun hopen => ?_) hreplied⟩
    rw [isForwarding, hopen] at hforwarding
    cases hforwarding
  · cases hv

/-- Task `t` is an excepted query that has been answered by a block. -/
def blockedException (w : World demoEnv) (t : Nat) : Bool :=
  match w.tasks t with
  | some (.replied call reply) =>
      (reply.action.any QueryAction.isBlock) &&
        match call.ingress.intoParts with
        | .ok (fields, _) =>
            (call.verdict fields).any fun
              | .allow rule => rule.isSome
              | _ => false
        | .error _ => false
  | _ => false

theorem not_unblocked_of_blockedException {w : World demoEnv} {t : Nat}
    (h : blockedException w t = true) :
    ∃ call reply, w.tasks t = some (.replied call reply) ∧ ¬ call.Unblocked reply := by
  rw [blockedException] at h
  split at h
  · rename_i call reply htask
    rw [Bool.and_eq_true] at h
    obtain ⟨hblock, h⟩ := h
    refine ⟨call, reply, htask, fun hunblocked => ?_⟩
    split at h
    · rename_i fields lazy hparts
      obtain ⟨verdict, hverdict, hallow⟩ := (Option.any_eq_true _ _).mp h
      obtain ⟨action, haction, hisBlock⟩ := (Option.any_eq_true _ _).mp hblock
      cases verdict with
      | allow rule =>
          obtain ⟨info, rfl⟩ := Option.isSome_iff_exists.mp hallow
          rw [hunblocked.kept ⟨fields, lazy, info, hparts, hverdict⟩ action haction] at hisBlock
          cases hisBlock
      | block info => cases hallow
      | rewrite info data => cases hallow
    · cases h
  · cases h

/-- A query for `a.` is excepted, its answer has a blocked address. -/
theorem exception_answered_by_block :
    ∃ w call reply, runFrom World.step (World.new (demoState exceptionFilter) demoCache
        demoUpstreams) (resolveDemo 0 5 0 (demoQuery 7) demoAnswer) = some w ∧
      w.tasks 0 = some (.replied call reply) ∧ ¬ call.Unblocked reply := by
  have hsome : ((runFrom World.step (World.new (demoState exceptionFilter) demoCache
      demoUpstreams) (resolveDemo 0 5 0 (demoQuery 7) demoAnswer)).any fun w =>
        blockedException w 0) = true := by decide +kernel
  obtain ⟨w, hrun, hw⟩ := (Option.any_eq_true _ _).mp hsome
  obtain ⟨call, reply, htask, hnot⟩ := not_unblocked_of_blockedException hw
  exact ⟨w, call, reply, hrun, htask, hnot⟩

end Bulwark.Engine
