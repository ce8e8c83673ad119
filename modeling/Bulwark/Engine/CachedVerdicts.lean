import Bulwark.Engine.HandleSteps

/-!
# Cached verdicts

The verdict of the response filter is stored with a response and trusted by later hits.
It may come from a client with filtering off, from a refresh with a placeholder client, or
from a filter that has been replaced since.  It is still right: a verdict is stored only by
filters without rules that look at the client, and trusted only under the content hash it
was computed under.
-/

namespace Bulwark.Engine

open Bulwark.Foundation Bulwark.Dns Bulwark.Filter Bulwark.Upstream

/-! ## Verdicts and the answers they are stored with -/

section

variable {env : EngineEnv} {F : LiveFilter env.rx → Prop}

/-- Filters with the same content hash give the same verdicts. -/
def HashFaithful (F : LiveFilter env.rx → Prop) : Prop :=
  ∀ f g, F f → F g → f.contentHash = g.contentHash →
    ∀ domain rtype client, f.check domain rtype client = g.check domain rtype client

/-- Some filter of that content hash, blind to the client, has judged the answers so. -/
def Justified (F : LiveFilter env.rx → Prop) (stored : Stored) (v : ResponseVerdict) : Prop :=
  ∃ g, F g ∧ g.hasClientDependentRules = false ∧ g.contentHash = v.generation ∧
    ∀ id ttl client, filterAnswers g client (cachedAnswers (stored.respond id ttl)) =
      some v.outcome.info

theorem cachedAnswers_respond (cache : CacheEnv) (cfg : CacheConfig) (msg : Message) (id : UInt16)
    (ttl : UInt32) :
    cachedAnswers ((cache.store cfg msg).respond id ttl) =
      msg.answers.map fun r => { r with ttl := ttl } := by
  have hanswers : ∀ response : CachedResponse,
      cachedAnswers response = response.intoMessage.answers := by
    intro response
    cases response with
    | message msg => rfl
    | wire bytes rcode answers =>
        rw [cachedAnswers, CachedResponse.intoMessage]
        cases decode bytes <;> rfl
  rw [hanswers, intoMessage_respond]
  rfl

theorem justified_of_judged {filter : LiveFilter env.rx} {client : ClientInfo} {memoize : Bool}
    (hF : F filter) (hblind : memoize = true → filter.hasClientDependentRules = false)
    {msg : Message} {v : ResponseVerdict} (h : Judged filter client memoize msg.answers (some v))
    (cache : CacheEnv) (cfg : CacheConfig) : Justified F (cache.store cfg msg) v := by
  rcases h with hnone | ⟨hmemoize, info, hinfo, hv⟩
  · cases hnone
  · cases hv
    refine ⟨filter, hF, hblind hmemoize, ?_, fun id ttl client' => ?_⟩
    · cases info <;> rfl
    · have hsame : filterAnswers filter client' msg.answers =
          filterAnswers filter client msg.answers :=
        filterAnswers_client (hblind hmemoize) msg.answers
      rw [cachedAnswers_respond, filterAnswers_ttl, hsame, hinfo]
      cases info <;> rfl

def Task.filter : Task env → Option (LiveFilter env.rx)
  | .loaded call | .rewriting call _ _ _ | .forwarding call _ _ _ | .replied call _ =>
      some call.state.filter
  | .spawned r | .refreshing r _ => some r.filter
  | .ended => none

/-- A refresh keeps its verdict only where the filter does not look at the client. -/
def Task.Blind : Task env → Prop
  | .spawned r | .refreshing r _ => r.memoize = true → r.filter.hasClientDependentRules = false
  | _ => True

structure World.Justified (F : LiveFilter env.rx → Prop) (w : World env) : Prop where
  state : F w.state.filter
  tasks : ∀ t task, w.tasks t = some task → task.Blind ∧ ∀ f, task.filter = some f → F f
  entries : ∀ key e v, w.cache.peek key = some e → e.verdict = some v →
    Engine.Justified F e.stored v

namespace World.Justified

variable {w : World env}

theorem setTask (h : w.Justified F) {t : Nat} {task : Task env} (hblind : task.Blind)
    (hF : ∀ f, task.filter = some f → F f) : (w.setTask t task).Justified F where
  state := h.state
  tasks t' task' htask := by
    rcases World.tasks_setTask.mp htask with ⟨-, rfl⟩ | ⟨-, htask⟩
    · exact ⟨hblind, hF⟩
    · exact h.tasks t' task' htask
  entries := h.entries

theorem setPool (h : w.Justified F) (i : Nat) (p : Pool) : (w.setPool i p).Justified F :=
  ⟨h.state, h.tasks, h.entries⟩

theorem shrink (h : w.Justified F) {cache : DnsCache}
    (hkept : ∀ k e, cache.peek k = some e → w.cache.peek k = some e) :
    (w.setCache cache).Justified F :=
  ⟨h.state, h.tasks, fun key e v he hv => h.entries key e v (hkept key e he) hv⟩

theorem get (h : w.Justified F) {key : QueryKey} {id : UInt16} {hit : Option CacheHit}
    {cache : DnsCache} (hget : w.cache.get w.now key id = (hit, cache)) :
    (w.setCache cache).Justified F := by
  refine h.shrink fun k e he => ?_
  have hcache : cache = (w.cache.get w.now key id).2 := by rw [hget]
  rw [hcache] at he
  exact peek_of_get he

/-- The insertion sites: what is stored is as the filter at hand has judged it. -/
theorem insert (h : w.Justified F) {filter : LiveFilter env.rx} {client : ClientInfo}
    {memoize : Bool} (hF : F filter)
    (hblind : memoize = true → filter.hasClientDependentRules = false) {key : QueryKey}
    {msg : Message} {verdict : Option ResponseVerdict}
    (hverdict : Judged filter client memoize msg.answers verdict) :
    (w.setCache (w.cache.insertInner env.cache w.now key msg verdict).2).Justified F where
  state := h.state
  tasks := h.tasks
  entries k e v he hv := by
    rcases peek_of_insertInner he with ⟨ttl, -, -, rfl⟩ | ⟨hold, -⟩
    · dsimp only at hv
      subst hv
      exact justified_of_judged hF hblind hverdict env.cache _
    · exact h.entries k e v hold hv

end World.Justified

theorem EngineState.blind_of_memoize {state : EngineState env.rx} (h : state.memoize = true) :
    state.filter.hasClientDependentRules = false := by
  rw [EngineState.memoize, Bool.and_eq_true] at h
  simpa using h.2

theorem World.Justified.step {w v : World env} {a : EngineAction env.rx} (h : w.Justified F)
    (hswap : ∀ state, a = .swapState state → F state.filter) (hstep : w.Steps a v) :
    v.Justified F := by
  -- a call works with the filter it was loaded with
  have hcall : ∀ {t task} {call : Call env.rx}, w.tasks t = some task →
      task.filter = some call.state.filter → F call.state.filter :=
    fun htask hfilter => (h.tasks _ _ htask).2 _ hfilter
  have hown : ∀ {call : Call env.rx}, F call.state.filter →
      ∀ f, some call.state.filter = some f → F f := by
    rintro call hF f ⟨⟩
    exact hF
  cases hstep with
  | load hfree hparse => exact h.setTask trivial (hown h.state)
  | reply htask hbegin => exact h.setTask trivial (hown (hcall htask rfl))
  | rewrite htask hbegin hpool =>
      exact (h.setPool _ _).setTask trivial (hown (hcall htask rfl))
  | hit htask hbegin hget hhit => exact (h.get hget).setTask trivial (hown (hcall htask rfl))
  | hitStale htask hbegin hget hhit hother hfree =>
      rename_i t u id call fields lazy log hit cache reply refresh
      have hF := hcall htask rfl
      have hrefresh : ∃ lazy key, refresh = call.refresh lazy key := by
        cases Call.hits_of_onHit hhit with
        | blocked hblock hquery hrefresh => exact ⟨_, _, hrefresh refresh rfl⟩
        | served hclean hrefresh => exact ⟨_, _, hrefresh refresh rfl⟩
      obtain ⟨lazy, key, rfl⟩ := hrefresh
      have hreplied := @World.Justified.setTask _ F _ (h.get hget) t (.replied call reply) trivial
        (hown hF)
      exact hreplied.setTask EngineState.blind_of_memoize (hown hF)
  | undecodable htask hbegin hget hnone =>
      exact (h.get hget).setTask trivial (hown (hcall htask rfl))
  | forward htask hbegin hget hquery hpool =>
      exact ((h.get hget).setPool _ _).setTask trivial (hown (hcall htask rfl))
  | rewritten htask hresult => exact h.setTask trivial (hown (hcall htask rfl))
  | answered htask hresult hreply =>
      have hF := hcall htask rfl
      cases Call.resolves_of_onResolved hreply with
      | failed e => exact World.Justified.setTask (h.shrink fun _ _ he => he) trivial (hown hF)
      | blocked hfiltering hblock hverdict =>
          exact (h.insert hF EngineState.blind_of_memoize hverdict).setTask trivial (hown hF)
      | forwarded hclean hverdict =>
          exact (h.insert hF EngineState.blind_of_memoize hverdict).setTask trivial (hown hF)
  | refreshed htask hresult hfinish =>
      obtain ⟨hblind, hF⟩ := h.tasks _ _ htask
      rcases Refresh.finish_cases hfinish with rfl | ⟨resolved, verdict, -, hverdict, rfl⟩
      · exact World.Justified.setTask (h.shrink fun _ _ he => he) trivial (by rintro _ ⟨⟩)
      · exact (h.insert (hF _ rfl) hblind hverdict).setTask trivial (by rintro _ ⟨⟩)
  | abandon htask => exact h.setTask trivial (by rintro _ ⟨⟩)
  | refresh htask hquery hpool =>
      obtain ⟨hblind, hF⟩ := h.tasks _ _ htask
      exact (h.setPool _ _).setTask hblind hF
  | pool hnocall hpool => exact h.setPool _ _
  | swapState state => exact ⟨hswap state rfl, h.tasks, h.entries⟩
  | tick nanos => exact ⟨h.state, h.tasks, h.entries⟩
  | shrink hkept => exact h.shrink hkept
  | importSnapshot unix data =>
      refine ⟨h.state, h.tasks, fun key e v he hv => ?_⟩
      rcases peek_of_importSnapshot he with hold | ⟨parsed, -, -, -, hnone⟩
      · exact h.entries key e v hold hv
      · rw [hnone] at hv
        cases hv

def runFilters (state : EngineState env.rx) (as : List (EngineAction env.rx))
    (f : LiveFilter env.rx) : Prop :=
  f = state.filter ∨ ∃ state', EngineAction.swapState state' ∈ as ∧ f = state'.filter

theorem World.run_justified {state : EngineState env.rx} {cache : DnsCache}
    {upstreams : Nat → List UpstreamEntry} {as : List (EngineAction env.rx)} {w : World env}
    (hempty : ∀ k, cache.peek k = none)
    (hrun : runFrom World.step (World.new state cache upstreams) as = some w) :
    w.Justified (runFilters state as) := by
  have hactions : ∀ a ∈ as, ∀ state', a = .swapState state' →
      runFilters state as state'.filter := by
    rintro a ha state' rfl
    exact .inr ⟨state', ha, rfl⟩
  refine @runFrom_invariant _ _ _ (fun _ a => ∀ state', a = .swapState state' →
    runFilters state as state'.filter) _ _ _ _ ?_ ?_ (eachStep_of_actions hactions _) hrun
  · intro t a u hswap ha hjust
    exact hjust.step hswap (World.steps_of_step ha)
  · refine ⟨.inl rfl, fun t task htask => ?_, fun key e v he hv => ?_⟩
    · cases htask
    · have hnone : cache.peek key = some e := he
      rw [hempty] at hnone
      cases hnone

/-- A hit is blocked as the filter of the call says to the cached answers. -/
theorem Call.hitBlock_right {call : Call env.rx} {key : QueryKey} {id : UInt16} {w : World env}
    {hit : CacheHit} {cache : DnsCache} (hhash : HashFaithful F) (hjust : w.Justified F)
    (hF : F call.state.filter) (hon : call.filtering = true)
    (hget : w.cache.get w.now key id = (some hit, cache)) :
    call.hitBlock hit =
      filterAnswers call.state.filter call.client.info (cachedAnswers hit.response) := by
  rw [Call.hitBlock, if_pos hon]
  split
  · rename_i v hv
    split
    · rename_i htrust
      simp only [Bool.and_eq_true, Bool.not_eq_true', decide_eq_true_eq] at htrust
      obtain ⟨entry, ttl, hpeek, hresponse, hverdict⟩ := entry_of_hit hget
      obtain ⟨g, hg, -, hgen, hjudged⟩ := hjust.entries key entry v hpeek (hverdict ▸ hv)
      have hsame := hhash call.state.filter g hF hg (htrust.2.symm.trans hgen.symm)
      rw [hresponse, filterAnswers_congr (fun domain rtype => hsame domain rtype _) _, hjudged]
    · rfl
  · rfl

def Reply.isBlocked (reply : Reply) : Bool :=
  match reply.action with
  | some (.blocked _ _) => true
  | _ => false

/--
Whatever clients, refreshes, reloads, evictions and imports came before: a hit for a client
with filtering on is answered by a block exactly where the filter of the call blocks the
cached answers, and an upstream's answer is passed on only where the filter lets it through.
-/
theorem cachedVerdicts_right {state : EngineState env.rx} {cache : DnsCache}
    {upstreams : Nat → List UpstreamEntry} {as : List (EngineAction env.rx)} {w : World env}
    (hempty : ∀ k, cache.peek k = none) (hhash : HashFaithful (runFilters state as))
    (hrun : runFrom World.step (World.new state cache upstreams) as = some w) :
    (∀ t u id call fields lazy log hit cache' query v, w.tasks t = some (.loaded call) →
      call.begin = some (.lookup fields lazy log) → call.filtering = true →
      lazy.intoMessage = some query →
      w.cache.get w.now fields.key fields.id = (some hit, cache') →
      w.step (.look t u id) = some v →
      ∃ reply verdict, v.tasks t = some (.replied call reply) ∧
        filterAnswers call.state.filter call.client.info (cachedAnswers hit.response) =
          some verdict ∧
        reply.isBlocked = verdict.isSome ∧
        reply.response =
          if verdict.isSome then .message (call.state.block query)
          else (hitReply env log hit.response).response) ∧
    ∀ t call fields query log v reply upstream,
      w.tasks t = some (.forwarding call fields query log) → call.filtering = true →
      w.step (.resume t) = some v → v.tasks t = some (.replied call reply) →
      reply.action = some (.forwarded upstream) →
      ∃ resolved, w.returned call.state.pool t = some (.ok resolved) ∧
        filterAnswers call.state.filter call.client.info resolved.message.answers = some none := by
  have hjust := World.run_justified hempty hrun
  constructor
  · intro t u id call fields lazy log hit cache' query v htask hbegin hon hquery hget hstep
    have hF : runFilters state as call.state.filter := (hjust.tasks t _ htask).2 _ rfl
    have hblock := Call.hitBlock_right hhash hjust hF hon hget
    -- the step is the hit that was found
    rw [World.step, htask] at hstep
    dsimp only at hstep
    rw [hbegin, Option.bind_some, World.look, hget] at hstep
    simp only [Option.bind_eq_bind, Option.bind_eq_some_iff, Prod.exists] at hstep
    obtain ⟨reply, refresh, hhit, hspawn⟩ := hstep
    have hreplied : v.tasks t = some (.replied call reply) := by
      cases refresh with
      | none =>
          cases hspawn
          exact World.tasks_setTask.mpr (.inl ⟨rfl, rfl⟩)
      | some r =>
          rw [World.spawn] at hspawn
          split at hspawn
          · rename_i hfree
            cases hspawn
            exact World.tasks_setTask.mpr (.inr ⟨hfree.1.symm,
              World.tasks_setTask.mpr (.inl ⟨rfl, rfl⟩)⟩)
          · cases hspawn
    refine ⟨reply, ?_⟩
    cases Call.hits_of_onHit hhit with
    | undecodable hblocked hnone =>
        rw [hquery] at hnone
        cases hnone
    | blocked hblocked hquery' hrefresh =>
        rename_i info query'
        obtain rfl := Option.some.inj (hquery.symm.trans hquery')
        exact ⟨some info, hreplied, hblock.symm.trans hblocked, rfl, rfl⟩
    | served hclean hrefresh =>
        refine ⟨none, hreplied, hblock.symm.trans hclean, ?_, rfl⟩
        cases hit.response <;> rfl
  · intro t call fields query log v reply upstream htask hon hstep hreplied haction
    rw [World.step, htask, Option.bind_some] at hstep
    simp only [World.resume, Option.bind_eq_bind, Option.bind_eq_some_iff, Option.some.injEq,
      Prod.exists] at hstep
    obtain ⟨result, hresult, reply', cache', hreply, rfl⟩ := hstep
    rcases World.tasks_setTask.mp hreplied with ⟨-, heq⟩ | ⟨hne, -⟩
    · cases heq
      cases Call.resolves_of_onResolved hreply with
      | failed e => cases haction
      | blocked hfiltering hblocked hverdict => cases haction
      | forwarded hclean hverdict => exact ⟨_, hresult, hclean hon⟩
    · exact absurd rfl hne

end

def addressFilter : LiveFilter demoEnv.rx :=
  ⟨(compile (plainEnv List.length) referenceExternal (customList "||1.2.3.4^".toList)).get
    (by decide +kernel), _, _, (Option.some_get _).symm⟩

/-- One client fills the cache, the filter is reloaded, another client asks the same. -/
def reloadedRun : List (EngineAction demoEnv.rx) :=
  resolveDemo 0 5 0 (demoQuery 7) demoAnswer ++
    [.swapState (demoState addressFilter), .load 1 (demoQuery 9) (.v4 2)]

/-- The second client is at a hit, and the filter says something to the cached answers. -/
def atBlockedHit (w : World demoEnv) : Bool :=
  match w.tasks 1 with
  | some (.loaded call) =>
      match call.begin with
      | some (.lookup fields lazy _) =>
          call.filtering && lazy.intoMessage.isSome &&
            match w.cache.get w.now fields.key fields.id with
            | (some hit, _) =>
                (filterAnswers call.state.filter call.client.info
                  (cachedAnswers hit.response)).any Option.isSome
            | (none, _) => false
      | _ => false
  | _ => false

theorem cachedVerdicts_reloadedRun :
    ∃ w call v reply, runFrom World.step (World.new (demoState addressFilter) demoCache
        demoUpstreams) reloadedRun = some w ∧
      w.tasks 1 = some (.loaded call) ∧ w.step (.look 1 2 0) = some v ∧
      v.tasks 1 = some (.replied call reply) ∧ reply.isBlocked = true := by
  have hsome : ((runFrom World.step (World.new (demoState addressFilter) demoCache
      demoUpstreams) reloadedRun).any fun w =>
        atBlockedHit w && (w.step (.look 1 2 0)).isSome) = true := by decide +kernel
  obtain ⟨w, hrun, hw⟩ := (Option.any_eq_true _ _).mp hsome
  obtain ⟨hhit, hstep⟩ := Bool.and_eq_true_iff.mp hw
  obtain ⟨v, hv⟩ := Option.isSome_iff_exists.mp hstep
  have hempty : ∀ k, demoCache.peek k = none := fun k => rfl
  have hfilters : ∀ f, runFilters (demoState addressFilter) reloadedRun f → f = addressFilter := by
    rintro f (rfl | ⟨state, hmem, rfl⟩)
    · rfl
    · simp only [reloadedRun, resolveDemo, List.mem_append, List.mem_cons, reduceCtorEq,
        EngineAction.swapState.injEq, List.not_mem_nil, or_false, false_or] at hmem
      rw [hmem]
      rfl
  have hhash : HashFaithful (runFilters (demoState addressFilter) reloadedRun) := by
    intro f g hf hg _ domain rtype client
    rw [hfilters f hf, hfilters g hg]
  rw [atBlockedHit] at hhit
  split at hhit
  · rename_i call htask
    split at hhit
    · rename_i fields lazy log hbegin
      rw [Bool.and_eq_true, Bool.and_eq_true] at hhit
      obtain ⟨⟨hon, hlazy⟩, hhit⟩ := hhit
      obtain ⟨query, hquery⟩ := Option.isSome_iff_exists.mp hlazy
      split at hhit
      · rename_i hit cache hget
        obtain ⟨reply, verdict, hreplied, hverdict, hblocked, -⟩ :=
          (cachedVerdicts_right hempty hhash hrun).1 1 2 0 call fields lazy log hit cache query v
            htask hbegin hon hquery hget hv
        rw [hverdict] at hhit
        exact ⟨w, call, v, reply, hrun, htask, hv, hreplied, hblocked.trans hhit⟩
      · cases hhit
    · cases hhit
  · cases hhit

end Bulwark.Engine
