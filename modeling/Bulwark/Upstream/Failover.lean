import Bulwark.Upstream.Health
import Bulwark.Upstream.Pool

/-!
# Sequential failover

`resolve_sequential`: one upstream after the other until one answers, with a fallback for
when none does and a health update after each attempt.  The flights of the pool take the
same decisions, one step at a time.
-/

namespace Bulwark.Upstream

open Bulwark.Foundation Bulwark.Dns

/-! ## The loop -/

inductive AttemptOutcome where
  | reply (msg : Message) (rtt : Millis)
  | error (err : UpstreamError)
  | timeout
  deriving DecidableEq

/-- An upstream, and how an attempt at it would end. -/
structure Candidate where
  upstream : Nat
  name : Text
  outcome : AttemptOutcome
  clock : Clock
  deriving DecidableEq

inductive ContactEvent where
  | start (upstream : Nat)
  | finish (upstream : Nat)
  deriving DecidableEq, Repr

def rcodeErr (resp : Message) : UpstreamError := .rcode resp.metadata.responseCode

def Candidate.record (c : Candidate) : HealthEvent :=
  match c.outcome with
  | .reply msg rtt =>
      match classify msg with
      | .answer => .liveSuccess rtt
      | .reject => .liveFailure (rcodeErr msg) c.clock
      | .softFail => .softFailure (rcodeErr msg)
  | .error err => .liveFailure err c.clock
  | .timeout => .liveFailure .timeout c.clock

structure Resolution where
  result : ResolveResult
  healths : Nat → Health
  trace : List ContactEvent

section

variable (settings : PoolSettings)

/-- The rest of the loop, with its variables `last` and `fallback`. -/
def resolveFrom : List Candidate → UpstreamError → Option Resolved → (Nat → Health) → Resolution
  | [], last, fallback, healths =>
      match fallback with
      | some resolved => ⟨.ok resolved, healths, []⟩
      | none => ⟨.error (.allFailed last), healths, []⟩
  | c :: rest, _, fallback, healths =>
      let healths := Function.update healths c.upstream
        ((healths c.upstream).apply settings c.record)
      let contact : List ContactEvent := [.start c.upstream, .finish c.upstream]
      let next (last : UpstreamError) (fallback : Option Resolved) : Resolution :=
        let after := resolveFrom rest last fallback healths
        { after with trace := contact ++ after.trace }
      match c.outcome with
      | .reply resp rtt =>
          let resolved : Resolved := ⟨resp, c.name, rtt.val⟩
          match classify resp with
          | .answer => ⟨.ok resolved, healths, contact⟩
          | .reject | .softFail => next (rcodeErr resp) (fallback.or (some resolved))
      | .error err => next err fallback
      | .timeout => next .timeout fallback

def resolveSequential (ordered : List Candidate) (healths : Nat → Health) : Resolution :=
  resolveFrom settings ordered .noUpstreams none healths

end

/-! ## What it does -/

namespace Candidate

def resolved (c : Candidate) : Option Resolved :=
  match c.outcome with
  | .reply msg rtt => some ⟨msg, c.name, rtt.val⟩
  | .error _ | .timeout => none

def answers (c : Candidate) : Bool :=
  match c.outcome with
  | .reply msg _ => classify msg = .answer
  | .error _ | .timeout => false

def failure (c : Candidate) : UpstreamError :=
  match c.outcome with
  | .reply msg _ => rcodeErr msg
  | .error err => err
  | .timeout => .timeout

end Candidate

/-- The candidates up to the first one that answers. -/
def contacted : List Candidate → List Candidate
  | [] => []
  | c :: rest => if c.answers then [c] else c :: contacted rest

theorem contacted_isPrefix (ordered : List Candidate) : contacted ordered <+: ordered := by
  induction ordered with
  | nil => exact List.prefix_rfl
  | cons c rest ih =>
      rw [contacted]
      split
      · exact ⟨rest, rfl⟩
      · exact List.prefix_cons_inj c |>.mpr ih

section

variable {settings : PoolSettings}

theorem resolveFrom_cons (c : Candidate) (rest : List Candidate) (last : UpstreamError)
    (fallback : Option Resolved) (healths : Nat → Health) :
    let healths' := Function.update healths c.upstream
      ((healths c.upstream).apply settings c.record)
    (c.answers = true → ∃ resolved, c.resolved = some resolved ∧
      resolveFrom settings (c :: rest) last fallback healths =
        ⟨.ok resolved, healths', [.start c.upstream, .finish c.upstream]⟩) ∧
    (c.answers = false → resolveFrom settings (c :: rest) last fallback healths =
      let after := resolveFrom settings rest c.failure (fallback.or c.resolved) healths'
      { after with trace := [.start c.upstream, .finish c.upstream] ++ after.trace }) := by
  intro healths'
  rw [resolveFrom]
  cases houtcome : c.outcome with
  | reply msg rtt =>
      have hresolved : c.resolved = some ⟨msg, c.name, rtt.val⟩ := by
        rw [Candidate.resolved, houtcome]
      cases hclass : classify msg with
      | answer =>
          have hanswers : c.answers = true := by
            rw [Candidate.answers, houtcome]
            simp [hclass]
          refine ⟨fun _ => ⟨_, hresolved, ?_⟩, fun h => ?_⟩
          · simp only [hclass]
            rfl
          · rw [hanswers] at h
            cases h
      | reject =>
          have hanswers : c.answers = false := by
            rw [Candidate.answers, houtcome]
            simp [hclass]
          refine ⟨fun h => absurd h (by simp [hanswers]), fun _ => ?_⟩
          simp only [hclass, Candidate.failure, houtcome, hresolved]
          rfl
      | softFail =>
          have hanswers : c.answers = false := by
            rw [Candidate.answers, houtcome]
            simp [hclass]
          refine ⟨fun h => absurd h (by simp [hanswers]), fun _ => ?_⟩
          simp only [hclass, Candidate.failure, houtcome, hresolved]
          rfl
  | error err =>
      refine ⟨fun h => absurd h (by simp [Candidate.answers, houtcome]), fun _ => ?_⟩
      have hresolved : c.resolved = none := by rw [Candidate.resolved, houtcome]
      simp only [Candidate.failure, houtcome, hresolved, Option.or_none]
      rfl
  | timeout =>
      refine ⟨fun h => absurd h (by simp [Candidate.answers, houtcome]), fun _ => ?_⟩
      have hresolved : c.resolved = none := by rw [Candidate.resolved, houtcome]
      simp only [Candidate.failure, houtcome, hresolved, Option.or_none]
      rfl

/-- Attempts follow each other: one is over before the next one starts. -/
def contacts (tried : List Candidate) : List ContactEvent :=
  tried.flatMap fun c => [.start c.upstream, .finish c.upstream]

theorem resolveFrom_trace (ordered : List Candidate) (last : UpstreamError)
    (fallback : Option Resolved) (healths : Nat → Health) :
    (resolveFrom settings ordered last fallback healths).trace = contacts (contacted ordered) := by
  induction ordered generalizing last fallback healths with
  | nil => cases fallback <;> rfl
  | cons c rest ih =>
      obtain ⟨hanswer, hnext⟩ := @resolveFrom_cons settings c rest last fallback healths
      rw [contacted]
      cases hc : c.answers with
      | true =>
          obtain ⟨resolved, -, heq⟩ := hanswer hc
          rw [heq]
          rfl
      | false =>
          rw [hnext hc]
          change _ ++ (resolveFrom settings rest _ _ _).trace = _
          rw [ih]
          rfl

theorem resolveFrom_of_answer {ordered : List Candidate} {c : Candidate}
    (hfind : ordered.find? Candidate.answers = some c) (last : UpstreamError)
    (fallback : Option Resolved) (healths : Nat → Health) :
    ∃ resolved, c.resolved = some resolved ∧
      (resolveFrom settings ordered last fallback healths).result = .ok resolved := by
  induction ordered generalizing last fallback healths with
  | nil => cases hfind
  | cons d rest ih =>
      obtain ⟨hanswer, hnext⟩ := @resolveFrom_cons settings d rest last fallback healths
      cases hd : d.answers with
      | true =>
          obtain ⟨resolved, hresolved, heq⟩ := hanswer hd
          rw [List.find?_cons_of_pos hd] at hfind
          cases hfind
          exact ⟨resolved, hresolved, by rw [heq]⟩
      | false =>
          rw [List.find?_cons_of_neg (by simp [hd])] at hfind
          rw [hnext hd]
          exact ih hfind _ _ _

theorem resolveFrom_of_no_answer {ordered : List Candidate}
    (hnone : ∀ c ∈ ordered, c.answers = false) (last : UpstreamError)
    (fallback : Option Resolved) (healths : Nat → Health) :
    (resolveFrom settings ordered last fallback healths).result =
      match fallback.or (ordered.findSome? Candidate.resolved) with
      | some resolved => .ok resolved
      | none => .error (.allFailed ((ordered.getLast?.map Candidate.failure).getD last)) := by
  induction ordered generalizing last fallback healths with
  | nil => cases fallback <;> rfl
  | cons c rest ih =>
      have hnext := (@resolveFrom_cons settings c rest last fallback healths).2
        (hnone c List.mem_cons_self)
      rw [hnext]
      change (resolveFrom settings rest _ _ _).result = _
      rw [ih (fun d hd => hnone d (List.mem_cons_of_mem _ hd)), Option.or_assoc]
      have hfirst : (c :: rest).findSome? Candidate.resolved =
          c.resolved.or (rest.findSome? Candidate.resolved) := by
        rw [List.findSome?_cons]
        cases c.resolved <;> rfl
      have hlast : ((c :: rest).getLast?.map Candidate.failure).getD last =
          (rest.getLast?.map Candidate.failure).getD c.failure := by
        cases rest with
        | nil => rfl
        | cons d rest => rw [List.getLast?_cons_cons, List.getLast?_cons]; rfl
      rw [hfirst, hlast]

theorem apply_record_totals (h : Health) (c : Candidate) :
    (h.apply settings c.record).totalQueries = h.totalQueries + 1 ∧
      (h.apply settings c.record).totalFailures =
        h.totalFailures + if c.answers then 0 else 1 := by
  rw [Candidate.record, Candidate.answers]
  cases c.outcome with
  | reply msg rtt => cases hclass : classify msg <;> simp only [hclass] <;> exact ⟨rfl, rfl⟩
  | error err => exact ⟨rfl, rfl⟩
  | timeout => exact ⟨rfl, rfl⟩

/-- Every attempt is in the totals of its upstream, and in no other record. -/
theorem resolveFrom_healths (ordered : List Candidate) (last : UpstreamError)
    (fallback : Option Resolved) (healths : Nat → Health) (u : Nat) :
    let after := (resolveFrom settings ordered last fallback healths).healths u
    after.totalQueries =
        (healths u).totalQueries + (contacted ordered).countP (·.upstream = u) ∧
      after.totalFailures = (healths u).totalFailures +
        (contacted ordered).countP (fun c => c.upstream = u && !c.answers) ∧
      (u ∉ (contacted ordered).map (·.upstream) → after = healths u) := by
  induction ordered generalizing last fallback healths with
  | nil => cases fallback <;> exact ⟨rfl, rfl, fun _ => rfl⟩
  | cons c rest ih =>
      obtain ⟨hanswer, hnext⟩ := @resolveFrom_cons settings c rest last fallback healths
      obtain ⟨hqueries, hfailures⟩ :=
        @apply_record_totals settings (healths c.upstream) c
      rw [contacted]
      by_cases hu : c.upstream = u
      · subst hu
        cases hc : c.answers with
        | true =>
            obtain ⟨resolved, -, heq⟩ := hanswer hc
            rw [heq]
            simp [hqueries, hfailures, hc]
        | false =>
            rw [hnext hc]
            obtain ⟨h1, h2, h3⟩ := ih c.failure (fallback.or c.resolved) (Function.update healths
              c.upstream ((healths c.upstream).apply settings c.record))
            simp only [Function.update_self] at h1 h2
            refine ⟨?_, ?_, fun hmem => absurd List.mem_cons_self hmem⟩
            · rw [h1, hqueries, if_neg (by simp), List.countP_cons_of_pos (by simp)]
              omega
            · rw [h2, hfailures, hc]
              simp only [Bool.false_eq_true, if_false]
              rw [List.countP_cons_of_pos (by simp [hc])]
              omega
      · cases hc : c.answers with
        | true =>
            obtain ⟨resolved, -, heq⟩ := hanswer hc
            rw [heq]
            simp [hu, Function.update_of_ne (Ne.symm hu)]
        | false =>
            rw [hnext hc]
            obtain ⟨h1, h2, h3⟩ := ih c.failure (fallback.or c.resolved) (Function.update healths
              c.upstream ((healths c.upstream).apply settings c.record))
            simp only [Function.update_of_ne (Ne.symm hu)] at h1 h2 h3
            refine ⟨by simp [h1, hu], by simp [h2, hu], fun hmem => h3 fun hrest => hmem ?_⟩
            exact List.mem_cons_of_mem _ hrest

theorem contacted_of_answer {ordered : List Candidate} {c : Candidate}
    (hfind : ordered.find? Candidate.answers = some c) :
    contacted ordered = ordered.takeWhile (fun d => !d.answers) ++ [c] := by
  induction ordered with
  | nil => cases hfind
  | cons d rest ih =>
      rw [contacted]
      cases hd : d.answers with
      | true =>
          rw [List.find?_cons_of_pos hd] at hfind
          cases hfind
          simp [hd]
      | false =>
          rw [List.find?_cons_of_neg (by simp [hd])] at hfind
          simp [hd, ih hfind]

theorem answers_resolved {c : Candidate} (hresolved : c.resolved = none) : c.answers = false := by
  rw [Candidate.resolved] at hresolved
  rw [Candidate.answers]
  cases houtcome : c.outcome with
  | reply msg rtt => simp [houtcome] at hresolved
  | error err => rfl
  | timeout => rfl

end

/-! ## The flights -/

def Candidate.reply (c : Candidate) : Except UpstreamError Message :=
  match c.outcome with
  | .reply msg _ => .ok msg
  | .error err => .error err
  | .timeout => .error .timeout

def Candidate.rttMs (c : Candidate) : ℚ :=
  match c.outcome with
  | .reply _ rtt => rtt.val
  | .error _ | .timeout => 0

/-- A flight whose attempts end one after the other. -/
def Run.settleAll (run : Run) : List Candidate → Run
  | [] => run
  | c :: rest =>
      match run.result with
      | some _ => run
      | none => (run.settle c.reply c.rttMs).settleAll rest

theorem settleAll_of_result {run : Run} {result : ResolveResult}
    (hresult : run.result = some result) (ordered : List Candidate) :
    run.settleAll ordered = run := by
  cases ordered with
  | nil => rfl
  | cons c rest => rw [Run.settleAll, hresult]

theorem settle_of_answer {run : Run} {c : Candidate} {up : UpstreamEntry} {ups : List UpstreamEntry}
    (hremaining : run.remaining = up :: ups) (hname : up.name = c.name) (hc : c.answers = true) :
    (run.settle c.reply c.rttMs).result = c.resolved.map .ok := by
  rw [Run.settle, hremaining]
  rw [Candidate.answers] at hc
  rw [Candidate.reply, Candidate.rttMs, Candidate.resolved]
  cases houtcome : c.outcome with
  | reply msg rtt =>
      have hclass : classify msg = .answer := by simpa [houtcome] using hc
      simp [hclass, hname]
  | error err => simp [houtcome] at hc
  | timeout => simp [houtcome] at hc

/-- Anything else leads to the next upstream, while there is one. -/
theorem settle_of_not_answer {run : Run} {c : Candidate} {up : UpstreamEntry}
    {ups : List UpstreamEntry} (hremaining : run.remaining = up :: ups) (hname : up.name = c.name)
    (hc : c.answers = false) :
    run.settle c.reply c.rttMs =
      let next := { run with
        remaining := ups
        attempt := .start false
        fallback := run.fallback.or c.resolved
        last := c.failure }
      if ups = [] then { next with result := some next.exhausted } else next := by
  rw [Run.settle, hremaining]
  rw [Candidate.answers] at hc
  rw [Candidate.reply, Candidate.rttMs, Candidate.resolved, Candidate.failure]
  cases houtcome : c.outcome with
  | reply msg rtt =>
      cases hclass : classify msg with
      | answer => simp [houtcome, hclass] at hc
      | reject => simp [hclass, hname, rcodeErr]
      | softFail => simp [hclass, hname, rcodeErr]
  | error err => simp
  | timeout => simp

theorem settleAll_result (settings : PoolSettings) {ordered : List Candidate} {run : Run}
    (hopen : run.result = none) (hnames : run.remaining.map (·.name) = ordered.map (·.name))
    (hsome : ordered ≠ []) (healths : Nat → Health) :
    (run.settleAll ordered).result =
      some (resolveFrom settings ordered run.last run.fallback healths).result := by
  induction ordered generalizing run healths with
  | nil => exact absurd rfl hsome
  | cons c rest ih =>
      obtain ⟨hanswer, hnext⟩ := @resolveFrom_cons settings c rest run.last run.fallback healths
      rw [Run.settleAll, hopen]
      change ((run.settle c.reply c.rttMs).settleAll rest).result = _
      cases hremaining : run.remaining with
      | nil => simp [hremaining] at hnames
      | cons up ups =>
          obtain ⟨hname, hrest⟩ : up.name = c.name ∧ ups.map (·.name) = rest.map (·.name) := by
            simpa [hremaining] using hnames
          cases hc : c.answers with
          | true =>
              obtain ⟨resolved, hresolved, heq⟩ := hanswer hc
              have hdone := settle_of_answer hremaining hname hc
              rw [hresolved] at hdone
              rw [settleAll_of_result hdone, hdone, heq]
              rfl
          | false =>
              rw [settle_of_not_answer hremaining hname hc, hnext hc]
              cases rest with
              | nil =>
                  have hups : ups = [] := by simpa using hrest
                  rw [if_pos hups, Run.settleAll, resolveFrom.eq_def, Run.exhausted]
                  cases run.fallback.or c.resolved <;> rfl
              | cons d rest =>
                  have hups : ups ≠ [] := fun h => by simp [h] at hrest
                  rw [if_neg hups]
                  let next : Run := { run with
                    remaining := ups
                    attempt := .start false
                    fallback := run.fallback.or c.resolved
                    last := c.failure }
                  exact @ih next hopen hrest (by simp) _

/-! ## The whole loop -/

/-- The whole of `resolve_sequential`: who is contacted, what is returned and what is
written down, for every list of upstreams and every outcome.  A flight over the same
upstreams ends with the same result. -/
theorem resolveSequential_exact {settings : PoolSettings} (ordered : List Candidate)
    (healths : Nat → Health) :
    let r := resolveSequential settings ordered healths
    let tried := contacted ordered
    tried <+: ordered ∧ r.trace = contacts tried ∧
    ((ordered.map (·.upstream)).Nodup → (tried.map (·.upstream)).Nodup) ∧
    (∀ c, ordered.find? Candidate.answers = some c →
      (∃ resolved, c.resolved = some resolved ∧ r.result = .ok resolved) ∧
        tried = ordered.takeWhile (fun d => !d.answers) ++ [c]) ∧
    (ordered.find? Candidate.answers = none →
      ∀ resolved, ordered.findSome? Candidate.resolved = some resolved → r.result = .ok resolved) ∧
    ((∃ err, r.result = .error err) ↔ ∀ c ∈ ordered, c.resolved = none) ∧
    (∀ err, r.result = .error err → ∃ last, err = .allFailed last) ∧
    (∀ u, (r.healths u).totalQueries = (healths u).totalQueries + tried.countP (·.upstream = u) ∧
      (r.healths u).totalFailures = (healths u).totalFailures +
        tried.countP (fun c => c.upstream = u && !c.answers) ∧
      (u ∉ tried.map (·.upstream) → r.healths u = healths u)) ∧
    ∀ run : Run, run.result = none → run.last = .noUpstreams → run.fallback = none →
      run.remaining.map (·.name) = ordered.map (·.name) → ordered ≠ [] →
        (run.settleAll ordered).result = some r.result := by
  intro r tried
  -- the result of a list without an answer
  have hsilent : (∀ c ∈ ordered, c.answers = false) → r.result =
      match ordered.findSome? Candidate.resolved with
      | some resolved => .ok resolved
      | none =>
          .error (.allFailed ((ordered.getLast?.map Candidate.failure).getD .noUpstreams)) := by
    intro hnone
    rw [← @Option.none_or _ (ordered.findSome? Candidate.resolved)]
    exact resolveFrom_of_no_answer hnone .noUpstreams none healths
  have hanswered : ∀ c, ordered.find? Candidate.answers = some c →
      ∃ resolved, c.resolved = some resolved ∧ r.result = .ok resolved :=
    fun c hfind => resolveFrom_of_answer hfind .noUpstreams none healths
  have hallNot : ordered.find? Candidate.answers = none → ∀ c ∈ ordered, c.answers = false :=
    fun hfind c hc => by simpa using List.find?_eq_none.mp hfind c hc
  refine ⟨contacted_isPrefix ordered, resolveFrom_trace ordered _ _ _, fun hnodup => ?_,
    fun c hfind => ⟨hanswered c hfind, contacted_of_answer hfind⟩, fun hfind resolved hsome => ?_,
    ⟨fun herr c hc => ?_, fun hall => ?_⟩, fun err herr => ?_,
    fun u => resolveFrom_healths ordered _ _ _ u,
    fun run hopen hlast hfallback hnames hsome => ?_⟩
  · exact hnodup.sublist ((contacted_isPrefix ordered).sublist.map _)
  · rw [hsilent (hallNot hfind), hsome]
  · obtain ⟨err, herr⟩ := herr
    cases hfind : ordered.find? Candidate.answers with
    | some d =>
        obtain ⟨resolved, -, hok⟩ := hanswered d hfind
        rw [hok] at herr
        cases herr
    | none =>
        rw [hsilent (hallNot hfind)] at herr
        cases hfirst : ordered.findSome? Candidate.resolved with
        | some resolved => simp [hfirst] at herr
        | none => exact List.findSome?_eq_none_iff.mp hfirst c hc
  · rw [hsilent fun c hc => answers_resolved (hall c hc), List.findSome?_eq_none_iff.mpr hall]
    exact ⟨_, rfl⟩
  · cases hfind : ordered.find? Candidate.answers with
    | some d =>
        obtain ⟨resolved, -, hok⟩ := hanswered d hfind
        rw [hok] at herr
        cases herr
    | none =>
        rw [hsilent (hallNot hfind)] at herr
        split at herr
        · cases herr
        · cases herr
          exact ⟨_, rfl⟩
  · rw [settleAll_result settings hopen hnames hsome healths, hlast, hfallback]
    rfl

end Bulwark.Upstream
