import Bulwark.Server.StatsFile

/-!
# What a restart goes on from

The queries that the counts of `StatsFile` stand for, step by step: what a snapshot takes is
what is remembered of the shards it has merged, what is on disk is the last snapshot that was
renamed into place, and no query is in any of them twice.
-/

namespace Bulwark.Server

open Bulwark.Foundation Bulwark.Engine

/-! ## Snapshots -/

/-- The statistics that are read from the text are those of what is remembered. -/
def Records (json : StatsJson) (text : Text) (m : Remembered) : Prop :=
  ∃ loaded, json.fromStr text = some loaded ∧
    (∀ c, statCount loaded c = countOf c m.entries) ∧ countersOf loaded = m.cache

def Snapshot.Tells (json : StatsJson) (m : Remembered) : Snapshot → Prop
  | .merging cache _ acc => cache = m.cache ∧ ∀ c, statCount acc c = countOf c m.entries
  | .file .idle => True
  | .file (.writing _ text _) => Records json text m

structure StatsProcess.Tells (json : StatsJson) (v : Volume Char) (p : StatsProcess)
    (l : Ledger) : Prop where
  stats : Server.Tells p.stats l.shards
  cache : p.cache = l.cache
  snapshots : ∀ who, (p.snapshots who).Tells json (l.taken who)
  turns : ∀ who other, (p.snapshots who).writer ≠ .idle → other ≠ who →
    (p.snapshots other).writer = .idle
  files : ∀ who, v.Replaces (p.snapshots who).writer v.read

structure Chronicle.Right (json : StatsJson) (ch : Chronicle) : Prop where
  absent : ch.site.volume.read = none → ch.ledger.disk = none
  present : ∀ text, ch.site.volume.read = some text →
    ∃ m, ch.ledger.disk = some m ∧ Records json text m
  stopped : ch.site.volume.Replaces .idle ch.site.volume.read
  running : ∀ p, ch.site.process = some p → p.Tells json ch.site.volume ch.ledger

section

variable {json : StatsJson} {v v' : Volume Char} {p p' : StatsProcess} {l : Ledger}
  {who : Snapshotter} {m : Remembered} {snapshot : Snapshot} {w w' : Writer Char}

@[simp] theorem setSnapshot_self (p : StatsProcess) (who : Snapshotter) (snapshot : Snapshot) :
    (p.setSnapshot who snapshot).snapshots who = snapshot := Function.update_self ..

theorem setSnapshot_of_ne {other : Snapshotter} (h : other ≠ who) (p : StatsProcess)
    (snapshot : Snapshot) : (p.setSnapshot who snapshot).snapshots other = p.snapshots other :=
  Function.update_of_ne h ..

namespace StatsProcess.Tells

theorem setSnapshot (h : p.Tells json v l) (hwriter : snapshot.writer = .idle)
    (hm : snapshot.Tells json m) : (p.setSnapshot who snapshot).Tells json v
      { l with taken := Function.update l.taken who m } where
  stats := h.stats
  cache := h.cache
  snapshots other := by
    by_cases hother : other = who
    · subst hother
      simpa using hm
    · simpa [setSnapshot_of_ne hother, Function.update_of_ne hother] using h.snapshots other
  turns one other hone hne := by
    by_cases hwho : one = who
    · subst hwho
      simp [hwriter] at hone
    · rw [setSnapshot_of_ne hwho] at hone
      by_cases hother : other = who
      · subst hother
        simpa using hwriter
      · rw [setSnapshot_of_ne hother]
        exact h.turns one other hone hne
  files other := by
    by_cases hother : other = who
    · subst hother
      rw [setSnapshot_self, hwriter]
      exact (h.files other).stop
    · rw [setSnapshot_of_ne hother]
      exact h.files other

theorem fileStep {a : FileAction Char} {fill : Char} (h : p.Tells json v l)
    (hsnapshot : p.snapshots who = .file w)
    (hothers : ∀ other, other ≠ who → (p.snapshots other).writer = .idle)
    (hstep : replaceStep fill v w a = some (v', w'))
    (hm : (Snapshot.file w').Tells json (l.taken who)) (disk : Option Remembered) :
    (p.setSnapshot who (.file w')).Tells json v' { l with disk := disk } ∧
      v'.read = w.saves a v.read := by
  have hfile := h.files who
  rw [hsnapshot] at hfile
  have hafter := hfile.step hstep
  refine ⟨⟨h.stats, h.cache, fun other => ?_, fun one other hone hne => ?_, fun other => ?_⟩,
    hafter.read⟩
  · by_cases hother : other = who
    · subst hother
      simpa using hm
    · simpa [setSnapshot_of_ne hother] using h.snapshots other
  · by_cases hother : other = who
    · subst hother
      rw [setSnapshot_of_ne hne.symm, hothers one hne.symm] at hone
      exact absurd rfl hone
    · rw [setSnapshot_of_ne hother]
      exact hothers other hother
  · rw [hafter.read]
    by_cases hother : other = who
    · subst hother
      rw [setSnapshot_self]
      exact hafter
    · rw [setSnapshot_of_ne hother, hothers other hother]
      exact hafter.stop

theorem setStats {stats : Stats} {shards : List (List QueryLogEntry)} (h : p.Tells json v l)
    (hstats : Server.Tells stats shards) :
    (p.setStats stats).Tells json v { l with shards := shards } where
  stats := hstats
  cache := h.cache
  snapshots := h.snapshots
  turns := h.turns
  files := h.files

theorem setCache (h : p.Tells json v l) (cache : CacheCounters) :
    StatsProcess.Tells json v { p with cache := cache } { l with cache := cache } where
  stats := h.stats
  cache := rfl
  snapshots := h.snapshots
  turns := h.turns
  files := h.files

end StatsProcess.Tells

theorem tells_started {n : Nat} {text : Option Text} (hn : 0 < n)
    (hstopped : v.Replaces .idle v.read)
    (hread : (∃ t, text = some t ∧ Records json t m) ∨ (text = none ∧ m = nothing))
    (enabled : Bool) (days : UInt32) (anonymize : Bool) (l : Ledger) :
    (StatsProcess.started json text n enabled days anonymize).Tells json v
      { l with shards := m.entries :: List.replicate (n - 1) [], cache := m.cache } := by
  rcases hread with ⟨t, rfl, loaded, hloaded, hcounts, hcache⟩ | ⟨rfl, rfl⟩
  · simp only [StatsProcess.started, Option.bind_some, hloaded]
    exact ⟨tells_import hn enabled days anonymize hcounts, hcache, fun _ => trivial,
      fun _ _ _ _ => rfl, fun _ => hstopped⟩
  · exact ⟨tells_new hn enabled days anonymize, rfl, fun _ => trivial, fun _ _ _ _ => rfl,
      fun _ => hstopped⟩

/-- No other one writes while a snapshot is written. -/
theorem others_idle (h : p.Tells json v l) {i done : Nat} {text : Text}
    (hsnapshot : p.snapshots who = .file (.writing i text done)) (other : Snapshotter)
    (hne : other ≠ who) : (p.snapshots other).writer = .idle := by
  refine h.turns who other ?_ hne
  simp [hsnapshot, Snapshot.writer]

theorem writing_of_fileStep {a : FileAction Char} (ha : ∀ text, a ≠ .create text)
    (hstep : p.fileStep v who a = some (v', p')) :
    ∃ i text done w', p.snapshots who = .file (.writing i text done) ∧
      replaceStep (Char.ofNat 0) v (.writing i text done) a = some (v', w') ∧
      (w' = .idle ∨ ∃ done', w' = .writing i text done') ∧ p' = p.setSnapshot who (.file w') := by
  unfold StatsProcess.fileStep at hstep
  split at hstep
  · rename_i writer hsnapshot
    simp only [Option.map_eq_some_iff, Prod.mk.injEq] at hstep
    obtain ⟨⟨v, w'⟩, hreplace, rfl, rfl⟩ := hstep
    cases writer with
    | idle =>
        cases a with
        | create text => exact absurd rfl (ha text)
        | _ => cases hreplace
    | writing i text done =>
        refine ⟨i, text, done, w', hsnapshot, hreplace, ?_, rfl⟩
        cases a with
        | create text => exact absurd rfl (ha text)
        | write n =>
            simp only [replaceStep] at hreplace
            split at hreplace <;> cases hreplace
            exact .inr ⟨_, rfl⟩
        | fail =>
            cases hreplace
            exact .inl rfl
        | rename =>
            simp only [replaceStep] at hreplace
            split at hreplace
            · simp only [Option.map_eq_some_iff, Prod.mk.injEq] at hreplace
              obtain ⟨-, -, -, rfl⟩ := hreplace
              exact .inl rfl
            · cases hreplace
  · cases hstep

theorem right_renamed {ch : Chronicle} {i done : Nat} {text : Text} {fill : Char}
    (htells : p.Tells json ch.site.volume ch.ledger)
    (hsnapshot : p.snapshots who = .file (.writing i text done))
    (hstep : replaceStep fill ch.site.volume (.writing i text done) .rename = some (v', w'))
    (hm : (Snapshot.file w').Tells json (ch.ledger.taken who)) :
    Chronicle.Right json ⟨⟨v', some (p.setSnapshot who (.file w'))⟩,
      { ch.ledger with disk := some (ch.ledger.taken who) }⟩ := by
  have hrecords : Records json text (ch.ledger.taken who) := by
    have hwho := htells.snapshots who
    rwa [hsnapshot] at hwho
  obtain ⟨hnext, hread⟩ := htells.fileStep hsnapshot (others_idle htells hsnapshot) hstep hm
    (some (ch.ledger.taken who))
  simp only [Writer.saves] at hread
  refine ⟨?_, ?_, (hnext.files who).stop, fun p' hp' => ?_⟩
  · simp [hread]
  · simp only [hread, Option.some.injEq]
    rintro _ rfl
    exact ⟨_, rfl, hrecords⟩
  · cases hp'
    exact hnext

namespace Chronicle.Right

variable {ch : Chronicle} {process : Option StatsProcess}

theorem next_of_disk (h : ch.Right json) (hl : l.disk = ch.ledger.disk)
    (hrunning : ∀ p, process = some p → p.Tells json ch.site.volume l) :
    Chronicle.Right json ⟨⟨ch.site.volume, process⟩, l⟩ where
  absent := by
    rw [hl]
    exact h.absent
  present := by
    rw [hl]
    exact h.present
  stopped := h.stopped
  running := hrunning

theorem next_of_process (h : ch.Right json) (hl : l.disk = ch.ledger.disk)
    (htells : p.Tells json ch.site.volume l) :
    Chronicle.Right json ⟨⟨ch.site.volume, some p⟩, l⟩ :=
  h.next_of_disk hl fun p' hp' => by
    cases hp'
    exact htells

theorem started (h : ch.Right json) {n : Nat} (hn : 0 < n) (loads enabled : Bool)
    (days : UInt32) (anonymize : Bool) :
    Chronicle.Right json ⟨⟨ch.site.volume, some (.started json
      (if loads then ch.site.volume.read else none) n enabled days anonymize)⟩,
      ch.ledger.restarted loads n⟩ := by
  refine h.next_of_process rfl (tells_started hn h.stopped ?_ enabled days anonymize ch.ledger)
  cases loads with
  | false => exact .inr ⟨rfl, rfl⟩
  | true =>
      cases hread : ch.site.volume.read with
      | none => exact .inr ⟨rfl, by simp [h.absent hread]⟩
      | some text =>
          obtain ⟨m, hm, hrecords⟩ := h.present text hread
          exact .inl ⟨text, rfl, by simpa [hm] using hrecords⟩

/-- The next shard is merged, and what is remembered of it is taken along. -/
theorem took {cache : CacheCounters} {next : Nat} {acc shard : StatsInner} (h : ch.Right json)
    (htells : p.Tells json ch.site.volume ch.ledger)
    (hsnapshot : p.snapshots who = .merging cache next acc)
    (hshard : p.stats.shards[next]? = some shard) :
    Chronicle.Right json ⟨⟨ch.site.volume,
      some (p.setSnapshot who (.merging cache (next + 1) (acc.mergeFrom shard)))⟩,
      ch.ledger.after p (.take who)⟩ := by
  obtain ⟨entries, hentries, hcounts⟩ := forall₂_getElem? htells.stats hshard
  have hmerging := htells.snapshots who
  rw [hsnapshot] at hmerging
  simp only [Ledger.after, hsnapshot, hentries, Option.getD_some]
  refine h.next_of_process rfl (htells.setSnapshot rfl ⟨hmerging.1, fun c => ?_⟩)
  rw [statCount_mergeFrom, hmerging.2 c, hcounts c, countOf_append]

/-- A step of writing a snapshot that does not put it in place. -/
theorem wrote {a : FileAction Char} {fill : Char} (h : ch.Right json)
    (htells : p.Tells json ch.site.volume ch.ledger) (hsnapshot : p.snapshots who = .file w)
    (hothers : ∀ other, other ≠ who → (p.snapshots other).writer = .idle)
    (hstep : replaceStep fill ch.site.volume w a = some (v', w'))
    (hm : (Snapshot.file w').Tells json (ch.ledger.taken who))
    (hsame : w.saves a ch.site.volume.read = ch.site.volume.read) :
    Chronicle.Right json ⟨⟨v', some (p.setSnapshot who (.file w'))⟩, ch.ledger⟩ := by
  obtain ⟨hnext, hread⟩ := htells.fileStep hsnapshot hothers hstep hm ch.ledger.disk
  rw [hsame] at hread
  refine ⟨?_, ?_, (hnext.files who).stop, fun p' hp' => ?_⟩
  · simp only [hread]
    exact h.absent
  · simp only [hread]
    exact h.present
  · cases hp'
    exact hnext

/-- A step of a snapshot that is being written, and what it leaves on disk. -/
theorem fileStep {a : FileAction Char} (h : ch.Right json)
    (htells : p.Tells json ch.site.volume ch.ledger) (ha : ∀ text, a ≠ .create text)
    (hstep : p.fileStep ch.site.volume who a = some (v', p')) :
    Chronicle.Right json ⟨⟨v', some p'⟩,
      if a = .rename then { ch.ledger with disk := some (ch.ledger.taken who) }
      else ch.ledger⟩ := by
  obtain ⟨i, text, done, w', hsnapshot, hreplace, hw', rfl⟩ := writing_of_fileStep ha hstep
  have hrecords : Records json text (ch.ledger.taken who) := by
    have hwho := htells.snapshots who
    rwa [hsnapshot] at hwho
  have hm : (Snapshot.file w').Tells json (ch.ledger.taken who) := by
    rcases hw' with rfl | ⟨done', rfl⟩
    · trivial
    · exact hrecords
  split
  · subst a
    exact right_renamed htells hsnapshot hreplace hm
  · refine h.wrote htells hsnapshot (others_idle htells hsnapshot) hreplace hm ?_
    cases a with
    | rename => contradiction
    | _ => rfl

theorem created {cache : CacheCounters} {next : Nat} {acc : StatsInner} {site' : StatsSite}
    (h : ch.Right json) (htells : p.Tells json ch.site.volume ch.ledger)
    (hsnapshot : p.snapshots who = .merging cache next acc)
    (hturns : TakesTurns json ⟨⟨ch.site.volume, some p⟩, ch.ledger⟩ (.create who))
    (hstep : ((p.setSnapshot who (.file .idle)).fileStep ch.site.volume who
      (.create (json.toString (exported p.stats cache acc)))).map
        (fun r => (⟨r.1, some r.2⟩ : StatsSite)) = some site') :
    Chronicle.Right json ⟨site', ch.ledger⟩ := by
  obtain ⟨hothers, hreads⟩ := hturns
  have hmerging := htells.snapshots who
  rw [hsnapshot] at hmerging
  -- the snapshot leaves the shards, and is not written yet
  have hidle : (p.setSnapshot who (.file .idle)).Tells json ch.site.volume ch.ledger := by
    have hset : (p.setSnapshot who (.file .idle)).Tells json ch.site.volume
        { ch.ledger with
          taken := Function.update ch.ledger.taken who (ch.ledger.taken who) } :=
      htells.setSnapshot rfl trivial
    rwa [Function.update_eq_self] at hset
  have hcreate : replaceStep (Char.ofNat 0) ch.site.volume .idle
      (.create (json.toString (exported p.stats cache acc))) = some (_, _) := rfl
  simp only [StatsProcess.fileStep, setSnapshot_self, replaceStep, Option.map_some,
    Option.some.injEq] at hstep
  subst hstep
  refine h.wrote hidle (setSnapshot_self ..) (fun other hne => ?_) hcreate ?_ rfl
  · rw [setSnapshot_of_ne hne]
    exact hothers other hne
  · obtain ⟨loaded, hloaded, hcounts, hcounters⟩ := hreads cache next acc hsnapshot
    refine ⟨loaded, hloaded, fun c => ?_, hcounters.trans hmerging.1⟩
    rw [hcounts c, statCount_exported, hmerging.2 c]

theorem step {ch' : Chronicle} {a : StatsSiteAction} (h : ch.Right json)
    (hturns : TakesTurns json ch a) (hstep : ch.step json a = some ch') : ch'.Right json := by
  obtain ⟨⟨v, process⟩, l⟩ := ch
  simp only [Chronicle.step, Option.map_eq_some_iff] at hstep
  obtain ⟨site', hsite, rfl⟩ := hstep
  cases process with
  | none =>
      cases a with
      | start loads shards enabled days anonymize =>
          simp only [siteStep] at hsite
          split at hsite
          · cases hsite
            exact h.started (by assumption) loads enabled days anonymize
          · cases hsite
      | _ => cases hsite
  | some p =>
      have htells := h.running p rfl
      cases a with
      | kill =>
          cases hsite
          exact h.next_of_disk rfl (by simp)
      | start => cases hsite
      | record order slot entry rtt =>
          simp only [siteStep, StatsProcess.step, Option.map_map, Option.map_eq_some_iff] at hsite
          obtain ⟨stats, hrecord, rfl⟩ := hsite
          exact h.next_of_process rfl (htells.setStats (htells.stats.record hrecord))
      | count cache =>
          cases hsite
          exact h.next_of_process rfl (htells.setCache cache)
      | resetShard i =>
          cases hsite
          exact h.next_of_process rfl (htells.setStats (htells.stats.resetShard i))
      | resetCache =>
          cases hsite
          exact h.next_of_process rfl (htells.setCache noCounters)
      | reconfigure enabled days anonymize =>
          cases hsite
          exact h.next_of_process rfl
            (htells.setStats (htells.stats.reconfigure enabled days anonymize))
      | begin who =>
          simp only [siteStep, StatsProcess.step] at hsite
          split at hsite
          · cases hsite
            have hbegun : (Snapshot.merging p.cache 0 .default).Tells json ⟨[], l.cache⟩ :=
              ⟨htells.cache, fun c => statCount_default c⟩
            exact h.next_of_process rfl (htells.setSnapshot rfl hbegun)
          · cases hsite
      | take who =>
          simp only [siteStep, StatsProcess.step] at hsite
          split at hsite
          · rename_i cache next acc hsnapshot
            simp only [Option.map_map, Option.map_eq_some_iff] at hsite
            obtain ⟨shard, hshard, rfl⟩ := hsite
            exact h.took htells hsnapshot hshard
          · cases hsite
      | create who =>
          simp only [siteStep, StatsProcess.step] at hsite
          split at hsite
          · rename_i cache next acc hsnapshot
            split at hsite
            · exact h.created htells hsnapshot hturns hsite
            · cases hsite
          · cases hsite
      | write who n =>
          simp only [siteStep, StatsProcess.step, Option.map_eq_some_iff] at hsite
          obtain ⟨⟨v', p'⟩, hfile, rfl⟩ := hsite
          exact h.fileStep htells (by simp) hfile
      | fail who =>
          simp only [siteStep, StatsProcess.step, Option.map_eq_some_iff] at hsite
          obtain ⟨⟨v', p'⟩, hfile, rfl⟩ := hsite
          exact h.fileStep htells (by simp) hfile
      | rename who =>
          simp only [siteStep, StatsProcess.step, Option.map_eq_some_iff] at hsite
          obtain ⟨⟨v', p'⟩, hfile, rfl⟩ := hsite
          exact h.fileStep htells (by simp) hfile

end Chronicle.Right

end

/-! ## No query twice -/

/-- What a snapshot has still to take. -/
def Snapshot.rest (shards : List (List QueryLogEntry)) : Snapshot → List QueryLogEntry
  | .merging _ next _ => (shards.drop next).flatten
  | .file _ => []

structure Chronicle.Within (recorded : List QueryLogEntry) (ch : Chronicle) : Prop where
  shards : ∀ f, List.countP f ch.ledger.shards.flatten ≤ List.countP f recorded
  disk : ∀ m, ch.ledger.disk = some m → ∀ f, List.countP f m.entries ≤ List.countP f recorded
  taken : ∀ who f, List.countP f (ch.ledger.taken who).entries ≤ List.countP f recorded
  merging : ∀ p, ch.site.process = some p → ∀ who f, List.countP f (ch.ledger.taken who).entries +
    List.countP f ((p.snapshots who).rest ch.ledger.shards) ≤ List.countP f recorded

section

variable {json : StatsJson} {shards : List (List QueryLogEntry)} {recorded : List QueryLogEntry}

theorem countP_drop_modify (shards : List (List QueryLogEntry)) (i n : Nat)
    (entry : QueryLogEntry) (f : QueryLogEntry → Bool) :
    List.countP f ((shards.modify i (· ++ [entry])).drop n).flatten ≤
      List.countP f (shards.drop n).flatten + List.countP f [entry] := by
  induction shards generalizing i n with
  | nil => simp
  | cons shard shards ih =>
      cases i with
      | zero =>
          cases n with
          | zero =>
              simp only [List.modify_zero_cons, List.drop_zero, List.flatten_cons,
                List.countP_append]
              omega
          | succ n => simp
      | succ i =>
          cases n with
          | zero =>
              have hrest := ih i 0
              simp only [List.drop_zero] at hrest
              simp only [List.modify_succ_cons, List.drop_zero, List.flatten_cons,
                List.countP_append]
              omega
          | succ n => simpa using ih i n

theorem countP_drop_set (shards : List (List QueryLogEntry)) (i n : Nat)
    (f : QueryLogEntry → Bool) :
    List.countP f ((shards.set i []).drop n).flatten ≤ List.countP f (shards.drop n).flatten := by
  induction shards generalizing i n with
  | nil => simp
  | cons shard shards ih =>
      cases i with
      | zero =>
          cases n with
          | zero => simp
          | succ n => simp
      | succ i =>
          cases n with
          | zero => simpa using ih i 0
          | succ n => simpa using ih i n

theorem countP_rest_modify (shards : List (List QueryLogEntry)) (i : Nat)
    (entry : QueryLogEntry) (snapshot : Snapshot) (f : QueryLogEntry → Bool) :
    List.countP f (snapshot.rest (shards.modify i (· ++ [entry]))) ≤
      List.countP f (snapshot.rest shards) + List.countP f [entry] := by
  cases snapshot with
  | merging _ next _ => exact countP_drop_modify shards i next entry f
  | file _ => simp [Snapshot.rest]

theorem countP_rest_set (shards : List (List QueryLogEntry)) (i : Nat) (snapshot : Snapshot)
    (f : QueryLogEntry → Bool) :
    List.countP f (snapshot.rest (shards.set i [])) ≤ List.countP f (snapshot.rest shards) := by
  cases snapshot with
  | merging _ next _ => exact countP_drop_set shards i next f
  | file _ => simp [Snapshot.rest]

theorem countP_nothing (f : QueryLogEntry → Bool) : List.countP f nothing.entries = 0 := rfl

namespace Chronicle.Within

variable {ch : Chronicle} {p : StatsProcess}

theorem restarted (h : ch.Within recorded) (loads : Bool) (n : Nat) (f : QueryLogEntry → Bool) :
    List.countP f (ch.ledger.restarted loads n).shards.flatten ≤ List.countP f recorded := by
  have hempty : (List.replicate (n - 1) ([] : List QueryLogEntry)).flatten = [] := by simp
  simp only [Ledger.restarted, List.flatten_cons, hempty, List.append_nil]
  cases loads with
  | false => simp [countP_nothing]
  | true =>
      cases hdisk : ch.ledger.disk with
      | none => simp [countP_nothing]
      | some m => simpa using h.disk m hdisk f

theorem setSnapshot {who : Snapshotter} {snapshot : Snapshot} {m : Remembered}
    (h : ch.Within recorded) (hp : ch.site.process = some p)
    (hm : ∀ f, List.countP f m.entries + List.countP f (snapshot.rest ch.ledger.shards) ≤
      List.countP f recorded) (v : Volume Char) (disk : Option Remembered)
    (hdisk : ∀ m, disk = some m → ∀ f, List.countP f m.entries ≤ List.countP f recorded) :
    Chronicle.Within recorded ⟨⟨v, some (p.setSnapshot who snapshot)⟩,
      { ch.ledger with taken := Function.update ch.ledger.taken who m, disk := disk }⟩ where
  shards := h.shards
  disk := hdisk
  taken other f := by
    by_cases hother : other = who
    · subst hother
      have hle := hm f
      simp only [Function.update_self]
      omega
    · simpa [Function.update_of_ne hother] using h.taken other f
  merging p' hp' other f := by
    cases hp'
    by_cases hother : other = who
    · subst hother
      simpa using hm f
    · simpa [Function.update_of_ne hother, setSnapshot_of_ne hother] using h.merging p hp other f

theorem setFile {who : Snapshotter} (h : ch.Within recorded) (hp : ch.site.process = some p)
    (w : Writer Char) (v : Volume Char) {disk : Option Remembered}
    (hdisk : ∀ m, disk = some m → ∀ f, List.countP f m.entries ≤ List.countP f recorded) :
    Chronicle.Within recorded ⟨⟨v, some (p.setSnapshot who (.file w))⟩,
      { ch.ledger with disk := disk }⟩ := by
  have hset : Chronicle.Within recorded ⟨⟨v, some (p.setSnapshot who (.file w))⟩,
      { ch.ledger with
        taken := Function.update ch.ledger.taken who (ch.ledger.taken who), disk := disk }⟩ :=
    h.setSnapshot hp (by simpa [Snapshot.rest] using h.taken who) v disk hdisk
  rwa [Function.update_eq_self] at hset

theorem fileStep {who : Snapshotter} {a : FileAction Char} {v : Volume Char}
    {q : StatsProcess} {site' : StatsSite} (h : ch.Within recorded)
    (hp : ch.site.process = some p) (hq : ∀ w, q.setSnapshot who w = p.setSnapshot who w)
    {disk : Option Remembered}
    (hdisk : ∀ m, disk = some m → ∀ f, List.countP f m.entries ≤ List.countP f recorded)
    (hstep : (q.fileStep v who a).map (fun r => (⟨r.1, some r.2⟩ : StatsSite)) = some site') :
    Chronicle.Within recorded ⟨site', { ch.ledger with disk := disk }⟩ := by
  unfold StatsProcess.fileStep at hstep
  split at hstep
  · simp only [Option.map_map, Option.map_eq_some_iff] at hstep
    obtain ⟨⟨v', w'⟩, -, rfl⟩ := hstep
    simp only [Function.comp_apply, hq]
    exact h.setFile hp w' v' hdisk
  · cases hstep

/-- Statistics or counters change, but no snapshot does. -/
theorem setProcess {recorded' : List QueryLogEntry} {p' : StatsProcess} {l : Ledger}
    {extra : (QueryLogEntry → Bool) → Nat} (h : ch.Within recorded) (hp : ch.site.process = some p)
    (hp' : p'.snapshots = p.snapshots) (htaken : l.taken = ch.ledger.taken)
    (hdisk : l.disk = ch.ledger.disk)
    (hrecorded : ∀ f, List.countP f recorded' = List.countP f recorded + extra f)
    (hshards : ∀ f,
      List.countP f l.shards.flatten ≤ List.countP f ch.ledger.shards.flatten + extra f)
    (hrest : ∀ (snapshot : Snapshot) f, List.countP f (snapshot.rest l.shards) ≤
      List.countP f (snapshot.rest ch.ledger.shards) + extra f) (v : Volume Char) :
    Chronicle.Within recorded' ⟨⟨v, some p'⟩, l⟩ where
  shards f := by
    have hle := h.shards f
    rw [hrecorded]
    exact (hshards f).trans (by omega)
  disk m hm f := by
    rw [hdisk] at hm
    have hle := h.disk m hm f
    rw [hrecorded]
    omega
  taken who f := by
    have hle := h.taken who f
    rw [hrecorded]
    simp only [htaken]
    omega
  merging q hq who f := by
    cases hq
    have hle := h.merging p hp who f
    have hstep := hrest (p.snapshots who) f
    rw [hrecorded]
    simp only [htaken, hp']
    omega

theorem setCache {p' : StatsProcess} (h : ch.Within recorded) (hp : ch.site.process = some p)
    (hp' : p'.snapshots = p.snapshots) (cache : CacheCounters) (v : Volume Char) :
    Chronicle.Within recorded ⟨⟨v, some p'⟩, { ch.ledger with cache := cache }⟩ where
  shards := h.shards
  disk := h.disk
  taken := h.taken
  merging q hq := by
    cases hq
    rw [hp']
    exact h.merging p hp

theorem silent {ch' : Chronicle} {a : StatsSiteAction} (h : ch'.Within recorded)
    (ha : recordedIn [a] = []) : ch'.Within (recorded ++ recordedIn [a]) := by
  rwa [ha, List.append_nil]

theorem started {json : StatsJson} {n : Nat} (h : ch.Within recorded) (loads enabled : Bool)
    (days : UInt32) (anonymize : Bool) (text : Option Text) (v : Volume Char) :
    Chronicle.Within recorded ⟨⟨v, some (.started json text n enabled days anonymize)⟩,
      ch.ledger.restarted loads n⟩ where
  shards := h.restarted loads n
  disk := h.disk
  taken := h.taken
  merging p hp who f := by
    cases hp
    have hfile :
        (StatsProcess.started json text n enabled days anonymize).snapshots who = .file .idle := by
      unfold StatsProcess.started
      split <;> rfl
    rw [hfile]
    exact h.taken who f

/-- What is taken along was to be taken, and is not taken again. -/
theorem took {who : Snapshotter} {cache : CacheCounters} {next : Nat} {acc acc' : StatsInner}
    (h : ch.Within recorded) (hp : ch.site.process = some p)
    (hsnapshot : p.snapshots who = .merging cache next acc) (v : Volume Char) :
    Chronicle.Within recorded
      ⟨⟨v, some (p.setSnapshot who (.merging cache (next + 1) acc'))⟩,
        ch.ledger.after p (.take who)⟩ := by
  simp only [Ledger.after, hsnapshot]
  refine h.setSnapshot hp (fun f => ?_) v ch.ledger.disk h.disk
  have hmerging := h.merging p hp who f
  rw [hsnapshot] at hmerging
  simp only [Snapshot.rest] at hmerging ⊢
  by_cases hlt : next < ch.ledger.shards.length
  · rw [List.drop_eq_getElem_cons hlt, List.flatten_cons, List.countP_append] at hmerging
    simp only [List.getElem?_eq_getElem hlt, Option.getD_some, List.countP_append]
    omega
  · have hend : ch.ledger.shards.length ≤ next := Nat.le_of_not_lt hlt
    rw [List.drop_eq_nil_of_le hend] at hmerging
    rw [List.drop_eq_nil_of_le (Nat.le_succ_of_le hend), List.getElem?_eq_none hend]
    simpa using hmerging

theorem step {recorded : List QueryLogEntry} {ch' : Chronicle} {a : StatsSiteAction}
    (h : ch.Within recorded) (hstep : ch.step json a = some ch') :
    ch'.Within (recorded ++ recordedIn [a]) := by
  obtain ⟨⟨v, process⟩, l⟩ := ch
  simp only [Chronicle.step, Option.map_eq_some_iff] at hstep
  obtain ⟨site', hsite, rfl⟩ := hstep
  cases process with
  | none =>
      cases a with
      | start loads shards enabled days anonymize =>
          simp only [siteStep] at hsite
          split at hsite <;> cases hsite
          exact (h.started loads enabled days anonymize _ v).silent rfl
      | _ => cases hsite
  | some p =>
      cases a with
      | kill =>
          cases hsite
          exact silent ⟨h.shards, h.disk, h.taken, by simp⟩ rfl
      | start => cases hsite
      | record order slot entry rtt =>
          simp only [siteStep, StatsProcess.step, Option.map_map, Option.map_eq_some_iff] at hsite
          obtain ⟨stats, hrecord, rfl⟩ := hsite
          have hrecorded : ∀ f, List.countP f (recorded ++ [entry]) =
              List.countP f recorded + List.countP f [entry] := fun f => List.countP_append
          refine h.setProcess rfl (by rfl) (by rfl) (by rfl) hrecorded (fun f => ?_)
            (fun snapshot f => ?_) v
          · simp only [Chronicle.next, Ledger.after]
            split
            · simpa using countP_drop_modify l.shards (p.stats.shardIndex slot) 0 entry f
            · omega
          · simp only [Chronicle.next, Ledger.after]
            split
            · exact countP_rest_modify l.shards (p.stats.shardIndex slot) entry snapshot f
            · omega
      | count cache =>
          cases hsite
          exact (h.setCache rfl (by rfl) cache v).silent rfl
      | resetShard i =>
          cases hsite
          refine h.setProcess rfl (by rfl) (by rfl) (by rfl)
            (fun f => List.countP_append) (fun f => ?_) (fun snapshot f => ?_) v
          · exact countP_drop_set l.shards i 0 f
          · exact countP_rest_set l.shards i snapshot f
      | resetCache =>
          cases hsite
          exact (h.setCache rfl (by rfl) noCounters v).silent rfl
      | reconfigure enabled days anonymize =>
          cases hsite
          exact (h.setCache rfl (by rfl) l.cache v).silent rfl
      | begin who =>
          simp only [siteStep, StatsProcess.step] at hsite
          split at hsite <;> cases hsite
          refine silent (h.setSnapshot rfl (fun f => ?_) v l.disk h.disk) rfl
          simpa [Snapshot.rest] using h.shards f
      | take who =>
          simp only [siteStep, StatsProcess.step] at hsite
          split at hsite
          · rename_i cache next acc hsnapshot
            simp only [Option.map_map, Option.map_eq_some_iff] at hsite
            obtain ⟨shard, -, rfl⟩ := hsite
            exact (h.took rfl hsnapshot v).silent rfl
          · cases hsite
      | create who =>
          simp only [siteStep, StatsProcess.step] at hsite
          split at hsite
          · split at hsite
            · refine silent (h.fileStep rfl (fun w => ?_) h.disk hsite) rfl
              simp [StatsProcess.setSnapshot]
            · cases hsite
          · cases hsite
      | write who n => exact (h.fileStep rfl (fun _ => rfl) h.disk hsite).silent rfl
      | fail who => exact (h.fileStep rfl (fun _ => rfl) h.disk hsite).silent rfl
      | rename who =>
          refine silent (h.fileStep rfl (fun _ => rfl) (fun m hm => ?_) hsite) rfl
          cases hm
          exact h.taken who

end Chronicle.Within

end

/-! ## All runs -/

def Chronicle.view (ch : Chronicle) : Option (Nat × Nat × Nat × CacheCounters) :=
  ch.site.process.map fun p =>
    (p.stats.merged.total, p.stats.merged.cached, p.stats.merged.errors, p.cache)

end Bulwark.Server
