import Bulwark.Server.ProbeStore

/-!
# The query log and the probe log

Both logs are writers of one kind: what the API reads is what was pushed, accepted and not
deleted since, in the order of acceptance.  The query log leaves out addresses while it is
anonymized; its two flags are set one after the other, and a push may fall in between.
-/

namespace Bulwark.Server

open Bulwark.Foundation Bulwark.Engine Bulwark.Upstream

/-! ## What remains was accepted -/

section

variable {τ α : Type} {capacity limit : Nat} {kind : LogKind τ α}

theorem mem_remaining {timeMs : α → Int} {history : List (Written α)} {e : α}
    (h : e ∈ remaining timeMs history) : e ∈ history.flatMap Written.batch := by
  induction history using List.reverseRecOn with
  | nil => simp [remaining] at h
  | append_singleton history x ih =>
      rw [LogWriter.remaining_append] at h
      rw [List.flatMap_append]
      cases x with
      | stored batch =>
          rcases List.mem_append.mp h with hold | hnew
          · exact List.mem_append_left _ (ih hold)
          · exact List.mem_append_right _ (by simpa [Written.batch, Written.batch?] using hnew)
      | lost batch => exact List.mem_append_left _ (ih h)
      | pruned cutoff => exact List.mem_append_left _ (ih (List.mem_of_mem_filter h))
      | cleared => cases h

namespace LogWriter

def PushesHave (u : LogWriter τ α capacity limit) (Q : α → Prop) : Prop :=
  ∀ p e, u.pushes p = some (.passed e) ∨ u.pushes p = some (.ready e) → Q e

theorem PushesHave.step {Q : α → Prop} (hanonymized : ∀ e, Q e → Q (kind.anonymized e))
    {u v : LogWriter τ α capacity limit} {a : LogAction α} (h : u.PushesHave Q)
    (ha : ∀ p e, a = .push p e → Q e) (hpushes : u.Pushes kind a v) : v.PushesHave Q := by
  have hkeep : ∀ {p : Nat} {phase : Option (PushPhase α)},
      v.pushes = Function.update u.pushes p phase →
      (∀ e, phase = some (.passed e) ∨ phase = some (.ready e) → Q e) → v.PushesHave Q := by
    intro p phase hnext hphase p' e hp'
    rw [hnext, Function.update_apply] at hp'
    split at hp'
    · exact hphase e hp'
    · exact h p' e hp'
  cases hpushes with
  | @pass p entry _ _ hnext =>
      refine hkeep hnext ?_
      rintro e (⟨⟨⟩⟩ | ⟨⟨⟩⟩)
      exact ha p entry rfl
  | @gate p entry _ hp hnext =>
      refine hkeep hnext ?_
      rintro e (⟨⟨⟩⟩ | ⟨⟨⟩⟩)
      have hentry := h p entry (.inl hp)
      split
      · exact hanonymized _ hentry
      · exact hentry
  | send _ hnext => exact hkeep hnext (by simp)
  | setEnabled | setAnonymize => exact h
  | rest hnext =>
      unfold PushesHave
      rw [hnext]
      exact h

/-- What has been accepted has what every pushed entry has, anonymized or not. -/
theorem accepted_of_pushed {Q : α → Prop} {rows : τ} {enabled anonymize : Bool}
    {as : List (LogAction α)} {w : LogWriter τ α capacity limit}
    (hpushed : ∀ p e, .push p e ∈ as → Q e) (hanonymized : ∀ e, Q e → Q (kind.anonymized e))
    (hrun : runFrom (step kind) (new rows enabled anonymize) as = some w) :
    ∀ e ∈ w.accepted, Q e := by
  obtain ⟨later, hlater, hQ⟩ := accepted_of_kept (A := fun a => ∀ p e, a = .push p e → Q e)
    (K := fun u => u.PushesHave Q) (fun u p e hu hp => hu p e (.inr hp))
    (fun u a v ha hu hpushes => hu.step hanonymized ha hpushes) (by simp [new, PushesHave])
    (fun a ha p e hpush => hpushed p e (hpush ▸ ha)) hrun
  intro e he
  rw [hlater] at he
  exact hQ e (by simpa [new] using he)

end LogWriter

end

/-! ## The query log -/

def queryLogChannelCap : Nat := 512

def queryLogBatch : Nat := 512

abbrev QueryLogWriter := LogWriter (List Row) QueryLogEntry queryLogChannelCap queryLogBatch

/-- Anonymized entries have no address. -/
def queryKind (json : AnswersJson) : LogKind (List Row) QueryLogEntry :=
  ⟨queryTable json, fun e => { e with clientIp := [] }, QueryLogEntry.timeMs⟩

def QueryRows (json : AnswersJson) (rows : List Row) (log : List QueryLogEntry) : Prop :=
  ∃ pairs, Mirrors json rows log pairs

theorem represents_queryRows (json : AnswersJson) :
    (queryKind json).Represents (QueryRows json) where
  insert := by
    rintro rows log e ⟨pairs, h⟩
    exact ⟨_, h.insert e⟩
  delete := by
    rintro rows log cutoff ⟨pairs, h⟩
    exact h.call (.deleteOlderThan cutoff)
  clear := by
    rintro rows log ⟨pairs, h⟩
    exact h.call .clear

/--
In every run of the query log in which no commit fails: what was accepted is stored or lost
batch by batch, or on its way, in its order; and a page of the log shows, newest first, the
entries that were stored and not deleted since and are wanted, and counts them.
-/
theorem queryLog_page (json : AnswersJson) {enabled anonymize : Bool}
    {as : List (LogAction QueryLogEntry)} {w : QueryLogWriter}
    (hpushed : ∀ p e, .push p e ∈ as → Readable json e)
    (hcommits : EachStep (LogWriter.step (queryKind json)) LogWriter.Commits
      (.new [] enabled anonymize : QueryLogWriter) as)
    (hrun : runFrom (LogWriter.step (queryKind json)) (.new [] enabled anonymize) as = some w)
    (filter : LogFilter) (clients : ClientMatcher) {offset limit : Nat} (hoffset : offset < 2 ^ 63)
    (hlimit : limit < 2 ^ 63) :
    w.accepted =
        w.history.flatMap Written.batch ++ w.storing.getD [] ++ w.mailbox.contents ∧
      ∃ page, query json w.conn.committed filter offset limit clients = some page ∧
        page.total = ((remaining QueryLogEntry.timeMs w.history).filter
          (wanted filter clients)).length ∧
        page.entries.map withoutId =
          ((((remaining QueryLogEntry.timeMs w.history).filter
            (wanted filter clients)).reverse.drop offset).take limit).map withoutId := by
  have hexact := LogWriter.exact_of_run (represents_queryRows json) ⟨[], rfl, rfl, .nil⟩
    hcommits hrun
  have haccepted := LogWriter.accepted_of_pushed (Q := Readable json) hpushed
    (fun e he => he) hrun
  refine ⟨hexact.flow, ?_⟩
  obtain ⟨pairs, hmirrors⟩ := hexact.table
  have hlog : remaining QueryLogEntry.timeMs w.history = pairs.map (·.2) := hmirrors.log
  have hread : ∀ pair ∈ pairs, Readable json pair.2 := by
    intro pair hpair
    have hmem : pair.2 ∈ remaining QueryLogEntry.timeMs w.history :=
      hlog ▸ List.mem_map_of_mem hpair
    refine haccepted _ ?_
    rw [hexact.flow, List.append_assoc]
    exact List.mem_append_left _ (mem_remaining hmem)
  have hquery := query_rowOf hmirrors.growing hread filter clients hoffset hlimit
  have hchosen : (remaining QueryLogEntry.timeMs w.history).filter (wanted filter clients) =
      (pairs.filter fun pair => wanted filter clients pair.2).map (·.2) := by
    rw [hlog, List.filter_map]
    rfl
  rw [hmirrors.rows]
  refine ⟨_, hquery, ?_, ?_⟩
  · rw [hchosen, List.length_map]
  · rw [hchosen, ← List.map_reverse, ← List.map_drop, ← List.map_take, List.map_map, List.map_map]
    rfl

theorem LogWriter.commits_of_actions {τ α : Type} {capacity limit : Nat} {kind : LogKind τ α}
    {w : LogWriter τ α capacity limit} {as : List (LogAction α)}
    (h : ∀ a ∈ as, ∀ faults, a = .insert faults → faults.commit = false) :
    EachStep (step kind) Commits w as := by
  refine (eachStep_of_actions h w).mono fun u a ha => ?_
  cases a with
  | insert faults =>
      intro batch hstoring hfails
      have hcommit := hfails.2.2.2
      rw [ha faults rfl] at hcommit
      cases hcommit
  | _ => trivial

/-- One entry on its way to a table that is pruned, and a second one behind it. -/
def shownPushes : List (LogAction QueryLogEntry) :=
  [.attach, .push 0 shownEntry, .gate 0, .send 0, .take, .handOn, .push 1 shownEntry, .gate 1,
    .insert .none, .send 1, .prune 1700000000001 30 false]

theorem queryLog_page_shown :
    ∃ w : QueryLogWriter, runFrom (LogWriter.step (queryKind shownJson)) (.new [] true false)
        shownPushes = some w ∧ w.accepted.length = 2 ∧
      ∃ page, query shownJson w.conn.committed ⟨none, none, false⟩ 0 10 .empty = some page ∧
        page.total = ((remaining QueryLogEntry.timeMs w.history).filter
          (wanted ⟨none, none, false⟩ .empty)).length := by
  have hrun : ((runFrom (LogWriter.step (queryKind shownJson))
      (.new [] true false : QueryLogWriter) shownPushes).any fun w =>
        w.accepted.length == 2) = true := by decide +kernel
  obtain ⟨w, hw, haccepted⟩ := (Option.any_eq_true _ _).mp hrun
  have hpushed : ∀ p e, LogAction.push p e ∈ shownPushes → Readable shownJson e := by
    intro p e he
    have hshown : e = shownEntry := by
      simp [shownPushes] at he
      rcases he with ⟨-, rfl⟩ | ⟨-, rfl⟩ <;> rfl
    subst hshown
    exact ⟨⟨_, rfl, rfl⟩, by simp [shownEntry]⟩
  have hcommits : ∀ a ∈ shownPushes, ∀ faults, a = .insert faults → faults.commit = false := by
    simp [shownPushes, Faults.none]
  obtain ⟨-, page, hpage, htotal, -⟩ := queryLog_page shownJson hpushed
    (LogWriter.commits_of_actions hcommits) hw ⟨none, none, false⟩ .empty (by decide : 0 < 2 ^ 63)
    (by decide : 10 < 2 ^ 63)
  exact ⟨w, hw, by simpa using haccepted, page, hpage, htotal⟩

/-- Once the log is anonymized, and until that is changed, no address is accepted any more, and
once it is disabled nothing at all, but for what pushes on their way have already passed. -/
theorem queryLog_flags (json : AnswersJson) {w v : QueryLogWriter}
    {as : List (LogAction QueryLogEntry)}
    (hrun : runFrom (LogWriter.step (queryKind json)) w as = some v) :
    (w.anonymize = true → (∀ a ∈ as, a ≠ .setAnonymize false) →
      ∃ later, v.accepted = w.accepted ++ later ∧
        ∀ e ∈ later, e.clientIp = [] ∨ ∃ p, w.pushes p = some (.ready e)) ∧
    (w.enabled = false → (∀ a ∈ as, a ≠ .setEnabled true) →
      ∃ later, v.accepted = w.accepted ++ later ∧ ∀ e ∈ later, w.Pending (queryKind json) e) := by
  refine ⟨fun hon hkept => ?_, fun hoff hkept => LogWriter.accepted_of_disabled hoff hkept hrun⟩
  obtain ⟨later, hlater, hclean⟩ := LogWriter.accepted_of_anonymized hon hkept hrun
  refine ⟨later, hlater, fun e he => ?_⟩
  rcases hclean e he with ⟨entry, rfl⟩ | hready
  · exact .inl rfl
  · exact .inr hready

theorem queryLog_flags_shown :
    ∃ v : QueryLogWriter, runFrom (LogWriter.step (queryKind shownJson)) (.new [] true true)
        shownPushes = some v ∧ v.accepted.length = 2 ∧ ∀ e ∈ v.accepted, e.clientIp = [] := by
  have hrun : ((runFrom (LogWriter.step (queryKind shownJson))
      (.new [] true true : QueryLogWriter) shownPushes).any fun v =>
        v.accepted.length == 2) = true := by decide +kernel
  obtain ⟨v, hv, haccepted⟩ := (Option.any_eq_true _ _).mp hrun
  obtain ⟨later, hlater, hclean⟩ := (queryLog_flags shownJson hv).1 rfl (by simp [shownPushes])
  refine ⟨v, hv, by simpa using haccepted, fun e he => ?_⟩
  rw [hlater] at he
  simpa [LogWriter.new] using hclean e he

/-- From a disabled log to an enabled and anonymized one: an entry that comes between the two
stores is accepted with its address. -/
theorem reconfigure_gap :
    ((runFrom (LogWriter.step (queryKind shownJson)) (.new [] false false : QueryLogWriter)
      [.attach, .setEnabled true, .push 0 shownEntry, .gate 0, .setAnonymize true, .send 0]).any
        fun w => w.accepted.any fun e => e.clientIp != []) = true := by
  decide +kernel

/-! ## The probe log -/

def probeChannelCap : Nat := 256

def probeDrainBatch : Nat := 256

abbrev ProbeLogWriter := LogWriter (List ProbeRow) ProbeEvent probeChannelCap probeDrainBatch

/-- In every run of the probe log in which no commit fails the same holds of it, and both the
export and the recent events are the events stored and not deleted since. -/
theorem probeLog_read (json : EventJson) {enabled : Bool} {as : List (LogAction ProbeEvent)}
    {w : ProbeLogWriter}
    (hcommits : EachStep (LogWriter.step probeKind) LogWriter.Commits
      (.new [] enabled false : ProbeLogWriter) as)
    (hrun : runFrom (LogWriter.step probeKind) (.new [] enabled false) as = some w)
    (sinceMs : Option Int) {limit : Nat} (hlimit : limit < 2 ^ 63) :
    w.accepted =
        w.history.flatMap Written.batch ++ w.storing.getD [] ++ w.mailbox.contents ∧
      exportJsonl json w.conn.committed = some ((remaining ProbeEvent.timeMs w.history).flatMap
        fun e => ((json e).map (· ++ ['\n'])).getD []) ∧
      recent w.conn.committed sinceMs limit =
        some (((remaining ProbeEvent.timeMs w.history).filter fun e =>
          sinceMs.all fun ms => decide (ms ≤ e.timeMs)).reverse.take limit) := by
  have hexact := LogWriter.exact_of_run represents_probeRows ⟨[], rfl, rfl, .nil⟩ hcommits hrun
  exact ⟨hexact.flow, exportJsonl_probeRows json hexact.table,
    recent_probeRows hexact.table sinceMs hlimit⟩

def shownEvent : ProbeEvent :=
  ⟨1700000000000, "udp://9.9.9.9:53".toList, "nine".toList, .udp, .timeout, none, none, some 12,
    true, 1, some "timed out".toList, some .timeout, none, 100, 1, some 0, false⟩

/-- An old event and a new one, and a table that is pruned of the old one. -/
def shownProbes : List (LogAction ProbeEvent) :=
  [.attach, .push 0 { shownEvent with timeMs := 1600000000000 }, .gate 0, .send 0, .take, .handOn,
    .push 1 shownEvent, .gate 1, .insert .none, .send 1, .take, .handOn, .insert .none,
    .prune 1700000000001 30 false]

theorem probeLog_read_shown :
    ∃ w : ProbeLogWriter, runFrom (LogWriter.step probeKind) (.new [] true false)
        shownProbes = some w ∧
      w.accepted.length = 2 ∧ remaining ProbeEvent.timeMs w.history = [shownEvent] ∧
      recent w.conn.committed (some 20) 100 =
        some (((remaining ProbeEvent.timeMs w.history).filter fun e =>
          (some 20).all fun ms => decide (ms ≤ e.timeMs)).reverse.take 100) := by
  have hrun : ((runFrom (LogWriter.step probeKind) (.new [] true false : ProbeLogWriter)
      shownProbes).any fun w => w.accepted.length == 2 &&
        decide (remaining ProbeEvent.timeMs w.history = [shownEvent])) = true := by
    decide +kernel
  obtain ⟨w, hw, hshown⟩ := (Option.any_eq_true _ _).mp hrun
  simp only [Bool.and_eq_true, beq_iff_eq, decide_eq_true_eq] at hshown
  have hcommits := @LogWriter.commits_of_actions _ _ probeChannelCap probeDrainBatch probeKind
    (.new [] true false) shownProbes (by simp [shownProbes, Faults.none])
  obtain ⟨-, -, hrecent⟩ := probeLog_read (fun _ => none) hcommits hw (some 20)
    (by decide : 100 < 2 ^ 63)
  exact ⟨w, hw, hshown.1, hshown.2, hrecent⟩

end Bulwark.Server
