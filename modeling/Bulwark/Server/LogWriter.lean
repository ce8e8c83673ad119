import Bulwark.Foundation.Mailbox
import Bulwark.Server.LogStore

/-!
# From a push to the table

`QueryLog` and `ProbeLog` pass entries through a bounded channel to a writer, which stores
them in batches; a pruner and the API delete beside it.  A push reads the two flags one
after the other and then sends, so a reconfiguration may fall in between.  An entry that
was accepted is stored, lost with its batch, or on its way, in the order it was accepted.
-/

namespace Bulwark.Server

open Bulwark.Foundation

/-! ## The log -/

inductive PushPhase (α : Type) where
  | passed (entry : α)
  | ready (entry : α)

inductive Written (α : Type) where
  | stored (batch : List α)
  | lost (batch : List α)
  | pruned (cutoff : Int)
  | cleared

structure LogWriter (τ α : Type) (capacity limit : Nat) where
  enabled : Bool
  anonymize : Bool
  attached : Bool
  dropped : Nat
  pushes : Nat → Option (PushPhase α)
  mailbox : Mailbox α capacity limit
  storing : Option (List α)
  conn : Connection τ
  /-- What the channel has accepted, and what was done to the table. -/
  accepted : List α
  history : List (Written α)

inductive LogAction (α : Type) where
  | push (p : Nat) (entry : α)
  | gate (p : Nat)
  | send (p : Nat)
  | setEnabled (enabled : Bool)
  | setAnonymize (anonymize : Bool)
  | attach
  | take
  | handOn
  | insert (faults : Faults)
  | prune (nowMs : Int) (retentionDays : UInt32) (fails : Bool)
  | clear (fails : Bool)

variable {τ α : Type} {capacity limit : Nat}

/-- What the log leaves out of an entry, and its table. -/
structure LogKind (τ α : Type) where
  table : LogTable τ α
  anonymized : α → α
  timeMs : α → Int

namespace LogWriter

def setPush (w : LogWriter τ α capacity limit) (p : Nat) (phase : Option (PushPhase α)) :
    LogWriter τ α capacity limit :=
  { w with pushes := Function.update w.pushes p phase }

/-- `try_send`; a full channel drops the entry. -/
def sendEntry (w : LogWriter τ α capacity limit) (entry : α) : LogWriter τ α capacity limit :=
  if w.attached then
    match w.mailbox.trySend entry with
    | some mailbox => { w with mailbox := mailbox, accepted := w.accepted ++ [entry] }
    | none => { w with dropped := w.dropped + 1 }
  else w

/-- `now_ms() - retention * 86_400_000`, where the retention is not zero. -/
def cutoffMs (nowMs : Int) (retentionDays : UInt32) : Int :=
  nowMs - retentionDays.toNat * 86400000

variable (kind : LogKind τ α)

def insertBatch (w : LogWriter τ α capacity limit) (faults : Faults) (batch : List α) :
    LogWriter τ α capacity limit :=
  let (conn, result) := kind.table.insertBatch faults w.conn batch
  { w with
    storing := none
    conn := conn
    history := w.history ++ [match result with | .ok _ => .stored batch | .error _ => .lost batch] }

def delete (w : LogWriter τ α capacity limit) (call : Call α) (written : Written α) :
    LogWriter τ α capacity limit :=
  let (conn, result) := call.run kind.table w.conn
  { w with
    conn := conn
    history := w.history ++ match result with | .ok _ => [written] | .error _ => [] }

def step (w : LogWriter τ α capacity limit) : LogAction α → Option (LogWriter τ α capacity limit)
  | .push p entry =>
      match w.pushes p with
      | some _ => none
      | none => some (if w.enabled then w.setPush p (some (.passed entry)) else w)
  | .gate p =>
      match w.pushes p with
      | some (.passed entry) =>
          some (w.setPush p (some (.ready (if w.anonymize then kind.anonymized entry else entry))))
      | _ => none
  | .send p =>
      match w.pushes p with
      | some (.ready entry) => some ((w.setPush p none).sendEntry entry)
      | _ => none
  | .setEnabled enabled => some { w with enabled := enabled }
  | .setAnonymize anonymize => some { w with anonymize := anonymize }
  | .attach => some { w with attached := true }
  | .take =>
      match w.storing with
      | some _ => none
      | none => w.mailbox.take.map fun mailbox => { w with mailbox := mailbox }
  | .handOn =>
      match w.storing with
      | some _ => none
      | none => w.mailbox.handOn.map fun (batch, mailbox) =>
          { w with mailbox := mailbox, storing := some batch }
  | .insert faults => w.storing.map (w.insertBatch kind faults)
  | .prune nowMs retentionDays fails =>
      if retentionDays = 0 then some w
      else
        let cutoff := cutoffMs nowMs retentionDays
        some (w.delete kind (.deleteOlderThan fails cutoff) (.pruned cutoff))
  | .clear fails => some (w.delete kind (.clear fails) .cleared)

def new (rows : τ) (enabled anonymize : Bool) : LogWriter τ α capacity limit :=
  ⟨enabled, anonymize, false, 0, fun _ => none, .empty, none, .idle rows, [], []⟩

end LogWriter

/-! ## The log without a database -/

def Written.batch? : Written α → Option (List α)
  | .stored batch | .lost batch => some batch
  | _ => none

def Written.batch (written : Written α) : List α := written.batch?.getD []

def Written.apply (timeMs : α → Int) (log : List α) : Written α → List α
  | .stored batch => log ++ batch
  | .lost _ => log
  | .pruned cutoff => log.filter fun e => !decide (timeMs e < cutoff)
  | .cleared => []

/-- The entries that a history leaves. -/
def remaining (timeMs : α → Int) (history : List (Written α)) : List α :=
  history.foldl (Written.apply timeMs) []

/-- The table holds the entries of a list, as far as the three writes are concerned. -/
structure LogKind.Represents (kind : LogKind τ α) (R : τ → List α → Prop) : Prop where
  insert : ∀ {rows log} (e : α), R rows log → R (kind.table.insert rows e) (log ++ [e])
  delete : ∀ {rows log} (cutoff : Int), R rows log →
    R (kind.table.deleteOlderThan rows cutoff).1
      (log.filter fun e => !decide (kind.timeMs e < cutoff))
  clear : ∀ {rows log}, R rows log → R (kind.table.clear rows) []

theorem LogKind.Represents.insertEach {kind : LogKind τ α} {R : τ → List α → Prop}
    (h : kind.Represents R) {rows : τ} {log : List α} (hrows : R rows log) (entries : List α) :
    R (kind.table.insertEach rows entries) (log ++ entries) := by
  induction entries generalizing rows log with
  | nil => simpa [LogTable.insertEach] using hrows
  | cons e entries ih =>
      have hnext := ih (h.insert e hrows)
      simpa [LogTable.insertEach] using hnext

/-! ## What is kept -/

namespace LogWriter

variable {kind : LogKind τ α} {R : τ → List α → Prop}

/-- No entry that was accepted is missing, stored twice or out of order. -/
structure Exact (w : LogWriter τ α capacity limit) (kind : LogKind τ α)
    (R : τ → List α → Prop) : Prop where
  flow : w.accepted =
    w.history.flatMap Written.batch ++ w.storing.getD [] ++ w.mailbox.contents
  batches : ∀ batch, w.storing = some batch ∨ (∃ x ∈ w.history, x.batch? = some batch) →
    batch ≠ [] ∧ batch.length ≤ limit
  idle : w.conn.pending = none
  table : R w.conn.committed (remaining kind.timeMs w.history)

/-- The insertion that is made, if any, does not fail at its commit. -/
def Commits (w : LogWriter τ α capacity limit) : LogAction α → Prop
  | .insert faults => ∀ batch, w.storing = some batch → ¬ CommitFails faults batch
  | _ => True

theorem remaining_append (timeMs : α → Int) (history written : List (Written α)) :
    remaining timeMs (history ++ written) =
      written.foldl (Written.apply timeMs) (remaining timeMs history) :=
  List.foldl_append

theorem Exact.same {w v : LogWriter τ α capacity limit} (h : w.Exact kind R)
    (hmailbox : v.mailbox = w.mailbox) (hstoring : v.storing = w.storing) (hconn : v.conn = w.conn)
    (haccepted : v.accepted = w.accepted) (hhistory : v.history = w.history) : v.Exact kind R where
  flow := by rw [haccepted, hhistory, hstoring, hmailbox]; exact h.flow
  batches := by rw [hstoring, hhistory]; exact h.batches
  idle := hconn ▸ h.idle
  table := by rw [hconn, hhistory]; exact h.table

theorem Exact.sendEntry {w : LogWriter τ α capacity limit} (h : w.Exact kind R) (entry : α) :
    (w.sendEntry entry).Exact kind R := by
  unfold LogWriter.sendEntry
  split
  · split
    · rename_i mailbox hsend
      refine ⟨?_, h.batches, h.idle, h.table⟩
      simp [Mailbox.contents_of_trySend hsend, h.flow]
    · exact h.same rfl rfl rfl rfl rfl
  · exact h

theorem Exact.written {w : LogWriter τ α capacity limit} (h : w.Exact kind R) {x : Written α}
    {rows : τ} {storing : Option (List α)} (hflow : w.storing.getD [] = x.batch ++ storing.getD [])
    (hbatch : ∀ batch, storing = some batch ∨ x.batch? = some batch →
      batch ≠ [] ∧ batch.length ≤ limit)
    (hrows : R rows (x.apply kind.timeMs (remaining kind.timeMs w.history))) :
    ({ w with storing := storing, conn := .idle rows, history := w.history ++ [x] }).Exact
      kind R where
  flow := by simp [h.flow, hflow]
  batches := by
    rintro batch (hb | ⟨y, hy, hb⟩)
    · exact hbatch batch (.inl hb)
    · rcases List.mem_append.mp hy with hold | hnew
      · exact h.batches batch (.inr ⟨y, hold, hb⟩)
      · rw [List.mem_singleton.mp hnew] at hb
        exact hbatch batch (.inr hb)
  idle := rfl
  table := by simpa [remaining_append] using hrows

theorem Exact.insertBatch (hR : kind.Represents R) {w : LogWriter τ α capacity limit}
    (h : w.Exact kind R) {faults : Faults} {batch : List α} (hstoring : w.storing = some batch)
    (hcommit : ¬ CommitFails faults batch) : (w.insertBatch kind faults batch).Exact kind R := by
  obtain ⟨hne, hlimit⟩ := h.batches batch (.inl hstoring)
  have hbatch : ∀ batch', (none : Option (List α)) = some batch' ∨ some batch = some batch' →
      batch' ≠ [] ∧ batch'.length ≤ limit := by
    rintro batch' (⟨⟨⟩⟩ | ⟨⟨⟩⟩)
    exact ⟨hne, hlimit⟩
  have hflow : w.storing.getD [] = batch ++ (none : Option (List α)).getD [] := by simp [hstoring]
  unfold LogWriter.insertBatch
  rw [Connection.eq_idle h.idle]
  rcases insertBatch_cases kind.table faults w.conn.committed hne with
    ⟨-, -, e, hrun⟩ | ⟨hfails, -⟩ | ⟨-, hrun⟩
  · rw [hrun]
    exact h.written (x := .lost batch) hflow hbatch h.table
  · exact (hcommit hfails).elim
  · rw [hrun]
    exact h.written (x := .stored batch) hflow hbatch (hR.insertEach h.table batch)

theorem Exact.delete {w : LogWriter τ α capacity limit} (h : w.Exact kind R) {call : Call α}
    {x : Written α} (hx : x.batch? = none)
    (hdone : (∃ e, call.run kind.table w.conn = (w.conn, .error e)) ∨
      ∃ rows reply, call.run kind.table w.conn = (.idle rows, .ok reply) ∧
        R rows (x.apply kind.timeMs (remaining kind.timeMs w.history))) :
    (w.delete kind call x).Exact kind R := by
  unfold LogWriter.delete
  rcases hdone with ⟨e, hrun⟩ | ⟨rows, reply, hrun, hrows⟩
  · rw [hrun]
    exact h.same rfl rfl rfl rfl (by simp)
  · rw [hrun]
    refine @written _ _ _ _ _ _ w h x rows w.storing (by simp [Written.batch, hx])
      (fun batch hb => ?_) hrows
    rcases hb with hb | hb
    · exact h.batches batch (.inl hb)
    · rw [hx] at hb
      cases hb

theorem write_idle {β : Type} (rows : τ) (f : τ → τ × β) (fails : Bool) :
    (∃ e, (Connection.idle rows).write f fails = (.idle rows, .error e)) ∨
      (Connection.idle rows).write f fails = (.idle (f rows).1, .ok (f rows).2) := by
  cases fails
  · exact .inr rfl
  · exact .inl ⟨_, rfl⟩

theorem Exact.prune (hR : kind.Represents R) {w : LogWriter τ α capacity limit} (h : w.Exact kind R)
    (fails : Bool) (cutoff : Int) :
    (w.delete kind (.deleteOlderThan fails cutoff) (.pruned cutoff)).Exact kind R := by
  refine h.delete rfl ?_
  rw [Connection.eq_idle h.idle]
  rcases write_idle w.conn.committed (fun rows => kind.table.deleteOlderThan rows cutoff) fails
    with ⟨e, hrun⟩ | hrun
  · exact .inl ⟨e, by simp [Call.run, hrun, Except.map]⟩
  · exact .inr ⟨_, .removed (kind.table.deleteOlderThan w.conn.committed cutoff).2,
      by simp [Call.run, hrun, Except.map], hR.delete cutoff h.table⟩

theorem Exact.clear (hR : kind.Represents R) {w : LogWriter τ α capacity limit} (h : w.Exact kind R)
    (fails : Bool) : (w.delete kind (.clear fails) .cleared).Exact kind R := by
  refine h.delete rfl ?_
  rw [Connection.eq_idle h.idle]
  rcases write_idle w.conn.committed (fun rows => (kind.table.clear rows, Reply.done)) fails
    with ⟨e, hrun⟩ | hrun
  · exact .inl ⟨e, by simp [Call.run, hrun]⟩
  · exact .inr ⟨_, .done, by simp [Call.run, hrun], hR.clear h.table⟩

theorem Exact.mailbox {w : LogWriter τ α capacity limit} (h : w.Exact kind R)
    {m : Mailbox α capacity limit} {storing : Option (List α)}
    (hflow : w.storing.getD [] ++ w.mailbox.contents = storing.getD [] ++ m.contents)
    (hstoring : ∀ batch, storing = some batch → w.storing = some batch ∨
      batch ≠ [] ∧ batch.length ≤ limit) :
    ({ w with mailbox := m, storing := storing }).Exact kind R where
  flow := by simpa [List.append_assoc, hflow] using h.flow
  batches := by
    rintro batch (hb | hb)
    · rcases hstoring batch hb with hold | hnew
      · exact h.batches batch (.inl hold)
      · exact hnew
    · exact h.batches batch (.inr hb)
  idle := h.idle
  table := h.table

theorem Exact.step (hR : kind.Represents R) {w v : LogWriter τ α capacity limit} {a : LogAction α}
    (h : w.Exact kind R) (hcommits : w.Commits a) (hstep : w.step kind a = some v) :
    v.Exact kind R := by
  cases a with
  | push p entry =>
      simp only [LogWriter.step] at hstep
      split at hstep
      · cases hstep
      · cases hstep
        split
        · exact h.same rfl rfl rfl rfl rfl
        · exact h
  | gate p =>
      simp only [LogWriter.step] at hstep
      split at hstep
      · cases hstep
        exact h.same rfl rfl rfl rfl rfl
      · cases hstep
  | send p =>
      simp only [LogWriter.step] at hstep
      split at hstep
      · cases hstep
        exact Exact.sendEntry (w := w.setPush p none) (h.same rfl rfl rfl rfl rfl) _
      · cases hstep
  | setEnabled | setAnonymize | attach =>
      cases hstep
      exact h.same rfl rfl rfl rfl rfl
  | take =>
      simp only [LogWriter.step] at hstep
      split at hstep
      · cases hstep
      · obtain ⟨m, hm, rfl⟩ := Option.map_eq_some_iff.mp hstep
        refine h.mailbox ?_ fun batch hb => .inl hb
        rw [Mailbox.contents_of_take hm]
  | handOn =>
      simp only [LogWriter.step] at hstep
      split at hstep
      · cases hstep
      · rename_i hidle
        obtain ⟨⟨batch, m⟩, hm, rfl⟩ := Option.map_eq_some_iff.mp hstep
        obtain ⟨hcontents, hready⟩ := Mailbox.handOn_spec hm
        refine h.mailbox (by simp [hidle, hcontents]) ?_
        rintro _ ⟨⟩
        exact .inr hready
  | insert faults =>
      obtain ⟨batch, hstoring, rfl⟩ := Option.map_eq_some_iff.mp hstep
      exact h.insertBatch hR hstoring (hcommits batch hstoring)
  | prune nowMs retentionDays fails =>
      simp only [LogWriter.step] at hstep
      split at hstep
      · cases hstep
        exact h
      · cases hstep
        exact h.prune hR fails _
  | clear fails =>
      cases hstep
      exact h.clear hR fails

/-- In every run in which no commit fails, whatever else fails and however pushes, the writer, the
pruner and the API interleave: what was accepted is, in its order, in the batches that were
inserted or lost, in the one that is inserted now and in the channel, and the table holds what
the stored batches, the prunings and the clearings leave. -/
theorem exact_of_run (hR : kind.Represents R) {rows : τ} (hrows : R rows [])
    {enabled anonymize : Bool} {as : List (LogAction α)} {w : LogWriter τ α capacity limit}
    (hcommits : EachStep (step kind) Commits
      (new rows enabled anonymize : LogWriter τ α capacity limit) as)
    (hrun : runFrom (step kind) (new rows enabled anonymize) as = some w) : w.Exact kind R := by
  refine runFrom_invariant (I := fun w => w.Exact kind R)
    (fun w a v ha hstep h => h.step hR ha hstep) ?_ hcommits hrun
  refine ⟨rfl, ?_, rfl, hrows⟩
  simp [new]

/-! ## What the flags keep out -/

/-- What a step can change of the flags, of the pushes on their way and of what is accepted. -/
inductive Pushes (w : LogWriter τ α capacity limit) (kind : LogKind τ α) :
    LogAction α → LogWriter τ α capacity limit → Prop where
  | pass {p : Nat} {entry : α} {v : LogWriter τ α capacity limit} (henabled : w.enabled = true)
      (hpushes : v.pushes = Function.update w.pushes p (some (.passed entry)))
      (hflags : v.enabled = w.enabled ∧ v.anonymize = w.anonymize)
      (haccepted : v.accepted = w.accepted) : w.Pushes kind (.push p entry) v
  | gate {p : Nat} {entry : α} {v : LogWriter τ α capacity limit}
      (hp : w.pushes p = some (.passed entry))
      (hpushes : v.pushes = Function.update w.pushes p
        (some (.ready (if w.anonymize then kind.anonymized entry else entry))))
      (hflags : v.enabled = w.enabled ∧ v.anonymize = w.anonymize)
      (haccepted : v.accepted = w.accepted) : w.Pushes kind (.gate p) v
  | send {p : Nat} {entry : α} {v : LogWriter τ α capacity limit}
      (hp : w.pushes p = some (.ready entry))
      (hpushes : v.pushes = Function.update w.pushes p none)
      (hflags : v.enabled = w.enabled ∧ v.anonymize = w.anonymize)
      (haccepted : v.accepted = w.accepted ∨ v.accepted = w.accepted ++ [entry]) :
      w.Pushes kind (.send p) v
  | setEnabled (enabled : Bool) : w.Pushes kind (.setEnabled enabled) { w with enabled := enabled }
  | setAnonymize (anonymize : Bool) :
      w.Pushes kind (.setAnonymize anonymize) { w with anonymize := anonymize }
  | rest {a : LogAction α} {v : LogWriter τ α capacity limit} (hpushes : v.pushes = w.pushes)
      (hflags : v.enabled = w.enabled ∧ v.anonymize = w.anonymize)
      (haccepted : v.accepted = w.accepted) : w.Pushes kind a v

theorem pushes_of_step {w v : LogWriter τ α capacity limit} {a : LogAction α}
    (h : w.step kind a = some v) : w.Pushes kind a v := by
  cases a with
  | push p entry =>
      simp only [step] at h
      split at h
      · cases h
      · cases h
        split
        · exact .pass ‹_› rfl ⟨rfl, rfl⟩ rfl
        · exact .rest rfl ⟨rfl, rfl⟩ rfl
  | gate p =>
      simp only [step] at h
      split at h
      · cases h
        exact .gate ‹_› rfl ⟨rfl, rfl⟩ rfl
      · cases h
  | send p =>
      simp only [step] at h
      split at h
      · rename_i entry hp
        cases h
        unfold sendEntry
        split
        · split
          · exact .send hp rfl ⟨rfl, rfl⟩ (.inr rfl)
          · exact .send hp rfl ⟨rfl, rfl⟩ (.inl rfl)
        · exact .send hp rfl ⟨rfl, rfl⟩ (.inl rfl)
      · cases h
  | setEnabled enabled =>
      cases h
      exact .setEnabled enabled
  | setAnonymize anonymize =>
      cases h
      exact .setAnonymize anonymize
  | attach | clear =>
      cases h
      exact .rest rfl ⟨rfl, rfl⟩ rfl
  | take | handOn =>
      simp only [step] at h
      split at h
      · cases h
      · obtain ⟨_, _, rfl⟩ := Option.map_eq_some_iff.mp h
        exact .rest rfl ⟨rfl, rfl⟩ rfl
  | insert faults =>
      obtain ⟨_, _, rfl⟩ := Option.map_eq_some_iff.mp h
      exact .rest rfl ⟨rfl, rfl⟩ rfl
  | prune nowMs retentionDays fails =>
      simp only [step] at h
      split at h <;> cases h <;> exact .rest rfl ⟨rfl, rfl⟩ rfl

/-- Where every push that is ready has `Q`, and stays so, what is accepted has it. -/
theorem accepted_of_kept {K : LogWriter τ α capacity limit → Prop} {A : LogAction α → Prop}
    {Q : α → Prop} {w v : LogWriter τ α capacity limit} {as : List (LogAction α)}
    (hready : ∀ u p e, K u → u.pushes p = some (.ready e) → Q e)
    (hstep : ∀ u a u', A a → K u → u.Pushes kind a u' → K u') (hK : K w) (hA : ∀ a ∈ as, A a)
    (hrun : runFrom (step kind) w as = some v) :
    ∃ later, v.accepted = w.accepted ++ later ∧ ∀ e ∈ later, Q e := by
  refine (runFrom_invariant (C := fun _ a => A a) (I := fun u => K u ∧ ∃ later,
    u.accepted = w.accepted ++ later ∧ ∀ e ∈ later, Q e) ?_ ⟨hK, [], by simp, by simp⟩
    (eachStep_of_actions hA w) hrun).2
  rintro u a u' ha hu ⟨hKu, later, hlater, hQ⟩
  have hpushes := pushes_of_step hu
  refine ⟨hstep u a u' ha hKu hpushes, ?_⟩
  cases hpushes with
  | pass _ _ _ haccepted | gate _ _ _ haccepted | rest _ _ haccepted =>
      exact ⟨later, haccepted.trans hlater, hQ⟩
  | setEnabled | setAnonymize => exact ⟨later, hlater, hQ⟩
  | @send p entry _ hp _ _ haccepted =>
      rcases haccepted with hsame | hmore
      · exact ⟨later, hsame.trans hlater, hQ⟩
      · refine ⟨later ++ [entry], by simp [hmore, hlater], fun e he => ?_⟩
        rcases List.mem_append.mp he with hold | hnew
        · exact hQ e hold
        · rw [List.mem_singleton.mp hnew]
          exact hready u p entry hKu hp

/-- What may still be accepted of the pushes that were on their way. -/
def Pending (w : LogWriter τ α capacity limit) (kind : LogKind τ α) (e : α) : Prop :=
  ∃ p, w.pushes p = some (.ready e) ∨
    ∃ entry, w.pushes p = some (.passed entry) ∧ (e = entry ∨ e = kind.anonymized entry)

/-- After the log was disabled, only pushes that were on their way are accepted. -/
theorem accepted_of_disabled {w v : LogWriter τ α capacity limit} (hoff : w.enabled = false)
    {as : List (LogAction α)} (hkept : ∀ a ∈ as, a ≠ .setEnabled true)
    (hrun : runFrom (step kind) w as = some v) :
    ∃ later, v.accepted = w.accepted ++ later ∧ ∀ e ∈ later, w.Pending kind e := by
  refine accepted_of_kept (K := fun u => u.enabled = false ∧
    (∀ p e, u.pushes p = some (.ready e) → w.Pending kind e) ∧
    ∀ p e, u.pushes p = some (.passed e) → w.pushes p = some (.passed e))
    (fun u p e hu => hu.2.1 p e) ?_
    ⟨hoff, fun p e hp => ⟨p, .inl hp⟩, fun p e hp => hp⟩ hkept hrun
  rintro u a u' ha ⟨hoff, hready, hpassed⟩ hpushes
  cases hpushes with
  | pass henabled =>
      rw [hoff] at henabled
      cases henabled
  | @gate p entry _ hp hnext hflags =>
      refine ⟨hflags.1.trans hoff, fun p' e hp' => ?_, fun p' e hp' => ?_⟩
      · rw [hnext, update_eq_some] at hp'
        rcases hp' with ⟨-, heq⟩ | ⟨-, hp'⟩
        · cases heq
          refine ⟨p, .inr ⟨entry, hpassed p entry hp, ?_⟩⟩
          cases u.anonymize <;> simp
        · exact hready p' e hp'
      · rw [hnext, update_eq_some] at hp'
        rcases hp' with ⟨-, ⟨⟩⟩ | ⟨-, hp'⟩
        exact hpassed p' e hp'
  | @send p entry _ hp hnext hflags =>
      have hold : ∀ p' phase, u'.pushes p' = some phase → u.pushes p' = some phase := by
        intro p' phase hp'
        rw [hnext, Function.update_apply] at hp'
        split at hp'
        · cases hp'
        · exact hp'
      exact ⟨hflags.1.trans hoff, fun p' e hp' => hready p' e (hold p' _ hp'),
        fun p' e hp' => hpassed p' e (hold p' _ hp')⟩
  | setEnabled enabled =>
      refine ⟨?_, hready, hpassed⟩
      cases enabled
      · rfl
      · exact (ha rfl).elim
  | setAnonymize anonymize => exact ⟨hoff, hready, hpassed⟩
  | rest hnext hflags => exact ⟨hflags.1.trans hoff, hnext ▸ hready, hnext ▸ hpassed⟩

/-- After the log was anonymized, the entries that are accepted are anonymized, but for those of
pushes that had passed the check. -/
theorem accepted_of_anonymized {w v : LogWriter τ α capacity limit} (hon : w.anonymize = true)
    {as : List (LogAction α)} (hkept : ∀ a ∈ as, a ≠ .setAnonymize false)
    (hrun : runFrom (step kind) w as = some v) :
    ∃ later, v.accepted = w.accepted ++ later ∧
      ∀ e ∈ later, (∃ entry, e = kind.anonymized entry) ∨ ∃ p, w.pushes p = some (.ready e) := by
  refine accepted_of_kept (K := fun u => u.anonymize = true ∧
    ∀ p e, u.pushes p = some (.ready e) →
      (∃ entry, e = kind.anonymized entry) ∨ ∃ p, w.pushes p = some (.ready e))
    (fun u p e hu => hu.2 p e) ?_ ⟨hon, fun p e hp => .inr ⟨p, hp⟩⟩ hkept hrun
  rintro u a u' ha ⟨hon, hready⟩ hpushes
  have hkeep : ∀ {p : Nat} {phase : Option (PushPhase α)},
      u'.pushes = Function.update u.pushes p phase →
      (∀ e, phase = some (.ready e) → ∃ entry, e = kind.anonymized entry) →
      ∀ p e, u'.pushes p = some (.ready e) →
        (∃ entry, e = kind.anonymized entry) ∨ ∃ p, w.pushes p = some (.ready e) := by
    intro p phase hnext hphase p' e hp'
    rw [hnext, Function.update_apply] at hp'
    split at hp'
    · exact .inl (hphase e hp')
    · exact hready p' e hp'
  cases hpushes with
  | pass _ hnext hflags => exact ⟨hflags.2.trans hon, hkeep hnext (by simp)⟩
  | @gate p entry _ hp hnext hflags =>
      refine ⟨hflags.2.trans hon, hkeep hnext ?_⟩
      rw [hon]
      rintro _ ⟨⟩
      exact ⟨entry, rfl⟩
  | send _ hnext hflags => exact ⟨hflags.2.trans hon, hkeep hnext (by simp)⟩
  | setEnabled enabled => exact ⟨hon, hready⟩
  | setAnonymize anonymize =>
      refine ⟨?_, hready⟩
      cases anonymize
      · exact (ha rfl).elim
      · rfl
  | rest hnext hflags => exact ⟨hflags.2.trans hon, hnext ▸ hready⟩

end LogWriter

end Bulwark.Server
