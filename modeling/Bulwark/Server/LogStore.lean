import Bulwark.Foundation.Transaction

/-!
# Batches of a log

`QueryStore` and `ProbeStore` write alike: a batch is inserted in a transaction, which is
rolled back when an insert fails.  It is not rolled back when the commit fails.  The
transaction then stays open on the connection, no batch is stored any more, and what is
deleted afterwards is deleted inside of it.
-/

namespace Bulwark.Server

open Bulwark.Foundation

/-! ## Writing -/

/-- The table of a log, and what the three writes make of it. -/
structure LogTable (τ α : Type) where
  insert : τ → α → τ
  /-- The rest, and the number of rows removed. -/
  deleteOlderThan : τ → Int → τ × Nat
  clear : τ → τ

/-- Which statements of a batch fail by themselves; inserts by their place in the batch. -/
structure Faults where
  begin : Bool
  prepare : Bool
  insert : Nat → Bool
  commit : Bool

def Faults.none : Faults := ⟨false, false, fun _ => false, false⟩

variable {τ α : Type}

namespace LogTable

variable (table : LogTable τ α)

def insertRows (fails : Nat → Bool) : Nat → Connection τ → List α →
    Connection τ × Except SqlError Unit
  | _, conn, [] => (conn, .ok ())
  | i, conn, e :: entries =>
      match conn.write (fun rows => (table.insert rows e, ())) (fails i) with
      | (conn, .error err) => (conn, .error err)
      | (conn, .ok ()) => insertRows fails (i + 1) conn entries

def insertAll (faults : Faults) (conn : Connection τ) (entries : List α) :
    Connection τ × Except SqlError Unit :=
  if faults.prepare then (conn, .error .failed)
  else table.insertRows faults.insert 0 conn entries

def insertBatch (faults : Faults) (conn : Connection τ) (entries : List α) :
    Connection τ × Except SqlError Unit :=
  if entries = [] then (conn, .ok ())
  else
    match conn.beginImmediate faults.begin with
    | (conn, .error e) => (conn, .error e)
    | (conn, .ok ()) =>
        match table.insertAll faults conn entries with
        | (conn, .ok ()) => conn.commit faults.commit
        | (conn, .error e) => (conn.rollback, .error e)

end LogTable

inductive Call (α : Type) where
  | insertBatch (faults : Faults) (entries : List α)
  | deleteOlderThan (fails : Bool) (cutoff : Int)
  | clear (fails : Bool)

inductive Reply where
  | done
  | removed (rows : Nat)
  deriving DecidableEq, Repr

def Call.run (table : LogTable τ α) (conn : Connection τ) :
    Call α → Connection τ × Except SqlError Reply
  | .insertBatch faults entries =>
      let after := table.insertBatch faults conn entries
      (after.1, after.2.map fun _ => .done)
  | .deleteOlderThan fails cutoff =>
      let after := conn.write (fun rows => table.deleteOlderThan rows cutoff) fails
      (after.1, after.2.map .removed)
  | .clear fails => conn.write (fun rows => (table.clear rows, .done)) fails

def logStep (table : LogTable τ α) (conn : Connection τ) (call : Call α) :
    Option (Connection τ) :=
  some (call.run table conn).1

/-! ## What a batch can do -/

namespace LogTable

variable (table : LogTable τ α)

def insertEach (rows : τ) (entries : List α) : τ := entries.foldl table.insert rows

theorem insertRows_cases (fails : Nat → Bool) (i : Nat) (committed content : τ)
    (entries : List α) :
    ((∃ j < entries.length, fails (i + j) = true) ∧ ∃ content' e,
      table.insertRows fails i ⟨committed, some content⟩ entries =
        (⟨committed, some content'⟩, .error e)) ∨
    ((∀ j < entries.length, fails (i + j) = false) ∧
      table.insertRows fails i ⟨committed, some content⟩ entries =
        (⟨committed, some (table.insertEach content entries)⟩, .ok ())) := by
  induction entries generalizing i content with
  | nil => exact .inr ⟨by simp, rfl⟩
  | cons e entries ih =>
      cases hfails : fails i with
      | true =>
          refine .inl ⟨⟨0, by simp, by simpa⟩, content, .failed, ?_⟩
          simp [insertRows, Connection.write, hfails]
      | false =>
          have hnext : table.insertRows fails i ⟨committed, some content⟩ (e :: entries) =
              table.insertRows fails (i + 1) ⟨committed, some (table.insert content e)⟩
                entries := by
            simp [insertRows, Connection.write, hfails]
          rw [hnext]
          rcases ih (i + 1) (table.insert content e) with ⟨⟨j, hj, hfault⟩, hend⟩ | ⟨hnone, hend⟩
          · exact .inl ⟨⟨j + 1, by simpa using hj, by rwa [Nat.add_right_comm] at hfault⟩, hend⟩
          · refine .inr ⟨fun j hj => ?_, hend⟩
            cases j with
            | zero => exact hfails
            | succ j =>
                rw [← Nat.add_assoc, Nat.add_right_comm]
                exact hnone j (by simpa using hj)

end LogTable

def Faults.insertsFail (faults : Faults) (n : Nat) : Prop :=
  faults.prepare = true ∨ ∃ j < n, faults.insert j = true

/-- The first statement of the batch that fails is its `COMMIT`. -/
def CommitFails (faults : Faults) (entries : List α) : Prop :=
  entries ≠ [] ∧ faults.begin = false ∧ ¬ faults.insertsFail entries.length ∧
    faults.commit = true

theorem insertAll_cases (table : LogTable τ α) (faults : Faults) (committed content : τ)
    (entries : List α) :
    (faults.insertsFail entries.length ∧ ∃ content' e,
      table.insertAll faults ⟨committed, some content⟩ entries =
        (⟨committed, some content'⟩, .error e)) ∨
    (¬ faults.insertsFail entries.length ∧
      table.insertAll faults ⟨committed, some content⟩ entries =
        (⟨committed, some (table.insertEach content entries)⟩, .ok ())) := by
  cases hprepare : faults.prepare with
  | true =>
      refine .inl ⟨.inl hprepare, content, .failed, ?_⟩
      simp [LogTable.insertAll, hprepare]
  | false =>
      have hrows : table.insertAll faults ⟨committed, some content⟩ entries =
          table.insertRows faults.insert 0 ⟨committed, some content⟩ entries := by
        simp [LogTable.insertAll, hprepare]
      rw [hrows]
      rcases table.insertRows_cases faults.insert 0 committed content entries with
        ⟨hfault, hend⟩ | ⟨hnone, hend⟩
      · exact .inl ⟨.inr (by simpa using hfault), hend⟩
      · refine .inr ⟨?_, hend⟩
        simp only [Nat.zero_add] at hnone
        simpa [Faults.insertsFail, hprepare] using hnone

/-- From an idle connection: nothing happens, or all of it, or the transaction stays open. -/
theorem insertBatch_cases (table : LogTable τ α) (faults : Faults) (rows : τ)
    {entries : List α} (hne : entries ≠ []) :
    (¬ CommitFails faults entries ∧ (faults.begin = true ∨ faults.insertsFail entries.length) ∧
      ∃ e, table.insertBatch faults (.idle rows) entries = (.idle rows, .error e)) ∨
    (CommitFails faults entries ∧ ∃ content e,
      table.insertBatch faults (.idle rows) entries = (⟨rows, some content⟩, .error e)) ∨
    (¬ CommitFails faults entries ∧
      table.insertBatch faults (.idle rows) entries =
        (.idle (table.insertEach rows entries), .ok ())) := by
  rw [LogTable.insertBatch, if_neg hne]
  cases hbegin : faults.begin with
  | true =>
      refine .inl ⟨fun h => ?_, .inl rfl, .failed, rfl⟩
      rw [h.2.1] at hbegin
      cases hbegin
  | false =>
      have hopen : (Connection.idle rows).beginImmediate false = (⟨rows, some rows⟩, .ok ()) := rfl
      rw [hopen]
      dsimp only
      rcases insertAll_cases table faults rows rows entries with
        ⟨hfault, content, e, hend⟩ | ⟨hnone, hend⟩
      · rw [hend]
        exact .inl ⟨fun h => h.2.2.1 hfault, .inr hfault, e, rfl⟩
      · rw [hend]
        right
        cases hcommit : faults.commit with
        | true => exact .inl ⟨⟨hne, hbegin, hnone, hcommit⟩, _, .failed, rfl⟩
        | false =>
            refine .inr ⟨fun h => ?_, rfl⟩
            rw [h.2.2.2] at hcommit
            cases hcommit

/-! ## Runs of calls -/

/-- After a call the connection is in no transaction, a failed batch has left no row, and a
batch none of whose statements fails by itself has been stored. -/
structure Recovers (table : LogTable τ α) (conn : Connection τ) (call : Call α) : Prop where
  closed : (call.run table conn).1.pending = none
  failed : ∀ faults entries e, call = .insertBatch faults entries →
    (call.run table conn).2 = .error e → (call.run table conn).1.committed = conn.committed
  stored : ∀ entries, call = .insertBatch .none entries →
    (call.run table conn).2 = .ok .done ∧
      (call.run table conn).1.committed = table.insertEach conn.committed entries

def Call.CommitFails : Call α → Prop
  | .insertBatch faults entries => Server.CommitFails faults entries
  | _ => False

theorem not_insertsFail_none (n : Nat) : ¬ Faults.none.insertsFail n := by
  simp [Faults.insertsFail, Faults.none]

theorem recovers_idle_iff (table : LogTable τ α) (rows : τ) (call : Call α) :
    Recovers table (.idle rows) call ↔ ¬ call.CommitFails := by
  cases call with
  | deleteOlderThan fails cutoff =>
      refine iff_of_true ⟨?_, by simp, by simp⟩ id
      exact Connection.write_of_idle _ fails rfl
  | clear fails =>
      refine iff_of_true ⟨?_, by simp, by simp⟩ id
      exact Connection.write_of_idle _ fails rfl
  | insertBatch faults entries =>
      by_cases hne : entries = []
      · subst hne
        refine iff_of_true ⟨rfl, ?_, ?_⟩ (fun h => h.1 rfl)
        · intro faults' entries' e heq herror
          cases herror
        · intro entries' heq
          cases heq
          exact ⟨rfl, rfl⟩
      · rcases insertBatch_cases table faults rows hne with
          ⟨hcommit, hfault, e, hrun⟩ | ⟨hcommit, content, e, hrun⟩ | ⟨hcommit, hrun⟩
        · refine iff_of_true ⟨?_, ?_, ?_⟩ hcommit
          · simp [Call.run, hrun]
          · intro faults' entries' e' heq herror
            simp [Call.run, hrun]
          · intro entries' heq
            cases heq
            rcases hfault with hbegin | hinserts
            · cases hbegin
            · exact absurd hinserts (not_insertsFail_none _)
        · refine iff_of_false (fun h => ?_) (not_not.mpr hcommit)
          have hclosed := h.closed
          simp [Call.run, hrun] at hclosed
        · refine iff_of_true ⟨?_, ?_, ?_⟩ hcommit
          · simp [Call.run, hrun]
          · intro faults' entries' e heq herror
            simp [Call.run, hrun, Except.map] at herror
          · intro entries' heq
            cases heq
            simp [Call.run, hrun, Except.map]

/--
In every run of calls, each leaves the connection in no transaction, a failed batch without
a row, and a batch that is in order stored, if and only if no commit fails.
-/
theorem recovers_iff (table : LogTable τ α) (rows : τ) (calls : List (Call α)) :
    EachStep (logStep table) (Recovers table) (.idle rows) calls ↔
      ∀ call ∈ calls, ¬ call.CommitFails := by
  induction calls generalizing rows with
  | nil => simp [EachStep]
  | cons call calls ih =>
      rw [EachStep, recovers_idle_iff, List.forall_mem_cons]
      apply and_congr_right
      intro hcall
      obtain ⟨hclosed, -, -⟩ := (recovers_idle_iff table rows call).mpr hcall
      rw [← ih (call.run table (.idle rows)).1.committed, ← Connection.eq_idle hclosed]
      simp [logStep]

/-! ## After a failed commit -/

/-- While a transaction is open no call commits anything, and every batch fails. -/
theorem stuck_of_pending (table : LogTable τ α) {conn : Connection τ} (h : conn.pending ≠ none)
    (call : Call α) :
    (call.run table conn).1.pending ≠ none ∧
      (call.run table conn).1.committed = conn.committed ∧
        ∀ faults entries, call = .insertBatch faults entries → entries ≠ [] →
          ∃ e, (call.run table conn).2 = .error e := by
  cases call with
  | deleteOlderThan fails cutoff =>
      obtain ⟨hcommitted, hpending⟩ :=
        conn.write_of_pending (fun rows => table.deleteOlderThan rows cutoff) fails h
      exact ⟨hpending, hcommitted, by simp⟩
  | clear fails =>
      obtain ⟨hcommitted, hpending⟩ :=
        conn.write_of_pending (fun rows => (table.clear rows, Reply.done)) fails h
      exact ⟨hpending, hcommitted, by simp⟩
  | insertBatch faults entries =>
      by_cases hne : entries = []
      · subst hne
        refine ⟨h, rfl, ?_⟩
        intro faults' entries' heq hne
        cases heq
        exact absurd rfl hne
      · obtain ⟨e, hbegin⟩ := conn.beginImmediate_of_pending faults.begin h
        have hrun : table.insertBatch faults conn entries = (conn, .error e) := by
          rw [LogTable.insertBatch, if_neg hne, hbegin]
        refine ⟨by simpa [Call.run, hrun] using h, by simp [Call.run, hrun], ?_⟩
        intro faults' entries' heq _
        exact ⟨e, by simp [Call.run, hrun, Except.map]⟩

/-- Whatever is called after a failed commit, nothing of it is stored. -/
theorem stuck_of_run (table : LogTable τ α) {conn conn' : Connection τ}
    (h : conn.pending ≠ none) {calls : List (Call α)}
    (hrun : runFrom (logStep table) conn calls = some conn') :
    conn'.pending ≠ none ∧ conn'.committed = conn.committed := by
  refine runFrom_invariant (C := fun _ _ => True)
    (I := fun c => c.pending ≠ none ∧ c.committed = conn.committed)
    (fun c call c' _ hstep hc => ?_) ⟨h, rfl⟩ (eachStep_trivial _ _) hrun
  cases hstep
  obtain ⟨hpending, hcommitted, -⟩ := stuck_of_pending table hc.1 call
  exact ⟨hpending, hcommitted.trans hc.2⟩

end Bulwark.Server
