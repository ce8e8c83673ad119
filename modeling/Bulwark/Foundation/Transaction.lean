import Bulwark.Foundation.Runs

/-!
# Connections with transactions

A connection to a database: what is committed, and what an open transaction has made of it.
A statement may fail; it then changes nothing, and a commit that fails leaves its
transaction open.  Without a transaction a write is committed at once.
-/

namespace Bulwark.Foundation

inductive SqlError where
  | failed
  /-- A transaction cannot start within a transaction. -/
  | nested
  | noTransaction
  deriving DecidableEq, Repr

structure Connection (τ : Type) where
  committed : τ
  /-- The content as the open transaction sees it. -/
  pending : Option τ
  deriving DecidableEq, Repr

namespace Connection

variable {τ ρ : Type}

def idle (content : τ) : Connection τ := ⟨content, none⟩

@[simp] theorem committed_idle (content : τ) : (idle content).committed = content := rfl

@[simp] theorem pending_idle (content : τ) : (idle content).pending = none := rfl

theorem eq_idle {c : Connection τ} (h : c.pending = none) : c = idle c.committed := by
  cases c
  cases h
  rfl

def beginImmediate (c : Connection τ) (fails : Bool) : Connection τ × Except SqlError Unit :=
  if fails then (c, .error .failed)
  else
    match c.pending with
    | some _ => (c, .error .nested)
    | none => (⟨c.committed, some c.committed⟩, .ok ())

def write (c : Connection τ) (f : τ → τ × ρ) (fails : Bool) : Connection τ × Except SqlError ρ :=
  if fails then (c, .error .failed)
  else
    match c.pending with
    | some content => (⟨c.committed, some (f content).1⟩, .ok (f content).2)
    | none => (⟨(f c.committed).1, none⟩, .ok (f c.committed).2)

def commit (c : Connection τ) (fails : Bool) : Connection τ × Except SqlError Unit :=
  if fails then (c, .error .failed)
  else
    match c.pending with
    | some content => (⟨content, none⟩, .ok ())
    | none => (c, .error .noTransaction)

/-- A rollback without a transaction does nothing. -/
def rollback (c : Connection τ) : Connection τ := ⟨c.committed, none⟩

theorem beginImmediate_of_pending {c : Connection τ} (fails : Bool) (h : c.pending ≠ none) :
    ∃ e, c.beginImmediate fails = (c, .error e) := by
  obtain ⟨content, hpending⟩ := Option.ne_none_iff_exists'.mp h
  cases fails with
  | true => exact ⟨.failed, rfl⟩
  | false => exact ⟨.nested, by simp [beginImmediate, hpending]⟩

/-- Inside a transaction nothing is committed, and it stays open. -/
theorem write_of_pending {c : Connection τ} (f : τ → τ × ρ) (fails : Bool)
    (h : c.pending ≠ none) :
    (c.write f fails).1.committed = c.committed ∧ (c.write f fails).1.pending ≠ none := by
  obtain ⟨content, hpending⟩ := Option.ne_none_iff_exists'.mp h
  cases fails <;> simp [write, hpending]

theorem write_of_idle {c : Connection τ} (f : τ → τ × ρ) (fails : Bool) (h : c.pending = none) :
    (c.write f fails).1.pending = none := by
  cases fails <;> simp [write, h]

end Connection

end Bulwark.Foundation
