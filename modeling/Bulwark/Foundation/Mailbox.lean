import Mathlib.Data.List.Basic
import Mathlib.Tactic.Common

/-!
# A bounded queue that is drained in batches

A sender leaves an item or is refused where the queue is full; it never waits.  The one
receiver takes items as long as there are any, up to a limit, and hands them on together.
What was left and not handed on yet is the batch and the queue behind it.
-/

namespace Bulwark.Foundation

structure Mailbox (α : Type) (capacity limit : Nat) where
  queue : List α
  batch : List α
  queue_le : queue.length ≤ capacity
  batch_le : batch.length ≤ limit

namespace Mailbox

variable {α : Type} {capacity limit : Nat}

def empty : Mailbox α capacity limit := ⟨[], [], Nat.zero_le _, Nat.zero_le _⟩

theorem length_concat_le {xs : List α} (a : α) (h : xs.length < capacity) :
    (xs ++ [a]).length ≤ capacity := by
  simp
  omega

def trySend (m : Mailbox α capacity limit) (a : α) : Option (Mailbox α capacity limit) :=
  if h : m.queue.length < capacity then
    some ⟨m.queue ++ [a], m.batch, length_concat_le a h, m.batch_le⟩
  else none

def take (m : Mailbox α capacity limit) : Option (Mailbox α capacity limit) :=
  match hqueue : m.queue with
  | [] => none
  | a :: queue =>
      if h : m.batch.length < limit then
        some ⟨queue, m.batch ++ [a], by have := m.queue_le; simp [hqueue] at this; omega,
          by simp; omega⟩
      else none

/-- Hands on what was taken, once there is no more or the batch is full. -/
def handOn (m : Mailbox α capacity limit) : Option (List α × Mailbox α capacity limit) :=
  if m.batch ≠ [] ∧ (m.queue = [] ∨ limit ≤ m.batch.length) then
    some (m.batch, ⟨m.queue, [], m.queue_le, Nat.zero_le _⟩)
  else none

def contents (m : Mailbox α capacity limit) : List α := m.batch ++ m.queue

@[simp] theorem contents_empty : (empty : Mailbox α capacity limit).contents = [] := rfl

theorem contents_of_trySend {m m' : Mailbox α capacity limit} {a : α}
    (h : m.trySend a = some m') : m'.contents = m.contents ++ [a] := by
  unfold trySend at h
  split at h <;> cases h
  simp [contents]

theorem contents_of_take {m m' : Mailbox α capacity limit} (h : m.take = some m') :
    m'.contents = m.contents := by
  unfold take at h
  split at h
  · cases h
  · rename_i a queue hqueue
    split at h <;> cases h
    simp [contents, hqueue]

theorem handOn_spec {m m' : Mailbox α capacity limit} {batch : List α}
    (h : m.handOn = some (batch, m')) :
    m.contents = batch ++ m'.contents ∧ batch ≠ [] ∧ batch.length ≤ limit := by
  unfold handOn at h
  split at h
  · rename_i hready
    cases h
    exact ⟨by simp [contents], hready.1, m.batch_le⟩
  · cases h

end Mailbox

end Bulwark.Foundation
