import Mathlib.Algebra.Order.Group.Int
import Mathlib.Tactic.Common

/-!
# Values that are kept for a while

A pin is a value and the time it was put away.  It is read while it is younger than its
lifetime.  What is read from one pin and put away in the next grows older than the lifetime
of either, but not older than both together and the time between.
-/

namespace Bulwark.Foundation

structure Pin (α : Type) where
  since : Int
  value : α
  deriving DecidableEq, Repr

variable {α β : Type}

def Pin.read (p : Pin α) (ttl now : Int) : Option α :=
  if now - p.since < ttl then some p.value else none

/-- The value comes from a source, and is younger than `age`. -/
def Aged (Source : Pin α → Prop) (age now : Int) (a : α) : Prop :=
  ∃ s, Source s ∧ s.value = a ∧ s.since ≤ now ∧ now - s.since < age

namespace Aged

variable {Source Source' : Pin α → Prop} {age age' now now' : Int} {a : α}

theorem mono (h : Aged Source age now a) (hsource : ∀ s, Source s → Source' s)
    (hage : age ≤ age') : Aged Source' age' now a := by
  obtain ⟨s, hs, hvalue, hbefore, hyoung⟩ := h
  exact ⟨s, hsource s hs, hvalue, hbefore, by omega⟩

/-- Just found. -/
theorem found (s : Pin α) (h : Source s) (hage : 0 < age) : Aged Source age s.since s.value :=
  ⟨s, h, rfl, le_rfl, by omega⟩

theorem wait (h : Aged Source age now a) (hnow : now ≤ now') (hage : age + (now' - now) ≤ age') :
    Aged Source age' now' a := by
  obtain ⟨s, hs, hvalue, hbefore, hyoung⟩ := h
  exact ⟨s, hs, hvalue, by omega, by omega⟩

/-- What was put away with a pin and is read from it. -/
theorem read {p : Pin β} {b : β} {ttl : Int} (h : Aged Source age p.since a)
    (hread : p.read ttl now = some b) (hnow : p.since ≤ now) : Aged Source (age + ttl) now a := by
  unfold Pin.read at hread
  split at hread
  · exact h.wait hnow (by omega)
  · cases hread

end Aged

theorem Pin.read_eq_some {p : Pin α} {ttl now : Int} {a : α} (h : p.read ttl now = some a) :
    p.value = a ∧ now - p.since < ttl := by
  unfold Pin.read at h
  split at h <;> cases h
  exact ⟨rfl, by assumption⟩

end Bulwark.Foundation
