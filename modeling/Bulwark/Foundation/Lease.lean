import Mathlib.Data.Option.Basic
import Mathlib.Order.Basic
import Mathlib.Order.Nat
import Mathlib.Tactic.Common

/-!
# One shared resource, made anew when it is spent

Clients take the lock to get the resource that is kept.  If there is none, or it is not
alive, the lock stays theirs while they make a new one.  Resources are numbered as they are
made: a newer one has a larger number, and one that is no longer kept is never kept again.
-/

namespace Bulwark.Foundation

structure Lease where
  kept : Option Nat := none
  /-- The client that makes a new one. -/
  holder : Option Nat := none
  made : Nat := 0

namespace Lease

/-- The lock, and the resource if the one that is kept is alive. -/
def acquire (s : Lease) (client : Nat) (alive : Nat → Bool) : Option (Option Nat × Lease) :=
  if s.holder = none then
    match s.kept.filter alive with
    | some r => some (some r, s)
    | none => some (none, { s with holder := some client })
  else none

def fill (s : Lease) (client : Nat) : Option Lease :=
  if s.holder = some client then some ⟨some s.made, none, s.made + 1⟩ else none

def giveUp (s : Lease) (client : Nat) : Option Lease :=
  if s.holder = some client then some { s with holder := none } else none

/-- Keeps the resource no longer, if it is one of these. -/
def forget (s : Lease) (gone : Nat → Bool) : Option Lease :=
  if s.holder = none then some { s with kept := s.kept.filter fun r => !gone r } else none

/-! ## What stays as it is -/

/-- Only new resources come to be kept. -/
structure Later (s s' : Lease) : Prop where
  made_le : s.made ≤ s'.made
  kept : ∀ r, s'.kept = some r → s.kept = some r ∨ s.made ≤ r

theorem Later.refl (s : Lease) : s.Later s := ⟨le_rfl, fun _ => .inl⟩

theorem Later.trans {s t u : Lease} (hst : s.Later t) (htu : t.Later u) : s.Later u where
  made_le := hst.made_le.trans htu.made_le
  kept r hr := by
    rcases htu.kept r hr with hr | hr
    · exact hst.kept r hr
    · exact .inr (hst.made_le.trans hr)

theorem Later.forgotten {s s' : Lease} (h : s.Later s') {r : Nat} (hr : r < s.made)
    (hgone : s.kept ≠ some r) : s'.kept ≠ some r := by
  intro hkept
  rcases h.kept r hkept with hkept | hle
  · exact hgone hkept
  · omega

/-- What is kept is the last one made, and all others had a reason to go. -/
structure Sound (spent : Nat → Prop) (s : Lease) : Prop where
  last : ∀ r, s.kept = some r → r + 1 = s.made
  spent_of_gone : ∀ r, r < s.made → s.kept ≠ some r → spent r
  spent_of_held : ∀ client, s.holder = some client → ∀ r, s.kept = some r → spent r

theorem Sound.init (spent : Nat → Prop) : Sound spent {} where
  last := by simp
  spent_of_gone := by simp
  spent_of_held := by simp

variable {s s' : Lease} {client : Nat} {spent : Nat → Prop}

theorem Sound.mono {spent' : Nat → Prop} (h : s.Sound spent)
    (hmono : ∀ r, r < s.made → spent r → spent' r) : s.Sound spent' where
  last := h.last
  spent_of_gone r hr hgone := hmono r hr (h.spent_of_gone r hr hgone)
  spent_of_held client hheld r hr := by
    have := h.last r hr
    exact hmono r (by omega) (h.spent_of_held client hheld r hr)

theorem Sound.lt (h : s.Sound spent) {r : Nat} (hr : s.kept = some r) : r < s.made := by
  have := h.last r hr
  omega

/-! ## The operations -/

theorem acquire_eq_some {alive : Nat → Bool} {got : Option Nat}
    (h : s.acquire client alive = some (got, s')) : s.holder = none ∧
      ((∃ r, got = some r ∧ s.kept = some r ∧ alive r = true ∧ s' = s) ∨
        got = none ∧ (∀ r, s.kept = some r → alive r = false) ∧
          s' = { s with holder := some client }) := by
  unfold acquire at h
  split at h
  · rename_i hfree
    refine ⟨hfree, ?_⟩
    split at h
    · rename_i r hr
      cases h
      simp only [Option.filter_eq_some_iff] at hr
      exact .inl ⟨r, rfl, hr.1, hr.2, rfl⟩
    · rename_i hnone
      cases h
      refine .inr ⟨rfl, fun r hr => ?_, rfl⟩
      simpa [hr] using hnone
  · cases h

theorem fill_eq_some (h : s.fill client = some s') :
    s.holder = some client ∧ s' = ⟨some s.made, none, s.made + 1⟩ := by
  unfold fill at h
  split at h <;> cases h
  exact ⟨by assumption, rfl⟩

theorem giveUp_eq_some (h : s.giveUp client = some s') :
    s.holder = some client ∧ s' = { s with holder := none } := by
  unfold giveUp at h
  split at h <;> cases h
  exact ⟨by assumption, rfl⟩

theorem forget_eq_some {gone : Nat → Bool} (h : s.forget gone = some s') :
    s.holder = none ∧ s' = { s with kept := s.kept.filter fun r => !gone r } := by
  unfold forget at h
  split at h <;> cases h
  exact ⟨by assumption, rfl⟩

theorem Sound.hold (h : s.Sound spent) (hspent : ∀ r, s.kept = some r → spent r) :
    Sound spent { s with holder := some client } where
  last := h.last
  spent_of_gone := h.spent_of_gone
  spent_of_held _ _ := hspent

theorem Sound.fill (h : s.Sound spent) (hfill : s.fill client = some s') : s'.Sound spent := by
  obtain ⟨hheld, rfl⟩ := fill_eq_some hfill
  refine ⟨by simp, fun r hr hgone => ?_, by simp⟩
  simp only [ne_eq, Option.some.injEq] at hgone
  by_cases hkept : s.kept = some r
  · exact h.spent_of_held client hheld r hkept
  · exact h.spent_of_gone r (by dsimp only at hr; omega) hkept

theorem Sound.giveUp (h : s.Sound spent) (hgiveUp : s.giveUp client = some s') :
    s'.Sound spent := by
  obtain ⟨-, rfl⟩ := giveUp_eq_some hgiveUp
  exact ⟨h.last, h.spent_of_gone, by simp⟩

theorem Sound.forget {gone : Nat → Bool} (h : s.Sound spent) (hforget : s.forget gone = some s')
    (hgone : ∀ r, s.kept = some r → gone r = true → spent r) : s'.Sound spent := by
  obtain ⟨hfree, rfl⟩ := forget_eq_some hforget
  refine ⟨fun r hr => h.last r ?_, fun r hr hnot => ?_, by simp [hfree]⟩
  · simp only [Option.filter_eq_some_iff] at hr
    exact hr.1
  · by_cases hkept : s.kept = some r
    · refine hgone r hkept ?_
      simpa [hkept] using hnot
    · exact h.spent_of_gone r hr hkept

theorem later_of_fill (h : s.fill client = some s') : s.Later s' := by
  obtain ⟨-, rfl⟩ := fill_eq_some h
  exact ⟨Nat.le_succ _, fun r hr => .inr (by simp at hr; omega)⟩

theorem later_of_giveUp (h : s.giveUp client = some s') : s.Later s' := by
  obtain ⟨-, rfl⟩ := giveUp_eq_some h
  exact ⟨le_rfl, fun _ => .inl⟩

theorem later_of_forget {gone : Nat → Bool} (h : s.forget gone = some s') : s.Later s' := by
  obtain ⟨-, rfl⟩ := forget_eq_some h
  refine ⟨le_rfl, fun r hr => .inl ?_⟩
  simp only [Option.filter_eq_some_iff] at hr
  exact hr.1

/-! ## How many are made -/

/-- All that were made but one that is still alive were paid for. -/
structure Counted (alive : Nat → Bool) (paid : Nat) (s : Lease) : Prop where
  made_le : s.made ≤ paid + (s.kept.any alive).toNat
  held : ∀ client, s.holder = some client → s.kept.any alive = false

variable {alive alive' : Nat → Bool} {paid : Nat}

theorem Counted.init (alive : Nat → Bool) : Counted alive 0 {} where
  made_le := by simp
  held := by simp

theorem Counted.hold (h : s.Counted alive paid) (hdead : ∀ r, s.kept = some r → alive r = false) :
    Counted alive paid { s with holder := some client } where
  made_le := h.made_le
  held _ _ := by
    cases hkept : s.kept with
    | none => rfl
    | some r => exact hdead r hkept

theorem Counted.fill (h : s.Counted alive paid) (hfill : s.fill client = some s')
    (halive : alive s.made = true) : s'.Counted alive paid := by
  obtain ⟨hheld, rfl⟩ := fill_eq_some hfill
  have hmade := h.made_le
  simp only [h.held client hheld, Bool.toNat_false] at hmade
  exact ⟨by simpa [halive] using hmade, by simp⟩

theorem Counted.giveUp (h : s.Counted alive paid) (hgiveUp : s.giveUp client = some s') :
    s'.Counted alive paid := by
  obtain ⟨-, rfl⟩ := giveUp_eq_some hgiveUp
  exact ⟨h.made_le, by simp⟩

theorem Counted.forget {gone : Nat → Bool} (h : s.Counted alive paid)
    (hforget : s.forget gone = some s') : s'.Counted alive (paid + 1) := by
  obtain ⟨hfree, rfl⟩ := forget_eq_some hforget
  refine ⟨?_, by simp [hfree]⟩
  have hmade := h.made_le
  have hone := Bool.toNat_le (s.kept.any alive)
  simp only
  omega

theorem Counted.dies (h : s.Counted alive paid) (hdies : ∀ r, alive' r = true → alive r = true) :
    s.Counted alive' (paid + 1) where
  made_le := by
    have hmade := h.made_le
    have hone := Bool.toNat_le (s.kept.any alive)
    omega
  held client hheld := by
    have hdead := h.held client hheld
    cases hkept : s.kept with
    | none => rfl
    | some r =>
        simp only [hkept, Option.any_some] at hdead ⊢
        cases halive : alive' r with
        | false => rfl
        | true => rw [hdies r halive] at hdead; cases hdead

end Lease

end Bulwark.Foundation
