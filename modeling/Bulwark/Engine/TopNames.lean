import Bulwark.Foundation.SpaceSaving
import Bulwark.Engine.StatsCounts

/-!
# Top names

The estimators of the statistics are Space-Saving tables: a bump is one of its steps,
whichever least name the map meets first.
-/

namespace Bulwark.Engine

open Bulwark.Foundation

/-! ## Bumps -/

theorem saves_bump {cap : Nat} (hcap : 0 < cap) (order : Iteration) (h : HeavyHitters)
    (key : Text) : h.counts.Saves cap key (h.bump order key 1 cap).counts := by
  rcases @bump_cases order h key 1 cap hcap with
    ⟨v, hkey, heq⟩ | ⟨hkey, hroom, heq⟩ | ⟨hkey, hfull, least, v, hleast, hmin, heq⟩
  · rw [heq]
    exact .hit hkey
  · rw [heq]
    exact .room hkey hroom
  · rw [heq]
    refine .evict hkey hfull hleast fun k n hk => ?_
    exact hmin ⟨k, n⟩ (AList.mem_lookup_iff.mp hk)

def HeavyHitters.Estimates (cap : Nat) (seen : List Text) (h : HeavyHitters) : Prop :=
  ∃ slack, h.counts.Estimates cap slack seen

namespace HeavyHitters.Estimates

variable {cap : Nat} {seen : List Text} {h : HeavyHitters}

theorem empty (cap : Nat) : HeavyHitters.empty.Estimates cap [] :=
  ⟨0, Tally.Estimates.empty cap⟩

theorem bump (hcap : 0 < cap) (hh : h.Estimates cap seen) (order : Iteration) (key : Text) :
    (h.bump order key 1 cap).Estimates cap (seen ++ [key]) := by
  obtain ⟨slack, hslack⟩ := hh
  exact hslack.step (saves_bump hcap order h key)

theorem bounds (hcap : 0 < cap) (hh : h.Estimates cap seen) :
    h.counts.keys.length ≤ cap ∧ h.counts.total = seen.length ∧
      (∀ key n, h.counts.lookup key = some n →
        Tally.frequency seen key ≤ n ∧ n ≤ Tally.frequency seen key + seen.length / cap) ∧
      ∀ key, seen.length / cap < Tally.frequency seen key → key ∈ h.counts.keys := by
  obtain ⟨slack, hslack⟩ := hh
  have hle := hslack.slack_le hcap
  refine ⟨hslack.length_le, hslack.total_eq, fun key n hkey => ?_, fun key hfrequent => ?_⟩
  · have hkept := hslack.kept key n hkey
    omega
  · exact hslack.kept_of_frequent hcap hfrequent

end HeavyHitters.Estimates

def HeavyHitters.bumpAll (cap : Nat) (h : HeavyHitters) (bumps : List (Iteration × Text)) :
    HeavyHitters :=
  bumps.foldl (fun h b => h.bump b.1 b.2 1 cap) h

theorem estimates_bumpAll {cap : Nat} (hcap : 0 < cap) {seen : List Text} {h : HeavyHitters}
    (hh : h.Estimates cap seen) (bumps : List (Iteration × Text)) :
    (h.bumpAll cap bumps).Estimates cap (seen ++ bumps.map Prod.snd) := by
  induction bumps generalizing h seen with
  | nil => simpa [HeavyHitters.bumpAll] using hh
  | cons b bumps ih =>
      have hrest := ih (hh.bump hcap b.1 b.2)
      simpa [HeavyHitters.bumpAll] using hrest

/--
After any bumps of an empty estimator, with ties between least names broken at will, there
are at most `cap` names and the counts sum to the number of bumps.  No count is below the
frequency of its name or more than the average of a full table above it, and every name
that is more frequent than that average has a count.
-/
theorem bumpAll_bounds {cap : Nat} (hcap : 0 < cap) (bumps : List (Iteration × Text)) :
    let h := HeavyHitters.empty.bumpAll cap bumps
    let seen := bumps.map Prod.snd
    h.counts.keys.length ≤ cap ∧ h.counts.total = bumps.length ∧
      (∀ key n, h.counts.lookup key = some n →
        Tally.frequency seen key ≤ n ∧ n ≤ Tally.frequency seen key + bumps.length / cap) ∧
      ∀ key, bumps.length / cap < Tally.frequency seen key → key ∈ h.counts.keys := by
  have hall := estimates_bumpAll hcap (HeavyHitters.Estimates.empty cap) bumps
  simpa using hall.bounds hcap

/-- The second name takes over the count of the first. -/
theorem bumpAll_bounds_takeover :
    0 < 1 ∧ (HeavyHitters.empty.bumpAll 1 [(storedOrder, ['a']), (storedOrder, ['b'])]).counts.keys
        = [['b']] ∧
      (HeavyHitters.empty.bumpAll 1
        [(storedOrder, ['a']), (storedOrder, ['b'])]).counts.total = 2 :=
  ⟨by decide, by decide +kernel,
    (bumpAll_bounds (by decide : 0 < 1) [(storedOrder, ['a']), (storedOrder, ['b'])]).2.1⟩

end Bulwark.Engine
